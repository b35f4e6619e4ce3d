import AssetPipeline.Main
import AssetPipeline.Proofs.Build.Completion
import AssetPipeline.Proofs.Build.Composition
import AssetPipeline.Proofs.Build.Containment
import AssetPipeline.Proofs.Build.Copying
import AssetPipeline.Proofs.Build.Course
import AssetPipeline.Proofs.Build.Events
import AssetPipeline.Proofs.Build.Feedback
import AssetPipeline.Proofs.Build.Footprint
import AssetPipeline.Proofs.Build.Frame
import AssetPipeline.Proofs.Build.History
import AssetPipeline.Proofs.Build.Idempotence
import AssetPipeline.Proofs.Build.Integrity
import AssetPipeline.Proofs.Build.Issues
import AssetPipeline.Proofs.Build.Launches
import AssetPipeline.Proofs.Build.Mirror
import AssetPipeline.Proofs.Build.Permissions
import AssetPipeline.Proofs.Build.Precedence
import AssetPipeline.Proofs.Build.Reporting
import AssetPipeline.Proofs.Build.Retention
import AssetPipeline.Proofs.Build.Retry
import AssetPipeline.Proofs.Build.Scratch
import AssetPipeline.Proofs.Build.Story
import AssetPipeline.Proofs.Build.Target
import AssetPipeline.Proofs.Build.Tools
import AssetPipeline.Proofs.Build.Visits
import AssetPipeline.Proofs.Build.WriteSet
import AssetPipeline.Proofs.Checked.Indices
import AssetPipeline.Proofs.Checked.Offsets
import AssetPipeline.Proofs.Checked.Run
import AssetPipeline.Proofs.Encoding.Expansion
import AssetPipeline.Proofs.Encoding.Keystream
import AssetPipeline.Proofs.Encoding.PrintedKey
import AssetPipeline.Proofs.Encoding.Progress
import AssetPipeline.Proofs.Encoding.Sources
import AssetPipeline.Proofs.Encoding.Steps
import AssetPipeline.Proofs.Encoding.Transfer
import AssetPipeline.Proofs.FileTree.Changes
import AssetPipeline.Proofs.FileTree.Descent
import AssetPipeline.Proofs.FileTree.Listing
import AssetPipeline.Proofs.FileTree.Making
import AssetPipeline.Proofs.FileTree.Opening
import AssetPipeline.Proofs.FileTree.Overwriting
import AssetPipeline.Proofs.FileTree.Passage
import AssetPipeline.Proofs.FileTree.Plain
import AssetPipeline.Proofs.FileTree.Soundness
import AssetPipeline.Proofs.FileTree.Trails
import AssetPipeline.Proofs.FileTree.Twins
import AssetPipeline.Proofs.FileTree.Walk
import AssetPipeline.Proofs.Path.Bare
import AssetPipeline.Proofs.Path.Location
import AssetPipeline.Proofs.Path.Moves
import AssetPipeline.Proofs.Path.Relative
import AssetPipeline.Proofs.Path.Renaming
import AssetPipeline.Proofs.Path.Twins
import AssetPipeline.Proofs.Script.Cuts
import AssetPipeline.Proofs.Script.Joining
import AssetPipeline.Proofs.Script.Layout
import AssetPipeline.Proofs.Script.Writing
import AssetPipeline.Proofs.Selection.Agreement
import AssetPipeline.Proofs.Selection.Matching
import AssetPipeline.Proofs.Selection.Members
import AssetPipeline.Proofs.Selection.Persistence
import AssetPipeline.Proofs.Selection.Resolution
import AssetPipeline.Proofs.Selection.Spelling
import AssetPipeline.Proofs.Text.Pieces
import AssetPipeline.Proofs.Text.Trimming
