/-
This file says where the output of a source file goes, makes room for it, and gives it the time
of its source, so that the next run finds it up to date.
-/

import AssetPipeline.Build.Failure
import AssetPipeline.FileTree.Directories
import AssetPipeline.Path.Extension

namespace AssetPipeline

namespace Path

/-- The path of an output, relative to the output root, when its source has this path relative
to the source root. -/
def output (relative : Path) (extension? : Option Text) : Path :=
  match extension? with
  | none => relative
  | some extension => relative.withExtension extension

/-- A path relative to the source root, as the log shows it. -/
def shownAsSource (relative : Path) : String := s!"$(SourcePath)/{relative}"

/-- A path relative to the output root, as the log shows it. -/
def shownAsOutput (relative : Path) : String := s!"$(OutputPath)/{relative}"

end Path

namespace FileTree

/-- Make the directory that will hold `path`, unless it is there. -/
def makeParent (tree : FileTree) (path : Path) : FileTree × Except CommandFailure Unit :=
  match path.parent? with
  | none => (tree, .ok ())
  | some parent =>
    if parent.text = [] ∨ tree.isDirectory parent then (tree, .ok ())
    else
      match tree.makeDirectories parent with
      | (made, .ok ()) => (made, .ok ())
      | (made, .error fault) => (made, .error (.directoryNotMade parent fault))

/-- Give `target` the time of modification of `source`. The mode of the target does not matter. -/
def copyModified (tree : FileTree) (source target : Path) : Except CommandFailure FileTree :=
  match tree.modified source with
  | .error fault => .error (.timeNotSet source fault)
  | .ok instant =>
    match tree.setModified target instant with
    | .error fault => .error (.timeNotSet target fault)
    | .ok stamped => .ok stamped

end FileTree

end AssetPipeline
