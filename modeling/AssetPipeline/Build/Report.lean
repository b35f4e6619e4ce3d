/-
This file holds the report of a run: for each command of the script, the files it completed and
the error that ended it, if one did.
-/

import AssetPipeline.Build.Failure
import AssetPipeline.Build.Freshness

namespace AssetPipeline

/-- A file that a command completed. -/
structure Completion where
  /-- The source, relative to the source root. -/
  relative : Path
  /-- The output, relative to the output root. -/
  output : Path
  decision : Decision
  deriving DecidableEq

/-- What one command did. -/
structure CommandRecord where
  line : Nat
  verb : Text
  /-- The files completed before the command ended or failed. -/
  files : List Completion
  error? : Option CommandFailure
  deriving DecidableEq

/-- Did the command end without an error? -/
def CommandRecord.succeeded (report : CommandRecord) : Bool := report.error?.isNone

/-- What the commands of a script did, in order. -/
abbrev RunRecord := List CommandRecord

namespace RunRecord

/-- How many completed files had this decision? -/
def count (report : RunRecord) (decision : Decision) : Nat :=
  (report.flatMap (·.files)).countP (·.decision == decision)

/-- The number of files built. -/
def rebuilt (report : RunRecord) : Nat := report.count .rebuild

/-- The number of files that were up to date. -/
def upToDate (report : RunRecord) : Nat := report.count .upToDate

/-- The number of commands that failed. -/
def failed (report : RunRecord) : Nat := report.countP (!·.succeeded)

end RunRecord

end AssetPipeline
