/-
This file lists what can go wrong in a build. The failure of a command stops this one command; a
failure to start stops the run before its first command.
-/

import AssetPipeline.FileTree.Walk

namespace AssetPipeline

/-- Why a command failed. -/
inductive CommandFailure where
  /-- There is no such verb. -/
  | unknownVerb (verb : Text)
  /-- The verb has the wrong number of parameters. -/
  | wrongCount (verb : Text) (expected found : Nat)
  /-- The root, or the directory to search below it, could not be found. -/
  | unsearchable (path : Path) (fault : Fault)
  /-- The walk through the directory to search stopped. -/
  | unlisted (error : WalkError)
  /-- The directory of an output could not be made. -/
  | directoryNotMade (path : Path) (fault : Fault)
  /-- A file could not be copied. -/
  | notCopied (source target : Path) (fault : Fault)
  /-- A time of modification could not be read or set. -/
  | timeNotSet (path : Path) (fault : Fault)
  /-- A tool could not be started. -/
  | notLaunched (tool : Path) (fault : Fault)
  /-- A tool ended with this exit code, or was killed. -/
  | toolFailed (tool : Text) (code? : Option Int)
  deriving DecidableEq

namespace CommandFailure

/-- How a process ended, in words. -/
def exitWords : Option Int → String
  | some code => s!"exit code {code}"
  | none => "terminated by signal"

/-- The words of an error. -/
def message : CommandFailure → String
  | .unknownVerb verb => s!"invalid command: {String.ofList verb}"
  | .wrongCount verb expected found =>
    s!"{String.ofList verb} needs {expected} arguments: source-wildcard-list " ++
      s!"relative-target-path (got {found})"
  | .unsearchable path fault => s!"cannot search {path}: {fault}"
  | .unlisted error => s!"failed to list files: {error}"
  | .directoryNotMade path fault => s!"failed to create directory {path}: {fault}"
  | .notCopied source target fault => s!"failed to copy {source} to {target}: {fault}"
  | .timeNotSet path fault => s!"failed to transfer modification time to {path}: {fault}"
  | .notLaunched tool fault => s!"failed to launch {tool}: {fault}"
  | .toolFailed tool code? => s!"{String.ofList tool} returned error ({exitWords code?})"

instance : ToString CommandFailure := ⟨message⟩

/-- The errors that a script shows without being run. -/
def isStatic : CommandFailure → Bool
  | .unknownVerb _ | .wrongCount .. => true
  | _ => false

end CommandFailure

/-- Why a run did not start. -/
inductive StartFailure where
  /-- The script could not be read. -/
  | unreadable (path : Path) (fault : Fault)
  /-- The tool settings could not be read, or say something wrong. -/
  | badSettings (path : Path) (reason : String)
  deriving DecidableEq

namespace StartFailure

/-- The words of an error. -/
def message : StartFailure → String
  | .unreadable path fault => s!"failed to read script {path}: {fault}"
  | .badSettings path reason => s!"invalid tool settings {path}: {reason}"

instance : ToString StartFailure := ⟨message⟩

end StartFailure

end AssetPipeline
