/-
This file lists the commands of the shell itself, except for those that run others.
-/

import AssetPipeline.Shell.Builtin.Directories
import AssetPipeline.Shell.Builtin.Names
import AssetPipeline.Shell.Condition
import AssetPipeline.Shell.Format

namespace AssetPipeline.Shell

namespace Command

def nothing (status : Nat) : Command := fun _ => pure { status }

def echoing : Command := fun arguments => pure { printed := echo arguments }

/-- Print arguments in a format. What was printed before a fault shows stays printed. -/
def printing : Command := fun arguments => do
  match ← operands arguments with
  | [] => Process.fail "usage: printf format [arg ...]"
  | format :: values => do
    let printing := printFormat format values
    printing.complaints.forM Process.complain
    match printing.fault? with
    | some words =>
      Process.complain words
      let _ ← Process.write Process.outputDescriptor printing.output
      Process.conclude Process.troubled
      throw .failed
    | none =>
      return { status := statusOf printing.complaints.isEmpty, printed := printing.output }

/-- Decide a condition. -/
def testing : Command := fun arguments => do
  match Condition.holds (← get).system.tree arguments with
  | .ok holds => return { status := statusOf holds }
  | .error words => Process.fail words

/-- Decide a condition that a bracket closes. -/
def bracketing : Command := fun arguments =>
  if arguments.getLast? = some [']'] then testing arguments.dropLast
  else Process.fail "missing ]"

/-- Tell how much time was used, which nobody knows. -/
def timing : Command := fun _ =>
  let line := ascii "0m0.000000s 0m0.000000s"
  pure { printed := lines [line, line] }

/-- Tell a limit. None is known. -/
def limiting : Command := fun arguments => do
  let _ ← choices "HSatfdscmlpnvwr" "" arguments
  return { printed := ascii "unlimited\n" }

/-- Go on with what runs beside, of which nothing is left. -/
def continuing : Command := fun _ => Process.fail "No current job"

/-- The command of the shell itself with a name. -/
def named? (name : Text) : Option Command :=
  match written name with
  | ":" | "true" => some (nothing 0)
  | "false" => some (nothing 1)
  | "[" => some bracketing
  | "alias" => some aliasing
  | "bg" | "fg" => some continuing
  | "break" => some (leaving false)
  | "cd" | "chdir" => some changing
  | "command" => some commanding
  | "continue" => some (leaving true)
  | "echo" => some echoing
  | "exit" => some exiting
  | "export" => some exporting
  | "getopts" => some gettingOptions
  | "hash" => some hashing
  | "jobs" => some (nothing 0)
  | "kill" => some killing
  | "local" => some keeping
  | "printf" => some printing
  | "pwd" => some tellingDirectory
  | "read" => some reading
  | "readonly" => some fixing
  | "return" => some returning
  | "set" => some setting
  | "shift" => some shifting
  | "test" => some testing
  | "times" => some timing
  | "trap" => some trapping
  | "type" => some typing
  | "ulimit" => some limiting
  | "umask" => some masking
  | "unalias" => some unaliasing
  | "unset" => some unsetting
  | "wait" => some waiting
  | _ => none

/-- Run a command of the shell itself. It ends with its status, or with trouble if what it prints
cannot be written. -/
def run (command : Command) (name : Text) (arguments : List Text) : Act Unit :=
  Process.speaking name do
    let answer ← command arguments
    if ← Process.write Process.outputDescriptor answer.printed then Process.conclude answer.status
    else
      Process.complain s!"{written name}: I/O error"
      Process.conclude (answer.status ||| 1)

end Command

end AssetPipeline.Shell
