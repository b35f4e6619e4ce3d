/-
This file holds the commands that decide how a script goes on, and those that send signals or wait
for what runs beside.
-/

import AssetPipeline.Shell.Builtin.Options
import AssetPipeline.Shell.Signal

namespace AssetPipeline.Shell

namespace Command

/-- Leave loops, or, with `goesOn`, go on with the next round of the last one. -/
def leaving (goesOn : Bool) : Command := fun arguments => do
  let count ←
    match arguments with
    | [] => pure 1
    | argument :: _ => number argument
  if count = 0 then Process.fail s!"Illegal number: {written (arguments.head?.getD [])}"
  else
    let left := min count (← get).loops
    if left = 0 then return {}
    else
      Process.conclude 0
      if goesOn then throw (.nextRound left) else throw (.leaveLoops left)

/-- The status that an argument gives, which is the last one without an argument. -/
def givenStatus (arguments : List Text) : Act Nat := do
  match arguments with
  | [] => return (← get).status
  | argument :: _ => number argument

/-- End the script. While the script for a signal runs, the command before it gives the status. -/
def exiting : Command := fun arguments => do
  let held? := (← get).heldStatus?
  match arguments, held? with
  | [], some held => Process.conclude held
  | _, _ => Process.conclude (← givenStatus arguments)
  throw .ended

/-- End a function, or a script that was read into this one. -/
def returning : Command := fun arguments => do
  Process.conclude (← givenStatus arguments)
  throw .returned

/-! ### Signals -/

/-- The traps that are set, as a script could set them. -/
def trapListing (process : Process) : Text :=
  let sorted := process.traps.mergeSort fun first second => first.1 ≤ second.1
  lines (sorted.map fun (signal, action) =>
    ascii "trap -- " ++ quote action ++ ' ' :: ascii (Signal.names[signal]?.getD ""))

/-- Set the trap for a signal, or take it away. -/
def setTrap (action? : Option Text) (signal : Nat) : Act Unit :=
  modify fun process =>
    let others := process.traps.filter (·.1 != signal)
    match action? with
    | none => { process with traps := others }
    | some action => { process with traps := (signal, action) :: others }

/-- Set the trap for signals, up to the first one that there is not. -/
def setTraps (action? : Option Text) : List Text → Act Answer
  | [] => pure {}
  | name :: others => do
    match Signal.ofText? 0 name with
    | none =>
      Process.mutter (ascii s!"trap: {written name}: bad trap\n")
      return { status := 1 }
    | some signal =>
      setTrap action? signal
      setTraps action? others

/-- Say what is to be done when signals come. -/
def trapping : Command := fun arguments => do
  match ← operands arguments with
  | [] => return { printed := trapListing (← get) }
  | [signal] => setTraps none [signal]
  | action :: signals =>
    if (Signal.ofText? 0 action).isSome then setTraps none (action :: signals)
    else if action = ['-'] then setTraps none signals
    else setTraps (some action) signals

/-- Let a signal come to the process. -/
def receive (signal : Nat) : Act Unit := do
  let process ← get
  if signal = 0 then pure ()
  else if Signal.certain.contains signal then throw (.killed (some process.number) signal)
  else
    match process.traps.lookup signal with
    | some [] => pure ()
    | some _ => set { process with arrived := process.arrived ++ [signal] }
    | none =>
      if Signal.harmless.contains signal then pure ()
      else throw (.killed (some process.number) signal)

/-- Send a signal to a process; the answer tells whether there is one. -/
def send (signal : Nat) (target : Text) : Act Bool := do
  match target with
  | '%' :: _ => Process.fail s!"No such job: {written target}"
  | _ =>
    let isGroup := target.head? == some '-'
    let wanted ← number (if isGroup then target.drop 1 else target)
    let process ← get
    if wanted = process.number ∨ wanted = 0 then
      receive signal
      return true
    else
      Process.complain "No such process\n"
      return false

/-- How `kill` is used. -/
def killUsage : String :=
  "Usage: kill [-s sigspec | -signum | -sigspec] [pid | job]... or\nkill -l [exitstatus]"

/-- The name of a signal that is written by its number, or by the status of what it killed. -/
def signalName (argument : Text) : Act Text := do
  let given ← number argument
  let signal := if 128 < given then given - 128 else given
  match Signal.names[signal]? with
  | some name =>
    if signal = 0 then Process.fail s!"invalid signal number or exit status: {written argument}"
    else return ascii name
  | none => Process.fail s!"invalid signal number or exit status: {written argument}"

/-- Name the signal of a status, or all signals. -/
def listSignals (arguments : List Text) : Act Answer := do
  match arguments with
  | [] => return { printed := lines (['0'] :: (Signal.names.drop 1).map ascii) }
  | argument :: _ => return { printed := lines [← signalName argument] }

def sendAll (signal : Nat) (targets : List Text) : Act Answer := do
  if targets.isEmpty then Process.fail killUsage
  else return { status := statusOf (← eachOf (send signal) targets) }

def chosenSignal (chosen : List Choice) : Act (Option Nat) := do
  match (chosen.filter (·.letter == 's')).getLast? with
  | none => return none
  | some choice =>
    match Signal.ofText? 1 choice.value with
    | some signal => return some signal
    | none => Process.fail s!"invalid signal number or name: {written choice.value}"

/-- Send signals, or list them. -/
def killing : Command := fun arguments => do
  match arguments with
  | [] => Process.fail killUsage
  | ('-' :: name) :: rest =>
    match Signal.ofText? 1 name with
    | some signal => sendAll signal rest
    | none =>
      let (chosen, targets) ← choices "l" "s" arguments
      let signal? ← chosenSignal chosen
      if chosen.any (·.letter == 'l') then
        if signal?.isSome then Process.fail killUsage else listSignals targets
      else sendAll (signal?.getD Signal.terminate) targets
  | targets => sendAll Signal.terminate targets

/-- The status of a process that ran beside this one. -/
def companionStatus (process : Process) (target : Text) : Act Nat := do
  match target with
  | ['%', digit] =>
    let position := Process.ofDigits [digit]
    match process.companions.reverse[position - 1]? with
    | some companion => return companion.2
    | none => Process.fail s!"No such job: {written target}"
  | '%' :: _ => Process.fail s!"No such job: {written target}"
  | _ => return (process.companions.lookup (← number target)).getD 127

/-- Wait for processes that run beside this one, which have ended already. -/
def waiting : Command := fun arguments => do
  let targets ← operands arguments
  match targets.getLast? with
  | none => return {}
  | some target => return { status := ← companionStatus (← get) target }

end Command

end AssetPipeline.Shell
