/-
This file holds the state of a running shell script, and how the acts of a script change it. An
act either goes on with a value or stops; what it did before it stopped stays done.
-/

import AssetPipeline.Shell.Number
import AssetPipeline.Shell.Statement
import AssetPipeline.Shell.Stream

namespace AssetPipeline.Shell

/-- A variable of a script. -/
structure Binding where
  /-- The value; a variable without one is not set. -/
  value? : Option Text
  /-- Whether programs that the script starts get it. -/
  isExported : Bool := false
  /-- Whether it cannot be changed any more. -/
  isFixed : Bool := false

/-- A running script. -/
structure Process where
  system : System
  /-- The streams that the numbers of descriptors mean. -/
  descriptors : List (Nat × Nat)
  /-- The name the script was started by. -/
  script : Text
  arguments : List Text := []
  bindings : List (Text × Binding) := []
  functions : List (Text × Statement) := []
  aliases : List (Text × Text) := []
  /-- The letters of the options that are set. -/
  options : List Char := []
  /-- The scripts to be run when a signal comes, or, by the number 0, at the end. -/
  traps : List (Nat × Text) := []
  /-- Signals that have come and whose scripts are still to be run. -/
  arrived : List Nat := []
  /-- How the last command ended: zero for success. -/
  status : Nat := 0
  /-- How the last script whose output was taken into a word ended. -/
  captureStatus : Nat := 0
  /-- While the script for a signal, or for the end, runs: how the command before it ended. -/
  heldStatus? : Option Nat := none
  /-- The line that complaints are about. -/
  line : Nat := 0
  /-- The command that complaints come from. -/
  speaker? : Option Text := none
  /-- The loops that may be left. -/
  loops : Nat := 0
  /-- The functions that are being run. -/
  depth : Nat := 0
  /-- What is restored at the end of each function, the innermost first. -/
  scopes : List (List (Text × Option Binding)) := []
  /-- The number of the process. -/
  number : Nat := 1
  /-- The number of the process that has started it. -/
  parent : Nat := 0
  /-- How the processes ended that ran beside this one. -/
  companions : List (Nat × Nat) := []
  /-- The argument that is looked at for options next, counted from one. -/
  optionIndex : Nat := 1
  /-- Where in the argument before that one options are read on. -/
  optionOffset? : Option Nat := none
  /-- The working directory, by the name it was reached by. -/
  directory : Text := []
  /-- Programs that have been found in the search path. -/
  located : List Text := []
  /-- The mode bits that files are created without. -/
  mask : Nat := 0o022

/-- Why a script does not go on with the next command. -/
inductive Stop where
  /-- So many loops are left. -/
  | leaveLoops (count : Nat)
  /-- So many loops are left, except the last one, which goes on with its next round. -/
  | nextRound (count : Nat)
  /-- A function, or a script that was read into this one, is over. -/
  | returned
  /-- The script has ended itself. -/
  | ended
  /-- Something went wrong that ends the script. -/
  | failed
  /-- A signal has killed the process with this number or, if there is none, the innermost one. -/
  | killed (number? : Option Nat) (signal : Nat)
  deriving DecidableEq

/-- What a script does. -/
abbrev Act := ExceptT Stop (StateM Process)

namespace Act

/-- What an act came to, without stopping. -/
def outcome {Result : Type} (act : Act Result) : Act (Except Stop Result) := act.run

/-- Go on with an outcome, or stop with it. -/
def resume {Result : Type} : Except Stop Result → Act Result
  | .ok result => pure result
  | .error stop => throw stop

/-- Do an act, and put something in order behind it, even if it stopped. -/
def ensuring {Result : Type} (act : Act Result) (restore : Act Unit) : Act Result := do
  let outcome ← act.outcome
  restore
  resume outcome

end Act

/-- The text of a string, in octets. -/
def ascii (string : String) : Text := string.toList

def written (octets : Text) : String := String.ofList octets

namespace Process

/-! ### Output -/

/-- The status of a command that could not do what it should. -/
def troubled : Nat := 2

/-- The descriptors of what is read, printed, and printed as errors. -/
def inputDescriptor : Nat := 0

def outputDescriptor : Nat := 1

def errorDescriptor : Nat := 2

def stream? (process : Process) (descriptor : Nat) : Option Nat :=
  process.descriptors.lookup descriptor

def withDescriptor (descriptors : List (Nat × Nat)) (descriptor stream : Nat) :
    List (Nat × Nat) :=
  (descriptor, stream) :: descriptors.filter (·.1 != descriptor)

/-- Write to a stream; the answer tells whether that went well. -/
def writeTo (stream? : Option Nat) (text : Text) : Act Bool := do
  let process ← get
  match stream? with
  | none => return text.isEmpty
  | some stream =>
    if text.isEmpty then return true
    else
      let (system, went) := process.system.write stream text
      set { process with system }
      return went

/-- Write to a descriptor; the answer tells whether that went well. -/
def write (descriptor : Nat) (text : Text) : Act Bool := do
  writeTo ((← get).stream? descriptor) text

/-- Write words as errors. -/
def mutter (text : Text) : Act Unit := do
  let _ ← write errorDescriptor text

/-- What stands in front of a complaint. -/
def preamble (process : Process) : String :=
  let speaker := (process.speaker?.map fun name => s!"{written name}: ").getD ""
  s!"{written process.script}: {process.line}: {speaker}"

def complain (words : String) : Act Unit := do
  mutter (ascii s!"{(← get).preamble}{words}\n")

def conclude (status : Nat) : Act Unit := modify fun process => { process with status }

/-- Complain, and end the script with a status. -/
def failWith {Result : Type} (status : Nat) (words : String) : Act Result := do
  complain words
  conclude status
  throw .failed

/-- Complain, and end the script. -/
def fail {Result : Type} (words : String) : Act Result := failWith troubled words

/-- Run an act in which complaints come from a command. -/
def speaking {Result : Type} (name : Text) (act : Act Result) : Act Result := do
  let before := (← get).speaker?
  modify fun process => { process with speaker? := some name }
  act.ensuring (modify fun process => { process with speaker? := before })

def hasOption (process : Process) (letter : Char) : Bool := process.options.contains letter

/-! ### Variables -/

/-- Put something in place of what a list has for a key. -/
def replace {Item : Type} (items : List (Text × Item)) (key : Text) (item : Item) :
    List (Text × Item) :=
  (key, item) :: items.filter (·.1 != key)

def binding? (process : Process) (name : Text) : Option Binding := process.bindings.lookup name

/-- The value of a variable, if it is set. -/
def value? (process : Process) (name : Text) : Option Text :=
  (process.binding? name).bind Binding.value?

/-- The value of a variable, which is empty if it is not set. -/
def valueOf (process : Process) (name : Text) : Text := (process.value? name).getD []

/-- The process with another variable of a name. -/
def bind (process : Process) (name : Text) (binding : Binding) : Process :=
  { process with bindings := replace process.bindings name binding }

/-- The process without a variable of a name. -/
def unbind (process : Process) (name : Text) : Process :=
  { process with bindings := process.bindings.filter (·.1 != name) }

/-- The variable that tells which argument is looked at for options next. -/
def optionVariable : Text := ascii "OPTIND"

/-- The variable with the characters that separate fields. -/
def separators : Text := ascii "IFS"

/-- The variable with the directories that programs are looked up in. -/
def searchPath : Text := ascii "PATH"

def workingDirectory : Text := ascii "PWD"

/-- The variable with the working directory before this one. -/
def formerDirectory : Text := ascii "OLDPWD"

/-- The variable with the directory of the user. -/
def homeDirectory : Text := ascii "HOME"

/-- Look again for options, or for programs, once the variable changes that this hangs on. -/
def observe (name value : Text) : Act Unit := do
  if name = optionVariable then
    match count? value with
    | none => fail s!"Illegal number: {written value}"
    | some number =>
      modify fun process => { process with optionIndex := max 1 number, optionOffset? := none }
  else if name = searchPath then modify fun process => { process with located := [] }

/-- Give a variable a value, if it may be changed. -/
def assign (name value : Text) : Act Unit := do
  let process ← get
  if ¬ isName name then fail s!"{written name}: bad variable name"
  else
    let before := (process.binding? name).getD { value? := none }
    if before.isFixed then fail s!"{written name}: is read only"
    else
      let isExported := before.isExported || process.hasOption 'a'
      set (process.bind name { before with value? := some value, isExported })
      observe name value

/-- Let programs that the script starts get a variable. -/
def share (name : Text) : Act Unit :=
  modify fun process =>
    let before := (process.binding? name).getD { value? := none }
    process.bind name { before with isExported := true }

/-- Take a variable away, if it may be changed. -/
def unassign (name : Text) : Act Unit := do
  if ¬ isName name then fail s!"{written name}: bad variable name"
  match (← get).binding? name with
  | some { isFixed := true, .. } => fail s!"{written name}: is read only"
  | _ => modify (·.unbind name)

/-- Remember a variable, to restore it at the end of the innermost scope. -/
def remember (name : Text) : Act Unit :=
  modify fun process =>
    match process.scopes with
    | [] => process
    | scope :: others =>
      { process with scopes := ((name, process.binding? name) :: scope) :: others }

/-- The process with the variables of a scope as they were. -/
def restored (process : Process) : List (Text × Option Binding) → Process
  | [] => process
  | (name, some binding) :: others => restored (process.bind name binding) others
  | (name, none) :: others => restored (process.unbind name) others

/-- Run an act in a scope of its own. -/
def inScope {Result : Type} (act : Act Result) : Act Result := do
  modify fun process => { process with scopes := [] :: process.scopes }
  act.ensuring do
    modify fun process =>
      match process.scopes with
      | [] => process
      | scope :: others => { process.restored scope with scopes := others }

/-! ### Parameters -/

/-- The number written by digits. -/
def ofDigits (digits : Text) : Nat :=
  digits.foldl (fun number digit => number * 10 + (digit.toNat - '0'.toNat)) 0

def digits (number : Nat) : Text := (toString number).toList

/-- The letters of all options, in the order that `$-` has them. -/
def optionLetters : List Char := "puabCEVvxsnmiIfe".toList

/-- What stands between arguments that are joined. -/
def joint (process : Process) : Text :=
  match process.value? separators with
  | none => [' ']
  | some characters => characters.take 1

/-- The value of a parameter that is no list of arguments, if it is set. -/
def parameter? (process : Process) (name : Text) : Option Text :=
  match name with
  | ['#'] => some (digits process.arguments.length)
  | ['?'] => some (digits process.status)
  | ['$'] => some (digits process.number)
  | ['-'] => some (optionLetters.filter process.hasOption)
  | ['!'] => process.companions.head?.map fun companion => digits companion.1
  | _ =>
    if name.all Char.isDigit then
      match ofDigits name with
      | 0 => some process.script
      | position + 1 => process.arguments[position]?
    else process.value? name

end Process

end AssetPipeline.Shell
