/-
This file runs simple commands. The words are replaced by their values first, then the descriptors
are redirected, and then the assignments are made, which last only as long as the command unless it
is one of the language itself. The first word names a function, a command of the shell itself, or
a program.
-/

import AssetPipeline.Shell.Subshell

namespace AssetPipeline.Shell

/-- The fields of a simple command, and how the first one is to be understood. -/
structure Call where
  /-- The fields as they were written. -/
  fields : List Text
  /-- The fields without a command that only says how the next one is understood. -/
  effective : List Text
  /-- Whether there was such a command, so that functions do not count. -/
  isPlain : Bool
  /-- Whether it asked for the programs of the system, so that the search path does not count. -/
  isStandard : Bool

namespace Call

/-- What stands behind the options of a command that says how the next one is understood; none if
it does something itself. -/
def behindOptions? : List Text → Option (List Text)
  | [] => none
  | ['-', '-'] :: rest => if rest.isEmpty then none else some rest
  | ('-' :: letter :: letters) :: rest =>
    if (letter :: letters).all (· == 'p') then behindOptions? rest else none
  | fields => some fields

/-- The call without commands that only say how the next one is understood. -/
def effectiveWithin : Nat → Call → Call
  | 0, call => call
  | fuel + 1, call =>
    match call.effective with
    | name :: rest =>
      match if name = ascii "command" then behindOptions? rest else none with
      | some behind =>
        let isStandard := call.isStandard || behind.length < rest.length && rest.head? != some ['-', '-']
        effectiveWithin fuel { call with effective := behind, isPlain := true, isStandard }
      | none => call
    | [] => call

/-- How fields are understood. -/
def ofFields (fields : List Text) : Call :=
  effectiveWithin fields.length
    { fields, effective := fields, isPlain := false, isStandard := false }

/-- Is the command one of the language itself? -/
def isSpecial (call : Call) : Bool :=
  !call.isPlain && call.effective.head?.any (isAmong specialCommands)

/-- May the arguments of the command be assignments? -/
def assigns (call : Call) : Bool := call.effective.head?.any (isAmong assigningCommands)

/-- Is the command the one that puts a program in the place of the shell, or moves descriptors? -/
def replacesShell (call : Call) : Bool := call.effective.head? == some (ascii "exec")

end Call

namespace Process

/-! ### Commands that run others -/

def callFunction (run : Runs) (sheltered : Bool) (body : Statement) (arguments : List Text) :
    Act Unit := do
  let before ← get
  if 1000 ≤ before.depth then fail "Maximum function recursion depth (1000) reached"
  else
    Command.setArguments arguments
    modify fun process => { process with loops := 0, depth := before.depth + 1 }
    let restore : Act Unit :=
      modify fun process =>
        { process with
          arguments := before.arguments
          optionIndex := before.optionIndex
          optionOffset? := before.optionOffset?
          loops := before.loops
          depth := before.depth }
    let outcome ← (Act.ensuring (run sheltered body) restore).outcome
    match outcome with
    | .error .returned => pure ()
    | outcome => Act.resume outcome

def scriptFile (process : Process) (name : Text) : Act Text := do
  if name.contains '/' then return name
  else
    let directories := (process.value? searchPath).map (Text.splitOn ':')
    let found := (directories.getD []).find? fun directory =>
      process.system.tree.isFile (pathOf (Search.pathIn directory name))
    match found with
    | some directory => return Search.pathIn directory name
    | none => fail s!"{written name}: not found"

/-- Read a script into this one. -/
def readIn (run : Runs) (arguments : List Text) : Act Unit := do
  match ← Command.operands arguments with
  | [] => conclude 0
  | name :: _ =>
    let path ← scriptFile (← get) name
    match (← get).openFile .read (pathOf path) with
    | .error fault => failOpening .read path fault
    | .ok (tree, location) =>
      let content := ((tree.file? location).map File.content).getD []
      let text := Text.octetsOfBytes content
      match ← (speaking path (runText run false text 1)).outcome with
      | .error .returned => pure ()
      | outcome => Act.resume outcome

/-- The status of a program that could not be started. -/
def statusOfFault : Fault → Nat
  | .notFound | .notADirectory | .tooManyLinks | .nameTooLong => 127
  | _ => 126

/-- What starting a program by its name comes to, or why there is none. -/
def startupOf (process : Process) (name : Text) (arguments : List Text) :
    Except (String × Nat) Startup :=
  match process.meaning false name with
  | .program path _ =>
    match Startup.ofPathOrText process.system.tree path arguments with
    | .ok startup => .ok startup
    | .error fault => .error (Search.wordsOf fault, statusOfFault fault)
  | .nothing words =>
    .error (words, if words = Search.wordsOf .permissionDenied then 126 else 127)
  | _ => .error (Search.wordsOf .notFound, statusOfFault .notFound)

/-- Put a program in the place of the shell. -/
def replaceShell (run : Runs) (arguments : List Text) : Act Unit := do
  match arguments with
  | [] => conclude 0
  | name :: given =>
    match (← get).startupOf name given with
    | .error (words, status) =>
      complain s!"{written name}: {words}"
      conclude status
      throw .ended
    | .ok startup =>
      let ending ← startProgram run startup
      modify fun process => { process with traps := [] }
      match ending with
      | .left status =>
        conclude status
        throw .ended
      | .killed signal => throw (.killed (some (← get).number) signal)

/-- Run a command of the shell itself. Trouble in one that is not `special` is no more than its
status. -/
def runOwn (run : Runs) (sheltered special : Bool) (name : Text) (arguments : List Text) :
    Act Unit := do
  let act : Act Unit :=
    match written name with
    | "eval" => speaking name do
      if arguments.isEmpty then conclude 0
      else runText run sheltered (Text.joinWith ' ' arguments) 1
    | "." => speaking name (readIn run arguments)
    | "exec" => speaking name (replaceShell run arguments)
    | _ => (Command.named? name).getD (Command.nothing 0) |>.run name arguments
  match ← act.outcome with
  | .error .failed => if special then throw .failed
  | outcome => Act.resume outcome

def runProgram (run : Runs) (name : Text) (arguments : List Text) : Act Unit := do
  match (← get).startupOf name arguments with
  | .ok startup => conclude (← statusOfEnding (← startProgram run startup))
  | .error (words, status) =>
    complain s!"{written name}: {words}"
    conclude status

/-- Do what a call says. Without fields, the status is that of the last script whose output was
taken into a word. -/
def runCall (run : Runs) (sheltered : Bool) (call : Call) : Act Unit := do
  let process ← get
  match call.effective with
  | [] => conclude process.captureStatus
  | name :: arguments =>
    match process.meaning (!call.isPlain) name with
    | .shell => runOwn run sheltered call.isSpecial name arguments
    | .function body => callFunction run sheltered body arguments
    | .program _ searched =>
      if searched && call.isStandard then
        complain s!"{written name}: {Search.wordsOf .notFound}"
        conclude 127
      else
        if searched then locate name
        runProgram run name arguments
    | .nothing words =>
      complain s!"{written name}: {words}"
      conclude 127

/-! ### Words, assignments, and what is told about them -/

/-- The fields that words make. Where arguments may be assignments, those are not cut. -/
def fieldsOf (run : Runs) : List Word → List Text → Act (List Text)
  | [], fields => pure fields
  | word :: others, fields => do
    match (if (Call.ofFields fields).assigns then assignment? word else none) with
    | some (name, value) =>
      let text ← expandAssigned (capture run) value
      fieldsOf run others (fields ++ [name ++ '=' :: text])
    | none =>
      let own ← expandFields (capture run) word
      fieldsOf run others (fields ++ own)

/-- Make assignments, for the innermost scope only if they are `temporary`. -/
def assignAll (run : Runs) (temporary shares : Bool) :
    List (Text × Word) → Act (List (Text × Text))
  | [] => pure []
  | (name, word) :: others => do
    let value ← expandAssigned (capture run) word
    if temporary then remember name
    assign name value
    if temporary || shares then share name
    return (name, value) :: (← assignAll run temporary shares others)

/-- The text that stands in front of commands that are told. -/
def tellingMark (run : Runs) : Act Text := do
  let process ← get
  match Source.documentOf? ((process.value? (ascii "PS4")).getD []) with
  | none => return []
  | some word =>
    let options := process.options
    set { process with options := options.filter (· != 'x') }
    Act.ensuring (expandDocument (capture run) word)
      (modify fun process => { process with options })

/-- Tell a command before it is run. -/
def tell (run : Runs) (stream? : Option Nat) (assigned : List (Text × Text))
    (fields : List Text) : Act Unit := do
  let words := assigned.map (fun (name, value) => name ++ '=' :: value) ++ fields
  let line := (← tellingMark run) ++ Text.joinWith ' ' words ++ ['\n']
  let _ ← writeTo stream? line

/-! ### Simple commands -/

/-- Redirect, assign, and do what a call says. -/
def carryOut (run : Runs) (sheltered : Bool) (command : SimpleCommand) (call : Call) :
    Act Unit := do
  let temporary := !call.fields.isEmpty && !call.isSpecial
  let errorStream? := (← get).stream? errorDescriptor
  if ← redirect (capture run) command.redirections then
    let shares := call.replacesShell && 1 < call.effective.length
    let assigned ← assignAll run temporary shares command.assignments
    if (← get).hasOption 'x' then tell run errorStream? assigned call.fields
    runCall run sheltered call
  else
    conclude troubled
    if call.isSpecial then throw .failed

def simple (run : Runs) (sheltered : Bool) (command : SimpleCommand) : Act Unit := do
  modify fun process => { process with line := command.line, captureStatus := 0 }
  let call := Call.ofFields (← fieldsOf run command.words [])
  let act := carryOut run sheltered command call
  let whole := if call.fields.isEmpty || call.isSpecial then act else inScope act
  if call.replacesShell then whole else keepingDescriptors whole

end Process

end AssetPipeline.Shell
