/-
This file runs texts of commands, in the same shell or in another process. How a statement is run
is a parameter here. Another process shares the file tree and the streams with the one that started
it, but nothing else it does can be seen there.
-/

import AssetPipeline.Shell.Program

namespace AssetPipeline.Shell

/-- How a statement is run; in a shelter its failure does not end the script. -/
abbrev Runs := Bool → Statement → Act Unit

/-- How a process ended. -/
inductive Ending where
  | left (status : Nat)
  | killed (signal : Nat)

namespace Process

/-! ### Texts of commands -/

def readOf (source behind : Source) : Text :=
  source.rest.take (source.rest.length - behind.rest.length)

/-- Run the commands of a source, one after the other. Without any, all went well. -/
def runSource (run : Runs) (sheltered : Bool) : Nat → Bool → Source → Act Unit
  | 0, _, _ => throw (.killed none Signal.exhausted)
  | fuel + 1, hasRun, source => do
    if source.isFinished then
      if ¬ hasRun then conclude 0
    else
      match { source with aliases := (← get).aliases }.command with
      | .error fault =>
        modify fun process => { process with line := fault.line }
        fail s!"Syntax error: {fault.words}"
      | .ok (statement, behind) =>
        if (← get).hasOption 'v' then mutter (readOf source behind)
        if statement.isIdle then runSource run sheltered fuel hasRun behind
        else
          run sheltered statement
          runSource run sheltered fuel true behind

/-- More commands than a source has, unless aliases make many of few. -/
def commandBound (source : Source) : Nat := 100000 + source.rest.length

/-- Run a text of commands that begins on a line. -/
def runText (run : Runs) (sheltered : Bool) (text : Text) (line : Nat) : Act Unit :=
  let source : Source := { rest := text, line }
  runSource run sheltered (commandBound source) false source

/-! ### Signals -/

/-- Run the script for a signal, which leaves the status as it was. -/
def runTrap (run : Runs) (action : Text) : Act Unit := do
  let process ← get
  let status := process.heldStatus?.getD process.status
  set { process with heldStatus? := some status }
  let restore : Act Unit :=
    modify fun after => { after with heldStatus? := process.heldStatus? }
  (runText run false action 1 : Act Unit).ensuring restore
  conclude status

/-- Run the scripts for signals that have arrived. -/
def runTraps (run : Runs) : Nat → Act Unit
  | 0 => pure ()
  | fuel + 1 => do
    let process ← get
    match process.arrived with
    | [] => pure ()
    | signal :: others =>
      set { process with arrived := others }
      match process.traps.lookup signal with
      | some (head :: rest) => runTrap run (head :: rest)
      | _ => pure ()
      runTraps run fuel

/-- The end of a process, at which the script for that is run. Only a signal prevents it. -/
def finish (run : Runs) (outcome : Except Stop Unit) : Act Unit := do
  match outcome with
  | .error (.killed number? signal) => throw (.killed number? signal)
  | _ =>
    let process ← get
    match process.traps.lookup 0 with
    | some (head :: rest) =>
      set { process with traps := process.traps.filter (·.1 != 0), arrived := [] }
      match ← (runTrap run (head :: rest)).outcome with
      | .error (.killed number? signal) => throw (.killed number? signal)
      | _ => pure ()
    | _ => pure ()

/-! ### Other processes -/

/-- A process that goes on from the same state in another one. Only signals that are to be passed
over are treated the same there. -/
def forked (process : Process) : Process :=
  { process with
    traps := process.traps.filter fun (_, action) => action.isEmpty
    arrived := []
    heldStatus? := none }

/-- A process after another one has changed what they share. -/
def sharing (process : Process) (system : System) : Process :=
  let workingDirectory := process.system.tree.workingDirectory
  { process with system := { system with tree := { system.tree with workingDirectory } } }

/-- Statuses are told to other processes by an octet. -/
def statusBound : Nat := 256

/-- The status of a process that a signal has killed. -/
def statusOfSignal (signal : Nat) : Nat := 128 + signal

/-- Run an act in another process that has been prepared. -/
def runApart (run : Runs) (child : Process) (act : Act Unit) : Act Ending := do
  let parent ← get
  set child
  let outcome ← (do finish run (← act.outcome)).outcome
  let after ← get
  set (parent.sharing after.system)
  match outcome with
  | .error (.killed none signal) => return .killed signal
  | .error (.killed (some number) signal) =>
    if number ≠ parent.number ∧ number = child.number then return .killed signal
    else throw (.killed (some number) signal)
  | _ => return .left (after.status % statusBound)

/-- The status of a process that has ended, whose violent death is told. -/
def statusOfEnding : Ending → Act Nat
  | .left status => pure status
  | .killed signal => do
    match Signal.obituary signal with
    | some words => mutter (ascii s!"{words}\n")
    | none => pure ()
    return statusOfSignal signal

/-- Run an act in a shell of its own. -/
def fork (run : Runs) (act : Act Unit) : Act Nat := do
  let child := (← get).forked
  statusOfEnding (← runApart run child act)

/-- What a script prints that is run in a shell of its own. -/
def capture (run : Runs) : Capture := fun script line => do
  let pipe ← openStream (.pipe [])
  let status ← fork run do
    aim outputDescriptor (some pipe)
    runText run false script line
  modify fun process => { process with captureStatus := status }
  return (← get).system.piped pipe

/-! ### Programs -/

/-- All that can be read from a stream. -/
def readAllWithin (descriptor : Nat) : Nat → Act Text
  | 0 => pure []
  | fuel + 1 => do
    let process ← get
    match process.stream? descriptor with
    | none => return []
    | some stream =>
      let (system, octet?) := process.system.takeOctet stream
      set { process with system }
      match octet? with
      | none => return []
      | some octet => return octet :: (← readAllWithin descriptor fuel)

/-- Run the commands that can be read from a stream. -/
def runInput (run : Runs) (arguments : List Text) : Act Unit := do
  Command.setArguments arguments
  let process ← get
  let length := ((process.stream? inputDescriptor).map process.system.remaining).getD 0
  runText run false (← readAllWithin inputDescriptor length) 1

def runFile (run : Runs) (path : Text) (arguments : List Text) : Act Unit := do
  match (← get).openFile .read (pathOf path) with
  | .error fault => failOpening .read path fault
  | .ok (tree, location) =>
    modify fun process => { process with script := path }
    Command.setArguments arguments
    let content := ((tree.file? location).map File.content).getD []
    runText run false (Text.octetsOfBytes content) 1

/-- Be a shell that was started by a name. -/
def beShell (run : Runs) (name : Text) (arguments : List Text) : Act Unit := do
  modify fun process => { process with script := name }
  let switched ← Command.switches true arguments
  match switched.takesScript, switched.rest with
  | true, [] => fail "-c requires an argument"
  | true, script :: others =>
    modify fun process => { process with script := others.head?.getD name }
    Command.setArguments (others.drop 1)
    runText run false script 1
  | false, [] => runInput run []
  | false, path :: others =>
    if (← get).hasOption 's' then runInput run (path :: others) else runFile run path others

/-- The words of a fault, as programs outside the shell have them. -/
def finderWords (name target : Text) (fault : Fault) : Text :=
  ascii s!"{written name}: '{written target}': {systemWords fault}\n"

/-- Where a program is, for a program outside the shell. -/
def whereabouts (process : Process) (name : Text) : Except Fault Text :=
  if name.contains '/' then .ok name
  else
    match process.search name with
    | .found path => .ok path
    | .missing words =>
      .error (if words = Search.wordsOf .permissionDenied then .permissionDenied else .notFound)

/-- Assign the variables that arguments begin with; the answer is what stands behind them. -/
def assignLeading : List Text → Act (List Text)
  | [] => pure []
  | argument :: others => do
    match Command.assigned argument with
    | (_, none) => return argument :: others
    | (name, some value) =>
      modify fun process => process.bind name { value? := some value, isExported := true }
      assignLeading others

/-- What the options of the command that looks for programs leave of its arguments. -/
def finderOperands : List Text → List Text
  | ['-', '-'] :: rest => rest
  | ('-' :: 'S' :: words) :: rest =>
    (Text.splitOn ' ' words).filter (!·.isEmpty) ++ rest
  | arguments => arguments

/-- Be the command that looks for a program by its name. -/
def beFinder (run : Runs) (name : Text) : Nat → List Text → Act Unit
  | 0, _ => conclude 127
  | fuel + 1, arguments => do
    match ← assignLeading (finderOperands arguments) with
    | [] =>
      let shared := (← get).shared
      let _ ← write outputDescriptor (Command.lines (shared.map fun (key, value) => key ++ '=' :: value))
      conclude 0
    | target :: others =>
      let process ← get
      let startup := do
        let path ← process.whereabouts target
        Startup.ofPathOrText process.system.tree path others
      match startup with
      | .ok (.shell shell given) => beShell run shell given
      | .ok (.finder finder given) => beFinder run finder fuel given
      | .error fault =>
        mutter (finderWords name target fault)
        if target.contains ' ' ∧ fault = .notFound then
          mutter (name ++ ascii ": use -[v]S to pass options in shebang lines\n")
        conclude (if fault = .notFound then 127 else 126)

/-- Be what is started. -/
def be (run : Runs) : Startup → Act Unit
  | .shell name arguments => beShell run name arguments
  | .finder name arguments => beFinder run name Startup.interpreterLimit arguments

def startProgram (run : Runs) (startup : Startup) : Act Ending := do
  let process ← get
  let number := process.system.processes + 1
  let system := { process.system with processes := number }
  let child := fresh system process.descriptors number process.number process.shared
  let ignoring := (process.forked).traps
  runApart run { child with traps := ignoring, mask := process.mask } (be run startup)

end Process

end AssetPipeline.Shell
