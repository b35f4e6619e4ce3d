/-
This file launches tools that are programs in the file tree. A name without a separator is looked
up in the search path; there a place where nothing is to be found is passed over, and so is one
that may not be executed, but that is remembered. What is no program cannot be launched, although
the shell would take it for a script.
-/

import AssetPipeline.Shell.Evaluate
import AssetPipeline.Tool.Conversion

namespace AssetPipeline.Shell

/-- What launching one of several paths comes to. -/
def firstStartup (tree : FileTree) (arguments : List Text) (remembered : Fault) :
    List Text → Except Fault Startup
  | [] => .error remembered
  | path :: rest =>
    match Startup.ofPath tree Startup.interpreterLimit path arguments with
    | .ok startup => .ok startup
    | .error .permissionDenied => firstStartup tree arguments .permissionDenied rest
    | .error .notFound | .error .notADirectory => firstStartup tree arguments remembered rest
    | .error fault => .error fault

/-- What launching a program by its name comes to. -/
def startupNamed (tree : FileTree) (searchPath : List Path) (name : Path)
    (arguments : List Text) : Except Fault Startup :=
  if name.text = [] then .error .notFound
  else if name.text.contains Path.separator then
    Startup.ofPath tree Startup.interpreterLimit (Text.octets name.text) arguments
  else
    firstStartup tree arguments .notFound
      (searchPath.map fun directory => Text.octets (directory.join name).text)

/-- The number of the process of a tool. -/
def toolNumber : Nat := 2

/-- The system at the start of a tool, for which there is nothing to read. -/
def System.start (tree : FileTree) : System where
  tree := tree
  streams := #[.nowhere, .printed, .complained]
  processes := toolNumber

/-- The process that becomes a tool. -/
def launched (tree : FileTree) (searchPath : List Path) : Process :=
  let directories := Text.joinWith ':' (searchPath.map fun path => Text.octets path.text)
  let descriptors := [(Process.inputDescriptor, 0), (Process.outputDescriptor, 1), (Process.errorDescriptor, 2)]
  Process.fresh (System.start tree) descriptors toolNumber 1 [(Process.searchPath, directories)]

/-- Run a program to its end: the system it leaves, and the code it ends with. -/
def runToEnd (process : Process) (startup : Startup) : System × ExitCode :=
  let run := Process.run Process.depthLimit
  let act : Act Unit := do Process.finish run (← (Process.be run startup).outcome)
  let (outcome, after) := act.run.run process
  let code : ExitCode :=
    match outcome with
    | .error (.killed _ _) => none
    | _ => some ((after.status % Process.statusBound : Nat) : Int)
  (after.system, code)

/-- Launches the tools of the file tree itself. -/
def runner (searchPath : List Path) : Runner Unit where
  launch job machine :=
    if (job.executable.text :: job.arguments).any (·.contains '\x00') then
      ⟨.error .nulInCommand, [], [], machine⟩
    else
      let arguments := job.arguments.map Text.octets
      match startupNamed machine.tree searchPath job.executable arguments with
      | .error fault => ⟨.error fault, [], [], machine⟩
      | .ok startup =>
        let (system, code) := runToEnd (launched machine.tree searchPath) startup
        let workingDirectory := machine.tree.workingDirectory
        let tree := { system.tree with workingDirectory }
        ⟨.ok code, Text.ofOctets system.printed.reverse, Text.ofOctets system.complained.reverse,
          { machine with tree }⟩

end AssetPipeline.Shell
