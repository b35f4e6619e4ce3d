/-
This file holds the program that builds: it runs a script, or checks one without running it.

The settings of the tools are read and the output directory is made before anything else; an
error there stops the program before the paths are printed. A command that fails does not stop a
build, and does not change its exit code; a check that finds something wrong fails.
-/

import AssetPipeline.Build.Run
import AssetPipeline.CommandLine.Ending
import AssetPipeline.Shell.Launch
import AssetPipeline.Text.Quoted
import AssetPipeline.Tool.SettingsFile

namespace AssetPipeline.CommandLine

/-- What a build is asked for. -/
structure BuildRequest where
  script : Path
  source : Path
  output : Path
  /-- Where the tools are, instead of beside the program. -/
  tools? : Option Path
  /-- The file with the settings of the tools. -/
  settings? : Option Path
  /-- Whether debugging lines are shown. -/
  verbose : Bool
  deriving DecidableEq

/-- What the program is asked for. -/
inductive BuildTask where
  | build (request : BuildRequest)
  | check (script : Path)
  deriving DecidableEq

namespace BuildTask

def toolsOption : OptionForm := ⟨"tools".toList, 't', true⟩

def settingsOption : OptionForm := ⟨"settings".toList, 's', true⟩

/-- The option that shows debugging lines. -/
def verboseOption : OptionForm := ⟨"verbose".toList, 'v', false⟩

/-- What the command to build takes. -/
def buildForm : Form := ⟨[toolsOption, settingsOption, verboseOption], some 3⟩

/-- What the command to check takes. -/
def checkForm : Form := ⟨[], some 1⟩

/-- The build that arguments ask for. -/
def readBuild (texts : List Text) : Except Halt BuildTask :=
  match Arguments.read buildForm texts {} with
  | .error halt => .error halt
  | .ok arguments =>
    match arguments.positional with
    | [script, source, output] =>
      .ok (.build {
        script := ⟨script⟩
        source := ⟨source⟩
        output := ⟨output⟩
        tools? := (arguments.value? toolsOption.long).map Path.mk
        settings? := (arguments.value? settingsOption.long).map Path.mk
        verbose := arguments.flags.contains verboseOption.long })
    | _ => .error .misuse

/-- The check that arguments ask for. -/
def readCheck (texts : List Text) : Except Halt BuildTask :=
  match Arguments.read checkForm texts {} with
  | .error halt => .error halt
  | .ok arguments =>
    match arguments.positional with
    | [script] => .ok (.check ⟨script⟩)
    | _ => .error .misuse

def buildCommand : Text := "build".toList

def checkCommand : Text := "check".toList

/-- What arguments ask for. -/
def read (texts : List Text) : Except Halt BuildTask :=
  match chooseCommand [buildCommand, checkCommand] texts with
  | .error halt => .error halt
  | .ok (command, rest) => if command = buildCommand then readBuild rest else readCheck rest

end BuildTask

namespace BuildProgram

/-- What the program is told by where it runs: the directory it is installed in, and the
directories in which executables are looked for. -/
structure Surroundings where
  installation : Path
  searchPath : List Path
  deriving DecidableEq

/-- The part of the program that its own diagnostic lines name. -/
def origin : String := "build_data"

/-- What a build prints first. -/
def banner : String := "Game data build tool\n\n"

/-- How the program is used. -/
def usage : String :=
  "Game data build tool\n\n" ++
  "Usage: build-data build [OPTIONS] <SCRIPT> <SOURCE> <OUTPUT>\n" ++
  "       build-data check <SCRIPT>\n\n" ++
  "Options:\n" ++
  "  -t, --tools <TOOLS>        Directory containing the encoder binaries\n" ++
  "  -s, --settings <SETTINGS>  TOML file overriding encoder names and quality\n" ++
  "  -v, --verbose              Verbose output\n" ++
  "  -h, --help                 Print help\n" ++
  "  -V, --version              Print version\n"

/-- The name and version of the program. -/
def version : String := "build-data 0.1.0\n"

/-- The words of a script error and of its causes, the error first. -/
def causes (error : StartFailure) : List String :=
  match error with
  | .unreadable _ fault => [error.message, fault.message]
  | .badSettings .. => [error.message]

def settingsOf (request : BuildRequest) (tree : FileTree) : Except StartFailure Tooling :=
  match request.settings? with
  | none => .ok .standard
  | some path => Tooling.ofFile tree path

def layoutOf (surroundings : Surroundings) (request : BuildRequest) (settings : Tooling) :
    Layout where
  script := request.script
  sourceRoot := request.source
  outputRoot := request.output
  toolsRoot := request.tools?.getD surroundings.installation
  searchPath := surroundings.searchPath
  tools := settings

/-- Make the output directory, unless it is there. -/
def makeOutput (output : Path) (tree : FileTree) : FileTree × Except Fault Unit :=
  if tree.isDirectory output then (tree, .ok ()) else tree.makeDirectories output

/-- The lines that name the paths of a build. -/
def heading (request : BuildRequest) : String :=
  s!"ConfigFile: {request.script}\n" ++ s!"SourcePath: {request.source}\n" ++
    s!"OutputPath: {request.output}\n\n"

/-- The diagnostic line that names the directory of the tools. -/
def toolsLine (layout : Layout) : Diagnostic :=
  ⟨.debug, origin, s!"Tools directory: {layout.toolsRoot}"⟩

/-- The diagnostic line that counts what a run did. -/
def countLine (report : RunRecord) : Diagnostic :=
  ⟨.debug, origin,
    s!"{report.rebuilt} rebuilt, {report.upToDate} up to date, {report.failed} failed command(s)"⟩

/-- What tools printed as errors. -/
def complaints (events : List Event) : String :=
  String.join (events.map fun
    | .toolComplaint text => String.ofList text
    | _ => "")

/-- Run the script of a layout. `printed` is what the program printed before. -/
def runLayout {State : Type} (runner : Runner State) (state : State) (verbose : Bool)
    (layout : Layout) (printed : String) (tree : FileTree) : Ending :=
  let session := Session.start layout runner tree
  let effect := session.runFile ⟨tree, state⟩
  let events := .toolsFound session.toolbox :: effect.events
  let output := printed ++ shownLines verbose [toolsLine layout] ++ console verbose events
  let ending :=
    match effect.value with
    | .error error => Ending.fatal output (causes error) effect.machine.tree
    | .ok report =>
      .success (output ++ shownLines verbose [countLine report]) effect.machine.tree
  { ending with errors := complaints events ++ ending.errors }

def build {State : Type} (runner : Runner State) (state : State) (surroundings : Surroundings)
    (request : BuildRequest) (tree : FileTree) : Ending :=
  match settingsOf request tree with
  | .error error => .fatal banner (causes error) tree
  | .ok settings =>
    match makeOutput request.output tree with
    | (tree, .error fault) =>
      let words := s!"Failed to create output directory: {request.output}"
      .fatal banner [words, fault.message] tree
    | (tree, .ok ()) =>
      let layout := layoutOf surroundings request settings
      runLayout runner state request.verbose layout (banner ++ heading request) tree

def issueLine (issue : Issue) : String := s!"  line {issue.line}: {issue.error}\n"

def check (script : Path) (tree : FileTree) : Ending :=
  let checking : Diagnostic :=
    ⟨.info, origin, s!"Checking script {String.ofList script.text.quoted}"⟩
  let valid : Diagnostic := ⟨.info, origin, "Script is valid!"⟩
  match tree.readText script with
  | .error fault =>
    .fatal checking.line [s!"Failed to read script: {script}", fault.message] tree
  | .ok text =>
    match (Script.ofText text).issues with
    | [] => .success (checking.line ++ valid.line) tree
    | issues =>
      let words := s!"{issues.length} invalid command(s) in {script}"
      let ending := Ending.fatal checking.line [words] tree
      { ending with errors := String.join (issues.map issueLine) ++ ending.errors }

def run (surroundings : Surroundings) (arguments : List Text) (tree : FileTree) : Ending :=
  match BuildTask.read arguments with
  | .error halt => .halted usage version tree halt
  | .ok (.build request) =>
    build (Shell.runner surroundings.searchPath) () surroundings request tree
  | .ok (.check script) => check script tree

end BuildProgram

end AssetPipeline.CommandLine
