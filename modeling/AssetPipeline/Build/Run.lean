/-
This file runs scripts. The commands run in order. Each resolves its wildcard and then takes its
files one after the other: it makes the directory of the output, decides whether the output has
to be built, and builds it if so. The first error ends the command and is reported; the run goes
on with the next command. A file counts as completed once nothing about it can fail any more.
-/

import AssetPipeline.Build.Check
import AssetPipeline.Build.Report
import AssetPipeline.Selection.Basic
import AssetPipeline.Tool.Conversion

namespace AssetPipeline

/-- Everything a run needs besides the machine it runs on. -/
structure Session (State : Type) where
  layout : Layout
  toolbox : Toolbox
  runner : Runner State

namespace Session

variable {State : Type}

/-- A session for a layout, with its tools looked up in the tree as it is now. -/
def start (layout : Layout) (runner : Runner State) (tree : FileTree) : Session State :=
  ⟨layout, .find layout tree, runner⟩

def copy (source target : Path) (machine : Machine State) :
    Effect State (Except CommandFailure Unit) :=
  match machine.tree.copyFile source target with
  | .error fault => .pure (.error (.notCopied source target fault)) machine
  | .ok tree => .pure (.ok ()) { machine with tree := tree }

/-- Give an output the time of its source. -/
def stamp (source target : Path) (machine : Machine State) :
    Effect State (Except CommandFailure Unit) :=
  match machine.tree.copyModified source target with
  | .error error => .pure (.error error) machine
  | .ok tree => .pure (.ok ()) { machine with tree := tree }

/-- Produce an output, leaving its time as it comes. -/
def produce (session : Session State) (verb : Verb) (source target : Path)
    (machine : Machine State) : Effect State (Except CommandFailure Unit) :=
  match verb with
  | .copy => copy source target machine
  | .waveToOgg => session.toolbox.encodeWave session.runner source target false machine
  | .waveToOggMono => session.toolbox.encodeWave session.runner source target true machine
  | .mp3ToOgg => session.toolbox.convertMp3 session.runner source target machine

/-- Build an output and give it the time of its source. -/
def build (session : Session State) (verb : Verb) (source target : Path)
    (machine : Machine State) : Effect State (Except CommandFailure Unit) :=
  (session.produce verb source target machine).andThen fun _ machine => stamp source target machine

/-- Make the directory of an output. -/
def makeRoom (target : Path) (machine : Machine State) :
    Effect State (Except CommandFailure Unit) :=
  let made := machine.tree.makeParent target
  .pure made.2 { machine with tree := made.1 }

def sourceOf (session : Session State) (relative : Path) : Path :=
  session.layout.sourceRoot.join relative

/-- The output of the source with this relative path, relative to the output root. -/
def outputOf (verb : Verb) (relative : Path) : Path := relative.output verb.newExtension?

/-- Where the output of the source with this relative path goes. -/
def targetOf (session : Session State) (verb : Verb) (relative : Path) : Path :=
  session.layout.outputRoot.join (outputOf verb relative)

/-- Bring one output up to date. -/
def visit (session : Session State) (verb : Verb) (relative : Path) (machine : Machine State) :
    Effect State (Except CommandFailure Completion) :=
  let output := outputOf verb relative
  let source := session.sourceOf relative
  let target := session.targetOf verb relative
  (makeRoom target machine).andThen fun _ machine =>
    let decision := machine.tree.decision source target
    let outcome : Completion := ⟨relative, output, decision⟩
    Effect.after [.file relative output decision] <|
      match decision with
      | .upToDate => .pure (.ok outcome) machine
      | .rebuild =>
        (session.build verb source target machine).andThen fun _ machine =>
          .pure (.ok outcome) machine

/-- Bring outputs up to date, one after the other, up to the first error. -/
def visitAll (session : Session State) (verb : Verb) :
    List Path → Machine State → Effect State (List Completion × Option CommandFailure)
  | [], machine => .pure ([], none) machine
  | relative :: rest, machine =>
    (session.visit verb relative machine).bind fun value machine =>
      match value with
      | .error error => .pure ([], some error) machine
      | .ok outcome =>
        (session.visitAll verb rest machine).map fun (outcomes, error?) =>
          (outcome :: outcomes, error?)

/-- Carry out a command: the files it completed, and the error that ended it. -/
def carryOut (session : Session State) (command : Command) (machine : Machine State) :
    Effect State (List Completion × Option CommandFailure) :=
  match command.check with
  | .error error => .pure ([], some error) machine
  | .ok ⟨verb, wildcard, label⟩ =>
    match Selection.members machine.tree session.layout.sourceRoot wildcard with
    | .error error => .pure ([], some error) machine
    | .ok files =>
      (session.visitAll verb files machine).after [.summary verb wildcard files.length label]

/-- Carry out a command and report on it. -/
def record (session : Session State) (command : Command) (machine : Machine State) :
    Effect State CommandRecord :=
  (session.carryOut command machine).bind fun (files, error?) machine =>
    let failure := (error?.map (Event.commandFailed command.verb)).toList
    ⟨⟨command.line, command.verb, files, error?⟩, failure ++ [.commandEnd], machine⟩

/-- Carry out commands, one after the other. -/
def runCommands (session : Session State) :
    Script → Machine State → Effect State RunRecord
  | [], machine => .pure [] machine
  | command :: rest, machine =>
    (session.record command machine).bind fun first machine =>
      (session.runCommands rest machine).map (first :: ·)

def run (session : Session State) (script : Script) (machine : Machine State) :
    Effect State RunRecord :=
  (session.runCommands script machine).bind fun report machine => ⟨report, [.done], machine⟩

def runText (session : Session State) (text : Text) (machine : Machine State) :
    Effect State RunRecord :=
  session.run (Script.ofText text) machine

/-- Read the script of the layout and run it. -/
def runFile (session : Session State) (machine : Machine State) :
    Effect State (Except StartFailure RunRecord) :=
  match machine.tree.readText session.layout.script with
  | .error fault => .pure (.error (.unreadable session.layout.script fault)) machine
  | .ok text => (session.runText text machine).map .ok

end Session

end AssetPipeline
