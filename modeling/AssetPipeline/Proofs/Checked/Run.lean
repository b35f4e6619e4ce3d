/-
This file runs and checks scripts by offsets and indices throughout. A command takes its parameters
by their numbers, once their count has been checked. Whatever the text of a script is, no run and no
check of it comes to an offset or an index that is not there, and they do what the run and the check
do that read texts from the front.
-/

import AssetPipeline.Build.Run
import AssetPipeline.Proofs.Checked.Indices

namespace AssetPipeline.Checked

variable {State : Type}

/-- The verb of a command, when it exists and the command has as many parameters as it needs. -/
def verbOf (command : Command) : Except CommandFailure Verb :=
  match Verb.ofKeyword? command.verb with
  | none => .error (.unknownVerb command.verb)
  | some verb =>
    if command.parameters.length = verb.arity then .ok verb
    else .error (.wrongCount command.verb verb.arity command.parameters.length)

/-- Check a command and take its parameters. -/
def check (command : Command) : Option (Except CommandFailure CheckedCommand) :=
  match verbOf command with
  | .error error => some (.error error)
  | .ok verb => do
    let wildcard ← command.parameters[0]?
    let label ← command.parameters[1]?
    some (.ok ⟨verb, wildcard, label⟩)

/-- A command that passed the check has both parameters. -/
theorem check_eq (command : Command) : check command = some command.check := by
  unfold check verbOf Command.check
  cases Verb.ofKeyword? command.verb with
  | none => rfl
  | some verb =>
    rcases command.parameters with _ | ⟨wildcard, _ | ⟨label, _ | ⟨further, rest⟩⟩⟩
    · rfl
    · rfl
    · rfl
    · have more : ¬ (wildcard :: label :: further :: rest).length = verb.arity :=
        Nat.ne_of_gt (by simp [Verb.arity])
      dsimp only
      rw [if_neg more]

/-- What is wrong with a command. -/
def issue? (command : Command) : Option Issue :=
  match verbOf command with
  | .ok _ => none
  | .error error => some ⟨command.line, error⟩

theorem issue?_eq (command : Command) : issue? command = command.issue? := by
  have same := check_eq command
  unfold check at same
  unfold issue? Command.issue?
  cases verdict : verbOf command with
  | error error =>
    rw [verdict] at same
    rw [← Option.some.inj same]
  | ok verb =>
    rw [verdict] at same
    cases checked : command.check with
    | ok _ => rfl
    | error error =>
      rw [checked] at same
      obtain ⟨wildcard, -, more⟩ := Option.bind_eq_some_iff.mp same
      obtain ⟨label, -, passed⟩ := Option.bind_eq_some_iff.mp more
      cases passed

/-- What is wrong with a script text, in order. -/
def issues (text : Text) : Option (List Issue) := do
  let script ← ofText text
  some (script.filterMap issue?)

theorem issues_eq (text : Text) : issues text = some (Script.issues (Script.ofText text)) := by
  unfold issues Script.issues
  rw [ofText_eq, funext issue?_eq]
  rfl

/-- Carry out a command: the files it completed, and the error that ended it. -/
def carryOut (session : Session State) (command : Command) (machine : Machine State) :
    Option (Effect State (List Completion × Option CommandFailure)) := do
  match ← check command with
  | .error error => some (.pure ([], some error) machine)
  | .ok ⟨verb, wildcard, label⟩ =>
    match ← members machine.tree session.layout.sourceRoot wildcard with
    | .error error => some (.pure ([], some error) machine)
    | .ok files =>
      some ((session.visitAll verb files machine).after
        [.summary verb wildcard files.length label])

theorem carryOut_eq (session : Session State) (command : Command) (machine : Machine State) :
    carryOut session command machine = some (session.carryOut command machine) := by
  unfold carryOut Session.carryOut
  rw [check_eq, Option.bind_eq_bind, Option.bind_some]
  cases command.check with
  | error error => rfl
  | ok checked =>
    dsimp only
    rw [members_eq, Option.bind_eq_bind, Option.bind_some]
    cases Selection.members machine.tree session.layout.sourceRoot checked.wildcard <;> rfl

/-- Carry out a command and report on it. -/
def record (session : Session State) (command : Command) (machine : Machine State) :
    Option (Effect State CommandRecord) :=
  (carryOut session command machine).map fun effect =>
    effect.bind fun (files, error?) machine =>
      let failure := (error?.map (Event.commandFailed command.verb)).toList
      ⟨⟨command.line, command.verb, files, error?⟩, failure ++ [.commandEnd], machine⟩

/-- Carry out commands, one after the other. -/
def runCommands (session : Session State) :
    Script → Machine State → Option (Effect State RunRecord)
  | [], machine => some (.pure [] machine)
  | command :: rest, machine => do
    let first ← record session command machine
    let others ← runCommands session rest first.machine
    some (first.bind fun report _ => others.map (report :: ·))

theorem runCommands_eq (session : Session State) (script : Script) (machine : Machine State) :
    runCommands session script machine = some (session.runCommands script machine) := by
  induction script generalizing machine with
  | nil => rfl
  | cons command rest inductionHypothesis =>
    unfold runCommands record
    rw [carryOut_eq, Option.map_some, Option.bind_eq_bind, Option.bind_some, inductionHypothesis]
    rfl

/-- Read a script text and run it. -/
def runText (session : Session State) (text : Text) (machine : Machine State) :
    Option (Effect State RunRecord) := do
  let script ← ofText text
  let effect ← runCommands session script machine
  some (effect.bind fun report machine => ⟨report, [.done], machine⟩)

/-- Whatever is written in a script, nothing in it is taken from where nothing is: not when it is
split into commands and parameters, when a wildcard is cut, when a name is matched, or when the
parameters of a command are taken. So a run comes to its end, whatever the session and the machine,
and so does a check. -/
theorem always_within_reach :
    (∀ raw, split raw = some (Parameters.split raw)) ∧
    (∀ line, withoutComment line = some (Script.withoutComment line)) ∧
    (∀ number line, commandOfLine number line = some (Script.commandOfLine? number line)) ∧
    (∀ wildcard, ofWildcard wildcard = some (Selection.ofWildcard wildcard)) ∧
    (∀ pattern name, accept pattern name = some (Wildcard.accept pattern name)) ∧
    (∀ command, check command = some command.check) ∧
    (∀ text, issues text = some (Script.issues (Script.ofText text))) ∧
    ∀ (session : Session State) (text : Text) (machine : Machine State),
      runText session text machine = some (session.runText text machine) := by
  refine ⟨split_eq, withoutComment_eq, commandOfLine_eq, ofWildcard_eq, accept_eq, check_eq,
    issues_eq, fun session text machine => ?_⟩
  unfold runText
  rw [ofText_eq, Option.bind_eq_bind, Option.bind_some, runCommands_eq]
  rfl

end AssetPipeline.Checked
