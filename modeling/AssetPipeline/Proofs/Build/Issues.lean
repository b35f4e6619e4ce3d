/-
This file says that what is wrong with a script shows without running it. A command whose verb or
number of parameters is wrong is refused before anything else, in a check as in a run, and nothing
that a run does later fails in one of these two ways. So the check finds exactly what every run of
the script reports of this kind, in the same order and on the same lines, whatever the layout, the
world and the tools.
-/

import AssetPipeline.CommandLine.BuildProgram
import AssetPipeline.Proofs.Build.Retry

namespace AssetPipeline

/-- The issue that a record shows, if its error is one that the script shows without being run. -/
def CommandRecord.issue? (record : CommandRecord) : Option Issue :=
  (record.error?.filter CommandFailure.isStatic).map (Issue.mk record.line)

/-- The issues that a report shows, in order. -/
def RunRecord.issues (report : RunRecord) : List Issue := report.filterMap CommandRecord.issue?

/-! ### What fails before a run and what fails in it -/

theorem Command.isStatic_of_check {command : Command} {error : CommandFailure}
    (refused : command.check = .error error) : error.isStatic = true := by
  unfold Command.check at refused
  split at refused
  · cases refused
    rfl
  · split at refused <;> cases refused
    rfl

theorem CommandFailure.isStatic_of_endsBuild {error : CommandFailure}
    (building : error.endsBuild = true) : error.isStatic = false := by
  cases error with
  | unknownVerb verb => cases building
  | wrongCount verb expected found => cases building
  | _ => rfl

theorem CommandFailure.endsBuild_of_isOfTool {error : CommandFailure}
    (tool : error.isOfTool = true) : error.endsBuild = true := by
  cases error with
  | notCopied source target fault => rfl
  | timeNotSet path fault => rfl
  | _ => exact tool

/-- Listing the files of a wildcard fails in two ways. -/
theorem Selection.members_error {tree : FileTree} {root : Path} {wildcard : Text}
    {error : CommandFailure} (failed : Selection.members tree root wildcard = .error error) :
    (∃ path fault, error = .unsearchable path fault) ∨ ∃ stopped, error = .unlisted stopped := by
  unfold Selection.members at failed
  dsimp only at failed
  split at failed
  · cases failed
    exact Or.inl ⟨_, _, rfl⟩
  split at failed
  · cases failed
    exact Or.inl ⟨_, _, rfl⟩
  split at failed <;> cases failed
  exact Or.inr ⟨_, rfl⟩

namespace Session

variable {State : Type} {session : Session State} {verb : Verb} {machine : Machine State}
  {error : CommandFailure}

theorem endsBuild_of_produce {source target : Path}
    (failed : (session.produce verb source target machine).value = .error error) :
    error.endsBuild = true := by
  cases verb with
  | copy =>
    unfold produce copy at failed
    dsimp only at failed
    split at failed <;> cases failed
    rfl
  | waveToOgg => exact CommandFailure.endsBuild_of_isOfTool (Toolbox.encodeWave_error failed)
  | waveToOggMono => exact CommandFailure.endsBuild_of_isOfTool (Toolbox.encodeWave_error failed)
  | mp3ToOgg => exact CommandFailure.endsBuild_of_isOfTool (Toolbox.convertMp3_error failed)

theorem endsBuild_of_copyModified {tree : FileTree} {source target : Path}
    (failed : tree.copyModified source target = .error error) : error.endsBuild = true := by
  unfold FileTree.copyModified at failed
  split at failed
  · cases failed
    rfl
  split at failed <;> cases failed
  rfl

/-- A visit never fails in a way that the script shows. -/
theorem isStatic_of_visit {relative : Path}
    (failed : (session.visit verb relative machine).value = .error error) :
    error.isStatic = false := by
  have course := session.visit_course verb relative machine
  generalize (session.visit verb relative machine).value = value at failed course
  generalize (session.visit verb relative machine).machine = left at course
  subst failed
  cases course with
  | noRoom room =>
    obtain ⟨_, _, rfl⟩ := FileTree.makeParent_error room
    rfl
  | notProduced room decided produced =>
    exact CommandFailure.isStatic_of_endsBuild (endsBuild_of_produce produced)
  | notStamped room decided produced stamped =>
    exact CommandFailure.isStatic_of_endsBuild (endsBuild_of_copyModified stamped)

theorem isStatic_of_visitAll {files : List Path}
    (failed : (session.visitAll verb files machine).value.2 = some error) :
    error.isStatic = false := by
  induction files generalizing machine with
  | nil => cases failed
  | cons relative rest inductionHypothesis =>
    unfold visitAll Effect.bind at failed
    cases visited : (session.visit verb relative machine).value with
    | error first =>
      rw [visited] at failed
      obtain rfl : first = error := Option.some.inj failed
      exact isStatic_of_visit visited
    | ok completion =>
      rw [visited] at failed
      exact inductionHypothesis failed

/-! ### What a run reports -/

/-- The record of a command shows the issue that the command has, if it has one. -/
theorem issue?_record (session : Session State) (command : Command) (machine : Machine State) :
    (session.record command machine).value.issue? = command.issue? := by
  have shown : (session.record command machine).value.issue? =
      ((session.carryOut command machine).value.2.filter CommandFailure.isStatic).map
        (Issue.mk command.line) := rfl
  rw [shown]
  unfold carryOut Command.issue?
  cases accepted : command.check with
  | error error =>
    have static := Command.isStatic_of_check accepted
    simp [Effect.pure, Option.filter, static]
  | ok checked =>
    dsimp only
    rw [Option.map_eq_none_iff, Option.filter_eq_none_iff]
    intro error failed
    rw [Bool.not_eq_true]
    cases found : Selection.members machine.tree session.layout.sourceRoot checked.wildcard with
    | error other =>
      rw [found] at failed
      obtain rfl : other = error := Option.some.inj failed
      rcases Selection.members_error found with ⟨_, _, rfl⟩ | ⟨_, rfl⟩ <;> rfl
    | ok files =>
      rw [found] at failed
      exact isStatic_of_visitAll failed

theorem issues_runCommands (session : Session State) (script : Script) (machine : Machine State) :
    (session.runCommands script machine).value.issues = script.issues := by
  induction script generalizing machine with
  | nil => rfl
  | cons command rest inductionHypothesis =>
    have others := inductionHypothesis (session.record command machine).machine
    unfold RunRecord.issues Script.issues at others ⊢
    rw [(runCommands_cons command rest machine).1, List.filterMap_cons, List.filterMap_cons,
      issue?_record, others]

end Session

/-! ### A script with two bad lines -/

/-- A verb that does not exist, a copy without a label, and a copy. -/
def twoBadLines : Text := [
  'z', 'i', 'p', ' ', '*', ' ', 'x', '\n',
  'c', 'o', 'p', 'y', ' ', '*', '\n',
  'c', 'o', 'p', 'y', ' ', '*', ' ', 'x']

/-- The script in a file, and a wave below the source root. -/
def scriptAndWave : Machine Unit where
  tree := { Session.oneWave.tree with
    nodes := ([['b', 'u', 'i', 'l', 'd']],
      .file ⟨FileTree.encodeText twoBadLines, ⟨1000, 0⟩, .ordinary⟩) :: Session.oneWave.tree.nodes }
  runner := ()

/-! ### The check and the run -/

open CommandLine in
/-- A check that can read its script succeeds exactly when the script has no issue. -/
theorem code_check {script : Path} {tree : FileTree} {text : Text}
    (given : tree.readText script = .ok text) :
    (BuildProgram.check script tree).code = Ending.successCode ↔
      (Script.ofText text).issues = [] := by
  unfold BuildProgram.check
  rw [given]
  dsimp only
  cases (Script.ofText text).issues with
  | nil => exact iff_of_true rfl rfl
  | cons issue rest => exact iff_of_false Nat.one_ne_zero (List.cons_ne_nil _ _)

open CommandLine in
/-- The check of a text finds what any run of it reports as an unknown verb or a wrong number of
parameters, in the same order and on the same lines. So when the program checks a script and ends
with success, no run of it reports such an error, and otherwise every run does. -/
theorem issues_eq_issues_runText {State : Type} (session : Session State) (text : Text)
    (machine : Machine State) :
    (Script.ofText text).issues = (session.runText text machine).value.issues ∧
      ∀ (script : Path) (tree : FileTree), tree.readText script = .ok text →
        ((BuildProgram.check script tree).code = Ending.successCode ↔
          (session.runText text machine).value.issues = []) := by
  have same : (session.runText text machine).value.issues = (Script.ofText text).issues :=
    session.issues_runCommands (Script.ofText text) machine
  refine ⟨same.symm, fun script tree given => ?_⟩
  rw [same]
  exact code_check given

theorem issues_eq_issues_runText_twoBadLines :
    scriptAndWave.tree.readText Layout.twoRoots.script = .ok twoBadLines ∧
      (Session.halfway.runText twoBadLines scriptAndWave).value.issues =
        [⟨1, .unknownVerb ['z', 'i', 'p']⟩, ⟨2, .wrongCount ['c', 'o', 'p', 'y'] 2 1⟩] ∧
      (CommandLine.BuildProgram.check Layout.twoRoots.script scriptAndWave.tree).code ≠
        CommandLine.Ending.successCode := by
  have given : scriptAndWave.tree.readText Layout.twoRoots.script = .ok twoBadLines := by
    decide +kernel
  obtain ⟨same, ends⟩ := issues_eq_issues_runText Session.halfway twoBadLines scriptAndWave
  rw [Ne, ends _ _ given, ← same]
  exact ⟨given, by decide +kernel⟩

end AssetPipeline
