/-
This file says what the report of a run accounts for. Every command of the script has its record, in
order, whatever became of the commands before it. A command that is refused, or that cannot list its
files, has done nothing. Any other goes through its list from the front: its record names the files
it completed, and when it stopped, the next file on the list is the one that failed. The files
behind that one play no part, for the command does what it would do if the list ended there.
-/

import AssetPipeline.Proofs.Build.Retry

namespace AssetPipeline

namespace Session

variable {State : Type} {session : Session State} {verb : Verb} {machine : Machine State}

/-! ### Going through a list of files -/

/-- What completes a visit is about the file that was visited. -/
theorem relative_of_visit {relative : Path} {completion : Completion}
    (completed : (session.visit verb relative machine).value = .ok completion) :
    completion.relative = relative := by
  have course := session.visit_course verb relative machine
  generalize (session.visit verb relative machine).value = value at completed course
  generalize (session.visit verb relative machine).machine = left at course
  subst completed
  cases course <;> rfl

theorem visitAll_cons_of_ok {relative : Path} {rest : List Path} {completion : Completion}
    (completed : (session.visit verb relative machine).value = .ok completion) :
    session.visitAll verb (relative :: rest) machine =
      let here := session.visit verb relative machine
      let others := session.visitAll verb rest here.machine
      ⟨(completion :: others.value.1, others.value.2), here.events ++ others.events,
        others.machine⟩ := by
  simp only [visitAll, Effect.bind, completed, Effect.map, Effect.after]

theorem visitAll_cons_of_error {relative : Path} {rest : List Path} {error : CommandFailure}
    (failed : (session.visit verb relative machine).value = .error error) :
    session.visitAll verb (relative :: rest) machine =
      let here := session.visit verb relative machine
      ⟨([], some error), here.events, here.machine⟩ := by
  simp only [visitAll, Effect.bind, failed, Effect.pure, Effect.after, List.append_nil]

/-- When files are completed and the one behind them fails, nothing else happens, whatever the
list goes on with. -/
theorem visitAll_of_stop {done others : List Path} {failing : Path} {completions : List Completion}
    {error : CommandFailure}
    (completed : (session.visitAll verb done machine).value = (completions, none))
    (failed : (session.visit verb failing (session.visitAll verb done machine).machine).value =
      .error error) :
    session.visitAll verb (done ++ failing :: others) machine =
      let before := session.visitAll verb done machine
      let last := session.visit verb failing before.machine
      ⟨(completions, some error), before.events ++ last.events, last.machine⟩ := by
  induction done generalizing machine completions with
  | nil =>
    obtain rfl : [] = completions := congrArg Prod.fst completed
    exact visitAll_cons_of_error failed
  | cons relative rest inductionHypothesis =>
    cases visited : (session.visit verb relative machine).value with
    | error first =>
      rw [visitAll_cons_of_error visited] at completed
      cases completed
    | ok completion =>
      rw [visitAll_cons_of_ok visited] at completed failed ⊢
      obtain ⟨rfl, complete⟩ := Prod.mk.inj completed
      rw [List.cons_append, visitAll_cons_of_ok visited]
      dsimp only at failed ⊢
      rw [inductionHypothesis (Prod.ext rfl complete) failed]
      simp only [List.append_assoc]

/-- A list of files is gone through to its end, or up to the first that fails. -/
theorem visitAll_cases (session : Session State) (verb : Verb) (files : List Path)
    (machine : Machine State) :
    (∃ completions, (session.visitAll verb files machine).value = (completions, none) ∧
      completions.map (·.relative) = files) ∨
    ∃ completions failing others error, files = completions.map (·.relative) ++ failing :: others ∧
      let before := session.visitAll verb (completions.map (·.relative)) machine
      before.value = (completions, none) ∧
        (session.visit verb failing before.machine).value = .error error := by
  induction files generalizing machine with
  | nil => exact Or.inl ⟨[], rfl, rfl⟩
  | cons relative rest inductionHypothesis =>
    cases visited : (session.visit verb relative machine).value with
    | error error => exact Or.inr ⟨[], relative, rest, error, rfl, rfl, visited⟩
    | ok completion =>
      have named := relative_of_visit visited
      rcases inductionHypothesis (session.visit verb relative machine).machine with
        ⟨completions, complete, all⟩ |
          ⟨completions, failing, others, error, whole, complete, failed⟩
      · refine Or.inl ⟨completion :: completions, ?_, ?_⟩
        · rw [visitAll_cons_of_ok visited]
          dsimp only
          rw [complete]
        · rw [List.map_cons, named, all]
      · refine Or.inr ⟨completion :: completions, failing, others, error, ?_, ?_⟩
        · rw [List.map_cons, named, whole, List.cons_append]
        · rw [List.map_cons, named, visitAll_cons_of_ok visited]
          dsimp only
          rw [complete]
          exact ⟨rfl, failed⟩

/-! ### What a command accounts for -/

/-- The command ends with this error before it takes up a file: it completes none, launches nothing
and leaves the machine as it finds it. -/
def EndsAtOnce (session : Session State) (command : Command) (found : Machine State)
    (error : CommandFailure) : Prop :=
  let effect := session.record command found
  effect.value.files = [] ∧ effect.value.error? = some error ∧ Event.jobs effect.events = [] ∧
    effect.machine = found

/-- The command ends with this error at the next file on its list after those it completed. It does
what it would do if the list ended with that file. -/
def StopsAt (session : Session State) (command : Command) (checked : CheckedCommand)
    (files : List Path) (found : Machine State) (error : CommandFailure) : Prop :=
  let effect := session.record command found
  let done := effect.value.files.map (·.relative)
  ∃ failing others, files = done ++ failing :: others ∧
    let before := session.visitAll checked.verb done found
    let last := session.visit checked.verb failing before.machine
    before.value = (effect.value.files, none) ∧ last.value = .error error ∧
      effect.machine = last.machine ∧
      effect.events = .summary checked.verb checked.wildcard files.length checked.label ::
        (before.events ++ last.events ++ [.commandFailed command.verb error, .commandEnd]) ∧
      session.visitAll checked.verb files found =
        session.visitAll checked.verb (done ++ [failing]) found

/-- What the record of a command says about the files that the command found. -/
structure Accounts (session : Session State) (command : Command) (found : Machine State) :
    Prop where
  /-- The command stands in the script as its record says. -/
  stands : (session.record command found).value.line = command.line ∧
    (session.record command found).value.verb = command.verb
  refused : ∀ error, command.check = .error error → session.EndsAtOnce command found error
  unlisted : ∀ checked error, command.check = .ok checked →
    Selection.members found.tree session.layout.sourceRoot checked.wildcard = .error error →
    session.EndsAtOnce command found error
  /-- The files completed come first on the list, and are all of it when there is no error. -/
  inOrder : ∀ checked files, command.check = .ok checked →
    Selection.members found.tree session.layout.sourceRoot checked.wildcard = .ok files →
    (session.record command found).value.files.map (·.relative) <+: files ∧
      ((session.record command found).value.files.map (·.relative) = files ↔
        (session.record command found).value.error? = none)
  stopped : ∀ checked files error, command.check = .ok checked →
    Selection.members found.tree session.layout.sourceRoot checked.wildcard = .ok files →
    (session.record command found).value.error? = some error →
    session.StopsAt command checked files found error

theorem endsAtOnce_of_carryOut {command : Command} {found : Machine State} {error : CommandFailure}
    (ends : session.carryOut command found = .pure ([], some error) found) :
    session.EndsAtOnce command found error := by
  unfold EndsAtOnce record
  rw [ends]
  exact ⟨rfl, rfl, rfl, rfl⟩

/-- The record of a command that went through its files names the files that it completed. -/
theorem record_of_listed {command : Command} {checked : CheckedCommand} {files : List Path}
    {found : Machine State} (accepted : command.check = .ok checked)
    (listed : Selection.members found.tree session.layout.sourceRoot checked.wildcard =
      .ok files) :
    session.record command found =
      let went := session.visitAll checked.verb files found
      ⟨⟨command.line, command.verb, went.value.1, went.value.2⟩,
        .summary checked.verb checked.wildcard files.length checked.label :: (went.events ++
          ((went.value.2.map (Event.commandFailed command.verb)).toList ++ [.commandEnd])),
        went.machine⟩ := by
  unfold record
  rw [carryOut_of_listed accepted listed]
  rfl

theorem accounts_record (session : Session State) (command : Command) (found : Machine State) :
    session.Accounts command found where
  stands := ⟨rfl, rfl⟩
  refused error refused := endsAtOnce_of_carryOut (carryOut_of_refused refused)
  unlisted checked error accepted unlisted :=
    endsAtOnce_of_carryOut (carryOut_of_unlisted accepted unlisted)
  inOrder checked files accepted listed := by
    rw [record_of_listed accepted listed]
    rcases session.visitAll_cases checked.verb files found with ⟨completions, complete, all⟩ |
      ⟨completions, failing, others, error, whole, complete, failed⟩
    · dsimp only
      rw [complete]
      exact ⟨all ▸ List.prefix_refl _, iff_of_true all rfl⟩
    · have went : session.visitAll checked.verb (_ ++ failing :: others) found = _ :=
        visitAll_of_stop complete failed
      rw [← whole] at went
      rw [went]
      dsimp only
      refine ⟨⟨failing :: others, whole.symm⟩, iff_of_false (fun all => ?_) nofun⟩
      rw [all] at whole
      simp at whole
  stopped checked files error accepted listed ended := by
    unfold StopsAt
    rw [record_of_listed accepted listed] at ended ⊢
    rcases session.visitAll_cases checked.verb files found with ⟨completions, complete, all⟩ |
      ⟨completions, failing, others, first, whole, complete, failed⟩
    · dsimp only at ended
      rw [complete] at ended
      cases ended
    · have went : session.visitAll checked.verb (_ ++ failing :: others) found = _ :=
        visitAll_of_stop complete failed
      rw [← whole] at went
      rw [went] at ended ⊢
      obtain rfl : first = error := Option.some.inj ended
      refine ⟨failing, others, whole, complete, failed, rfl, ?_, ?_⟩
      · simp only [Option.map_some, Option.toList_some, List.append_assoc, List.cons_append,
          List.nil_append]
      · exact (visitAll_of_stop complete failed).symm

/-! ### A command that fails between two others -/

/-- A verb that does not exist. -/
def stray : Command := ⟨1, ['z', 'i', 'p'], []⟩

/-- Copies the wave. -/
def copyAfterwards : Command := ⟨3, ['c', 'o', 'p', 'y'], [['*', '.', 'w', 'a', 'v'], ['x']]⟩

def strayEncodeCopy : Text := [
  'z', 'i', 'p', '\n',
  'w', 'a', 'v', '-', 't', 'o', '-', 'o', 'g', 'g', ' ', '*', '.', 'w', 'a', 'v', ' ', 'x', '\n',
  'c', 'o', 'p', 'y', ' ', '*', '.', 'w', 'a', 'v', ' ', 'x', '\n']

/-! ### What a run accounts for -/

/-- The commands in the front of a script do what they would do alone, and those behind them go on
from the machine they leave. -/
theorem runCommands_append (session : Session State) (before after : Script)
    (machine : Machine State) :
    session.runCommands (before ++ after) machine =
      let first := session.runCommands before machine
      let second := session.runCommands after first.machine
      ⟨first.value ++ second.value, first.events ++ second.events, second.machine⟩ := by
  induction before generalizing machine with
  | nil => rfl
  | cons command rest inductionHypothesis =>
    simp only [List.cons_append, runCommands, Effect.bind, Effect.after, Effect.map,
      inductionHypothesis, List.append_assoc]

theorem lines_runCommands (session : Session State) (script : Script) (machine : Machine State) :
    (session.runCommands script machine).value.map (fun record => (record.line, record.verb)) =
      script.map fun command => (command.line, command.verb) := by
  induction script generalizing machine with
  | nil => rfl
  | cons command rest inductionHypothesis =>
    rw [(runCommands_cons command rest machine).1, List.map_cons, List.map_cons,
      inductionHypothesis]
    rfl

/-- A run reports on every command of its text, in order and by line and verb. Each command starts
from what the commands before it left, reports alone, and leaves the rest of the script to go on;
its record accounts for the files it found, as `Accounts` says. -/
theorem runText_accounts (session : Session State) (text : Text) (machine : Machine State) :
    (session.runText text machine).value.map (fun record => (record.line, record.verb)) =
        (Script.ofText text).map (fun command => (command.line, command.verb)) ∧
      ∀ before command after, Script.ofText text = before ++ command :: after →
        let first := session.runCommands before machine
        let effect := session.record command first.machine
        let others := session.runCommands after effect.machine
        session.runText text machine =
            ⟨first.value ++ effect.value :: others.value,
              first.events ++ effect.events ++ others.events ++ [.done], others.machine⟩ ∧
          session.Accounts command first.machine := by
  refine ⟨session.lines_runCommands (Script.ofText text) machine, ?_⟩
  intro before command after whole first effect others
  refine ⟨?_, session.accounts_record command first.machine⟩
  have ran : session.runCommands (Script.ofText text) machine =
      ⟨first.value ++ effect.value :: others.value,
        first.events ++ (effect.events ++ others.events), others.machine⟩ := by
    rw [whole, runCommands_append]
    rfl
  unfold runText run
  rw [ran, List.append_assoc first.events]
  rfl

theorem runText_accounts_strayEncodeCopy :
    Script.ofText strayEncodeCopy = [stray] ++ encodeAgain :: [copyAfterwards] ∧
      (halfway.runText strayEncodeCopy oneWave).value =
        [⟨1, stray.verb, [], some (.unknownVerb stray.verb)⟩,
          ⟨2, encodeAgain.verb, [],
            some (.toolFailed ['o', 'g', 'g', 'e', 'n', 'c', '2'] (some 3))⟩,
          ⟨3, copyAfterwards.verb,
            [⟨⟨['a', '.', 'w', 'a', 'v']⟩, ⟨['a', '.', 'w', 'a', 'v']⟩, .rebuild⟩], none⟩] ∧
      halfway.Accounts encodeAgain (halfway.runCommands [stray] oneWave).machine := by
  have whole : Script.ofText strayEncodeCopy = [stray] ++ encodeAgain :: [copyAfterwards] := by
    decide +kernel
  obtain ⟨-, each⟩ := runText_accounts halfway strayEncodeCopy oneWave
  exact ⟨whole, by decide +kernel, (each _ _ _ whole).2⟩

end Session

end AssetPipeline
