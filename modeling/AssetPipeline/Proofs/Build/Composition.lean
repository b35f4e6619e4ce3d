/-
This file says that runs compose. A line feed between two texts makes one run of two: the commands
of the second text start from the machine that those of the first leave, and do what they would do
in a run of their own. Nothing else passes from one command to the next. Only the lines that the
second reports are counted on, and the first run does not say that it is done.
-/

import AssetPipeline.Proofs.Build.Events
import AssetPipeline.Proofs.Build.Reporting
import AssetPipeline.Proofs.Script.Joining

namespace AssetPipeline

variable {State : Type}

theorem Event.logText_append (first second : List Event) :
    logText (first ++ second) = logText first ++ logText second := by
  unfold logText
  rw [List.map_append, String.join_append]

/-! ### Commands further down -/

/-- The record of a command that stands so many lines further down. -/
def CommandRecord.raised (lines : Nat) (record : CommandRecord) : CommandRecord :=
  { record with line := record.line + lines }

namespace Session

variable {session : Session State}

theorem record_raised (session : Session State) (lines : Nat) (command : Command)
    (machine : Machine State) :
    session.record (command.raised lines) machine =
      (session.record command machine).map (CommandRecord.raised lines) :=
  rfl

theorem runCommands_raised (session : Session State) (lines : Nat) (script : Script)
    (machine : Machine State) :
    session.runCommands (script.map (Command.raised lines)) machine =
      (session.runCommands script machine).map (List.map (CommandRecord.raised lines)) := by
  induction script generalizing machine with
  | nil => rfl
  | cons command rest inductionHypothesis =>
    rw [List.map_cons, runCommands, runCommands, record_raised]
    simp only [Effect.bind, Effect.map, Effect.after, inductionHypothesis, List.map_cons]

/-- The commands of a joined text run one after the other, with the lines of the second text counted
on from the first. -/
theorem runCommands_ofText_append (session : Session State) (first second : Text)
    (machine : Machine State) :
    session.runCommands (Script.ofText (first ++ '\n' :: second)) machine =
      let opening := session.runCommands (Script.ofText first) machine
      let rest := session.runCommands (Script.ofText second) opening.machine
      ⟨opening.value ++ rest.value.map (CommandRecord.raised (first.count '\n' + 1)),
        opening.events ++ rest.events, rest.machine⟩ := by
  rw [Script.ofText_append_newline, runCommands_append]
  simp only [runCommands_raised, Effect.map]

/-- A run of two texts with a line feed between them does what a run of the first and then one of
the second do: it leaves the same machine, launches the same jobs, and reports the same commands,
those of the second on lines counted on from the first. Of what the two runs say, only that the
first is done is left out, and so it is in the log. -/
theorem runText_append (session : Session State) (first second : Text) (machine : Machine State) :
    let before := session.runText first machine
    let after := session.runText second before.machine
    let whole := session.runText (first ++ '\n' :: second) machine
    whole.value =
        before.value ++ after.value.map (CommandRecord.raised (first.count '\n' + 1)) ∧
      whole.machine = after.machine ∧
      Event.jobs whole.events = Event.jobs before.events ++ Event.jobs after.events ∧
      whole.events = (before.events ++ after.events).erase .done ∧
      ∃ log, Event.logText before.events = log ++ "Done.\n" ∧
        Event.logText whole.events = log ++ Event.logText after.events := by
  intro before after whole
  let opening := session.runCommands (Script.ofText first) machine
  let rest := session.runCommands (Script.ofText second) opening.machine
  have ran : whole =
      ⟨opening.value ++ rest.value.map (CommandRecord.raised (first.count '\n' + 1)),
        opening.events ++ rest.events ++ [.done], rest.machine⟩ :=
    congrArg (Effect.bind · fun report machine => ⟨report, [.done], machine⟩)
      (session.runCommands_ofText_append first second machine)
  have events : whole.events = opening.events ++ after.events := by
    rw [ran]
    exact List.append_assoc ..
  have both : before.events ++ after.events = opening.events ++ .done :: after.events :=
    List.append_assoc ..
  have left : whole.machine = after.machine := by
    rw [ran]
    rfl
  refine ⟨congrArg Effect.value ran, left, ?_, ?_, Event.logText opening.events, ?_, ?_⟩
  · rw [← Event.jobs_append, both, events, Event.jobs_append, Event.jobs_append]
    rfl
  · rw [both, List.erase_append_right _ done_not_mem_runCommands, List.erase_cons_head, events]
  · exact Event.logText_append opening.events [.done]
  · rw [events, Event.logText_append]

end Session

end AssetPipeline
