/-
This file says what the steps of a run report. Making room for an output reports nothing. A visit
that has room first tells what it decides about the output, and after that only the tools are heard
of. Commands begin with their summary and end with what failed and an empty line, so that no command
says that the run is done: this is said once, at the end.
-/

import AssetPipeline.Proofs.Build.Visits

namespace AssetPipeline

variable {State : Type}

/-- Does the event tell of the tools at work on a file? -/
def Event.isOfTools : Event → Bool
  | .launch _ | .toolOutput _ | .toolComplaint _ | .alreadyMono _ | .scratchKept .. => true
  | _ => false

/-! ### The tools -/

namespace Effect

variable {Value Result Error : Type} {Expected : Event → Prop}

/-- Two steps report what each of them does. -/
theorem andThen_reports {effect : Effect State (Except Error Value)}
    {next : Value → Machine State → Effect State (Except Error Result)}
    (first : ∀ event ∈ effect.events, Expected event)
    (second : ∀ value machine, ∀ event ∈ (next value machine).events, Expected event) :
    ∀ event ∈ (effect.andThen next).events, Expected event := by
  cases ended : effect.value with
  | error error =>
    rw [andThen_of_error ended]
    exact first
  | ok value =>
    rw [andThen_of_ok ended]
    intro event member
    rcases List.mem_append.mp member with early | late
    · exact first event early
    · exact second value _ event late

theorem bind_reports {effect : Effect State Value}
    {next : Value → Machine State → Effect State Result}
    (first : ∀ event ∈ effect.events, Expected event)
    (second : ∀ event ∈ (next effect.value effect.machine).events, Expected event) :
    ∀ event ∈ (effect.bind next).events, Expected event := by
  intro event member
  rcases List.mem_append.mp member with early | late
  · exact first event early
  · exact second event late

end Effect

namespace Toolbox

variable {toolbox : Toolbox} {runner : Runner State} {source target : Path}
  {machine : Machine State}

theorem launch_reports (job : Job) :
    ∀ event ∈ (launch runner job machine).events, event.isOfTools = true := by
  unfold launch
  dsimp only
  split <;> split <;> simp [Event.isOfTools]

theorem encode_reports :
    ∀ event ∈ (toolbox.encode runner source target machine).events, event.isOfTools = true := by
  unfold encode
  refine Effect.andThen_reports (launch_reports _) fun code machine => ?_
  split <;> exact fun event member => nomatch member

theorem encodeWave_reports {downmix : Bool} :
    ∀ event ∈ (toolbox.encodeWave runner source target downmix machine).events,
      event.isOfTools = true := by
  unfold encodeWave
  split
  · unfold encodeMono
    refine Effect.andThen_reports (launch_reports _) fun code machine => ?_
    split
    · exact fun event member => nomatch member
    · exact List.forall_mem_cons.mpr ⟨rfl, encode_reports⟩
    · exact fun event member => nomatch member
  · exact encode_reports

theorem decodeMp3_reports :
    ∀ event ∈ (toolbox.decodeMp3 runner source target machine).events, event.isOfTools = true := by
  unfold decodeMp3
  refine Effect.andThen_reports (launch_reports _) fun code machine => ?_
  split <;> exact fun event member => nomatch member

theorem removeScratch_reports :
    ∀ event ∈ (removeScratch target machine).events, event.isOfTools = true := by
  unfold removeScratch
  split
  · exact fun event member => nomatch member
  · exact fun event member => nomatch member
  · exact List.forall_mem_singleton.mpr rfl

theorem convertMp3_reports :
    ∀ event ∈ (toolbox.convertMp3 runner source target machine).events, event.isOfTools = true :=
  Effect.bind_reports (Effect.andThen_reports decodeMp3_reports fun _ _ => encode_reports)
    removeScratch_reports

end Toolbox

/-! ### Visits -/

namespace Session

variable {session : Session State} {verb : Verb} {relative : Path} {machine : Machine State}

theorem produce_reports {source target : Path} :
    ∀ event ∈ (session.produce verb source target machine).events, event.isOfTools = true := by
  cases verb with
  | copy =>
    unfold produce copy
    dsimp only
    split <;> exact fun event member => nomatch member
  | waveToOgg => exact Toolbox.encodeWave_reports
  | waveToOggMono => exact Toolbox.encodeWave_reports
  | mp3ToOgg => exact Toolbox.convertMp3_reports

theorem build_reports {source target : Path} :
    ∀ event ∈ (session.build verb source target machine).events, event.isOfTools = true := by
  unfold build
  refine Effect.andThen_reports produce_reports fun _ machine => ?_
  unfold stamp
  split <;> exact fun event member => nomatch member

/-- A visit without room for the output reports nothing. Any other tells what it decides and then
of the tools. -/
theorem events_visit (session : Session State) (verb : Verb) (relative : Path)
    (machine : Machine State) :
    (∃ error, (machine.tree.makeParent (session.targetOf verb relative)).2 = .error error ∧
        (session.visit verb relative machine).events = []) ∨
      (machine.tree.makeParent (session.targetOf verb relative)).2 = .ok () ∧
        ∃ work, (session.visit verb relative machine).events =
            .file relative (outputOf verb relative) (session.decisionOf verb relative machine) ::
              work ∧
          ∀ event ∈ work, event.isOfTools = true := by
  unfold visit
  cases room : (makeRoom (session.targetOf verb relative) machine).value with
  | error error =>
    rw [Effect.andThen_of_error room]
    exact Or.inl ⟨error, room, rfl⟩
  | ok made =>
    rw [Effect.andThen_of_ok room]
    refine Or.inr ⟨room, _, rfl, ?_⟩
    split
    · exact fun event member => nomatch member
    · exact Effect.andThen_reports build_reports fun _ _ event member => nomatch member

/-! ### The end of a run -/

theorem done_not_mem_visit : Event.done ∉ (session.visit verb relative machine).events := by
  rcases session.events_visit verb relative machine with ⟨-, -, silent⟩ | ⟨-, work, whole, tools⟩
  · rw [silent]
    exact List.not_mem_nil
  · rw [whole, List.mem_cons, not_or]
    exact ⟨nofun, fun late => nomatch tools _ late⟩

theorem done_not_mem_visitAll {files : List Path} :
    Event.done ∉ (session.visitAll verb files machine).events := by
  induction files generalizing machine with
  | nil => exact List.not_mem_nil
  | cons relative rest inductionHypothesis =>
    unfold visitAll Effect.bind Effect.after
    rw [List.mem_append, not_or]
    refine ⟨done_not_mem_visit, ?_⟩
    dsimp only
    split
    · exact List.not_mem_nil
    · exact inductionHypothesis

theorem done_not_mem_record {command : Command} :
    Event.done ∉ (session.record command machine).events := by
  unfold record Effect.bind Effect.after
  rw [List.mem_append, not_or]
  constructor
  · rcases session.carryOut_cases command machine with ⟨error, same, -⟩ |
      ⟨checked, files, -, -, same, -⟩
    · rw [same]
      exact List.not_mem_nil
    · rw [same]
      exact List.not_mem_cons_of_ne_of_not_mem nofun done_not_mem_visitAll
  · cases (session.carryOut command machine).value.2 <;> simp

/-- Commands do not say that the run is done. -/
theorem done_not_mem_runCommands {script : Script} :
    Event.done ∉ (session.runCommands script machine).events := by
  induction script generalizing machine with
  | nil => exact List.not_mem_nil
  | cons command rest inductionHypothesis =>
    unfold runCommands Effect.bind Effect.after
    rw [List.mem_append, not_or]
    exact ⟨done_not_mem_record, inductionHypothesis⟩

end Session

end AssetPipeline
