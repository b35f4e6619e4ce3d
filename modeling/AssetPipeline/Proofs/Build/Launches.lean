/-
This file says which tools a run launches. To produce an output at most two launches are needed: a
copy needs none, a wave is encoded, once more as it is when it was to be mixed down and turns out to
be mono, and an mp3 file is decoded before it is encoded. How a launch ended decides whether there
is another, and how the last one ended is all that counts for the output. So the jobs of a run are
those of the visits that decide to rebuild, one after the other, each launched on the machine that
the one before left.
-/

import AssetPipeline.Proofs.Build.Reporting
import AssetPipeline.Proofs.Build.WriteSet

namespace AssetPipeline

variable {State : Type}

/-! ### The launches that produce an output -/

/-- A launch, and how its process ended. -/
structure Launched where
  job : Job
  outcome : Except Fault ExitCode
  deriving DecidableEq

/-- What becomes of an output whose last launch this is. -/
def Launched.verdict (launched : Launched) : Except CommandFailure Unit :=
  match launched.outcome with
  | .error fault => .error (.notLaunched launched.job.executable fault)
  | .ok code => if code = some 0 then .ok () else .error (.toolFailed launched.job.tool code)

namespace Launched

variable {launched : Launched}

theorem verdict_of_error {fault : Fault} (ended : launched.outcome = .error fault) :
    launched.verdict = .error (.notLaunched launched.job.executable fault) := by
  unfold verdict
  rw [ended]

theorem verdict_of_ok {code : ExitCode} (ended : launched.outcome = .ok code) :
    launched.verdict =
      if code = some 0 then .ok () else .error (.toolFailed launched.job.tool code) := by
  unfold verdict
  rw [ended]

/-- Only a launch that ends with exit code 0 brings an output about. -/
theorem verdict_eq_ok_iff : launched.verdict = .ok () ↔ launched.outcome = .ok (some 0) := by
  cases ended : launched.outcome with
  | error fault => simp [verdict_of_error ended]
  | ok code => simp [verdict_of_ok ended]

end Launched

namespace Toolbox

/-- The job that producing an output begins with. -/
def firstJob? (toolbox : Toolbox) (source target : Path) : Verb → Option Job
  | .copy => none
  | .waveToOgg => some (toolbox.encodeJob source target false)
  | .waveToOggMono => some (toolbox.encodeJob source target true)
  | .mp3ToOgg => some (toolbox.decodeJob source (scratchOf target))

/-- The job after the first, which ended like this. -/
def nextJob? (toolbox : Toolbox) (source target : Path) (outcome : Except Fault ExitCode) :
    Verb → Option Job
  | .copy | .waveToOgg => none
  | .waveToOggMono =>
    if outcome = .ok (some 1) then some (toolbox.encodeJob source target false) else none
  | .mp3ToOgg =>
    if outcome = .ok (some 0) then some (toolbox.encodeJob (scratchOf target) target false)
    else none

/-- The launches that produce an output, from the machine that finds room for it. -/
def launches (toolbox : Toolbox) (runner : Runner State) (verb : Verb) (source target : Path)
    (machine : Machine State) : List Launched :=
  match toolbox.firstJob? source target verb with
  | none => []
  | some job =>
    let first := runner.launch job machine
    ⟨job, first.outcome⟩ ::
      match toolbox.nextJob? source target first.outcome verb with
      | none => []
      | some job => [⟨job, (runner.launch job first.machine).outcome⟩]

/-- A step launches these jobs, and what becomes of it is up to the last. -/
structure Traces (effect : Effect State (Except CommandFailure Unit)) (launches : List Launched) :
    Prop where
  jobs : Event.jobs effect.events = launches.map (·.job)
  verdict : ∀ last, launches.getLast? = some last → effect.value = last.verdict

variable {toolbox : Toolbox} {runner : Runner State} {source target : Path}
  {machine : Machine State}

theorem launches_of_last {verb : Verb} {job : Job}
    (first : toolbox.firstJob? source target verb = some job)
    (last : toolbox.nextJob? source target (runner.launch job machine).outcome verb = none) :
    toolbox.launches runner verb source target machine =
      [⟨job, (runner.launch job machine).outcome⟩] := by
  unfold launches
  simp only [first, last]

theorem launches_of_next {verb : Verb} {job other : Job}
    (first : toolbox.firstJob? source target verb = some job)
    (next : toolbox.nextJob? source target (runner.launch job machine).outcome verb =
      some other) :
    toolbox.launches runner verb source target machine =
      [⟨job, (runner.launch job machine).outcome⟩,
        ⟨other, (runner.launch other (runner.launch job machine).machine).outcome⟩] := by
  unfold launches
  simp only [first, next]

/-- There are no launches but the first two. -/
theorem launches_cases (toolbox : Toolbox) (runner : Runner State) {verb : Verb}
    (converts : verb ≠ .copy) (source target : Path) (machine : Machine State) :
    ∃ job, toolbox.firstJob? source target verb = some job ∧
      (toolbox.launches runner verb source target machine =
          [⟨job, (runner.launch job machine).outcome⟩] ∨
        ∃ other outcome, toolbox.nextJob? source target (runner.launch job machine).outcome verb =
            some other ∧
          toolbox.launches runner verb source target machine =
            [⟨job, (runner.launch job machine).outcome⟩, ⟨other, outcome⟩]) := by
  obtain ⟨job, first⟩ : ∃ job, toolbox.firstJob? source target verb = some job := by
    cases verb with
    | copy => exact absurd rfl converts
    | waveToOgg => exact ⟨_, rfl⟩
    | waveToOggMono => exact ⟨_, rfl⟩
    | mp3ToOgg => exact ⟨_, rfl⟩
  refine ⟨job, first, ?_⟩
  cases next : toolbox.nextJob? source target (runner.launch job machine).outcome verb with
  | none => exact Or.inl (launches_of_last first next)
  | some other => exact Or.inr ⟨other, _, rfl, launches_of_next first next⟩

theorem length_launches {verb : Verb} :
    (toolbox.launches runner verb source target machine).length ≤ 2 := by
  unfold launches
  split
  · exact Nat.zero_le 2
  · dsimp only
    split
    · exact Nat.le_succ 1
    · exact Nat.le_refl 2

theorem value_launch (job : Job) : (launch runner job machine).value =
    (runner.launch job machine).outcome.mapError (.notLaunched job.executable) := by
  unfold launch
  dsimp only
  cases (runner.launch job machine).outcome <;> rfl

/-- One launch, after which there is only its exit code to look at. -/
theorem traces_single {job : Job}
    {next : ExitCode → Machine State → Effect State (Except CommandFailure Unit)}
    (looks : ∀ code, (runner.launch job machine).outcome = .ok code →
      let after := next code (runner.launch job machine).machine
      Event.jobs after.events = [] ∧ after.value = (Launched.mk job (.ok code)).verdict) :
    Traces ((launch runner job machine).andThen next)
      [⟨job, (runner.launch job machine).outcome⟩] := by
  have value := @value_launch State runner machine job
  cases ended : (runner.launch job machine).outcome with
  | error fault =>
    rw [ended] at value
    rw [Effect.andThen_of_error value]
    refine ⟨jobs_launch job, fun last same => ?_⟩
    obtain rfl : Launched.mk job (.error fault) = last := Option.some.inj same
    rfl
  | ok code =>
    rw [ended] at value
    obtain ⟨quiet, decided⟩ := looks code ended
    rw [Effect.andThen_of_ok value]
    refine ⟨?_, fun last same => ?_⟩
    · rw [Effect.jobs_after, jobs_launch]
      exact congrArg ([job] ++ ·) quiet
    · obtain rfl : Launched.mk job (.ok code) = last := Option.some.inj same
      exact decided

/-- A step that goes on launches more. -/
theorem Traces.goOn {Value : Type} {effect : Effect State (Except CommandFailure Value)}
    {next : Value → Machine State → Effect State (Except CommandFailure Unit)} {value : Value}
    {first : Launched} {second : List Launched} (jobs : Event.jobs effect.events = [first.job])
    (succeeded : effect.value = .ok value) (more : second ≠ [])
    (traces : Traces (next value effect.machine) second) :
    Traces (effect.andThen next) (first :: second) := by
  rw [Effect.andThen_of_ok succeeded]
  refine ⟨?_, fun last same => traces.verdict last ?_⟩
  · rw [Effect.jobs_after, jobs, traces.jobs]
    rfl
  · rwa [List.getLast?_cons_of_ne_nil more] at same

theorem traces_encode : Traces (toolbox.encode runner source target machine)
    [⟨toolbox.encodeJob source target false,
      (runner.launch (toolbox.encodeJob source target false) machine).outcome⟩] := by
  unfold encode
  refine traces_single fun code _ => ?_
  unfold EncoderExit.ofCode Launched.verdict
  by_cases zero : code = some 0 <;> simp [zero, Effect.pure, failure, Event.jobs]

/-- An encoder that is to mix down is launched again when it ends with exit code 1. -/
theorem traces_encodeMono : Traces (toolbox.encodeMono runner source target machine)
    (toolbox.launches runner .waveToOggMono source target machine) := by
  let job := toolbox.encodeJob source target true
  have first : toolbox.firstJob? source target .waveToOggMono = some job := rfl
  unfold encodeMono
  by_cases mono : (runner.launch job machine).outcome = .ok (some 1)
  · have next : toolbox.nextJob? source target (runner.launch job machine).outcome
        .waveToOggMono = some (toolbox.encodeJob source target false) := if_pos mono
    rw [launches_of_next first next]
    have value := @value_launch State runner machine job
    rw [mono] at value
    -- What is said about it between the two launches is no launch.
    exact Traces.goOn (jobs_launch job) value (List.cons_ne_nil _ _)
      ⟨traces_encode.jobs, traces_encode.verdict⟩
  · have last : toolbox.nextJob? source target (runner.launch job machine).outcome
        .waveToOggMono = none := if_neg mono
    rw [launches_of_last first last]
    refine traces_single fun code ended => ?_
    have other : code ≠ some 1 := fun one => mono (one ▸ ended)
    unfold EncoderExit.ofCode EncoderExit.alreadyMonoCode Launched.verdict
    by_cases zero : code = some 0 <;> simp [zero, other, Effect.pure, failure, Event.jobs]

theorem traces_decodeMp3 : Traces (toolbox.decodeMp3 runner source target machine)
    [⟨toolbox.decodeJob source target,
      (runner.launch (toolbox.decodeJob source target) machine).outcome⟩] := by
  unfold decodeMp3
  refine traces_single fun code _ => ?_
  unfold Launched.verdict
  by_cases zero : code = some 0 <;> simp [zero, Effect.pure, failure, Event.jobs]

theorem machine_decodeMp3 : (toolbox.decodeMp3 runner source target machine).machine =
    (runner.launch (toolbox.decodeJob source target) machine).machine := by
  unfold decodeMp3
  dsimp only
  cases ended : (launch runner (toolbox.decodeJob source target) machine).value with
  | error error =>
    rw [Effect.andThen_of_error ended]
    rfl
  | ok code =>
    rw [Effect.andThen_of_ok ended]
    split <;> rfl

/-- A decoded mp3 file is encoded when the decoder ends with exit code 0. -/
theorem traces_convertMp3 : Traces (toolbox.convertMp3 runner source target machine)
    (toolbox.launches runner .mp3ToOgg source target machine) := by
  let job := toolbox.decodeJob source (scratchOf target)
  let decoding := toolbox.decodeMp3 runner source (scratchOf target) machine
  have first : toolbox.firstJob? source target .mp3ToOgg = some job := rfl
  have decodes : Traces decoding [⟨job, (runner.launch job machine).outcome⟩] := traces_decodeMp3
  have decoded : decoding.value = (Launched.mk job (runner.launch job machine).outcome).verdict :=
    decodes.verdict _ rfl
  -- That the wave is removed in the end is no launch, and decides nothing.
  suffices both : Traces (decoding.andThen fun _ machine =>
      toolbox.encode runner (scratchOf target) target machine)
      (toolbox.launches runner .mp3ToOgg source target machine) from
    ⟨jobs_convertMp3_eq.trans both.jobs, both.verdict⟩
  by_cases zero : (runner.launch job machine).outcome = .ok (some 0)
  · have next : toolbox.nextJob? source target (runner.launch job machine).outcome .mp3ToOgg =
        some (toolbox.encodeJob (scratchOf target) target false) := if_pos zero
    have left : decoding.machine = (runner.launch job machine).machine := machine_decodeMp3
    rw [launches_of_next first next]
    rw [zero] at decoded
    refine Traces.goOn decodes.jobs decoded (List.cons_ne_nil _ _) ?_
    rw [left]
    exact traces_encode
  · have last : toolbox.nextJob? source target (runner.launch job machine).outcome .mp3ToOgg =
        none := if_neg zero
    rw [launches_of_last first last]
    cases ended : decoding.value with
    | ok done => exact absurd (Launched.verdict_eq_ok_iff.mp (decoded.symm.trans ended)) zero
    | error error =>
      rw [Effect.andThen_of_error ended]
      exact ⟨decodes.jobs, fun last same => ended.symm.trans (decodes.verdict last same)⟩

end Toolbox

/-! ### Mixing down -/

/-- A path that ends in a segment ends as the segment does. -/
theorem Path.getLast?_withLastSegment {path : Path} {segment : Text} (given : segment ≠ []) :
    (path.withLastSegment segment).text.getLast? = segment.getLast? := by
  unfold Path.withLastSegment Path.ofSegments
  dsimp only
  by_cases front : path.namedSegments.dropLast = []
  · rw [front, List.nil_append, Text.joinWith, List.getLast?_append_of_ne_nil _ given]
  · rw [Text.joinWith_append front (List.cons_ne_nil _ _), Text.joinWith, ← List.append_assoc,
      List.getLast?_append_of_ne_nil _ (List.cons_ne_nil _ _), List.getLast?_cons_of_ne_nil given]

namespace Toolbox

variable {toolbox : Toolbox} {source target : Path}

/-- A number is written in digits. -/
theorem toString_ne_downmix (number : Nat) : (toString number).toList ≠ "--downmix".toList := by
  intro same
  rw [Nat.toString_eq_repr, Nat.toList_repr] at same
  have dash : '-' ∈ "--downmix".toList := by decide +kernel
  rw [← same] at dash
  have digit : '-'.isDigit = true :=
    Nat.isDigit_of_mem_toDigits (by decide) (Nat.le_refl 10) dash
  revert digit
  decide

theorem scratchOf_ne_downmix : (scratchOf target).text ≠ "--downmix".toList := by
  unfold scratchOf Path.withExtension
  split
  · next unnamed =>
    intro same
    obtain ⟨text⟩ := target
    obtain rfl : text = _ := same
    revert unnamed
    decide +kernel
  next name named =>
  dsimp only
  have ends : ∀ {segment : Text}, segment ≠ [] → segment.getLast? ≠ some 'x' →
      (target.withLastSegment segment).text ≠ "--downmix".toList := by
    intro segment given other same
    rw [← Path.getLast?_withLastSegment given, same] at other
    exact other (by decide +kernel)
  split
  · exact ends (by decide) (by decide)
  · refine ends (by simp [Path.extensionText, waveExtension]) ?_
    simp [Path.extensionText, waveExtension]

theorem downmix_of_mem_encodeJob {downmix : Bool} (plain : source.text ≠ "--downmix".toList)
    (member : "--downmix".toList ∈ (toolbox.encodeJob source target downmix).arguments) :
    downmix = true := by
  cases downmix with
  | true => rfl
  | false =>
    simp only [encodeJob, Bool.false_eq_true, if_false, List.nil_append, List.mem_cons,
      List.not_mem_nil, or_false] at member
    rcases member with option | quality | output | input
    · exact absurd option (by decide +kernel)
    · exact absurd quality.symm (toString_ne_downmix _)
    · have second := congrArg (·[2]?) output
      revert second
      simp
    · exact absurd input.symm plain

theorem downmix_not_mem_decodeJob (plain : source.text ≠ "--downmix".toList) :
    "--downmix".toList ∉ (toolbox.decodeJob source target).arguments := by
  intro member
  simp only [decodeJob, List.mem_cons, List.not_mem_nil, or_false] at member
  rcases member with option | input
  · have second := congrArg (·[2]?) option
    revert second
    simp
  · exact absurd input.symm plain

/-- Only one verb asks for mixing down. -/
theorem verb_of_downmix {runner : Runner State} {machine : Machine State} {verb : Verb}
    (plain : source.text ≠ "--downmix".toList) {launched : Launched}
    (member : launched ∈ toolbox.launches runner verb source target machine)
    (mixes : "--downmix".toList ∈ launched.job.arguments) : verb = .waveToOggMono := by
  by_cases copies : verb = .copy
  · subst copies
    cases member
  obtain ⟨job, first, whole⟩ := toolbox.launches_cases runner copies source target machine
  have one : launched.job = job ∨
      ∃ outcome, toolbox.nextJob? source target outcome verb = some launched.job := by
    rcases whole with single | ⟨other, outcome, next, both⟩
    · rw [single] at member
      exact Or.inl (List.mem_singleton.mp member ▸ rfl)
    · rw [both, List.mem_cons, List.mem_singleton] at member
      rcases member with rfl | rfl
      · exact Or.inl rfl
      · exact Or.inr ⟨_, next⟩
  cases verb with
  | copy => exact absurd rfl copies
  | waveToOggMono => rfl
  | waveToOgg =>
    rcases one with same | ⟨outcome, next⟩
    · rw [same, ← Option.some.inj first] at mixes
      cases downmix_of_mem_encodeJob plain mixes
    · cases next
  | mp3ToOgg =>
    rcases one with same | ⟨outcome, next⟩
    · rw [same, ← Option.some.inj first] at mixes
      exact absurd mixes (downmix_not_mem_decodeJob plain)
    · unfold nextJob? at next
      dsimp only at next
      split at next
      · rw [← Option.some.inj next] at mixes
        cases downmix_of_mem_encodeJob scratchOf_ne_downmix mixes
      · cases next

end Toolbox

namespace Session

variable {session : Session State} {verb : Verb} {machine : Machine State} {visit : Visit State}

/-- Producing an output by tools launches what it takes, and the last launch decides. -/
theorem traces_produce (converts : verb ≠ .copy) {source target : Path} :
    Toolbox.Traces (session.produce verb source target machine)
      (session.toolbox.launches session.runner verb source target machine) := by
  cases verb with
  | copy => exact absurd rfl converts
  | waveToOgg =>
    have first : session.toolbox.firstJob? source target .waveToOgg =
      some (session.toolbox.encodeJob source target false) := rfl
    rw [Toolbox.launches_of_last first rfl]
    exact Toolbox.traces_encode
  | waveToOggMono => exact Toolbox.traces_encodeMono
  | mp3ToOgg => exact Toolbox.traces_convertMp3

theorem jobs_produce_eq {source target : Path} :
    Event.jobs (session.produce verb source target machine).events =
      (session.toolbox.launches session.runner verb source target machine).map (·.job) := by
  by_cases copies : verb = .copy
  · subst copies
    unfold produce copy
    dsimp only
    split <;> rfl
  · exact (traces_produce copies).jobs

/-- The launches that bring the output of a visit about, from where there is room for it. -/
def launchesOf (session : Session State) (visit : Visit State) : List Launched :=
  session.toolbox.launches session.runner visit.verb (session.sourceOf visit.relative)
    (session.targetOf visit.verb visit.relative)
    (session.withRoom visit.verb visit.relative visit.machine)

/-- A visit that decides to rebuild launches them, and any other nothing. -/
theorem jobs_effectOf (session : Session State) (visit : Visit State) :
    Event.jobs (session.effectOf visit).events =
      if session.Decides visit .rebuild then (session.launchesOf visit).map (·.job) else [] := by
  by_cases due : session.Decides visit .rebuild
  · obtain ⟨room, decided⟩ := decides_iff.mp due
    rw [if_pos due]
    exact (jobs_visit_of_due room decided).trans jobs_produce_eq
  · rw [if_neg due]
    refine jobs_visit_of_idle fun done room => ?_
    cases decided : session.decisionOf visit.verb visit.relative visit.machine with
    | upToDate => rfl
    | rebuild => exact absurd (decides_iff.mpr ⟨room, decided⟩) due

theorem jobs_flatMap_effectOf (session : Session State) (visits : List (Visit State)) :
    (visits.flatMap fun visit => Event.jobs (session.effectOf visit).events) =
      (visits.filter fun visit => session.Decides visit .rebuild).flatMap fun visit =>
        (session.launchesOf visit).map (·.job) := by
  induction visits with
  | nil => rfl
  | cons visit rest inductionHypothesis =>
    rw [List.flatMap_cons, inductionHypothesis, jobs_effectOf, List.filter_cons]
    by_cases due : session.Decides visit .rebuild <;> simp [due]

/-! ### What becomes of a visit -/

/-- A visit whose output cannot be produced fails, and with the same error. -/
theorem effectOf_of_producing_error {error : CommandFailure}
    (due : session.Decides visit .rebuild)
    (failed : (session.producing visit.verb visit.relative visit.machine).value = .error error) :
    (session.effectOf visit).value = .error error := by
  obtain ⟨room, decided⟩ := decides_iff.mp due
  have course := session.visit_course visit.verb visit.relative visit.machine
  unfold effectOf
  generalize (session.visit visit.verb visit.relative visit.machine).value = value at course ⊢
  generalize (session.visit visit.verb visit.relative visit.machine).machine = left at course
  cases course with
  | noRoom none => cases none.symm.trans room
  | current _ upToDate => cases upToDate.symm.trans decided
  | notProduced _ _ produced =>
    exact congrArg Except.error (Except.error.inj (produced.symm.trans failed))
  | notStamped _ _ produced => cases produced.symm.trans failed
  | rebuilt _ _ produced => cases produced.symm.trans failed

/-- The visit that fails is the last of its command, and its error is that of the command. -/
theorem error?_of_mem_visitsOf {files : List Path} {error : CommandFailure}
    (member : visit ∈ session.visitsOf verb files machine)
    (failed : (session.effectOf visit).value = .error error) :
    (session.visitAll verb files machine).value.2 = some error := by
  induction files generalizing machine with
  | nil => cases member
  | cons relative rest inductionHypothesis =>
    unfold visitsOf at member
    cases visited : (session.visit verb relative machine).value with
    | error other =>
      rw [visited] at member
      obtain rfl := List.mem_singleton.mp member
      obtain rfl : other = error := Except.error.inj (visited.symm.trans failed)
      rw [visitAll_cons_of_error visited]
    | ok completion =>
      rw [visited] at member
      rw [visitAll_cons_of_ok visited]
      rcases List.mem_cons.mp member with rfl | later
      · cases visited.symm.trans failed
      · exact inductionHypothesis later

theorem error?_of_mem_commandVisits {command : Command} {error : CommandFailure}
    (member : visit ∈ session.commandVisits command machine)
    (failed : (session.effectOf visit).value = .error error) :
    (session.record command machine).value.error? = some error := by
  show (session.carryOut command machine).value.2 = some error
  rcases session.carryOut_cases command machine with ⟨other, -, none⟩ |
    ⟨checked, files, -, -, same, visits⟩
  · rw [none] at member
    cases member
  · rw [visits] at member
    rw [same]
    exact error?_of_mem_visitsOf member failed

/-! ### Mixing down in a run -/

/-- The source of a file that a command found is not written like an option, for it stands below a
root. -/
theorem sourceOf_ne_downmix {relative : Path} (given : session.layout.sourceRoot.text ≠ []) :
    (session.sourceOf relative).text ≠ "--downmix".toList := by
  have separated : Path.separator ∈ (session.sourceOf relative).text := by
    unfold sourceOf Path.join
    by_cases absolute : relative.isAbsolute = true
    · rw [absolute, Bool.true_or, if_pos rfl]
      exact List.mem_of_head? (by simpa [Path.isAbsolute] using absolute)
    · rw [if_neg (by simpa [given] using absolute)]
      split
      · next ended => exact List.mem_append_left _ (List.mem_of_getLast? ended)
      · exact List.mem_append_right _ List.mem_cons_self
  intro same
  rw [same] at separated
  revert separated
  decide +kernel

theorem sourceRoot_given {command : Command}
    (member : visit ∈ session.commandVisits command machine) :
    session.layout.sourceRoot.text ≠ [] := by
  obtain ⟨checked, files, -, listed, -, -⟩ := mem_commandVisits member
  obtain ⟨node, -, -, found, -⟩ := Selection.members_eq_ok.mp listed
  intro missing
  have nowhere : machine.tree.locate session.layout.sourceRoot = .error .notFound := by
    unfold FileTree.locate FileTree.place FileTree.placeOfSteps
    rw [missing]
    rfl
  unfold FileTree.lookup at found
  rw [nowhere] at found
  cases found

/-! ### What a run launches -/

/-- What the last launch for an output means for the report of the command. -/
structure EndsWith (session : Session State) (visit : Visit State) (report : CommandRecord)
    (last : Launched) : Prop where
  isLast : (session.launchesOf visit).getLast? = some last
  succeeds : (session.producing visit.verb visit.relative visit.machine).value = .ok () ↔
    last.outcome = .ok (some 0)
  notLaunched : ∀ fault, last.outcome = .error fault →
    report.error? = some (.notLaunched last.job.executable fault)
  toolFailed : ∀ code, last.outcome = .ok code → code ≠ some 0 →
    report.error? = some (.toolFailed last.job.tool code)

theorem exists_endsWith {command : Command}
    (member : visit ∈ session.commandVisits command machine)
    (due : session.Decides visit .rebuild) (converts : visit.verb ≠ .copy) :
    ∃ last, session.EndsWith visit (session.record command machine).value last := by
  have traces : Toolbox.Traces (session.producing visit.verb visit.relative visit.machine)
    (session.launchesOf visit) := traces_produce converts
  obtain ⟨last, isLast⟩ : ∃ last, (session.launchesOf visit).getLast? = some last := by
    unfold launchesOf
    obtain ⟨job, -, single | ⟨other, outcome, -, both⟩⟩ := session.toolbox.launches_cases
      session.runner converts (session.sourceOf visit.relative)
      (session.targetOf visit.verb visit.relative)
      (session.withRoom visit.verb visit.relative visit.machine)
    · rw [single]
      exact ⟨_, rfl⟩
    · rw [both]
      exact ⟨_, rfl⟩
  have decides := traces.verdict last isLast
  have reports : ∀ error, last.verdict = .error error →
      (session.record command machine).value.error? = some error := fun error failed =>
    error?_of_mem_commandVisits member
      (effectOf_of_producing_error due (decides.trans failed))
  refine ⟨last, isLast, ?_, fun fault ended => ?_, fun code ended nonzero => ?_⟩
  · rw [decides]
    exact Launched.verdict_eq_ok_iff
  · exact reports _ (Launched.verdict_of_error ended)
  · exact reports _ ((Launched.verdict_of_ok ended).trans (if_neg nonzero))

/-- The jobs of a run are those of the visits that decide to rebuild, in order. A visit launches at
most two, none when its output is current, and mixes down for no verb but one. The last launch for
an output decides whether it is produced; if it is not, that launch is what the command reports. -/
theorem run_launches (session : Session State) (script : Script) (machine : Machine State) :
    let visits := session.visits script machine
    Event.jobs (session.run script machine).events =
        ((visits.filter fun visit => session.Decides visit .rebuild).flatMap fun visit =>
          (session.launchesOf visit).map (·.job)) ∧
      (∀ visit ∈ visits,
        let jobs := Event.jobs (session.effectOf visit).events
        jobs.length ≤ 2 ∧
          (∀ job ∈ jobs, "--downmix".toList ∈ job.arguments → visit.verb = .waveToOggMono) ∧
          (session.Decides visit .upToDate → jobs = [])) ∧
      ∀ before command after, script = before ++ command :: after →
        let found := (session.runCommands before machine).machine
        let effect := session.record command found
        visits = session.visits before machine ++ (session.commandVisits command found ++
            session.visits after effect.machine) ∧
          (session.run script machine).value[before.length]? = some effect.value ∧
          ∀ visit ∈ session.commandVisits command found, session.Decides visit .rebuild →
            visit.verb ≠ .copy → ∃ last, session.EndsWith visit effect.value last := by
  intro visits
  refine ⟨(jobs_run script machine).trans (jobs_flatMap_effectOf session _), ?_, ?_⟩
  · intro visit member jobs
    obtain ⟨command, -, found, taken⟩ := mem_visits member
    have given := sourceRoot_given taken
    have launched : jobs = _ := session.jobs_effectOf visit
    refine ⟨?_, fun job launches mixes => ?_, fun current => ?_⟩
    · rw [launched]
      split
      · rw [List.length_map]
        exact Toolbox.length_launches
      · exact Nat.zero_le _
    · rw [launched] at launches
      split at launches
      · obtain ⟨one, inLaunches, rfl⟩ := List.mem_map.mp launches
        exact Toolbox.verb_of_downmix (sourceOf_ne_downmix given) inLaunches mixes
      · cases launches
    · rw [launched, if_neg]
      intro due
      cases (decides_iff.mp current).2.symm.trans (decides_iff.mp due).2
  · rintro before command after rfl found effect
    refine ⟨session.visits_append _ _ machine, ?_, fun visit => exists_endsWith⟩
    have length : (session.runCommands before machine).value.length = before.length := by
      have lines := congrArg List.length (session.lines_runCommands before machine)
      rwa [List.length_map, List.length_map] at lines
    have report : (session.run (before ++ command :: after) machine).value =
        (session.runCommands before machine).value ++ effect.value ::
          (session.runCommands after effect.machine).value :=
      congrArg Effect.value (session.runCommands_append before (command :: after) machine)
    rw [report, ← length, List.getElem?_append_right (Nat.le_refl _), Nat.sub_self]
    rfl

/-- The tools write their output and end with exit code 1, whatever they are asked. -/
def alwaysMono : Session Unit := .start .twoRoots (.writing [112] 1) oneWave.tree

/-- Encodes the wave mixed down. -/
def encodeMixed : Command := { encodeOnce with verb := "wave-to-ogg-mono".toList }

/-- The wave is taken up. -/
def mixedVisit : Visit Unit := ⟨.waveToOggMono, ⟨"a.wav".toList⟩, oneWave⟩

/-- The second launch ends with the exit code that has led to it. It is the last, and has failed. -/
theorem run_launches_alwaysMono :
    let job := alwaysMono.toolbox.encodeJob (alwaysMono.sourceOf mixedVisit.relative)
      (alwaysMono.targetOf mixedVisit.verb mixedVisit.relative)
    mixedVisit ∈ alwaysMono.visits [encodeMixed] oneWave ∧
      mixedVisit ∈ alwaysMono.commandVisits encodeMixed oneWave ∧
      alwaysMono.Decides mixedVisit .rebuild ∧
      Event.jobs (alwaysMono.run [encodeMixed] oneWave).events = [job true, job false] ∧
      (alwaysMono.record encodeMixed oneWave).value.error? =
        some (.toolFailed "oggenc2".toList (some 1)) ∧
      ∃ last,
        alwaysMono.EndsWith mixedVisit (alwaysMono.record encodeMixed oneWave).value last := by
  have taken : mixedVisit ∈ alwaysMono.commandVisits encodeMixed oneWave := by decide +kernel
  have due : alwaysMono.Decides mixedVisit .rebuild := by decide +kernel
  obtain ⟨-, -, each⟩ := run_launches alwaysMono [encodeMixed] oneWave
  exact ⟨by decide +kernel, taken, due, by decide +kernel, by decide +kernel,
    (each [] encodeMixed [] rfl).2.2 mixedVisit taken due (by decide)⟩

end Session

end AssetPipeline
