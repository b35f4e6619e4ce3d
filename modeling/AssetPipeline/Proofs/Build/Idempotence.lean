/-
This file says that a build that has succeeded need not be repeated. After a run without failures in
which no output is the wave of another, every output that was completed is intact, and the files of
every command are the same as before, since nothing has changed below the source root. So each visit
of a second run finds its directory there and its output current: it launches nothing, changes
nothing, and reports the file once more, as up to date.
-/

import AssetPipeline.Proofs.Build.Retention

namespace AssetPipeline

/-! ### Effects that only answer -/

namespace Effect

variable {State Value Result : Type}

/-- The effect answers with `value`; it launches nothing and changes nothing. -/
structure Quiet (effect : Effect State Value) (value : Value) (machine : Machine State) : Prop where
  answers : effect.value = value
  launches : Event.jobs effect.events = []
  leaves : effect.machine = machine

variable {effect : Effect State Value} {value : Value} {machine : Machine State}

theorem quiet_pure (value : Value) (machine : Machine State) :
    (Effect.pure value machine).Quiet value machine :=
  ⟨rfl, rfl, rfl⟩

theorem Quiet.after (quiet : effect.Quiet value machine) {events : List Event}
    (silent : Event.jobs events = []) : (effect.after events).Quiet value machine where
  answers := quiet.answers
  launches := by
    show Event.jobs (events ++ effect.events) = []
    rw [Event.jobs_append, silent, quiet.launches, List.nil_append]
  leaves := quiet.leaves

theorem Quiet.map (quiet : effect.Quiet value machine) (change : Value → Result) :
    (effect.map change).Quiet (change value) machine :=
  ⟨congrArg change quiet.answers, quiet.launches, quiet.leaves⟩

theorem Quiet.bind (quiet : effect.Quiet value machine)
    {next : Value → Machine State → Effect State Result} {result : Result}
    (goesOn : (next value machine).Quiet result machine) :
    (effect.bind next).Quiet result machine := by
  unfold Effect.bind
  rw [quiet.answers, quiet.leaves]
  exact goesOn.after quiet.launches

end Effect

/-! ### Reports of what is up to date -/

/-- The same file, reported as up to date. -/
def Completion.settled (completion : Completion) : Completion :=
  { completion with decision := .upToDate }

def CommandRecord.settled (report : CommandRecord) : CommandRecord :=
  { report with files := report.files.map Completion.settled }

/-- The same report, with every file up to date. -/
def RunRecord.settled (report : RunRecord) : RunRecord := List.map CommandRecord.settled report

theorem RunRecord.failed_settled (report : RunRecord) : report.settled.failed = report.failed :=
  List.countP_map

theorem RunRecord.rebuilt_settled (report : RunRecord) : report.settled.rebuilt = 0 := by
  refine List.countP_eq_zero.mpr fun completion member => ?_
  obtain ⟨record, inReport, inFiles⟩ := List.mem_flatMap.mp member
  obtain ⟨before, -, rfl⟩ := List.mem_map.mp inReport
  obtain ⟨original, -, rfl⟩ := List.mem_map.mp inFiles
  exact Bool.false_ne_true

namespace Session

variable {State Other : Type} {session : Session State} {again : Session Other} {verb : Verb}
  {relative : Path} {files : List Path} {script : Script} {command : Command}
  {checked : CheckedCommand} {machine : Machine State} {later : Machine Other}
  {origin output : Location} {start tree : FileTree}

/-- How a file is reported that is up to date. -/
def current (verb : Verb) (relative : Path) : Completion :=
  ⟨relative, outputOf verb relative, .upToDate⟩

/-! ### What the first run visited -/

theorem settled_of_visit {completion : Completion}
    (succeeded : (session.visit verb relative machine).value = .ok completion) :
    completion.settled = current verb relative := by
  have course := session.visit_course verb relative machine
  generalize (session.visit verb relative machine).value = value at succeeded course
  generalize (session.visit verb relative machine).machine = left at course
  subst succeeded
  cases course <;> rfl

/-- A command that ends without an error has visited all its files and reports them all. -/
theorem visitAll_complete (complete : (session.visitAll verb files machine).value.2 = none) :
    (session.visitsOf verb files machine).map Visit.relative = files ∧
      (session.visitAll verb files machine).value.1.map Completion.settled =
        files.map (current verb) := by
  refine ⟨relatives_visitsOf (succeeded_of_mem_visitsOf complete), ?_⟩
  induction files generalizing machine with
  | nil => rfl
  | cons relative rest inductionHypothesis =>
    unfold visitAll Effect.bind at complete ⊢
    cases visited : (session.visit verb relative machine).value with
    | error error => simp [visited, Effect.pure, Effect.after] at complete
    | ok completion =>
      rw [visited] at complete
      show completion.settled :: _ = _
      rw [settled_of_visit visited, List.map_cons]
      exact congrArg (_ :: ·) (inductionHypothesis complete)

/-! ### What the second run does -/

/-- A visit to an output that is current. -/
theorem quiet_visit (plain : FileTree.Plain machine.tree)
    (decided : machine.tree.decision (session.sourceOf relative) (session.targetOf verb relative) =
      .upToDate) :
    (session.visit verb relative machine).Quiet (.ok (current verb relative)) machine := by
  obtain ⟨-, file, -, there, -⟩ := FileTree.decision_eq_upToDate_iff.mp decided
  have reaches := ((FileTree.fileAt?_eq_some_iff plain).mp there).1
  have room : makeRoom (session.targetOf verb relative) machine = .pure (.ok ()) machine := by
    unfold makeRoom
    rw [FileTree.makeParent_of_reaches plain reaches]
  unfold visit
  dsimp only
  rw [room, Effect.andThen_of_ok rfl]
  dsimp only [Effect.pure]
  rw [decided]
  exact ((Effect.quiet_pure _ machine).after rfl).after rfl

theorem quiet_visitAll (plain : FileTree.Plain machine.tree)
    (decided : ∀ relative ∈ files, machine.tree.decision (session.sourceOf relative)
      (session.targetOf verb relative) = .upToDate) :
    (session.visitAll verb files machine).Quiet (files.map (current verb), none) machine := by
  induction files with
  | nil => exact Effect.quiet_pure _ machine
  | cons relative rest inductionHypothesis =>
    refine (quiet_visit plain (decided relative List.mem_cons_self)).bind ?_
    have later := inductionHypothesis fun other member =>
      decided other (List.mem_cons_of_mem _ member)
    exact later.map _

theorem quiet_record (plain : FileTree.Plain machine.tree) (accepted : command.check = .ok checked)
    (found : Selection.members machine.tree session.layout.sourceRoot checked.wildcard = .ok files)
    (decided : ∀ relative ∈ files, machine.tree.decision (session.sourceOf relative)
      (session.targetOf checked.verb relative) = .upToDate) :
    (session.record command machine).Quiet
      ⟨command.line, command.verb, files.map (current checked.verb), none⟩ machine := by
  have carries : (session.carryOut command machine).Quiet
      (files.map (current checked.verb), none) machine := by
    unfold carryOut
    rw [accepted]
    dsimp only
    rw [found]
    exact (quiet_visitAll plain decided).after rfl
  exact carries.bind ⟨rfl, rfl, rfl⟩

/-- A command that ended without an error is carried out again where its outputs are current. -/
theorem quiet_record_again (layout : again.layout = session.layout)
    (upheld : session.Upheld origin output start machine.tree)
    (kept : session.Upheld origin output start later.tree)
    (descends : ∀ checked, command.check = .ok checked →
      Path.dotDot ∉ (Selection.ofWildcard checked.wildcard).directoryNames)
    (complete : (session.record command machine).value.succeeded = true)
    (decided : ∀ visit ∈ session.commandVisits command machine,
      later.tree.decision (session.sourceOf visit.relative)
        (session.targetOf visit.verb visit.relative) = .upToDate) :
    (again.record command later).Quiet (session.record command machine).value.settled later := by
  have ended : (session.carryOut command machine).value.2 = none :=
    Option.isNone_iff_eq_none.mp complete
  rcases session.carryOut_cases command machine with ⟨error, same, -⟩ |
    ⟨checked, files, accepted, found, same, visits⟩
  · rw [same] at ended
    cases ended
  rw [same] at ended
  obtain ⟨relatives, reported⟩ := visitAll_complete ended
  have report : (session.record command machine).value.settled =
      ⟨command.line, command.verb, files.map (current checked.verb), none⟩ := by
    show CommandRecord.settled ⟨command.line, command.verb,
      (session.carryOut command machine).value.1, (session.carryOut command machine).value.2⟩ = _
    rw [same]
    show CommandRecord.mk _ _ (List.map Completion.settled
      (session.visitAll checked.verb files machine).value.1) _ = _
    rw [reported]
    exact congrArg _ ended
  have foundAgain := upheld.members_eq kept (descends checked accepted) found
  rw [report]
  refine quiet_record kept.ready.plain accepted (layout ▸ foundAgain) fun relative member => ?_
  rw [← relatives] at member
  obtain ⟨visit, taken, rfl⟩ := List.mem_map.mp member
  have verb := (verb_of_mem_visitsOf taken).1
  have settled := decided visit (visits ▸ taken)
  rw [verb] at settled
  unfold sourceOf targetOf at settled ⊢
  rw [layout]
  exact settled

theorem upheld_record (confined : session.runner.Confined) (delivers : session.runner.Delivers)
    (apart : Apart origin output) (upheld : session.Upheld origin output start machine.tree)
    (descends : Script.Descends [command])
    (complete : (session.record command machine).value.succeeded = true) :
    session.Upheld origin output start (session.record command machine).machine.tree := by
  have alone : (session.run [command] machine).value.failed = 0 := failed_cons.mpr ⟨complete, rfl⟩
  exact (accomplished_of_mem_visits confined delivers apart upheld descends alone).1

/-- Commands that ended without an error are carried out again where their outputs are current. -/
theorem quiet_runCommands_again (confined : session.runner.Confined)
    (delivers : session.runner.Delivers) (apart : Apart origin output)
    (layout : again.layout = session.layout)
    (upheld : session.Upheld origin output start machine.tree)
    (kept : session.Upheld origin output start later.tree) (descends : script.Descends)
    (complete : (session.runCommands script machine).value.failed = 0)
    (decided : ∀ visit ∈ session.visits script machine,
      later.tree.decision (session.sourceOf visit.relative)
        (session.targetOf visit.verb visit.relative) = .upToDate) :
    (again.runCommands script later).Quiet (session.runCommands script machine).value.settled
      later := by
  induction script generalizing machine with
  | nil => exact Effect.quiet_pure _ later
  | cons command rest inductionHypothesis =>
    rw [(runCommands_cons command rest machine).1, failed_cons] at complete
    rw [(runCommands_cons command rest machine).1]
    have descendsHere := descends command List.mem_cons_self
    have first := quiet_record_again layout upheld kept descendsHere complete.1
      fun visit taken => decided visit (List.mem_append_left _ taken)
    have next := upheld_record confined delivers apart upheld
      (fun other member => List.mem_singleton.mp member ▸ descendsHere) complete.1
    have others := inductionHypothesis next
      (fun other member => descends other (List.mem_cons_of_mem _ member)) complete.2
      fun visit taken => decided visit (List.mem_append_right _ taken)
    exact first.bind (others.map _)

/-! ### What the first run leaves -/

/-- When no output is the wave of another, every output is current at the end of the run. -/
theorem current_of_mem_visits
    (each : ∀ visit ∈ session.visits script machine, ∃ front name,
      session.Accomplished origin output start visit front name)
    (clear : ∀ first ∈ (session.run script machine).value.outcomes,
      ∀ second ∈ (session.run script machine).value.outcomes, ¬ first.Scratches second)
    (kept : session.Upheld origin output start tree)
    (same : ∀ place, tree.file? place = (session.run script machine).machine.tree.file? place)
    {visit : Visit State} (taken : visit ∈ session.visits script machine) :
    tree.decision (session.sourceOf visit.relative) (session.targetOf visit.verb visit.relative) =
      .upToDate := by
  obtain ⟨earlier, others, whole⟩ := List.append_of_mem taken
  obtain ⟨front, name, source, accomplished, found, ⟨⟨file, there, fresh⟩, -⟩ | ⟨-, lost⟩⟩ :=
    stands_or_lost_of_run each whole
  · rw [← same] at there
    exact FileTree.decision_eq_upToDate_iff.mpr
      ((intact_iff accomplished kept found).mpr ⟨file, there, fresh⟩)
  · obtain ⟨front, spoiler, back, split, scratches, -⟩ := lost
    have inOthers : spoiler ∈ others.map session.outcomeOf :=
      split ▸ List.mem_append_right _ List.mem_cons_self
    rw [outcomes_eq_map each, whole, List.map_append, List.map_cons] at clear
    refine absurd scratches (clear spoiler ?_ _ ?_)
    · exact List.mem_append_right _ (List.mem_cons_of_mem _ inOthers)
    · exact List.mem_append_right _ List.mem_cons_self

/-! ### Two files with one output -/

/-- A script that makes the same output from the mp3 file and from the wave. -/
def convertAndEncode : Text := [
  'm', 'p', '3', '-', 't', 'o', '-', 'o', 'g', 'g', ' ', '*', '.', 'm', 'p', '3', ' ', 'x', '\n',
  'w', 'a', 'v', 'e', '-', 't', 'o', '-', 'o', 'g', 'g', ' ', '*', '.', 'w', 'a', 'v', ' ', 'y']

/-- What the first run leaves, some time after. -/
def nextDay : Machine Unit where
  tree := { (delivering.runText convertAndEncode waveAndMp3).machine.tree with clock := ⟨90000, 0⟩ }
  runner := ()

/-- The same session with tools that only fail. -/
def failing : Session Unit := .start .twoRoots (.writing [] 1) nextDay.tree

/-! ### The second run -/

/-- After a run without failures, in which no output was the wave of another, a run of the same text
over what it left reports the same files, all up to date, launches nothing, whatever its tools, and
leaves everything as it was. -/
theorem runText_again_settles {text : Text} (confined : session.runner.Confined)
    (delivers : session.runner.Delivers) (laid : session.Laid machine.tree)
    (descends : (Script.ofText text).Descends)
    (complete : (session.runText text machine).value.failed = 0)
    (clear : ∀ first ∈ (session.runText text machine).value.outcomes,
      ∀ second ∈ (session.runText text machine).value.outcomes, ¬ first.Scratches second)
    (layout : again.layout = session.layout) {clock : Instant}
    (world : later.tree = { (session.runText text machine).machine.tree with clock := clock }) :
    (again.runText text later).value = (session.runText text machine).value.settled ∧
      (again.runText text later).value.failed = 0 ∧
      (again.runText text later).value.rebuilt = 0 ∧
      Event.jobs (again.runText text later).events = [] ∧
      (again.runText text later).machine = later := by
  obtain ⟨upheld, each⟩ :=
    accomplished_of_mem_visits confined delivers laid.apart laid.ready.upheld descends complete
  have kept : session.Upheld _ _ _ later.tree := world ▸ upheld.of_clock clock
  have same : ∀ place, later.tree.file? place =
      (session.runText text machine).machine.tree.file? place := fun place => world ▸ rfl
  have commands := quiet_runCommands_again confined delivers laid.apart layout laid.ready.upheld
    kept descends complete fun visit taken => current_of_mem_visits each clear kept same taken
  have quiet :
      (again.runText text later).Quiet (session.runText text machine).value.settled later := by
    unfold runText run
    exact commands.bind ⟨rfl, rfl, rfl⟩
  obtain ⟨answers, launches, leaves⟩ := quiet
  refine ⟨answers, ?_, ?_, launches, leaves⟩
  · rw [answers, RunRecord.failed_settled]
    exact complete
  · rw [answers, RunRecord.rebuilt_settled]

theorem runText_again_settles_nextDay :
    (failing.runText convertAndEncode nextDay).value =
        (delivering.runText convertAndEncode waveAndMp3).value.settled ∧
      (failing.runText convertAndEncode nextDay).machine = nextDay := by
  obtain ⟨answers, -, -, -, leaves⟩ :=
    @runText_again_settles Unit Unit delivering failing waveAndMp3 nextDay convertAndEncode
      Runner.confined_writing Runner.delivers_writing (by decide +kernel) (by decide +kernel)
      (by decide +kernel) (by decide +kernel) rfl _ rfl
  exact ⟨answers, leaves⟩

end Session

end AssetPipeline
