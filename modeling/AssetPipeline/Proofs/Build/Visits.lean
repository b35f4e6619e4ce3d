/-
This file takes a run apart into its visits. A visit is a file that a command takes up, together
with the machine it finds. The visits of a run follow each other, each from the machine the one
before left, and the last leaves the machine of the run: between two visits a run changes nothing.
So whatever every visit preserves a run preserves, and what a run reports are the outcomes of its
visits, in order.
-/

import AssetPipeline.Proofs.Build.Course

namespace AssetPipeline

deriving instance DecidableEq for Machine

/-- A file that a run takes up, and the machine it finds. -/
structure Visit (State : Type) where
  verb : Verb
  relative : Path
  machine : Machine State
  deriving DecidableEq

/-- A completed file and the verb it was completed with. -/
structure Outcome where
  verb : Verb
  completion : Completion
  deriving DecidableEq

/-- The completed files of a run, in order. -/
def RunRecord.outcomes (report : RunRecord) : List Outcome :=
  report.flatMap fun command =>
    match Verb.ofKeyword? command.verb with
    | none => []
    | some verb => command.files.map (Outcome.mk verb)

namespace Session

variable {State : Type} (session : Session State)

/-- What a visit does. -/
def effectOf (visit : Visit State) : Effect State (Except CommandFailure Completion) :=
  session.visit visit.verb visit.relative visit.machine

/-- What a visit completed, if it did. -/
def outcome? (visit : Visit State) : Option Outcome :=
  match (session.effectOf visit).value with
  | .error _ => none
  | .ok completion => some ⟨visit.verb, completion⟩

theorem succeeds_of_outcome? {session : Session State} {visit : Visit State} {outcome : Outcome}
    (reported : session.outcome? visit = some outcome) :
    ∃ completion, (session.effectOf visit).value = .ok completion := by
  unfold outcome? at reported
  split at reported
  · cases reported
  · next completion completed => exact ⟨completion, completed⟩

/-- The visits to files taken one after the other, up to the first that fails. -/
def visitsOf (verb : Verb) : List Path → Machine State → List (Visit State)
  | [], _ => []
  | relative :: rest, machine =>
    ⟨verb, relative, machine⟩ ::
      match (session.visit verb relative machine).value with
      | .error _ => []
      | .ok _ => visitsOf verb rest (session.visit verb relative machine).machine

/-- The visits of a command. -/
def commandVisits (command : Command) (machine : Machine State) : List (Visit State) :=
  match command.check with
  | .error _ => []
  | .ok ⟨verb, wildcard, _⟩ =>
    match Selection.members machine.tree session.layout.sourceRoot wildcard with
    | .error _ => []
    | .ok files => session.visitsOf verb files machine

/-- The visits of a run. -/
def visits : Script → Machine State → List (Visit State)
  | [], _ => []
  | command :: rest, machine =>
    session.commandVisits command machine ++ visits rest (session.record command machine).machine

/-- Visits that follow each other, each from the machine the one before left. -/
def Follows : Machine State → List (Visit State) → Machine State → Prop
  | machine, [], last => last = machine
  | machine, visit :: rest, last =>
    visit.machine = machine ∧ Follows (session.effectOf visit).machine rest last

variable {session} {machine last : Machine State}

theorem follows_append {first second : List (Visit State)} :
    session.Follows machine (first ++ second) last ↔
      ∃ middle, session.Follows machine first middle ∧ session.Follows middle second last := by
  induction first generalizing machine with
  | nil => simp [Follows]
  | cons visit rest inductionHypothesis =>
    rw [List.cons_append, Follows, inductionHypothesis]
    simp only [Follows, and_assoc, exists_and_left]

/-! ### Files of a command -/

theorem follows_visitsOf (verb : Verb) (files : List Path) (machine : Machine State) :
    session.Follows machine (session.visitsOf verb files machine)
      (session.visitAll verb files machine).machine := by
  induction files generalizing machine with
  | nil => rfl
  | cons relative rest inductionHypothesis =>
    unfold visitsOf visitAll Effect.bind
    refine ⟨rfl, ?_⟩
    cases visited : (session.visit verb relative machine).value with
    | error error => rfl
    | ok outcome => exact inductionHypothesis _

theorem outcomes_visitsOf (verb : Verb) (files : List Path) (machine : Machine State) :
    (session.visitsOf verb files machine).filterMap session.outcome? =
      (session.visitAll verb files machine).value.1.map (Outcome.mk verb) := by
  induction files generalizing machine with
  | nil => rfl
  | cons relative rest inductionHypothesis =>
    unfold visitsOf visitAll Effect.bind
    cases visited : (session.visit verb relative machine).value with
    | error error => simp [outcome?, effectOf, visited, Effect.pure, Effect.after]
    | ok outcome =>
      simp [outcome?, effectOf, visited, Effect.after, Effect.map, inductionHypothesis]

theorem succeeded_of_mem_visitsOf {verb : Verb} {files : List Path} {machine : Machine State}
    (complete : (session.visitAll verb files machine).value.2 = none) :
    ∀ visit ∈ session.visitsOf verb files machine,
      ∃ completion, (session.effectOf visit).value = .ok completion := by
  induction files generalizing machine with
  | nil => exact fun visit member => nomatch member
  | cons relative rest inductionHypothesis =>
    unfold visitAll Effect.bind at complete
    unfold visitsOf
    cases visited : (session.visit verb relative machine).value with
    | error error => simp [visited, Effect.pure, Effect.after] at complete
    | ok outcome =>
      rw [visited] at complete
      intro visit member
      rcases List.mem_cons.mp member with rfl | later
      · exact ⟨outcome, visited⟩
      · exact inductionHypothesis complete visit later

/-- When no visit fails, every file is visited. -/
theorem relatives_visitsOf {verb : Verb} {files : List Path} {machine : Machine State}
    (succeeds : ∀ visit ∈ session.visitsOf verb files machine,
      ∃ completion, (session.effectOf visit).value = .ok completion) :
    (session.visitsOf verb files machine).map (·.relative) = files := by
  induction files generalizing machine with
  | nil => rfl
  | cons relative rest inductionHypothesis =>
    unfold visitsOf at succeeds ⊢
    obtain ⟨completion, completed⟩ := succeeds _ List.mem_cons_self
    have completed : (session.visit verb relative machine).value = .ok completion := completed
    rw [completed] at succeeds ⊢
    exact congrArg (relative :: ·)
      (inductionHypothesis fun visit member => succeeds visit (List.mem_cons_of_mem _ member))

theorem verb_of_mem_visitsOf {verb : Verb} {files : List Path} {machine : Machine State}
    {visit : Visit State} (member : visit ∈ session.visitsOf verb files machine) :
    visit.verb = verb ∧ visit.relative ∈ files := by
  induction files generalizing machine with
  | nil => cases member
  | cons relative rest inductionHypothesis =>
    unfold visitsOf at member
    rcases List.mem_cons.mp member with rfl | later
    · exact ⟨rfl, List.mem_cons_self⟩
    · split at later
      · cases later
      · obtain ⟨same, inside⟩ := inductionHypothesis later
        exact ⟨same, List.mem_cons_of_mem _ inside⟩

/-! ### Commands and runs -/

theorem ofKeyword?_of_check {command : Command} {checked : CheckedCommand}
    (accepted : command.check = .ok checked) :
    Verb.ofKeyword? command.verb = some checked.verb := by
  unfold Command.check at accepted
  split at accepted
  · cases accepted
  next verb known =>
  split at accepted
  · obtain rfl := Except.ok.inj accepted
    exact known
  · cases accepted

theorem carryOut_of_refused {command : Command} {error : CommandFailure}
    (refused : command.check = .error error) :
    session.carryOut command machine = .pure ([], some error) machine := by
  unfold carryOut
  rw [refused]

theorem carryOut_of_unlisted {command : Command} {checked : CheckedCommand}
    {error : CommandFailure} (accepted : command.check = .ok checked)
    (unlisted : Selection.members machine.tree session.layout.sourceRoot checked.wildcard =
      .error error) : session.carryOut command machine = .pure ([], some error) machine := by
  unfold carryOut
  rw [accepted]
  dsimp only
  rw [unlisted]

theorem carryOut_of_listed {command : Command} {checked : CheckedCommand} {files : List Path}
    (accepted : command.check = .ok checked)
    (listed : Selection.members machine.tree session.layout.sourceRoot checked.wildcard =
      .ok files) :
    session.carryOut command machine = (session.visitAll checked.verb files machine).after
      [.summary checked.verb checked.wildcard files.length checked.label] := by
  unfold carryOut
  rw [accepted]
  dsimp only
  rw [listed]

/-- A command either takes up no file and changes nothing, or it visits its files. -/
theorem carryOut_cases (session : Session State) (command : Command) (machine : Machine State) :
    (∃ error, session.carryOut command machine = .pure ([], some error) machine ∧
      session.commandVisits command machine = []) ∨
    ∃ checked files, command.check = .ok checked ∧
      Selection.members machine.tree session.layout.sourceRoot checked.wildcard = .ok files ∧
      session.carryOut command machine = (session.visitAll checked.verb files machine).after
        [.summary checked.verb checked.wildcard files.length checked.label] ∧
      session.commandVisits command machine = session.visitsOf checked.verb files machine := by
  unfold carryOut commandVisits
  cases accepted : command.check with
  | error error => exact Or.inl ⟨error, rfl, rfl⟩
  | ok checked =>
    dsimp only
    cases found : Selection.members machine.tree session.layout.sourceRoot checked.wildcard with
    | error error => exact Or.inl ⟨error, rfl, rfl⟩
    | ok files => exact Or.inr ⟨checked, files, rfl, found, rfl, rfl⟩

theorem mem_commandVisits {command : Command} {visit : Visit State}
    (member : visit ∈ session.commandVisits command machine) :
    ∃ checked files, command.check = .ok checked ∧
      Selection.members machine.tree session.layout.sourceRoot checked.wildcard = .ok files ∧
      visit.verb = checked.verb ∧ visit.relative ∈ files := by
  rcases session.carryOut_cases command machine with ⟨error, -, none⟩ |
    ⟨checked, files, accepted, found, -, same⟩
  · rw [none] at member
    cases member
  · rw [same] at member
    exact ⟨checked, files, accepted, found, verb_of_mem_visitsOf member⟩

theorem follows_commandVisits (command : Command) (machine : Machine State) :
    session.Follows machine (session.commandVisits command machine)
      (session.record command machine).machine := by
  show session.Follows machine _ (session.carryOut command machine).machine
  rcases session.carryOut_cases command machine with ⟨error, same, none⟩ |
    ⟨checked, files, -, -, same, visits⟩
  · rw [same, none]
    rfl
  · rw [same, visits]
    exact follows_visitsOf _ _ _

theorem outcomes_record (command : Command) (machine : Machine State) :
    RunRecord.outcomes [(session.record command machine).value] =
      (session.commandVisits command machine).filterMap session.outcome? := by
  have keyword : (session.record command machine).value.verb = command.verb := rfl
  have files : (session.record command machine).value.files =
      (session.carryOut command machine).value.1 := rfl
  unfold RunRecord.outcomes
  rw [List.flatMap_singleton, keyword, files]
  rcases session.carryOut_cases command machine with ⟨error, same, none⟩ |
    ⟨checked, files, accepted, -, same, visits⟩
  · rw [same, none]
    split <;> rfl
  · rw [same, visits, ofKeyword?_of_check accepted, outcomes_visitsOf]
    rfl

theorem succeeded_of_mem_commandVisits {command : Command} {machine : Machine State}
    (complete : (session.record command machine).value.succeeded = true) :
    ∀ visit ∈ session.commandVisits command machine,
      ∃ completion, (session.effectOf visit).value = .ok completion := by
  have complete : (session.carryOut command machine).value.2 = none :=
    Option.isNone_iff_eq_none.mp complete
  rcases session.carryOut_cases command machine with ⟨error, -, none⟩ |
    ⟨checked, files, -, -, same, visits⟩
  · rw [none]
    exact fun visit member => nomatch member
  · rw [same] at complete
    rw [visits]
    exact succeeded_of_mem_visitsOf complete

theorem runCommands_cons (command : Command) (rest : Script) (machine : Machine State) :
    (session.runCommands (command :: rest) machine).value =
        (session.record command machine).value ::
          (session.runCommands rest (session.record command machine).machine).value ∧
      (session.runCommands (command :: rest) machine).machine =
        (session.runCommands rest (session.record command machine).machine).machine :=
  ⟨rfl, rfl⟩

theorem follows_visits (script : Script) (machine : Machine State) :
    session.Follows machine (session.visits script machine)
      (session.run script machine).machine := by
  have left : (session.run script machine).machine = (session.runCommands script machine).machine :=
    rfl
  rw [left]
  induction script generalizing machine with
  | nil => rfl
  | cons command rest inductionHypothesis =>
    rw [(runCommands_cons command rest machine).2]
    exact follows_append.mpr ⟨_, follows_commandVisits command machine, inductionHypothesis _ rfl⟩

/-- The visits of commands in the front of a script come first. -/
theorem visits_append (session : Session State) (before after : Script)
    (machine : Machine State) :
    session.visits (before ++ after) machine =
      session.visits before machine ++
        session.visits after (session.runCommands before machine).machine := by
  induction before generalizing machine with
  | nil => rfl
  | cons command rest inductionHypothesis =>
    rw [List.cons_append, visits, visits, inductionHypothesis, List.append_assoc]
    rfl

/-- The visits of a run hold those of each command, from the machine that those before leave. -/
theorem visits_of_mem {script : Script} {command : Command} (member : command ∈ script)
    (machine : Machine State) : ∃ earlier between later,
      session.visits script machine = earlier ++ session.commandVisits command between ++ later ∧
        session.Follows machine earlier between := by
  obtain ⟨before, after, rfl⟩ := List.append_of_mem member
  let between := (session.runCommands before machine).machine
  refine ⟨session.visits before machine, between,
    session.visits after (session.record command between).machine, ?_,
    follows_visits before machine⟩
  rw [visits_append, visits, List.append_assoc]

/-- Every visit of a run is one of a command, from the machine that this command found. -/
theorem mem_visits {script : Script} {visit : Visit State}
    (member : visit ∈ session.visits script machine) :
    ∃ command ∈ script, ∃ found, visit ∈ session.commandVisits command found := by
  induction script generalizing machine with
  | nil => cases member
  | cons command rest inductionHypothesis =>
    rcases List.mem_append.mp member with here | later
    · exact ⟨command, List.mem_cons_self, machine, here⟩
    · obtain ⟨other, inRest, found, taken⟩ := inductionHypothesis later
      exact ⟨other, List.mem_cons_of_mem _ inRest, found, taken⟩

/-- The report holds the outcomes of the visits, in order. -/
theorem outcomes_run (script : Script) (machine : Machine State) :
    (session.run script machine).value.outcomes =
      (session.visits script machine).filterMap session.outcome? := by
  have report : (session.run script machine).value = (session.runCommands script machine).value :=
    rfl
  rw [report]
  induction script generalizing machine with
  | nil => rfl
  | cons command rest inductionHypothesis =>
    have split : ∀ (first : CommandRecord) (others : RunRecord),
        RunRecord.outcomes (first :: others) = RunRecord.outcomes [first] ++ others.outcomes := by
      intro first others
      unfold RunRecord.outcomes
      rw [List.flatMap_cons, List.flatMap_singleton]
    rw [(runCommands_cons command rest machine).1, split, outcomes_record,
      inductionHypothesis _ rfl, visits, List.filterMap_append]

theorem files_record (command : Command) (machine : Machine State) :
    (session.record command machine).value.files =
      ((session.commandVisits command machine).filterMap session.outcome?).map (·.completion) := by
  show (session.carryOut command machine).value.1 = _
  rcases session.carryOut_cases command machine with ⟨error, same, none⟩ |
    ⟨checked, files, -, -, same, visits⟩
  · rw [same, none]
    rfl
  · rw [same, visits, outcomes_visitsOf, List.map_map]
    exact (List.map_id _).symm

/-- Whatever the verbs, the files of the report are those that the visits completed. -/
theorem files_run (script : Script) (machine : Machine State) :
    (session.run script machine).value.flatMap (·.files) =
      ((session.visits script machine).filterMap session.outcome?).map (·.completion) := by
  have report : (session.run script machine).value = (session.runCommands script machine).value :=
    rfl
  rw [report]
  induction script generalizing machine with
  | nil => rfl
  | cons command rest inductionHypothesis =>
    rw [(runCommands_cons command rest machine).1, List.flatMap_cons, files_record,
      inductionHypothesis _ rfl, visits, List.filterMap_append, List.map_append]

/-! ### Launches -/

theorem jobs_visitsOf (verb : Verb) (files : List Path) (machine : Machine State) :
    Event.jobs (session.visitAll verb files machine).events =
      (session.visitsOf verb files machine).flatMap fun visit =>
        Event.jobs (session.effectOf visit).events := by
  induction files generalizing machine with
  | nil => rfl
  | cons relative rest inductionHypothesis =>
    unfold visitsOf visitAll Effect.bind Effect.after
    rw [Event.jobs_append, List.flatMap_cons]
    cases visited : (session.visit verb relative machine).value with
    | error error => rfl
    | ok outcome => exact congrArg (_ ++ ·) (inductionHypothesis _)

theorem jobs_record (command : Command) (machine : Machine State) :
    Event.jobs (session.record command machine).events =
      (session.commandVisits command machine).flatMap fun visit =>
        Event.jobs (session.effectOf visit).events := by
  have closing : ∀ error? : Option CommandFailure,
      Event.jobs ((error?.map (Event.commandFailed command.verb)).toList ++ [.commandEnd]) =
        [] := by
    intro error?
    cases error? <;> rfl
  unfold record Effect.bind Effect.after
  rw [Event.jobs_append, closing, List.append_nil]
  rcases session.carryOut_cases command machine with ⟨error, same, none⟩ |
    ⟨checked, files, -, -, same, visits⟩
  · rw [same, none]
    rfl
  · rw [same, visits, ← jobs_visitsOf]
    rfl

/-- A run launches what its visits launch. -/
theorem jobs_run (script : Script) (machine : Machine State) :
    Event.jobs (session.run script machine).events =
      (session.visits script machine).flatMap fun visit =>
        Event.jobs (session.effectOf visit).events := by
  have closing : Event.jobs (session.run script machine).events =
      Event.jobs (session.runCommands script machine).events := by
    unfold run Effect.bind Effect.after
    rw [Event.jobs_append]
    exact List.append_nil _
  rw [closing]
  clear closing
  induction script generalizing machine with
  | nil => rfl
  | cons command rest inductionHypothesis =>
    unfold runCommands Effect.bind Effect.after visits
    rw [Event.jobs_append, List.flatMap_append, jobs_record]
    exact congrArg (_ ++ ·) (inductionHypothesis _)

/-! ### Runs without failures -/

theorem failed_cons {first : CommandRecord} {rest : RunRecord} :
    RunRecord.failed (first :: rest) = 0 ↔ first.succeeded = true ∧ rest.failed = 0 := by
  unfold RunRecord.failed
  rw [List.countP_cons]
  cases first.succeeded <;> simp

/-- In a run without failures every visit succeeds. -/
theorem succeeded_of_mem_visits {script : Script} {machine : Machine State}
    (complete : (session.run script machine).value.failed = 0) :
    ∀ visit ∈ session.visits script machine,
      ∃ completion, (session.effectOf visit).value = .ok completion := by
  replace complete : (session.runCommands script machine).value.failed = 0 := complete
  induction script generalizing machine with
  | nil => exact fun visit member => nomatch member
  | cons command rest inductionHypothesis =>
    rw [(runCommands_cons command rest machine).1, failed_cons] at complete
    intro visit member
    rcases List.mem_append.mp member with here | later
    · exact succeeded_of_mem_commandVisits complete.1 visit here
    · exact inductionHypothesis complete.2 visit later

/-! ### Invariants -/

theorem invariant_of_follows {Holds : Machine State → Prop} {visits : List (Visit State)}
    (follows : session.Follows machine visits last) (start : Holds machine)
    (step : ∀ visit ∈ visits, Holds visit.machine → Holds (session.effectOf visit).machine) :
    Holds last ∧ ∀ visit ∈ visits, Holds visit.machine := by
  induction visits generalizing machine with
  | nil => exact ⟨follows ▸ start, fun visit member => nomatch member⟩
  | cons visit rest inductionHypothesis =>
    obtain ⟨rfl, later⟩ := follows
    have next := step visit List.mem_cons_self start
    obtain ⟨ends, each⟩ := inductionHypothesis later next
      fun visit member => step visit (List.mem_cons_of_mem _ member)
    refine ⟨ends, fun other member => ?_⟩
    rcases List.mem_cons.mp member with rfl | inRest
    · exact start
    · exact each other inRest

/-- What every visit preserves holds throughout a run. What is known about the files of a command
may rest on it holding when the command starts. -/
theorem invariant_of_visits {Holds : Machine State → Prop} {Known : Verb → Path → Prop}
    {script : Script} (start : Holds machine)
    (known : ∀ command ∈ script, ∀ machine, Holds machine →
      ∀ visit ∈ session.commandVisits command machine, Known visit.verb visit.relative)
    (step : ∀ visit ∈ session.visits script machine, Known visit.verb visit.relative →
      Holds visit.machine → Holds (session.effectOf visit).machine) :
    Holds (session.run script machine).machine ∧
      ∀ visit ∈ session.visits script machine,
        Known visit.verb visit.relative ∧ Holds visit.machine := by
  have left : (session.run script machine).machine = (session.runCommands script machine).machine :=
    rfl
  rw [left]
  induction script generalizing machine with
  | nil => exact ⟨start, fun visit member => nomatch member⟩
  | cons command rest inductionHypothesis =>
    have knownHere := known command List.mem_cons_self machine start
    obtain ⟨next, here⟩ := invariant_of_follows (follows_commandVisits command machine) start
      fun visit member => step visit (List.mem_append_left _ member) (knownHere visit member)
    obtain ⟨ends, each⟩ := inductionHypothesis next
      (fun other member => known other (List.mem_cons_of_mem _ member))
      (fun visit member => step visit (List.mem_append_right _ member)) rfl
    refine ⟨ends, fun visit member => ?_⟩
    rcases List.mem_append.mp member with first | later
    · exact ⟨knownHere visit first, here visit first⟩
    · exact each visit later

end Session

end AssetPipeline
