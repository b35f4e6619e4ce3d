/-
This file follows a run in which nothing fails, in a plain tree whose roots are directories apart
from each other, with wildcards that do not go up. Its invariant is that both roots stay reachable
directories, that nothing changes below the source root, and that the same directories may be
listed. Under it every file a command takes up is an entry that has stood below the source root from
the start, so every visit leaves what a completed visit should, and the run reports the decisions
its visits took.
-/

import AssetPipeline.Proofs.Build.Completion
import AssetPipeline.Proofs.Build.Visits
import AssetPipeline.Proofs.Selection.Members

namespace AssetPipeline

open FileTree (Plain)

/-- No directory part of a wildcard goes up. -/
def Script.Descends (script : Script) : Prop :=
  ∀ command ∈ script, ∀ checked, command.check = .ok checked →
    Path.dotDot ∉ (Selection.ofWildcard checked.wildcard).directoryNames

theorem Script.forall_checked_iff {script : Script} {Holds : CheckedCommand → Prop}
    [DecidablePred Holds] : (script.all fun command => match command.check with
      | .error _ => true
      | .ok checked => decide (Holds checked)) = true ↔
        ∀ command ∈ script, ∀ checked, command.check = .ok checked → Holds checked := by
  simp only [List.all_eq_true]
  refine forall₂_congr fun command _ => ?_
  split
  · next error refused => simp [refused]
  · next checked accepted => simp [accepted]

instance (script : Script) : Decidable script.Descends :=
  decidable_of_iff _ Script.forall_checked_iff

namespace Session

variable {State : Type} {session : Session State} {script : Script} {machine : Machine State}
  {visit : Visit State} {origin output : Location} {start tree later : FileTree}
  {front : List Text} {name : Name}

/-- The roots are directories of a plain tree, and neither is inside the other. -/
structure Laid (session : Session State) (tree : FileTree) : Prop where
  plain : Plain tree
  sources : tree.isDirectory session.layout.sourceRoot = true
  outputs : tree.isDirectory session.layout.outputRoot = true
  apart : Apart (session.layout.sourceRoot.location tree.workingDirectory)
    (session.layout.outputRoot.location tree.workingDirectory)

theorem laid_iff : session.Laid tree ↔ Plain tree ∧
    tree.isDirectory session.layout.sourceRoot = true ∧
    tree.isDirectory session.layout.outputRoot = true ∧
    Apart (session.layout.sourceRoot.location tree.workingDirectory)
      (session.layout.outputRoot.location tree.workingDirectory) :=
  ⟨fun laid => ⟨laid.plain, laid.sources, laid.outputs, laid.apart⟩,
    fun ⟨plain, sources, outputs, apart⟩ => ⟨plain, sources, outputs, apart⟩⟩

instance (session : Session State) (tree : FileTree) : Decidable (session.Laid tree) :=
  decidable_of_iff' _ laid_iff

theorem Laid.ready (laid : session.Laid tree) :
    session.Ready (session.layout.sourceRoot.location tree.workingDirectory)
      (session.layout.outputRoot.location tree.workingDirectory) tree := by
  obtain ⟨sourceReaches, sourceDirectory⟩ := (FileTree.isDirectory_iff laid.plain).mp laid.sources
  obtain ⟨outputReaches, outputDirectory⟩ := (FileTree.isDirectory_iff laid.plain).mp laid.outputs
  exact ⟨laid.plain, sourceReaches, rfl, sourceDirectory, outputReaches, rfl, outputDirectory⟩

/-- What the tree of a run has kept of the tree it started from. -/
structure Upheld (session : Session State) (origin output : Location) (start tree : FileTree) :
    Prop where
  ready : session.Ready origin output tree
  working : tree.workingDirectory = start.workingDirectory
  below : ∀ names, tree.node? (origin ++ names) = start.node? (origin ++ names)
  closed : ∀ place, tree.isClosedAt place = start.isClosedAt place

/-- What a visit reports when it completes. -/
def outcomeOf (session : Session State) (visit : Visit State) : Outcome :=
  ⟨visit.verb, visit.relative, outputOf visit.verb visit.relative,
    session.decisionOf visit.verb visit.relative visit.machine⟩

/-- A visit that completed, to a file that has stood below the source root from the start. -/
structure Accomplished (session : Session State) (origin output : Location) (start : FileTree)
    (visit : Visit State) (front : List Text) (name : Name) : Prop where
  listed : Listed visit.relative front name
  there : (start.file? (origin ++ visit.relative.moves)).isSome = true
  upheld : session.Upheld origin output start visit.machine.tree
  reported : session.outcome? visit = some (session.outcomeOf visit)
  completed : session.Completed origin output visit.verb visit.relative name
    (session.decisionOf visit.verb visit.relative visit.machine) visit.machine.tree
    (session.effectOf visit).machine.tree

theorem Ready.upheld (ready : session.Ready origin output tree) :
    session.Upheld origin output tree tree :=
  ⟨ready, rfl, fun _ => rfl, fun _ => rfl⟩

theorem Upheld.file?_eq (upheld : session.Upheld origin output start tree) (names : List Name) :
    tree.file? (origin ++ names) = start.file? (origin ++ names) :=
  FileTree.file?_congr (upheld.below names)

/-- Time goes by. -/
theorem Upheld.of_clock (upheld : session.Upheld origin output start tree) (clock : Instant) :
    session.Upheld origin output start { tree with clock := clock } where
  ready := upheld.ready.mono (upheld.ready.plain.of_clock clock) rfl fun _ directory => directory
  working := upheld.working
  below := upheld.below
  closed := upheld.closed

/-- A wildcard without `..` has the same files all through the run. -/
theorem Upheld.members_eq (upheld : session.Upheld origin output start tree)
    (kept : session.Upheld origin output start later) {wildcard : Text} {files : List Path}
    (named : Path.dotDot ∉ (Selection.ofWildcard wildcard).directoryNames)
    (found : Selection.members tree session.layout.sourceRoot wildcard = .ok files) :
    Selection.members later session.layout.sourceRoot wildcard = .ok files := by
  have directory := kept.ready.sourceDirectory
  rw [← kept.ready.sourceAt] at directory
  refine Selection.members_agree upheld.ready.plain kept.ready.plain
    (kept.working.trans upheld.working.symm) kept.ready.sourceReaches directory named
    (fun below => ?_) (fun below => ?_) found
  · rw [upheld.ready.sourceAt]
    exact (kept.below below).trans (upheld.below below).symm
  · exact (kept.closed _).trans (upheld.closed _).symm

theorem Accomplished.upheld_left
    (accomplished : session.Accomplished origin output start visit front name) :
    session.Upheld origin output start (session.effectOf visit).machine.tree where
  ready := accomplished.completed.ready
  working := accomplished.completed.working.trans accomplished.upheld.working
  below names := (accomplished.completed.below names).trans (accomplished.upheld.below names)
  closed place := (accomplished.completed.closed place).trans (accomplished.upheld.closed place)

theorem accomplished_of_succeeded (confined : session.runner.Confined)
    (delivers : session.runner.Delivers) (apart : Apart origin output)
    (upheld : session.Upheld origin output start visit.machine.tree)
    (listed : Listed visit.relative front name)
    (there : (start.file? (origin ++ visit.relative.moves)).isSome = true)
    {completion : Completion} (succeeded : (session.effectOf visit).value = .ok completion) :
    session.Accomplished origin output start visit front name := by
  have stillThere : (visit.machine.tree.file? (origin ++ visit.relative.moves)).isSome = true := by
    rw [upheld.file?_eq]
    exact there
  obtain ⟨same, completed⟩ :=
    completed_of_visit confined delivers upheld.ready apart listed stillThere succeeded
  refine ⟨listed, there, upheld, ?_, completed⟩
  unfold outcome?
  rw [succeeded, same]
  rfl

/-- In a run without failures every visit is accomplished. -/
theorem accomplished_of_mem_visits (confined : session.runner.Confined)
    (delivers : session.runner.Delivers) (apart : Apart origin output)
    (upheld : session.Upheld origin output start machine.tree) (descends : script.Descends)
    (complete : (session.run script machine).value.failed = 0) :
    session.Upheld origin output start (session.run script machine).machine.tree ∧
      ∀ visit ∈ session.visits script machine, ∃ front name,
        session.Accomplished origin output start visit front name := by
  have succeeded := succeeded_of_mem_visits complete
  obtain ⟨ends, each⟩ := @invariant_of_visits State session machine
    (fun current => session.Upheld origin output start current.tree)
    (fun _ relative => ∃ front name, Listed relative front name ∧
      (start.file? (origin ++ relative.moves)).isSome = true)
    script upheld
    (by
      intro command inScript current upheld visit taken
      obtain ⟨checked, files, accepted, found, -, inFiles⟩ := mem_commandVisits taken
      have directory := upheld.ready.sourceDirectory
      rw [← upheld.ready.sourceAt] at directory
      obtain ⟨front, name, inner, named, there⟩ := Selection.inner_of_mem_members upheld.ready.plain
        directory (descends command inScript checked accepted) found inFiles
      rw [upheld.ready.sourceAt, upheld.file?_eq] at there
      exact ⟨front, name, ⟨inner, named⟩, there⟩)
    (by
      rintro visit taken ⟨front, name, listed, there⟩ upheld
      obtain ⟨completion, completed⟩ := succeeded visit taken
      exact (accomplished_of_succeeded confined delivers apart upheld listed there
        completed).upheld_left)
  refine ⟨ends, fun visit taken => ?_⟩
  obtain ⟨⟨front, name, listed, there⟩, upheld⟩ := each visit taken
  obtain ⟨completion, completed⟩ := succeeded visit taken
  exact ⟨front, name, accomplished_of_succeeded confined delivers apart upheld listed there
    completed⟩

/-- Visits that all complete have the outcomes that they report. -/
theorem filterMap_outcome?_of_reported {visits : List (Visit State)}
    (each : ∀ visit ∈ visits, session.outcome? visit = some (session.outcomeOf visit)) :
    visits.filterMap session.outcome? = visits.map session.outcomeOf := by
  rw [← List.filterMap_eq_map]
  exact List.filterMap_congr each

/-- A run without failures reports the outcome of each of its visits. -/
theorem outcomes_eq_map
    (each : ∀ visit ∈ session.visits script machine, ∃ front name,
      session.Accomplished origin output start visit front name) :
    (session.run script machine).value.outcomes =
      (session.visits script machine).map session.outcomeOf := by
  rw [outcomes_run]
  refine filterMap_outcome?_of_reported fun visit taken => ?_
  obtain ⟨front, name, accomplished⟩ := each visit taken
  exact accomplished.reported

end Session

end AssetPipeline
