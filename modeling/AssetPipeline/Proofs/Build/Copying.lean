/-
This file follows a run whose commands all copy, from a tree in which the output root mirrors the
source root. It stays so all through the run, and nothing changes below the source root, so every
command has the files that it had at the start, and every visit completes. A file that was visited
is in step with its output, and stays so until the end. So a run copies every listed file that was
not in step, once, however many commands list it, and leaves every listed file in step.
-/

import AssetPipeline.Proofs.Build.Mirror

namespace AssetPipeline

/-- Every command is accepted, and copies. -/
def Script.Copies (script : Script) : Prop :=
  ∀ command ∈ script, ∃ checked, command.check = .ok checked ∧ checked.verb = .copy

theorem Script.copies_iff {script : Script} :
    (script.all fun command => match command.check with
      | .error _ => false
      | .ok checked => checked.verb == .copy) = true ↔ script.Copies := by
  unfold Copies
  rw [List.all_eq_true]
  refine forall₂_congr fun command _ => ?_
  split
  · next error refused => simp [refused]
  · next checked accepted => simp [accepted]

instance (script : Script) : Decidable script.Copies := decidable_of_iff _ Script.copies_iff

/-- The files that the commands of a script list, in order. -/
def Script.listing (script : Script) (tree : FileTree) (root : Path) : List Path :=
  script.flatMap fun command =>
    match command.check with
    | .error _ => []
    | .ok checked =>
      match Selection.members tree root checked.wildcard with
      | .error _ => []
      | .ok files => files

theorem Script.mem_listing_iff {script : Script} {tree : FileTree} {root relative : Path} :
    relative ∈ script.listing tree root ↔ ∃ command ∈ script, ∃ checked files,
      command.check = .ok checked ∧ Selection.members tree root checked.wildcard = .ok files ∧
        relative ∈ files := by
  unfold listing
  rw [List.mem_flatMap]
  refine exists_congr fun command => and_congr_right fun _ => ?_
  split
  · next error refused => simp [refused]
  · next checked accepted =>
    split
    · next error unlisted => simp [accepted, unlisted]
    · next files listed => simp [accepted, listed]

/-- How often a report says that the file which these moves lead to was built. -/
def RunRecord.timesRebuilt (report : RunRecord) (moves : List Text) : Nat :=
  (report.flatMap (·.files)).countP fun completion =>
    completion.relative.moves == moves && completion.decision == .rebuild

namespace Session

variable {State : Type} {session : Session State} {origin output : Location}
  {machine last : Machine State} {tree later start : FileTree} {script : Script}
  {names : List Name} {visits : List (Visit State)}

/-! ### Visits of a run that copies -/

/-- A visit that copied its file, or found it current. -/
structure Served (session : Session State) (origin output : Location) (visit : Visit State) :
    Prop where
  reported : session.outcome? visit = some (session.outcomeOf visit)
  decides : session.decisionOf visit.verb visit.relative visit.machine = .upToDate ↔
    InStep origin output visit.machine.tree visit.relative.moves
  refreshed : session.Refreshed origin output visit.relative visit.machine.tree
    (session.effectOf visit).machine.tree

theorem Served.succeeds {visit : Visit State} (served : session.Served origin output visit) :
    ∃ completion, (session.effectOf visit).value = .ok completion :=
  succeeds_of_outcome? served.reported

/-- What a run that copies keeps of the tree it started from. -/
structure Steady (session : Session State) (origin output : Location) (start tree : FileTree) :
    Prop where
  upheld : session.Upheld origin output start tree
  mirrors : Mirrors origin output tree

theorem served_of_steady (apart : Apart origin output) {visit : Visit State}
    (copies : visit.verb = .copy) (steady : session.Steady origin output start visit.machine.tree)
    (copyable : session.Copyable origin start visit.relative) :
    session.Served origin output visit ∧
      session.Steady origin output start (session.effectOf visit).machine.tree := by
  obtain ⟨verb, relative, machine⟩ := visit
  obtain rfl := copies
  have copyable := copyable.mono (steady.upheld.file?_eq _)
  obtain ⟨completed, refreshed⟩ :=
    refreshed_of_visit steady.upheld.ready apart steady.mirrors copyable
  refine ⟨⟨?_, decisionOf_copy steady.upheld.ready steady.mirrors copyable, refreshed⟩, ?_⟩
  · unfold outcome? effectOf
    rw [completed]
    rfl
  · exact ⟨⟨refreshed.ready, refreshed.working.trans steady.upheld.working,
      fun names => (refreshed.below names).trans (steady.upheld.below names),
      fun place => (refreshed.closed place).trans (steady.upheld.closed place)⟩, refreshed.mirrors⟩

/-- The files that a run takes up are those that were listed at its start. -/
theorem mem_listing_of_mem_commandVisits (copies : script.Copies) (descends : script.Descends)
    (ready : session.Ready origin output start) {command : Command} (inScript : command ∈ script)
    (upheld : session.Upheld origin output start machine.tree) {visit : Visit State}
    (taken : visit ∈ session.commandVisits command machine) :
    visit.verb = .copy ∧ visit.relative ∈ script.listing start session.layout.sourceRoot := by
  obtain ⟨checked, files, accepted, found, verb, inFiles⟩ := mem_commandVisits taken
  obtain ⟨copying, same, isCopy⟩ := copies command inScript
  obtain rfl := Except.ok.inj (accepted.symm.trans same)
  exact ⟨verb.trans isCopy, Script.mem_listing_iff.mpr ⟨command, inScript, checked, files, accepted,
    upheld.members_eq ready.upheld (descends command inScript checked accepted) found, inFiles⟩⟩

/-- All through a run the same files are listed. -/
theorem listing_eq (descends : script.Descends)
    (upheld : session.Upheld origin output start tree)
    (kept : session.Upheld origin output start later) :
    script.listing later session.layout.sourceRoot =
      script.listing tree session.layout.sourceRoot := by
  unfold Script.listing
  refine List.flatMap_congr fun command inScript => ?_
  cases accepted : command.check with
  | error error => rfl
  | ok checked =>
    have named := descends command inScript checked accepted
    dsimp only
    cases found : Selection.members tree session.layout.sourceRoot checked.wildcard with
    | ok files => rw [upheld.members_eq kept named found]
    | error error =>
      cases foundLater : Selection.members later session.layout.sourceRoot checked.wildcard with
      | error other => rfl
      | ok files =>
        rw [kept.members_eq upheld named foundLater] at found
        cases found

/-! ### How often a file is copied -/

/-- The visit copies the file that stands at `names` below the source root. -/
def Recopies (session : Session State) (names : List Name) (visit : Visit State) : Bool :=
  visit.relative.moves == names &&
    session.decisionOf visit.verb visit.relative visit.machine == .rebuild

theorem recopies_iff {visit : Visit State} (served : session.Served origin output visit) :
    session.Recopies names visit = true ↔
      visit.relative.moves = names ∧ ¬ InStep origin output visit.machine.tree names := by
  unfold Recopies
  rw [Bool.and_eq_true, beq_iff_eq, beq_iff_eq]
  refine and_congr_right fun same => ?_
  subst same
  rw [← served.decides]
  cases session.decisionOf visit.verb visit.relative visit.machine <;> simp

/-- A visit brings its own file in step, and no other in step or out of it. -/
theorem Served.inStep_iff {visit : Visit State} (served : session.Served origin output visit) :
    InStep origin output (session.effectOf visit).machine.tree names ↔
      visit.relative.moves = names ∨ InStep origin output visit.machine.tree names := by
  by_cases same : visit.relative.moves = names
  · subst same
    exact iff_of_true served.refreshed.inStep (Or.inl rfl)
  · rw [inStep_congr (FileTree.file?_congr (served.refreshed.below names))
      (served.refreshed.others names (Ne.symm same)), or_iff_right same]

/-- What is in step is not copied again, and stays in step. -/
theorem recopies_of_inStep (follows : session.Follows machine visits last)
    (each : ∀ visit ∈ visits, session.Served origin output visit)
    (inStep : InStep origin output machine.tree names) :
    visits.countP (session.Recopies names) = 0 ∧ InStep origin output last.tree names := by
  induction visits generalizing machine with
  | nil => exact ⟨rfl, follows ▸ inStep⟩
  | cons visit rest inductionHypothesis =>
    obtain ⟨rfl, onwards⟩ := follows
    have served := each visit List.mem_cons_self
    obtain ⟨none, still⟩ := inductionHypothesis onwards
      (fun other member => each other (List.mem_cons_of_mem _ member))
      (served.inStep_iff.mpr (Or.inr inStep))
    refine ⟨?_, still⟩
    rw [List.countP_cons_of_neg fun copied => ((recopies_iff served).mp copied).2 inStep, none]

/-- What is not in step is copied at the first visit, and at no other. -/
theorem recopies_of_visited (follows : session.Follows machine visits last)
    (each : ∀ visit ∈ visits, session.Served origin output visit)
    (behind : ¬ InStep origin output machine.tree names)
    (visited : ∃ visit ∈ visits, visit.relative.moves = names) :
    visits.countP (session.Recopies names) = 1 ∧ InStep origin output last.tree names := by
  induction visits generalizing machine with
  | nil =>
    obtain ⟨visit, member, -⟩ := visited
    cases member
  | cons visit rest inductionHypothesis =>
    obtain ⟨rfl, onwards⟩ := follows
    have served := each visit List.mem_cons_self
    have eachLater : ∀ other ∈ rest, session.Served origin output other :=
      fun other member => each other (List.mem_cons_of_mem _ member)
    by_cases same : visit.relative.moves = names
    · obtain ⟨none, still⟩ :=
        recopies_of_inStep onwards eachLater (served.inStep_iff.mpr (Or.inl same))
      refine ⟨?_, still⟩
      rw [List.countP_cons_of_pos ((recopies_iff served).mpr ⟨same, behind⟩), none]
    · have laterVisited : ∃ other ∈ rest, other.relative.moves = names := by
        obtain ⟨other, member, leads⟩ := visited
        rcases List.mem_cons.mp member with rfl | inRest
        · exact absurd leads same
        · exact ⟨other, inRest, leads⟩
      obtain ⟨once, final⟩ := inductionHypothesis onwards eachLater
        (fun inStep => (served.inStep_iff.mp inStep).elim same behind) laterVisited
      refine ⟨?_, final⟩
      rw [List.countP_cons_of_neg fun copied => same ((recopies_iff served).mp copied).1, once]

/-- What is not visited is not copied. -/
theorem recopies_of_not_visited (unvisited : ∀ visit ∈ visits, visit.relative.moves ≠ names) :
    visits.countP (session.Recopies names) = 0 := by
  refine List.countP_eq_zero.mpr fun visit member copied => unvisited visit member ?_
  exact beq_iff_eq.mp (Bool.and_eq_true_iff.mp copied).1

/-! ### What a run leaves -/

/-- A run has commands that copy, and files that can be copied. -/
structure Prepared (session : Session State) (origin output : Location) (script : Script)
    (machine : Machine State) : Prop where
  apart : Apart origin output
  copies : script.Copies
  descends : script.Descends
  ready : session.Ready origin output machine.tree
  mirrors : Mirrors origin output machine.tree
  copyable : ∀ relative ∈ script.listing machine.tree session.layout.sourceRoot,
    session.Copyable origin machine.tree relative

namespace Prepared

variable (prepared : session.Prepared origin output script machine)

include prepared

/-- All through the run, every visit serves a file that was listed at its start. -/
theorem served :
    session.Steady origin output machine.tree (session.run script machine).machine.tree ∧
      ∀ visit ∈ session.visits script machine,
        visit.relative ∈ script.listing machine.tree session.layout.sourceRoot ∧
          session.Served origin output visit ∧
          session.Steady origin output machine.tree (session.effectOf visit).machine.tree := by
  obtain ⟨ends, each⟩ := @invariant_of_visits State session machine
    (fun current => session.Steady origin output machine.tree current.tree)
    (fun verb relative =>
      verb = .copy ∧ relative ∈ script.listing machine.tree session.layout.sourceRoot)
    script ⟨prepared.ready.upheld, prepared.mirrors⟩
    (fun command inScript current steady visit taken => mem_listing_of_mem_commandVisits
      prepared.copies prepared.descends prepared.ready inScript steady.upheld taken)
    (fun visit _ ⟨isCopy, listed⟩ steady =>
      (served_of_steady prepared.apart isCopy steady (prepared.copyable _ listed)).2)
  refine ⟨ends, fun visit taken => ?_⟩
  obtain ⟨⟨isCopy, listed⟩, steady⟩ := each visit taken
  exact ⟨listed, served_of_steady prepared.apart isCopy steady (prepared.copyable _ listed)⟩

theorem serves : ∀ visit ∈ session.visits script machine, session.Served origin output visit :=
  fun visit taken => (prepared.served.2 visit taken).2.1

/-- Every file that was listed at the start is visited. -/
theorem exists_visit {relative : Path}
    (listed : relative ∈ script.listing machine.tree session.layout.sourceRoot) :
    ∃ visit ∈ session.visits script machine, visit.relative = relative := by
  obtain ⟨command, inScript, checked, files, accepted, found, inFiles⟩ :=
    Script.mem_listing_iff.mp listed
  obtain ⟨earlier, between, later, whole, follows⟩ := visits_of_mem inScript machine
  have inVisits : ∀ visit, visit ∈ earlier ∨ visit ∈ session.commandVisits command between →
      visit ∈ session.visits script machine := by
    intro visit member
    rw [whole]
    exact List.mem_append_left _ (List.mem_append.mpr member)
  have steady : session.Steady origin output machine.tree between.tree :=
    (@invariant_of_follows State session machine between
      (fun current => session.Steady origin output machine.tree current.tree) earlier follows
      ⟨prepared.ready.upheld, prepared.mirrors⟩
      fun visit member _ => (prepared.served.2 visit (inVisits visit (Or.inl member))).2.2).1
  have foundThere := prepared.ready.upheld.members_eq steady.upheld
    (prepared.descends command inScript checked accepted) found
  have visits : session.commandVisits command between =
      session.visitsOf checked.verb files between := by
    unfold commandVisits
    rw [accepted]
    dsimp only
    rw [foundThere]
  have all := relatives_visitsOf fun visit member =>
    (prepared.serves visit (inVisits visit (Or.inr (visits ▸ member)))).succeeds
  obtain ⟨visit, member, same⟩ := List.mem_map.mp (all.symm ▸ inFiles)
  exact ⟨visit, inVisits visit (Or.inr (visits ▸ member)), same⟩

theorem visited_iff : (∃ visit ∈ session.visits script machine, visit.relative.moves = names) ↔
    names ∈ (script.listing machine.tree session.layout.sourceRoot).map Path.moves := by
  rw [List.mem_map]
  constructor
  · rintro ⟨visit, taken, same⟩
    exact ⟨visit.relative, (prepared.served.2 visit taken).1, same⟩
  · rintro ⟨relative, listed, same⟩
    obtain ⟨visit, taken, rfl⟩ := prepared.exists_visit listed
    exact ⟨visit, taken, same⟩

/-- The report counts the visits that copied the file. -/
theorem timesRebuilt_eq_countP : (session.run script machine).value.timesRebuilt names =
    (session.visits script machine).countP (session.Recopies names) := by
  unfold RunRecord.timesRebuilt
  rw [files_run, filterMap_outcome?_of_reported fun visit taken =>
    (prepared.serves visit taken).reported, List.map_map, List.countP_map]
  rfl

/-- Every listed file is in step at the end. -/
theorem inStep_of_mem_listing
    (listed : names ∈ (script.listing machine.tree session.layout.sourceRoot).map Path.moves) :
    InStep origin output (session.run script machine).machine.tree names := by
  have follows := @follows_visits State session script machine
  by_cases inStep : InStep origin output machine.tree names
  · exact (recopies_of_inStep follows prepared.serves inStep).2
  · exact (recopies_of_visited follows prepared.serves inStep (prepared.visited_iff.mpr listed)).2

/-- A file is copied once if it is listed and not in step, and else not at all. -/
theorem timesRebuilt_eq : (session.run script machine).value.timesRebuilt names =
    if names ∈ (script.listing machine.tree session.layout.sourceRoot).map Path.moves ∧
      ¬ InStep origin output machine.tree names then 1 else 0 := by
  have follows := @follows_visits State session script machine
  rw [prepared.timesRebuilt_eq_countP]
  by_cases inStep : InStep origin output machine.tree names
  · rw [if_neg fun due => due.2 inStep]
    exact (recopies_of_inStep follows prepared.serves inStep).1
  by_cases listed : names ∈ (script.listing machine.tree session.layout.sourceRoot).map Path.moves
  · rw [if_pos ⟨listed, inStep⟩]
    exact (recopies_of_visited follows prepared.serves inStep (prepared.visited_iff.mpr listed)).1
  · rw [if_neg fun due => listed due.1]
    exact recopies_of_not_visited fun visit taken same =>
      listed (prepared.visited_iff.mp ⟨visit, taken, same⟩)

end Prepared

end Session

end AssetPipeline
