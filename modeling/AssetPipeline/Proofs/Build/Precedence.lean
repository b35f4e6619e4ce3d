/-
This file says which of several files with one target a run leaves there. Each is looked at in turn,
and is built only when its source is strictly newer than whatever stands at the target, which has
the time of a source itself. So the files that are built are those whose sources are newer than all
that came before them, and the bytes in the end are those of the last one built. A later file whose
source is no newer leaves the target to an earlier one.
-/

import AssetPipeline.Proofs.Build.History
import AssetPipeline.Proofs.Build.Retention

namespace AssetPipeline

open FileTree (Plain)

namespace Session

variable {State : Type} {session : Session State} {script : Script} {machine last : Machine State}
  {visits : List (Visit State)} {visit other winner : Visit State} {outcome : Outcome}
  {origin output : Location} {start : FileTree}
  {front back : List Text} {name final : Name} {source : File}

/-- The bytes that stand at the target of a visit once its output is produced. They are defined for
an output that is found current as well. -/
def yield? (session : Session State) (visit : Visit State) : Option Bytes :=
  ((session.producing visit.verb visit.relative visit.machine).machine.tree.fileAt?
    (session.targetOf visit.verb visit.relative)).map (·.content)

/-- Both sources are there, and the first is strictly newer than the second. -/
def Newer (session : Session State) (tree : FileTree) (first second : Path) : Prop :=
  ∃ newer older, tree.fileAt? (session.sourceOf first) = some newer ∧
    tree.fileAt? (session.sourceOf second) = some older ∧
    newer.modified.notAfter older.modified = false

/-- The last of these visits that shares the output and builds it. -/
def LastToBuild (session : Session State) (visits : List (Visit State)) (outcome : Outcome)
    (winner : Visit State) : Prop :=
  ∃ front back, visits = front ++ winner :: back ∧ (session.outcomeOf winner).Shares outcome ∧
    (session.outcomeOf winner).completion.decision = .rebuild ∧
    ∀ other ∈ back, (session.outcomeOf other).Shares outcome →
      (session.outcomeOf other).completion.decision = .upToDate

/-! ### One visit -/

/-- An accomplished visit finds its output current when a file stands there that is no older than
its source. -/
theorem upToDate_iff_stands
    (accomplished : session.Accomplished origin output start visit front name)
    (found : start.file? (origin ++ visit.relative.moves) = some source) :
    session.decisionOf visit.verb visit.relative visit.machine = .upToDate ↔
      visit.machine.tree.Stands (output ++ (outputOf visit.verb visit.relative).moves) source := by
  obtain ⟨grows, roomy⟩ := accomplished.upheld.ready.withRoom accomplished.listed visit.verb
  have sources := fileAt?_sourceOf roomy accomplished.listed accomplished.completed.sourceReaches
  have outputs := fileAt?_targetOf roomy accomplished.listed accomplished.completed.named
    accomplished.completed.outputReaches
  rw [grows.file?_eq, accomplished.upheld.file?_eq, found] at sources
  rw [grows.file?_eq] at outputs
  unfold decisionOf
  rw [FileTree.decision_eq_upToDate_iff, sources, outputs]
  constructor
  · rintro ⟨sourceFile, file, same, there, fresh⟩
    obtain rfl := Option.some.inj same
    exact ⟨file, there, fresh⟩
  · rintro ⟨file, there, fresh⟩
    exact ⟨source, file, rfl, there, fresh⟩

/-- Giving the output the time of its source does not change its bytes. -/
theorem yield?_of_stamped {roomy later : FileTree}
    (makes : session.Produced visit.verb visit.relative name roomy
      (session.producing visit.verb visit.relative visit.machine).machine.tree)
    (stamped : (session.producing visit.verb visit.relative visit.machine).machine.tree.copyModified
      (session.sourceOf visit.relative) (session.targetOf visit.verb visit.relative) = .ok later) :
    ∃ file, later.file? (session.placeOf visit.verb visit.relative roomy) = some file ∧
      session.yield? visit = some file.content := by
  obtain ⟨-, outputReaches, -, -, stamp⟩ := FileTree.copyModified_ok makes.keeps.plain stamped
  obtain ⟨made, there⟩ := makes.file
  unfold placeOf at there ⊢
  rw [← makes.keeps.working] at there ⊢
  refine ⟨_, stamp made there, ?_⟩
  unfold yield?
  rw [(FileTree.fileAt?_eq_some_iff makes.keeps.plain).mpr ⟨outputReaches, there⟩]
  rfl

/-- An accomplished visit leaves the file that it found current, or else the bytes that it produced,
with the time of its source. -/
theorem file?_of_accomplished (confined : session.runner.Confined)
    (delivers : session.runner.Delivers)
    (accomplished : session.Accomplished origin output start visit front name)
    (found : start.file? (origin ++ visit.relative.moves) = some source) :
    let place := output ++ (outputOf visit.verb visit.relative).moves
    let decision := session.decisionOf visit.verb visit.relative visit.machine
    let left := (session.effectOf visit).machine.tree
    decision = .upToDate ∧ left.file? place = visit.machine.tree.file? place ∨
      decision = .rebuild ∧ ∃ file, left.file? place = some file ∧
        file.modified = source.modified ∧ session.yield? visit = some file.content := by
  intro place decision left
  obtain ⟨grows, roomy⟩ := accomplished.upheld.ready.withRoom accomplished.listed visit.verb
  have kept : left.file? (origin ++ visit.relative.moves) = some source :=
    (accomplished.upheld_left.file?_eq _).trans found
  obtain ⟨completion, completed⟩ := succeeds_of_outcome? accomplished.reported
  have course := session.visit_course visit.verb visit.relative visit.machine
  unfold effectOf at completed
  have leaves : (session.visit visit.verb visit.relative visit.machine).machine.tree = left := rfl
  generalize (session.visit visit.verb visit.relative visit.machine).value = value
    at completed course
  generalize (session.visit visit.verb visit.relative visit.machine).machine = after
    at leaves course
  subst completed
  cases course with
  | current room decided => exact Or.inl ⟨decided, leaves ▸ grows.file?_eq place⟩
  | @rebuilt later room decided produced stamped =>
    obtain rfl : later = left := leaves
    have makes := produced_of_produce confined delivers roomy.plain
      roomy.outputReaches.usable.given accomplished.listed.inner produced
    obtain ⟨-, -, -, -, ⟨file, stands, dated⟩, -⟩ := built_of_produced makes stamped
    obtain ⟨made, there, yields⟩ := yield?_of_stamped makes stamped
    obtain rfl := Option.some.inj (stands.symm.trans there)
    rw [accomplished.listed.placeOf_eq roomy makes.named] at stands
    rw [location_sourceOf roomy accomplished.listed] at dated
    exact Or.inr ⟨decided, file, stands, dated source kept, yields⟩

/-- After a visit to the output, a file that is no older than `source` stands there when one did
before, or when the source of the visit is no older. -/
theorem stands_iff_of_shares (confined : session.runner.Confined)
    (delivers : session.runner.Delivers)
    (accomplished : session.Accomplished origin output start visit front name)
    (next : session.Accomplished origin output start other back final)
    (shares : (session.outcomeOf other).Shares (session.outcomeOf visit)) {otherSource : File}
    (found : start.file? (origin ++ other.relative.moves) = some otherSource) :
    (session.effectOf other).machine.tree.Stands
        (output ++ (outputOf visit.verb visit.relative).moves) source ↔
      other.machine.tree.Stands (output ++ (outputOf visit.verb visit.relative).moves) source ∨
        source.modified.notAfter otherSource.modified = true := by
  let place := output ++ (outputOf visit.verb visit.relative).moves
  have here : output ++ (outputOf other.verb other.relative).moves = place :=
    congrArg (output ++ ·) ((shares_iff accomplished next).mp shares)
  have decides := upToDate_iff_stands next found
  rw [here] at decides
  have leaves := file?_of_accomplished confined delivers next found
  dsimp only at leaves
  rw [here] at leaves
  rcases leaves with ⟨current, same⟩ | ⟨rebuilt, file, there, dated, -⟩
  · obtain ⟨file, there, fresh⟩ := decides.mp current
    unfold FileTree.Stands
    rw [same]
    refine ⟨Or.inl, fun stands => ?_⟩
    rcases stands with stands | older
    · exact stands
    · exact ⟨file, there, Instant.notAfter_trans older fresh⟩
  · have older : ∀ old, other.machine.tree.file? place = some old →
        old.modified.notAfter otherSource.modified = true := by
      intro old stood
      rcases Instant.notAfter_total old.modified otherSource.modified with older | newer
      · exact older
      · cases rebuilt.symm.trans (decides.mpr ⟨old, stood, newer⟩)
    constructor
    · rintro ⟨stored, stands, fresh⟩
      obtain rfl := Option.some.inj (there.symm.trans stands)
      exact Or.inr (dated ▸ fresh)
    · rintro (⟨old, stood, fresh⟩ | fresh)
      · exact ⟨file, there, dated ▸ Instant.notAfter_trans fresh (older old stood)⟩
      · exact ⟨file, there, dated ▸ fresh⟩

/-! ### Visits that follow each other -/

theorem lastToBuild_concat_self (shares : (session.outcomeOf other).Shares outcome)
    (rebuilt : (session.outcomeOf other).completion.decision = .rebuild) :
    session.LastToBuild (visits ++ [other]) outcome other :=
  ⟨visits, [], rfl, shares, rebuilt, fun _ member => nomatch member⟩

theorem LastToBuild.concat (lastToBuild : session.LastToBuild visits outcome winner)
    (idle : (session.outcomeOf other).Shares outcome →
      (session.outcomeOf other).completion.decision = .upToDate) :
    session.LastToBuild (visits ++ [other]) outcome winner := by
  obtain ⟨front, back, rfl, shares, rebuilt, idleBefore⟩ := lastToBuild
  refine ⟨front, back ++ [other], by simp, shares, rebuilt, fun next member => ?_⟩
  rcases List.mem_append.mp member with inBack | isLast
  · exact idleBefore next inBack
  · exact List.mem_singleton.mp isLast ▸ idle

section Follows

variable (confined : session.runner.Confined) (delivers : session.runner.Delivers)
  (accomplished : session.Accomplished origin output start visit front name)
  (vacant : machine.tree.file? (output ++ (outputOf visit.verb visit.relative).moves) = none)

include confined delivers accomplished vacant

/-- At an output where nothing stood, a file no older than `source` stands after visits when one of
them shares the output, from a source that is no older. -/
theorem stands_iff_of_follows (follows : session.Follows machine visits last)
    (each : ∀ other ∈ visits, ∃ front name,
      session.Accomplished origin output start other front name)
    (spared : ∀ other ∈ visits,
      ¬ (session.outcomeOf other).Scratches (session.outcomeOf visit)) :
    last.tree.Stands (output ++ (outputOf visit.verb visit.relative).moves) source ↔
      ∃ other ∈ visits, (session.outcomeOf other).Shares (session.outcomeOf visit) ∧
        ∃ otherSource, start.file? (origin ++ other.relative.moves) = some otherSource ∧
          source.modified.notAfter otherSource.modified = true := by
  -- The visits are taken from the end, where the last one adds its own source to those before it.
  induction visits using List.reverseRecOn generalizing last with
  | nil =>
    obtain rfl := follows
    refine iff_of_false ?_ fun ⟨other, member, _⟩ => nomatch member
    rintro ⟨file, there, -⟩
    cases vacant.symm.trans there
  | append_singleton others next inductionHypothesis =>
    obtain ⟨middle, before, rfl, rfl⟩ := follows_append.mp follows
    obtain ⟨back, final, done⟩ := each next (List.mem_append_right _ (List.mem_singleton_self _))
    have earlier := inductionHypothesis before
      (fun other member => each other (List.mem_append_left _ member))
      (fun other member => spared other (List.mem_append_left _ member))
    have split : ∀ Holds : Visit State → Prop, (∃ other ∈ others ++ [next], Holds other) ↔
        (∃ other ∈ others, Holds other) ∨ Holds next := by
      intro Holds
      simp only [List.mem_append, List.mem_singleton, or_and_right, exists_or, exists_eq_left]
    rw [split]
    by_cases shares : (session.outcomeOf next).Shares (session.outcomeOf visit)
    · obtain ⟨otherSource, found⟩ := Option.isSome_iff_exists.mp done.there
      rw [stands_iff_of_shares confined delivers accomplished done shares found, earlier]
      refine or_congr_right ⟨fun older => ⟨shares, otherSource, found, older⟩, ?_⟩
      rintro ⟨-, same, again, older⟩
      obtain rfl := Option.some.inj (found.symm.trans again)
      exact older
    · have unchanged := file?_eq_of_unrelated accomplished done shares
        (spared next (List.mem_append_right _ (List.mem_singleton_self _)))
      unfold FileTree.Stands at earlier ⊢
      rw [unchanged, earlier]
      exact (or_iff_left fun ⟨again, _⟩ => shares again).symm

/-- At an output where nothing stood, there is no file as long as no visit shares the output, and
then there are the bytes of the last visit to build it. -/
theorem file?_of_follows (follows : session.Follows machine visits last)
    (each : ∀ other ∈ visits, ∃ front name,
      session.Accomplished origin output start other front name)
    (spared : ∀ other ∈ visits,
      ¬ (session.outcomeOf other).Scratches (session.outcomeOf visit)) :
    (last.tree.file? (output ++ (outputOf visit.verb visit.relative).moves) = none ∧
        ∀ other ∈ visits, ¬ (session.outcomeOf other).Shares (session.outcomeOf visit)) ∨
      ∃ winner file, session.LastToBuild visits (session.outcomeOf visit) winner ∧
        last.tree.file? (output ++ (outputOf visit.verb visit.relative).moves) = some file ∧
        session.yield? winner = some file.content := by
  induction visits using List.reverseRecOn generalizing last with
  | nil =>
    obtain rfl := follows
    exact Or.inl ⟨vacant, fun other member => nomatch member⟩
  | append_singleton others next inductionHypothesis =>
    obtain ⟨middle, before, rfl, rfl⟩ := follows_append.mp follows
    have isLast := List.mem_append_right others (List.mem_singleton_self next)
    obtain ⟨back, final, done⟩ := each next isLast
    have earlier := inductionHypothesis before
      (fun other member => each other (List.mem_append_left _ member))
      (fun other member => spared other (List.mem_append_left _ member))
    by_cases shares : (session.outcomeOf next).Shares (session.outcomeOf visit)
    · obtain ⟨source, found⟩ := Option.isSome_iff_exists.mp done.there
      have here := (shares_iff accomplished done).mp shares
      have decides := upToDate_iff_stands done found
      have leaves := file?_of_accomplished confined delivers done found
      dsimp only at leaves
      rw [here] at decides leaves
      right
      rcases leaves with ⟨current, same⟩ | ⟨rebuilt, file, there, -, produced⟩
      · rcases earlier with ⟨nothing, -⟩ | ⟨winner, file, wins, there, produced⟩
        · obtain ⟨file, stood, -⟩ := decides.mp current
          cases nothing.symm.trans stood
        · exact ⟨winner, file, wins.concat fun _ => current, same.trans there, produced⟩
      · exact ⟨next, file, lastToBuild_concat_self shares rebuilt, there, produced⟩
    · have unchanged := file?_eq_of_unrelated accomplished done shares (spared next isLast)
      rcases earlier with ⟨nothing, unshared⟩ | ⟨winner, file, wins, there, produced⟩
      · refine Or.inl ⟨unchanged.trans nothing, fun other member => ?_⟩
        rcases List.mem_append.mp member with inOthers | last
        · exact unshared other inOthers
        · exact List.mem_singleton.mp last ▸ shares
      · exact Or.inr ⟨winner, file, wins.concat fun again => absurd again shares,
          unchanged.trans there, produced⟩

end Follows

/-! ### The start of a run -/

/-- Nothing stands at an output below an output root that is empty. -/
theorem Listed.vacant_of_empty {relative : Path} (listed : Listed relative front name) (verb : Verb)
    (empty : start.AllBelow output fun names _ => names = []) :
    start.file? (output ++ (outputOf verb relative).moves) = none := by
  cases stands : start.file? (output ++ (outputOf verb relative).moves) with
  | none => rfl
  | some file =>
    have root := empty _ _ (FileTree.file?_eq_some_iff.mp stands)
    rw [listed.inner.moves_outputOf] at root
    simp at root

theorem newer_iff (ready : session.Ready origin output start)
    (accomplished : session.Accomplished origin output start visit front name)
    (next : session.Accomplished origin output start other back final)
    {otherSource : File} (found : start.file? (origin ++ visit.relative.moves) = some source)
    (otherFound : start.file? (origin ++ other.relative.moves) = some otherSource) :
    session.Newer start visit.relative other.relative ↔
      source.modified.notAfter otherSource.modified = false := by
  have first := fileAt?_sourceOf ready accomplished.listed accomplished.completed.sourceReaches
  have second := fileAt?_sourceOf ready next.listed next.completed.sourceReaches
  rw [found] at first
  rw [otherFound] at second
  constructor
  · rintro ⟨newer, older, newerFound, olderFound, strictly⟩
    obtain rfl := Option.some.inj (first.symm.trans newerFound)
    obtain rfl := Option.some.inj (second.symm.trans olderFound)
    exact strictly
  · exact fun strictly => ⟨source, otherSource, first, second, strictly⟩

/-! ### A file that comes too late -/

/-- A finished file and a wave of the same name and time. -/
def oggAndWave : Machine Unit where
  tree := {
    nodes := [
      ([['s', 'r', 'c'], ['a', '.', 'o', 'g', 'g']], .file ⟨[111], ⟨1000, 0⟩, .ordinary⟩),
      ([['s', 'r', 'c'], ['a', '.', 'w', 'a', 'v']], .file ⟨[119], ⟨1000, 0⟩, .ordinary⟩),
      ([['s', 'r', 'c']], .directory),
      ([['o', 'u', 't']], .directory)]
    workingDirectory := []
    clock := ⟨2000, 0⟩ }
  runner := ()

/-- The tools write other bytes than those of either file, and end with exit code 0. -/
def overwriting : Session Unit := .start .twoRoots (.writing [112] 0) oggAndWave.tree

/-- Copies the finished file, and then encodes the wave to the same target. -/
def copyThenEncode : Script := [
  ⟨1, ['c', 'o', 'p', 'y'], [['*', '.', 'o', 'g', 'g'], ['x']]⟩,
  ⟨2, ['w', 'a', 'v', 'e', '-', 't', 'o', '-', 'o', 'g', 'g'], [['*', '.', 'w', 'a', 'v'], ['y']]⟩]

/-- The finished file is taken up first. -/
def oggVisit : Visit Unit := ⟨.copy, ⟨['a', '.', 'o', 'g', 'g']⟩, oggAndWave⟩

/-- The wave finds what the copy left. -/
def waveVisit : Visit Unit :=
  ⟨.waveToOgg, ⟨['a', '.', 'w', 'a', 'v']⟩, (overwriting.effectOf oggVisit).machine⟩

/-! ### The end of a run -/

/-- After a run without failures that began with an empty output root, a file was built exactly when
its source is strictly newer than those of all the files before it that have the same target, and
the bytes that stand there are those of the last one built. -/
theorem newer_sources_prevail (confined : session.runner.Confined)
    (delivers : session.runner.Delivers) (laid : session.Laid machine.tree)
    (empty : machine.tree.AllBelow
      (session.layout.outputRoot.location machine.tree.workingDirectory) fun names _ => names = [])
    (descends : script.Descends) (complete : (session.run script machine).value.failed = 0)
    {earlier later : List (Visit State)}
    (taken : session.visits script machine = earlier ++ visit :: later)
    (spared : ∀ outcome ∈ (session.run script machine).value.outcomes,
      ¬ outcome.Scratches (session.outcomeOf visit)) :
    (session.run script machine).value.outcomes =
        earlier.map session.outcomeOf ++ session.outcomeOf visit :: later.map session.outcomeOf ∧
      ((session.outcomeOf visit).completion.decision = .rebuild ↔
        ∀ other ∈ earlier, (session.outcomeOf other).Shares (session.outcomeOf visit) →
          session.Newer machine.tree visit.relative other.relative) ∧
      ∃ winner file,
        session.LastToBuild (session.visits script machine) (session.outcomeOf visit) winner ∧
        (session.run script machine).machine.tree.fileAt?
          (session.targetOf visit.verb visit.relative) = some file ∧
        session.yield? winner = some file.content := by
  obtain ⟨upheld, each⟩ :=
    accomplished_of_mem_visits confined delivers laid.apart laid.ready.upheld descends complete
  have outcomes := outcomes_eq_map each
  rw [outcomes, List.forall_mem_map] at spared
  have inVisits : visit ∈ session.visits script machine := by
    rw [taken]
    exact List.mem_append_right _ List.mem_cons_self
  obtain ⟨front, name, accomplished⟩ := each visit inVisits
  have vacant := accomplished.listed.vacant_of_empty visit.verb empty
  have follows := session.follows_visits script machine
  refine ⟨by rw [outcomes, taken, List.map_append, List.map_cons], ?_, ?_⟩
  · rw [taken] at each spared follows
    obtain ⟨middle, before, rfl, -⟩ := follows_append.mp follows
    have eachBefore := fun other member => each other (List.mem_append_left _ member)
    obtain ⟨source, found⟩ := Option.isSome_iff_exists.mp accomplished.there
    have rebuilt : session.decisionOf visit.verb visit.relative visit.machine = .rebuild ↔
        ¬ session.decisionOf visit.verb visit.relative visit.machine = .upToDate := by
      cases session.decisionOf visit.verb visit.relative visit.machine <;> simp
    refine rebuilt.trans ?_
    rw [upToDate_iff_stands accomplished found, stands_iff_of_follows confined delivers accomplished
      vacant before eachBefore fun other member => spared other (List.mem_append_left _ member)]
    constructor
    · intro current other member shares
      obtain ⟨back, final, done⟩ := eachBefore other member
      obtain ⟨otherSource, otherFound⟩ := Option.isSome_iff_exists.mp done.there
      refine (newer_iff laid.ready accomplished done found otherFound).mpr ?_
      exact Bool.eq_false_iff.mpr fun older =>
        current ⟨other, member, shares, otherSource, otherFound, older⟩
    · rintro newer ⟨other, member, shares, otherSource, otherFound, older⟩
      obtain ⟨back, final, done⟩ := eachBefore other member
      have strictly := (newer_iff laid.ready accomplished done found otherFound).mp
        (newer other member shares)
      rw [older] at strictly
      cases strictly
  · rcases file?_of_follows confined delivers accomplished vacant follows each spared with
      ⟨-, unshared⟩ | ⟨winner, file, wins, there, produced⟩
    · exact absurd rfl (unshared visit inVisits)
    · refine ⟨winner, file, wins, ?_, produced⟩
      rw [fileAt?_targetOf upheld.ready accomplished.listed accomplished.completed.named
        accomplished.completed.outputReaches]
      exact there

/-- Nothing fails, and yet the bytes in the end are those of the file that was processed first. -/
theorem earlier_file_stays :
    overwriting.runner.Confined ∧ overwriting.runner.Delivers ∧
      overwriting.Laid oggAndWave.tree ∧
      (oggAndWave.tree.AllBelow (overwriting.layout.outputRoot.location
        oggAndWave.tree.workingDirectory) fun names _ => names = []) ∧
      copyThenEncode.Descends ∧
      (overwriting.run copyThenEncode oggAndWave).value.failed = 0 ∧
      overwriting.visits copyThenEncode oggAndWave = [oggVisit, waveVisit] ∧
      overwriting.targetOf waveVisit.verb waveVisit.relative =
        overwriting.targetOf oggVisit.verb oggVisit.relative ∧
      overwriting.yield? waveVisit = some [112] ∧
      ((overwriting.run copyThenEncode oggAndWave).machine.tree.fileAt?
        (overwriting.targetOf waveVisit.verb waveVisit.relative)).map (·.content) = some [111] :=
  ⟨Runner.confined_writing, Runner.delivers_writing, by decide +kernel⟩

theorem newer_sources_prevail_waveVisit :
    overwriting.visits copyThenEncode oggAndWave = [oggVisit] ++ waveVisit :: [] ∧
      ((overwriting.outcomeOf waveVisit).completion.decision = .rebuild ↔
        ∀ other ∈ [oggVisit],
          (overwriting.outcomeOf other).Shares (overwriting.outcomeOf waveVisit) →
            overwriting.Newer oggAndWave.tree waveVisit.relative other.relative) ∧
      ∃ winner file, overwriting.LastToBuild (overwriting.visits copyThenEncode oggAndWave)
          (overwriting.outcomeOf waveVisit) winner ∧
        (overwriting.run copyThenEncode oggAndWave).machine.tree.fileAt?
          (overwriting.targetOf waveVisit.verb waveVisit.relative) = some file ∧
        overwriting.yield? winner = some file.content := by
  have taken : overwriting.visits copyThenEncode oggAndWave = [oggVisit] ++ waveVisit :: [] := by
    decide +kernel
  exact ⟨taken, (newer_sources_prevail Runner.confined_writing Runner.delivers_writing
    (by decide +kernel) (by decide +kernel) (by decide +kernel) (by decide +kernel) taken
    (by decide +kernel)).2⟩

end Session

end AssetPipeline
