/-
This file says which outputs a run without failures leaves standing. The one thing that ever does
away with an output is the conversion of an mp3 file whose wave happens to be that output, for the
wave is removed whatever stood there before. So an output is lost exactly when such a conversion
comes after it and nothing brings it back, and an output that was lost can only be brought back by
copying the same source once more.
-/

import AssetPipeline.Proofs.Build.Integrity

namespace AssetPipeline

/-! ### What outcomes do to each other -/

namespace Outcome

/-- The two outputs are the same. -/
def Shares (first second : Outcome) : Prop :=
  first.completion.output.components = second.completion.output.components

/-- The first was built by way of a wave, and its wave is the second output. -/
def Scratches (first second : Outcome) : Prop :=
  first.verb = .mp3ToOgg ∧ first.completion.decision = .rebuild ∧
    (Toolbox.scratchOf first.completion.output).components = second.completion.output.components

instance (first second : Outcome) : Decidable (first.Scratches second) :=
  inferInstanceAs (Decidable (_ ∧ _ ∧ _))

/-- One of the later outcomes had the output for its wave, and none behind that one is the output
again. -/
def Lost (outcome : Outcome) (later : List Outcome) : Prop :=
  ∃ front spoiler back, later = front ++ spoiler :: back ∧ spoiler.Scratches outcome ∧
    ∀ other ∈ back, ¬ other.Shares outcome

variable {outcome last : Outcome} {later : List Outcome}

theorem not_lost_nil : ¬ outcome.Lost [] := by
  rintro ⟨front, spoiler, back, whole, -⟩
  simp at whole

/-- The last outcome decides, or else those before it do. -/
theorem lost_concat : outcome.Lost (later ++ [last]) ↔
    last.Scratches outcome ∨ outcome.Lost later ∧ ¬ last.Shares outcome := by
  constructor
  · rintro ⟨front, spoiler, back, whole, scratches, unshared⟩
    rcases List.eq_nil_or_concat back with rfl | ⟨others, final, rfl⟩
    · have same := List.append_inj_right' whole rfl
      exact Or.inl (List.singleton_inj.mp same ▸ scratches)
    · rw [List.concat_eq_append] at whole unshared
      rw [← List.cons_append, ← List.append_assoc] at whole
      obtain ⟨rfl, same⟩ := List.append_inj' whole rfl
      obtain rfl := List.singleton_inj.mp same
      refine Or.inr ⟨⟨front, spoiler, others, rfl, scratches, fun other member => ?_⟩, ?_⟩
      · exact unshared other (List.mem_append_left _ member)
      · exact unshared last (List.mem_append_right _ (List.mem_singleton_self _))
  · rintro (scratches | ⟨⟨front, spoiler, back, rfl, scratches, unshared⟩, apart⟩)
    · exact ⟨later, last, [], rfl, scratches, fun other member => nomatch member⟩
    · refine ⟨front, spoiler, back ++ [last], by simp, scratches, fun other member => ?_⟩
      rcases List.mem_append.mp member with inBack | isLast
      · exact unshared other inBack
      · exact List.mem_singleton.mp isLast ▸ apart

end Outcome

/-- A regular file stands at the place, and it is no older than `source`. -/
def FileTree.Stands (tree : FileTree) (place : Location) (source : File) : Prop :=
  ∃ file, tree.file? place = some file ∧ source.modified.notAfter file.modified = true

namespace Session

variable {State : Type} {session : Session State} {script : Script} {machine last : Machine State}
  {visit other : Visit State} {origin output : Location} {start tree : FileTree}
  {front back : List Text} {name final : Name}

/-- The output of a completed file is there, and no older than its source. -/
def Intact (session : Session State) (tree : FileTree) (completion : Completion) : Prop :=
  ∃ source file, tree.fileAt? (session.sourceOf completion.relative) = some source ∧
    tree.fileAt? (session.layout.outputRoot.join completion.output) = some file ∧
    source.modified.notAfter file.modified = true

/-! ### What one visit does to the output of another -/

theorem shares_iff (accomplished : session.Accomplished origin output start visit front name)
    (next : session.Accomplished origin output start other back final) :
    (session.outcomeOf other).Shares (session.outcomeOf visit) ↔
      (outputOf other.verb other.relative).moves = (outputOf visit.verb visit.relative).moves :=
  (next.listed.inner.output next.completed.named).components_eq_iff
    (accomplished.listed.inner.output accomplished.completed.named)

theorem scratches_iff (accomplished : session.Accomplished origin output start visit front name)
    (next : session.Accomplished origin output start other back final) :
    (session.outcomeOf other).Scratches (session.outcomeOf visit) ↔
      other.verb = .mp3ToOgg ∧
        session.decisionOf other.verb other.relative other.machine = .rebuild ∧
        (Toolbox.scratchOf (outputOf other.verb other.relative)).moves =
          (outputOf visit.verb visit.relative).moves := by
  refine and_congr_right fun converts => and_congr_right fun _ => ?_
  have swaps : other.verb ≠ .copy := by
    have converts : other.verb = .mp3ToOgg := converts
    rw [converts]
    decide
  exact (next.listed.inner.wave swaps next.completed.named).components_eq_iff
    (accomplished.listed.inner.output accomplished.completed.named)

/-- An output that stands is still there when it is built again. -/
theorem stands_of_shares (accomplished : session.Accomplished origin output start visit front name)
    (next : session.Accomplished origin output start other back final) {source : File}
    (shares : (session.outcomeOf other).Shares (session.outcomeOf visit))
    (stands : other.machine.tree.Stands (output ++ (outputOf visit.verb visit.relative).moves)
      source) :
    (session.effectOf other).machine.tree.Stands
      (output ++ (outputOf visit.verb visit.relative).moves) source := by
  rw [shares_iff accomplished next] at shares
  rw [← shares] at stands ⊢
  obtain ⟨old, stood, fresh⟩ := stands
  obtain ⟨-, file, -, there, -, newer⟩ := next.completed.stands
  exact ⟨file, there, Instant.notAfter_trans fresh (newer old stood)⟩

/-- When both copy, they copy the same source, so the output stands whatever became of it. -/
theorem stands_of_copies (accomplished : session.Accomplished origin output start visit front name)
    (next : session.Accomplished origin output start other back final) {source : File}
    (found : start.file? (origin ++ visit.relative.moves) = some source)
    (shares : (session.outcomeOf other).Shares (session.outcomeOf visit))
    (copies : visit.verb = .copy ∧ other.verb = .copy) :
    (session.effectOf other).machine.tree.Stands
      (output ++ (outputOf visit.verb visit.relative).moves) source := by
  rw [shares_iff accomplished next] at shares
  obtain ⟨sourceFile, file, sourceFound, there, fresh, -⟩ := next.completed.stands
  have same : other.relative.moves = visit.relative.moves := by
    rw [copies.1, copies.2] at shares
    exact shares
  rw [same, next.upheld.file?_eq, found] at sourceFound
  obtain rfl := Option.some.inj sourceFound
  rw [← shares]
  exact ⟨file, there, fresh⟩

/-- An output that is the wave of another was copied. -/
theorem copies_of_scratches
    (accomplished : session.Accomplished origin output start visit front name)
    (next : session.Accomplished origin output start other back final)
    (scratches : (session.outcomeOf other).Scratches (session.outcomeOf visit)) :
    visit.verb = .copy := by
  obtain ⟨converts, -, same⟩ := (scratches_iff accomplished next).mp scratches
  have swaps : other.verb ≠ .copy := by
    rw [converts]
    decide
  exact next.listed.inner.eq_copy_of_moves_wave swaps next.completed.named accomplished.listed.inner
    same

/-- An output whose place is the wave of another is gone once that one is built. -/
theorem gone_of_scratches
    (accomplished : session.Accomplished origin output start visit front name)
    (next : session.Accomplished origin output start other back final)
    (scratches : (session.outcomeOf other).Scratches (session.outcomeOf visit)) :
    (session.effectOf other).machine.tree.file?
      (output ++ (outputOf visit.verb visit.relative).moves) = none := by
  obtain ⟨converts, rebuilt, same⟩ := (scratches_iff accomplished next).mp scratches
  rw [← same]
  exact next.completed.gone converts rebuilt

/-- Any other visit leaves the output alone. -/
theorem file?_eq_of_unrelated
    (accomplished : session.Accomplished origin output start visit front name)
    (next : session.Accomplished origin output start other back final)
    (unshared : ¬ (session.outcomeOf other).Shares (session.outcomeOf visit))
    (unscratched : ¬ (session.outcomeOf other).Scratches (session.outcomeOf visit)) :
    (session.effectOf other).machine.tree.file?
        (output ++ (outputOf visit.verb visit.relative).moves) =
      other.machine.tree.file? (output ++ (outputOf visit.verb visit.relative).moves) := by
  rw [shares_iff accomplished next] at unshared
  rw [scratches_iff accomplished next] at unscratched
  refine next.completed.others _ ?_ ?_
  · intro same
    exact unshared (List.append_cancel_left same).symm
  · rintro ⟨converts, rebuilt, same⟩
    exact unscratched ⟨converts, rebuilt, (List.append_cancel_left same).symm⟩

/-! ### What a run does to it -/

/-- After visits that follow, an output stands unless it is lost, and then there is no file. -/
theorem stands_or_lost (accomplished : session.Accomplished origin output start visit front name)
    {source : File} (found : start.file? (origin ++ visit.relative.moves) = some source)
    {later : List (Visit State)}
    (follows : session.Follows (session.effectOf visit).machine later last)
    (each : ∀ other ∈ later, ∃ front name,
      session.Accomplished origin output start other front name) :
    last.tree.Stands (output ++ (outputOf visit.verb visit.relative).moves) source ∧
        ¬ (session.outcomeOf visit).Lost (later.map session.outcomeOf) ∨
      last.tree.file? (output ++ (outputOf visit.verb visit.relative).moves) = none ∧
        (session.outcomeOf visit).Lost (later.map session.outcomeOf) := by
  induction later using List.reverseRecOn generalizing last with
  | nil =>
    obtain rfl := follows
    obtain ⟨sourceFile, file, sourceFound, there, fresh, -⟩ := accomplished.completed.stands
    rw [accomplished.upheld.file?_eq, found] at sourceFound
    obtain rfl := Option.some.inj sourceFound
    exact Or.inl ⟨⟨file, there, fresh⟩, Outcome.not_lost_nil⟩
  | append_singleton others next inductionHypothesis =>
    obtain ⟨middle, before, rfl, rfl⟩ := follows_append.mp follows
    have eachBefore : ∀ other ∈ others, ∃ front name,
        session.Accomplished origin output start other front name := fun other member =>
      each other (List.mem_append_left _ member)
    obtain ⟨back, final, last⟩ := each next (List.mem_append_right _ (List.mem_singleton_self _))
    rw [List.map_append, List.map_singleton, Outcome.lost_concat]
    by_cases scratches : (session.outcomeOf next).Scratches (session.outcomeOf visit)
    · exact Or.inr ⟨gone_of_scratches accomplished last scratches, Or.inl scratches⟩
    by_cases shares : (session.outcomeOf next).Shares (session.outcomeOf visit)
    · refine Or.inl ⟨?_, ?_⟩
      · rcases inductionHypothesis before eachBefore with ⟨stands, -⟩ | ⟨-, lost⟩
        · exact stands_of_shares accomplished last shares stands
        · -- What had it for its wave tells that it was copied, and so was what brings it back.
          obtain ⟨front, spoiler, rest, whole, spoils, -⟩ := lost
          obtain ⟨culprit, inOthers, rfl⟩ : ∃ culprit ∈ others,
            session.outcomeOf culprit = spoiler :=
            List.mem_map.mp (whole ▸ List.mem_append_right _ List.mem_cons_self)
          obtain ⟨_, _, done⟩ := eachBefore culprit inOthers
          have copied := copies_of_scratches accomplished done spoils
          have spoilsToo : (session.outcomeOf culprit).Scratches (session.outcomeOf next) :=
            ⟨spoils.1, spoils.2.1, spoils.2.2.trans shares.symm⟩
          have copiedToo := copies_of_scratches last done spoilsToo
          exact stands_of_copies accomplished last found shares ⟨copied, copiedToo⟩
      · rintro (again | ⟨-, unshared⟩)
        · exact scratches again
        · exact unshared shares
    · have unchanged := file?_eq_of_unrelated accomplished last shares scratches
      rcases inductionHypothesis before eachBefore with ⟨⟨file, there, fresh⟩, kept⟩ | ⟨gone, lost⟩
      · refine Or.inl ⟨⟨file, unchanged.trans there, fresh⟩, ?_⟩
        rintro (again | ⟨lost, -⟩)
        · exact scratches again
        · exact kept lost
      · exact Or.inr ⟨unchanged.trans gone, Or.inr ⟨lost, shares⟩⟩

/-- What a run without failures makes of the output of a visit. -/
theorem stands_or_lost_of_run
    (each : ∀ other ∈ session.visits script machine, ∃ front name,
      session.Accomplished origin output start other front name)
    {earlier later : List (Visit State)}
    (whole : session.visits script machine = earlier ++ visit :: later) :
    ∃ front name source, session.Accomplished origin output start visit front name ∧
      start.file? (origin ++ visit.relative.moves) = some source ∧
      ((session.run script machine).machine.tree.Stands
            (output ++ (outputOf visit.verb visit.relative).moves) source ∧
          ¬ (session.outcomeOf visit).Lost (later.map session.outcomeOf) ∨
        (session.run script machine).machine.tree.file?
            (output ++ (outputOf visit.verb visit.relative).moves) = none ∧
          (session.outcomeOf visit).Lost (later.map session.outcomeOf)) := by
  have follows := session.follows_visits script machine
  rw [whole] at each follows
  obtain ⟨middle, -, rfl, afterwards⟩ := follows_append.mp follows
  obtain ⟨front, name, accomplished⟩ := each visit (List.mem_append_right _ List.mem_cons_self)
  obtain ⟨source, found⟩ := Option.isSome_iff_exists.mp accomplished.there
  refine ⟨front, name, source, accomplished, found, ?_⟩
  refine stands_or_lost accomplished found afterwards fun other member => ?_
  exact each other (List.mem_append_right _ (List.mem_cons_of_mem _ member))

/-- At the end of a run a completed output is intact exactly when it stands at its place. -/
theorem intact_iff (accomplished : session.Accomplished origin output start visit front name)
    (upheld : session.Upheld origin output start tree) {source : File}
    (found : start.file? (origin ++ visit.relative.moves) = some source) :
    session.Intact tree (session.outcomeOf visit).completion ↔
      tree.Stands (output ++ (outputOf visit.verb visit.relative).moves) source := by
  have sources := fileAt?_sourceOf upheld.ready accomplished.listed
    accomplished.completed.sourceReaches
  have outputs := fileAt?_targetOf upheld.ready accomplished.listed accomplished.completed.named
    accomplished.completed.outputReaches
  rw [upheld.file?_eq, found] at sources
  constructor
  · rintro ⟨sourceFile, file, sourceFound, fileFound, fresh⟩
    obtain rfl := Option.some.inj (sources.symm.trans sourceFound)
    exact ⟨file, outputs.symm.trans fileFound, fresh⟩
  · rintro ⟨file, there, fresh⟩
    exact ⟨source, file, sources, outputs.trans there, fresh⟩

/-! ### A copy whose place is needed -/

/-- A wave and an mp3 file of the same name. -/
def waveAndMp3 : Machine Unit where
  tree := {
    nodes := [
      ([['s', 'r', 'c'], ['a', '.', 'w', 'a', 'v']], .file ⟨[119], ⟨1000, 0⟩, .ordinary⟩),
      ([['s', 'r', 'c'], ['a', '.', 'm', 'p', '3']], .file ⟨[109], ⟨1000, 0⟩, .ordinary⟩),
      ([['s', 'r', 'c']], .directory),
      ([['o', 'u', 't']], .directory)]
    workingDirectory := []
    clock := ⟨2000, 0⟩ }
  runner := ()

/-- The tools write their output and end with exit code 0. -/
def delivering : Session Unit := .start .twoRoots (.writing [112] 0) waveAndMp3.tree

/-- Copies the wave, and then converts the mp3 file. -/
def copyAndConvert : Script := [
  ⟨1, ['c', 'o', 'p', 'y'], [['*', '.', 'w', 'a', 'v'], ['x']]⟩,
  ⟨2, ['m', 'p', '3', '-', 't', 'o', '-', 'o', 'g', 'g'], [['*', '.', 'm', 'p', '3'], ['y']]⟩]

/-- The wave, copied. -/
def copiedWave : Outcome where
  verb := .copy
  completion := ⟨⟨['a', '.', 'w', 'a', 'v']⟩, ⟨['a', '.', 'w', 'a', 'v']⟩, .rebuild⟩

/-- The mp3 file, converted. -/
def convertedMp3 : Outcome where
  verb := .mp3ToOgg
  completion := ⟨⟨['a', '.', 'm', 'p', '3']⟩, ⟨['a', '.', 'o', 'g', 'g']⟩, .rebuild⟩

/-! ### The end of a run -/

/-- After a run without failures the output of a completed file stands, no older than its source,
exactly when it was not lost to a wave. -/
theorem intact_iff_not_lost (confined : session.runner.Confined)
    (delivers : session.runner.Delivers) (laid : session.Laid machine.tree)
    (descends : script.Descends) (complete : (session.run script machine).value.failed = 0)
    {before after : List Outcome} {outcome : Outcome}
    (reported : (session.run script machine).value.outcomes = before ++ outcome :: after) :
    session.Intact (session.run script machine).machine.tree outcome.completion ↔
      ¬ outcome.Lost after := by
  obtain ⟨upheld, each⟩ :=
    accomplished_of_mem_visits confined delivers laid.apart laid.ready.upheld descends complete
  rw [outcomes_eq_map each] at reported
  obtain ⟨earlier, others, whole, -, rest⟩ := List.map_eq_append_iff.mp reported
  obtain ⟨visit, later, rfl, rfl, rfl⟩ := List.map_eq_cons_iff.mp rest
  obtain ⟨front, name, source, accomplished, found, stands | lost⟩ :=
    stands_or_lost_of_run each whole
  all_goals rw [intact_iff accomplished upheld found]
  · exact iff_of_true stands.1 stands.2
  · refine iff_of_false ?_ fun kept => kept lost.2
    rintro ⟨file, there, -⟩
    rw [lost.1] at there
    cases there

/-- Nothing fails, and yet the copied wave is not there in the end. -/
theorem copied_wave_is_lost :
    delivering.runner.Confined ∧ delivering.runner.Delivers ∧ delivering.Laid waveAndMp3.tree ∧
      copyAndConvert.Descends ∧ (delivering.run copyAndConvert waveAndMp3).value.failed = 0 ∧
      copiedWave ∈ (delivering.run copyAndConvert waveAndMp3).value.outcomes ∧
      (delivering.run copyAndConvert waveAndMp3).machine.tree.fileAt?
        (delivering.layout.outputRoot.join copiedWave.completion.output) = none :=
  ⟨Runner.confined_writing, Runner.delivers_writing, by decide +kernel⟩

theorem intact_iff_not_lost_copiedWave :
    (delivering.run copyAndConvert waveAndMp3).value.outcomes = [] ++ copiedWave :: [convertedMp3] ∧
      (delivering.Intact (delivering.run copyAndConvert waveAndMp3).machine.tree
          copiedWave.completion ↔ ¬ copiedWave.Lost [convertedMp3]) := by
  have reported : (delivering.run copyAndConvert waveAndMp3).value.outcomes =
      [] ++ copiedWave :: [convertedMp3] := by decide +kernel
  exact ⟨reported, intact_iff_not_lost Runner.confined_writing Runner.delivers_writing
    (by decide +kernel) (by decide +kernel) (by decide +kernel) reported⟩

end Session

end AssetPipeline
