/-
This file says what becomes of the sources of a batch, in a tree that may hold links. A target is
written wherever its path leads, also over a file that is a source itself: over one that is still to
be read, or through a link over the very file that is being encoded. So a batch that succeeds has
kept its sources and encoded them as they were exactly when they were there before it, and no target
led to a file for which something else was meant. What a place is meant to hold is fixed from the
beginning, so one step that keeps all sources as they were leads to the next.
-/

import AssetPipeline.Proofs.Encoding.Steps

namespace AssetPipeline.Encoding

open FileTree (Sound Refiled Rewritten)

variable {key : Key} {tree later : FileTree} {sources written : List Path}

/-! ### What a batch leaves alone -/

/-- The bytes of the regular file at a place. -/
def contentAt? (tree : FileTree) (place : Location) : Option Bytes :=
  (tree.file? place).map File.content

theorem Encodes.sound (encodes : Encodes key tree sources later) (sound : Sound tree) :
    Sound later ∧ Refiled tree later fun place =>
      ∃ source ∈ sources, later.locate (markedPath source) = .ok place := by
  induction encodes with
  | nil tree => exact ⟨sound, .refl tree _⟩
  | @cons tree between later source rest count first others inductionHypothesis =>
    obtain ⟨origin, landing, -, file, -, -, one⟩ := encoded_of_encodeInto sound first
    obtain ⟨soundLater, more⟩ := inductionHypothesis one.sound
    have leads := more.locate one.sound soundLater one.leads
    refine ⟨soundLater, (one.refiled.mono ?_).trans (more.mono ?_)⟩
    · rintro place rfl
      exact ⟨source, List.mem_cons_self, leads⟩
    · rintro place ⟨other, member, there⟩
      exact ⟨other, List.mem_cons_of_mem _ member, there⟩

/-! ### What is meant for each place -/

/-- What sources hold does not conflict with what their targets are meant to hold. -/
structure Agrees (key : Key) (later : FileTree) (sources : List Path) (held : Path → Bytes) :
    Prop where
  /-- A target that leads to a source is meant to hold what that source holds. -/
  onto : ∀ source ∈ sources, ∀ other ∈ sources,
    later.locate (markedPath other) = later.locate source → held source = key.mask (held other)
  /-- A source that its own target leads to holds nothing. -/
  selves : ∀ source ∈ sources, later.locate (markedPath source) = later.locate source →
    held source = []
  /-- Targets that lead to one place are meant to hold the same. -/
  together : ∀ source ∈ sources, ∀ other ∈ sources,
    later.locate (markedPath source) = later.locate (markedPath other) → held source = held other

/-- Each source holds what it is meant to, at the place where it is at the end. -/
def Holds (tree later : FileTree) (sources : List Path) (held : Path → Bytes) : Prop :=
  ∀ source ∈ sources, ∃ origin, later.locate source = .ok origin ∧
    contentAt? tree origin = some (held source)

/-- One source encoded, with all sources as they are meant to be: its target gets what is meant for
it, and so a place that is meant to keep what it holds keeps it. -/
theorem keeps_of_encodeInto {between : FileTree} {held : Path → Bytes} {source : Path} {count : Nat}
    (sound : Sound tree) (agrees : Agrees key later sources held) (member : source ∈ sources)
    (holds : Holds tree later sources held)
    (forward : ∀ path place, tree.locate path = .ok place → later.locate path = .ok place)
    (onwards : ∀ path place, between.locate path = .ok place → later.locate path = .ok place)
    (encoded : encodeInto tree source (markedPath source) key = (between, .ok count)) :
    (∃ landing, later.locate (markedPath source) = .ok landing ∧
        contentAt? between landing = some (key.mask (held source))) ∧
      ∀ place content, contentAt? tree place = some content →
        (later.locate (markedPath source) = .ok place → key.mask (held source) = content) →
          contentAt? between place = some content := by
  obtain ⟨origin, landing, located, file, there, -, rewritten⟩ :=
    encoded_of_encodeInto sound encoded
  obtain ⟨place, leads, holding⟩ := holds source member
  obtain rfl : place = origin := Except.ok.inj (leads.symm.trans (forward _ _ located))
  have content : file.content = held source := by
    unfold contentAt? at holding
    rw [there] at holding
    exact Option.some.inj holding
  have target := onwards _ _ rewritten.leads
  have read : (if place = landing then [] else file.content) = held source := by
    split
    · next same =>
      subst same
      exact (agrees.selves source member (target.trans leads.symm)).symm
    · exact content
  rw [read] at rewritten
  have lands : contentAt? between landing = some (key.mask (held source)) := by
    obtain ⟨coded, found, same, -⟩ := rewritten.file
    unfold contentAt?
    rw [found]
    exact congrArg some same
  refine ⟨⟨landing, target, lands⟩, fun other before stays meant => ?_⟩
  by_cases same : other = landing
  · subst same
    rw [lands, meant target]
  · unfold contentAt? at stays ⊢
    rwa [FileTree.file?_congr (rewritten.refiled.elsewhere same)]

/-- All of the sources encoded one after the other, as they are meant to be at the beginning. -/
theorem keeps_of_encodes {rest : List Path} {held : Path → Bytes}
    (encodes : Encodes key tree rest later) (sound : Sound tree)
    (agrees : Agrees key later sources held) (within : ∀ source ∈ rest, source ∈ sources)
    (holds : Holds tree later sources held) :
    (∀ source ∈ rest, ∃ landing, later.locate (markedPath source) = .ok landing ∧
        contentAt? later landing = some (key.mask (held source))) ∧
      ∀ place content, contentAt? tree place = some content →
        (∀ source ∈ rest, later.locate (markedPath source) = .ok place →
          key.mask (held source) = content) → contentAt? later place = some content := by
  induction encodes with
  | nil tree => exact ⟨fun source member => (nomatch member), fun _ _ there _ => there⟩
  | @cons tree between later source rest count first others inductionHypothesis =>
    obtain ⟨soundLater, whole⟩ := (Encodes.cons first others).sound sound
    have soundBetween : Sound between := by
      obtain ⟨origin, landing, -, file, -, -, one⟩ := encoded_of_encodeInto sound first
      exact one.sound
    have more := (others.sound soundBetween).2
    have member := within source List.mem_cons_self
    obtain ⟨⟨landing, target, lands⟩, keeps⟩ := keeps_of_encodeInto sound agrees member holds
      (fun _ _ => whole.locate sound soundLater) (fun _ _ => more.locate soundBetween soundLater)
      first
    have holdsBetween : Holds between later sources held := by
      intro other inside
      obtain ⟨origin, leads, holding⟩ := holds other inside
      refine ⟨origin, leads, keeps origin _ holding fun same => ?_⟩
      exact (agrees.onto other inside source member (same.trans leads.symm)).symm
    obtain ⟨coded, keepsRest⟩ := inductionHypothesis soundBetween agrees
      (fun other inside => within other (List.mem_cons_of_mem _ inside)) holdsBetween
    refine ⟨fun other inside => ?_, fun place content there meant => ?_⟩
    · rcases List.mem_cons.mp inside with rfl | inRest
      · -- A later target that leads here too is meant to hold the same.
        refine ⟨landing, target, keepsRest landing _ lands fun again inRest same => ?_⟩
        rw [agrees.together again (within again (List.mem_cons_of_mem _ inRest)) other member
          (same.trans target.symm)]
      · exact coded other inRest
    · exact keepsRest place content
        (keeps place content there (meant source List.mem_cons_self))
        fun again inRest => meant again (List.mem_cons_of_mem _ inRest)

/-! ### Sources kept and encoded as they were -/

/-- Every source is the file it was before the batch, and its target holds the encoding of that. -/
structure Faithful (key : Key) (tree later : FileTree) (written : List Path) : Prop where
  kept : ∀ source, markedPath source ∈ written → ∃ file kept, tree.fileAt? source = some file ∧
    later.fileAt? source = some kept ∧ kept.content = file.content
  coded : ∀ source, markedPath source ∈ written → ∀ file, tree.fileAt? source = some file →
    ∃ coded, later.fileAt? (markedPath source) = some coded ∧
      coded.content = key.mask file.content

/-- Every source was there before the batch, and the places that targets lead to are not meant to
hold anything else: neither as sources nor as other targets. -/
structure Harmless (key : Key) (tree later : FileTree) (written : List Path) : Prop where
  stood : ∀ source, markedPath source ∈ written → ∃ file, tree.fileAt? source = some file
  onto : ∀ source other file otherFile, markedPath source ∈ written → markedPath other ∈ written →
    tree.fileAt? source = some file → tree.fileAt? other = some otherFile →
    later.locate (markedPath other) = later.locate source →
      file.content = key.mask otherFile.content
  together : ∀ source other file otherFile, markedPath source ∈ written →
    markedPath other ∈ written → tree.fileAt? source = some file →
    tree.fileAt? other = some otherFile →
    later.locate (markedPath source) = later.locate (markedPath other) →
      file.content = otherFile.content

theorem markedPath_injective : Function.Injective markedPath := fun first second same => by
  have texts : first.text ++ mark = second.text ++ mark := congrArg Path.text same
  exact congrArg Path.mk (List.append_cancel_right texts)

theorem mem_map_markedPath {source : Path} :
    markedPath source ∈ sources.map markedPath ↔ source ∈ sources :=
  List.mem_map_of_injective markedPath_injective

/-- The bytes of a source before the batch. -/
def heldBefore (tree : FileTree) (source : Path) : Bytes :=
  ((tree.fileAt? source).map File.content).getD []

theorem heldBefore_eq {source : Path} {file : File} (there : tree.fileAt? source = some file) :
    heldBefore tree source = file.content := by
  unfold heldBefore
  rw [there]
  rfl

/-- What is faithful is harmless. -/
theorem Faithful.harmless (faithful : Faithful key tree later written) :
    Harmless key tree later written where
  stood source member := by
    obtain ⟨file, -, there, -⟩ := faithful.kept source member
    exact ⟨file, there⟩
  onto source other file otherFile member otherMember there otherThere same := by
    obtain ⟨before, kept, found, leads, keeps⟩ := faithful.kept source member
    obtain ⟨coded, lands, codes⟩ := faithful.coded other otherMember otherFile otherThere
    obtain rfl := Option.some.inj (there.symm.trans found)
    obtain ⟨place, located, holds⟩ := FileTree.fileAt?_eq_some_iff_locate.mp leads
    obtain ⟨landing, locatedTarget, holdsTarget⟩ := FileTree.fileAt?_eq_some_iff_locate.mp lands
    obtain rfl : landing = place :=
      Except.ok.inj (locatedTarget.symm.trans (same.trans located))
    obtain rfl := Option.some.inj (holds.symm.trans holdsTarget)
    rw [← keeps, codes]
  together source other file otherFile member otherMember there otherThere same := by
    obtain ⟨coded, lands, codes⟩ := faithful.coded source member file there
    obtain ⟨otherCoded, otherLands, otherCodes⟩ :=
      faithful.coded other otherMember otherFile otherThere
    obtain ⟨place, located, holds⟩ := FileTree.fileAt?_eq_some_iff_locate.mp lands
    obtain ⟨otherPlace, otherLocated, otherHolds⟩ :=
      FileTree.fileAt?_eq_some_iff_locate.mp otherLands
    obtain rfl : place = otherPlace := Except.ok.inj (located.symm.trans (same.trans otherLocated))
    obtain rfl := Option.some.inj (holds.symm.trans otherHolds)
    exact key.mask_injective (codes.symm.trans otherCodes)

/-- Where encoding is harmless, what the sources held before agrees with what is written, unless a
target leads back to its own source and the key leaves the first byte as it is. -/
theorem Harmless.agrees (harmless : Harmless key tree later (sources.map markedPath))
    (changes : key.byteAt 0 ≠ 0 ∨
      ∀ source ∈ sources, later.locate (markedPath source) ≠ later.locate source) :
    Agrees key later sources (heldBefore tree) := by
  have inside : ∀ source ∈ sources, markedPath source ∈ sources.map markedPath :=
    fun source member => List.mem_map_of_mem member
  have onto : ∀ source ∈ sources, ∀ other ∈ sources,
      later.locate (markedPath other) = later.locate source →
        heldBefore tree source = key.mask (heldBefore tree other) := by
    intro source member other otherMember same
    obtain ⟨file, there⟩ := harmless.stood source (inside source member)
    obtain ⟨otherFile, otherThere⟩ := harmless.stood other (inside other otherMember)
    rw [heldBefore_eq there, heldBefore_eq otherThere]
    exact harmless.onto source other file otherFile (inside source member)
      (inside other otherMember) there otherThere same
  refine ⟨onto, fun source member same => ?_, fun source member other otherMember same => ?_⟩
  · rcases changes with first | apart
    · exact Key.eq_nil_of_mask_eq first (onto source member source member same).symm
    · exact absurd same (apart source member)
  · obtain ⟨file, there⟩ := harmless.stood source (inside source member)
    obtain ⟨otherFile, otherThere⟩ := harmless.stood other (inside other otherMember)
    rw [heldBefore_eq there, heldBefore_eq otherThere]
    exact harmless.together source other file otherFile (inside source member)
      (inside other otherMember) there otherThere same

/-- What is harmless is faithful, unless a target leads back to its own source and the key leaves
the first byte as it is. -/
theorem Harmless.faithful (encodes : Encodes key tree sources later) (sound : Sound tree)
    (changes : key.byteAt 0 ≠ 0 ∨
      ∀ source ∈ sources, later.locate (markedPath source) ≠ later.locate source)
    (harmless : Harmless key tree later (sources.map markedPath)) :
    Faithful key tree later (sources.map markedPath) := by
  obtain ⟨soundLater, refiled⟩ := encodes.sound sound
  have agrees := harmless.agrees changes
  have holds : Holds tree later sources (heldBefore tree) := by
    intro source member
    obtain ⟨file, there⟩ := harmless.stood source (List.mem_map_of_mem member)
    obtain ⟨origin, located, found⟩ := FileTree.fileAt?_eq_some_iff_locate.mp there
    refine ⟨origin, refiled.locate sound soundLater located, ?_⟩
    unfold contentAt?
    rw [found, heldBefore_eq there]
    rfl
  obtain ⟨coded, keeps⟩ := keeps_of_encodes encodes sound agrees (fun _ => id) holds
  constructor
  · intro source marked
    have member := mem_map_markedPath.mp marked
    obtain ⟨file, there⟩ := harmless.stood source marked
    obtain ⟨origin, located, holding⟩ := holds source member
    have stays := keeps origin _ holding fun other otherMember same =>
      (agrees.onto source member other otherMember (same.trans located.symm)).symm
    obtain ⟨kept, found, same⟩ := Option.map_eq_some_iff.mp stays
    exact ⟨file, kept, there, FileTree.fileAt?_eq_some_iff_locate.mpr ⟨origin, located, found⟩,
      same.trans (heldBefore_eq there)⟩
  · intro source marked file there
    obtain ⟨landing, located, lands⟩ := coded source (mem_map_markedPath.mp marked)
    obtain ⟨copy, found, same⟩ := Option.map_eq_some_iff.mp lands
    rw [heldBefore_eq there] at same
    exact ⟨copy, FileTree.fileAt?_eq_some_iff_locate.mpr ⟨landing, located, found⟩, same⟩

/-- A batch that succeeds has kept every source as it was before the batch, and written its encoding
to its target, exactly when every source was there before the batch and no target led to a place
that is meant to hold something else. That is so for every key that changes the first byte, and for
all keys as long as no target leads back to its own source. -/
theorem faithful_iff_harmless {patterns : List Path} (sound : Sound tree)
    (ended : (encodeBatch key patterns tree).result = .ok written)
    (changes : key.byteAt 0 ≠ 0 ∨ ∀ source, markedPath source ∈ written →
      (encodeBatch key patterns tree).tree.locate (markedPath source) ≠
        (encodeBatch key patterns tree).tree.locate source) :
    Faithful key tree (encodeBatch key patterns tree).tree written ↔
      Harmless key tree (encodeBatch key patterns tree).tree written := by
  rcases encodeBatch_cases key patterns tree with
    ⟨sources, done, batch⟩ | ⟨-, -, -, -, -, error, -, -, failed, -⟩
  · obtain rfl := Except.ok.inj (ended.symm.trans done)
    refine ⟨Faithful.harmless, Harmless.faithful batch.encodes sound (changes.imp_right ?_)⟩
    exact fun apart source member => apart source (List.mem_map_of_mem member)
  · rw [failed] at ended
    cases ended

/-- A file, and a link to it that has the name of its encoded copy. -/
def linkedCopy : FileTree where
  nodes := [
    ([['s']], .file ⟨[104, 105], ⟨1000, 0⟩, .ordinary⟩),
    ([['s', 'x']], .link ⟨['s']⟩)]
  workingDirectory := []
  clock := ⟨2000, 0⟩

/-- The path by which the file is found. -/
def linkedSource : Path := ⟨['.', '/', 's']⟩

/-- Encoding succeeds, and yet the source is empty in the end. -/
theorem linked_source_is_emptied :
    Sound linkedCopy ∧
      (encodeBatch .standard [⟨['s']⟩] linkedCopy).result = .ok [markedPath linkedSource] ∧
      ¬ Faithful .standard linkedCopy (encodeBatch .standard [⟨['s']⟩] linkedCopy).tree
        [markedPath linkedSource] := by
  have before : linkedCopy.fileAt? linkedSource = some ⟨[104, 105], ⟨1000, 0⟩, .ordinary⟩ := by
    decide +kernel
  have after : (encodeBatch .standard [⟨['s']⟩] linkedCopy).tree.fileAt? linkedSource =
      some ⟨[], ⟨2000, 0⟩, .ordinary⟩ := by decide +kernel
  refine ⟨by decide +kernel, by decide +kernel, fun faithful => ?_⟩
  obtain ⟨file, kept, was, now, same⟩ := faithful.kept linkedSource (List.mem_singleton_self _)
  obtain rfl := Option.some.inj (before.symm.trans was)
  obtain rfl := Option.some.inj (after.symm.trans now)
  cases same

theorem faithful_iff_harmless_linkedCopy :
    (Sound linkedCopy ∧ Key.standard.byteAt 0 ≠ 0) ∧
      (Faithful .standard linkedCopy (encodeBatch .standard [⟨['s']⟩] linkedCopy).tree
          [markedPath linkedSource] ↔
        Harmless .standard linkedCopy (encodeBatch .standard [⟨['s']⟩] linkedCopy).tree
          [markedPath linkedSource]) :=
  ⟨by decide +kernel, faithful_iff_harmless (by decide +kernel) (by decide +kernel)
    (Or.inl (by decide))⟩

end AssetPipeline.Encoding
