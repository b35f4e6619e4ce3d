/-
This file is about paths that are written differently and make the same moves. A separator too many
or a `.` at the end makes no difference to where a path leads, but it does to how long the path is,
and so do the paths of all entries that are found below it. The directory part of a pattern is such
a twin of the path that the pattern was joined to: idle steps at its end are gone.
-/

import AssetPipeline.Proofs.FileTree.Listing

namespace AssetPipeline.Path

/-! ### Characters of a path -/

/-- A character other than a separator is in one of the pieces. -/
theorem mem_joinWith_iff {separator character : Char} (differs : character ≠ separator)
    {pieces : List Text} :
    character ∈ Text.joinWith separator pieces ↔ ∃ piece ∈ pieces, character ∈ piece := by
  induction pieces with
  | nil => simp [Text.joinWith]
  | cons piece rest inductionHypothesis =>
    by_cases last : rest = []
    · subst last
      simp [Text.joinWith]
    · rw [Text.joinWith_cons last, List.mem_append, List.mem_cons, inductionHypothesis]
      simp [differs]

/-- The moves of a path hold every character that is not of the path's own making. -/
theorem mem_text_iff {path : Path} {character : Char} (slash : character ≠ separator)
    (dotted : character ≠ '.') :
    character ∈ path.text ↔ ∃ move ∈ path.moves, character ∈ move := by
  have whole : Text.joinWith separator path.steps = path.text := Text.joinWith_splitOn _ _
  rw [← whole, mem_joinWith_iff slash]
  constructor
  · rintro ⟨step, member, inside⟩
    refine ⟨step, List.mem_filter.mpr ⟨member, isMove_iff.mpr ⟨?_, ?_⟩⟩, inside⟩
    · rintro rfl
      cases inside
    · rintro rfl
      exact dotted (List.mem_singleton.mp inside)
  · rintro ⟨move, member, inside⟩
    exact ⟨move, (List.mem_filter.mp member).1, inside⟩

/-! ### Twins -/

/-- Two paths that make the same moves from the same place, the second no longer than the first. -/
structure Twins (long short : Path) : Prop where
  given : long.text ≠ []
  shortGiven : short.text ≠ []
  absolute : short.isAbsolute = long.isAbsolute
  moves : short.moves = long.moves
  shorter : Text.byteLength short.opened ≤ Text.byteLength long.opened

namespace Twins

variable {long short : Path} {name : Name}

theorem clean_iff (twins : Twins long short) :
    short.text.contains '\x00' = false ↔ long.text.contains '\x00' = false := by
  simp only [List.contains_eq_mem, decide_eq_false_iff_not]
  rw [mem_text_iff (by decide) (by decide), mem_text_iff (by decide) (by decide), twins.moves]

theorem opened_child {base : Path} (given : base.text ≠ []) (entry : IsEntry name) :
    (base.child name).opened = base.opened ++ name ++ [separator] := by
  have relative := isAbsolute_of_isEntry entry
  have text : (base.child name).text = base.opened ++ name := text_join given relative
  have ends : (base.opened ++ name).getLast? ≠ some separator := by
    intro last
    rw [List.getLast?_append_of_ne_nil _ entry.ne_nil] at last
    exact entry.free (List.mem_of_getLast? last)
  unfold opened
  rw [text, if_neg ends]
  rfl

/-- The paths of one entry are twins again. -/
theorem child (twins : Twins long short) (entry : IsEntry name) :
    Twins (long.child name) (short.child name) where
  given := text_child_ne_nil twins.given entry
  shortGiven := text_child_ne_nil twins.shortGiven entry
  absolute := by
    have relative := isAbsolute_of_isEntry entry
    unfold Path.child
    rw [isAbsolute_join twins.given relative, isAbsolute_join twins.shortGiven relative,
      twins.absolute]
  moves := by
    have relative := isAbsolute_of_isEntry entry
    unfold Path.child
    rw [moves_join twins.given relative, moves_join twins.shortGiven relative, twins.moves]
  shorter := by
    rw [opened_child twins.given entry, opened_child twins.shortGiven entry,
      Text.byteLength_append, Text.byteLength_append, Text.byteLength_append,
      Text.byteLength_append]
    exact Nat.add_le_add_right (Nat.add_le_add_right twins.shorter _) _

theorem byteLength_child_le (twins : Twins long short) (entry : IsEntry name) :
    Text.byteLength (short.child name).text ≤ Text.byteLength (long.child name).text := by
  have relative := isAbsolute_of_isEntry entry
  unfold Path.child
  rw [text_join twins.given relative, text_join twins.shortGiven relative, Text.byteLength_append,
    Text.byteLength_append]
  exact Nat.add_le_add_right twins.shorter _

/-- What the system takes it takes in a shorter spelling. -/
theorem usable (twins : Twins long short)
    (shorter : Text.byteLength short.text ≤ Text.byteLength long.text) (usable : long.Usable) :
    short.Usable :=
  ⟨twins.clean_iff.mpr usable.clean, twins.shortGiven, Nat.lt_of_le_of_lt shorter usable.short⟩

/-- What the system takes it takes in another spelling too, unless that is too long. -/
theorem usable_or_tooLong (twins : Twins long short) (usable : short.Usable) :
    long.Usable ∨ long.text.contains '\x00' = false ∧
      FileTree.pathLimit ≤ Text.byteLength long.text := by
  have clean := twins.clean_iff.mp usable.clean
  rcases Nat.lt_or_ge (Text.byteLength long.text) FileTree.pathLimit with fits | tooLong
  · exact Or.inl ⟨clean, twins.given, fits⟩
  · exact Or.inr ⟨clean, tooLong⟩

end Twins

/-! ### The directory part of a joined path -/

/-- A path without idle steps at its end, beside one that may have some. -/
structure Trimmed (long short : Path) : Prop extends Twins long short where
  part : short.text <+: long.text
  components : short.components = long.components
  ends : short.moves = [] ∨ ∃ front last, short.steps = front ++ [last] ∧ isMove last = true

/-- A path put together from the beginning of a path's segments has its lead. -/
theorem lead_ofSegments {path : Path} {kept : List Text} (given : path.text ≠ [])
    (part : kept <+: path.segments) : (ofSegments path.lead kept).lead = path.lead := by
  have fits := path.leadFits.of_isPrefix part
  rcases fits with none | root | ⟨here, first⟩
  · obtain ⟨move, rest, segments, moves⟩ := segments_of_lead_nil given none
    rw [none]
    cases kept with
    | nil => rfl
    | cons head tail =>
      have free : ∀ segment ∈ head :: tail, separator ∉ segment := fun segment member =>
        separator_not_mem_of_mem_segments (part.subset member)
      rw [segments] at part
      obtain ⟨rfl, -⟩ := List.cons_prefix_cons.mp part
      have cut : (ofSegments [] (head :: tail)).steps = head :: tail :=
        Text.splitOn_joinWith (List.cons_ne_nil _ _) free
      refine (lead_eq_nil_iff fun empty => ?_).mpr ⟨head, tail, cut, moves⟩
      unfold steps at cut
      rw [empty] at cut
      obtain ⟨rfl, -⟩ : [] = head ∧ [] = tail := List.cons.inj cut
      cases moves
  · rw [root]
    rfl
  · rw [here]
    rcases first with rfl | first
    · rfl
    · cases kept with
      | nil => rfl
      | cons head tail =>
        obtain rfl : head = [] := by simpa using first
        cases tail with
        | nil => rfl
        | cons next others => rfl

theorem byteLength_opened_le (path : Path) :
    Text.byteLength path.opened ≤ Text.byteLength (path.text ++ [separator]) := by
  unfold opened
  split
  · exact Text.byteLength_le_of_isPrefix (List.prefix_append _ _)
  · exact Nat.le_refl _

/-- A path does not get longer when the idle segments at its end are taken off, with or without a
separator behind them. -/
theorem trimmed_shorter {base : Path} {front : List Text}
    (opened : base.opened = base.lead ++ Text.joinWith separator (front ++ [[]])) :
    (ofSegments base.lead (trimIdle front)).text <+: base.text ∧
      Text.byteLength (ofSegments base.lead (trimIdle front)).opened ≤
        Text.byteLength base.opened := by
  obtain ⟨stem, closed, text⟩ := base.opened_eq
  by_cases none : front = []
  · -- The base is nothing but its lead.
    subst none
    have alone : base.text = base.lead := by
      refine (List.IsPrefix.eq_of_length_le base.lead_isPrefix ?_).symm
      have within := base.text_isPrefix_opened.length_le
      rwa [opened.trans (List.append_nil _)] at within
    have same : ofSegments base.lead (trimIdle []) = base :=
      congrArg Path.mk ((List.append_nil _).trans alone.symm)
    rw [same]
    exact ⟨List.prefix_rfl, Nat.le_refl _⟩
  · rw [Text.joinWith_append none (List.cons_ne_nil _ _), ← List.append_assoc] at opened
    have whole : stem = base.lead ++ Text.joinWith separator front :=
      List.append_inj_left' (closed.symm.trans opened) rfl
    have part : (ofSegments base.lead (trimIdle front)).text <+: stem := by
      rw [whole]
      exact (List.prefix_append_right_inj _).mpr
        (Text.joinWith_isPrefix (trimIdle_isPrefix front))
    constructor
    · rcases text with text | text
      · exact text ▸ part
      · exact text ▸ part.trans (List.prefix_append _ _)
    · rw [closed]
      refine Nat.le_trans (byteLength_opened_le _) ?_
      rw [Text.byteLength_append, Text.byteLength_append]
      exact Nat.add_le_add_right (Text.byteLength_le_of_isPrefix part) _

theorem parent?_of_namedSegments {path : Path} {front : List Text} {last : Text}
    (named : path.namedSegments = front ++ [last]) :
    path.parent? = some (ofSegments path.lead (trimIdle front)) := by
  unfold parent?
  rw [named]
  cases front with
  | nil => rfl
  | cons head tail =>
    rw [List.cons_append]
    dsimp only
    rw [← List.cons_append, List.dropLast_concat]

/-- The directory part of an entry's path is a twin of the path that the entry was joined to: idle
steps at its end are gone. -/
theorem parent?_child {base : Path} {name : Name} (given : base.text ≠ []) (entry : IsEntry name) :
    ∃ parent, (base.child name).parent? = some parent ∧ Trimmed base parent := by
  have relative := isAbsolute_of_isEntry entry
  obtain ⟨front, segments, idle, texts⟩ := segments_join given relative
  rw [steps_of_isEntry entry] at segments
  have lead : (base.child name).lead = base.lead := lead_join given relative
  have named : (base.child name).namedSegments = front ++ [name] := by
    unfold namedSegments child
    rw [segments, trimIdle_of_isMove entry.move]
  have above : (base.child name).parent? = some (ofSegments base.lead (trimIdle front)) := by
    rw [parent?_of_namedSegments named, lead]
  have part : trimIdle front <+: (base.child name).segments :=
    (trimIdle_isPrefix front).trans (segments ▸ List.prefix_append _ _)
  have moves : (ofSegments base.lead (trimIdle front)).moves = base.moves := by
    rw [← lead, moves_ofSegments_isPrefix part, filter_trimIdle, idle]
  have leads : (ofSegments base.lead (trimIdle front)).lead = base.lead := by
    rw [← lead, lead_ofSegments (text_child_ne_nil given entry) part]
  have written : (ofSegments base.lead (trimIdle front)).text ≠ [] := by
    intro empty
    have none : base.lead = [] := (List.append_eq_nil_iff.mp empty).1
    obtain ⟨move, rest, steps, isMove⟩ := (lead_eq_nil_iff given).mp none
    have some : base.moves ≠ [] := by
      unfold Path.moves
      rw [steps, List.filter_cons_of_pos isMove]
      exact List.cons_ne_nil _ _
    refine some (moves.symm.trans ?_)
    unfold Path.moves Path.steps
    rw [empty]
    rfl
  have opened : base.opened = base.lead ++ Text.joinWith separator (front ++ [[]]) := by
    have text := texts [[]] (List.cons_ne_nil _ _)
    exact (text.trans (List.append_nil _)).symm
  obtain ⟨prefixed, shorter⟩ := trimmed_shorter opened
  have absolute := isAbsolute_of_isPrefix prefixed written
  have components : (ofSegments base.lead (trimIdle front)).components = base.components := by
    rw [components_eq, components_eq, moves]
    unfold leadComponents
    rw [leads, absolute]
  exact ⟨_, above, ⟨given, written, absolute, moves, shorter⟩, prefixed, components,
    ends_of_parent? above⟩

/-- An entry's own path is the directory part of what is joined to it. -/
theorem parent?_child_child {base : Path} {name last : Name} (given : base.text ≠ [])
    (entry : IsEntry name) (lastEntry : IsEntry last) :
    ((base.child name).child last).parent? = some (base.child name) := by
  have solid : Solid [name, last] := .of_isEntry fun segment member => by
    rcases List.mem_cons.mp member with rfl | member
    · exact entry
    · exact List.mem_singleton.mp member ▸ lastEntry
  have whole : (base.child name).child last = base.join (ofSegments [] [name, last]) :=
    foldl_child given solid (List.cons_ne_nil _ _)
  obtain ⟨front, segments, -, texts⟩ := segments_join given solid.isAbsolute
  rw [solid.steps (List.cons_ne_nil _ _)] at segments
  have named : (base.join (ofSegments [] [name, last])).namedSegments =
      (front ++ [name]) ++ [last] := by
    unfold namedSegments
    rw [segments, List.append_cons, trimIdle_of_isMove lastEntry.move]
  have text : (ofSegments base.lead (front ++ [name])).text = (base.child name).text :=
    (texts [name] (List.cons_ne_nil _ _)).trans
      (text_join given (isAbsolute_of_isEntry entry)).symm
  rw [whole, parent?_of_namedSegments named, lead_join given solid.isAbsolute,
    trimIdle_of_isMove entry.move]
  exact congrArg (fun text => some (Path.mk text)) text

end AssetPipeline.Path
