/-
This file holds the laws of cutting and joining texts. Cutting a text that has a separator in the
middle cuts the two sides on their own, and pieces that hold no separator come back from the text
they are joined to. Joining fewer pieces gives a text the longer one begins with, so a shorter
path neither holds a character nor a byte that the longer one does not.
-/

import AssetPipeline.Text.Basic

namespace AssetPipeline.Text

/-! ### Cutting -/

/-- A separator in the middle of a text cuts it in two. -/
theorem splitWhere_append_cons {separates : Char → Bool} {separator : Char}
    (cuts : separates separator = true) (first second : Text) :
    splitWhere separates (first ++ separator :: second) =
      splitWhere separates first ++ splitWhere separates second := by
  induction first with
  | nil => simp [splitWhere, cuts]
  | cons head rest inductionHypothesis =>
    rw [List.cons_append, splitWhere, splitWhere, inductionHypothesis]
    have nonempty := splitWhere_ne_nil separates rest
    by_cases here : separates head = true
    · simp [here]
    · cases pieces : splitWhere separates rest with
      | nil => exact absurd pieces nonempty
      | cons piece more => simp [here]

theorem splitOn_append_cons (separator : Char) (first second : Text) :
    splitOn separator (first ++ separator :: second) =
      splitOn separator first ++ splitOn separator second :=
  @splitWhere_append_cons (· == separator) separator (beq_self_eq_true separator) first second

theorem splitOn_ne_nil (separator : Char) (text : Text) : splitOn separator text ≠ [] :=
  splitWhere_ne_nil _ _

/-- A text without separators is one piece. -/
theorem splitWhere_of_free {separates : Char → Bool} {text : Text}
    (free : ∀ character ∈ text, separates character = false) :
    splitWhere separates text = [text] := by
  induction text with
  | nil => rfl
  | cons head rest inductionHypothesis =>
    rw [splitWhere,
      inductionHypothesis fun character member => free character (List.mem_cons_of_mem _ member)]
    simp [free head List.mem_cons_self]

theorem splitOn_of_not_mem {separator : Char} {text : Text} (free : separator ∉ text) :
    splitOn separator text = [text] :=
  @splitWhere_of_free (· == separator) text fun _character member =>
    beq_eq_false_iff_ne.mpr fun same => free (same ▸ member)

/-- No piece holds the separator it was cut at. -/
theorem not_mem_of_mem_splitWhere {separates : Char → Bool} {text piece : Text}
    (member : piece ∈ splitWhere separates text) {character : Char} (inside : character ∈ piece) :
    separates character = false := by
  induction text generalizing piece with
  | nil => simp_all [splitWhere]
  | cons head rest inductionHypothesis =>
    rw [splitWhere] at member
    by_cases cut : separates head = true
    · rw [if_pos cut, List.mem_cons] at member
      rcases member with rfl | member
      · cases inside
      · exact inductionHypothesis member inside
    · rw [if_neg cut] at member
      cases pieces : splitWhere separates rest with
      | nil => exact absurd pieces (splitWhere_ne_nil separates rest)
      | cons next more =>
        rw [pieces] at member inductionHypothesis
        rcases List.mem_cons.mp member with rfl | later
        · rcases List.mem_cons.mp inside with rfl | inside
          · simpa using cut
          · exact inductionHypothesis List.mem_cons_self inside
        · exact inductionHypothesis (List.mem_cons_of_mem _ later) inside

theorem not_mem_of_mem_splitOn {separator : Char} {text piece : Text}
    (member : piece ∈ splitOn separator text) : separator ∉ piece := fun inside => by
  simpa using not_mem_of_mem_splitWhere member inside

/-! ### Joining -/

theorem joinWith_cons {separator : Char} {piece : Text} {rest : List Text} (more : rest ≠ []) :
    joinWith separator (piece :: rest) = piece ++ separator :: joinWith separator rest := by
  cases rest with
  | nil => exact absurd rfl more
  | cons next others => rfl

/-- Pieces without separators come back from the text they are joined to. -/
theorem splitWhere_joinWith {separates : Char → Bool} {separator : Char}
    (cuts : separates separator = true) {pieces : List Text} (nonempty : pieces ≠ [])
    (free : ∀ piece ∈ pieces, ∀ character ∈ piece, separates character = false) :
    splitWhere separates (joinWith separator pieces) = pieces := by
  induction pieces with
  | nil => exact absurd rfl nonempty
  | cons piece rest inductionHypothesis =>
    have pieceFree := free piece List.mem_cons_self
    by_cases last : rest = []
    · subst last
      exact splitWhere_of_free pieceFree
    · rw [joinWith_cons last, splitWhere_append_cons cuts, splitWhere_of_free pieceFree,
        inductionHypothesis last fun other member => free other (List.mem_cons_of_mem _ member)]
      rfl

theorem splitOn_joinWith {separator : Char} {pieces : List Text} (nonempty : pieces ≠ [])
    (free : ∀ piece ∈ pieces, separator ∉ piece) :
    splitOn separator (joinWith separator pieces) = pieces :=
  @splitWhere_joinWith (· == separator) separator (beq_self_eq_true separator) pieces nonempty
    fun piece member _character inside =>
      beq_eq_false_iff_ne.mpr fun same => free piece member (same ▸ inside)

theorem joinWith_append {separator : Char} {first second : List Text} (left : first ≠ [])
    (right : second ≠ []) : joinWith separator (first ++ second) =
      joinWith separator first ++ separator :: joinWith separator second := by
  induction first with
  | nil => exact absurd rfl left
  | cons piece rest inductionHypothesis =>
    by_cases last : rest = []
    · subst last
      exact joinWith_cons right
    · rw [List.cons_append, joinWith_cons (by simp [last]), joinWith_cons last,
        inductionHypothesis last, List.append_assoc, List.cons_append]

/-- Fewer pieces join to a beginning of the text. -/
theorem joinWith_isPrefix {separator : Char} {first second : List Text} (part : first <+: second) :
    joinWith separator first <+: joinWith separator second := by
  obtain ⟨rest, rfl⟩ := part
  by_cases left : first = []
  · subst left
    exact List.nil_prefix
  · by_cases right : rest = []
    · have same : first ++ rest = first := by rw [right, List.append_nil]
      exact same.symm ▸ List.prefix_rfl
    · rw [joinWith_append left right]
      exact List.prefix_append _ _

/-! ### Length -/

theorem byteLength_append (first second : Text) :
    byteLength (first ++ second) = byteLength first + byteLength second := by
  induction first with
  | nil => simp [byteLength]
  | cons head rest inductionHypothesis =>
    simp only [byteLength, List.cons_append, List.foldr_cons] at *
    omega

theorem byteLength_le_of_isPrefix {first second : Text} (part : first <+: second) :
    byteLength first ≤ byteLength second := by
  obtain ⟨rest, rfl⟩ := part
  rw [byteLength_append]
  exact Nat.le_add_right _ _

end AssetPipeline.Text
