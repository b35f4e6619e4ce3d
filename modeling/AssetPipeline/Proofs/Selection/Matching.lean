/-
This file says which names a wildcard accepts: those that can be cut into pieces, one for each
character of the pattern. The match looks for such a cut from the left, and after a failure it goes
back to the last star alone. That is enough. A stretch of the pattern without a star takes as many
characters wherever it begins, so whatever an earlier star could still leave to the pattern behind
the last one, the last star can leave to it from where it stands. The match ends, because the last
star has less of the name left with each return to it, and never more with a new star.
-/

import AssetPipeline.Selection.Wildcard
import Mathlib.Data.List.Forall2

namespace AssetPipeline.Wildcard

/-! ### What a pattern covers -/

/-- The same character, or a capital and a small letter of ASCII. -/
def SameButCase (first second : Char) : Prop :=
  first = second ∨ (first.isUpper = true ∧ second.toNat = first.toNat + 32) ∨
    (second.isUpper = true ∧ first.toNat = second.toNat + 32)

/-- May a pattern character stand for a piece of a name? -/
def StandsFor (character : Char) (piece : Text) : Prop :=
  if character = '*' then True
  else if character = '?' then piece.length = 1
  else ∃ letter, piece = [letter] ∧ SameButCase character letter

/-- The name falls into pieces that the characters of the pattern stand for, one after the other. -/
def Covers (pattern name : Text) : Prop :=
  ∃ pieces : List Text, pieces.flatten = name ∧ List.Forall₂ StandsFor pattern pieces

theorem toNat_toLower (character : Char) : character.toLower.toNat =
    if character.isUpper = true then character.toNat + 32 else character.toNat := by
  unfold Char.toLower Char.isUpper
  simp only [decide_eq_true_eq]
  split
  · next upper =>
    obtain ⟨-, last⟩ := upper
    have small : character.val.toNat ≤ 90 := UInt32.le_iff_toNat_le.mp last
    show (character.val + 32).toNat = character.val.toNat + 32
    rw [UInt32.toNat_add]
    refine Nat.mod_eq_of_lt ?_
    show character.val.toNat + 32 < 2 ^ 32
    omega
  · rfl

theorem isUpper_iff (character : Char) :
    character.isUpper = true ↔ 65 ≤ character.toNat ∧ character.toNat ≤ 90 := by
  unfold Char.isUpper
  rw [decide_eq_true_eq]
  exact Iff.rfl

/-- Letters are compared by their small forms. -/
theorem sameLetter_iff {first second : Char} :
    sameLetter first second = true ↔ SameButCase first second := by
  unfold sameLetter SameButCase
  rw [beq_iff_eq, ← Char.toNat_inj, ← Char.toNat_inj, toNat_toLower, toNat_toLower]
  simp only [isUpper_iff]
  split <;> split <;> omega

theorem covers_nil {name : Text} : Covers [] name ↔ name = [] := by
  unfold Covers
  simp only [List.forall₂_nil_left_iff]
  constructor
  · rintro ⟨pieces, rfl, rfl⟩
    rfl
  · rintro rfl
    exact ⟨[], rfl, rfl⟩

theorem covers_cons {character : Char} {pattern name : Text} :
    Covers (character :: pattern) name ↔
      ∃ piece rest, name = piece ++ rest ∧ StandsFor character piece ∧ Covers pattern rest := by
  constructor
  · rintro ⟨pieces, rfl, matched⟩
    obtain ⟨piece, others, first, later, rfl⟩ := List.forall₂_cons_left_iff.mp matched
    exact ⟨piece, others.flatten, List.flatten_cons, first, others, rfl, later⟩
  · rintro ⟨piece, -, rfl, first, others, rfl, later⟩
    exact ⟨piece :: others, List.flatten_cons, .cons first later⟩

/-- A character other than a star takes one character. -/
theorem covers_cons_of_ne {character : Char} (letter : character ≠ '*') {pattern name : Text} :
    Covers (character :: pattern) name ↔
      ∃ head rest, name = head :: rest ∧ accepts character head = true ∧ Covers pattern rest := by
  have takes : ∀ piece, StandsFor character piece ↔
      ∃ head, piece = [head] ∧ accepts character head = true := by
    intro piece
    unfold StandsFor accepts
    rw [if_neg letter]
    simp only [Bool.or_eq_true, beq_iff_eq, sameLetter_iff]
    split
    · next any =>
      simp only [any, true_or, and_true]
      exact List.length_eq_one_iff
    · next other => simp only [other, false_or]
  rw [covers_cons]
  constructor
  · rintro ⟨piece, rest, rfl, stands, covered⟩
    obtain ⟨head, rfl, accepted⟩ := (takes piece).mp stands
    exact ⟨head, rest, rfl, accepted, covered⟩
  · rintro ⟨head, rest, rfl, accepted, covered⟩
    exact ⟨[head], rest, rfl, (takes _).mpr ⟨head, rfl, accepted⟩, covered⟩

/-- A star takes any piece. -/
theorem covers_star {pattern name : Text} :
    Covers ('*' :: pattern) name ↔ ∃ piece rest, name = piece ++ rest ∧ Covers pattern rest := by
  simp [covers_cons, StandsFor]

/-- A star takes nothing, or one character and then takes on. -/
theorem covers_star_cons {pattern rest : Text} {head : Char} :
    Covers ('*' :: pattern) (head :: rest) ↔
      Covers pattern (head :: rest) ∨ Covers ('*' :: pattern) rest := by
  simp only [covers_star]
  constructor
  · rintro ⟨piece, left, whole, covered⟩
    cases piece with
    | nil =>
      rw [List.nil_append] at whole
      exact Or.inl (whole ▸ covered)
    | cons first others =>
      exact Or.inr ⟨others, left, (List.cons.inj whole).2, covered⟩
  · rintro (covered | ⟨piece, left, rfl, covered⟩)
    · exact ⟨[], _, rfl, covered⟩
    · exact ⟨head :: piece, left, rfl, covered⟩

/-- Nothing is left for stars alone. -/
theorem covers_nothing {pattern : Text} :
    Covers pattern [] ↔ pattern.all (· == '*') = true := by
  induction pattern with
  | nil => simp [covers_nil]
  | cons character rest inductionHypothesis =>
    rw [List.all_cons, Bool.and_eq_true, beq_iff_eq]
    by_cases star : character = '*'
    · subst star
      rw [covers_star, ← inductionHypothesis]
      simp
    · rw [covers_cons_of_ne star]
      simp [star]

/-- A stretch without stars takes as many characters as it has, wherever it begins. -/
theorem covers_drop_of_starless {front pattern name : Text} (starless : '*' ∉ front)
    (covered : Covers (front ++ pattern) name) :
    front.length ≤ name.length ∧ Covers pattern (name.drop front.length) := by
  induction front generalizing name with
  | nil => exact ⟨Nat.zero_le _, covered⟩
  | cons character others inductionHypothesis =>
    rw [List.mem_cons, not_or] at starless
    obtain ⟨head, rest, rfl, -, later⟩ := (covers_cons_of_ne (Ne.symm starless.1)).mp covered
    obtain ⟨enough, further⟩ := inductionHypothesis starless.2 later
    exact ⟨Nat.succ_le_succ enough, further⟩

namespace Cursor

variable {cursor next : Cursor} {head : Char} {rest : Text} {answer : Bool}

/-! ### A run of the match -/

/-- The answer that the steps of a match come to in the end. -/
inductive Ends : Cursor → Bool → Prop where
  | usedUp {cursor : Cursor} (nothing : cursor.name = []) :
      Ends cursor (cursor.pattern.all (· == '*'))
  | failed {cursor : Cursor} {head : Char} {rest : Text} (more : cursor.name = head :: rest)
      (stuck : cursor.step? head rest = none) : Ends cursor false
  | onwards {cursor next : Cursor} {head : Char} {rest : Text} {answer : Bool}
      (more : cursor.name = head :: rest) (step : cursor.step? head rest = some next)
      (later : Ends next answer) : Ends cursor answer

/-- Since its last star, the match has taken one character for each character of the pattern. -/
def Sound (cursor : Cursor) : Prop :=
  ∀ retry, cursor.retry? = some retry → ∃ front taken : Text, '*' ∉ front ∧
    front.length = taken.length ∧ retry.pattern = front ++ cursor.pattern ∧
      retry.name = taken ++ cursor.name

/-- The last star can take a character more, and the pattern behind it covers what is then left. -/
def Reprieve (cursor : Cursor) : Prop :=
  ∃ retry, cursor.retry? = some retry ∧ ∃ head rest, retry.name = head :: rest ∧
    Covers ('*' :: retry.pattern) rest

/-- The match can still be found. -/
def Hopeful (cursor : Cursor) : Prop := Covers cursor.pattern cursor.name ∨ cursor.Reprieve

theorem step?_nil (nothing : cursor.pattern = []) : cursor.step? head rest = cursor.retreat? := by
  unfold step?
  rw [nothing]

theorem step?_cons {first : Char} {others : Text} (left : cursor.pattern = first :: others) :
    cursor.step? head rest =
      if first = '*' then some ⟨others, head :: rest, some ⟨others, head :: rest⟩⟩
      else if accepts first head then some ⟨others, rest, cursor.retry?⟩
      else cursor.retreat? := by
  unfold step?
  rw [left]

theorem run_nil {fuel : Nat} (nothing : cursor.name = []) :
    run (fuel + 1) cursor = cursor.pattern.all (· == '*') := by
  unfold run
  rw [nothing]

theorem run_cons {fuel : Nat} (more : cursor.name = head :: rest) :
    run (fuel + 1) cursor = (cursor.step? head rest).elim false (run fuel) := by
  unfold run
  rw [more]
  dsimp only
  cases cursor.step? head rest <;> rfl

/-- The courses of a step. A star is noted, a character is taken, or the last star takes one
character more. -/
theorem step?_cases (stepped : cursor.step? head rest = some next) :
    (∃ others, cursor.pattern = '*' :: others ∧
        next = ⟨others, head :: rest, some ⟨others, head :: rest⟩⟩) ∨
    (∃ first others, cursor.pattern = first :: others ∧ first ≠ '*' ∧
        accepts first head = true ∧ next = ⟨others, rest, cursor.retry?⟩) ∨
    ¬ Covers cursor.pattern (head :: rest) ∧ ∃ retry, cursor.retry? = some retry ∧
      next = ⟨retry.pattern, retry.name.drop 1, some ⟨retry.pattern, retry.name.drop 1⟩⟩ := by
  have retreated : cursor.retreat? = some next → ∃ retry, cursor.retry? = some retry ∧
      next = ⟨retry.pattern, retry.name.drop 1, some ⟨retry.pattern, retry.name.drop 1⟩⟩ := by
    unfold retreat?
    intro back
    split at back
    · cases back
    · next retry noted => exact ⟨retry, noted, (Option.some.inj back).symm⟩
  unfold step? at stepped
  split at stepped
  · next none =>
    refine Or.inr (Or.inr ⟨?_, retreated stepped⟩)
    rw [none, covers_nil]
    exact List.cons_ne_nil _ _
  next first others some =>
  split at stepped
  · next star => exact Or.inl ⟨others, star ▸ some, (Option.some.inj stepped).symm⟩
  next letter =>
  split at stepped
  · next accepted =>
    exact Or.inr (Or.inl ⟨first, others, some, letter, accepted, (Option.some.inj stepped).symm⟩)
  · next refused =>
    refine Or.inr (Or.inr ⟨?_, retreated stepped⟩)
    rw [some, covers_cons_of_ne letter]
    rintro ⟨character, left, same, accepted, -⟩
    obtain ⟨rfl, -⟩ := List.cons.inj same
    exact refused accepted

/-- A match that cannot go on finds nothing, and has no star to go back to. -/
theorem not_hopeful_of_step?_eq_none (more : cursor.name = head :: rest)
    (stuck : cursor.step? head rest = none) : ¬ cursor.Hopeful := by
  have starless : cursor.retreat? = none → cursor.retry? = none := by
    unfold retreat?
    intro back
    split at back
    · next none => exact none
    · cases back
  have unsaved : cursor.retry? = none → ¬ cursor.Reprieve := by
    rintro none ⟨retry, noted, -⟩
    rw [none] at noted
    cases noted
  unfold step? at stuck
  unfold Hopeful
  rw [more]
  split at stuck
  · next none =>
    rw [none, covers_nil]
    exact not_or.mpr ⟨List.cons_ne_nil _ _, unsaved (starless stuck)⟩
  next first others some =>
  split at stuck
  · cases stuck
  next letter =>
  split at stuck
  · cases stuck
  next refused =>
  rw [some, covers_cons_of_ne letter]
  refine not_or.mpr ⟨?_, unsaved (starless stuck)⟩
  rintro ⟨character, left, same, accepted, -⟩
  obtain ⟨rfl, -⟩ := List.cons.inj same
  exact refused accepted

/-! ### What a step preserves -/

theorem Sound.step (sound : cursor.Sound) (more : cursor.name = head :: rest)
    (stepped : cursor.step? head rest = some next) : next.Sound := by
  have fresh : ∀ pattern name : Text, Sound ⟨pattern, name, some ⟨pattern, name⟩⟩ := by
    rintro pattern name retry noted
    obtain rfl := Option.some.inj noted
    exact ⟨[], [], List.not_mem_nil, rfl, rfl, rfl⟩
  rcases step?_cases stepped with ⟨others, -, rfl⟩ |
    ⟨first, others, pattern, letter, -, rfl⟩ | ⟨-, retry, -, rfl⟩
  · exact fresh _ _
  · intro retry noted
    obtain ⟨front, taken, starless, level, begins, named⟩ := sound retry noted
    refine ⟨front ++ [first], taken ++ [head], ?_, by simp [level], ?_, ?_⟩
    · simpa [starless] using Ne.symm letter
    · rw [begins, pattern, List.append_assoc]
      rfl
    · rw [named, more, List.append_assoc]
      rfl
  · exact fresh _ _

/-- Once the last star covers what is left with the pattern behind it, no earlier star is needed:
the stretch between the two takes as many characters wherever it begins. -/
theorem covers_of_reprieve {others : Text} (sound : cursor.Sound)
    (star : cursor.pattern = '*' :: others) (saved : cursor.Reprieve) :
    Covers ('*' :: others) cursor.name := by
  obtain ⟨retry, noted, head, rest, named, covered⟩ := saved
  obtain ⟨front, taken, starless, level, begins, whole⟩ := sound retry noted
  obtain ⟨piece, left, cut, further⟩ := covers_star.mp covered
  rw [begins, star] at further
  obtain ⟨enough, covers⟩ := covers_drop_of_starless starless further
  obtain ⟨between, final, same, last⟩ := covers_star.mp covers
  -- What the last star leaves in the end is a tail of the name, at least as far back as where the
  -- match stands.
  have tail : final <:+ cursor.name := by
    have inLeft : final <:+ left.drop front.length := ⟨between, same.symm⟩
    have inWhole : left.drop front.length <:+ taken ++ cursor.name := by
      rw [← whole, named, cut]
      exact ((List.drop_suffix _ _).trans (List.suffix_append _ _)).trans (List.suffix_cons _ _)
    refine List.suffix_of_suffix_length_le (inLeft.trans inWhole) (List.suffix_append _ _) ?_
    have lengths := congrArg List.length (whole.symm.trans (named.trans (congrArg _ cut)))
    have short := inLeft.length_le
    simp only [List.length_append, List.length_cons, List.length_drop] at lengths short
    omega
  obtain ⟨more, joined⟩ := tail
  exact covers_star.mpr ⟨more, final, joined.symm, last⟩

/-- Right behind a star all is still to be had that the star can be followed by. -/
theorem hopeful_noted (pattern name : Text) :
    Hopeful ⟨pattern, name, some ⟨pattern, name⟩⟩ ↔ Covers ('*' :: pattern) name := by
  cases name with
  | nil =>
    rw [covers_star]
    refine ⟨fun hope => ?_, fun ⟨piece, rest, nothing, covered⟩ => Or.inl ?_⟩
    · rcases hope with covered | ⟨retry, noted, head, rest, named, -⟩
      · exact ⟨[], [], rfl, covered⟩
      · obtain rfl := Option.some.inj noted
        cases named
    · obtain ⟨-, rfl⟩ := List.append_eq_nil_iff.mp nothing.symm
      exact covered
  | cons head rest =>
    rw [covers_star_cons]
    refine or_congr Iff.rfl ⟨?_, fun covered => ⟨_, rfl, head, rest, rfl, covered⟩⟩
    rintro ⟨retry, noted, character, others, named, covered⟩
    obtain rfl := Option.some.inj noted
    obtain ⟨rfl, rfl⟩ := List.cons.inj named
    exact covered

theorem hopeful_step_iff (sound : cursor.Sound) (more : cursor.name = head :: rest)
    (stepped : cursor.step? head rest = some next) : next.Hopeful ↔ cursor.Hopeful := by
  rcases step?_cases stepped with ⟨others, star, rfl⟩ |
    ⟨first, others, pattern, letter, accepted, rfl⟩ | ⟨uncovered, retry, noted, rfl⟩
  · rw [hopeful_noted]
    unfold Hopeful
    rw [star, more]
    exact ⟨Or.inl, fun hope => hope.elim id fun saved =>
      more ▸ covers_of_reprieve sound star saved⟩
  · unfold Hopeful
    refine or_congr ?_ Iff.rfl
    rw [pattern, more, covers_cons_of_ne letter]
    constructor
    · exact fun covered => ⟨head, rest, rfl, accepted, covered⟩
    · rintro ⟨character, left, same, -, covered⟩
      obtain ⟨-, rfl⟩ := List.cons.inj same
      exact covered
  · rw [hopeful_noted]
    unfold Hopeful
    rw [more, or_iff_right uncovered]
    obtain ⟨front, taken, -, -, -, whole⟩ := sound retry noted
    cases named : retry.name with
    | nil =>
      rw [named, more] at whole
      simp at whole
    | cons character left =>
      refine ⟨fun covered => ⟨retry, noted, character, left, named, covered⟩, ?_⟩
      rintro ⟨other, same, first, others, split, covered⟩
      obtain rfl := Option.some.inj (noted.symm.trans same)
      obtain ⟨-, rfl⟩ := List.cons.inj (named.symm.trans split)
      exact covered

/-- The match answers whether it can still be found. -/
theorem Ends.answer_iff (ends : cursor.Ends answer) (sound : cursor.Sound) :
    answer = true ↔ cursor.Hopeful := by
  induction ends with
  | @usedUp cursor nothing =>
    unfold Hopeful
    rw [nothing, covers_nothing, or_iff_left]
    -- The star has nothing more to take: what it took since fills the pattern behind it.
    rintro ⟨retry, noted, head, rest, named, covered⟩
    obtain ⟨front, taken, starless, level, begins, whole⟩ := sound retry noted
    obtain ⟨piece, left, cut, further⟩ := covers_star.mp covered
    rw [begins] at further
    have enough := (covers_drop_of_starless starless further).1
    rw [named, cut, nothing, List.append_nil] at whole
    have lengths := congrArg List.length whole
    simp only [List.length_append, List.length_cons] at lengths
    omega
  | failed more stuck =>
    exact iff_of_false Bool.false_ne_true (not_hopeful_of_step?_eq_none more stuck)
  | onwards more step _ inductionHypothesis =>
    rw [inductionHypothesis (sound.step more step), hopeful_step_iff sound more step]

/-! ### The end of a match -/

/-- How much of the name the last star can still take. -/
def tries (limit : Nat) (cursor : Cursor) : Nat :=
  match cursor.retry? with
  | none => limit + 1
  | some retry => retry.name.length

/-- More than the steps a match can still take, for a pattern and a name of these lengths. -/
def weight (patternLimit nameLimit : Nat) (cursor : Cursor) : Nat :=
  cursor.tries nameLimit * (patternLimit + nameLimit + 1) + cursor.pattern.length +
    cursor.name.length

/-- The match stands in a pattern and a name of at most these lengths. -/
structure Within (patternLimit nameLimit : Nat) (cursor : Cursor) : Prop where
  pattern : cursor.pattern.length ≤ patternLimit
  name : cursor.name.length ≤ nameLimit
  retry : ∀ retry, cursor.retry? = some retry →
    retry.pattern.length ≤ patternLimit ∧ retry.name.length ≤ nameLimit

theorem Within.step {patternLimit nameLimit : Nat} (within : cursor.Within patternLimit nameLimit)
    (more : cursor.name = head :: rest) (stepped : cursor.step? head rest = some next) :
    next.Within patternLimit nameLimit := by
  obtain ⟨pattern, name, noted⟩ := within
  rw [more, List.length_cons] at name
  rcases step?_cases stepped with ⟨others, star, rfl⟩ | ⟨first, others, begins, -, -, rfl⟩ |
    ⟨-, retry, same, rfl⟩
  · rw [star, List.length_cons] at pattern
    refine ⟨Nat.le_of_succ_le pattern, name, fun retry same => ?_⟩
    obtain rfl := Option.some.inj same
    exact ⟨Nat.le_of_succ_le pattern, name⟩
  · rw [begins, List.length_cons] at pattern
    exact ⟨Nat.le_of_succ_le pattern, Nat.le_of_succ_le name, noted⟩
  · obtain ⟨short, left⟩ := noted retry same
    have fewer : (retry.name.drop 1).length ≤ nameLimit := by
      rw [List.length_drop]
      omega
    refine ⟨short, fewer, fun other repeated => ?_⟩
    obtain rfl := Option.some.inj repeated
    exact ⟨short, fewer⟩

/-- Every step brings the match nearer to its end. -/
theorem weight_step_lt {patternLimit nameLimit : Nat}
    (within : cursor.Within patternLimit nameLimit) (sound : cursor.Sound)
    (more : cursor.name = head :: rest) (stepped : cursor.step? head rest = some next) :
    next.weight patternLimit nameLimit < cursor.weight patternLimit nameLimit := by
  have behind : cursor.name.length ≤ cursor.tries nameLimit := by
    unfold tries
    split
    · exact Nat.le_succ_of_le within.name
    · next retry noted =>
      obtain ⟨front, taken, -, -, -, whole⟩ := sound retry noted
      rw [whole, List.length_append]
      exact Nat.le_add_left _ _
  have length := congrArg List.length more
  rw [List.length_cons] at length
  unfold weight
  rcases step?_cases stepped with ⟨others, star, rfl⟩ | ⟨first, others, begins, -, -, rfl⟩ |
    ⟨-, retry, noted, rfl⟩
  · have fewer : tries nameLimit ⟨others, head :: rest, some ⟨others, head :: rest⟩⟩ ≤
        cursor.tries nameLimit := by
      rw [more] at behind
      exact behind
    have product := Nat.mul_le_mul_right (patternLimit + nameLimit + 1) fewer
    simp only [star, more, List.length_cons]
    omega
  · have same : tries nameLimit ⟨others, rest, cursor.retry?⟩ = cursor.tries nameLimit := rfl
    simp only [same, begins, length, List.length_cons]
    omega
  · -- The star has one character less, which is worth more than all of pattern and name.
    obtain ⟨short, left⟩ := within.retry retry noted
    have held : cursor.tries nameLimit = retry.name.length := by
      unfold tries
      rw [noted]
    have fewer : tries nameLimit
        ⟨retry.pattern, retry.name.drop 1, some ⟨retry.pattern, retry.name.drop 1⟩⟩ + 1 =
          cursor.tries nameLimit := by
      rw [held]
      show (retry.name.drop 1).length + 1 = _
      rw [List.length_drop]
      omega
    rw [← fewer, Nat.add_one_mul]
    dsimp only
    rw [List.length_drop]
    omega

/-- With enough fuel, the run is the match. -/
theorem ends_run {patternLimit nameLimit fuel : Nat}
    (within : cursor.Within patternLimit nameLimit) (sound : cursor.Sound)
    (enough : cursor.weight patternLimit nameLimit < fuel) : cursor.Ends (run fuel cursor) := by
  induction fuel generalizing cursor with
  | zero => exact absurd enough (Nat.not_lt_zero _)
  | succ fuel inductionHypothesis =>
    unfold run
    split
    · next nothing => exact .usedUp nothing
    next head rest more =>
    split
    · next stuck => exact .failed more stuck
    next next step =>
    refine .onwards more step
      (inductionHypothesis (within.step more step) (sound.step more step) ?_)
    exact Nat.lt_of_lt_of_le (weight_step_lt within sound more step) (Nat.le_of_lt_succ enough)

theorem sound_start (pattern name : Text) : Sound ⟨pattern, name, none⟩ :=
  fun _ noted => nomatch noted

theorem within_start (pattern name : Text) :
    Within pattern.length name.length ⟨pattern, name, none⟩ :=
  ⟨Nat.le_refl _, Nat.le_refl _, fun _ noted => nomatch noted⟩

/-- A match is given enough fuel. -/
theorem weight_start_lt (pattern name : Text) :
    weight pattern.length name.length ⟨pattern, name, none⟩ < stepBound pattern name := by
  have product : stepBound pattern name = (name.length + 1) * (pattern.length + name.length + 1) +
      (name.length + 1) + (pattern.length + name.length + 2) := by
    show (name.length + 1 + 1) * (pattern.length + name.length + 1 + 1) = _
    rw [Nat.add_one_mul, Nat.mul_add_one]
  unfold weight
  rw [product]
  show (name.length + 1) * _ + pattern.length + name.length < _
  omega

end Cursor

/-- The match of a name against a pattern ends, and it accepts exactly the names that can be cut
into pieces for which the characters of the pattern stand. -/
theorem accept_iff_covers (pattern name : Text) :
    Cursor.Ends ⟨pattern, name, none⟩ (accept pattern name) ∧
      (accept pattern name = true ↔ Covers pattern name) := by
  have sound := Cursor.sound_start pattern name
  have ends : Cursor.Ends ⟨pattern, name, none⟩ (accept pattern name) :=
    Cursor.ends_run (Cursor.within_start pattern name) sound (Cursor.weight_start_lt pattern name)
  refine ⟨ends, (ends.answer_iff sound).trans (or_iff_left ?_)⟩
  rintro ⟨retry, noted, -⟩
  cases noted

/-- The last star goes on where it first took too little. -/
example : accept ['*', 'a', '*', 'b', 'C'] ['x', 'A', 'b', 'b', '*', 'b', 'c'] = true := by decide

end AssetPipeline.Wildcard
