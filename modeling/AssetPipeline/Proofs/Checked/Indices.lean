/-
This file matches names by indices, and resolves wildcards with that match. The match stands at two
indices, in the pattern and in the name, and remembers where it met the last star and which
character of the name it was at. Every character it looks at is there: the indices go back only to
places where the match has been, and never pass the end. So it answers as the match does that reads
both texts from the front.
-/

import AssetPipeline.Proofs.Checked.Offsets
import AssetPipeline.Proofs.Selection.Matching
import AssetPipeline.Proofs.Selection.Spelling

namespace AssetPipeline.Checked

open Wildcard (Cursor)

/-! ### Indices -/

/-- Where a match stands. -/
structure Indices where
  pattern : Nat
  name : Nat
  /-- The index of the last star, and that of the character of the name it was last tried at. -/
  star? : Option (Nat × Nat)

/-- Does a star stand at an index? Behind the pattern nothing is looked at. -/
def starAt (pattern : Text) (index : Nat) : Option Bool :=
  if index < pattern.length then do
    let character ← pattern[index]?
    some (character == '*')
  else some false

/-- Does the pattern accept the character of the name? Behind the pattern nothing is looked at, and
the name is looked at only when there is no question mark. -/
def acceptsAt (pattern name : Text) (index position : Nat) : Option Bool :=
  if index < pattern.length then do
    let character ← pattern[index]?
    if character == '?' then some true
    else do
      let head ← name[position]?
      some (Wildcard.sameLetter character head)
  else some false

/-- What is left of the pattern at an index, which may not be behind its end. -/
def patternFrom (pattern : Text) (index : Nat) : Option Text :=
  if index ≤ pattern.length then some (pattern.drop index) else none

/-- After the last star took one character more, if there was a star. -/
def Indices.retreat (indices : Indices) : Option Indices :=
  match indices.star? with
  | some (star, tried) => some ⟨star + 1, tried + 1, some (star, tried + 1)⟩
  | none => none

/-- One round of a match while there is more of the name: where it stands then, or nothing when it
has failed. -/
def round (pattern name : Text) (indices : Indices) : Option (Option Indices) := do
  if ← starAt pattern indices.pattern then
    some (some ⟨indices.pattern + 1, indices.name, some (indices.pattern, indices.name)⟩)
  else if ← acceptsAt pattern name indices.pattern indices.name then
    some (some ⟨indices.pattern + 1, indices.name + 1, indices.star?⟩)
  else some indices.retreat

/-- A match in so many rounds. -/
def matchFrom (pattern name : Text) : Nat → Indices → Option Bool
  | 0, _ => none
  | rounds + 1, indices =>
    if indices.name < name.length then do
      match ← round pattern name indices with
      | some next => matchFrom pattern name rounds next
      | none => some false
    else do
      let left ← patternFrom pattern indices.pattern
      some (left.all (· == '*'))

/-- Does the pattern accept the name? -/
def accept (pattern name : Text) : Option Bool :=
  matchFrom pattern name (Wildcard.stepBound pattern name) ⟨0, 0, none⟩

namespace Indices

/-- What is left of pattern and name. -/
def cursor (pattern name : Text) (indices : Indices) : Cursor where
  pattern := pattern.drop indices.pattern
  name := name.drop indices.name
  retry? := indices.star?.map fun (star, tried) => ⟨pattern.drop (star + 1), name.drop tried⟩

/-- The indices are in range, and the last star was tried no further on than the match is. -/
structure InRange (pattern name : Text) (indices : Indices) : Prop where
  withinPattern : indices.pattern ≤ pattern.length
  withinName : indices.name ≤ name.length
  behindStar : ∀ star tried, indices.star? = some (star, tried) →
    star < pattern.length ∧ tried ≤ indices.name

end Indices

variable {pattern name : Text} {indices : Indices} {head : Char} {rest : Text}

/-- A character at an index, and what is behind it. -/
theorem drop_eq_cons {text : Text} {index : Nat} (more : text.drop index = head :: rest) :
    index < text.length ∧ text.drop (index + 1) = rest := by
  constructor
  · by_contra outside
    rw [List.drop_eq_nil_of_le (Nat.le_of_not_lt outside)] at more
    cases more
  · rw [← List.tail_drop, more]
    rfl

theorem starAt_eq (pattern : Text) (index : Nat) : starAt pattern index =
    some ((pattern.drop index).head?.any (· == '*')) := by
  unfold starAt
  split
  · next inside =>
    rw [List.head?_drop, List.getElem?_eq_getElem inside]
    rfl
  · next outside =>
    rw [List.drop_eq_nil_of_le (Nat.le_of_not_lt outside)]
    rfl

theorem acceptsAt_eq (pattern : Text) (index : Nat) {position : Nat}
    (more : name.drop position = head :: rest) :
    acceptsAt pattern name index position =
      some ((pattern.drop index).head?.any (Wildcard.accepts · head)) := by
  have there : name[position]? = some head := by
    rw [← List.head?_drop, more]
    rfl
  unfold acceptsAt
  split
  · next inside =>
    rw [List.head?_drop, List.getElem?_eq_getElem inside, there]
    unfold Wildcard.accepts
    simp only [Option.bind_eq_bind, Option.bind_some, Option.any_some]
    cases pattern[index] == '?' <;> rfl
  · next outside =>
    rw [List.drop_eq_nil_of_le (Nat.le_of_not_lt outside)]
    rfl

/-- Going back to a star, the match stays in range. -/
theorem retreat_eq (inRange : indices.InRange pattern name) (more : indices.name < name.length) :
    indices.retreat.map (·.cursor pattern name) = (indices.cursor pattern name).retreat? ∧
      ∀ next, indices.retreat = some next → next.InRange pattern name := by
  unfold Indices.retreat Cursor.retreat? Indices.cursor
  cases noted : indices.star? with
  | none => exact ⟨rfl, fun _ same => nomatch same⟩
  | some mark =>
    obtain ⟨star, tried⟩ := mark
    obtain ⟨within, behind⟩ := inRange.behindStar star tried noted
    refine ⟨?_, ?_⟩
    · simp only [Option.map_some, List.drop_drop]
    · rintro next same
      obtain rfl := Option.some.inj same
      refine ⟨within, Nat.lt_of_le_of_lt behind more, fun other reached again => ?_⟩
      obtain ⟨rfl, rfl⟩ := Prod.mk.inj (Option.some.inj again)
      exact ⟨within, Nat.le_refl _⟩

/-- A round looks only at what is there, and does the step of the match. -/
theorem round_eq (inRange : indices.InRange pattern name)
    (more : name.drop indices.name = head :: rest) :
    ∃ next, round pattern name indices = some next ∧
      next.map (·.cursor pattern name) = (indices.cursor pattern name).step? head rest ∧
      ∀ further, next = some further → further.InRange pattern name := by
  obtain ⟨inName, nameRest⟩ := drop_eq_cons more
  obtain ⟨back, stays⟩ := retreat_eq inRange inName
  have stars := starAt_eq pattern indices.pattern
  have accepts := acceptsAt_eq pattern indices.pattern more
  unfold round
  cases left : pattern.drop indices.pattern with
  | nil =>
    rw [left] at stars accepts
    have step := @Cursor.step?_nil (indices.cursor pattern name) head rest left
    rw [stars, accepts, step]
    exact ⟨_, rfl, back, stays⟩
  | cons first others =>
    obtain ⟨inPattern, patternRest⟩ := drop_eq_cons left
    rw [left, List.head?_cons, Option.any_some] at stars accepts
    have step := @Cursor.step?_cons (indices.cursor pattern name) head rest first others left
    rw [stars, accepts, step]
    simp only [Option.bind_eq_bind, Option.bind_some, beq_iff_eq]
    by_cases star : first = '*'
    · rw [if_pos star, if_pos star]
      refine ⟨_, rfl, ?_, ?_⟩
      · simp only [Option.map_some, Indices.cursor, patternRest, more]
      · rintro further same
        obtain rfl := Option.some.inj same
        refine ⟨inPattern, inRange.withinName, fun other reached noted => ?_⟩
        obtain ⟨rfl, rfl⟩ := Prod.mk.inj (Option.some.inj noted)
        exact ⟨inPattern, Nat.le_refl _⟩
    rw [if_neg star, if_neg star]
    by_cases accepted : Wildcard.accepts first head = true
    · rw [if_pos accepted, if_pos accepted]
      refine ⟨_, rfl, ?_, ?_⟩
      · simp only [Option.map_some, Indices.cursor, patternRest, nameRest]
      · rintro further same
        obtain rfl := Option.some.inj same
        refine ⟨inPattern, inName, fun star tried noted => ?_⟩
        obtain ⟨within, behind⟩ := inRange.behindStar star tried noted
        exact ⟨within, Nat.le_succ_of_le behind⟩
    · rw [if_neg accepted, if_neg accepted]
      exact ⟨_, rfl, back, stays⟩

/-- With enough rounds a match never looks outside the pattern and the name, and answers as the run
from the same place does. -/
theorem matchFrom_eq {rounds : Nat} (inRange : indices.InRange pattern name)
    (sound : (indices.cursor pattern name).Sound)
    (within : (indices.cursor pattern name).Within pattern.length name.length)
    (enough : (indices.cursor pattern name).weight pattern.length name.length < rounds) :
    matchFrom pattern name rounds indices =
      some (Cursor.run rounds (indices.cursor pattern name)) := by
  induction rounds generalizing indices with
  | zero => exact absurd enough (Nat.not_lt_zero _)
  | succ rounds inductionHypothesis =>
    unfold matchFrom
    cases more : name.drop indices.name with
    | nil =>
      have usedUp : ¬ indices.name < name.length :=
        Nat.not_lt_of_le (List.drop_eq_nil_iff.mp more)
      have answer := @Cursor.run_nil (indices.cursor pattern name) rounds more
      unfold patternFrom
      rw [if_neg usedUp, if_pos inRange.withinPattern, answer]
      rfl
    | cons head rest =>
      have inName := (drop_eq_cons more).1
      obtain ⟨next, rounded, stepped, stays⟩ := round_eq inRange more
      have answer := @Cursor.run_cons (indices.cursor pattern name) head rest rounds more
      rw [if_pos inName, rounded, answer, ← stepped, Option.bind_eq_bind, Option.bind_some]
      cases next with
      | none => rfl
      | some next =>
        have same : (indices.cursor pattern name).step? head rest =
            some (next.cursor pattern name) := stepped.symm
        refine inductionHypothesis (stays next rfl) (sound.step more same)
          (within.step more same) ?_
        exact Nat.lt_of_lt_of_le (Cursor.weight_step_lt within sound more same)
          (Nat.le_of_lt_succ enough)

/-- The match by indices comes to an answer for every pattern and every name, the right one. -/
theorem accept_eq (pattern name : Text) :
    accept pattern name = some (Wildcard.accept pattern name) := by
  refine matchFrom_eq ⟨Nat.zero_le _, Nat.zero_le _, fun _ _ noted => nomatch noted⟩
    (Cursor.sound_start _ _) (Cursor.within_start _ _) (Cursor.weight_start_lt _ _)

/-! ### Wildcards -/

/-- The offset of the last character of a kind, in a text that itself begins at an offset. -/
def findLast (kind : Char → Bool) : Nat → Text → Option Nat
  | _, [] => none
  | offset, head :: rest =>
    match findLast kind (offset + head.utf8Size) rest with
    | some found => some found
    | none => if kind head then some offset else none

/-- A wildcard, cut behind its last separator. -/
def ofWildcard (wildcard : Text) : Option Selection :=
  match findLast Selection.isSeparator 0 wildcard with
  | none => some ⟨[], wildcard⟩
  | some position => do
    let pattern ← sliceFrom wildcard (position + 1)
    let directory ← sliceTo wildcard (position + 1)
    some ⟨directory, pattern⟩

theorem findLast_cases (kind : Char → Bool) (offset : Nat) (text : Text) :
    (findLast kind offset text = none ∧ ∀ character ∈ text, kind character = false) ∨
    ∃ front last back, text = front ++ last :: back ∧ kind last = true ∧
      (∀ character ∈ back, kind character = false) ∧
      findLast kind offset text = some (offset + Text.byteLength front) := by
  induction text generalizing offset with
  | nil => exact Or.inl ⟨rfl, fun _ member => nomatch member⟩
  | cons head rest inductionHypothesis =>
    unfold findLast
    rcases inductionHypothesis (offset + head.utf8Size) with
      ⟨none, free⟩ | ⟨front, last, back, rfl, cuts, free, found⟩
    · rw [none]
      by_cases here : kind head = true
      · exact Or.inr ⟨[], head, rest, rfl, here, free, if_pos here⟩
      · refine Or.inl ⟨if_neg here, fun character member => ?_⟩
        rcases List.mem_cons.mp member with rfl | later
        · simpa using here
        · exact free character later
    · rw [found]
      refine Or.inr ⟨head :: front, last, back, rfl, cuts, free, ?_⟩
      rw [byteLength_cons, Nat.add_assoc]

/-- A separator takes one byte. -/
theorem utf8Size_of_isSeparator {character : Char}
    (separates : Selection.isSeparator character = true) : character.utf8Size = 1 := by
  unfold Selection.isSeparator at separates
  rw [Bool.or_eq_true, beq_iff_eq, beq_iff_eq] at separates
  rcases separates with rfl | rfl <;> rfl

theorem ofWildcard_eq (wildcard : Text) :
    ofWildcard wildcard = some (Selection.ofWildcard wildcard) := by
  unfold ofWildcard
  rcases findLast_cases Selection.isSeparator 0 wildcard with
    ⟨none, free⟩ | ⟨front, last, back, rfl, cuts, free, found⟩
  · rw [none]
    exact congrArg some (Selection.ofWildcard_append free (Or.inl rfl)).symm
  · have length : Text.byteLength front + 1 = Text.byteLength (front ++ [last]) := by
      rw [Text.byteLength_append, byteLength_cons, utf8Size_of_isSeparator cuts]
      rfl
    have parts := Selection.ofWildcard_append free (Or.inr ⟨front, last, cuts, rfl⟩)
    have behind := sliceFrom_append (front ++ [last]) back
    have before := sliceTo_append (front ++ [last]) back
    rw [List.append_assoc, List.singleton_append] at parts behind before
    rw [found, Nat.zero_add, parts]
    dsimp only
    rw [length, behind, before]
    rfl

/-- The files whose name a pattern accepts. -/
def chosen (pattern : Text) : List Path → Option (List Path)
  | [] => some []
  | file :: rest => do
    let accepted ← accept pattern (file.fileName?.getD file.text)
    let others ← chosen pattern rest
    some (if accepted then file :: others else others)

theorem chosen_eq (selection : Selection) (files : List Path) :
    chosen selection.pattern files = some (files.filter selection.selects) := by
  induction files with
  | nil => rfl
  | cons file rest inductionHypothesis =>
    unfold chosen
    rw [accept_eq, inductionHypothesis, List.filter_cons]
    rfl

/-- The files a wildcard parameter stands for. -/
def members (tree : FileTree) (root : Path) (wildcard : Text) :
    Option (Except CommandFailure (List Path)) := do
  let selection ← ofWildcard wildcard
  let searched := selection.base root
  match tree.lookup root with
  | .error fault => some (.error (.unsearchable root fault))
  | .ok _ =>
    match tree.locate searched with
    | .error fault => some (.error (.unsearchable searched fault))
    | .ok location =>
      match tree.walk searched location with
      | .error error => some (.error (.unlisted error))
      | .ok files => do
        let accepted ← chosen selection.pattern files
        some (.ok (Path.sorted (accepted.filterMap (·.below? root))))

theorem members_eq (tree : FileTree) (root : Path) (wildcard : Text) :
    members tree root wildcard = some (Selection.members tree root wildcard) := by
  unfold members Selection.members
  rw [ofWildcard_eq, Option.bind_eq_bind, Option.bind_some]
  dsimp only
  cases tree.lookup root with
  | error fault => rfl
  | ok node =>
    cases tree.locate ((Selection.ofWildcard wildcard).base root) with
    | error fault => rfl
    | ok location =>
      dsimp only
      cases tree.walk ((Selection.ofWildcard wildcard).base root) location with
      | error error => rfl
      | ok files =>
        dsimp only
        rw [chosen_eq]
        rfl

end AssetPipeline.Checked
