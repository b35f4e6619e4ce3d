/-
This file reads scripts by byte offsets. A text can be cut only between two of its characters, so
the functions here come to nothing where an offset is not one. They find comments, spaces and the
ends of parameters by their offsets and cut there. They always come to an answer, and it is that of
the functions that read a script character by character.
-/

import AssetPipeline.Proofs.Text.Pieces
import AssetPipeline.Script.Command

namespace AssetPipeline.Checked

/-! ### Cutting at a byte offset -/

/-- The text up to a byte offset, and the text from there on. An offset inside a character, or
behind the end of the text, is no place to cut at. -/
def cut : Text → Nat → Option (Text × Text)
  | [], offset => if offset = 0 then some ([], []) else none
  | head :: rest, offset =>
    if offset = 0 then some ([], head :: rest)
    else if head.utf8Size ≤ offset then
      (cut rest (offset - head.utf8Size)).map fun (front, back) => (head :: front, back)
    else none

/-- The text up to a byte offset. -/
def sliceTo (text : Text) (offset : Nat) : Option Text := (cut text offset).map Prod.fst

/-- The text from a byte offset on. -/
def sliceFrom (text : Text) (offset : Nat) : Option Text := (cut text offset).map Prod.snd

variable {text front back word : Text} {offset : Nat} {head : Char}

theorem byteLength_cons (head : Char) (rest : Text) :
    Text.byteLength (head :: rest) = head.utf8Size + Text.byteLength rest := rfl

/-- A text can be cut between two characters, and nowhere else. -/
theorem cut_eq_some_iff : cut text offset = some (front, back) ↔
    text = front ++ back ∧ Text.byteLength front = offset := by
  induction text generalizing offset front with
  | nil =>
    unfold cut
    constructor
    · intro found
      split at found
      · next zero =>
        obtain ⟨rfl, rfl⟩ := Prod.mk.inj (Option.some.inj found)
        exact ⟨rfl, zero.symm⟩
      · cases found
    · rintro ⟨whole, rfl⟩
      obtain ⟨rfl, rfl⟩ := List.append_eq_nil_iff.mp whole.symm
      exact if_pos rfl
  | cons head rest inductionHypothesis =>
    have size : 0 < head.utf8Size := head.utf8Size_pos
    unfold cut
    constructor
    · intro found
      split at found
      · next zero =>
        obtain ⟨rfl, rfl⟩ := Prod.mk.inj (Option.some.inj found)
        exact ⟨rfl, zero.symm⟩
      split at found
      · next within =>
        obtain ⟨⟨inner, behind⟩, deeper, same⟩ := Option.map_eq_some_iff.mp found
        obtain ⟨rfl, rfl⟩ := Prod.mk.inj same
        obtain ⟨rfl, length⟩ := inductionHypothesis.mp deeper
        refine ⟨rfl, ?_⟩
        rw [byteLength_cons, length]
        omega
      · cases found
    · rintro ⟨whole, length⟩
      cases front with
      | nil =>
        rw [List.nil_append] at whole
        rw [if_pos (show offset = 0 from length.symm), whole]
      | cons first inner =>
        obtain ⟨rfl, rfl⟩ := List.cons.inj whole
        rw [byteLength_cons] at length
        have deeper := inductionHypothesis.mpr
          ⟨rfl, show Text.byteLength inner = offset - head.utf8Size by omega⟩
        rw [if_neg (by omega), if_pos (by omega), deeper]
        rfl

theorem sliceTo_append (front back : Text) :
    sliceTo (front ++ back) (Text.byteLength front) = some front :=
  congrArg (Option.map Prod.fst) (cut_eq_some_iff.mpr ⟨rfl, rfl⟩)

theorem sliceFrom_append (front back : Text) :
    sliceFrom (front ++ back) (Text.byteLength front) = some back :=
  congrArg (Option.map Prod.snd) (cut_eq_some_iff.mpr ⟨rfl, rfl⟩)

/-! ### Comments -/

/-- The offset at which a marker first begins in a text that itself begins at an offset. -/
def find (marker : Text) : Nat → Text → Option Nat
  | _, [] => none
  | offset, head :: rest =>
    if marker.isPrefixOf (head :: rest) then some offset
    else find marker (offset + head.utf8Size) rest

/-- A marker is found right behind what stands before it. -/
theorem find_cases (marker : Text) (offset : Nat) (text : Text) :
    (find marker offset text = none ∧ Text.before marker text = text) ∨
    ∃ behind, text = Text.before marker text ++ behind ∧ marker.isPrefixOf behind = true ∧
      find marker offset text = some (offset + Text.byteLength (Text.before marker text)) := by
  induction text generalizing offset with
  | nil => exact Or.inl ⟨rfl, rfl⟩
  | cons head rest inductionHypothesis =>
    unfold find Text.before
    by_cases here : marker.isPrefixOf (head :: rest) = true
    · rw [if_pos here, if_pos here]
      exact Or.inr ⟨head :: rest, rfl, here, rfl⟩
    · rw [if_neg here, if_neg here]
      rcases inductionHypothesis (offset + head.utf8Size) with
        ⟨none, whole⟩ | ⟨behind, whole, begins, found⟩
      · exact Or.inl ⟨none, congrArg (head :: ·) whole⟩
      · refine Or.inr ⟨behind, congrArg (head :: ·) whole, begins, ?_⟩
        rw [found, byteLength_cons, Nat.add_assoc]

theorem before_singleton (stop : Char) (text : Text) :
    Text.before [stop] text = text.takeWhile (· != stop) := by
  induction text with
  | nil => rfl
  | cons head rest inductionHypothesis =>
    unfold Text.before
    rw [inductionHypothesis]
    by_cases here : head = stop
    · subst here
      simp [List.isPrefixOf]
    · simp [List.isPrefixOf, here, Ne.symm here]

/-- The text before a marker, if the marker is found. -/
def upTo (text marker : Text) : Option Text :=
  match find marker 0 text with
  | none => some text
  | some position => sliceTo text position

theorem upTo_eq (text marker : Text) : upTo text marker = some (Text.before marker text) := by
  unfold upTo
  rcases find_cases marker 0 text with ⟨none, whole⟩ | ⟨behind, whole, -, found⟩
  · rw [none, whole]
  · rw [found, Nat.zero_add]
    exact (congrArg (sliceTo · _) whole).trans (sliceTo_append _ _)

/-- The markers of comments, in the order in which a line is cut at them. -/
def commentMarkers : List Text := [Script.slashes, ['#']]

/-- A line up to its comment. -/
def withoutComment (line : Text) : Option Text := commentMarkers.foldlM upTo line

theorem withoutComment_eq (line : Text) :
    withoutComment line = some (Script.withoutComment line) := by
  unfold withoutComment commentMarkers Script.withoutComment
  simp only [List.foldlM_cons, List.foldlM_nil, upTo_eq, before_singleton, Option.pure_def,
    Option.bind_eq_bind, Option.bind_some]

/-! ### Parameters -/

/-- The characters of a text with the offsets at which they begin. -/
def charOffsets : Nat → Text → List (Nat × Char)
  | _, [] => []
  | offset, head :: rest => (offset, head) :: charOffsets (offset + head.utf8Size) rest

/-- The parameter that runs up to a stopper, and the offset behind the stopper if there is one. A
quote takes the place of the stopper. -/
def token (stopper : Char) (word : Text) : List (Nat × Char) → Text × Option Nat
  | [] => (word, none)
  | (offset, character) :: rest =>
    if character = stopper then (word, some (offset + character.utf8Size))
    else if character = '"' then token '"' word rest
    else token stopper (word ++ [character]) rest

/-- The parameters in a text, found in so many rounds. A parameter whose quote is never closed has
run over the end of the text, and loses the padding there. -/
def tokens : Nat → Text → Option (List Text)
  | 0, _ => none
  | rounds + 1, text =>
    match text.trimStart with
    | [] => some []
    | head :: rest =>
      match token ' ' [] (charOffsets 0 (head :: rest)) with
      | (word, some position) => do
        let behind ← sliceFrom (head :: rest) position
        let others ← tokens rounds behind
        some (word :: others)
      | (word, none) => some [if word.getLast? = some ' ' then word.dropLast else word]

/-- The parameters written in a text. A space behind the text ends the last one. -/
def split (raw : Text) : Option (List Text) :=
  tokens (raw.trim.length + 2) (raw.trim ++ [' '])

open Parameters (scan)

/-- A token of a padded text is the first word of the scan. It ends in front of the text that the
scan goes on with, or it takes the padding. -/
inductive Reads (offset : Nat) (text : Text) (words : List Text) : Text × Option Nat → Prop
  | ended {word front behind left : Text} (whole : text ++ [' '] = front ++ behind)
      (given : front ≠ []) (padded : behind = left ++ [' '] ∨ behind = [] ∧ left = [])
      (scanned : words = word :: scan .between left) :
      Reads offset text words (word, some (offset + Text.byteLength front))
  | unended {word : Text} (scanned : words = [word]) :
      Reads offset text words (word ++ [' '], none)

/-- A character more in front of a token. -/
theorem Reads.cons {words : List Text} {answer : Text × Option Nat}
    (reads : Reads (offset + head.utf8Size) text words answer) :
    Reads offset (head :: text) words answer := by
  cases reads with
  | @ended word front behind left whole given padded scanned =>
    rw [Nat.add_assoc, ← byteLength_cons]
    exact .ended (congrArg (head :: ·) whole) (List.cons_ne_nil _ _) padded scanned
  | unended scanned => exact .unended scanned

/-- A token ends with the first character. -/
theorem Reads.here {words : List Text} (scanned : words = word :: scan .between text) :
    Reads offset (head :: text) words (word, some (offset + head.utf8Size)) :=
  @ended offset (head :: text) words word [head] (text ++ [' ']) text rfl (List.cons_ne_nil _ _)
    (Or.inl rfl) scanned

theorem reads_inQuotes (offset : Nat) (word text : Text) :
    Reads offset text (scan (.inQuotes word) text)
      (token '"' word (charOffsets offset (text ++ [' ']))) := by
  induction text generalizing offset word with
  | nil => exact .unended rfl
  | cons head rest inductionHypothesis =>
    rw [List.cons_append]
    unfold charOffsets token scan
    by_cases quote : head = '"'
    · rw [if_pos quote, if_pos quote]
      exact .here rfl
    · rw [if_neg quote, if_neg quote, if_neg quote]
      exact (inductionHypothesis _ _).cons

theorem reads_inWord (offset : Nat) (word text : Text) :
    Reads offset text (scan (.inWord word) text)
      (token ' ' word (charOffsets offset (text ++ [' ']))) := by
  induction text generalizing offset word with
  | nil =>
    exact @Reads.ended offset [] _ word [' '] [] [] rfl (List.cons_ne_nil _ _)
      (Or.inr ⟨rfl, rfl⟩) rfl
  | cons head rest inductionHypothesis =>
    rw [List.cons_append]
    unfold charOffsets token scan
    by_cases space : head = ' '
    · rw [if_pos space, if_pos space]
      exact .here rfl
    by_cases quote : head = '"'
    · rw [if_neg space, if_neg space, if_pos quote, if_pos quote]
      exact (reads_inQuotes _ _ _).cons
    · rw [if_neg space, if_neg space, if_neg quote, if_neg quote]
      exact (inductionHypothesis _ _).cons

/-- Blanks in front of a parameter do not count. -/
theorem scan_trimStart (text : Text) : scan .between text.trimStart = scan .between text := by
  unfold Text.trimStart
  induction text with
  | nil => rfl
  | cons head rest inductionHypothesis =>
    by_cases blank : isBlank head = true
    · rw [List.dropWhile_cons_of_pos blank, inductionHypothesis, scan, if_pos blank]
    · rw [List.dropWhile_cons_of_neg blank]

/-- In front of a parameter a character that is not blank begins a word. -/
theorem scan_between_eq {rest : Text} (inked : isBlank head = false) :
    scan .between (head :: rest) = scan (.inWord []) (head :: rest) := by
  have notSpace : head ≠ ' ' := by
    rintro rfl
    cases inked
  unfold scan
  rw [inked, if_neg Bool.false_ne_true, if_neg notSpace]
  rfl

theorem tokens_eq {rounds : Nat} (text : Text) (enough : text.length + 1 < rounds) :
    tokens rounds (text ++ [' ']) = some (scan .between text) := by
  induction rounds generalizing text with
  | zero => exact absurd enough (Nat.not_lt_zero _)
  | succ rounds inductionHypothesis =>
    have shorter : text.trimStart.length ≤ text.length := (List.dropWhile_suffix _).length_le
    have padded : Text.trimStart (text ++ [' ']) =
        if text.trimStart.isEmpty then [] else text.trimStart ++ [' '] := List.dropWhile_append
    unfold tokens
    rw [← scan_trimStart, padded]
    cases trimmed : text.trimStart with
    | nil => rfl
    | cons head rest =>
      have inked : isBlank head = false := by
        have first := List.head?_dropWhile_not isBlank text
        unfold Text.trimStart at trimmed
        rw [trimmed] at first
        simpa using first
      have reads := reads_inWord 0 [] (head :: rest)
      rw [← scan_between_eq inked, List.cons_append] at reads
      rw [trimmed, List.length_cons] at shorter
      show (match token ' ' [] (charOffsets 0 (head :: (rest ++ [' ']))) with
        | (word, some position) => do
          let behind ← sliceFrom (head :: (rest ++ [' '])) position
          let others ← tokens rounds behind
          some (word :: others)
        | (word, none) => some [if word.getLast? = some ' ' then word.dropLast else word]) = _
      generalize token ' ' [] (charOffsets 0 (head :: (rest ++ [' ']))) = answer at reads ⊢
      cases reads with
      | @ended word front behind left whole given padded scanned =>
        rw [List.cons_append] at whole
        have lengths := congrArg List.length whole
        have positive := List.length_pos_iff.mpr given
        simp only [List.length_cons, List.length_append, List.length_nil] at lengths
        have further : tokens rounds behind = some (scan .between left) := by
          rcases padded with rfl | ⟨rfl, rfl⟩
          · refine inductionHypothesis left ?_
            simp only [List.length_append, List.length_cons, List.length_nil] at lengths
            omega
          · obtain ⟨less, rfl⟩ := Nat.exists_eq_add_one.mpr (show 0 < rounds by omega)
            rfl
        rw [Nat.zero_add, scanned]
        dsimp only
        rw [whole, sliceFrom_append]
        show (tokens rounds behind).bind _ = _
        rw [further]
        rfl
      | @unended word scanned =>
        rw [scanned]
        simp

theorem split_eq (raw : Text) : split raw = some (Parameters.split raw) :=
  tokens_eq raw.trim (Nat.lt_succ_self _)

/-! ### Lines -/

/-- The verb of a line, and the text behind the first space. -/
def cutVerb (written : Text) : Option (Text × Text) :=
  match find [' '] 0 written with
  | none => some (written, [])
  | some position => do
    let verb ← sliceTo written position
    let raw ← sliceFrom written (position + 1)
    some (verb, raw)

theorem cutVerb_eq (written : Text) : cutVerb written =
    some (written.takeWhile (· != ' '), (written.dropWhile (· != ' ')).drop 1) := by
  have parts : written.takeWhile (· != ' ') ++ written.dropWhile (· != ' ') = written :=
    List.takeWhile_append_dropWhile
  have cases := find_cases [' '] 0 written
  rw [before_singleton] at cases
  unfold cutVerb
  rcases cases with ⟨none, whole⟩ | ⟨behind, whole, begins, found⟩
  · rw [whole, List.append_right_eq_self] at parts
    rw [none, whole, parts]
    rfl
  · have rest : written.dropWhile (· != ' ') = behind := List.append_cancel_left (parts.trans whole)
    obtain ⟨raw, rfl⟩ : ∃ raw, behind = ' ' :: raw := by
      cases behind with
      | nil => cases begins
      | cons first raw =>
        have same : ' ' = first := by simpa [List.isPrefixOf] using begins
        exact ⟨raw, same ▸ rfl⟩
    have verb := sliceTo_append (written.takeWhile (· != ' ')) (' ' :: raw)
    have behindSpace : sliceFrom written
        (Text.byteLength (written.takeWhile (· != ' ')) + 1) = some raw := by
      have later := sliceFrom_append (written.takeWhile (· != ' ') ++ [' ']) raw
      rwa [Text.byteLength_append, List.append_assoc, List.singleton_append, ← whole] at later
    rw [← whole] at verb
    rw [found, Nat.zero_add, rest]
    dsimp only
    rw [verb, Option.bind_eq_bind, Option.bind_some, behindSpace]
    rfl

/-- The command on a line, if there is one. -/
def commandOfLine (number : Nat) (line : Text) : Option (Option Command) := do
  let bare ← withoutComment line
  match bare.trim with
  | [] => some none
  | head :: rest => do
    let (verb, raw) ← cutVerb (head :: rest)
    let parameters ← split raw
    some (some ⟨number, verb, parameters⟩)

theorem commandOfLine_eq (number : Nat) (line : Text) :
    commandOfLine number line = some (Script.commandOfLine? number line) := by
  unfold commandOfLine Script.commandOfLine?
  rw [withoutComment_eq, Option.bind_eq_bind, Option.bind_some]
  split
  · next none => rw [none]
  · next head rest some =>
    rw [some, cutVerb_eq, Option.bind_eq_bind, Option.bind_some]
    dsimp only
    rw [split_eq]
    rfl

def ofLines : Nat → List Text → Option Script
  | _, [] => some []
  | number, line :: rest => do
    let command ← commandOfLine number line
    let others ← ofLines (number + 1) rest
    some (command.toList ++ others)

theorem ofLines_eq (number : Nat) (lines : List Text) :
    ofLines number lines = some (Script.ofLines number lines) := by
  induction lines generalizing number with
  | nil => rfl
  | cons line rest inductionHypothesis =>
    unfold ofLines
    rw [commandOfLine_eq, inductionHypothesis]
    rfl

/-- The commands of a script text, in order. -/
def ofText (text : Text) : Option Script := ofLines 1 text.lines

theorem ofText_eq (text : Text) : ofText text = some (Script.ofText text) := ofLines_eq 1 _

end AssetPipeline.Checked
