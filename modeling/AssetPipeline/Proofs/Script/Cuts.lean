/-
This file says which parameters a text holds without scanning it. A position lies outside when an
even number of quotes stands in front of it. The text is cut at every space outside, and behind
every quote that closes a span, which is one that does not lie outside itself. Each piece without
the blanks at its front and without its quotes is a parameter, unless nothing but blanks was in it.
The scan finds exactly these parameters, for where it stands depends on the piece it is in and on
whether the position is outside, and on nothing else.
-/

import AssetPipeline.Proofs.Checked.Offsets
import AssetPipeline.Proofs.Script.Writing
import Mathlib.Algebra.Group.Nat.Even
import Mathlib.Data.List.Induction

namespace AssetPipeline.Parameters

/-! ### Pieces -/

/-- An even number of quotes stands in front of the position. -/
def Outside (text : Text) (position : Nat) : Prop := Even ((text.take position).count '"')

/-- A text is cut at a space outside, and behind a quote that closes a span. -/
def CutAt (text : Text) (position : Nat) : Prop :=
  text[position]? = some ' ' ∧ Outside text position ∨
    text[position]? = some '"' ∧ ¬ Outside text position

instance (text : Text) (position : Nat) : Decidable (Outside text position) :=
  inferInstanceAs (Decidable (Even _))

instance (text : Text) (position : Nat) : Decidable (CutAt text position) :=
  inferInstanceAs (Decidable (_ ∧ _ ∨ _ ∧ ¬ _))

def cuts (text : Text) : List Nat := (List.range text.length).filter (CutAt text ·)

/-- Where pieces start: at the front, and behind every cut. -/
def starts (text : Text) : List Nat := 0 :: (cuts text).map (· + 1)

/-- The piece between a start and a cut. A quote at the cut belongs to it, a space to no piece. -/
def pieceTo (text : Text) (start cut : Nat) : Text :=
  (text.take (if text[cut]? = some '"' then cut + 1 else cut)).drop start

/-- The pieces in front of the cuts, and the one behind the last. -/
def pieces (text : Text) : List Text :=
  List.zipWith (pieceTo text) (starts text) (cuts text) ++ [text.drop ((starts text).getLastD 0)]

def unquoted (piece : Text) : Text := piece.filter (· != '"')

/-- The parameters in pieces. -/
def ofPieces (pieces : List Text) : List Text :=
  ((pieces.map Text.trimStart).filter (· != [])).map unquoted

theorem ofPieces_append (first second : List Text) :
    ofPieces (first ++ second) = ofPieces first ++ ofPieces second := by
  unfold ofPieces
  rw [List.map_append, List.filter_append, List.map_append]

section Longer

variable {text : Text} {last : Char}

/-! ### A character more -/

theorem cutAt_append {position : Nat} (within : position < text.length) :
    CutAt (text ++ [last]) position ↔ CutAt text position := by
  unfold CutAt Outside
  rw [List.getElem?_append_left within, List.take_append_of_le_length (Nat.le_of_lt within)]

/-- Whether a text is cut at its last character. -/
theorem cutAt_length : CutAt (text ++ [last]) text.length ↔
    last = ' ' ∧ Even (text.count '"') ∨ last = '"' ∧ ¬ Even (text.count '"') := by
  unfold CutAt Outside
  rw [List.getElem?_concat_length, List.take_left, Option.some.injEq, Option.some.injEq]

theorem cuts_append : cuts (text ++ [last]) =
    cuts text ++ if CutAt (text ++ [last]) text.length then [text.length] else [] := by
  unfold cuts
  rw [List.length_append, List.length_singleton, List.range_succ, List.filter_append]
  congr 1
  · refine List.filter_congr fun position member => ?_
    rw [decide_eq_decide]
    exact cutAt_append (List.mem_range.mp member)
  · by_cases cut : CutAt (text ++ [last]) text.length <;> simp [cut]

theorem lt_length_of_mem_cuts {position : Nat} (member : position ∈ cuts text) :
    position < text.length :=
  List.mem_range.mp (List.mem_filter.mp member).1

/-- Where the last piece starts, and where those in front of it do. -/
theorem starts_eq_concat (text : Text) : ∃ front start, starts text = front ++ [start] ∧
    front.length = (cuts text).length ∧ start ≤ text.length := by
  unfold starts
  rcases List.eq_nil_or_concat (cuts text) with none | ⟨earlier, cut, some⟩
  · exact ⟨[], 0, by rw [none]; rfl, by rw [none], Nat.zero_le _⟩
  · have within : cut < text.length := lt_length_of_mem_cuts (by simp [some])
    exact ⟨0 :: earlier.map (· + 1), cut + 1, by simp [some], by simp [some], within⟩

/-- A piece in front of an earlier cut stays as it is. -/
theorem pieceTo_append {start cut : Nat} (within : cut < text.length) :
    pieceTo (text ++ [last]) start cut = pieceTo text start cut := by
  unfold pieceTo
  rw [List.getElem?_append_left within, List.take_append_of_le_length (by split <;> omega)]

theorem zipWith_pieceTo_append (front : List Nat) :
    List.zipWith (pieceTo (text ++ [last])) front (cuts text) =
      List.zipWith (pieceTo text) front (cuts text) := by
  rw [← List.map_uncurry_zip_eq_zipWith, ← List.map_uncurry_zip_eq_zipWith]
  refine List.map_congr_left fun (start, cut) member => ?_
  exact pieceTo_append (lt_length_of_mem_cuts (List.of_mem_zip member).2)

theorem pieces_nil : pieces [] = [[]] := rfl

/-- A character more at the end goes to the last piece, or it ends that, and an empty one begins. -/
theorem pieces_append (text : Text) (last : Char) : ∃ others started,
    pieces text = others ++ [started] ∧ pieces (text ++ [last]) = others ++
      if last = ' ' ∧ Even (text.count '"') then [started, []]
      else if last = '"' ∧ ¬ Even (text.count '"') then [started ++ [last], []]
      else [started ++ [last]] := by
  obtain ⟨front, start, startsEq, lengths, within⟩ := starts_eq_concat text
  -- The start of the last piece meets no cut.
  have short : List.zipWith (pieceTo text) (front ++ [start]) (cuts text) =
      List.zipWith (pieceTo text) front (cuts text) := by
    have parts := @List.zipWith_append _ _ _ (pieceTo text) front [start] (cuts text) [] lengths
    rwa [List.append_nil, List.zipWith_nil_right, List.append_nil] at parts
  have before : pieces text =
      List.zipWith (pieceTo text) front (cuts text) ++ [text.drop start] := by
    unfold pieces
    rw [startsEq, short, List.getLastD_concat]
  refine ⟨_, _, before, ?_⟩
  have grown : (text ++ [last]).drop start = text.drop start ++ [last] :=
    List.drop_append_of_le_length within
  by_cases cut : CutAt (text ++ [last]) text.length
  · have cutsEq : cuts (text ++ [last]) = cuts text ++ [text.length] := by
      rw [cuts_append, if_pos cut]
    have startsEq : starts (text ++ [last]) = front ++ [start, text.length + 1] := by
      unfold starts at startsEq ⊢
      rw [cutsEq, List.map_append, ← List.cons_append, startsEq, List.append_assoc]
      rfl
    have after : pieces (text ++ [last]) = List.zipWith (pieceTo text) front (cuts text) ++
        [pieceTo (text ++ [last]) start text.length, []] := by
      unfold pieces
      rw [startsEq, cutsEq, List.zipWith_append lengths, zipWith_pieceTo_append]
      simp
    rw [after]
    congr 1
    rcases cutAt_length.mp cut with ⟨rfl, even⟩ | ⟨rfl, odd⟩
    · rw [if_pos ⟨rfl, even⟩]
      simp [pieceTo]
    · rw [if_neg (fun space => odd space.2), if_pos ⟨rfl, odd⟩, ← grown]
      simp [pieceTo, List.take_of_length_le]
  · have cutsEq : cuts (text ++ [last]) = cuts text := by
      rw [cuts_append, if_neg cut, List.append_nil]
    rw [cutAt_length, not_or] at cut
    have startsEq : starts (text ++ [last]) = front ++ [start] := by
      rw [← startsEq]
      unfold starts
      rw [cutsEq]
    rw [if_neg cut.1, if_neg cut.2, ← grown]
    unfold pieces
    rw [startsEq, cutsEq, zipWith_pieceTo_append, short, List.getLastD_concat]

end Longer

/-! ### The scan goes from piece to piece -/

/-- Where the scan stands behind the beginning of a piece, once it has come by so many quotes. -/
def standing (quotes : Nat) (started : Text) : Position :=
  if started.trimStart = [] then .between
  else if Even quotes then .inWord (unquoted started.trimStart)
  else .inQuotes (unquoted started.trimStart)

section Standing

variable {quotes : Nat} {started : Text}

theorem trimStart_append {text : Text} (inked : text.trimStart ≠ []) (more : Text) :
    Text.trimStart (text ++ more) = text.trimStart ++ more := by
  unfold Text.trimStart at inked ⊢
  rw [List.dropWhile_append, if_neg (by simpa using inked)]

theorem trimStart_append_of_blank {text : Text} (blank : text.trimStart = []) (more : Text) :
    Text.trimStart (text ++ more) = more.trimStart := by
  unfold Text.trimStart at blank ⊢
  rw [List.dropWhile_append, if_pos (by simpa using blank)]

theorem standing_of_blank (blank : started.trimStart = []) : standing quotes started = .between :=
  if_pos blank

theorem standing_of_even (inked : started.trimStart ≠ []) (even : Even quotes) :
    standing quotes started = .inWord (unquoted started.trimStart) := by
  unfold standing
  rw [if_neg inked, if_pos even]

theorem standing_of_odd (inked : started.trimStart ≠ []) (odd : ¬ Even quotes) :
    standing quotes started = .inQuotes (unquoted started.trimStart) := by
  unfold standing
  rw [if_neg inked, if_neg odd]

theorem ofPieces_of_blank (blank : started.trimStart = []) : ofPieces [started] = [] := by
  simp [ofPieces, blank]

theorem ofPieces_of_inked (inked : started.trimStart ≠ []) :
    ofPieces [started] = [unquoted started.trimStart] := by
  simp [ofPieces, inked]

theorem unquoted_append_quote (piece : Text) : unquoted (piece ++ ['"']) = unquoted piece := by
  simp [unquoted]

theorem unquoted_append (piece : Text) {last : Char} (plain : last ≠ '"') :
    unquoted (piece ++ [last]) = unquoted piece ++ [last] := by
  simp [unquoted, plain]

/-- A space outside ends a piece. -/
theorem scan_space (even : Even quotes) (rest : Text) :
    scan (standing quotes started) (' ' :: rest) = ofPieces [started] ++ scan .between rest := by
  by_cases blank : started.trimStart = []
  · rw [standing_of_blank blank, ofPieces_of_blank blank]
    rfl
  · rw [standing_of_even blank even, ofPieces_of_inked blank]
    rfl

/-- A closing quote ends a piece, and belongs to it. -/
theorem scan_closing (inked : started.trimStart ≠ []) (odd : ¬ Even quotes) (rest : Text) :
    scan (standing quotes started) ('"' :: rest) =
      ofPieces [started ++ ['"']] ++ scan .between rest := by
  have longer := trimStart_append inked ['"']
  rw [standing_of_odd inked odd, ofPieces_of_inked (by simp [longer]), longer,
    unquoted_append_quote]
  rfl

/-- An opening quote is part of its piece. -/
theorem scan_opening (even : Even quotes) (rest : Text) :
    scan (standing quotes started) ('"' :: rest) =
      scan (standing (quotes + 1) (started ++ ['"'])) rest := by
  have odd : ¬ Even (quotes + 1) := by simpa [Nat.even_add_one] using even
  by_cases blank : started.trimStart = []
  · have longer : Text.trimStart (started ++ ['"']) = ['"'] :=
      trimStart_append_of_blank blank ['"']
    rw [standing_of_blank blank, standing_of_odd (by simp [longer]) odd, longer]
    rfl
  · have longer := trimStart_append blank ['"']
    rw [standing_of_even blank even, standing_of_odd (by simp [longer]) odd, longer,
      unquoted_append_quote]
    rfl

/-- Any other character is part of its piece. -/
theorem scan_character (inked : ¬ Even quotes → started.trimStart ≠ []) {last : Char}
    (plain : last ≠ '"') (inside : ¬ (last = ' ' ∧ Even quotes)) (rest : Text) :
    scan (standing quotes started) (last :: rest) =
      scan (standing quotes (started ++ [last])) rest := by
  by_cases blank : started.trimStart = []
  · have even : Even quotes := Decidable.of_not_not fun odd => inked odd blank
    have longer := trimStart_append_of_blank blank [last]
    rw [standing_of_blank blank, scan]
    by_cases skipped : isBlank last = true
    · rw [if_pos skipped, standing_of_blank (longer.trans (List.dropWhile_cons_of_pos skipped))]
    · have begun : Text.trimStart (started ++ [last]) = [last] :=
        longer.trans (List.dropWhile_cons_of_neg skipped)
      rw [if_neg skipped, if_neg plain, standing_of_even (by simp [begun]) even, begun]
      simp [unquoted, plain]
  · have longer := trimStart_append blank [last]
    have still : Text.trimStart (started ++ [last]) ≠ [] := by simp [longer]
    by_cases even : Even quotes
    · have inWord : last ≠ ' ' := fun space => inside ⟨space, even⟩
      rw [standing_of_even blank even, standing_of_even still even, longer,
        unquoted_append _ plain, scan, if_neg inWord, if_neg plain]
    · rw [standing_of_odd blank even, standing_of_odd still even, longer,
        unquoted_append _ plain, scan, if_neg plain]

end Standing

/-- A text is scanned by its pieces: those that are complete are parameters, and the last one says
where the scan stands. While a quote is open, the last piece is not blank. -/
theorem scan_append (text : Text) : ∃ others started, pieces text = others ++ [started] ∧
    (¬ Even (text.count '"') → started.trimStart ≠ []) ∧
    ∀ rest, scan .between (text ++ rest) =
      ofPieces others ++ scan (standing (text.count '"') started) rest := by
  induction text using List.reverseRecOn with
  | nil => exact ⟨[], [], pieces_nil, fun odd => absurd Even.zero odd, fun rest => rfl⟩
  | append_singleton text last inductionHypothesis =>
    obtain ⟨others, started, whole, inked, scanned⟩ := inductionHypothesis
    obtain ⟨_, _, same, longer⟩ := pieces_append text last
    obtain ⟨rfl, one⟩ := List.append_inj' (whole.symm.trans same) rfl
    obtain rfl := List.singleton_inj.mp one
    have onwards : ∀ rest, scan .between (text ++ [last] ++ rest) =
        ofPieces others ++ scan (standing (text.count '"') started) (last :: rest) := fun rest => by
      rw [List.append_assoc]
      exact scanned (last :: rest)
    split at longer
    · next space =>
      obtain ⟨rfl, even⟩ := space
      refine ⟨others ++ [started], [], by simp [longer], fun odd => ?_, fun rest => ?_⟩
      · exact absurd (by simpa using even) odd
      · rw [onwards, scan_space even, ofPieces_append, List.append_assoc]
        rfl
    split at longer
    · next closes =>
      obtain ⟨rfl, odd⟩ := closes
      refine ⟨others ++ [started ++ ['"']], [], by simp [longer], fun still => ?_, fun rest => ?_⟩
      · exact absurd (by simpa [Nat.even_add_one] using odd) still
      · rw [onwards, scan_closing (inked odd) odd, ofPieces_append, List.append_assoc]
        rfl
    next inside closed =>
    by_cases quote : last = '"'
    · subst quote
      have even : Even (text.count '"') := Decidable.of_not_not fun odd => closed ⟨rfl, odd⟩
      refine ⟨others, started ++ ['"'], longer, fun _ => ?_, fun rest => ?_⟩
      · by_cases blank : started.trimStart = []
        · rw [trimStart_append_of_blank blank]
          exact List.cons_ne_nil _ _
        · simp [trimStart_append blank]
      · rw [onwards, scan_opening even, List.count_append, List.count_singleton_self]
    · have count : (text ++ [last]).count '"' = text.count '"' := by simp [quote]
      refine ⟨others, started ++ [last], longer, fun odd => ?_, fun rest => ?_⟩
      · rw [count] at odd
        simp [trimStart_append (inked odd)]
      · rw [onwards, scan_character inked quote inside, count]

/-- The scan of a text finds the parameters in its pieces. -/
theorem scan_between_eq_ofPieces (text : Text) : scan .between text = ofPieces (pieces text) := by
  obtain ⟨others, started, whole, -, scanned⟩ := scan_append text
  have read := scanned []
  rw [List.append_nil] at read
  rw [read, whole, ofPieces_append]
  congr 1
  by_cases blank : started.trimStart = []
  · rw [standing_of_blank blank, ofPieces_of_blank blank]
    rfl
  · rw [ofPieces_of_inked blank]
    unfold standing
    rw [if_neg blank]
    split <;> rfl

/-! ### Quoted spans -/

section Spans

variable {front span : Text}

/-- What follows an opening quote is part of the piece that the quote stands in. -/
theorem scan_opened (even : Even (front.count '"')) : ∃ others started,
    pieces front = others ++ [started] ∧ ∀ rest, scan .between (front ++ '"' :: rest) =
      ofPieces others ++ scan (.inQuotes (unquoted started.trimStart)) rest := by
  obtain ⟨others, started, whole, -, scanned⟩ := scan_append front
  refine ⟨others, started, whole, fun rest => ?_⟩
  rw [scanned]
  congr 1
  by_cases blank : started.trimStart = []
  · rw [standing_of_blank blank, blank]
    rfl
  · rw [standing_of_even blank even]
    rfl

/-- A quote that is never closed. -/
theorem scan_inQuotes_of_not_mem {rest : Text} (unclosed : '"' ∉ rest) (word : Text) :
    scan (.inQuotes word) rest = [word ++ rest] := by
  induction rest generalizing word with
  | nil =>
    rw [List.append_nil]
    rfl
  | cons head rest inductionHypothesis =>
    rw [List.mem_cons, not_or] at unclosed
    rw [scan, if_neg (Ne.symm unclosed.1), inductionHypothesis unclosed.2, List.append_assoc]
    rfl

theorem scan_span {rest : Text} (even : Even (front.count '"')) (unquoted : '"' ∉ span) :
    ∃ others started, pieces front = others ++ [started] ∧
      scan .between (front ++ '"' :: (span ++ '"' :: rest)) = ofPieces others ++
        (Parameters.unquoted started.trimStart ++ span) :: ofPieces (pieces rest) := by
  obtain ⟨others, started, whole, scanned⟩ := scan_opened even
  refine ⟨others, started, whole, ?_⟩
  rw [scanned, scan_inQuotes unquoted, scan_between_eq_ofPieces]

end Spans

/-! ### Nothing is lost -/

/-- Neither blank nor a quote. -/
def isInk (character : Char) : Bool := !isBlank character && character != '"'

/-- The beginning of the parameter that the scan stands in. -/
def Position.word : Position → Text
  | .between => []
  | .inWord word | .inQuotes word => word

theorem filter_isInk_cons_of_blank {head : Char} (blank : isBlank head = true) (rest : Text) :
    (head :: rest).filter isInk = rest.filter isInk :=
  List.filter_cons_of_neg (by simp [isInk, blank])

theorem filter_isInk_cons_quote (rest : Text) : ('"' :: rest).filter isInk = rest.filter isInk :=
  rfl

theorem filter_isInk_push (word rest : Text) (head : Char) :
    (word ++ [head]).filter isInk ++ rest.filter isInk =
      word.filter isInk ++ (head :: rest).filter isInk := by
  rw [← List.filter_append, ← List.filter_append, List.append_assoc]
  rfl

theorem filter_isInk_scan (position : Position) (text : Text) :
    (scan position text).flatten.filter isInk =
      position.word.filter isInk ++ text.filter isInk := by
  fun_induction scan position text with
  | case1 => rfl
  | case2 head rest blank read => rw [read, filter_isInk_cons_of_blank blank]
  | case3 rest _ read => exact read.trans (filter_isInk_cons_quote rest).symm
  | case4 head rest _ _ read => exact read.trans (filter_isInk_push [] rest head)
  | case5 word => simp [Position.word]
  | case6 word rest read =>
    rw [List.flatten_cons, List.filter_append, read, filter_isInk_cons_of_blank isBlank_space]
    rfl
  | case7 word rest _ read => exact read.trans (congrArg (_ ++ ·) (filter_isInk_cons_quote rest))
  | case8 word head rest _ _ read => exact read.trans (filter_isInk_push word rest head)
  | case9 word => simp [Position.word]
  | case10 word rest read =>
    rw [List.flatten_cons, List.filter_append, read, filter_isInk_cons_quote]
    rfl
  | case11 word head rest _ read => exact read.trans (filter_isInk_push word rest head)

theorem filter_isInk_trim (text : Text) : text.trim.filter isInk = text.filter isInk := by
  have front : ∀ text : Text, (text.dropWhile isBlank).filter isInk = text.filter isInk := by
    intro text
    induction text with
    | nil => rfl
    | cons head rest inductionHypothesis =>
      by_cases blank : isBlank head = true
      · rw [List.dropWhile_cons_of_pos blank, inductionHypothesis, filter_isInk_cons_of_blank blank]
      · rw [List.dropWhile_cons_of_neg blank]
  unfold Text.trim Text.trimEnd Text.trimStart
  rw [List.filter_reverse, front, List.filter_reverse, List.reverse_reverse, front]

/-! ### The parameters of a text -/

/-- What the parameters of a text are. -/
structure Cut (raw : Text) (parameters : List Text) : Prop where
  /-- They are those in the pieces of the text without the blanks at either end. -/
  inPieces : parameters = ofPieces (pieces raw.trim)
  /-- They hold every character but blanks and quotes, as often and in the order of the text. -/
  inked : parameters.flatten.filter isInk = raw.filter isInk
  /-- A quote that is never closed takes all that follows, to the last character. -/
  unclosed : ∀ front rest, raw.trim = front ++ '"' :: rest → Even (front.count '"') →
    '"' ∉ rest → ∃ others started, pieces front = others ++ [started] ∧
      parameters = ofPieces others ++ [unquoted started.trimStart ++ rest]
  /-- A span in quotes ends a parameter, which has all that stands in the span. -/
  closed : ∀ front span rest, raw.trim = front ++ '"' :: (span ++ '"' :: rest) →
    Even (front.count '"') → '"' ∉ span → ∃ others started, pieces front = others ++ [started] ∧
      parameters = ofPieces others ++
        (unquoted started.trimStart ++ span) :: ofPieces (pieces rest)
  /-- Two quotes side by side with nothing but blanks in front of them in their piece are an empty
  parameter. -/
  empty : ∀ front rest, raw.trim = front ++ '"' :: '"' :: rest → Even (front.count '"') →
    (∀ started ∈ (pieces front).getLast?, started.trimStart = []) →
      parameters = ofPieces (pieces front) ++ [] :: ofPieces (pieces rest)

/-- Splitting a text comes to an end, and with the parameters that its pieces hold. -/
theorem split_cuts (raw : Text) : Checked.split raw = some (split raw) ∧ Cut raw (split raw) := by
  refine ⟨Checked.split_eq raw, ?_⟩
  unfold split
  exact {
    inPieces := scan_between_eq_ofPieces raw.trim
    inked := (filter_isInk_scan .between raw.trim).trans (filter_isInk_trim raw)
    unclosed := by
      intro front rest whole even unclosed
      obtain ⟨others, started, pieces, scanned⟩ := scan_opened even
      refine ⟨others, started, pieces, ?_⟩
      rw [whole, scanned, scan_inQuotes_of_not_mem unclosed]
    closed := by
      intro front span rest whole even unquoted
      rw [whole]
      exact scan_span even unquoted
    empty := by
      intro front rest whole even blank
      obtain ⟨others, started, pieces, scanned⟩ := @scan_span front [] rest even List.not_mem_nil
      have nothing : started.trimStart = [] := blank started (by
        rw [pieces, List.getLast?_concat]
        rfl)
      rw [whole, pieces, ofPieces_append, ofPieces_of_blank nothing, List.append_nil]
      rw [nothing] at scanned
      exact scanned }

/-- A quote closes in the middle of a word, a tab ends none, and the last quote is left open. -/
theorem split_cuts_openQuote :
    let raw : Text := " x\"y z\"w\t \"\" \"a  b ".toList
    pieces raw.trim = ["x\"y z\"".toList, "w\t".toList, "\"\"".toList, [], "\"a  b".toList] ∧
      Checked.split raw = some ["xy z".toList, "w\t".toList, [], "a  b".toList] := by
  have cut := split_cuts " x\"y z\"w\t \"\" \"a  b ".toList
  refine ⟨by decide, cut.1.trans (congrArg some (cut.2.inPieces.trans ?_))⟩
  decide

end AssetPipeline.Parameters
