/-
This file reads a path as the moves it makes. A move is a step that leads somewhere else: a name
or a `..`, while an empty step or a `.` stays where it is. Where a path leads depends on its moves
alone, and every operation on the text of a path says something short about them: joining puts
moves one after the other, the parent makes all moves but the last, and the paths above a path
make its first moves.
-/

import AssetPipeline.FileTree.Lookup
import AssetPipeline.Proofs.Text.Pieces
import Mathlib.Data.List.Basic

namespace AssetPipeline.Path

/-- Does a step lead somewhere else? -/
def isMove (step : Text) : Bool := !isIdle step

/-- The steps of the path that lead somewhere else. -/
def moves (path : Path) : List Text := path.steps.filter isMove

theorem isMove_dotDot : isMove dotDot = true := rfl

theorem isMove_iff {step : Text} : isMove step = true ↔ step ≠ [] ∧ step ≠ dot := by
  simp [isMove, isIdle]

theorem steps_ne_nil (path : Path) : path.steps ≠ [] := Text.splitWhere_ne_nil _ _

theorem separator_not_mem_of_mem_steps {path : Path} {step : Text} (member : step ∈ path.steps) :
    separator ∉ step :=
  Text.not_mem_of_mem_splitOn member

theorem separator_not_mem_of_mem_moves {path : Path} {move : Text} (member : move ∈ path.moves) :
    separator ∉ move :=
  separator_not_mem_of_mem_steps (List.mem_filter.mp member).1

theorem isMove_of_mem_moves {path : Path} {move : Text} (member : move ∈ path.moves) :
    isMove move = true :=
  (List.mem_filter.mp member).2

/-- The first step of an absolute path is empty. -/
theorem steps_of_isAbsolute {path : Path} (absolute : path.isAbsolute = true) :
    ∃ rest, path.steps = [] :: rest := by
  rcases path with ⟨_ | ⟨head, tail⟩⟩
  · cases absolute
  · obtain rfl : head = separator := by simpa [isAbsolute] using absolute
    exact ⟨Text.splitOn separator tail, by simp [steps, Text.splitOn, Text.splitWhere]⟩

/-! ### Beginnings of a path's text -/

/-- A path that begins the text of another starts from the same place. -/
theorem isAbsolute_of_isPrefix {first second : Path} (part : first.text <+: second.text)
    (given : first.text ≠ []) : first.isAbsolute = second.isAbsolute := by
  obtain ⟨rest, whole⟩ := part
  unfold isAbsolute
  rw [← whole]
  cases text : first.text with
  | nil => exact absurd text given
  | cons head tail => rfl

/-! ### Joining -/

/-- The text of the path with a separator at its end. -/
def opened (path : Path) : Text :=
  if path.text.getLast? = some separator then path.text else path.text ++ [separator]

theorem text_join {base path : Path} (given : base.text ≠ []) (relative : path.isAbsolute = false) :
    (base.join path).text = base.opened ++ path.text := by
  unfold join opened
  have stays : (path.isAbsolute || base.text == []) = false := by simp [relative, given]
  rw [stays]
  split
  · contradiction
  · split <;> simp

/-- The opened text ends in a separator, and is the text itself but for that separator. -/
theorem opened_eq (path : Path) : ∃ stem, path.opened = stem ++ [separator] ∧
    (path.text = stem ∨ path.text = stem ++ [separator]) := by
  unfold opened
  by_cases closed : path.text.getLast? = some separator
  · rw [if_pos closed]
    have whole := (List.dropLast_append_getLast? separator closed).symm
    exact ⟨path.text.dropLast, whole, Or.inr whole⟩
  · rw [if_neg closed]
    exact ⟨path.text, rfl, Or.inl rfl⟩

/-- A separator at the end adds no move. -/
theorem moves_of_opened {path : Path} {stem : Text}
    (whole : path.text = stem ∨ path.text = stem ++ [separator]) :
    path.moves = (Text.splitOn separator stem).filter isMove := by
  unfold moves steps
  rcases whole with whole | whole
  · rw [whole]
  · rw [whole, Text.splitOn_append_cons]
    simp [Text.splitOn, Text.splitWhere, isMove, isIdle]

theorem moves_join {base path : Path} (given : base.text ≠ [])
    (relative : path.isAbsolute = false) :
    (base.join path).moves = base.moves ++ path.moves := by
  obtain ⟨stem, opened, whole⟩ := base.opened_eq
  have joined : (base.join path).text = stem ++ separator :: path.text := by
    rw [text_join given relative, opened, List.append_assoc]
    rfl
  rw [moves_of_opened whole]
  unfold moves steps
  rw [joined, Text.splitOn_append_cons, List.filter_append]

theorem text_isPrefix_opened (path : Path) : path.text <+: path.opened := by
  unfold opened
  split
  · exact List.prefix_rfl
  · exact List.prefix_append _ _

theorem text_isPrefix_join {base path : Path} (given : base.text ≠ [])
    (relative : path.isAbsolute = false) : base.text <+: (base.join path).text := by
  rw [text_join given relative]
  exact base.text_isPrefix_opened.trans (List.prefix_append _ _)

theorem isAbsolute_join {base path : Path} (given : base.text ≠ [])
    (relative : path.isAbsolute = false) : (base.join path).isAbsolute = base.isAbsolute :=
  (isAbsolute_of_isPrefix (text_isPrefix_join given relative) given).symm

/-- The steps of a joined path end in the steps of what was joined. -/
theorem steps_join {base path : Path} (given : base.text ≠ [])
    (relative : path.isAbsolute = false) :
    ∃ front, (base.join path).steps = front ++ path.steps := by
  obtain ⟨stem, opened, -⟩ := base.opened_eq
  refine ⟨Text.splitOn separator stem, ?_⟩
  unfold steps
  rw [text_join given relative, opened, List.append_assoc, List.singleton_append,
    Text.splitOn_append_cons]

theorem text_join_ne_nil {base path : Path} (given : base.text ≠ [])
    (relative : path.isAbsolute = false) : (base.join path).text ≠ [] := fun empty => by
  have part := text_isPrefix_join given relative
  rw [empty, List.prefix_nil] at part
  exact given part

/-! ### Leads and segments -/

/-- Do segments behind this lead come back when the text is cut? Behind a leading `.` the text has
to go on with a separator. -/
def LeadFits (lead : Text) (segments : List Text) : Prop :=
  lead = [] ∨ lead = [separator] ∨ lead = dot ∧ (segments = [] ∨ segments.head? = some [])

theorem LeadFits.of_isPrefix {lead : Text} {segments kept : List Text}
    (fits : LeadFits lead segments) (part : kept <+: segments) : LeadFits lead kept := by
  rcases fits with none | root | ⟨here, first⟩
  · exact Or.inl none
  · exact Or.inr (Or.inl root)
  · refine Or.inr (Or.inr ⟨here, ?_⟩)
    obtain ⟨rest, rfl⟩ := part
    cases kept with
    | nil => exact Or.inl rfl
    | cons head tail =>
      right
      simpa using first

/-- The moves of a path put together from a lead and segments are those of the segments. -/
theorem moves_ofSegments {lead : Text} {segments : List Text} (fits : LeadFits lead segments)
    (free : ∀ segment ∈ segments, separator ∉ segment) :
    (ofSegments lead segments).moves = segments.filter isMove := by
  have cut : (Text.splitOn separator (Text.joinWith separator segments)).filter isMove =
      segments.filter isMove := by
    by_cases empty : segments = []
    · subst empty
      rfl
    · rw [Text.splitOn_joinWith empty free]
  unfold moves steps ofSegments
  rcases fits with none | root | ⟨here, first⟩
  · simpa [none] using cut
  · have text : lead ++ Text.joinWith separator segments =
        [] ++ separator :: Text.joinWith separator segments := by simp [root]
    rw [text, Text.splitOn_append_cons, List.filter_append, cut]
    rfl
  · subst here
    cases segments with
    | nil => rfl
    | cons head tail =>
      have headEmpty : head = [] := by simpa using first
      subst headEmpty
      by_cases last : tail = []
      · subst last
        rfl
      · rw [Text.joinWith_cons last, List.nil_append, Text.splitOn_append_cons,
          Text.splitOn_joinWith last fun segment member =>
            free segment (List.mem_cons_of_mem _ member)]
        rfl

theorem lead_isPrefix (path : Path) : path.lead <+: path.text := by
  unfold lead
  split
  · next rest text => exact ⟨rest, by rw [text]; rfl⟩
  · next rest text => exact ⟨'/' :: rest, by rw [text]; rfl⟩
  · next text => exact ⟨[], by rw [text]; rfl⟩
  · exact List.nil_prefix

theorem lead_append_segments (path : Path) :
    path.lead ++ Text.joinWith separator path.segments = path.text := by
  obtain ⟨rest, whole⟩ := path.lead_isPrefix
  unfold segments
  rw [Text.joinWith_splitOn, ← whole, List.drop_left]

theorem ofSegments_segments (path : Path) : ofSegments path.lead path.segments = path := by
  unfold ofSegments
  rw [lead_append_segments]

theorem leadFits (path : Path) : LeadFits path.lead path.segments := by
  have cut : path.segments = Text.splitOn separator (path.text.drop path.lead.length) := rfl
  unfold lead at cut ⊢
  split at cut
  · exact Or.inr (Or.inl rfl)
  · next rest text =>
    refine Or.inr (Or.inr ⟨rfl, Or.inr ?_⟩)
    rw [cut, text]
    rfl
  · next text =>
    refine Or.inr (Or.inr ⟨rfl, Or.inr ?_⟩)
    rw [cut, text]
    rfl
  · exact Or.inl rfl

theorem separator_not_mem_of_mem_segments {path : Path} {segment : Text}
    (member : segment ∈ path.segments) : separator ∉ segment :=
  Text.not_mem_of_mem_splitOn member

theorem moves_eq_segments (path : Path) : path.moves = path.segments.filter isMove := by
  rw [← moves_ofSegments path.leadFits fun _ => separator_not_mem_of_mem_segments,
    ofSegments_segments]

/-! ### Idle segments at the end -/

theorem trimIdle_isPrefix (segments : List Text) : trimIdle segments <+: segments := by
  unfold trimIdle
  rw [← List.reverse_suffix, List.reverse_reverse]
  exact List.dropWhile_suffix _

/-- Taking steps that are no moves off the end keeps the moves. -/
theorem filter_dropEnd {dropped : Text → Bool}
    (idle : ∀ step, dropped step = true → isMove step = false)
    (segments : List Text) :
    (segments.reverse.dropWhile dropped).reverse.filter isMove = segments.filter isMove := by
  rw [List.filter_reverse, List.reverse_eq_iff, ← List.filter_reverse]
  generalize segments.reverse = backwards
  induction backwards with
  | nil => rfl
  | cons head rest inductionHypothesis =>
    by_cases drops : dropped head = true
    · rw [List.dropWhile_cons_of_pos drops, inductionHypothesis,
        List.filter_cons_of_neg (by simp [idle head drops])]
    · rw [List.dropWhile_cons_of_neg drops]

theorem filter_dropWhile_isIdle (segments : List Text) :
    (segments.dropWhile isIdle).filter isMove = segments.filter isMove := by
  have ends := filter_dropEnd (fun step (idle : isIdle step = true) => by simp [isMove, idle])
    segments.reverse
  rw [List.reverse_reverse, List.filter_reverse, List.filter_reverse] at ends
  exact List.reverse_injective ends

theorem filter_trimIdle (segments : List Text) :
    (trimIdle segments).filter isMove = segments.filter isMove :=
  filter_dropEnd (fun step idle => by simp [isMove, idle]) segments

/-- What is left ends in a move. -/
theorem trimIdle_eq_append {segments : List Text} (some : trimIdle segments ≠ []) :
    ∃ front last, trimIdle segments = front ++ [last] ∧ isMove last = true := by
  unfold trimIdle at some ⊢
  cases backwards : segments.reverse.dropWhile isIdle with
  | nil => simp [backwards] at some
  | cons head rest =>
    refine ⟨rest.reverse, head, by simp, ?_⟩
    have stopped := List.head?_dropWhile_not isIdle segments.reverse
    rw [backwards] at stopped
    simpa [isMove] using stopped

theorem trimIdle_of_isMove {front : List Text} {last : Text} (move : isMove last = true) :
    trimIdle (front ++ [last]) = front ++ [last] := by
  have stays : isIdle last = false := by simpa [isMove] using move
  simp [trimIdle, stays]

theorem namedSegments_isPrefix (path : Path) : path.namedSegments <+: path.segments :=
  trimIdle_isPrefix _

theorem filter_namedSegments (path : Path) : path.namedSegments.filter isMove = path.moves := by
  rw [moves_eq_segments]
  exact filter_trimIdle _

/-- A path that makes a move ends, idle segments apart, in its last move. -/
theorem namedSegments_eq_append {path : Path} (some : path.namedSegments ≠ []) :
    ∃ front last, path.namedSegments = front ++ [last] ∧ isMove last = true ∧
      path.moves = front.filter isMove ++ [last] := by
  obtain ⟨front, last, whole, move⟩ := trimIdle_eq_append some
  refine ⟨front, last, whole, move, ?_⟩
  rw [← filter_namedSegments]
  exact (congrArg _ whole).trans (by simp [move])

end AssetPipeline.Path
