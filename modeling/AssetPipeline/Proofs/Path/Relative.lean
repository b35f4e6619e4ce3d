/-
This file says what the operations that take a path apart do to its moves. The parent makes all
moves but the last and never has a longer text; the part of a joined path below its base is what
was joined to it, written without idle segments at its ends; swapping the extension swaps the last
move. Two paths with the same components make the same moves.
-/

import AssetPipeline.Path.Extension
import AssetPipeline.Proofs.Path.Moves

namespace AssetPipeline.Path

/-! ### The parent and the paths above -/

/-- A path put together from the beginning of a path's segments begins its text. -/
theorem ofSegments_isPrefix {path : Path} {kept : List Text} (part : kept <+: path.segments) :
    (ofSegments path.lead kept).text <+: path.text := by
  conv_rhs => rw [← path.lead_append_segments]
  unfold ofSegments
  rw [List.prefix_append_right_inj]
  exact Text.joinWith_isPrefix part

theorem moves_ofSegments_isPrefix {path : Path} {kept : List Text} (part : kept <+: path.segments) :
    (ofSegments path.lead kept).moves = kept.filter isMove :=
  moves_ofSegments (path.leadFits.of_isPrefix part) fun _ member =>
    separator_not_mem_of_mem_segments (part.subset member)

/-- What a path with a parent and that parent look like: the parent's text begins the path's, and
the parent makes all moves of the path but the last. -/
theorem parent?_eq_some {path parent : Path} (above : path.parent? = some parent) :
    parent.text <+: path.text ∧ parent.moves = path.moves.dropLast := by
  unfold parent? at above
  split at above
  · next empty =>
    split at above
    · obtain rfl := Option.some.inj above
      rw [← path.filter_namedSegments, empty]
      exact ⟨List.nil_prefix, rfl⟩
    · cases above
  · next named =>
    obtain rfl := Option.some.inj above
    obtain ⟨front, last, whole, -, moves⟩ := namedSegments_eq_append fun empty => named empty
    rw [whole, List.dropLast_concat]
    have part : trimIdle front <+: path.segments :=
      (trimIdle_isPrefix front).trans
        ((List.prefix_append front [last]).trans (whole ▸ path.namedSegments_isPrefix))
    refine ⟨ofSegments_isPrefix part, ?_⟩
    rw [moves_ofSegments_isPrefix part, filter_trimIdle, moves, List.dropLast_concat]

/-- A path without a parent makes no move. -/
theorem moves_of_parent?_eq_none {path : Path} (none : path.parent? = none) : path.moves = [] := by
  unfold parent? at none
  split at none
  · next empty => rw [← path.filter_namedSegments, empty, List.filter_nil]
  · cases none

/-- A path put together from segments that end in a move ends in that step. -/
theorem steps_ofSegments_concat {lead : Text} {front : List Text} {last : Text}
    (fits : LeadFits lead (front ++ [last])) (move : isMove last = true)
    (free : separator ∉ last) :
    ∃ before, (ofSegments lead (front ++ [last])).steps = before ++ [last] := by
  have alone : Text.splitOn separator last = [last] := Text.splitOn_of_not_mem free
  unfold steps ofSegments
  by_cases first : front = []
  · subst first
    rcases fits with none | root | ⟨-, none | same⟩
    · exact ⟨[], by rw [none]; exact alone⟩
    · refine ⟨[[]], ?_⟩
      have text : lead ++ Text.joinWith separator ([] ++ [last]) = [] ++ separator :: last := by
        rw [root]
        rfl
      rw [text, Text.splitOn_append_cons, alone]
      rfl
    · cases none
    · obtain rfl : last = [] := by simpa using same
      cases move
  · rw [Text.joinWith_append first (List.cons_ne_nil _ _), ← List.append_assoc,
      Text.splitOn_append_cons]
    exact ⟨_, congrArg _ alone⟩

/-- A parent makes no moves, or it ends in its last one. -/
theorem ends_of_parent? {path parent : Path} (above : path.parent? = some parent) :
    parent.moves = [] ∨
      ∃ front last, parent.steps = front ++ [last] ∧ isMove last = true := by
  unfold parent? at above
  split at above
  · split at above
    · obtain rfl := Option.some.inj above
      exact Or.inl rfl
    · cases above
  · next named =>
    obtain rfl := Option.some.inj above
    have part : trimIdle path.namedSegments.dropLast <+: path.segments :=
      (trimIdle_isPrefix _).trans ((List.dropLast_prefix _).trans path.namedSegments_isPrefix)
    by_cases still : trimIdle path.namedSegments.dropLast = []
    · left
      rw [moves_ofSegments_isPrefix part, still]
      rfl
    · obtain ⟨front, last, whole, move⟩ := trimIdle_eq_append still
      rw [whole] at part ⊢
      obtain ⟨before, steps⟩ := steps_ofSegments_concat (path.leadFits.of_isPrefix part) move
        (separator_not_mem_of_mem_segments (part.subset (by simp)))
      exact Or.inr ⟨before, last, steps, move⟩

/-- A path makes no more moves than its text has characters. -/
theorem length_moves_le (path : Path) : path.moves.length ≤ path.text.length := by
  unfold moves steps Text.splitOn
  induction path.text with
  | nil => exact Nat.le_refl _
  | cons head rest inductionHypothesis =>
    rw [Text.splitWhere]
    split
    · rw [List.filter_cons_of_neg (by decide)]
      exact Nat.le_succ_of_le inductionHypothesis
    · cases pieces : Text.splitWhere (· == separator) rest with
      | nil => exact absurd pieces (Text.splitWhere_ne_nil _ _)
      | cons piece more =>
        rw [pieces] at inductionHypothesis
        have fewer : (more.filter isMove).length ≤ rest.length :=
          Nat.le_trans ((List.sublist_cons_self piece more).filter isMove).length_le
            inductionHypothesis
        have most := List.length_filter_le isMove [head :: piece]
        show (([head :: piece] ++ more).filter isMove).length ≤ rest.length + 1
        rw [List.filter_append, List.length_append]
        rw [List.length_singleton] at most
        omega

theorem ancestorsWithin_eq_cons (path : Path) (fuel : Nat) :
    ∃ above, path.ancestorsWithin fuel = path :: above := by
  cases fuel with
  | zero => exact ⟨_, rfl⟩
  | succ fuel =>
    unfold ancestorsWithin
    split <;> exact ⟨_, rfl⟩

/-- The path and the paths above it begin its text and make its first moves. -/
theorem of_mem_ancestors {path above : Path} (member : above ∈ path.ancestors) :
    above.text <+: path.text ∧ above.moves <+: path.moves := by
  unfold ancestors at member
  generalize path.text.length = fuel at member
  induction fuel generalizing path with
  | zero =>
    obtain rfl := List.mem_singleton.mp member
    exact ⟨List.prefix_rfl, List.prefix_rfl⟩
  | succ fuel inductionHypothesis =>
    unfold ancestorsWithin at member
    split at member
    · obtain rfl := List.mem_singleton.mp member
      exact ⟨List.prefix_rfl, List.prefix_rfl⟩
    · next parent parentEq =>
      obtain ⟨text, moves⟩ := parent?_eq_some parentEq
      rcases List.mem_cons.mp member with rfl | higher
      · exact ⟨List.prefix_rfl, List.prefix_rfl⟩
      · obtain ⟨textAbove, movesAbove⟩ := inductionHypothesis higher
        exact ⟨textAbove.trans text, movesAbove.trans (moves ▸ List.dropLast_prefix _)⟩

/-- The path of a directory that is the front of a path, as that is written, short of at least its
last move. -/
structure Fronts (directory path : Path) : Prop where
  text : directory.text <+: path.text
  moves : directory.moves <+: path.moves
  proper : directory.moves ≠ path.moves

theorem Fronts.moves_isPrefix_dropLast {directory path : Path} (fronts : directory.Fronts path) :
    directory.moves <+: path.moves.dropLast := by
  have part := fronts.moves
  have proper := fronts.proper
  rcases List.eq_nil_or_concat path.moves with none | ⟨front, last, whole⟩
  · rw [none, List.prefix_nil] at part
    exact absurd (part.trans none.symm) proper
  · rw [List.concat_eq_append] at whole
    rw [whole, List.prefix_concat_iff] at part
    rw [whole, List.dropLast_concat]
    exact part.resolve_left (whole ▸ proper)

/-- The directories above a path that have a text are fronts of it. -/
theorem fronts_of_mem_ancestors {path parent directory : Path} (above : path.parent? = some parent)
    (member : directory ∈ parent.ancestors) (given : directory.text ≠ []) :
    directory.Fronts path := by
  obtain ⟨text, moves⟩ := parent?_eq_some above
  obtain ⟨textAbove, movesAbove⟩ := of_mem_ancestors member
  refine ⟨textAbove.trans text, movesAbove.trans (moves ▸ List.dropLast_prefix _), fun whole => ?_⟩
  have makesMoves : path.moves ≠ [] := by
    unfold parent? at above
    split at above
    · split at above
      · obtain rfl := Option.some.inj above
        exact absurd (List.prefix_nil.mp textAbove) given
      · cases above
    · next named =>
      obtain ⟨front, last, -, -, makes⟩ := namedSegments_eq_append fun empty => named empty
      rw [makes]
      exact List.concat_ne_nil _ _
  have shorter := movesAbove.length_le
  rw [whole, moves, List.length_dropLast] at shorter
  have := List.length_pos_iff.mpr makesMoves
  omega

/-! ### Components -/

/-- A path has no lead exactly when its first step is a move. -/
theorem lead_eq_nil_iff {path : Path} (given : path.text ≠ []) :
    path.lead = [] ↔ ∃ move rest, path.steps = move :: rest ∧ isMove move = true := by
  rcases path with ⟨_ | ⟨head, tail⟩⟩
  · exact absurd rfl given
  unfold steps lead Text.splitOn
  by_cases slash : head = '/'
  · subst slash
    simp [Text.splitWhere, separator, isMove, isIdle]
  obtain ⟨piece, more, pieces⟩ : ∃ piece more, Text.splitOn separator tail = piece :: more :=
    List.exists_cons_of_ne_nil (Text.splitOn_ne_nil separator tail)
  have tailEq := Text.joinWith_splitOn separator tail
  have free : separator ∉ piece :=
    Text.not_mem_of_mem_splitOn (pieces ▸ List.mem_cons_self)
  rw [pieces] at tailEq
  unfold Text.splitOn at pieces
  rw [Text.splitWhere, pieces, if_neg (by simpa [separator] using slash)]
  by_cases here : head = '.'
  · subst here
    rcases piece with _ | ⟨next, others⟩
    · cases more with
      | nil => simp [← tailEq, Text.joinWith, dot, isMove, isIdle]
      | cons _ _ => simp [← tailEq, Text.joinWith, dot, isMove, isIdle, separator]
    · have differs : next ≠ '/' := fun same => free (same ▸ List.mem_cons_self)
      cases more with
      | nil => simp [← tailEq, Text.joinWith, dot, isMove, isIdle, differs]
      | cons _ _ => simp [← tailEq, Text.joinWith, dot, isMove, isIdle, differs]
  · simp [slash, here, dot, isMove, isIdle]

/-- The segments of a path without a lead begin with a move. -/
theorem segments_of_lead_nil {path : Path} (given : path.text ≠ []) (none : path.lead = []) :
    ∃ move rest, path.segments = move :: rest ∧ isMove move = true := by
  obtain ⟨move, rest, whole, moves⟩ := (lead_eq_nil_iff given).mp none
  refine ⟨move, rest, ?_, moves⟩
  rw [← whole]
  unfold Path.segments
  rw [none]
  rfl

/-- The component a move is. -/
def componentOf (move : Text) : Component := if move = dotDot then .up else .name move

theorem componentOf_injective {first second : Text}
    (same : componentOf first = componentOf second) :
    first = second := by
  unfold componentOf at same
  split at same <;> split at same <;> simp_all

theorem filterMap_componentOf? (segments : List Text) :
    segments.filterMap componentOf? = (segments.filter isMove).map componentOf := by
  induction segments with
  | nil => rfl
  | cons head rest inductionHypothesis =>
    by_cases idle : isIdle head = true
    · simp [componentOf?, isMove, idle, inductionHypothesis]
    · rw [List.filterMap_cons, List.filter_cons_of_pos (by simpa [isMove] using idle),
        List.map_cons, inductionHypothesis]
      have named : componentOf? head = some (componentOf head) := by
        unfold componentOf? componentOf
        rw [if_neg idle]
        split <;> rfl
      rw [named]

/-- Behind the lead, the components are the moves. -/
theorem components_eq (path : Path) :
    path.components = path.leadComponents ++ path.moves.map componentOf := by
  unfold components
  rw [filterMap_componentOf?, moves_eq_segments]

theorem moves_injective_of_lead {first second : Path} (lead : first.lead = second.lead)
    (absolute : first.isAbsolute = second.isAbsolute)
    (same : first.components = second.components) : first.moves = second.moves := by
  rw [components_eq, components_eq] at same
  unfold leadComponents at same
  rw [lead, absolute, List.append_cancel_left_eq] at same
  exact List.map_injective_iff.mpr (fun _ _ => componentOf_injective) same

/-! ### The part below a base -/

/-- The lead of a path shows in the first two characters. -/
theorem lead_join {base path : Path} (given : base.text ≠ []) (relative : path.isAbsolute = false) :
    (base.join path).lead = base.lead := by
  have text := text_join given relative
  unfold opened at text
  unfold lead
  rw [text]
  rcases base with ⟨_ | ⟨first, _ | ⟨second, rest⟩⟩⟩
  · exact absurd rfl given
  · by_cases slash : first = '/'
    · subst slash
      rfl
    · by_cases here : first = '.'
      · subst here
        rfl
      · simp_all [separator]
  · have start : ∃ more, (if (first :: second :: rest).getLast? = some separator then
        first :: second :: rest else first :: second :: rest ++ [separator]) ++ path.text =
        first :: second :: more := by
      split
      · exact ⟨_, rfl⟩
      · exact ⟨_, rfl⟩
    obtain ⟨more, start⟩ := start
    simp only [start]
    split <;> split <;> simp_all

/-- The segments of a joined path end in the steps of what was joined, and another end behind the
same front is another path joined to the base. -/
theorem segments_join {base path : Path} (given : base.text ≠ [])
    (relative : path.isAbsolute = false) : ∃ front,
      (base.join path).segments = front ++ path.steps ∧ front.filter isMove = base.moves ∧
        ∀ rest, rest ≠ [] → (ofSegments base.lead (front ++ rest)).text =
          base.opened ++ Text.joinWith separator rest := by
  obtain ⟨stem, opened, whole⟩ := base.opened_eq
  have cut : (base.join path).segments =
      Text.splitOn separator ((stem ++ [separator] ++ path.text).drop base.lead.length) := by
    unfold segments
    rw [lead_join given relative, text_join given relative, opened]
  have begins : base.lead <+: stem ++ [separator] :=
    opened ▸ base.lead_isPrefix.trans base.text_isPrefix_opened
  rw [moves_eq_segments]
  rcases List.prefix_concat_iff.mp begins with all | ⟨middle, split⟩
  · refine ⟨[], ?_, ?_, ?_⟩
    · rw [cut, ← all, List.drop_left]
      rfl
    · have text : base.text = base.lead := by
        refine (List.IsPrefix.eq_of_length_le base.lead_isPrefix ?_).symm
        rw [all, List.length_append]
        rcases whole with short | closed
        · exact short ▸ Nat.le_add_right _ _
        · exact closed ▸ Nat.le_of_eq List.length_append
      unfold segments
      rw [text, List.drop_length]
      rfl
    · intro rest _
      rw [opened, ← all]
      rfl
  · refine ⟨Text.splitOn separator middle, ?_, ?_, ?_⟩
    · rw [cut, ← split, List.append_assoc, List.append_assoc, List.drop_left, List.singleton_append,
        Text.splitOn_append_cons]
      rfl
    · unfold segments
      rcases whole with whole | whole
      · rw [whole, ← split, List.drop_left]
      · rw [whole, ← split, List.append_assoc, List.drop_left, Text.splitOn_append_cons]
        simp [Text.splitOn, Text.splitWhere, isMove, isIdle]
    · intro rest some
      unfold ofSegments
      rw [Text.joinWith_append (Text.splitOn_ne_nil _ _) some, Text.joinWith_splitOn, opened,
        ← split]
      simp

/-- Dropping as many named segments as the front has leaves, idle ones apart, what stands behind
the front. -/
theorem dropWhile_dropNamed (front rest : List Text) :
    (dropNamed (front.filter isMove).length (front ++ rest)).dropWhile isIdle =
      rest.dropWhile isIdle := by
  induction front with
  | nil => simp [dropNamed]
  | cons head front inductionHypothesis =>
    by_cases idle : isIdle head = true
    · have still : isMove head = false := by simp [isMove, idle]
      rw [List.filter_cons_of_neg (by simp [still]), List.cons_append]
      cases count : (front.filter isMove).length with
      | zero =>
        rw [count, dropNamed] at inductionHypothesis
        rw [dropNamed, List.dropWhile_cons_of_pos idle]
        exact inductionHypothesis
      | succ more =>
        rw [count] at inductionHypothesis
        rw [dropNamed, if_pos idle]
        exact inductionHypothesis
    · have moves : isMove head = true := by simpa [isMove] using idle
      rw [List.filter_cons_of_pos moves, List.length_cons, List.cons_append, dropNamed, if_neg idle]
      exact inductionHypothesis

/-- A path that is written at all has a component: without a lead its first step is a move. -/
theorem components_ne_nil {path : Path} (given : path.text ≠ []) : path.components ≠ [] := by
  intro none
  rw [components_eq, List.append_eq_nil_iff, List.map_eq_nil_iff] at none
  obtain ⟨noLead, noMoves⟩ := none
  have lead : path.lead = [] := by
    by_contra some
    unfold leadComponents at noLead
    rw [if_neg some] at noLead
    split at noLead <;> cases noLead
  obtain ⟨move, rest, steps, moves⟩ := (lead_eq_nil_iff given).mp lead
  unfold Path.moves at noMoves
  rw [steps, List.filter_cons_of_pos moves] at noMoves
  cases noMoves

/-- The part of a joined path below its base is what was joined, without idle steps at the ends. -/
theorem below?_join {base path : Path} (given : base.text ≠ [])
    (relative : path.isAbsolute = false) :
    (base.join path).below? base =
      some (ofSegments [] (trimIdle (path.steps.dropWhile isIdle))) := by
  obtain ⟨front, segments, moves, -⟩ := segments_join given relative
  have leads : (base.join path).leadComponents = base.leadComponents := by
    unfold leadComponents
    rw [lead_join given relative, isAbsolute_join given relative]
  have begins : base.components.isPrefixOf (base.join path).components = true := by
    rw [List.isPrefixOf_iff_prefix, components_eq, components_eq, leads, moves_join given relative,
      List.map_append, ← List.append_assoc]
    exact List.prefix_append _ _
  have taken : base.components.length - (base.join path).leadComponents.length =
      (front.filter isMove).length := by
    rw [leads, components_eq, List.length_append, List.length_map, moves]
    exact Nat.add_sub_cancel_left _ _
  unfold below?
  rw [if_pos begins, if_neg (components_ne_nil given)]
  simp only [taken, segments, dropWhile_dropNamed]

/-! ### Order -/

theorem rank_injective : Function.Injective rank := by
  intro first second same
  cases first <;> cases second <;> simp_all [rank]
  exact List.map_injective_iff.mpr (fun _ _ => Char.toNat_inj.mp) same

/-- Paths that stand level with each other have the same components. -/
theorem components_eq_of_notAfter {first second : Path} (before : notAfter first second = true)
    (after : notAfter second first = true) : first.components = second.components := by
  unfold notAfter at before after
  rw [order_eq_swap second first, Ordering.isLE_swap] at after
  have level : order first second = .eq := by
    cases ordering : order first second <;> simp_all
  unfold order at level
  exact List.map_injective_iff.mpr rank_injective (Std.LawfulEqCmp.eq_of_compare level)

/-- Sorting forgets the order in which paths are listed, when those that stand level are the
same. -/
theorem sorted_eq_of_perm {paths others : List Path} (perm : paths.Perm others)
    (distinct : ∀ first ∈ paths, ∀ second ∈ paths,
      first.components = second.components → first = second) : sorted paths = sorted others := by
  refine List.Perm.eq_of_pairwise ?_ (sorted_pairwise paths) (sorted_pairwise others)
    ((List.mergeSort_perm _ _).trans (perm.trans (List.mergeSort_perm _ _).symm))
  intro first second inFirst inSecond before after
  exact distinct first (mem_sorted.mp inFirst) second
    (perm.mem_iff.mpr (mem_sorted.mp inSecond)) (components_eq_of_notAfter before after)

end AssetPipeline.Path
