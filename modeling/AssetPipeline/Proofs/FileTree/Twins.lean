/-
This file follows two walks that start from one place by paths that make the same moves. Step by
step they look up twins, which lead to the same places, so they list the same files, each by the
path that goes down to it from its own start. The one thing that may set them apart is the length
of a path: the walk that came by the longer one can meet a path that is too long for the system.
-/

import AssetPipeline.Proofs.FileTree.Trails
import AssetPipeline.Proofs.Path.Twins

namespace AssetPipeline.FileTree

open AssetPipeline.Path (Twins)

variable {tree : FileTree} {long short : Path} {name : Name}

/-! ### Looking up twins -/

/-- A path takes the same trail in another spelling that ends in a move, and to a directory in
any. -/
theorem trail_of_moves {path other : Path} {left : Nat} {reached : Location}
    (absolute : other.isAbsolute = path.isAbsolute) (moves : other.moves = path.moves)
    (ends : tree.isDirectoryAt reached = true ∨
      ∃ front last, other.steps = front ++ [last] ∧ Path.isMove last = true)
    (trail : tree.Trail linkLimit (path.startFrom tree.workingDirectory) path.steps left reached) :
    tree.Trail linkLimit (other.startFrom tree.workingDirectory) other.steps left reached := by
  have onwards := trail.filter
  refine Trail.of_filter ?_ ends
  unfold Path.moves at moves
  unfold Path.startFrom at onwards ⊢
  rwa [moves, absolute]

theorem locate_of_tooLong {path : Path} (given : path.text ≠ [])
    (clean : path.text.contains '\x00' = false) (tooLong : pathLimit ≤ path.text.byteLength) :
    tree.locate path = .error .nameTooLong := by
  unfold locate place placeOfSteps
  rw [if_neg (by rw [clean]; exact Bool.false_ne_true), if_neg given, if_pos tooLong]

/-- What the longer path leads to, the shorter one does when it ends in a move, or makes none. -/
theorem locate_short (sound : Sound tree) (twins : Twins long short)
    (shorter : short.text.byteLength ≤ long.text.byteLength)
    (ends : short.moves = [] ∨
      ∃ front last, short.steps = front ++ [last] ∧ Path.isMove last = true)
    {place : Location} (located : tree.locate long = .ok place) :
    tree.locate short = .ok place := by
  obtain ⟨usable, left, trail⟩ := (locate_eq_ok_iff_trail sound).mp located
  refine (locate_eq_ok_iff_trail sound).mpr
    ⟨twins.usable shorter usable, left, trail_of_moves twins.absolute twins.moves ?_ trail⟩
  refine ends.imp_left fun still => ?_
  -- Without a move both stay where they start, in a directory.
  have start := trail.isDirectoryAt long.steps_ne_nil
  have onwards := trail.filter
  have stays : long.steps.filter Path.isMove = [] := twins.moves.symm.trans still
  rw [stays] at onwards
  cases onwards
  exact start

/-- What the shorter path leads to, the longer one does, if it ends in a move or a directory stands
there, or it is too long. -/
theorem locate_long (sound : Sound tree) (twins : Twins long short) {place : Location}
    (ends : tree.isDirectoryAt place = true ∨
      ∃ front last, long.steps = front ++ [last] ∧ Path.isMove last = true)
    (located : tree.locate short = .ok place) :
    tree.locate long = .ok place ∨
      tree.locate long = .error .nameTooLong ∧ pathLimit ≤ long.text.byteLength := by
  obtain ⟨usable, left, trail⟩ := (locate_eq_ok_iff_trail sound).mp located
  rcases twins.usable_or_tooLong usable with fits | ⟨clean, tooLong⟩
  · exact Or.inl ((locate_eq_ok_iff_trail sound).mpr
      ⟨fits, left, trail_of_moves twins.absolute.symm twins.moves.symm ends trail⟩)
  · exact Or.inr ⟨locate_of_tooLong twins.given clean tooLong, tooLong⟩

theorem steps_child (given : long.text ≠ []) (entry : IsEntry name) :
    ∃ front last, (long.child name).steps = front ++ [last] ∧ Path.isMove last = true := by
  obtain ⟨front, steps⟩ := Path.steps_join given (Path.isAbsolute_of_isEntry entry)
  rw [Path.steps_of_isEntry entry] at steps
  exact ⟨front, name, steps, entry.move⟩

/-- An entry stands for the same place by either path, or for none by either, unless the longer path
is too long. -/
theorem resolveEntry_cases (sound : Sound tree) (twins : Twins long short) (entry : IsEntry name)
    (location : Location) :
    (∃ place, tree.resolveEntry location (long.child name) = .ok place ∧
        tree.resolveEntry location (short.child name) = .ok place) ∨
      (tree.resolveEntry location (long.child name) = .error .nameTooLong ∧
        pathLimit ≤ (long.child name).text.byteLength) ∨
      ∃ fault other, tree.resolveEntry location (long.child name) = .error fault ∧
        tree.resolveEntry location (short.child name) = .error other := by
  have further := twins.child entry
  unfold resolveEntry
  split
  · exact Or.inl ⟨location, rfl, rfl⟩
  · cases located : tree.locate (long.child name) with
    | ok place =>
      exact Or.inl ⟨place, rfl, locate_short sound further (twins.byteLength_child_le entry)
        (Or.inr (steps_child twins.shortGiven entry)) located⟩
    | error fault =>
      cases otherwise : tree.locate (short.child name) with
      | ok place =>
        rcases locate_long sound further (Or.inr (steps_child twins.given entry)) otherwise with
          same | ⟨tooLong, exceeds⟩
        · rw [located] at same
          cases same
        · rw [located] at tooLong
          exact Or.inr (Or.inl ⟨tooLong, exceeds⟩)
      | error other => exact Or.inr (Or.inr ⟨fault, other, rfl, rfl⟩)

/-! ### Walking from twins -/

/-- What two walks from twins come to: the same files, by the names on the way `down` to each; or a
path of the longer twin was too long; or both failed. -/
inductive Agree (down : List Name → Prop) (long short : Path) :
    Except WalkError (List Path) → Except WalkError (List Path) → Prop
  | listed (below : List (List Name)) (ways : ∀ names ∈ below, down names) :
      Agree down long short (.ok (below.map fun names => names.foldl Path.child long))
        (.ok (below.map fun names => names.foldl Path.child short))
  | tooLong (path : Path) (exceeds : pathLimit ≤ path.text.byteLength)
      (answer : Except WalkError (List Path)) :
      Agree down long short (.error (.unreadable path .nameTooLong)) answer
  | failed (error other : WalkError) : Agree down long short (.error error) (.error other)

/-- The names on the way down from a place: entries, and at least one if there is a directory. -/
structure Downward (tree : FileTree) (place : Location) (names : List Name) : Prop where
  entries : ∀ name ∈ names, IsEntry name
  further : tree.isDirectoryAt place = true → names ≠ []

theorem Downward.cons {place next : Location} {names : List Name} (entry : IsEntry name)
    (below : tree.Downward next names) : tree.Downward place (name :: names) where
  entries step member := by
    rcases List.mem_cons.mp member with rfl | later
    · exact entry
    · exact below.entries step later
  further _ := List.cons_ne_nil _ _

theorem agree_cons {answer other : Except WalkError (List Path)} {place next : Location}
    {answers others : List (Except WalkError (List Path))} (entry : IsEntry name)
    (here : Agree (tree.Downward next) (long.child name) (short.child name) answer other)
    (rest : Agree (tree.Downward place) long short (gather answers) (gather others)) :
    Agree (tree.Downward place) long short (gather (answer :: answers))
      (gather (other :: others)) := by
  cases here with
  | tooLong path exceeds => exact .tooLong path exceeds _
  | failed error otherError => exact .failed error otherError
  | listed below ways =>
    unfold gather
    generalize gather answers = gathered at rest ⊢
    generalize gather others = otherGathered at rest ⊢
    cases rest with
    | tooLong path exceeds => exact .tooLong path exceeds _
    | failed error otherError => exact .failed error otherError
    | listed more moreWays =>
      have all : ∀ names ∈ below.map (name :: ·) ++ more, tree.Downward place names := by
        intro names member
        rcases List.mem_append.mp member with first | later
        · obtain ⟨down, inBelow, rfl⟩ := List.mem_map.mp first
          exact (ways down inBelow).cons entry
        · exact moreWays names later
      have both : Agree (tree.Downward place) long short _ _ := .listed _ all
      rw [List.map_append, List.map_append, List.map_map, List.map_map] at both
      exact both

/-- What is gathered at the entries of a directory agrees when it does at each of them. -/
theorem agree_gather {place : Location} {names : List Name}
    {first second : Name → Except WalkError (List Path)}
    (entries : ∀ name ∈ names, IsEntry name)
    (each : ∀ name ∈ names, ∃ next,
      Agree (tree.Downward next) (long.child name) (short.child name) (first name) (second name)) :
    Agree (tree.Downward place) long short (gather (names.map first))
      (gather (names.map second)) := by
  induction names with
  | nil => exact .listed [] fun _ member => nomatch member
  | cons name rest inductionHypothesis =>
    obtain ⟨next, here⟩ := each name List.mem_cons_self
    exact agree_cons (entries name List.mem_cons_self) here
      (inductionHypothesis (fun name member => entries name (List.mem_cons_of_mem _ member))
        fun name member => each name (List.mem_cons_of_mem _ member))

/-- Walks from twins are in the same directories. -/
theorem find?_inside {inside others : List Visited}
    (same : inside.map Visited.location = others.map Visited.location)
    (meets : Location → Bool) :
    (inside.find? fun visited => meets visited.location).isSome =
      (others.find? fun visited => meets visited.location).isSome := by
  have found : ∀ visits : List Visited,
      (visits.find? fun visited => meets visited.location).isSome =
        (visits.map Visited.location).any meets := by
    intro visits
    rw [List.any_map, List.isSome_find?]
    rfl
  rw [found, found, same]

/-- Walks from twins agree. -/
theorem filesBelow_agree_twins (sound : Sound tree) {fuel : Nat} {inside others : List Visited}
    {location : Location} (twins : Twins long short)
    (same : inside.map Visited.location = others.map Visited.location) :
    Agree (tree.Downward location) long short (tree.filesBelow fuel inside long location)
      (tree.filesBelow fuel others short location) := by
  induction fuel generalizing inside others long short location with
  | zero => exact .listed [] fun _ member => nomatch member
  | succ fuel inductionHypothesis =>
    unfold filesBelow
    split
    · next file there =>
      refine .listed [[]] fun names member => ?_
      obtain rfl := List.mem_singleton.mp member
      refine ⟨fun _ inside => (nomatch inside), fun directory => ?_⟩
      rw [isDirectoryAt_iff, there] at directory
      cases directory
    · have entries : ∀ name ∈ tree.names location, IsEntry name := fun name member =>
        sound.isEntry (mem_names.mp member) name (by simp [Location.child])
      by_cases closed : tree.isClosedAt location = true
      · rw [if_pos closed, if_pos closed]
        exact .failed _ _
      rw [if_neg closed, if_neg closed]
      dsimp only
      refine agree_gather entries fun name member => ?_
      have entry := entries name member
      rcases resolveEntry_cases sound twins entry (location.child name) with
        ⟨next, one, two⟩ | ⟨tooLong, exceeds⟩ | ⟨fault, other, one, two⟩
      · refine ⟨next, ?_⟩
        rw [one, two]
        dsimp only
        have met := @find?_inside (⟨location, long⟩ :: inside) (⟨location, short⟩ :: others)
          (congrArg (location :: ·) same) fun visited =>
            tree.isLinkAt (location.child name) && tree.isDirectoryAt next && visited == next
        split
        · next ancestor loops =>
          rw [loops, Option.isSome_some] at met
          obtain ⟨otherAncestor, otherLoops⟩ := Option.isSome_iff_exists.mp met.symm
          rw [otherLoops]
          exact .failed _ _
        · next onwards =>
          rw [onwards, Option.isSome_none] at met
          have otherOnwards := Option.isSome_eq_false_iff.mp met.symm
          rw [Option.isNone_iff_eq_none] at otherOnwards
          rw [otherOnwards]
          exact inductionHypothesis (twins.child entry) (congrArg (location :: ·) same)
      · rw [tooLong]
        exact ⟨location, .tooLong _ exceeds _⟩
      · rw [one, two]
        exact ⟨location, .failed _ _⟩
    · exact .listed [] fun _ member => nomatch member

end AssetPipeline.FileTree
