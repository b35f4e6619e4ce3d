/-
This file says where a path leads when no link is in the way: each name goes one level down, each
`..` one level up, and the place reached depends on the moves alone. Steps that never go up more
often than they went down stay below the directory they start from, whichever directory it is.
-/

import AssetPipeline.Proofs.Path.Moves

namespace AssetPipeline

/-- Can something with this name stand in a directory? -/
structure IsEntry (name : Name) : Prop where
  move : Path.isMove name = true
  named : name ≠ Path.dotDot
  free : Path.separator ∉ name

theorem IsEntry.ne_nil {name : Name} (entry : IsEntry name) : name ≠ [] :=
  (Path.isMove_iff.mp entry.move).1

theorem isEntry_iff {name : Name} : IsEntry name ↔
    Path.isMove name = true ∧ name ≠ Path.dotDot ∧ Path.separator ∉ name :=
  ⟨fun ⟨move, named, free⟩ => ⟨move, named, free⟩, fun ⟨move, named, free⟩ => ⟨move, named, free⟩⟩

instance (name : Name) : Decidable (IsEntry name) := decidable_of_iff' _ isEntry_iff

namespace Location

/-- Where one step leads. -/
def step (location : Location) (step : Text) : Location :=
  if Path.isIdle step then location
  else if step = Path.dotDot then location.dropLast
  else location.child step

/-- Where steps lead, taken one after the other. -/
def along (location : Location) (steps : List Text) : Location := steps.foldl step location

/-- An entry of a directory, and then further down. -/
theorem child_append (location : Location) (name : Name) (below : List Name) :
    location.child name ++ below = location ++ name :: below := by
  unfold child
  rw [List.append_assoc, List.singleton_append]

theorem along_nil (location : Location) : location.along [] = location := rfl

theorem along_cons (location : Location) (first : Text) (rest : List Text) :
    location.along (first :: rest) = (location.step first).along rest := rfl

theorem along_append (location : Location) (first second : List Text) :
    location.along (first ++ second) = (location.along first).along second :=
  List.foldl_append

theorem step_of_idle {location : Location} {idle : Text} (still : Path.isMove idle = false) :
    location.step idle = location :=
  if_pos (by simpa [Path.isMove] using still)

theorem step_dotDot (location : Location) : location.step Path.dotDot = location.dropLast := rfl

theorem step_of_isMove {location : Location} {name : Text} (move : Path.isMove name = true)
    (named : name ≠ Path.dotDot) : location.step name = location.child name := by
  unfold step
  rw [if_neg (by simpa [Path.isMove] using move), if_neg named]

theorem step_of_isEntry {location : Location} {name : Name} (entry : IsEntry name) :
    location.step name = location.child name :=
  step_of_isMove entry.move entry.named

/-- Idle steps lead nowhere. -/
theorem along_filter (location : Location) (steps : List Text) :
    location.along (steps.filter Path.isMove) = location.along steps := by
  induction steps generalizing location with
  | nil => rfl
  | cons head rest inductionHypothesis =>
    by_cases move : Path.isMove head = true
    · rw [List.filter_cons_of_pos move, along_cons, along_cons, inductionHypothesis]
    · rw [List.filter_cons_of_neg move, along_cons, inductionHypothesis,
        step_of_idle (by simpa using move)]

/-- Names lead straight down. -/
theorem along_of_isEntry {names : List Name} (entries : ∀ name ∈ names, IsEntry name)
    (location : Location) : location.along names = location ++ names := by
  induction names generalizing location with
  | nil => simp [along_nil]
  | cons head rest inductionHypothesis =>
    rw [along_cons, step_of_isEntry (entries head List.mem_cons_self),
      inductionHypothesis fun name member => entries name (List.mem_cons_of_mem _ member), child,
      List.append_assoc, List.singleton_append]

/-- A name at the end leads to an entry of the directory that the steps in front lead to. -/
theorem along_concat {name : Name} (entry : IsEntry name) (location : Location)
    (front : List Text) : location.along (front ++ [name]) = (location.along front).child name := by
  rw [along_append, along_cons, step_of_isEntry entry, along_nil]

end Location

namespace Path

/-- Where the steps of a path start, for a process working in `working`. -/
def startFrom (working : Location) (path : Path) : Location :=
  if path.isAbsolute then [] else working

/-- The location a path names once every `.` and `..` is resolved, for a process working in
`working`. -/
def location (working : Location) (path : Path) : Location :=
  (path.startFrom working).along path.steps

theorem location_eq_moves (working : Location) (path : Path) :
    path.location working = (path.startFrom working).along path.moves :=
  (Location.along_filter _ _).symm

/-- What is joined to a base goes on from the base. -/
theorem location_join {base path : Path} (given : base.text ≠ [])
    (relative : path.isAbsolute = false)
    (working : Location) :
    (base.join path).location working = (base.location working).along path.moves := by
  rw [location_eq_moves, location_eq_moves, moves_join given relative, Location.along_append]
  unfold startFrom
  rw [isAbsolute_join given relative]

/-! ### Staying below a directory -/

/-- Do steps that start `depth` levels below a directory ever lead above it? -/
def climbs : Nat → List Text → Bool
  | _, [] => false
  | depth, step :: rest =>
    if isIdle step then climbs depth rest
    else if step = dotDot then
      match depth with
      | 0 => true
      | depth + 1 => climbs depth rest
    else climbs (depth + 1) rest

theorem climbs_filter (depth : Nat) (steps : List Text) :
    climbs depth (steps.filter isMove) = climbs depth steps := by
  induction steps generalizing depth with
  | nil => rfl
  | cons head rest inductionHypothesis =>
    by_cases move : isMove head = true
    · have moves : isIdle head = false := by simpa [isMove] using move
      rw [List.filter_cons_of_pos move]
      unfold climbs
      simp only [moves, Bool.false_eq_true, if_false]
      cases depth with
      | zero => simp only [inductionHypothesis]
      | succ depth => simp only [inductionHypothesis]
    · have still : isIdle head = true := by simpa [isMove] using move
      rw [List.filter_cons_of_neg move, inductionHypothesis]
      conv_rhs => unfold climbs
      rw [if_pos still]

/-- The first of steps that never climb do not climb. -/
theorem climbs_of_isPrefix {depth : Nat} {first steps : List Text} (part : first <+: steps)
    (stays : climbs depth steps = false) : climbs depth first = false := by
  induction first generalizing depth steps with
  | nil => rfl
  | cons head rest inductionHypothesis =>
    obtain ⟨others, rfl⟩ := part
    rw [List.cons_append] at stays
    unfold climbs at stays ⊢
    by_cases idle : isIdle head = true
    · rw [if_pos idle] at stays ⊢
      exact inductionHypothesis (List.prefix_append _ _) stays
    · rw [if_neg idle] at stays ⊢
      by_cases up : head = dotDot
      · rw [if_pos up] at stays ⊢
        cases depth with
        | zero => cases stays
        | succ depth => exact inductionHypothesis (List.prefix_append _ _) stays
      · rw [if_neg up] at stays ⊢
        exact inductionHypothesis (List.prefix_append _ _) stays

/-- Names never climb. -/
theorem climbs_of_dotDot_not_mem {steps : List Text} (named : dotDot ∉ steps) (depth : Nat) :
    climbs depth steps = false := by
  induction steps generalizing depth with
  | nil => rfl
  | cons head rest inductionHypothesis =>
    rw [List.mem_cons, not_or] at named
    unfold climbs
    rw [if_neg (Ne.symm named.1), inductionHypothesis named.2, inductionHypothesis named.2,
      ite_self]

/-- Names behind steps that do not climb do not climb either. -/
theorem climbs_append {depth : Nat} {steps names : List Text} (stays : climbs depth steps = false)
    (named : dotDot ∉ names) : climbs depth (steps ++ names) = false := by
  induction steps generalizing depth with
  | nil =>
    rw [List.nil_append]
    exact climbs_of_dotDot_not_mem named depth
  | cons head rest inductionHypothesis =>
    rw [List.cons_append]
    unfold climbs at stays ⊢
    by_cases idle : isIdle head = true
    · rw [if_pos idle] at stays ⊢
      exact inductionHypothesis stays
    · rw [if_neg idle] at stays ⊢
      by_cases up : head = dotDot
      · rw [if_pos up] at stays ⊢
        cases depth with
        | zero => cases stays
        | succ depth => exact inductionHypothesis stays
      · rw [if_neg up] at stays ⊢
        exact inductionHypothesis stays

/-- Steps that never climb lead to a place below the directory, the same for every directory. -/
theorem along_of_not_climbs {below : Location} {steps : List Text}
    (stays : climbs below.length steps = false) :
    ∃ reached : Location, ∀ base : Location, (base ++ below).along steps = base ++ reached := by
  induction steps generalizing below with
  | nil => exact ⟨below, fun _ => rfl⟩
  | cons head rest inductionHypothesis =>
    unfold climbs at stays
    by_cases idle : isIdle head = true
    · rw [if_pos idle] at stays
      obtain ⟨reached, leads⟩ := inductionHypothesis stays
      refine ⟨reached, fun base => ?_⟩
      rw [Location.along_cons, Location.step_of_idle (by simp [isMove, idle]), leads]
    · rw [if_neg idle] at stays
      by_cases up : head = dotDot
      · subst up
        rw [if_pos rfl] at stays
        rcases List.eq_nil_or_concat below with rfl | ⟨front, last, rfl⟩
        · cases stays
        · rw [List.concat_eq_append] at stays ⊢
          rw [List.length_append, List.length_singleton] at stays
          have stays : climbs front.length rest = false := stays
          obtain ⟨reached, leads⟩ := inductionHypothesis stays
          refine ⟨reached, fun base => ?_⟩
          rw [Location.along_cons, Location.step_dotDot, ← List.append_assoc,
            List.dropLast_concat, leads]
      · rw [if_neg up] at stays
        have stays : climbs (below ++ [head]).length rest = false := by simpa using stays
        obtain ⟨reached, leads⟩ := inductionHypothesis stays
        refine ⟨reached, fun base => ?_⟩
        have down : (base ++ below).step head = base ++ (below ++ [head]) := by
          unfold Location.step Location.child
          rw [if_neg idle, if_neg up, List.append_assoc]
        rw [Location.along_cons, down, leads]

end Path

end AssetPipeline
