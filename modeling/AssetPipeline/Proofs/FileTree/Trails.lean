/-
This file follows paths in trees that may hold links. A look-up that finds something follows a
trail: step by step, each from a directory, and where a step meets a link, on with the steps of
its target. The trail is said by rules, one for each kind of step, with the number of links that
may still be followed at its start and at its end, so that trails can be cut and put together.
Idle steps hardly matter to a trail, so two spellings of a path lead to the same place. When only
regular files come or change, every trail stays as it is, and a file that is made is found where
its path was looked up.
-/

import AssetPipeline.Proofs.FileTree.Plain
import AssetPipeline.Proofs.FileTree.Passage

namespace AssetPipeline.FileTree

/-- Does something other than a link stand there? -/
def Occupied (tree : FileTree) (location : Location) : Prop :=
  ∃ node, tree.node? location = some node ∧ ∀ target, node ≠ .link target

/-- The trail from a location by some steps to where they lead, with so many links to follow at
most, and so many left at the end. -/
inductive Trail (tree : FileTree) : Nat → Location → List Text → Nat → Location → Prop
  | here (links : Nat) (location : Location) : Trail tree links location [] links location
  | idle {links left : Nat} {location reached : Location} {step : Text} {rest : List Text}
      (directory : tree.isDirectoryAt location = true) (still : Path.isMove step = false)
      (onwards : Trail tree links location rest left reached) :
      Trail tree links location (step :: rest) left reached
  | up {links left : Nat} {location reached : Location} {rest : List Text}
      (directory : tree.isDirectoryAt location = true)
      (onwards : Trail tree links location.dropLast rest left reached) :
      Trail tree links location (Path.dotDot :: rest) left reached
  | down {links left : Nat} {location reached : Location} {step : Text} {rest : List Text}
      (directory : tree.isDirectoryAt location = true) (move : Path.isMove step = true)
      (named : step ≠ Path.dotDot) (short : step.byteLength ≤ longestName)
      (stands : tree.Occupied (location.child step))
      (onwards : Trail tree links (location.child step) rest left reached) :
      Trail tree links location (step :: rest) left reached
  | link {links left : Nat} {location reached : Location} {step : Text} {rest : List Text}
      {target : Path}
      (directory : tree.isDirectoryAt location = true) (move : Path.isMove step = true)
      (named : step ≠ Path.dotDot) (short : step.byteLength ≤ longestName)
      (linked : tree.node? (location.child step) = some (.link target))
      (onwards : Trail tree links (target.startFrom location) (target.steps ++ rest) left reached) :
      Trail tree (links + 1) location (step :: rest) left reached

variable {tree later : FileTree}

theorem occupied_of_isDirectoryAt {location : Location}
    (directory : tree.isDirectoryAt location = true) : tree.Occupied location :=
  ⟨.directory, isDirectoryAt_iff.mp directory, fun _ same => nomatch same⟩

theorem occupied_of_file? {location : Location} {file : File}
    (there : tree.file? location = some file) : tree.Occupied location :=
  ⟨.file file, file?_eq_some_iff.mp there, fun _ same => nomatch same⟩

/-- Nothing leads on from what is no directory. -/
theorem Trail.eq_of_leaf {links left : Nat} {location reached : Location} {steps : List Text}
    (trail : tree.Trail links location steps left reached)
    (leaf : tree.isDirectoryAt location = false) : reached = location := by
  cases trail with
  | here => rfl
  | idle directory => exact absurd (leaf.symm.trans directory) Bool.false_ne_true
  | up directory => exact absurd (leaf.symm.trans directory) Bool.false_ne_true
  | down directory => exact absurd (leaf.symm.trans directory) Bool.false_ne_true
  | link directory => exact absurd (leaf.symm.trans directory) Bool.false_ne_true

/-! ### Trees in which regular files come and change -/

/-- In a tree some regular files are new or have changed, and all else stands as it did, open or
closed. -/
structure Refiled (tree later : FileTree) (touched : Location → Prop) : Prop where
  working : later.workingDirectory = tree.workingDirectory
  node : ∀ place, later.node? place = tree.node? place ∨
    touched place ∧ (∃ file, later.node? place = some (.file file)) ∧
      (tree.node? place = none ∨ ∃ file, tree.node? place = some (.file file))
  closed : ∀ place, later.isClosedAt place = tree.isClosedAt place

namespace Refiled

variable {touched wider : Location → Prop}

theorem refl (tree : FileTree) (touched : Location → Prop) : Refiled tree tree touched :=
  ⟨rfl, fun _ => Or.inl rfl, fun _ => rfl⟩

theorem mono (refiled : Refiled tree later touched)
    (within : ∀ place, touched place → wider place) : Refiled tree later wider :=
  ⟨refiled.working, fun place => (refiled.node place).imp_right fun ⟨inside, rest⟩ =>
    ⟨within place inside, rest⟩, refiled.closed⟩

theorem trans {last : FileTree} (first : Refiled tree later touched)
    (second : Refiled later last touched) : Refiled tree last touched where
  working := second.working.trans first.working
  node place := by
    rcases second.node place with same | ⟨inside, file, before⟩
    · rw [same]
      exact first.node place
    · refine Or.inr ⟨inside, file, ?_⟩
      rcases first.node place with same | ⟨-, -, earlier⟩
      · rwa [same] at before
      · exact earlier
  closed place := (second.closed place).trans (first.closed place)

theorem elsewhere (refiled : Refiled tree later touched) {place : Location}
    (apart : ¬ touched place) : later.node? place = tree.node? place :=
  (refiled.node place).resolve_right fun changed => apart changed.1

theorem isDirectoryAt (refiled : Refiled tree later touched) (place : Location) :
    later.isDirectoryAt place = tree.isDirectoryAt place := by
  unfold FileTree.isDirectoryAt
  rcases refiled.node place with same | ⟨-, ⟨file, there⟩, none | ⟨other, before⟩⟩
  · rw [same]
  · rw [there, none]
    rfl
  · rw [there, before]
    rfl

theorem occupied (refiled : Refiled tree later touched) {place : Location}
    (before : tree.Occupied place) : later.Occupied place := by
  rcases refiled.node place with same | ⟨-, ⟨file, there⟩, -⟩
  · unfold Occupied
    rw [same]
    exact before
  · exact occupied_of_file? (file?_eq_some_iff.mpr there)

theorem link_iff (refiled : Refiled tree later touched) {place : Location} {target : Path} :
    later.node? place = some (.link target) ↔ tree.node? place = some (.link target) := by
  rcases refiled.node place with same | ⟨-, ⟨file, there⟩, none | ⟨other, before⟩⟩
  · rw [same]
  · rw [there, none]
    simp
  · rw [there, before]
    simp

/-- No link comes with the files. -/
theorem plain (refiled : Refiled tree later touched) (plain : Plain tree) (sound : Sound later) :
    Plain later where
  toSound := sound
  linkless entry member := by
    unfold FileTree.isLinkAt
    split
    · next target there => exact absurd (refiled.link_iff.mp there) plain.not_link
    · rfl

/-- The present has no part in it. -/
theorem of_clock (tree : FileTree) (clock : Instant) (touched : Location → Prop) :
    Refiled tree { tree with clock := clock } touched :=
  ⟨rfl, fun _ => Or.inl rfl, fun _ => rfl⟩

/-- Every trail stays as it is. -/
theorem trail (refiled : Refiled tree later touched) {links left : Nat}
    {location reached : Location} {steps : List Text}
    (trail : tree.Trail links location steps left reached) :
    later.Trail links location steps left reached := by
  induction trail with
  | here links location => exact .here links location
  | idle directory still _ inductionHypothesis =>
    exact .idle ((refiled.isDirectoryAt _).trans directory) still inductionHypothesis
  | up directory _ inductionHypothesis =>
    exact .up ((refiled.isDirectoryAt _).trans directory) inductionHypothesis
  | down directory move named short stands _ inductionHypothesis =>
    exact .down ((refiled.isDirectoryAt _).trans directory) move named short
      (refiled.occupied stands) inductionHypothesis
  | link directory move named short linked _ inductionHypothesis =>
    exact .link ((refiled.isDirectoryAt _).trans directory) move named short
      (refiled.link_iff.mpr linked) inductionHypothesis

/-- A trail that does not end at a new file was there before. -/
theorem trail_earlier (refiled : Refiled tree later touched) {links left : Nat}
    {location reached : Location} {steps : List Text}
    (trail : later.Trail links location steps left reached)
    (stood : (tree.node? reached).isSome = true) :
    tree.Trail links location steps left reached := by
  induction trail with
  | here links location => exact .here links location
  | idle directory still _ inductionHypothesis =>
    exact .idle ((refiled.isDirectoryAt _).symm.trans directory) still (inductionHypothesis stood)
  | up directory _ inductionHypothesis =>
    exact .up ((refiled.isDirectoryAt _).symm.trans directory) (inductionHypothesis stood)
  | @down links left location reached step rest directory move named short stands onwards
      inductionHypothesis =>
    refine .down ((refiled.isDirectoryAt _).symm.trans directory) move named short ?_
      (inductionHypothesis stood)
    rcases refiled.node (location.child step) with same | ⟨-, ⟨file, there⟩, none | ⟨other, before⟩⟩
    · unfold Occupied at stands ⊢
      rwa [← same]
    · -- A file that is new has nothing below, so the trail would end there.
      have leaf : later.isDirectoryAt (location.child step) = false := by
        simp [FileTree.isDirectoryAt, there]
      obtain rfl := onwards.eq_of_leaf leaf
      rw [none] at stood
      cases stood
    · exact occupied_of_file? (file?_eq_some_iff.mpr before)
  | link directory move named short linked _ inductionHypothesis =>
    exact .link ((refiled.isDirectoryAt _).symm.trans directory) move named short
      (refiled.link_iff.mp linked) (inductionHypothesis stood)

end Refiled

/-! ### Trails cut and put together -/

/-- A trail by some steps and then some more goes by the first steps first. -/
theorem trail_append_iff {links left : Nat} {location reached : Location}
    {first second : List Text} :
    tree.Trail links location (first ++ second) left reached ↔ ∃ between middle,
      tree.Trail links location first between middle ∧
        tree.Trail between middle second left reached := by
  constructor
  · intro trail
    generalize whole : first ++ second = steps at trail
    induction trail generalizing first with
    | here links location =>
      obtain ⟨rfl, rfl⟩ := List.append_eq_nil_iff.mp whole
      exact ⟨links, location, .here links location, .here links location⟩
    | @idle links left location reached step rest directory still onwards inductionHypothesis =>
      rcases List.append_eq_cons_iff.mp whole with ⟨rfl, rfl⟩ | ⟨tail, rfl, rfl⟩
      · exact ⟨links, location, .here links location, .idle directory still onwards⟩
      · obtain ⟨between, middle, one, two⟩ := inductionHypothesis rfl
        exact ⟨between, middle, .idle directory still one, two⟩
    | @up links left location reached rest directory onwards inductionHypothesis =>
      rcases List.append_eq_cons_iff.mp whole with ⟨rfl, rfl⟩ | ⟨tail, rfl, rfl⟩
      · exact ⟨links, location, .here links location, .up directory onwards⟩
      · obtain ⟨between, middle, one, two⟩ := inductionHypothesis rfl
        exact ⟨between, middle, .up directory one, two⟩
    | @down links left location reached step rest directory move named short stands onwards
        inductionHypothesis =>
      rcases List.append_eq_cons_iff.mp whole with ⟨rfl, rfl⟩ | ⟨tail, rfl, rfl⟩
      · exact ⟨links, location, .here links location,
          .down directory move named short stands onwards⟩
      · obtain ⟨between, middle, one, two⟩ := inductionHypothesis rfl
        exact ⟨between, middle, .down directory move named short stands one, two⟩
    | @link links left location reached step rest target directory move named short linked onwards
        inductionHypothesis =>
      rcases List.append_eq_cons_iff.mp whole with ⟨rfl, rfl⟩ | ⟨tail, rfl, rfl⟩
      · exact ⟨links + 1, location, .here _ location,
          .link directory move named short linked onwards⟩
      · obtain ⟨between, middle, one, two⟩ := inductionHypothesis (List.append_assoc _ _ _)
        exact ⟨between, middle, .link directory move named short linked one, two⟩
  · rintro ⟨between, middle, one, two⟩
    induction one with
    | here => exact two
    | idle directory still _ inductionHypothesis =>
      exact .idle directory still (inductionHypothesis two)
    | up directory _ inductionHypothesis => exact .up directory (inductionHypothesis two)
    | down directory move named short stands _ inductionHypothesis =>
      exact .down directory move named short stands (inductionHypothesis two)
    | link directory move named short linked _ inductionHypothesis =>
      have onwards := inductionHypothesis two
      rw [List.append_assoc] at onwards
      exact .link directory move named short linked onwards

/-- Empty steps stay in the directory where they are taken. -/
theorem Trail.isDirectoryAt_of_empty {links left : Nat} {location reached : Location}
    {steps : List Text} (trail : tree.Trail links location steps left reached) (some : steps ≠ [])
    (empty : steps.all (· == []) = true) : tree.isDirectoryAt reached = true := by
  induction trail with
  | here => exact absurd rfl some
  | @idle links left location reached step rest directory still onwards inductionHypothesis =>
    rw [List.all_cons, Bool.and_eq_true] at empty
    cases rest with
    | nil =>
      cases onwards
      exact directory
    | cons next others => exact inductionHypothesis (List.cons_ne_nil _ _) empty.2
  | up => simp [Path.dotDot] at empty
  | down _ move =>
    rw [List.all_cons, Bool.and_eq_true] at empty
    rw [eq_of_beq empty.1] at move
    cases move
  | link _ move =>
    rw [List.all_cons, Bool.and_eq_true] at empty
    rw [eq_of_beq empty.1] at move
    cases move

/-- A trail that begins where something stands ends where something stands. -/
theorem Trail.occupied (sound : Sound tree) {links left : Nat} {location reached : Location}
    {steps : List Text} (trail : tree.Trail links location steps left reached)
    (start : tree.Occupied location) : tree.Occupied reached := by
  induction trail with
  | here => exact start
  | idle _ _ _ inductionHypothesis => exact inductionHypothesis start
  | up directory _ inductionHypothesis =>
    refine inductionHypothesis (occupied_of_isDirectoryAt (sound.isDirectoryAt_dropLast ?_))
    rw [isDirectoryAt_iff.mp directory]
    rfl
  | down _ _ _ _ stands _ inductionHypothesis => exact inductionHypothesis stands
  | link directory _ _ _ _ _ inductionHypothesis =>
    refine inductionHypothesis ?_
    unfold Path.startFrom
    split
    · exact occupied_of_isDirectoryAt rfl
    · exact occupied_of_isDirectoryAt directory

/-- Every step is taken from a directory. -/
theorem Trail.isDirectoryAt {links left : Nat} {location reached : Location} {steps : List Text}
    (trail : tree.Trail links location steps left reached) (some : steps ≠ []) :
    tree.isDirectoryAt location = true := by
  cases trail with
  | here => exact absurd rfl some
  | idle directory => exact directory
  | up directory => exact directory
  | down directory => exact directory
  | link directory => exact directory

/-- Idle steps can be left out. -/
theorem Trail.filter {links left : Nat} {location reached : Location} {steps : List Text}
    (trail : tree.Trail links location steps left reached) :
    tree.Trail links location (steps.filter Path.isMove) left reached := by
  induction steps generalizing links location with
  | nil => exact trail
  | cons step rest inductionHypothesis =>
    by_cases move : Path.isMove step = true
    · rw [List.filter_cons_of_pos move, ← List.singleton_append]
      obtain ⟨between, middle, one, two⟩ := (@trail_append_iff _ _ _ _ _ [step] _).mp trail
      exact trail_append_iff.mpr ⟨between, middle, one, inductionHypothesis two⟩
    · rw [List.filter_cons_of_neg move]
      cases trail with
      | idle _ _ onwards => exact inductionHypothesis onwards
      | up => exact absurd Path.isMove_dotDot move
      | down _ moves => exact absurd moves move
      | link _ moves => exact absurd moves move

/-- Idle steps can be put in, in front of a move or in a directory. -/
theorem Trail.of_filter {links left : Nat} {location reached : Location} {steps : List Text}
    (trail : tree.Trail links location (steps.filter Path.isMove) left reached)
    (ends : tree.isDirectoryAt reached = true ∨
      ∃ front last, steps = front ++ [last] ∧ Path.isMove last = true) :
    tree.Trail links location steps left reached := by
  induction steps generalizing links location with
  | nil => exact trail
  | cons step rest inductionHypothesis =>
    have endsRest : rest = [] ∧ Path.isMove step = true ∨ tree.isDirectoryAt reached = true ∨
        ∃ front last, rest = front ++ [last] ∧ Path.isMove last = true := by
      rcases ends with directory | ⟨front, last, whole, move⟩
      · exact Or.inr (Or.inl directory)
      · rcases List.cons_eq_append_iff.mp whole with ⟨rfl, single⟩ | ⟨others, rfl, rfl⟩
        · obtain ⟨rfl, rfl⟩ := List.cons.inj single
          exact Or.inl ⟨rfl, move⟩
        · exact Or.inr (Or.inr ⟨others, last, rfl, move⟩)
    by_cases move : Path.isMove step = true
    · rw [List.filter_cons_of_pos move, ← List.singleton_append] at trail
      obtain ⟨between, middle, one, two⟩ := trail_append_iff.mp trail
      refine (@trail_append_iff _ _ _ _ _ [step] _).mpr ⟨between, middle, one, ?_⟩
      rcases endsRest with ⟨rfl, -⟩ | endsRest
      · exact two
      · exact inductionHypothesis two endsRest
    · have still : Path.isMove step = false := by simpa using move
      rw [List.filter_cons_of_neg move] at trail
      have endsRest := endsRest.resolve_left fun alone => move alone.2
      have onwards := inductionHypothesis trail endsRest
      refine .idle ?_ still onwards
      by_cases none : rest = []
      · subst none
        rcases endsRest with directory | ⟨front, last, whole, -⟩
        · cases onwards
          exact directory
        · simp at whole
      · exact onwards.isDirectoryAt none

/-! ### What a look-up finds -/

/-- A place where nothing stands yet and something can be put: a name in a directory. -/
structure Vacancy (tree : FileTree) (location : Location) : Prop where
  none : tree.node? location = none
  housed : tree.isDirectoryAt location.dropLast = true
  entries : ∀ name ∈ location, IsEntry name

/-- What it means that a look-up of any kind has come to a place. To a vacant place there is a trail
as soon as a file stands there. -/
def Arrives (tree : FileTree) (links : Nat) (location : Location) (steps : List Text) :
    Place → Prop
  | .found reached => ∃ left, tree.Trail links location steps left reached
  | .vacant reached => tree.Vacancy reached ∧ ∀ later touched, Refiled tree later touched →
      (later.file? reached).isSome = true → ∃ left, later.Trail links location steps left reached

/-- A rule for one step, good in all trees with the same directories and links, takes an arrival
back by that step. -/
theorem Arrives.back {links less : Nat} {location onwards : Location} {step : Text}
    {rest others : List Text} {place : Place}
    (rule : ∀ later touched, Refiled tree later touched → ∀ left reached,
      later.Trail less onwards others left reached →
        later.Trail links location (step :: rest) left reached)
    (arrives : tree.Arrives less onwards others place) :
    tree.Arrives links location (step :: rest) place := by
  cases place with
  | found reached =>
    obtain ⟨left, trail⟩ := arrives
    exact ⟨left, rule tree (fun _ => False) (.refl tree _) left reached trail⟩
  | vacant reached =>
    obtain ⟨vacancy, leads⟩ := arrives
    refine ⟨vacancy, fun later touched refiled there => ?_⟩
    obtain ⟨left, trail⟩ := leads later touched refiled there
    exact ⟨left, rule later touched refiled left reached trail⟩

theorem vacancy_child (sound : Sound tree) {location : Location} {name : Name}
    (directory : tree.isDirectoryAt location = true) (entry : IsEntry name)
    (none : tree.node? (location.child name) = none) : tree.Vacancy (location.child name) := by
  refine ⟨none, ?_, fun other member => ?_⟩
  · unfold Location.child
    rwa [List.dropLast_concat]
  · rcases List.mem_append.mp member with above | last
    · exact sound.isEntry (by rw [isDirectoryAt_iff.mp directory]; rfl) other above
    · exact List.mem_singleton.mp last ▸ entry

/-- A name for which there is nothing in a directory leads to a vacant place. -/
theorem arrives_vacant (sound : Sound tree) {links : Nat} {location : Location} {name : Name}
    (directory : tree.isDirectoryAt location = true) (entry : IsEntry name)
    (short : name.byteLength ≤ longestName) (none : tree.node? (location.child name) = none) :
    tree.Arrives links location [name] (.vacant (location.child name)) := by
  refine ⟨vacancy_child sound directory entry none, fun later touched refiled there => ?_⟩
  obtain ⟨file, there⟩ := Option.isSome_iff_exists.mp there
  exact ⟨links, .down ((refiled.isDirectoryAt _).trans directory) entry.move entry.named short
    (occupied_of_file? there) (.here links _)⟩

theorem arrives_of_takeSteps (sound : Sound tree) {aim : Aim} (followed : aim ≠ .entry)
    {links : Nat} {onLink : Location → List Text → Except Fault Place}
    (linked : ∀ location steps place, (∀ step ∈ steps, Path.separator ∉ step) →
      onLink location steps = .ok place →
        ∃ less, links = less + 1 ∧ tree.Arrives less location steps place)
    {location : Location} {steps : List Text} {place : Place}
    (free : ∀ step ∈ steps, Path.separator ∉ step)
    (found : tree.takeSteps aim onLink location steps = .ok place) :
    tree.Arrives links location steps place := by
  induction steps generalizing location with
  | nil =>
    obtain rfl := Except.ok.inj found
    exact ⟨links, .here links location⟩
  | cons step rest inductionHypothesis =>
    have freeRest : ∀ other ∈ rest, Path.separator ∉ other := fun other member =>
      free other (List.mem_cons_of_mem _ member)
    unfold takeSteps at found
    by_cases directory : tree.isDirectoryAt location = true
    · rw [if_neg (not_not_intro directory)] at found
      by_cases idle : Path.isIdle step = true
      · rw [if_pos idle] at found
        refine (inductionHypothesis freeRest found).back fun later touched refiled left reached =>
          .idle ((refiled.isDirectoryAt _).trans directory) (by simp [Path.isMove, idle])
      · have move : Path.isMove step = true := by simpa [Path.isMove] using idle
        rw [if_neg idle] at found
        by_cases up : step = Path.dotDot
        · rw [if_pos up] at found
          subst up
          exact (inductionHypothesis freeRest found).back fun later touched refiled left reached =>
            .up ((refiled.isDirectoryAt _).trans directory)
        · rw [if_neg up] at found
          split at found
          · cases found
          split at found
          · cases found
          next fits =>
          have short := Nat.le_of_not_lt fits
          split at found
          · next none =>
            split at found
            · next last =>
              subst last
              obtain rfl := Except.ok.inj found
              exact arrives_vacant sound directory ⟨move, up, free step List.mem_cons_self⟩ short
                none
            · cases found
          · next target link =>
            rw [if_neg fun last => followed last.2] at found
            have freeAll : ∀ other ∈ target.steps ++ rest, Path.separator ∉ other := by
              intro other member
              rcases List.mem_append.mp member with inTarget | inRest
              · exact Path.separator_not_mem_of_mem_steps inTarget
              · exact freeRest other inRest
            obtain ⟨less, rfl, arrives⟩ := linked _ _ _ freeAll found
            exact arrives.back fun later touched refiled left reached =>
              .link ((refiled.isDirectoryAt _).trans directory) move up short
                (refiled.link_iff.mpr link)
          · next node unlinked there =>
            have stands : tree.Occupied (location.child step) :=
              ⟨node, there, fun target same => unlinked target same⟩
            refine (inductionHypothesis freeRest found).back ?_
            exact fun later touched refiled left reached =>
              .down ((refiled.isDirectoryAt _).trans directory) move up short
                (refiled.occupied stands)
    · rw [if_pos directory] at found
      cases found

theorem arrives_of_follow (sound : Sound tree) {aim : Aim} (followed : aim ≠ .entry) {links : Nat}
    {location : Location} {steps : List Text} {place : Place}
    (free : ∀ step ∈ steps, Path.separator ∉ step)
    (found : tree.follow aim links location steps = .ok place) :
    tree.Arrives links location steps place := by
  induction links generalizing location steps place with
  | zero =>
    exact arrives_of_takeSteps sound followed (fun _ _ _ _ failed => by cases failed) free found
  | succ links inductionHypothesis =>
    exact arrives_of_takeSteps sound followed
      (fun _ _ _ free found => ⟨links, rfl, inductionHypothesis free found⟩) free found

/-- How a name is looked up when links are followed. -/
theorem takeSteps_name {aim : Aim} (followed : aim ≠ .entry)
    {onLink : Location → List Text → Except Fault Place} {location : Location} {step : Text}
    {rest : List Text} (directory : tree.isDirectoryAt location = true)
    (move : Path.isMove step = true) (named : step ≠ Path.dotDot)
    (short : step.byteLength ≤ longestName)
    (opens : ¬ (aim = .newFile ∧ rest ≠ [] ∧ rest.all (· == []) = true)) :
    tree.takeSteps aim onLink location (step :: rest) =
      match tree.node? (location.child step) with
      | none => if rest = [] then .ok (.vacant (location.child step)) else .error .notFound
      | some (.link target) => onLink (target.startFrom location) (target.steps ++ rest)
      | some _ => tree.takeSteps aim onLink (location.child step) rest := by
  have moved : ¬ Path.isIdle step = true := by simpa [Path.isMove] using move
  have onwards : ¬ (rest = [] ∧ aim = .entry) := fun wanted => followed wanted.2
  rw [takeSteps, if_neg (not_not_intro directory), if_neg moved, if_neg named, if_neg opens,
    if_neg (Nat.not_lt.mpr short)]
  simp only [if_neg onwards]
  rfl

/-- No trail to a file that is to be made ends in separators. -/
theorem Trail.not_empty_behind {aim : Aim} {links left : Nat} {location reached : Location}
    {rest : List Text} (onwards : tree.Trail links location rest left reached)
    (leaf : aim = .newFile → tree.isDirectoryAt reached = false) :
    ¬ (aim = .newFile ∧ rest ≠ [] ∧ rest.all (· == []) = true) := by
  rintro ⟨new, more, empty⟩
  exact Bool.false_ne_true ((leaf new).symm.trans (onwards.isDirectoryAt_of_empty more empty))

/-- Where there is a trail, a look-up finds its end. A file to be made has to be no directory. -/
theorem follow_of_trail {aim : Aim} (followed : aim ≠ .entry) {links left : Nat}
    {location reached : Location} {steps : List Text}
    (trail : tree.Trail links location steps left reached)
    (leaf : aim = .newFile → tree.isDirectoryAt reached = false) :
    tree.follow aim links location steps = .ok (.found reached) := by
  induction trail with
  | here links location =>
    obtain ⟨onLink, same⟩ := follow_eq_takeSteps tree aim links
    rw [same]
    rfl
  | @idle links left location reached step rest directory still _ inductionHypothesis =>
    obtain ⟨onLink, same⟩ := follow_eq_takeSteps tree aim links
    rw [same] at inductionHypothesis ⊢
    have idle : Path.isIdle step = true := by simpa [Path.isMove] using still
    rw [takeSteps, if_neg (not_not_intro directory), if_pos idle]
    exact inductionHypothesis leaf
  | @up links left location reached rest directory _ inductionHypothesis =>
    obtain ⟨onLink, same⟩ := follow_eq_takeSteps tree aim links
    rw [same] at inductionHypothesis ⊢
    rw [takeSteps, if_neg (not_not_intro directory), if_neg (by decide), if_pos rfl]
    exact inductionHypothesis leaf
  | @down links left location reached step rest directory move named short stands onwards
      inductionHypothesis =>
    have opens := onwards.not_empty_behind leaf
    obtain ⟨onLink, same⟩ := follow_eq_takeSteps tree aim links
    obtain ⟨node, there, unlinked⟩ := stands
    rw [same] at inductionHypothesis ⊢
    rw [takeSteps_name followed directory move named short opens, there]
    cases node with
    | link target => exact absurd rfl (unlinked target)
    | directory => exact inductionHypothesis leaf
    | file file => exact inductionHypothesis leaf
  | @link links left location reached step rest target directory move named short linked onwards
      inductionHypothesis =>
    obtain ⟨between, middle, -, last⟩ := trail_append_iff.mp onwards
    have opens := last.not_empty_behind leaf
    show tree.takeSteps aim (tree.follow aim links) location (step :: rest) = _
    rw [takeSteps_name followed directory move named short opens, linked]
    exact inductionHypothesis leaf

/-- A path leads to a place exactly when the system takes it and there is a trail. -/
theorem locate_eq_ok_iff_trail (sound : Sound tree) {path : Path} {reached : Location} :
    tree.locate path = .ok reached ↔ path.Usable ∧
      ∃ left,
        tree.Trail linkLimit (path.startFrom tree.workingDirectory) path.steps left reached := by
  unfold locate place
  constructor
  · intro found
    split at found
    · cases found
    · cases found
    next location placed =>
    obtain rfl := Except.ok.inj found
    have usable := usable_of_placeOfSteps placed
    rw [placeOfSteps_eq tree .target usable] at placed
    exact ⟨usable, arrives_of_follow sound (by decide)
      (fun _ => Path.separator_not_mem_of_mem_steps) placed⟩
  · rintro ⟨usable, left, trail⟩
    have found := follow_of_trail (show Aim.target ≠ .entry by decide) trail fun new => by cases new
    rw [placeOfSteps_eq tree .target usable, found]

/-- Where a path leads on from a base, the base leads to a directory. -/
theorem locate_base_of_join (sound : Sound tree) {base path : Path} (given : base.text ≠ [])
    (relative : path.isAbsolute = false) (some : path.moves ≠ []) {reached : Location}
    (located : tree.locate (base.join path) = .ok reached) :
    ∃ middle, tree.locate base = .ok middle ∧ tree.isDirectoryAt middle = true := by
  obtain ⟨usable, left, trail⟩ := (locate_eq_ok_iff_trail sound).mp located
  have onwards : tree.Trail linkLimit ((base.join path).startFrom tree.workingDirectory)
    (base.join path).moves left reached := trail.filter
  unfold Path.startFrom at onwards
  rw [Path.moves_join given relative, Path.isAbsolute_join given relative] at onwards
  obtain ⟨between, middle, first, second⟩ := trail_append_iff.mp onwards
  have directory := second.isDirectoryAt some
  exact ⟨middle, (locate_eq_ok_iff_trail sound).mpr
    ⟨usable.of_isPrefix (Path.text_isPrefix_join given relative) given, between,
      first.of_filter (Or.inl directory)⟩, directory⟩

/-- The file at a path is the one where it leads. -/
theorem fileAt?_of_located {path : Path} {location : Location}
    (located : tree.locate path = .ok location) : tree.fileAt? path = tree.file? location := by
  unfold fileAt? lookup file?
  rw [located]
  dsimp only
  cases tree.node? location with
  | none => rfl
  | some node => cases node <;> rfl

theorem fileAt?_eq_some_iff_locate {path : Path} {file : File} : tree.fileAt? path = some file ↔
    ∃ location, tree.locate path = .ok location ∧ tree.file? location = some file := by
  cases located : tree.locate path with
  | error fault =>
    unfold fileAt? lookup
    rw [located]
    simp
  | ok location =>
    rw [fileAt?_of_located located]
    simp

theorem lookup_eq_directory_iff {path : Path} : tree.lookup path = .ok .directory ↔
    ∃ location, tree.locate path = .ok location ∧ tree.isDirectoryAt location = true := by
  unfold lookup
  cases tree.locate path with
  | error fault => simp
  | ok location =>
    simp only [Except.ok.injEq, exists_eq_left', isDirectoryAt_iff]
    cases tree.node? location <;> simp

/-- Where a path leads there stands a file or a directory. -/
theorem occupied_of_locate (sound : Sound tree) {path : Path} {reached : Location}
    (located : tree.locate path = .ok reached) : tree.Occupied reached := by
  obtain ⟨-, left, trail⟩ := (locate_eq_ok_iff_trail sound).mp located
  exact trail.occupied sound (occupied_of_isDirectoryAt (trail.isDirectoryAt path.steps_ne_nil))

/-- A path goes on leading where it did when only regular files come or change. -/
theorem Refiled.locate (sound : Sound tree) (other : Sound later) {touched : Location → Prop}
    (refiled : Refiled tree later touched) {path : Path} {reached : Location}
    (located : tree.locate path = .ok reached) : later.locate path = .ok reached := by
  obtain ⟨usable, left, trail⟩ := (locate_eq_ok_iff_trail sound).mp located
  refine (locate_eq_ok_iff_trail other).mpr ⟨usable, left, ?_⟩
  unfold Path.startFrom at trail ⊢
  rw [refiled.working]
  exact refiled.trail trail

/-- A path that leads to something that stood before led there before. -/
theorem Refiled.locate_earlier (sound : Sound tree) (other : Sound later)
    {touched : Location → Prop} (refiled : Refiled tree later touched) {path : Path}
    {reached : Location} (located : later.locate path = .ok reached)
    (stood : (tree.node? reached).isSome = true) : tree.locate path = .ok reached := by
  obtain ⟨usable, left, trail⟩ := (locate_eq_ok_iff_trail other).mp located
  refine (locate_eq_ok_iff_trail sound).mpr ⟨usable, left, ?_⟩
  unfold Path.startFrom at trail ⊢
  rw [← refiled.working]
  exact refiled.trail_earlier trail stood

end AssetPipeline.FileTree
