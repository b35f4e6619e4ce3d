/-
This file finds what a path leads to in a plain tree. Without links the place is fixed by the path
alone, and the tree only decides whether the steps can be taken: each is taken from a directory,
and each name has to stand there. So a look-up answers exactly when the path reaches its location,
whatever it is looked up for, and a path that reaches a file or directory still does when the tree
has grown.
-/

import AssetPipeline.Proofs.FileTree.Plain
import AssetPipeline.Proofs.Path.Bare

namespace AssetPipeline

namespace Path

/-- A path that the system takes: written, not too long, and without NUL. -/
structure Usable (path : Path) : Prop where
  clean : path.text.contains '\x00' = false
  given : path.text ≠ []
  short : path.text.byteLength < FileTree.pathLimit

theorem Usable.of_isPrefix {first second : Path} (usable : second.Usable)
    (part : first.text <+: second.text) (given : first.text ≠ []) : first.Usable where
  clean := by
    have clean := usable.clean
    simp only [List.contains_eq_mem, decide_eq_false_iff_not] at clean ⊢
    exact fun inside => clean (part.subset inside)
  given := given
  short := Nat.lt_of_le_of_lt (Text.byteLength_le_of_isPrefix part) usable.short

/-- A path that stays within the limits of the system, as a whole and step by step. -/
structure Fits (path : Path) : Prop where
  usable : path.Usable
  short : ∀ step ∈ path.steps, step.byteLength ≤ FileTree.longestName

theorem usable_iff {path : Path} : path.Usable ↔ path.text.contains '\x00' = false ∧
    path.text ≠ [] ∧ path.text.byteLength < FileTree.pathLimit :=
  ⟨fun ⟨clean, given, short⟩ => ⟨clean, given, short⟩,
    fun ⟨clean, given, short⟩ => ⟨clean, given, short⟩⟩

instance (path : Path) : Decidable path.Usable := decidable_of_iff' _ usable_iff

theorem fits_iff {path : Path} : path.Fits ↔ path.Usable ∧
    ∀ step ∈ path.steps, step.byteLength ≤ FileTree.longestName :=
  ⟨fun ⟨usable, short⟩ => ⟨usable, short⟩, fun ⟨usable, short⟩ => ⟨usable, short⟩⟩

instance (path : Path) : Decidable path.Fits := decidable_of_iff' _ fits_iff

end Path

namespace FileTree

/-! ### Steps that can be taken -/

/-- Steps can be taken from a location: each from a directory, and each name stands there. -/
def Passes (tree : FileTree) : Location → List Text → Prop
  | _, [] => True
  | location, step :: rest =>
    tree.isDirectoryAt location = true ∧
      (Path.isMove step = true → step ≠ Path.dotDot →
        step.byteLength ≤ longestName ∧ (tree.node? (location.child step)).isSome = true) ∧
      Passes tree (location.step step) rest

variable {tree : FileTree}

theorem passes_append {location : Location} {first second : List Text} :
    tree.Passes location (first ++ second) ↔
      tree.Passes location first ∧ tree.Passes (location.along first) second := by
  induction first generalizing location with
  | nil => simp [Passes, Location.along_nil]
  | cons head rest inductionHypothesis =>
    rw [List.cons_append, Passes, Passes, inductionHypothesis, Location.along_cons]
    simp only [and_assoc]

theorem Passes.filter {location : Location} {steps : List Text}
    (passes : tree.Passes location steps) :
    tree.Passes location (steps.filter Path.isMove) := by
  induction steps generalizing location with
  | nil => exact passes
  | cons head rest inductionHypothesis =>
    obtain ⟨directory, stands, later⟩ := passes
    by_cases move : Path.isMove head = true
    · rw [List.filter_cons_of_pos move]
      exact ⟨directory, stands, inductionHypothesis later⟩
    · rw [List.filter_cons_of_neg move]
      rw [Location.step_of_idle (by simpa using move)] at later
      exact inductionHypothesis later

/-- Idle steps can be taken as well, where the moves before and after them start in directories and
the last place is one. -/
theorem Passes.of_filter {location : Location} {steps : List Text}
    (passes : tree.Passes location (steps.filter Path.isMove))
    (ends : tree.isDirectoryAt (location.along steps) = true) : tree.Passes location steps := by
  induction steps generalizing location with
  | nil => trivial
  | cons head rest inductionHypothesis =>
    rw [Location.along_cons] at ends
    by_cases move : Path.isMove head = true
    · rw [List.filter_cons_of_pos move] at passes
      exact ⟨passes.1, passes.2.1, inductionHypothesis passes.2.2 ends⟩
    · have still : location.step head = location := Location.step_of_idle (by simpa using move)
      rw [List.filter_cons_of_neg move] at passes
      rw [still] at ends
      have later := inductionHypothesis passes ends
      refine ⟨?_, fun moves => absurd moves move, still.symm ▸ later⟩
      cases rest with
      | nil => exact ends
      | cons next others => exact later.1

theorem Passes.of_filter_concat {location : Location} {front : List Text} {last : Text}
    (move : Path.isMove last = true)
    (passes : tree.Passes location ((front ++ [last]).filter Path.isMove)) :
    tree.Passes location (front ++ [last]) := by
  rw [List.filter_append, List.filter_cons_of_pos move, List.filter_nil, passes_append,
    Location.along_filter] at passes
  exact passes_append.mpr ⟨passes.1.of_filter passes.2.1, passes.2⟩

/-- Steps stay possible when directories stay and the last place goes on holding something. -/
theorem Passes.mono {later : FileTree} {location : Location} {steps : List Text}
    (passes : tree.Passes location steps)
    (directories : ∀ place, tree.isDirectoryAt place = true → later.isDirectoryAt place = true)
    (last : (tree.node? (location.along steps)).isSome = true →
      (later.node? (location.along steps)).isSome = true) : later.Passes location steps := by
  induction steps generalizing location with
  | nil => trivial
  | cons head rest inductionHypothesis =>
    obtain ⟨directory, stands, further⟩ := passes
    rw [Location.along_cons] at last
    refine ⟨directories _ directory, fun move named => ?_, inductionHypothesis further last⟩
    obtain ⟨short, there⟩ := stands move named
    refine ⟨short, ?_⟩
    rw [Location.step_of_isMove move named] at further last
    cases rest with
    | nil => exact last there
    | cons next others => rw [isDirectoryAt_iff.mp (directories _ further.1)]; rfl

/-- Names that lead to something can be taken one after the other. -/
theorem Passes.of_isEntry (sound : Sound tree) {location : Location} {names : List Name}
    (entries : ∀ name ∈ names, IsEntry name) (short : ∀ name ∈ names, name.byteLength ≤ longestName)
    (stands : (tree.node? (location ++ names)).isSome = true) : tree.Passes location names := by
  induction names generalizing location with
  | nil => trivial
  | cons head rest inductionHypothesis =>
    have down := (Location.child_append location head rest).symm
    have later : tree.Passes (location.child head) rest :=
      inductionHypothesis (fun name member => entries name (List.mem_cons_of_mem _ member))
        (fun name member => short name (List.mem_cons_of_mem _ member)) (down ▸ stands)
    refine ⟨sound.isDirectoryAt_of_below (List.cons_ne_nil _ _) stands, fun _ _ => ?_, ?_⟩
    · exact ⟨short head List.mem_cons_self, sound.isSome_of_below (down ▸ stands)⟩
    · rw [Location.step_of_isEntry (entries head List.mem_cons_self)]
      exact later

theorem Passes.short {location : Location} {names : List Name} (passes : tree.Passes location names)
    (entries : ∀ name ∈ names, IsEntry name) : ∀ name ∈ names, name.byteLength ≤ longestName := by
  induction names generalizing location with
  | nil => exact fun name member => nomatch member
  | cons head rest inductionHypothesis =>
    have entry := entries head List.mem_cons_self
    intro name member
    rcases List.mem_cons.mp member with rfl | later
    · exact (passes.2.1 entry.move entry.named).1
    · exact inductionHypothesis passes.2.2
        (fun name member => entries name (List.mem_cons_of_mem _ member)) name later

/-- Steps that lead to a file end in its name. -/
theorem Passes.isEntry_last (sound : Sound tree) {location : Location} {front : List Text}
    {last : Text} (passes : tree.Passes location (front ++ [last])) (free : Path.separator ∉ last)
    (file : (tree.file? (location.along (front ++ [last]))).isSome = true) : IsEntry last := by
  have directory := (passes_append.mp passes).2.1
  rw [Location.along_append, Location.along_cons, Location.along_nil] at file
  have notDirectory : ∀ place, tree.isDirectoryAt place = true →
      (tree.file? place).isSome = false := by
    intro place there
    unfold file?
    rw [isDirectoryAt_iff.mp there]
    rfl
  refine ⟨?_, ?_, free⟩
  · by_contra idle
    rw [Location.step_of_idle (by simpa using idle), notDirectory _ directory] at file
    cases file
  · rintro rfl
    rw [Location.step_dotDot, notDirectory _ (sound.isDirectoryAt_dropLast
      (by rw [isDirectoryAt_iff.mp directory]; rfl))] at file
    cases file

/-! ### Taking them -/

/-- In a plain tree steps lead to a place exactly when they can be taken, and then to where they
lead in any tree. -/
theorem takeSteps_eq_found_iff (plain : Plain tree) {aim : Aim} (seen : aim ≠ .newFile)
    {onLink : Location → List Text → Except Fault Place} {location reached : Location}
    {steps : List Text} : tree.takeSteps aim onLink location steps = .ok (.found reached) ↔
      tree.Passes location steps ∧ reached = location.along steps := by
  induction steps generalizing location with
  | nil =>
    unfold takeSteps Passes
    rw [Location.along_nil]
    constructor
    · intro same
      cases same
      exact ⟨trivial, rfl⟩
    · rintro ⟨-, rfl⟩
      rfl
  | cons head rest inductionHypothesis =>
    unfold takeSteps Passes
    rw [Location.along_cons]
    by_cases directory : tree.isDirectoryAt location = true
    · rw [if_neg (not_not_intro directory)]
      by_cases idle : Path.isIdle head = true
      · rw [if_pos idle, inductionHypothesis, Location.step_of_idle (by simp [Path.isMove, idle])]
        simp [directory, Path.isMove, idle]
      · have move : Path.isMove head = true := by simpa [Path.isMove] using idle
        rw [if_neg idle]
        by_cases up : head = Path.dotDot
        · rw [if_pos up, inductionHypothesis, up, Location.step_dotDot]
          simp [directory]
        · rw [if_neg up, if_neg fun wanted => seen wanted.1, Location.step_of_isMove move up]
          by_cases long : longestName < head.byteLength
          · rw [if_pos long]
            refine iff_of_false (by simp) ?_
            rintro ⟨⟨-, stands, -⟩, -⟩
            exact absurd (stands move up).1 (Nat.not_le_of_gt long)
          · rw [if_neg long]
            rcases plain.cases (location.child head) with none | directoryThere | ⟨file, there⟩
            · rw [none]
              refine iff_of_false ?_ ?_
              · intro failed
                dsimp only at failed
                split at failed <;> cases failed
              · rintro ⟨⟨-, stands, -⟩, -⟩
                simpa [none] using (stands move up).2
            · rw [directoryThere]
              simp only [inductionHypothesis, directory, Option.isSome_some, true_and,
                Nat.le_of_not_lt long, and_self, implies_true]
            · rw [there]
              simp only [inductionHypothesis, directory, Option.isSome_some, true_and,
                Nat.le_of_not_lt long, and_self, implies_true]
    · rw [if_pos directory]
      refine iff_of_false (by simp) ?_
      rintro ⟨⟨there, -⟩, -⟩
      exact directory there

/-- What a look-up of any kind says about the place it finds: the steps lead there in any tree, and
where nothing stands yet, something may be put. -/
theorem place_of_takeSteps (plain : Plain tree) {aim : Aim}
    {onLink : Location → List Text → Except Fault Place} {location : Location} {steps : List Text}
    {place : Place} (free : ∀ step ∈ steps, Path.separator ∉ step)
    (taken : tree.takeSteps aim onLink location steps = .ok place) :
    place = .found (location.along steps) ∨
      place = .vacant (location.along steps) ∧ tree.node? (location.along steps) = none ∧
        tree.isDirectoryAt (location.along steps).dropLast = true ∧
        ∀ name ∈ location.along steps, IsEntry name := by
  induction steps generalizing location with
  | nil =>
    unfold takeSteps at taken
    cases taken
    exact Or.inl rfl
  | cons head rest inductionHypothesis =>
    have later : ∀ start, tree.takeSteps aim onLink start rest = .ok place →
        place = .found (start.along rest) ∨
          place = .vacant (start.along rest) ∧ tree.node? (start.along rest) = none ∧
            tree.isDirectoryAt (start.along rest).dropLast = true ∧
            ∀ name ∈ start.along rest, IsEntry name := fun start taken =>
      inductionHypothesis (fun step member => free step (List.mem_cons_of_mem _ member)) taken
    unfold takeSteps at taken
    rw [Location.along_cons]
    by_cases directory : tree.isDirectoryAt location = true
    · rw [if_neg (not_not_intro directory)] at taken
      by_cases idle : Path.isIdle head = true
      · rw [if_pos idle] at taken
        rw [Location.step_of_idle (by simp [Path.isMove, idle])]
        exact later _ taken
      · rw [if_neg idle] at taken
        by_cases up : head = Path.dotDot
        · rw [if_pos up] at taken
          rw [up, Location.step_dotDot]
          exact later _ taken
        · have entry : IsEntry head :=
            ⟨by simpa [Path.isMove] using idle, up, free head List.mem_cons_self⟩
          rw [if_neg up] at taken
          rw [Location.step_of_isEntry entry]
          split at taken
          · cases taken
          split at taken
          · cases taken
          rcases plain.cases (location.child head) with none | directoryThere | ⟨file, there⟩
          · rw [none] at taken
            dsimp only at taken
            split at taken
            · next last =>
              subst last
              cases taken
              have above : (location.child head).dropLast = location := List.dropLast_concat
              refine Or.inr ⟨rfl, none, ?_, ?_⟩
              · rw [Location.along_nil, above]
                exact directory
              · intro name member
                rcases List.mem_append.mp member with member | member
                · exact plain.isEntry (by rw [isDirectoryAt_iff.mp directory]; rfl) name member
                · exact List.mem_singleton.mp member ▸ entry
            · cases taken
          · rw [directoryThere] at taken
            exact later _ taken
          · rw [there] at taken
            exact later _ taken
    · rw [if_pos directory] at taken
      cases taken

/-- Steps that lead to a vacant place can all be taken once something stands there, as long as no
directory is lost. -/
theorem passes_of_vacant (plain : Plain tree) {later : FileTree} {aim : Aim}
    {onLink : Location → List Text → Except Fault Place} {location reached : Location}
    {steps : List Text}
    (taken : tree.takeSteps aim onLink location steps = .ok (.vacant reached))
    (directories : ∀ place, tree.isDirectoryAt place = true → later.isDirectoryAt place = true)
    (filled : (later.node? (location.along steps)).isSome = true) :
    later.Passes location steps := by
  induction steps generalizing location with
  | nil => trivial
  | cons head rest inductionHypothesis =>
    rw [Location.along_cons] at filled
    unfold takeSteps at taken
    split at taken
    · cases taken
    next inside =>
    have directory := directories _ (not_not.mp inside)
    by_cases idle : Path.isIdle head = true
    · have still : Path.isMove head = false := by simp [Path.isMove, idle]
      rw [if_pos idle] at taken
      rw [Location.step_of_idle still] at filled
      refine ⟨directory, fun moves => absurd moves (by simp [still]), ?_⟩
      rw [Location.step_of_idle still]
      exact inductionHypothesis taken filled
    have move : Path.isMove head = true := by simpa [Path.isMove] using idle
    rw [if_neg idle] at taken
    by_cases up : head = Path.dotDot
    · rw [if_pos up] at taken
      rw [up, Location.step_dotDot] at filled
      refine ⟨directory, fun _ named => absurd up named, ?_⟩
      rw [up, Location.step_dotDot]
      exact inductionHypothesis taken filled
    rw [if_neg up] at taken
    rw [Location.step_of_isMove move up] at filled
    split at taken
    · cases taken
    split at taken
    · cases taken
    next notLong =>
    suffices onwards : (later.node? (location.child head)).isSome = true ∧
        later.Passes (location.child head) rest by
      refine ⟨directory, fun _ _ => ⟨Nat.le_of_not_lt notLong, onwards.1⟩, ?_⟩
      rw [Location.step_of_isMove move up]
      exact onwards.2
    rcases plain.cases (location.child head) with none | inner | ⟨file, there⟩
    · rw [none] at taken
      dsimp only at taken
      split at taken
      · next last =>
        subst last
        exact ⟨filled, trivial⟩
      · cases taken
    · rw [inner] at taken
      refine ⟨?_, inductionHypothesis taken filled⟩
      rw [isDirectoryAt_iff.mp (directories _ (isDirectoryAt_iff.mpr inner))]
      rfl
    · -- Nothing can be vacant behind a file.
      have leaf : ¬ tree.isDirectoryAt (location.child head) = true := by
        simp [isDirectoryAt, there]
      rw [there] at taken
      dsimp only at taken
      cases rest with
      | nil => cases taken
      | cons next others =>
        rw [takeSteps, if_pos leaf] at taken
        cases taken

theorem follow_eq_takeSteps (tree : FileTree) (aim : Aim) (links : Nat) :
    ∃ onLink, tree.follow aim links = tree.takeSteps aim onLink := by
  cases links with
  | zero => exact ⟨_, rfl⟩
  | succ links => exact ⟨_, rfl⟩

/-! ### Where a path leads -/

/-- The path reaches its location: the system takes it, and its steps can be taken. -/
structure Reaches (tree : FileTree) (path : Path) : Prop where
  usable : path.Usable
  passes : tree.Passes (path.startFrom tree.workingDirectory) path.steps

theorem placeOfSteps_eq (tree : FileTree) (aim : Aim) {path : Path} (usable : path.Usable)
    (steps : List Text) : tree.placeOfSteps aim path steps =
      tree.follow aim linkLimit (path.startFrom tree.workingDirectory) steps := by
  unfold placeOfSteps startOf Path.startFrom
  rw [if_neg (by rw [usable.clean]; exact Bool.false_ne_true), if_neg usable.given,
    if_neg (Nat.not_le_of_gt usable.short)]

theorem usable_of_placeOfSteps {aim : Aim} {path : Path} {steps : List Text} {place : Place}
    (found : tree.placeOfSteps aim path steps = .ok place) : path.Usable := by
  unfold placeOfSteps at found
  split at found
  · cases found
  split at found
  · cases found
  split at found
  · cases found
  · next clean given short => exact ⟨by simpa using clean, given, Nat.lt_of_not_le short⟩

/-- What a look-up says about the place it finds. -/
theorem place_of_placeOfSteps (plain : Plain tree) {aim : Aim} {path : Path} {steps : List Text}
    {place : Place} (free : ∀ step ∈ steps, Path.separator ∉ step)
    (found : tree.placeOfSteps aim path steps = .ok place) :
    let reached := (path.startFrom tree.workingDirectory).along steps
    place = .found reached ∨ place = .vacant reached ∧ tree.node? reached = none ∧
      tree.isDirectoryAt reached.dropLast = true ∧ ∀ name ∈ reached, IsEntry name := by
  rw [placeOfSteps_eq tree aim (usable_of_placeOfSteps found)] at found
  obtain ⟨onLink, same⟩ := follow_eq_takeSteps tree aim linkLimit
  rw [same] at found
  exact place_of_takeSteps plain free found

theorem place_eq_found_iff (plain : Plain tree) {aim : Aim} (seen : aim ≠ .newFile) {path : Path}
    {reached : Location} : tree.place aim path = .ok (.found reached) ↔
      tree.Reaches path ∧ reached = path.location tree.workingDirectory := by
  obtain ⟨onLink, same⟩ := follow_eq_takeSteps tree aim linkLimit
  unfold place
  constructor
  · intro found
    have usable := usable_of_placeOfSteps found
    rw [placeOfSteps_eq tree aim usable, same, takeSteps_eq_found_iff plain seen] at found
    exact ⟨⟨usable, found.1⟩, found.2⟩
  · rintro ⟨⟨usable, passes⟩, leads⟩
    rw [placeOfSteps_eq tree aim usable, same, takeSteps_eq_found_iff plain seen]
    exact ⟨passes, leads⟩

theorem locate_eq_ok_iff (plain : Plain tree) {path : Path} {reached : Location} :
    tree.locate path = .ok reached ↔
      tree.Reaches path ∧ reached = path.location tree.workingDirectory := by
  rw [← place_eq_found_iff plain (show Aim.target ≠ .newFile by decide)]
  unfold locate
  rcases placed : tree.place .target path with fault | location | location
  · simp
  · simp
  · simp

theorem lookup_eq_ok_iff (plain : Plain tree) {path : Path} {node : Node} :
    tree.lookup path = .ok node ↔
      tree.Reaches path ∧ tree.node? (path.location tree.workingDirectory) = some node := by
  unfold lookup
  cases located : tree.locate path with
  | error fault =>
    refine iff_of_false (fun failed => nomatch failed) fun ⟨reaches, _⟩ => ?_
    rw [(locate_eq_ok_iff plain).mpr ⟨reaches, rfl⟩] at located
    cases located
  | ok location =>
    obtain ⟨reaches, rfl⟩ := (locate_eq_ok_iff plain).mp located
    simp only [reaches, true_and]
    split <;> simp_all

theorem isDirectory_iff_lookup {path : Path} :
    tree.isDirectory path = true ↔ tree.lookup path = .ok .directory := by
  unfold isDirectory
  split
  · next directory => simp [directory]
  · next other => exact iff_of_false Bool.false_ne_true fun same => other same

theorem isDirectory_iff (plain : Plain tree) {path : Path} : tree.isDirectory path = true ↔
    tree.Reaches path ∧ tree.isDirectoryAt (path.location tree.workingDirectory) = true := by
  rw [isDirectoryAt_iff, ← lookup_eq_ok_iff plain, isDirectory_iff_lookup]

theorem fileAt?_eq_some_iff (plain : Plain tree) {path : Path} {file : File} :
    tree.fileAt? path = some file ↔
      tree.Reaches path ∧ tree.file? (path.location tree.workingDirectory) = some file := by
  rw [file?_eq_some_iff, ← lookup_eq_ok_iff plain]
  unfold fileAt?
  split
  · next same => simp [same]
  · next other => exact iff_of_false (fun failed => nomatch failed) fun same => other _ same

theorem Reaches.mono {later : FileTree} {path : Path} (reaches : tree.Reaches path)
    (working : later.workingDirectory = tree.workingDirectory)
    (directories : ∀ place, tree.isDirectoryAt place = true → later.isDirectoryAt place = true)
    (last : (tree.node? (path.location tree.workingDirectory)).isSome = true →
      (later.node? (path.location tree.workingDirectory)).isSome = true) : later.Reaches path :=
  ⟨reaches.usable, working ▸ reaches.passes.mono directories last⟩

/-- A path to a directory goes on leading to one as long as no directory is lost. -/
theorem isDirectory_mono (plain : Plain tree) {later : FileTree} (other : Plain later) {path : Path}
    (working : later.workingDirectory = tree.workingDirectory)
    (directories : ∀ place, tree.isDirectoryAt place = true → later.isDirectoryAt place = true)
    (there : tree.isDirectory path = true) : later.isDirectory path = true := by
  obtain ⟨reaches, directory⟩ := (isDirectory_iff plain).mp there
  have still := directories _ directory
  refine (isDirectory_iff other).mpr ⟨reaches.mono working directories fun _ => ?_, working ▸ still⟩
  rw [isDirectoryAt_iff.mp still]
  rfl

/-- Whatever a path goes through on its way is a directory. -/
theorem Reaches.isDirectoryAt_of_isPrefix {path : Path} (reaches : tree.Reaches path)
    {moves : List Text} (part : moves <+: path.moves) (short : moves ≠ path.moves) :
    tree.isDirectoryAt ((path.startFrom tree.workingDirectory).along moves) = true := by
  obtain ⟨rest, whole⟩ := part
  have passes : tree.Passes (path.startFrom tree.workingDirectory) path.moves :=
    reaches.passes.filter
  rw [← whole, passes_append] at passes
  cases rest with
  | nil => exact absurd (by rw [← whole, List.append_nil]) short
  | cons next others => exact passes.2.1

/-- Something stands where a path is reached. -/
theorem Reaches.stands (sound : Sound tree) {path : Path} (reaches : tree.Reaches path) :
    (tree.node? (path.location tree.workingDirectory)).isSome = true := by
  have directories : ∀ place, tree.isDirectoryAt place = true → (tree.node? place).isSome = true :=
    fun place directory => by rw [isDirectoryAt_iff.mp directory]; rfl
  rcases List.eq_nil_or_concat path.steps with none | ⟨front, last, whole⟩
  · exact absurd none path.steps_ne_nil
  rw [List.concat_eq_append] at whole
  have passes := reaches.passes
  rw [whole, passes_append] at passes
  obtain ⟨-, directory, there, -⟩ := passes
  unfold Path.location
  rw [whole, Location.along_append, Location.along_cons, Location.along_nil]
  by_cases move : Path.isMove last = true
  · by_cases up : last = Path.dotDot
    · rw [up, Location.step_dotDot]
      exact directories _ (sound.isDirectoryAt_dropLast (directories _ directory))
    · rw [Location.step_of_isMove move up]
      exact (there move up).2
  · rw [Location.step_of_idle (by simpa using move)]
    exact directories _ directory

/-- What a path reaches is a directory or a regular file. -/
theorem Reaches.isDirectory_or_isFile (plain : Plain tree) {path : Path}
    (reaches : tree.Reaches path) : tree.isDirectory path = true ∨ tree.isFile path = true := by
  have stands := reaches.stands plain.toSound
  rcases plain.cases (path.location tree.workingDirectory) with none | directory | ⟨file, there⟩
  · rw [none] at stands
    cases stands
  · exact Or.inl ((isDirectory_iff plain).mpr ⟨reaches, isDirectoryAt_iff.mpr directory⟩)
  · right
    unfold isFile
    rw [(fileAt?_eq_some_iff plain).mpr ⟨reaches, file?_eq_some_iff.mpr there⟩]
    rfl

/-- A path that ends by going up leads to a directory. -/
theorem Reaches.isDirectoryAt_of_dotDot (plain : Plain tree) {path : Path} {front : List Text}
    (reaches : tree.Reaches path) (moves : path.moves = front ++ [Path.dotDot]) :
    tree.isDirectoryAt (path.location tree.workingDirectory) = true := by
  have passes := reaches.passes.filter
  unfold Path.moves at moves
  rw [moves, passes_append] at passes
  have directory := passes.2.1
  rw [Path.location_eq_moves]
  unfold Path.moves
  rw [moves, Location.along_append, Location.along_cons, Location.step_dotDot, Location.along_nil]
  exact plain.isDirectoryAt_dropLast (by rw [isDirectoryAt_iff.mp directory]; rfl)

/-- An idle step at the end stays in the directory it is taken from. -/
theorem Reaches.isDirectoryAt_of_idle {path : Path} {front : List Text} {last : Text}
    (reaches : tree.Reaches path) (steps : path.steps = front ++ [last])
    (idle : Path.isMove last = false) :
    tree.isDirectoryAt (path.location tree.workingDirectory) = true := by
  have passes := reaches.passes
  rw [steps, passes_append] at passes
  unfold Path.location
  rw [steps, Location.along_append, Location.along_cons, Location.step_of_idle idle,
    Location.along_nil]
  exact passes.2.1

/-! ### Paths joined to a directory -/

/-- Whoever reaches something below a directory reaches the directory. -/
theorem Reaches.base {base path : Path} (given : base.text ≠ [])
    (relative : path.isAbsolute = false)
    (some : path.moves ≠ []) (reaches : tree.Reaches (base.join path)) :
    tree.Reaches base ∧ tree.isDirectoryAt (base.location tree.workingDirectory) = true ∧
      tree.Passes (base.location tree.workingDirectory) path.moves := by
  have passes : tree.Passes (base.startFrom tree.workingDirectory) (base.moves ++ path.moves) := by
    rw [← Path.moves_join given relative]
    have start : (base.join path).startFrom tree.workingDirectory =
        base.startFrom tree.workingDirectory := by
      unfold Path.startFrom
      rw [Path.isAbsolute_join given relative]
    exact start ▸ reaches.passes.filter
  obtain ⟨toBase, onwards⟩ := passes_append.mp passes
  rw [← Path.location_eq_moves] at onwards
  have directory : tree.isDirectoryAt (base.location tree.workingDirectory) = true := by
    cases moves : path.moves with
    | nil => exact absurd moves some
    | cons head rest =>
      rw [moves] at onwards
      exact onwards.1
  exact ⟨⟨reaches.usable.of_isPrefix (Path.text_isPrefix_join given relative) given,
    toBase.of_filter directory⟩, directory, onwards⟩

/-- Whoever reaches a base and can go on from there reaches what is below it. -/
theorem Reaches.join {base path : Path} (reaches : tree.Reaches base)
    (relative : path.isAbsolute = false) (usable : (base.join path).Usable)
    (passes : tree.Passes (base.location tree.workingDirectory) path.moves)
    (ends : tree.isDirectoryAt ((base.join path).location tree.workingDirectory) = true ∨
      ∃ front last, (base.join path).steps = front ++ [last] ∧ Path.isMove last = true) :
    tree.Reaches (base.join path) := by
  have given := reaches.usable.given
  have start : (base.join path).startFrom tree.workingDirectory =
      base.startFrom tree.workingDirectory := by
    unfold Path.startFrom
    rw [Path.isAbsolute_join given relative]
  have moves : tree.Passes (base.startFrom tree.workingDirectory) (base.join path).moves := by
    rw [Path.moves_join given relative, passes_append, ← Path.location_eq_moves]
    exact ⟨reaches.passes.filter, passes⟩
  refine ⟨usable, ?_⟩
  rw [start]
  rcases ends with directoryThere | ⟨front, last, steps, move⟩
  · refine moves.of_filter ?_
    unfold Path.location at directoryThere
    rwa [start] at directoryThere
  · unfold Path.moves at moves
    rw [steps] at moves ⊢
    exact moves.of_filter_concat move

/-- An entry below a root can be reached wherever the root can and the entry stands, if its path is
within the limits. -/
theorem Reaches.inner {root relative : Path} {front : List Text} {name : Name} (sound : Sound tree)
    (reaches : tree.Reaches root) (inner : relative.Inner front name) (named : Path.dotDot ∉ front)
    (usable : (root.join relative).Usable)
    (short : ∀ move ∈ relative.moves, move.byteLength ≤ longestName)
    (stands : (tree.node? (root.location tree.workingDirectory ++ relative.moves)).isSome = true) :
    tree.Reaches (root.join relative) := by
  obtain ⟨start, steps⟩ := Path.steps_join reaches.usable.given inner.isAbsolute
  rw [inner.steps, ← List.append_assoc] at steps
  exact reaches.join inner.isAbsolute usable
    (Passes.of_isEntry sound (inner.isEntry named) short stands)
    (Or.inr ⟨_, name, steps, inner.entry.move⟩)

/-- Within the limits, the file at a path is the one at its place below the root. -/
theorem fileAt?_join {root relative : Path} {front : List Text} {name : Name} (plain : Plain tree)
    (reaches : tree.Reaches root) (inner : relative.Inner front name) (named : Path.dotDot ∉ front)
    (usable : (root.join relative).Usable)
    (short : ∀ move ∈ relative.moves, move.byteLength ≤ longestName) :
    tree.fileAt? (root.join relative) =
      tree.file? (root.location tree.workingDirectory ++ relative.moves) := by
  refine Option.ext fun file => ?_
  rw [fileAt?_eq_some_iff plain, Path.location_join reaches.usable.given inner.isAbsolute,
    Location.along_of_isEntry (inner.isEntry named)]
  refine ⟨And.right, fun there => ⟨?_, there⟩⟩
  refine reaches.inner plain.toSound inner named usable short ?_
  rw [file?_eq_some_iff.mp there]
  rfl

/-- A path is within the limits if it could be reached before. -/
theorem fileAt?_join_of_reached {earlier : FileTree} {root relative : Path} {front : List Text}
    {name : Name} (plain : Plain tree) (reaches : tree.Reaches root)
    (inner : relative.Inner front name) (named : Path.dotDot ∉ front)
    (before : earlier.Reaches (root.join relative)) : tree.fileAt? (root.join relative) =
      tree.file? (root.location tree.workingDirectory ++ relative.moves) := by
  have onwards := (before.base reaches.usable.given inner.isAbsolute (by simp [inner.moves])).2.2
  exact fileAt?_join plain reaches inner named before.usable (onwards.short (inner.isEntry named))

/-- Whoever reaches one entry of a directory reaches another that stands there and could be
reached before. -/
theorem Reaches.beside {earlier : FileTree} {root : Path} {front : List Text} {name other : Text}
    (given : root.text ≠ []) (bare : Path.Bare (front ++ [name]))
    (otherBare : Path.Bare (front ++ [other])) (entry : IsEntry other)
    (reaches : tree.Reaches (root.join (Path.ofSegments [] (front ++ [name]))))
    (before : earlier.Reaches (root.join (Path.ofSegments [] (front ++ [other]))))
    (stands : (tree.node? ((root.join (Path.ofSegments [] (front ++ [other]))).location
      tree.workingDirectory)).isSome = true) :
    tree.Reaches (root.join (Path.ofSegments [] (front ++ [other]))) := by
  have moves : ∀ last, Path.isMove last = true → (front ++ [last]).filter Path.isMove =
      front.filter Path.isMove ++ [last] := by
    intro last move
    rw [List.filter_append, List.filter_cons_of_pos move, List.filter_nil]
  have makes : ∀ last, Path.Bare (front ++ [last]) →
      (Path.ofSegments [] (front ++ [last])).moves = front.filter Path.isMove ++ [last] := by
    intro last bare
    rw [bare.moves, moves last bare.isMove_last]
  have some : ∀ last, front.filter Path.isMove ++ [last] ≠ [] := by simp
  obtain ⟨reachesRoot, -, passes⟩ :=
    reaches.base given bare.isAbsolute (by rw [makes _ bare]; exact some _)
  have passesBefore :=
    (before.base given otherBare.isAbsolute (by rw [makes _ otherBare]; exact some _)).2.2
  rw [makes _ bare, passes_append] at passes
  rw [makes _ otherBare, passes_append] at passesBefore
  obtain ⟨start, steps⟩ := Path.steps_join given otherBare.isAbsolute
  rw [otherBare.steps, ← List.append_assoc] at steps
  refine reachesRoot.join otherBare.isAbsolute before.usable ?_
    (Or.inr ⟨_, other, steps, entry.move⟩)
  rw [makes _ otherBare, passes_append]
  refine ⟨passes.1, passes.2.1, fun move named => ⟨(passesBefore.2.2.1 move named).1, ?_⟩, trivial⟩
  rw [Path.location_join given otherBare.isAbsolute, makes _ otherBare, Location.along_append,
    Location.along_cons, Location.step_of_isEntry entry, Location.along_nil] at stands
  exact stands

end FileTree

end AssetPipeline
