/-
This file says what the operations leave behind in a plain tree. Each stays with the one location
its path leads to: making a directory puts one where nothing stood, creating and copying put a file
where no directory stands, removing takes away what is no directory, and everything else stands as
it did. So a tree stays plain through all of them, and no directory is ever lost, closed or opened.
-/

import AssetPipeline.Build.Output
import AssetPipeline.Proofs.FileTree.Trails
import AssetPipeline.Proofs.Path.Relative

namespace AssetPipeline.FileTree

variable {tree later : FileTree}

/-- A plain tree that agrees with an earlier one but for some places, and no directory is closed or
opened. -/
structure Keeps (tree later : FileTree) (touched : Location → Prop) : Prop where
  plain : Plain later
  working : later.workingDirectory = tree.workingDirectory
  elsewhere : ∀ place, ¬ touched place → later.node? place = tree.node? place
  closed : ∀ place, later.isClosedAt place = tree.isClosedAt place

/-- A plain tree that has some more directories than an earlier one, all of which may be listed. -/
structure Grows (tree later : FileTree) (made : Location → Prop) : Prop where
  plain : Plain later
  working : later.workingDirectory = tree.workingDirectory
  node : ∀ place, later.node? place = tree.node? place ∨
    tree.node? place = none ∧ later.node? place = some .directory ∧ made place
  closed : ∀ place, later.isClosedAt place = tree.isClosedAt place

/-- A file can be put there: a name in a directory, and no directory itself. -/
structure Room (tree : FileTree) (location : Location) : Prop where
  below : location ≠ []
  entries : ∀ name ∈ location, IsEntry name
  housed : tree.isDirectoryAt location.dropLast = true
  leaf : tree.isDirectoryAt location = false

theorem Keeps.refl (plain : Plain tree) (touched : Location → Prop) : Keeps tree tree touched :=
  ⟨plain, rfl, fun _ _ => rfl, fun _ => rfl⟩

theorem Keeps.trans {last : FileTree} {touched : Location → Prop} (first : Keeps tree later touched)
    (second : Keeps later last touched) : Keeps tree last touched where
  plain := second.plain
  working := second.working.trans first.working
  elsewhere place apart := (second.elsewhere place apart).trans (first.elsewhere place apart)
  closed place := (second.closed place).trans (first.closed place)

theorem Keeps.mono {touched wider : Location → Prop} (keeps : Keeps tree later touched)
    (within : ∀ place, touched place → wider place) : Keeps tree later wider where
  plain := keeps.plain
  working := keeps.working
  elsewhere place apart := keeps.elsewhere place fun inside => apart (within place inside)
  closed := keeps.closed

namespace Grows

theorem refl (plain : Plain tree) (made : Location → Prop) : Grows tree tree made :=
  ⟨plain, rfl, fun _ => Or.inl rfl, fun _ => rfl⟩

theorem trans {last : FileTree} {made : Location → Prop} (first : Grows tree later made)
    (second : Grows later last made) : Grows tree last made where
  plain := second.plain
  working := second.working.trans first.working
  node place := by
    rcases second.node place with same | ⟨none, directory, new⟩
    · rw [same]
      exact first.node place
    · rcases first.node place with before | ⟨before, there, -⟩
      · exact Or.inr ⟨before ▸ none, directory, new⟩
      · rw [there] at none
        cases none
  closed place := (second.closed place).trans (first.closed place)

theorem mono {made wider : Location → Prop} (grows : Grows tree later made)
    (within : ∀ place, tree.node? place = none → made place → wider place) :
    Grows tree later wider where
  plain := grows.plain
  working := grows.working
  node place := (grows.node place).imp_right fun ⟨vacant, directory, new⟩ =>
    ⟨vacant, directory, within place vacant new⟩
  closed := grows.closed

variable {made : Location → Prop}

/-- Whatever stood somewhere stands there still. -/
theorem node?_eq (grows : Grows tree later made) {place : Location}
    (stands : (tree.node? place).isSome = true) : later.node? place = tree.node? place := by
  rcases grows.node place with same | ⟨none, -⟩
  · exact same
  · rw [none] at stands
    cases stands

theorem isDirectoryAt (grows : Grows tree later made) {place : Location}
    (directory : tree.isDirectoryAt place = true) : later.isDirectoryAt place = true := by
  rw [isDirectoryAt_iff] at directory ⊢
  rw [grows.node?_eq (by rw [directory]; rfl), directory]

/-- No file comes or goes. -/
theorem file?_eq (grows : Grows tree later made) (place : Location) :
    later.file? place = tree.file? place := by
  unfold file?
  rcases grows.node place with same | ⟨none, directory, -⟩
  · rw [same]
  · rw [none, directory]

theorem keeps (grows : Grows tree later made) : Keeps tree later made where
  plain := grows.plain
  working := grows.working
  elsewhere place apart := by
    rcases grows.node place with same | ⟨-, -, new⟩
    · exact same
    · exact absurd new apart
  closed := grows.closed

end Grows

/-! ### Putting and dropping -/

theorem Room.of_node (sound : Sound tree) {location : Location} {file : File}
    (there : tree.node? location = some (.file file)) : Room tree location where
  below := by
    rintro rfl
    cases there
  entries := sound.isEntry (by rw [there]; rfl)
  housed := sound.isDirectoryAt_dropLast (by rw [there]; rfl)
  leaf := by simp [isDirectoryAt, there]

theorem Room.of_file (plain : Plain tree) {location : Location} {file : File}
    (there : tree.file? location = some file) : Room tree location :=
  .of_node plain.toSound (file?_eq_some_iff.mp there)

/-- What is put there takes the place of no directory. -/
theorem Room.replaces (room : Room tree location) {node : Node}
    (directory : tree.isDirectoryAt location = true) : node = .directory := by
  rw [room.leaf] at directory
  cases directory

theorem Room.keeps (room : Room tree location) (plain : Plain tree) (file : File) :
    Keeps tree (tree.put location (.file file)) (· = location) where
  plain := plain.put room.below room.entries room.housed (fun _ same => nomatch same) room.replaces
  working := rfl
  elsewhere _ apart := node?_put_of_ne tree apart _
  closed := isClosedAt_put tree room.below room.replaces

theorem Room.node?_put (room : Room tree location) (file : File) :
    (tree.put location (.file file)).node? location = some (.file file) :=
  node?_put_self tree room.below _

theorem file?_put (below : location ≠ []) (file : File) :
    (tree.put location (.file file)).file? location = some file :=
  file?_eq_some_iff.mpr (node?_put_self tree below _)

/-- Putting and dropping what is no directory loses no directory. -/
theorem Keeps.isDirectoryAt {location : Location} (keeps : Keeps tree later (· = location))
    (leaf : tree.isDirectoryAt location = false) {place : Location}
    (directory : tree.isDirectoryAt place = true) : later.isDirectoryAt place = true := by
  have apart : place ≠ location := by
    rintro rfl
    rw [leaf] at directory
    cases directory
  rw [isDirectoryAt_iff] at directory ⊢
  rw [keeps.elsewhere place apart, directory]

/-! ### Making directories -/

theorem filter_solidSteps (path : Path) :
    path.solidSteps.filter Path.isMove = path.steps.filter Path.isMove := by
  unfold Path.solidSteps
  exact Path.filter_dropEnd (fun step empty => by simp [Path.isMove, Path.isIdle, eq_of_beq empty])
    _

theorem along_solidSteps (location : Location) (path : Path) :
    location.along path.solidSteps = location.along path.steps := by
  rw [← Location.along_filter location path.solidSteps, filter_solidSteps, Location.along_filter]

theorem mem_steps_of_mem_solidSteps {path : Path} {step : Text} (member : step ∈ path.solidSteps) :
    step ∈ path.steps := by
  unfold Path.solidSteps at member
  exact List.mem_reverse.mp ((List.dropWhile_suffix _).subset (List.mem_reverse.mp member))

theorem makeDirectory_ok (plain : Plain tree) {path : Path}
    (made : tree.makeDirectory path = .ok later) :
    Grows tree later (· = path.location tree.workingDirectory) ∧
      later.isDirectoryAt (path.location tree.workingDirectory) = true := by
  unfold makeDirectory at made
  split at made
  · split at made <;> cases made
  split at made
  · cases made
  · cases made
  next location placed =>
  obtain rfl := Except.ok.inj made
  have free : ∀ step ∈ path.solidSteps, Path.separator ∉ step := fun step member =>
    Path.separator_not_mem_of_mem_steps (mem_steps_of_mem_solidSteps member)
  rcases place_of_placeOfSteps plain free placed with found | ⟨vacant, none, housed, entries⟩
  · cases found
  rw [along_solidSteps] at vacant none housed entries
  have reached : location = path.location tree.workingDirectory := Place.vacant.inj vacant
  rw [reached]
  have below : path.location tree.workingDirectory ≠ [] := by
    intro root
    unfold Path.location at root
    rw [root] at none
    cases none
  refine ⟨⟨plain.put below entries housed (fun _ same => nomatch same) fun _ => rfl, rfl, ?_,
    isClosedAt_put tree below fun _ => rfl⟩, isDirectoryAt_iff.mpr (node?_put_self tree below _)⟩
  intro place
  by_cases same : place = path.location tree.workingDirectory
  · subst same
    exact Or.inr ⟨none, node?_put_self tree below _, rfl⟩
  · exact Or.inl (node?_put_of_ne tree same _)

/-- The path of a directory that was made leads to it. -/
theorem isDirectory_of_makeDirectory (plain : Plain tree) {path : Path}
    (made : tree.makeDirectory path = .ok later) : later.isDirectory path = true := by
  obtain ⟨grows, directory⟩ := makeDirectory_ok plain made
  unfold makeDirectory at made
  split at made
  · split at made <;> cases made
  split at made
  · cases made
  · cases made
  next location placed =>
  have usable := usable_of_placeOfSteps placed
  obtain ⟨onLink, same⟩ := follow_eq_takeSteps tree .entry linkLimit
  rw [placeOfSteps_eq tree .entry usable, same] at placed
  have stands : (later.node? ((path.startFrom tree.workingDirectory).along
      path.solidSteps)).isSome = true := by
    have there := isDirectoryAt_iff.mp directory
    unfold Path.location at there
    rw [along_solidSteps, there]
    rfl
  have passes := passes_of_vacant plain placed (fun _ => grows.isDirectoryAt) stands
  rw [← grows.working] at passes directory
  refine (isDirectory_iff grows.plain).mpr ⟨⟨usable, Passes.of_filter ?_ directory⟩, directory⟩
  rw [← filter_solidSteps]
  exact passes.filter

/-- Directories are made at the places of paths of the list alone. -/
theorem makeFirst_grows (plain : Plain tree) (paths : List Path) :
    Grows tree (tree.makeFirst paths).1
      (fun place =>
        ∃ path ∈ paths, path.text ≠ [] ∧ place = path.location tree.workingDirectory) := by
  induction paths with
  | nil => exact Grows.refl plain _
  | cons path above inductionHypothesis =>
    unfold makeFirst
    split
    · exact Grows.refl plain _
    next given =>
    split
    · next made madeEq =>
      refine (makeDirectory_ok plain madeEq).1.mono fun place _ same => ?_
      exact ⟨path, List.mem_cons_self, given, same⟩
    · have higher : Grows tree (tree.makeFirst above).1 (fun place => ∃ other ∈ path :: above,
          other.text ≠ [] ∧ place = other.location tree.workingDirectory) :=
        inductionHypothesis.mono fun place _ ⟨other, member, rest⟩ =>
          ⟨other, List.mem_cons_of_mem _ member, rest⟩
      split
      · next tried fault triedEq => rwa [triedEq] at higher
      · next tried triedEq =>
        rw [triedEq] at higher
        split
        · next made madeEq =>
          refine higher.trans ((makeDirectory_ok higher.plain madeEq).1.mono fun place _ same => ?_)
          exact ⟨path, List.mem_cons_self, given, higher.working ▸ same⟩
        · split <;> exact higher
    · split <;> exact Grows.refl plain _

/-- Once the first directory of a list is said to be made, its path leads to it. -/
theorem isDirectory_of_makeFirst (plain : Plain tree) {path : Path} {above : List Path}
    (given : path.text ≠ []) (made : (tree.makeFirst (path :: above)).2 = .ok ()) :
    (tree.makeFirst (path :: above)).1.isDirectory path = true := by
  have higher := makeFirst_grows plain above
  unfold makeFirst at made ⊢
  rw [if_neg given] at made ⊢
  split at made
  · next first firstEq => exact isDirectory_of_makeDirectory plain firstEq
  · split at made
    · cases made
    next tried triedEq =>
    rw [triedEq] at higher
    split at made
    · next last lastEq => exact isDirectory_of_makeDirectory higher.plain lastEq
    · split at made
      · next there =>
        rw [if_pos there]
        exact there
      · cases made
  · split at made
    · next there =>
      rw [if_pos there]
      exact there
    · cases made

theorem isDirectoryAt_of_makeFirst (plain : Plain tree) {path : Path} {above : List Path}
    (given : path.text ≠ []) (made : (tree.makeFirst (path :: above)).2 = .ok ()) :
    (tree.makeFirst (path :: above)).1.isDirectoryAt (path.location tree.workingDirectory) =
      true := by
  have grows := makeFirst_grows plain (path :: above)
  rw [← grows.working]
  exact ((isDirectory_iff grows.plain).mp (isDirectory_of_makeFirst plain given made)).2

/-- Once room is made for a path, the directory to hold it can be reached. -/
theorem isDirectory_of_makeParent (plain : Plain tree) {path parent : Path}
    (above : path.parent? = some parent) (given : parent.text ≠ [])
    (made : (tree.makeParent path).2 = .ok ()) :
    (tree.makeParent path).1.isDirectory parent = true := by
  obtain ⟨rest, first⟩ := parent.ancestorsWithin_eq_cons parent.text.length
  have stands := @isDirectory_of_makeFirst tree plain parent rest given
  unfold makeParent makeDirectories Path.ancestors at made ⊢
  rw [above] at made ⊢
  dsimp only at made ⊢
  rw [first] at made ⊢
  split at made
  · next there =>
    rw [if_pos there]
    exact there.resolve_left given
  next absent =>
  rw [if_neg absent]
  split at made
  · next tried triedEq =>
    rw [triedEq] at stands
    exact stands rfl
  · cases made

/-- The directories that are made are named by fronts of the path. -/
theorem makeParent_grows_fronts (plain : Plain tree) (path : Path) :
    Grows tree (tree.makeParent path).1 (fun place => ∃ directory : Path,
      directory.Fronts path ∧ directory.text ≠ [] ∧
        place = directory.location tree.workingDirectory) := by
  unfold makeParent
  split
  · exact Grows.refl plain _
  next parent parentEq =>
  split
  · exact Grows.refl plain _
  have grows : Grows tree (tree.makeDirectories parent).1 (fun place => ∃ directory : Path,
      directory.Fronts path ∧ directory.text ≠ [] ∧
        place = directory.location tree.workingDirectory) :=
    (makeFirst_grows plain parent.ancestors).mono fun place _ ⟨directory, member, given, same⟩ =>
      ⟨directory, Path.fronts_of_mem_ancestors parentEq member given, given, same⟩
  split
  · next made same => rwa [same] at grows
  · next made fault same => rwa [same] at grows

theorem isDirectoryAt_of_makeParent (plain : Plain tree) {path parent : Path}
    (above : path.parent? = some parent) (given : parent.text ≠ [])
    (made : (tree.makeParent path).2 = .ok ()) :
    (tree.makeParent path).1.isDirectoryAt (parent.location tree.workingDirectory) = true := by
  have grows := makeParent_grows_fronts plain path
  rw [← grows.working]
  exact ((isDirectory_iff grows.plain).mp (isDirectory_of_makeParent plain above given made)).2

/-- Where room has been made for a path, it need not be made again as long as no directory is
lost. -/
theorem makeParent_again (plain : Plain tree) (other : Plain later) {path : Path}
    (made : (tree.makeParent path).2 = .ok ())
    (working : later.workingDirectory = tree.workingDirectory)
    (directories : ∀ place, (tree.makeParent path).1.isDirectoryAt place = true →
      later.isDirectoryAt place = true) : later.makeParent path = (later, .ok ()) := by
  have grows := makeParent_grows_fronts plain path
  unfold makeParent
  split
  · rfl
  next parent parentEq =>
  refine if_pos (Decidable.or_iff_not_imp_left.mpr fun given => ?_)
  exact isDirectory_mono grows.plain other (working.trans grows.working.symm) directories
    (isDirectory_of_makeParent plain parentEq given made)

/-- Directories are made at places on the way to the path, short of its last move. -/
theorem makeParent_grows (plain : Plain tree) (path : Path) :
    Grows tree (tree.makeParent path).1 (fun place => ∃ moves, moves <+: path.moves.dropLast ∧
      place = (path.startFrom tree.workingDirectory).along moves) := by
  refine (makeParent_grows_fronts plain path).mono fun place _ => ?_
  rintro ⟨directory, fronts, given, rfl⟩
  refine ⟨directory.moves, fronts.moves_isPrefix_dropLast, ?_⟩
  rw [Path.location_eq_moves]
  unfold Path.startFrom
  rw [Path.isAbsolute_of_isPrefix fronts.text given]

/-- Where a path leads somewhere, through links or not, the directory to hold it is there, and none
is made. -/
theorem makeParent_of_locate (sound : Sound tree) {path : Path} {reached : Location}
    (located : tree.locate path = .ok reached) : tree.makeParent path = (tree, .ok ()) := by
  unfold makeParent
  split
  · rfl
  next parent parentEq =>
  refine if_pos (Decidable.or_iff_not_imp_left.mpr fun given => ?_)
  obtain ⟨text, moves⟩ := Path.parent?_eq_some parentEq
  obtain ⟨usable, left, trail⟩ := (locate_eq_ok_iff_trail sound).mp located
  have start : parent.startFrom tree.workingDirectory = path.startFrom tree.workingDirectory := by
    unfold Path.startFrom
    rw [Path.isAbsolute_of_isPrefix text given]
  obtain ⟨between, middle, onTheWay, directory⟩ : ∃ between middle,
      tree.Trail linkLimit (path.startFrom tree.workingDirectory) parent.moves between middle ∧
        tree.isDirectoryAt middle = true := by
    have byMoves : tree.Trail linkLimit (path.startFrom tree.workingDirectory) path.moves left
      reached := trail.filter
    rw [moves]
    rcases List.eq_nil_or_concat path.moves with none | ⟨front, last, whole⟩
    · rw [none]
      exact ⟨_, _, .here _ _, trail.isDirectoryAt path.steps_ne_nil⟩
    · rw [List.concat_eq_append] at whole
      rw [whole] at byMoves ⊢
      rw [List.dropLast_concat]
      obtain ⟨between, middle, first, second⟩ := trail_append_iff.mp byMoves
      exact ⟨between, middle, first, second.isDirectoryAt (List.cons_ne_nil _ _)⟩
  refine isDirectory_iff_lookup.mpr (lookup_eq_directory_iff.mpr ⟨middle, ?_, directory⟩)
  refine (locate_eq_ok_iff_trail sound).mpr ⟨usable.of_isPrefix text given, between, ?_⟩
  rw [start]
  exact onTheWay.of_filter (Or.inl directory)

theorem makeParent_of_reaches (plain : Plain tree) {path : Path} (reaches : tree.Reaches path) :
    tree.makeParent path = (tree, .ok ()) :=
  makeParent_of_locate plain.toSound ((locate_eq_ok_iff plain).mpr ⟨reaches, rfl⟩)

/-! ### Files -/

/-- Opening a file to write puts a file where the path leads. -/
theorem create_ok (plain : Plain tree) {path : Path} {mode : Mode} {location : Location}
    (created : tree.create path mode = .ok (later, location)) :
    location = path.location tree.workingDirectory ∧ Room tree location ∧
      ∃ file, later = tree.put location (.file file) := by
  unfold create at created
  split at created
  · cases created
  · next place placed =>
    obtain ⟨rfl, rfl⟩ := Prod.mk.inj (Except.ok.inj created)
    rcases place_of_placeOfSteps plain (fun _ => Path.separator_not_mem_of_mem_steps) placed
      with found | ⟨vacant, none, housed, entries⟩
    · cases found
    obtain rfl := Place.vacant.inj vacant
    refine ⟨rfl, ⟨?_, entries, housed, by simp [isDirectoryAt, none]⟩, _, rfl⟩
    intro root
    rw [root] at none
    cases none
  · next place placed =>
    split at created
    · next file there =>
      split at created
      · obtain ⟨rfl, rfl⟩ := Prod.mk.inj (Except.ok.inj created)
        refine ⟨?_, Room.of_file plain (file?_eq_some_iff.mpr there), _, rfl⟩
        rcases place_of_placeOfSteps plain (fun _ => Path.separator_not_mem_of_mem_steps) placed
          with found | ⟨vacant, -⟩
        · exact Place.found.inj found
        · cases vacant
      · cases created
    · cases created
    · cases created

theorem writeFile_ok (plain : Plain tree) {path : Path} {content : Bytes}
    (written : tree.writeFile path content = .ok later) :
    Keeps tree later (· = path.location tree.workingDirectory) ∧
      tree.isDirectoryAt (path.location tree.workingDirectory) = false := by
  unfold writeFile at written
  split at written
  · cases written
  next opened location created =>
  obtain ⟨rfl, room, file, rfl⟩ := create_ok plain created
  have keeps := room.keeps plain file
  have there : (tree.put _ (.file file)).file? _ = some file := file?_put room.below file
  unfold fill at written
  rw [there] at written
  obtain rfl := Except.ok.inj written
  exact ⟨keeps.trans ((Room.of_file keeps.plain there).keeps keeps.plain _), room.leaf⟩

/-- Copying reads a regular file and leaves one where the target leads. -/
theorem copyFile_ok (plain : Plain tree) {source target : Path}
    (copied : tree.copyFile source target = .ok later) :
    Keeps tree later (· = target.location tree.workingDirectory) ∧
      tree.isDirectoryAt (target.location tree.workingDirectory) = false ∧
      (∃ file, tree.fileAt? source = some file) ∧
      ∃ file, later.file? (target.location tree.workingDirectory) = some file := by
  unfold copyFile at copied
  split at copied
  · cases copied
  next reached located =>
  obtain ⟨reaches, rfl⟩ := (locate_eq_ok_iff plain).mp located
  split at copied
  · cases copied
  next file there =>
  split at copied
  · split at copied
    · cases copied
    next opened location created =>
    obtain ⟨rfl, room, empty, rfl⟩ := create_ok plain created
    obtain rfl := Except.ok.inj copied
    have opens := room.keeps plain empty
    have again := Room.of_file opens.plain (file?_put room.below empty)
    exact ⟨opens.trans (again.keeps opens.plain _), room.leaf,
      ⟨file, (fileAt?_eq_some_iff plain).mpr ⟨reaches, there⟩⟩, _, file?_put room.below _⟩
  · cases copied

/-- Giving a target the time of its source finds both. A regular file takes the time; a directory
stands as it did. -/
theorem copyModified_ok (plain : Plain tree) {source target : Path}
    (stamped : tree.copyModified source target = .ok later) :
    tree.Reaches source ∧ tree.Reaches target ∧
      Keeps tree later (· = target.location tree.workingDirectory) ∧
      (∀ place, (later.node? place).isSome = (tree.node? place).isSome ∧
        later.isDirectoryAt place = tree.isDirectoryAt place) ∧
      ∀ file, tree.file? (target.location tree.workingDirectory) = some file →
        later.file? (target.location tree.workingDirectory) = some
          { file with modified := tree.modifiedAt (source.location tree.workingDirectory) } := by
  unfold copyModified modified at stamped
  cases sourceLocated : tree.locate source with
  | error fault =>
    rw [sourceLocated] at stamped
    cases stamped
  | ok sourceLocation =>
    obtain ⟨sourceReaches, rfl⟩ := (locate_eq_ok_iff plain).mp sourceLocated
    rw [sourceLocated] at stamped
    simp only [Except.map] at stamped
    split at stamped
    · cases stamped
    next set =>
    obtain rfl := Except.ok.inj stamped
    unfold setModified at set
    split at set
    · cases set
    split at set
    · cases set
    next targetLocation targetLocated =>
    obtain ⟨targetReaches, rfl⟩ := (locate_eq_ok_iff plain).mp targetLocated
    refine ⟨sourceReaches, targetReaches, ?_⟩
    split at set
    · next file there =>
      obtain rfl := Except.ok.inj set
      have room := Room.of_file plain there
      have stands := file?_eq_some_iff.mp there
      refine ⟨room.keeps plain _, fun place => ?_, fun other same => ?_⟩
      · by_cases same : place = target.location tree.workingDirectory
        · subst same
          simp [isDirectoryAt, room.node?_put, stands]
        · simp [isDirectoryAt, node?_put_of_ne tree same]
      · obtain rfl := Option.some.inj (there.symm.trans same)
        exact file?_put room.below _
    · next other =>
      obtain rfl := Except.ok.inj set
      refine ⟨⟨plain.stampDirectory _ _, rfl, fun _ _ => rfl, fun _ => rfl⟩, fun _ => ⟨rfl, rfl⟩,
        fun file there => ?_⟩
      rw [other] at there
      cases there

/-- What is removed is no directory, and nothing is left of it. -/
theorem removeFile_ok (plain : Plain tree) {path : Path}
    (removed : tree.removeFile path = .ok later) :
    Keeps tree later (· = path.location tree.workingDirectory) ∧
      tree.isDirectoryAt (path.location tree.workingDirectory) = false ∧
      later.node? (path.location tree.workingDirectory) = none := by
  unfold removeFile at removed
  split at removed
  · cases removed
  · split at removed
    · cases removed
    · cases removed
    next location placed =>
    split at removed
    · cases removed
    next leaf =>
    obtain rfl := Except.ok.inj removed
    obtain ⟨-, rfl⟩ := (place_eq_found_iff plain (by decide)).mp placed
    have leaf : tree.isDirectoryAt (path.location tree.workingDirectory) = false := by
      simpa using leaf
    refine ⟨⟨plain.drop leaf, rfl, fun _ apart => node?_drop_of_ne tree apart,
      isClosedAt_drop tree leaf⟩, leaf, ?_⟩
    refine node?_drop_self tree fun root => ?_
    rw [root] at leaf
    cases leaf
  · split at removed
    · cases removed
    · cases removed
    · split at removed <;> cases removed

theorem solidSteps_of_isEntry {path : Path} {front : List Text} {last : Text}
    (steps : path.steps = front ++ [last]) (entry : IsEntry last) :
    path.solidSteps = path.steps := by
  have stays : (last == []) = false := by simpa using entry.ne_nil
  unfold Path.solidSteps
  rw [steps, List.reverse_concat, List.dropWhile_cons_of_neg (by simp [stays]),
    List.reverse_cons, List.reverse_reverse]

theorem ending_of_isEntry {path : Path} {front : List Text} {last : Text}
    (steps : path.steps = front ++ [last]) (entry : IsEntry last) : path.ending = .name := by
  unfold Path.ending
  rw [solidSteps_of_isEntry steps entry, steps, List.getLast?_concat]
  dsimp only
  rw [if_neg (not_or.mpr ⟨(Path.isMove_iff.mp entry.move).2, entry.named⟩), if_pos rfl]

theorem steps_of_fileAt? (plain : Plain tree) {path : Path} {file : File}
    (there : tree.fileAt? path = some file) :
    ∃ front last, path.steps = front ++ [last] ∧ IsEntry last := by
  obtain ⟨reaches, stands⟩ := (fileAt?_eq_some_iff plain).mp there
  rcases List.eq_nil_or_concat path.steps with none | ⟨front, last, steps⟩
  · exact absurd none path.steps_ne_nil
  rw [List.concat_eq_append] at steps
  have inPath : last ∈ path.steps := by
    rw [steps]
    exact List.mem_append_right _ (List.mem_singleton_self _)
  have passes := reaches.passes
  unfold Path.location at stands
  rw [steps] at passes stands
  exact ⟨front, last, steps, passes.isEntry_last plain.toSound
    (Path.separator_not_mem_of_mem_steps inPath) (Option.isSome_iff_exists.mpr ⟨file, stands⟩)⟩

/-- A path that leads to a regular file ends in its name. -/
theorem ending_of_fileAt? (plain : Plain tree) {path : Path} {file : File}
    (there : tree.fileAt? path = some file) : path.ending = .name := by
  obtain ⟨front, last, steps, entry⟩ := steps_of_fileAt? plain there
  exact ending_of_isEntry steps entry

/-- A regular file can be removed by a path that leads to it. -/
theorem removeFile_of_file (plain : Plain tree) {path : Path} {file : File}
    (there : tree.fileAt? path = some file) :
    ∃ removed, tree.removeFile path = .ok removed := by
  obtain ⟨reaches, stands⟩ := (fileAt?_eq_some_iff plain).mp there
  unfold removeFile
  rw [ending_of_fileAt? plain there]
  dsimp only
  rw [(place_eq_found_iff plain (show Aim.entry ≠ .newFile by decide)).mpr ⟨reaches, rfl⟩]
  dsimp only
  rw [if_neg (by simp [(Room.of_file plain stands).leaf])]
  exact ⟨_, rfl⟩

/-- What can be removed is a regular file. -/
theorem isFile_of_removeFile (plain : Plain tree) {path : Path}
    (removed : tree.removeFile path = .ok later) : tree.isFile path = true := by
  have leaf := (removeFile_ok plain removed).2.1
  unfold removeFile at removed
  split at removed
  · cases removed
  · split at removed
    · cases removed
    · cases removed
    next location placed =>
    obtain ⟨reaches, -⟩ := (place_eq_found_iff plain (by decide)).mp placed
    refine (reaches.isDirectory_or_isFile plain).resolve_left fun directory => ?_
    rw [((isDirectory_iff plain).mp directory).2] at leaf
    cases leaf
  · split at removed
    · cases removed
    · cases removed
    · split at removed <;> cases removed

/-- A path to a file leads to a file as long as there is one, and no directory is lost. -/
theorem isFile_mono (plain : Plain tree) (other : Plain later) {path : Path}
    (working : later.workingDirectory = tree.workingDirectory)
    (directories : ∀ place, tree.isDirectoryAt place = true → later.isDirectoryAt place = true)
    (stands : (later.file? (path.location tree.workingDirectory)).isSome = true)
    (there : tree.isFile path = true) : later.isFile path = true := by
  obtain ⟨before, found⟩ := Option.isSome_iff_exists.mp there
  have reaches := ((fileAt?_eq_some_iff plain).mp found).1.mono working directories
    fun _ => node?_isSome_of_file?_isSome stands
  obtain ⟨file, stands⟩ := Option.isSome_iff_exists.mp stands
  unfold isFile
  rw [(fileAt?_eq_some_iff other).mpr ⟨reaches, working.symm ▸ stands⟩]
  rfl

end AssetPipeline.FileTree
