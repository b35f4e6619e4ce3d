/-
This file says what a walk through a plain tree finds, and that it finds the same in two trees that
agree below the place it starts from. What it finds are the regular files at and below that place,
each by the path that goes down to it entry by entry, and it finds all of them as long as none of
these paths is over the limits of the system and every directory may be listed. The order of the
entries is the order of the tree's own list and means nothing, so two walks agree up to order. The
number of levels that a walk may go down is bounded by the tree it walks through, but no bound is
ever reached, since no location is longer than the depth of the tree.
-/

import AssetPipeline.Proofs.FileTree.Passage
import AssetPipeline.Proofs.Path.Bare
import Mathlib.Data.List.Perm.Lattice

namespace AssetPipeline

namespace Path

variable {base : Path} {name : Name}

theorem isAbsolute_of_isEntry (entry : IsEntry name) : (Path.mk name).isAbsolute = false := by
  unfold isAbsolute
  cases letters : name with
  | nil => exact absurd letters entry.ne_nil
  | cons head tail =>
    have differs : head ≠ separator := fun same =>
      entry.free (letters ▸ same ▸ List.mem_cons_self)
    simpa using differs

theorem steps_of_isEntry (entry : IsEntry name) : (Path.mk name).steps = [name] :=
  Text.splitOn_of_not_mem entry.free

theorem moves_of_isEntry (entry : IsEntry name) : (Path.mk name).moves = [name] := by
  unfold moves
  rw [steps_of_isEntry entry, List.filter_cons_of_pos entry.move, List.filter_nil]

/-- The path of an entry leads one level further down. -/
theorem location_child (given : base.text ≠ []) (entry : IsEntry name) (working : Location) :
    (base.child name).location working = (base.location working).child name := by
  unfold child
  rw [location_join given (isAbsolute_of_isEntry entry), moves_of_isEntry entry,
    Location.along_cons, Location.step_of_isEntry entry, Location.along_nil]

theorem text_child_ne_nil (given : base.text ≠ []) (entry : IsEntry name) :
    (base.child name).text ≠ [] :=
  text_join_ne_nil given (isAbsolute_of_isEntry entry)

end Path

namespace FileTree

/-! ### Gathering -/

section Gather

variable {Error Item Key : Type}

theorem gather_cons_eq_ok {answer : Except Error (List Item)}
    {answers : List (Except Error (List Item))} {items : List Item} :
    gather (answer :: answers) = .ok items ↔
      ∃ first rest, answer = .ok first ∧ gather answers = .ok rest ∧ items = first ++ rest := by
  constructor
  · intro gathered
    cases answer with
    | error error => cases gathered
    | ok first =>
      unfold gather at gathered
      split at gathered
      · cases gathered
      · next rest later => exact ⟨first, rest, rfl, later, (Except.ok.inj gathered).symm⟩
  · rintro ⟨first, rest, rfl, later, rfl⟩
    unfold gather
    rw [later]

theorem mem_gather {answers : List (Except Error (List Item))} {items : List Item}
    (gathered : gather answers = .ok items) {item : Item} (member : item ∈ items) :
    ∃ part, .ok part ∈ answers ∧ item ∈ part := by
  induction answers generalizing items with
  | nil =>
    obtain rfl := Except.ok.inj gathered
    cases member
  | cons answer answers inductionHypothesis =>
    obtain ⟨first, rest, rfl, later, rfl⟩ := gather_cons_eq_ok.mp gathered
    rcases List.mem_append.mp member with here | there
    · exact ⟨first, List.mem_cons_self, here⟩
    · obtain ⟨part, found, inside⟩ := inductionHypothesis later there
      exact ⟨part, List.mem_cons_of_mem _ found, inside⟩

/-- Answers in another order are gathered in another order. -/
theorem gather_perm {answers others : List (Except Error (List Item))} (perm : answers.Perm others)
    {items : List Item} (gathered : gather answers = .ok items) :
    ∃ found, gather others = .ok found ∧ items.Perm found := by
  induction perm generalizing items with
  | nil => exact ⟨items, gathered, List.Perm.refl _⟩
  | cons answer _ inductionHypothesis =>
    obtain ⟨first, rest, rfl, later, rfl⟩ := gather_cons_eq_ok.mp gathered
    obtain ⟨found, foundEq, same⟩ := inductionHypothesis later
    exact ⟨first ++ found, gather_cons_eq_ok.mpr ⟨first, found, rfl, foundEq, rfl⟩,
      same.append_left _⟩
  | swap answer next answers =>
    obtain ⟨first, others, rfl, later, rfl⟩ := gather_cons_eq_ok.mp gathered
    obtain ⟨second, rest, rfl, last, rfl⟩ := gather_cons_eq_ok.mp later
    refine ⟨second ++ (first ++ rest), gather_cons_eq_ok.mpr ⟨second, first ++ rest, rfl, ?_, rfl⟩,
      ?_⟩
    · exact gather_cons_eq_ok.mpr ⟨first, rest, rfl, last, rfl⟩
    · rw [← List.append_assoc, ← List.append_assoc]
      exact List.perm_append_comm.append_right _
  | trans _ _ firstHypothesis secondHypothesis =>
    obtain ⟨found, foundEq, same⟩ := firstHypothesis gathered
    obtain ⟨last, lastEq, further⟩ := secondHypothesis foundEq
    exact ⟨last, lastEq, same.trans further⟩

/-- Answers that are the same up to order, key by key, gather to the same up to order. -/
theorem gather_map {keys : List Key} {first second : Key → Except Error (List Item)}
    (agree : ∀ key ∈ keys, ∀ part, first key = .ok part →
      ∃ other, second key = .ok other ∧ part.Perm other)
    {items : List Item} (gathered : gather (keys.map first) = .ok items) :
    ∃ found, gather (keys.map second) = .ok found ∧ items.Perm found := by
  induction keys generalizing items with
  | nil => exact ⟨items, gathered, List.Perm.refl _⟩
  | cons key keys inductionHypothesis =>
    obtain ⟨part, rest, partEq, later, rfl⟩ := gather_cons_eq_ok.mp gathered
    obtain ⟨other, otherEq, same⟩ := agree key List.mem_cons_self part partEq
    obtain ⟨found, foundEq, sameRest⟩ :=
      inductionHypothesis (fun key member => agree key (List.mem_cons_of_mem _ member)) later
    exact ⟨other ++ found, gather_cons_eq_ok.mpr ⟨other, found, otherEq, foundEq, rfl⟩,
      same.append sameRest⟩

end Gather

/-! ### Names in a directory -/

variable {tree later : FileTree}

theorem mem_names {location : Location} {name : Name} :
    name ∈ tree.names location ↔ (tree.node? (location.child name)).isSome = true := by
  unfold names
  rw [List.mem_filterMap]
  constructor
  · rintro ⟨⟨place, node⟩, member, named⟩
    dsimp only at named
    split at named
    · next above =>
      have whole : place = location.child name := by
        rw [← above]
        exact (List.dropLast_append_getLast? name named).symm
      exact whole ▸ node?_isSome_of_mem member
    · cases named
  · intro stands
    obtain ⟨node, stands⟩ := Option.isSome_iff_exists.mp stands
    have below : location.child name ≠ [] := by simp [Location.child]
    refine ⟨(location.child name, node), mem_nodes_of_node? below stands, ?_⟩
    simp [Location.child]

theorem nodup_names (sound : Sound tree) (location : Location) : (tree.names location).Nodup := by
  have whole : tree.names location = (tree.nodes.map (·.1)).filterMap
      fun place => if place.dropLast = location then place.getLast? else none := by
    unfold names
    rw [List.filterMap_map]
    rfl
  rw [whole]
  refine sound.distinct.filterMap fun first second name inFirst inSecond => ?_
  simp only [Option.mem_def] at inFirst inSecond
  split at inFirst <;> split at inSecond
  · next above other =>
    rw [← List.dropLast_append_getLast? name inFirst, ← List.dropLast_append_getLast? name inSecond,
      above, other]
  all_goals simp_all

/-- The same names stand in directories that agree. -/
theorem names_perm (sound : Sound tree) (other : Sound later) {location : Location}
    (agree : ∀ name, later.node? (location.child name) = tree.node? (location.child name)) :
    (tree.names location).Perm (later.names location) := by
  refine (List.perm_ext_iff_of_nodup (nodup_names sound _) (nodup_names other _)).mpr fun name => ?_
  rw [mem_names, mem_names, agree]

/-! ### Walking -/

/-- What a walk finds at an entry of a directory. -/
def filesAt (tree : FileTree) (fuel : Nat) (inside : List Visited) (path : Path)
    (location : Location) (name : Name) : Except WalkError (List Path) :=
  match tree.resolveEntry (location.child name) (path.child name) with
  | .error fault => .error (.unreadable (path.child name) fault)
  | .ok place => tree.filesBelow fuel inside (path.child name) place

theorem Plain.isLinkAt (plain : Plain tree) (location : Location) :
    tree.isLinkAt location = false := by
  unfold FileTree.isLinkAt
  split
  · next target same => exact absurd same plain.not_link
  · rfl

/-- A directory that may not be listed ends the walk. -/
theorem filesBelow_closed {location : Location} (closed : tree.isClosedAt location = true)
    (fuel : Nat) (inside : List Visited) (path : Path) :
    tree.filesBelow (fuel + 1) inside path location =
      .error (.unreadable path .permissionDenied) := by
  have directory : tree.isDirectoryAt location = true := (Bool.and_eq_true_iff.mp closed).1
  unfold filesBelow
  rw [isDirectoryAt_iff.mp directory]
  exact if_pos closed

/-- Where a walk gets through, what it starts from may be listed. -/
theorem isClosedAt_of_filesBelow {fuel : Nat} {inside : List Visited} {path : Path}
    {location : Location} {files : List Path}
    (listed : tree.filesBelow (fuel + 1) inside path location = .ok files) :
    tree.isClosedAt location = false := by
  refine Bool.eq_false_iff.mpr fun closed => ?_
  rw [filesBelow_closed closed] at listed
  cases listed

theorem filesBelow_directory (plain : Plain tree) {fuel : Nat} {inside : List Visited} {path : Path}
    {location : Location} (directory : tree.isDirectoryAt location = true)
    (listable : tree.isClosedAt location = false) :
    tree.filesBelow (fuel + 1) inside path location =
      gather ((tree.names location).map
        (tree.filesAt fuel (⟨location, path⟩ :: inside) path location)) := by
  unfold filesBelow
  rw [isDirectoryAt_iff.mp directory]
  dsimp only
  rw [if_neg (Bool.eq_false_iff.mp listable)]
  congr 1
  refine List.map_congr_left fun name _ => ?_
  unfold filesAt
  have unlinked : ∀ place, ((⟨location, path⟩ : Visited) :: inside).find? (fun visited =>
      tree.isLinkAt (location.child name) && tree.isDirectoryAt place &&
        visited.location == place) = none := by
    intro place
    refine List.find?_eq_none.mpr fun visited _ => ?_
    simp [plain.isLinkAt]
  cases tree.resolveEntry (location.child name) (path.child name) with
  | error fault => rfl
  | ok place =>
    dsimp only
    rw [unlinked]

/-- An entry of a directory stands for itself. -/
theorem resolveEntry_ok (plain : Plain tree) {location place : Location} {path : Path}
    (leads : path.location tree.workingDirectory = location)
    (resolved : tree.resolveEntry location path = .ok place) : place = location := by
  unfold resolveEntry at resolved
  split at resolved
  · exact (Except.ok.inj resolved).symm
  · exact ((locate_eq_ok_iff plain).mp resolved).2.trans leads

theorem filesBelow_nothing {location : Location} (none : tree.node? location = none) (fuel : Nat)
    (inside : List Visited) (path : Path) : tree.filesBelow fuel inside path location = .ok [] := by
  cases fuel with
  | zero => rfl
  | succ _ =>
    unfold filesBelow
    rw [none]

theorem filesBelow_file {location : Location} {file : File}
    (there : tree.node? location = some (.file file)) (fuel : Nat) (inside : List Visited)
    (path : Path) : tree.filesBelow (fuel + 1) inside path location = .ok [path] := by
  unfold filesBelow
  rw [there]

/-- Whatever a walk finds is a regular file below, found by the path that goes down to it. -/
theorem mem_filesBelow (plain : Plain tree) {fuel : Nat} {inside : List Visited} {path : Path}
    {location : Location} (given : path.text ≠ [])
    (leads : path.location tree.workingDirectory = location) {files : List Path}
    (listed : tree.filesBelow fuel inside path location = .ok files) {file : Path}
    (member : file ∈ files) : ∃ names, (∀ name ∈ names, IsEntry name) ∧
      file = names.foldl Path.child path ∧ (tree.file? (location ++ names)).isSome = true := by
  induction fuel generalizing inside path location files with
  | zero =>
    obtain rfl := Except.ok.inj listed
    cases member
  | succ fuel inductionHypothesis =>
    rcases plain.cases location with none | directory | ⟨stored, there⟩
    · rw [filesBelow_nothing none] at listed
      obtain rfl := Except.ok.inj listed
      cases member
    · rw [filesBelow_directory plain (isDirectoryAt_iff.mpr directory)
        (isClosedAt_of_filesBelow listed)] at listed
      obtain ⟨part, answered, inPart⟩ := mem_gather listed member
      obtain ⟨name, named, answer⟩ := List.mem_map.mp answered
      have stands := mem_names.mp named
      have entry : IsEntry name := plain.isEntry stands name (by simp [Location.child])
      have further := Path.location_child given entry tree.workingDirectory
      rw [leads] at further
      unfold filesAt at answer
      split at answer
      · cases answer
      next place resolved =>
      obtain rfl := resolveEntry_ok plain further resolved
      obtain ⟨names, entries, same, found⟩ :=
        inductionHypothesis (Path.text_child_ne_nil given entry) further answer inPart
      refine ⟨name :: names, fun other inside => ?_, same, Location.child_append _ _ _ ▸ found⟩
      rcases List.mem_cons.mp inside with rfl | later
      · exact entry
      · exact entries other later
    · rw [filesBelow_file there] at listed
      obtain rfl := Except.ok.inj listed
      rw [List.mem_singleton.mp member]
      refine ⟨[], fun _ inside => absurd inside List.not_mem_nil, rfl, ?_⟩
      rw [List.append_nil, file?_eq_some_iff.mpr there]
      rfl

/-! ### Levels -/

/-- The levels below a place are fewer than this. -/
def Covers (tree : FileTree) (fuel : Nat) (location : Location) : Prop :=
  ∀ below, (tree.node? (location ++ below)).isSome = true → below.length < fuel

theorem Covers.child {fuel : Nat} {location : Location} (covers : tree.Covers (fuel + 1) location)
    (name : Name) : tree.Covers fuel (location.child name) := by
  intro below stands
  rw [Location.child_append] at stands
  exact Nat.lt_of_succ_lt_succ (covers (name :: below) stands)

theorem Covers.eq_succ {fuel : Nat} {location : Location} (covers : tree.Covers fuel location)
    (stands : (tree.node? location).isSome = true) : ∃ less, fuel = less + 1 :=
  Nat.exists_eq_succ_of_ne_zero
    (Nat.pos_iff_ne_zero.mp (covers [] (by rwa [List.append_nil])))

/-- Every directory at and below a place may be listed. -/
def Listable (tree : FileTree) (location : Location) : Prop :=
  ∀ below, tree.isClosedAt (location ++ below) = false

theorem Listable.here {location : Location} (listable : tree.Listable location) :
    tree.isClosedAt location = false := by
  simpa using listable []

theorem Listable.child {location : Location} (listable : tree.Listable location) (name : Name) :
    tree.Listable (location.child name) := by
  intro below
  rw [Location.child_append]
  exact listable (name :: below)

/-- No location that is listed is longer than the tree is deep. -/
theorem length_le_depth {location : Location} {node : Node}
    (member : (location, node) ∈ tree.nodes) :
    location.length ≤ tree.depth := by
  unfold depth
  generalize tree.nodes = nodes at member
  induction nodes with
  | nil => cases member
  | cons head rest inductionHypothesis =>
    rw [List.map_cons, List.foldr_cons]
    rcases List.mem_cons.mp member with same | later
    · rw [← same]
      exact Nat.le_max_left _ _
    · exact Nat.le_trans (inductionHypothesis later) (Nat.le_max_right _ _)

theorem covers_walkBound (tree : FileTree) (location : Location) :
    tree.Covers tree.walkBound location := by
  intro below stands
  obtain ⟨node, stands⟩ := Option.isSome_iff_exists.mp stands
  have deep : (location ++ below).length ≤ tree.depth := by
    by_cases root : location ++ below = []
    · rw [root]
      exact Nat.zero_le _
    · exact length_le_depth (mem_nodes_of_node? root stands)
  have bound : tree.depth + 2 ≤ tree.walkBound := Nat.le_mul_of_pos_left _ (Nat.succ_pos _)
  rw [List.length_append] at deep
  omega

/-! ### Finding every file -/

/-- An entry of a directory is reached by going on from the directory. -/
theorem Reaches.child {base : Path} {name : Name} (reaches : tree.Reaches base)
    (entry : IsEntry name) (fits : (base.child name).Fits)
    (directory : tree.isDirectoryAt (base.location tree.workingDirectory) = true)
    (stands : (tree.node? ((base.location tree.workingDirectory).child name)).isSome = true) :
    tree.Reaches (base.child name) := by
  have relative := Path.isAbsolute_of_isEntry entry
  obtain ⟨front, steps⟩ := Path.steps_join reaches.usable.given relative
  rw [Path.steps_of_isEntry entry] at steps
  refine reaches.join relative fits.usable ?_ (Or.inr ⟨front, name, steps, entry.move⟩)
  rw [Path.moves_of_isEntry entry]
  exact ⟨directory, fun _ _ => ⟨fits.short name (steps ▸ by simp), stands⟩, trivial⟩

/-- When every answer is one, all that they hold is gathered. -/
theorem gather_eq_ok {Error Item : Type} {answers : List (Except Error (List Item))}
    (each : ∀ answer ∈ answers, ∃ part, answer = .ok part) :
    ∃ items, gather answers = .ok items ∧
      ∀ part, .ok part ∈ answers → ∀ item ∈ part, item ∈ items := by
  induction answers with
  | nil => exact ⟨[], rfl, fun part member => nomatch member⟩
  | cons answer rest inductionHypothesis =>
    obtain ⟨first, rfl⟩ := each answer List.mem_cons_self
    obtain ⟨more, gathered, holds⟩ :=
      inductionHypothesis fun answer member => each answer (List.mem_cons_of_mem _ member)
    refine ⟨first ++ more, gather_cons_eq_ok.mpr ⟨first, more, rfl, gathered, rfl⟩,
      fun part member item inPart => ?_⟩
    rcases List.mem_cons.mp member with same | later
    · obtain rfl := Except.ok.inj same
      exact List.mem_append_left _ inPart
    · exact List.mem_append_right _ (holds part later item inPart)

/-- The answer of a walk holds every file at and below the place where it starts. -/
def Finds (tree : FileTree) (path : Path) (location : Location)
    (answer : Except WalkError (List Path)) : Prop :=
  ∃ files, answer = .ok files ∧ ∀ names, (tree.file? (location ++ names)).isSome = true →
    names.foldl Path.child path ∈ files

/-- A walk goes on from an entry that stands there, and is reached if it is a directory. -/
theorem filesAt_eq (plain : Plain tree) {fuel : Nat} {inside : List Visited} {path : Path}
    {location : Location} {name : Name}
    (stands : (tree.node? (location.child name)).isSome = true)
    (leads : (path.child name).location tree.workingDirectory = location.child name)
    (reaches : tree.isDirectoryAt (location.child name) = true → tree.Reaches (path.child name)) :
    tree.filesAt fuel inside path location name =
      tree.filesBelow fuel inside (path.child name) (location.child name) := by
  have resolved : tree.resolveEntry (location.child name) (path.child name) =
      .ok (location.child name) := by
    unfold resolveEntry
    rcases plain.cases (location.child name) with none | inner | ⟨file, there⟩
    · rw [none] at stands
      cases stands
    · rw [inner]
      exact (locate_eq_ok_iff plain).mpr ⟨reaches (isDirectoryAt_iff.mpr inner), leads.symm⟩
    · rw [there]
  unfold filesAt
  rw [resolved]

theorem finds_nothing (plain : Plain tree) {fuel : Nat} {inside : List Visited} {path : Path}
    {location : Location} (none : tree.node? location = none) :
    tree.Finds path location (tree.filesBelow fuel inside path location) := by
  refine ⟨[], filesBelow_nothing none _ _ _, fun names found => ?_⟩
  have stands := plain.isSome_of_below (node?_isSome_of_file?_isSome found)
  rw [none] at stands
  cases stands

theorem finds_file (plain : Plain tree) {fuel : Nat} {inside : List Visited} {path : Path}
    {location : Location} {file : File} (there : tree.node? location = some (.file file)) :
    tree.Finds path location (tree.filesBelow (fuel + 1) inside path location) := by
  refine ⟨[path], filesBelow_file there _ _ _, fun names found => ?_⟩
  have leaf : tree.isDirectoryAt location = false := by
    unfold isDirectoryAt
    rw [there]
    rfl
  rw [plain.eq_nil_of_leaf leaf (node?_isSome_of_file?_isSome found)]
  exact List.mem_singleton_self path

/-- What is found at every entry of a directory is all there is below. -/
theorem finds_directory (plain : Plain tree) {fuel : Nat} {inside : List Visited} {path : Path}
    {location : Location} (directory : tree.isDirectoryAt location = true)
    (listable : tree.isClosedAt location = false)
    (each : ∀ name ∈ tree.names location, tree.Finds (path.child name) (location.child name)
      (tree.filesAt fuel (⟨location, path⟩ :: inside) path location name)) :
    tree.Finds path location (tree.filesBelow (fuel + 1) inside path location) := by
  rw [filesBelow_directory plain directory listable]
  obtain ⟨files, gathered, holds⟩ := gather_eq_ok fun answer member => by
    obtain ⟨name, named, rfl⟩ := List.mem_map.mp member
    obtain ⟨part, answered, -⟩ := each name named
    exact ⟨part, answered⟩
  refine ⟨files, gathered, fun names found => ?_⟩
  cases names with
  | nil =>
    rw [List.append_nil] at found
    unfold file? at found
    rw [isDirectoryAt_iff.mp directory] at found
    cases found
  | cons name names =>
    rw [← Location.child_append] at found
    have named : name ∈ tree.names location :=
      mem_names.mpr (plain.isSome_of_below (node?_isSome_of_file?_isSome found))
    obtain ⟨part, answered, holdsBelow⟩ := each name named
    exact holds part (answered ▸ List.mem_map_of_mem named) _ (holdsBelow names found)

/-- A walk that reaches every directory below, and may list it, finds every file. -/
theorem filesBelow_finds (plain : Plain tree) {fuel : Nat} {inside : List Visited} {path : Path}
    {location : Location} (given : path.text ≠ [])
    (leads : path.location tree.workingDirectory = location) (covers : tree.Covers fuel location)
    (listable : tree.Listable location)
    (reaches : ∀ names, names ≠ [] → tree.isDirectoryAt (location ++ names) = true →
      tree.Reaches (names.foldl Path.child path)) :
    tree.Finds path location (tree.filesBelow fuel inside path location) := by
  induction fuel generalizing inside path location with
  | zero =>
    refine ⟨[], rfl, fun names found => ?_⟩
    exact absurd (covers names (node?_isSome_of_file?_isSome found)) (Nat.not_lt_zero _)
  | succ fuel inductionHypothesis =>
    rcases plain.cases location with none | inner | ⟨stored, there⟩
    · exact finds_nothing plain none
    · refine finds_directory plain (isDirectoryAt_iff.mpr inner) listable.here fun name named => ?_
      have stands := mem_names.mp named
      have entry : IsEntry name := plain.isEntry stands name (by simp [Location.child])
      have further := Path.location_child given entry tree.workingDirectory
      rw [leads] at further
      rw [filesAt_eq plain stands further (reaches [name] (List.cons_ne_nil _ _))]
      refine inductionHypothesis (Path.text_child_ne_nil given entry) further (covers.child name)
        (listable.child name) fun names some directory => ?_
      rw [Location.child_append] at directory
      exact reaches (name :: names) (List.cons_ne_nil _ _) directory
    · exact finds_file plain there

/-- Every directory below is reached when the paths of the entries are within the limits. -/
theorem Reaches.below (plain : Plain tree) {path : Path} {names : List Name}
    (reaches : tree.Reaches path)
    (fits : ∀ names, (tree.node? (path.location tree.workingDirectory ++ names)).isSome = true →
      (names.foldl Path.child path).Fits)
    (directory : tree.isDirectoryAt (path.location tree.workingDirectory ++ names) = true) :
    tree.Reaches (names.foldl Path.child path) ∧
      (names.foldl Path.child path).location tree.workingDirectory =
        path.location tree.workingDirectory ++ names := by
  induction names using List.reverseRecOn with
  | nil => exact ⟨reaches, (List.append_nil _).symm⟩
  | append_singleton front last inductionHypothesis =>
    have stands : (tree.node? (path.location tree.workingDirectory ++ (front ++ [last]))).isSome =
        true := by
      rw [isDirectoryAt_iff.mp directory]
      rfl
    have entry : IsEntry last := plain.isEntry stands last (by simp)
    have above : tree.isDirectoryAt (path.location tree.workingDirectory ++ front) = true := by
      refine plain.isDirectoryAt_of_below (List.cons_ne_nil last []) ?_
      rwa [List.append_assoc]
    obtain ⟨before, leads⟩ := inductionHypothesis above
    have fitsLast := fits (front ++ [last]) stands
    rw [← List.append_assoc] at stands
    rw [List.foldl_concat] at fitsLast ⊢
    have further := Path.location_child before.usable.given entry tree.workingDirectory
    rw [leads] at further
    refine ⟨before.child entry fitsLast (leads ▸ above) (leads ▸ stands), ?_⟩
    rw [further, ← List.append_assoc]
    rfl

/-- A walk through entries whose paths are within the limits finds every file below, if every
directory may be listed. -/
theorem filesBelow_complete (plain : Plain tree) {fuel : Nat} {inside : List Visited} {path : Path}
    (reaches : tree.Reaches path)
    (covers : tree.Covers fuel (path.location tree.workingDirectory))
    (listable : tree.Listable (path.location tree.workingDirectory))
    (fits : ∀ names, (tree.node? (path.location tree.workingDirectory ++ names)).isSome = true →
      (names.foldl Path.child path).Fits) :
    tree.Finds path (path.location tree.workingDirectory)
      (tree.filesBelow fuel inside path (path.location tree.workingDirectory)) :=
  filesBelow_finds plain reaches.usable.given rfl covers listable fun _ _ directory =>
    (reaches.below plain fits directory).1

/-! ### Walks through trees that agree -/

/-- An entry that can be resolved can be in a tree that agrees about it, once the directory can be
reached there. -/
theorem resolveEntry_agree (plain : Plain tree) (other : Plain later)
    (working : later.workingDirectory = tree.workingDirectory) {path : Path}
    {location place : Location}
    {name : Name} (reaches : later.Reaches path)
    (leads : path.location tree.workingDirectory = location)
    (directory : later.isDirectoryAt location = true) (entry : IsEntry name)
    (agree : later.node? (location.child name) = tree.node? (location.child name))
    (stands : (tree.node? (location.child name)).isSome = true)
    (resolved : tree.resolveEntry (location.child name) (path.child name) = .ok place) :
    later.resolveEntry (location.child name) (path.child name) = .ok place := by
  have relative := Path.isAbsolute_of_isEntry entry
  have moves := Path.moves_of_isEntry entry
  have further := Path.location_child reaches.usable.given entry tree.workingDirectory
  rw [leads] at further
  unfold resolveEntry at resolved ⊢
  rw [agree]
  rcases plain.cases (location.child name) with none | inner | ⟨file, there⟩
  · rw [none] at stands
    cases stands
  · rw [inner] at resolved
    obtain ⟨before, rfl⟩ := (locate_eq_ok_iff plain).mp resolved
    rw [inner]
    refine (locate_eq_ok_iff other).mpr ⟨reaches.join relative before.usable ?_ (Or.inl ?_), ?_⟩
    · have taken := (before.base reaches.usable.given relative (by simp [moves])).2.2
      rw [leads, moves] at taken
      rw [working, leads, moves]
      exact ⟨directory, fun move named => ⟨(taken.2.1 move named).1, agree ▸ stands⟩, trivial⟩
    · rw [working, isDirectoryAt_iff]
      exact (congrArg later.node? further).trans (agree.trans inner)
    · rw [working]
  · rw [there] at resolved ⊢
    exact resolved

/-- Two walks from a place below which the trees agree find the same. -/
theorem filesBelow_agree (plain : Plain tree) (other : Plain later)
    (working : later.workingDirectory = tree.workingDirectory) {fuel otherFuel : Nat}
    {inside otherInside : List Visited} {path : Path} {location : Location}
    (reaches : later.isDirectoryAt location = true → later.Reaches path)
    (leads : path.location tree.workingDirectory = location)
    (agree : ∀ below, later.node? (location ++ below) = tree.node? (location ++ below))
    (closed : ∀ below, later.isClosedAt (location ++ below) = tree.isClosedAt (location ++ below))
    (covers : tree.Covers fuel location) (otherCovers : later.Covers otherFuel location)
    {files : List Path} (listed : tree.filesBelow fuel inside path location = .ok files) :
    ∃ found, later.filesBelow otherFuel otherInside path location = .ok found ∧
      files.Perm found := by
  induction fuel generalizing otherFuel inside otherInside path location files with
  | zero =>
    have none : tree.node? location = none := by
      by_contra some
      obtain ⟨less, impossible⟩ := covers.eq_succ (Option.isSome_iff_ne_none.mpr some)
      cases impossible
    have otherNone : later.node? location = Option.none := by simpa [none] using agree []
    rw [filesBelow_nothing none] at listed
    exact ⟨files, (filesBelow_nothing otherNone _ _ _).trans listed, List.Perm.refl _⟩
  | succ fuel inductionHypothesis =>
    have here : later.node? location = tree.node? location := by simpa using agree []
    rcases plain.cases location with none | directory | ⟨stored, there⟩
    · rw [filesBelow_nothing none] at listed
      exact ⟨files, (filesBelow_nothing (here.trans none) _ _ _).trans listed, List.Perm.refl _⟩
    · have otherDirectory : later.isDirectoryAt location = true :=
        isDirectoryAt_iff.mpr (here.trans directory)
      obtain ⟨more, rfl⟩ := otherCovers.eq_succ (by rw [here, directory]; rfl)
      have listable := isClosedAt_of_filesBelow listed
      have otherListable : later.isClosedAt location = false := by
        simpa [listable] using closed []
      rw [filesBelow_directory plain (isDirectoryAt_iff.mpr directory) listable] at listed
      rw [filesBelow_directory other otherDirectory otherListable]
      have entries : ∀ name, later.node? (location.child name) = tree.node? (location.child name) :=
        fun name => agree [name]
      obtain ⟨middle, gathered, same⟩ :=
        gather_perm ((names_perm plain.toSound other.toSound entries).map _) listed
      suffices each : ∀ name ∈ later.names location, ∀ part,
          tree.filesAt fuel (⟨location, path⟩ :: inside) path location name = .ok part →
            ∃ others, later.filesAt more (⟨location, path⟩ :: otherInside) path location name =
              .ok others ∧ part.Perm others by
        obtain ⟨found, foundEq, sameMiddle⟩ := gather_map each gathered
        exact ⟨found, foundEq, same.trans sameMiddle⟩
      intro name named part answer
      have stands := mem_names.mp named
      have entry : IsEntry name := other.isEntry stands name (by simp [Location.child])
      have reachesHere := reaches otherDirectory
      have further := Path.location_child reachesHere.usable.given entry tree.workingDirectory
      rw [leads] at further
      unfold filesAt at answer ⊢
      split at answer
      · cases answer
      next place resolved =>
      have otherResolved := resolveEntry_agree plain other working reachesHere leads otherDirectory
        entry (entries name) (entries name ▸ stands) resolved
      obtain rfl := resolveEntry_ok plain further resolved
      rw [otherResolved]
      refine inductionHypothesis (fun inner => ?_) further (fun below => ?_) (fun below => ?_)
        (covers.child name) (otherCovers.child name) answer
      · unfold resolveEntry at otherResolved
        rw [isDirectoryAt_iff.mp inner] at otherResolved
        exact ((locate_eq_ok_iff other).mp otherResolved).1
      · rw [Location.child_append]
        exact agree (name :: below)
      · rw [Location.child_append]
        exact closed (name :: below)
    · obtain ⟨more, rfl⟩ := otherCovers.eq_succ (by rw [here, there]; rfl)
      rw [filesBelow_file there] at listed
      exact ⟨files, (filesBelow_file (here.trans there) _ _ _).trans listed, List.Perm.refl _⟩

end FileTree

end AssetPipeline
