/-
This file says what a walk comes to in a tree that may hold links. From a directory the walk goes on
to each of its entries, links followed. A directory that may not be listed is an obstacle, so is an
entry that leads nowhere the system can reach, and so is a link back to a directory that the walk is
in. The walk gets through exactly when it meets no obstacle, and then it has listed the regular
files it came to, each once.

No walk is cut short by the number of levels it may go down. Without a link each level is deeper in
the tree; a link leads to a directory that the walk was not in, and there are only so many.
-/

import AssetPipeline.Proofs.FileTree.Listing
import AssetPipeline.Proofs.FileTree.Trails
import Mathlib.Data.Finset.Card

namespace AssetPipeline.FileTree

/-! ### The way down -/

/-- Where a walk is: the directories it is in, the innermost first, the path it came by, and the
place this leads to. -/
structure Stop where
  inside : List Visited
  path : Path
  place : Location

namespace Stop

/-- Where a walk begins. -/
def start (path : Path) (place : Location) : Stop := ⟨[], path, place⟩

/-- The directories a walk is in once it enters this one. -/
def here (stop : Stop) : List Visited := ⟨stop.place, stop.path⟩ :: stop.inside

/-- Where a walk is at an entry that leads to a place. -/
def next (stop : Stop) (name : Name) (place : Location) : Stop :=
  ⟨stop.here, stop.path.child name, place⟩

end Stop

/-- The entry is a link that leads back to a directory the walk is in. -/
def LeadsBack (tree : FileTree) (stop : Stop) (name : Name) (place : Location) : Prop :=
  tree.isLinkAt (stop.place.child name) = true ∧ tree.isDirectoryAt place = true ∧
    ∃ visited ∈ stop.here, visited.location = place

/-- An entry stands in the directory where the walk is, which may be listed. -/
structure Holds (tree : FileTree) (stop : Stop) (name : Name) : Prop where
  directory : tree.isDirectoryAt stop.place = true
  listable : tree.isClosedAt stop.place = false
  stands : (tree.node? (stop.place.child name)).isSome = true

/-- The walk can go on to an entry, which leads to a place. -/
structure Admits (tree : FileTree) (stop : Stop) (name : Name) (place : Location) : Prop where
  holds : tree.Holds stop name
  resolved : tree.resolveEntry (stop.place.child name) (stop.path.child name) = .ok place
  onwards : ¬ tree.LeadsBack stop name place

/-- The walk cannot go on: the directory where it is may not be listed, or an entry of it leads
nowhere, or back. -/
inductive Obstacle (tree : FileTree) (stop : Stop) : WalkError → Prop
  | closed (shut : tree.isClosedAt stop.place = true) :
      Obstacle tree stop (.unreadable stop.path .permissionDenied)
  | unreadable {name : Name} {fault : Fault} (holds : tree.Holds stop name)
      (refused : tree.resolveEntry (stop.place.child name) (stop.path.child name) = .error fault) :
      Obstacle tree stop (.unreadable (stop.path.child name) fault)
  | loop {name : Name} {ancestor : Visited} (holds : tree.Holds stop name)
      (resolved : tree.resolveEntry (stop.place.child name) (stop.path.child name) =
        .ok ancestor.location)
      (linked : tree.isLinkAt (stop.place.child name) = true)
      (directory : tree.isDirectoryAt ancestor.location = true) (within : ancestor ∈ stop.here) :
      Obstacle tree stop (.loop (stop.path.child name) ancestor.path)

/-- A walk gets from one stop to another. -/
inductive Descends (tree : FileTree) : Stop → Stop → Prop
  | stays (stop : Stop) : Descends tree stop stop
  | enters {stop last : Stop} {name : Name} {place : Location}
      (admits : tree.Admits stop name place) (further : Descends tree (stop.next name place) last) :
      Descends tree stop last

/-- A walk meets an obstacle. -/
def Obstructed (tree : FileTree) (start : Stop) (error : WalkError) : Prop :=
  ∃ stop, tree.Descends start stop ∧ tree.Obstacle stop error

/-- A walk comes to a regular file, by this path. -/
def ComesTo (tree : FileTree) (start : Stop) (file : Path) : Prop :=
  ∃ stop, tree.Descends start stop ∧ (tree.file? stop.place).isSome = true ∧ stop.path = file

variable {tree other : FileTree} {start stop : Stop} {name : Name} {place : Location} {fuel : Nat}
  {files : List Path} {file : Path} {error : WalkError}

theorem Obstructed.enters (admits : tree.Admits stop name place)
    (obstructed : tree.Obstructed (stop.next name place) error) : tree.Obstructed stop error := by
  obtain ⟨last, descends, obstacle⟩ := obstructed
  exact ⟨last, .enters admits descends, obstacle⟩

theorem ComesTo.enters (admits : tree.Admits stop name place)
    (comes : tree.ComesTo (stop.next name place) file) : tree.ComesTo stop file := by
  obtain ⟨last, descends, there, same⟩ := comes
  exact ⟨last, .enters admits descends, there, same⟩

/-! ### What a walk answers -/

/-- The files that a walk finds from a stop on. -/
def filesFrom (tree : FileTree) (fuel : Nat) (stop : Stop) : Except WalkError (List Path) :=
  tree.filesBelow fuel stop.inside stop.path stop.place

/-- What a walk finds at an entry of the directory where it is. -/
def answerAt (tree : FileTree) (fuel : Nat) (stop : Stop) (name : Name) :
    Except WalkError (List Path) :=
  match tree.resolveEntry (stop.place.child name) (stop.path.child name) with
  | .error fault => .error (.unreadable (stop.path.child name) fault)
  | .ok place =>
    match stop.here.find? fun visited => tree.isLinkAt (stop.place.child name) &&
        tree.isDirectoryAt place && visited.location == place with
    | some ancestor => .error (.loop (stop.path.child name) ancestor.path)
    | none => tree.filesFrom fuel (stop.next name place)

theorem filesFrom_closed (closed : tree.isClosedAt stop.place = true) :
    tree.filesFrom (fuel + 1) stop = .error (.unreadable stop.path .permissionDenied) :=
  filesBelow_closed closed _ _ _

theorem filesFrom_directory (directory : tree.isDirectoryAt stop.place = true)
    (listable : tree.isClosedAt stop.place = false) :
    tree.filesFrom (fuel + 1) stop =
      gather ((tree.names stop.place).map (tree.answerAt fuel stop)) := by
  unfold filesFrom filesBelow
  rw [isDirectoryAt_iff.mp directory]
  exact if_neg (Bool.eq_false_iff.mp listable)

theorem filesFrom_file (there : (tree.file? stop.place).isSome = true) :
    tree.filesFrom (fuel + 1) stop = .ok [stop.path] := by
  obtain ⟨file, found⟩ := Option.isSome_iff_exists.mp there
  exact filesBelow_file (file?_eq_some_iff.mp found) _ _ _

/-- What is neither a directory nor a regular file holds nothing. -/
theorem filesFrom_nothing (leaf : tree.isDirectoryAt stop.place = false)
    (fileless : tree.file? stop.place = none) : tree.filesFrom fuel stop = .ok [] := by
  cases fuel with
  | zero => rfl
  | succ fuel =>
    unfold filesFrom filesBelow
    unfold isDirectoryAt at leaf
    unfold file? at fileless
    split
    · next file there => simp [there] at fileless
    · next directory => simp [directory] at leaf
    · rfl

/-- At an entry the walk meets an obstacle or goes on. -/
theorem answerAt_cases (fuel : Nat) (holds : tree.Holds stop name) :
    (∃ error, tree.answerAt fuel stop name = .error error ∧ tree.Obstacle stop error) ∨
    ∃ place, tree.Admits stop name place ∧
      tree.answerAt fuel stop name = tree.filesFrom fuel (stop.next name place) := by
  unfold answerAt
  split
  · next fault refused => exact Or.inl ⟨_, rfl, .unreadable holds refused⟩
  next place resolved =>
  split
  · next ancestor found =>
    have accepted := List.find?_some found
    simp only [Bool.and_eq_true, beq_iff_eq] at accepted
    obtain ⟨⟨linked, directory⟩, rfl⟩ := accepted
    exact Or.inl ⟨_, rfl, .loop holds resolved linked directory (List.mem_of_find?_eq_some found)⟩
  · next none =>
    refine Or.inr ⟨place, ⟨holds, resolved, ?_⟩, rfl⟩
    rintro ⟨linked, directory, visited, member, same⟩
    have refused := List.find?_eq_none.mp none visited member
    simp [linked, directory, same] at refused

/-- The error of what is gathered is one of those gathered. -/
theorem mem_of_gather_eq_error {Item : Type} {answers : List (Except WalkError (List Item))}
    (gathered : gather answers = .error error) : .error error ∈ answers := by
  induction answers with
  | nil => cases gathered
  | cons answer rest inductionHypothesis =>
    unfold gather at gathered
    split at gathered
    · cases gathered
    · next first others same =>
      obtain ⟨rfl, rfl⟩ := List.cons.inj same
      exact List.mem_cons.mpr (Or.inl (congrArg Except.error (Except.error.inj gathered).symm))
    · next first others same =>
      obtain ⟨rfl, rfl⟩ := List.cons.inj same
      split at gathered
      · next more =>
        exact List.mem_cons_of_mem _ (inductionHypothesis (more.trans gathered))
      · cases gathered

/-- An error that a walk answers with is an obstacle that it met. -/
theorem obstructed_of_filesFrom (failed : tree.filesFrom fuel stop = .error error) :
    tree.Obstructed stop error := by
  induction fuel generalizing stop with
  | zero => cases failed
  | succ fuel inductionHypothesis =>
    by_cases closed : tree.isClosedAt stop.place = true
    · rw [filesFrom_closed closed] at failed
      obtain rfl := Except.error.inj failed
      exact ⟨stop, .stays stop, .closed closed⟩
    have listable := Bool.eq_false_iff.mpr closed
    by_cases directory : tree.isDirectoryAt stop.place = true
    · rw [filesFrom_directory directory listable] at failed
      obtain ⟨name, named, answered⟩ := List.mem_map.mp (mem_of_gather_eq_error failed)
      have holds : tree.Holds stop name := ⟨directory, listable, mem_names.mp named⟩
      rcases answerAt_cases fuel holds with ⟨reason, refused, obstacle⟩ | ⟨place, admits, same⟩
      · obtain rfl := Except.error.inj (refused.symm.trans answered)
        exact ⟨stop, .stays stop, obstacle⟩
      · exact (inductionHypothesis (same.symm.trans answered)).enters admits
    · by_cases there : (tree.file? stop.place).isSome = true
      · rw [filesFrom_file there] at failed
        cases failed
      · rw [filesFrom_nothing (by simpa using directory) (by simpa using there)] at failed
        cases failed

/-- Whatever a walk lists is a regular file that it came to. -/
theorem comesTo_of_mem_filesFrom (listed : tree.filesFrom fuel stop = .ok files)
    (member : file ∈ files) : tree.ComesTo stop file := by
  induction fuel generalizing stop files with
  | zero =>
    obtain rfl := Except.ok.inj listed
    cases member
  | succ fuel inductionHypothesis =>
    have listable := isClosedAt_of_filesBelow listed
    by_cases directory : tree.isDirectoryAt stop.place = true
    · rw [filesFrom_directory directory listable] at listed
      obtain ⟨part, answered, inPart⟩ := mem_gather listed member
      obtain ⟨name, named, answer⟩ := List.mem_map.mp answered
      rcases answerAt_cases fuel ⟨directory, listable, mem_names.mp named⟩ with
        ⟨reason, refused, -⟩ | ⟨place, admits, same⟩
      · rw [refused] at answer
        cases answer
      · exact (inductionHypothesis (same.symm.trans answer) inPart).enters admits
    · by_cases there : (tree.file? stop.place).isSome = true
      · rw [filesFrom_file there] at listed
        obtain rfl := Except.ok.inj listed
        obtain rfl := List.mem_singleton.mp member
        exact ⟨stop, .stays stop, there, rfl⟩
      · rw [filesFrom_nothing (by simpa using directory) (by simpa using there)] at listed
        obtain rfl := Except.ok.inj listed
        cases member

/-! ### How far down a walk can go -/

/-- The trail by some steps ends at one place. -/
theorem Trail.eq_of_trail {links left otherLeft : Nat} {location reached another : Location}
    {steps : List Text} (trail : tree.Trail links location steps left reached)
    (second : tree.Trail links location steps otherLeft another) :
    otherLeft = left ∧ another = reached := by
  induction trail with
  | here =>
    cases second
    exact ⟨rfl, rfl⟩
  | idle directory still onwards inductionHypothesis =>
    cases second with
    | idle _ _ further => exact inductionHypothesis further
    | up => cases still
    | down _ move => exact absurd (still.symm.trans move) Bool.false_ne_true
    | link _ move => exact absurd (still.symm.trans move) Bool.false_ne_true
  | up directory onwards inductionHypothesis =>
    cases second with
    | idle _ still => cases still
    | up _ further => exact inductionHypothesis further
    | down _ _ named => exact absurd rfl named
    | link _ _ named => exact absurd rfl named
  | down directory move named short stands onwards inductionHypothesis =>
    obtain ⟨node, there, solid⟩ := stands
    cases second with
    | idle _ still => exact absurd (still.symm.trans move) Bool.false_ne_true
    | up => exact absurd rfl named
    | down _ _ _ _ _ further => exact inductionHypothesis further
    | link _ _ _ _ linked =>
      exact absurd (Option.some.inj (there.symm.trans linked)) (solid _)
  | link directory move named short linked onwards inductionHypothesis =>
    cases second with
    | idle _ still => exact absurd (still.symm.trans move) Bool.false_ne_true
    | up => exact absurd rfl named
    | down _ _ _ _ stands =>
      obtain ⟨node, there, solid⟩ := stands
      exact absurd (Option.some.inj (there.symm.trans linked)) (solid _)
    | link _ _ _ _ same further =>
      obtain rfl := Node.link.inj (Option.some.inj (same.symm.trans linked))
      exact inductionHypothesis further

/-- An entry that is no link leads to itself. -/
theorem eq_child_of_locate (sound : Sound tree) {path : Path} {location : Location}
    (located : tree.locate path = .ok location) (entry : IsEntry name)
    (unlinked : tree.isLinkAt (location.child name) = false)
    (resolved : tree.locate (path.child name) = .ok place) : place = location.child name := by
  obtain ⟨usable, left, trail⟩ := (locate_eq_ok_iff_trail sound).mp located
  obtain ⟨-, less, longer⟩ := (locate_eq_ok_iff_trail sound).mp resolved
  have relative := Path.isAbsolute_of_isEntry entry
  have onwards : tree.Trail linkLimit ((path.child name).startFrom tree.workingDirectory)
    (path.child name).moves less place := longer.filter
  unfold Path.startFrom Path.child at onwards
  rw [Path.moves_join usable.given relative, Path.isAbsolute_join usable.given relative,
    Path.moves_of_isEntry entry] at onwards
  obtain ⟨between, middle, first, second⟩ := trail_append_iff.mp onwards
  obtain ⟨-, rfl⟩ := trail.filter.eq_of_trail first
  cases second with
  | idle _ still => exact absurd (still.symm.trans entry.move) Bool.false_ne_true
  | up => exact absurd rfl entry.named
  | down _ _ _ _ _ further =>
    cases further
    rfl
  | link _ _ _ _ linked =>
    unfold isLinkAt at unlinked
    rw [linked] at unlinked
    cases unlinked

/-- A directory that a walk has come to is where its path leads. -/
def Leads (tree : FileTree) (stop : Stop) : Prop :=
  tree.isDirectoryAt stop.place = true → tree.locate stop.path = .ok stop.place

theorem Admits.leads (admits : tree.Admits stop name place) :
    tree.Leads (stop.next name place) := by
  intro directory
  have resolved := admits.resolved
  unfold resolveEntry at resolved
  split at resolved
  · next file there =>
    obtain rfl := Except.ok.inj resolved
    have directory := isDirectoryAt_iff.mp directory
    rw [Stop.next, there] at directory
    cases directory
  · exact resolved

/-- A directory that is not reached by a link is one level deeper. -/
theorem Admits.eq_child (sound : Sound tree) (leads : tree.Leads stop)
    (admits : tree.Admits stop name place) (directory : tree.isDirectoryAt place = true)
    (unlinked : tree.isLinkAt (stop.place.child name) = false) :
    place = stop.place.child name := by
  have entry : IsEntry name := sound.isEntry admits.holds.stands name (by simp [Location.child])
  exact eq_child_of_locate sound (leads admits.holds.directory) entry unlinked
    (admits.leads directory)

/-- The locations where something stands, and the root. -/
def sites (tree : FileTree) : Finset Location := ([] :: tree.nodes.map (·.1)).toFinset

/-- The locations where a walk is not. -/
def spare (tree : FileTree) (inside : List Visited) : Finset Location :=
  tree.sites \ (inside.map Visited.location).toFinset

theorem spare_cons (visited : Visited) (inside : List Visited) :
    tree.spare (visited :: inside) = (tree.spare inside).erase visited.location := by
  unfold spare
  rw [List.map_cons, List.toFinset_cons, Finset.sdiff_insert]

theorem node?_isSome_of_isDirectoryAt {location : Location}
    (directory : tree.isDirectoryAt location = true) : (tree.node? location).isSome = true := by
  rw [isDirectoryAt_iff.mp directory]
  rfl

theorem mem_sites {location : Location} (stands : (tree.node? location).isSome = true) :
    location ∈ tree.sites := by
  obtain ⟨node, there⟩ := Option.isSome_iff_exists.mp stands
  refine List.mem_toFinset.mpr ?_
  by_cases root : location = []
  · exact root ▸ List.mem_cons_self
  · exact List.mem_cons_of_mem _ (List.mem_map_of_mem (mem_nodes_of_node? root there))

/-- There is fuel for every level a walk can still go down: for each location where it is not, a
link and then a stretch no longer than the tree is deep. -/
def Ample (tree : FileTree) (fuel : Nat) (stop : Stop) : Prop :=
  0 < fuel ∧ (tree.isDirectoryAt stop.place = true →
    (tree.spare stop.here).card * (tree.depth + 2) + (tree.depth - stop.place.length) + 2 ≤ fuel)

theorem ample_start (tree : FileTree) (path : Path) (place : Location) :
    tree.Ample tree.walkBound (.start path place) := by
  have most : tree.sites.card ≤ tree.nodes.length + 1 := by
    refine (List.toFinset_card_le _).trans ?_
    rw [List.length_cons, List.length_map]
  have bound : tree.walkBound =
      tree.nodes.length * (tree.depth + 2) + (tree.depth + 2) + (tree.depth + 2) := by
    show (tree.nodes.length + 1 + 1) * (tree.depth + 2) = _
    rw [Nat.add_one_mul, Nat.add_one_mul]
  refine ⟨by omega, fun directory => ?_⟩
  have stands : (tree.node? place).isSome = true := node?_isSome_of_isDirectoryAt directory
  have fewer : (tree.spare (Stop.start path place).here).card ≤ tree.nodes.length := by
    show (tree.spare [⟨place, path⟩]).card ≤ _
    have all : tree.spare [] = tree.sites := Finset.sdiff_empty
    rw [spare_cons, all, Finset.card_erase_of_mem (mem_sites stands)]
    omega
  have product := Nat.mul_le_mul_right (tree.depth + 2) fewer
  omega

/-- A step down leaves enough fuel. -/
theorem Ample.next (sound : Sound tree) (leads : tree.Leads stop)
    (ample : tree.Ample (fuel + 1) stop) (admits : tree.Admits stop name place) :
    tree.Ample fuel (stop.next name place) := by
  have enough := ample.2 admits.holds.directory
  refine ⟨by omega, fun directory => ?_⟩
  have directory : tree.isDirectoryAt place = true := directory
  have stands := node?_isSome_of_isDirectoryAt directory
  have here : tree.spare (stop.next name place).here = (tree.spare stop.here).erase place :=
    spare_cons _ _
  have level : (stop.next name place).place.length = place.length := rfl
  rw [here, level]
  by_cases linked : tree.isLinkAt (stop.place.child name) = true
  · -- The link leads to a directory that the walk was not in.
    have new : place ∈ tree.spare stop.here := by
      refine Finset.mem_sdiff.mpr ⟨mem_sites stands, fun within => ?_⟩
      obtain ⟨visited, member, same⟩ := List.mem_map.mp (List.mem_toFinset.mp within)
      exact admits.onwards ⟨linked, directory, visited, member, same⟩
    have fewer : ((tree.spare stop.here).erase place).card + 1 = (tree.spare stop.here).card :=
      Finset.card_erase_add_one new
    rw [← fewer, Nat.add_one_mul] at enough
    omega
  · obtain rfl := admits.eq_child sound leads directory (by simpa using linked)
    obtain ⟨node, there⟩ := Option.isSome_iff_exists.mp stands
    have deep : (stop.place.child name).length ≤ tree.depth :=
      length_le_depth (mem_nodes_of_node? (by simp [Location.child]) there)
    have longer : (stop.place.child name).length = stop.place.length + 1 :=
      List.length_append
    have fewer := Nat.mul_le_mul_right (tree.depth + 2)
      (Finset.card_erase_le (s := tree.spare stop.here) (a := stop.place.child name))
    omega

/-! ### All that a walk comes to -/

/-- A walk that gets through has gone on from every stop, and lists what it found from there. -/
theorem filesFrom_of_descends {last : Stop} (sound : Sound tree) (leads : tree.Leads start)
    (ample : tree.Ample fuel start) (descends : tree.Descends start last)
    (listed : tree.filesFrom fuel start = .ok files) :
    ∃ less part, tree.Leads last ∧ tree.Ample less last ∧ tree.filesFrom less last = .ok part ∧
      part ⊆ files := by
  induction descends generalizing fuel files with
  | stays => exact ⟨fuel, files, leads, ample, listed, List.Subset.refl _⟩
  | @enters stop last name place admits further inductionHypothesis =>
    obtain ⟨less, rfl⟩ := Nat.exists_eq_add_one.mpr ample.1
    have holds := admits.holds
    rw [filesFrom_directory holds.directory holds.listable] at listed
    obtain ⟨part, answered, within⟩ :=
      subset_of_gather listed (List.mem_map_of_mem (mem_names.mpr holds.stands))
    have goesOn : tree.answerAt less stop name = tree.filesFrom less (stop.next name place) := by
      rcases answerAt_cases less holds with ⟨error, refused, -⟩ | ⟨other, admitted, same⟩
      · rw [refused] at answered
        cases answered
      · obtain rfl := Except.ok.inj (admitted.resolved.symm.trans admits.resolved)
        exact same
    obtain ⟨rest, inner, leadsThere, amply, found, inPart⟩ :=
      inductionHypothesis admits.leads (ample.next sound leads admits) (goesOn.symm.trans answered)
    exact ⟨rest, inner, leadsThere, amply, found, List.Subset.trans inPart within⟩

/-- A walk that gets through lists exactly the regular files it comes to. -/
theorem mem_filesFrom_iff (sound : Sound tree) (leads : tree.Leads start)
    (ample : tree.Ample fuel start) (listed : tree.filesFrom fuel start = .ok files) :
    file ∈ files ↔ tree.ComesTo start file := by
  refine ⟨comesTo_of_mem_filesFrom listed, ?_⟩
  rintro ⟨last, descends, there, rfl⟩
  obtain ⟨less, part, -, amply, found, within⟩ :=
    filesFrom_of_descends sound leads ample descends listed
  obtain ⟨rest, rfl⟩ := Nat.exists_eq_add_one.mpr amply.1
  obtain rfl := Except.ok.inj ((filesFrom_file there).symm.trans found)
  exact within List.mem_cons_self

/-- Where a walk gets through, it goes on to every entry of the directory where it is. -/
theorem admits_of_filesFrom (holds : tree.Holds stop name)
    (listed : tree.filesFrom (fuel + 1) stop = .ok files) :
    ∃ place, tree.Admits stop name place := by
  rw [filesFrom_directory holds.directory holds.listable] at listed
  obtain ⟨part, answered, -⟩ :=
    subset_of_gather listed (List.mem_map_of_mem (mem_names.mpr holds.stands))
  rcases answerAt_cases fuel holds with ⟨reason, refused, -⟩ | ⟨place, admits, -⟩
  · rw [refused] at answered
    cases answered
  · exact ⟨place, admits⟩

/-- No walk gets through past an obstacle. -/
theorem not_obstructed_of_filesFrom (sound : Sound tree) (leads : tree.Leads start)
    (ample : tree.Ample fuel start) (listed : tree.filesFrom fuel start = .ok files) :
    ¬ tree.Obstructed start error := by
  rintro ⟨last, descends, obstacle⟩
  obtain ⟨less, part, -, amply, found, -⟩ :=
    filesFrom_of_descends sound leads ample descends listed
  obtain ⟨rest, rfl⟩ := Nat.exists_eq_add_one.mpr amply.1
  cases obstacle with
  | closed shut =>
    rw [filesFrom_closed shut] at found
    cases found
  | unreadable holds refused =>
    obtain ⟨place, admits⟩ := admits_of_filesFrom holds found
    rw [admits.resolved] at refused
    cases refused
  | @loop name ancestor holds resolved linked directory within =>
    obtain ⟨place, admits⟩ := admits_of_filesFrom holds found
    obtain rfl := Except.ok.inj (admits.resolved.symm.trans resolved)
    exact admits.onwards ⟨linked, directory, ancestor, within, rfl⟩

/-- A walk goes down by the names of entries. -/
theorem Descends.names (sound : Sound tree) {last : Stop} (descends : tree.Descends start last) :
    ∃ names : List Name, (∀ name ∈ names, IsEntry name) ∧
      last.path = names.foldl Path.child start.path := by
  induction descends with
  | stays => exact ⟨[], fun _ member => (nomatch member), rfl⟩
  | @enters stop last name place admits _ inductionHypothesis =>
    obtain ⟨names, entries, written⟩ := inductionHypothesis
    refine ⟨name :: names, fun step member => ?_, written⟩
    rcases List.mem_cons.mp member with rfl | below
    · exact sound.isEntry admits.holds.stands _ (by simp [Location.child])
    · exact entries step below

theorem moves_child {base : Path} (given : base.text ≠ []) (entry : IsEntry name) :
    (base.child name).moves = base.moves ++ [name] := by
  unfold Path.child
  rw [Path.moves_join given (Path.isAbsolute_of_isEntry entry), Path.moves_of_isEntry entry]

theorem moves_foldl_child {base : Path} {names : List Name} (given : base.text ≠ [])
    (entries : ∀ name ∈ names, IsEntry name) :
    (names.foldl Path.child base).moves = base.moves ++ names := by
  induction names generalizing base with
  | nil => exact (List.append_nil _).symm
  | cons head rest inductionHypothesis =>
    have entry := entries head List.mem_cons_self
    rw [List.foldl_cons, inductionHypothesis (Path.text_child_ne_nil given entry)
      fun name member => entries name (List.mem_cons_of_mem _ member), moves_child given entry,
      List.append_assoc]
    rfl

/-- The entry of a directory by which a path goes on below it. -/
def branch (directory file : Path) : Name :=
  (file.moves.drop directory.moves.length).headD []

/-- No file is listed twice. -/
theorem nodup_filesFrom (sound : Sound tree) (given : start.path.text ≠ [])
    (listed : tree.filesFrom fuel start = .ok files) : files.Nodup := by
  induction fuel generalizing start files with
  | zero =>
    obtain rfl := Except.ok.inj listed
    exact List.nodup_nil
  | succ fuel inductionHypothesis =>
    have listable := isClosedAt_of_filesBelow listed
    by_cases directory : tree.isDirectoryAt start.place = true
    · rw [filesFrom_directory directory listable] at listed
      have branched : ∀ name ∈ tree.names start.place, ∀ part,
          tree.answerAt fuel start name = .ok part →
            part.Nodup ∧ ∀ file ∈ part, branch start.path file = name := by
        intro name named part answered
        have holds : tree.Holds start name := ⟨directory, listable, mem_names.mp named⟩
        have entry : IsEntry name := sound.isEntry holds.stands name (by simp [Location.child])
        have childGiven := Path.text_child_ne_nil given entry
        rcases answerAt_cases fuel holds with ⟨reason, refused, -⟩ | ⟨place, admits, same⟩
        · rw [refused] at answered
          cases answered
        have found := same.symm.trans answered
        refine ⟨@inductionHypothesis (start.next name place) part childGiven found,
          fun file member => ?_⟩
        obtain ⟨last, descends, -, rfl⟩ := comesTo_of_mem_filesFrom found member
        obtain ⟨names, entries, written⟩ := descends.names sound
        have onwards : last.path.moves = start.path.moves ++ name :: names := by
          rw [written, Stop.next, moves_foldl_child childGiven entries, moves_child given entry,
            List.append_assoc]
          rfl
        unfold branch
        rw [onwards, List.drop_left]
        rfl
      exact (nodup_of_gather (nodup_names sound _) branched listed).1
    · by_cases there : (tree.file? start.place).isSome = true
      · rw [filesFrom_file there] at listed
        obtain rfl := Except.ok.inj listed
        exact List.nodup_singleton _
      · rw [filesFrom_nothing (by simpa using directory) (by simpa using there)] at listed
        obtain rfl := Except.ok.inj listed
        exact List.nodup_nil

/-! ### Trees that list their entries in another order -/

/-- Two trees show the same, in whatever order they list it. -/
structure Alike (tree other : FileTree) : Prop where
  working : other.workingDirectory = tree.workingDirectory
  node : ∀ location, other.node? location = tree.node? location
  closed : ∀ location, other.isClosedAt location = tree.isClosedAt location

namespace Alike

theorem symm (alike : Alike tree other) : Alike other tree :=
  ⟨alike.working.symm, fun location => (alike.node location).symm,
    fun location => (alike.closed location).symm⟩

theorem isDirectoryAt (alike : Alike tree other) (location : Location) :
    other.isDirectoryAt location = tree.isDirectoryAt location := by
  unfold FileTree.isDirectoryAt
  rw [alike.node]

theorem isLinkAt (alike : Alike tree other) (location : Location) :
    other.isLinkAt location = tree.isLinkAt location := by
  unfold FileTree.isLinkAt
  rw [alike.node]

theorem takeSteps (alike : Alike tree other) (aim : Aim)
    (onLink : Location → List Text → Except Fault Place) (location : Location)
    (steps : List Text) :
    other.takeSteps aim onLink location steps = tree.takeSteps aim onLink location steps := by
  induction steps generalizing location with
  | nil => rfl
  | cons step rest inductionHypothesis =>
    unfold FileTree.takeSteps
    simp only [alike.isDirectoryAt, alike.node, inductionHypothesis]

theorem follow (alike : Alike tree other) (aim : Aim) (links : Nat) :
    other.follow aim links = tree.follow aim links := by
  induction links with
  | zero => exact funext fun location => funext fun steps => alike.takeSteps aim _ location steps
  | succ links inductionHypothesis =>
    unfold FileTree.follow
    rw [inductionHypothesis]
    exact funext fun location => funext fun steps => alike.takeSteps aim _ location steps

theorem locate (alike : Alike tree other) (path : Path) : other.locate path = tree.locate path := by
  unfold FileTree.locate FileTree.place placeOfSteps startOf
  rw [alike.follow, alike.working]

theorem lookup (alike : Alike tree other) (path : Path) : other.lookup path = tree.lookup path := by
  unfold FileTree.lookup
  rw [alike.locate]
  simp only [alike.node]

theorem resolveEntry (alike : Alike tree other) (location : Location) (path : Path) :
    other.resolveEntry location path = tree.resolveEntry location path := by
  unfold FileTree.resolveEntry
  rw [alike.node, alike.locate]

theorem holds (alike : Alike tree other) (held : tree.Holds stop name) : other.Holds stop name :=
  ⟨(alike.isDirectoryAt _).trans held.directory, (alike.closed _).trans held.listable,
    (alike.node _).symm ▸ held.stands⟩

theorem admits (alike : Alike tree other) (admits : tree.Admits stop name place) :
    other.Admits stop name place := by
  refine ⟨alike.holds admits.holds, (alike.resolveEntry _ _).trans admits.resolved, ?_⟩
  unfold LeadsBack
  rw [alike.isLinkAt, alike.isDirectoryAt]
  exact admits.onwards

theorem descends (alike : Alike tree other) {last : Stop} (descends : tree.Descends start last) :
    other.Descends start last := by
  induction descends with
  | stays => exact .stays _
  | enters admits _ inductionHypothesis => exact .enters (alike.admits admits) inductionHypothesis

theorem obstructed (alike : Alike tree other) (obstructed : tree.Obstructed start error) :
    other.Obstructed start error := by
  obtain ⟨last, descends, obstacle⟩ := obstructed
  refine ⟨last, alike.descends descends, ?_⟩
  cases obstacle with
  | closed shut => exact .closed ((alike.closed _).trans shut)
  | unreadable holds refused =>
    exact .unreadable (alike.holds holds) ((alike.resolveEntry _ _).trans refused)
  | loop holds resolved linked directory within =>
    exact .loop (alike.holds holds) ((alike.resolveEntry _ _).trans resolved)
      ((alike.isLinkAt _).trans linked) ((alike.isDirectoryAt _).trans directory) within

theorem comesTo (alike : Alike tree other) (comes : tree.ComesTo start file) :
    other.ComesTo start file := by
  obtain ⟨last, descends, there, same⟩ := comes
  exact ⟨last, alike.descends descends, (file?_congr (alike.node _)).symm ▸ there, same⟩

end Alike

end AssetPipeline.FileTree
