/-
This file says exactly what a wildcard parameter comes to, in a tree that may hold links. It fails
when the directory to search cannot be found, and else when the walk through it meets an obstacle.
Otherwise it is the list of the files that the walk comes to and whose name the pattern accepts:
each once, none left out, relative to the root, in ascending order. So the order in which
directories list their entries does not show.
-/

import AssetPipeline.Proofs.FileTree.Descent
import AssetPipeline.Proofs.Selection.Agreement

namespace AssetPipeline

namespace Path

/-- Paths that are sorted, each listed once, ascend in the order of their components. -/
theorem ascending_sorted {paths : List Path} (nodup : paths.Nodup)
    (distinct : ∀ first ∈ paths, ∀ second ∈ paths,
      first.components = second.components → first = second) :
    (sorted paths).Pairwise fun first second => order first second = .lt := by
  have apart : (sorted paths).Nodup := (List.mergeSort_perm paths notAfter).nodup_iff.mpr nodup
  refine ((sorted_pairwise paths).and apart).imp_of_mem
    fun {first second} inFirst inSecond both => ?_
  obtain ⟨before, differ⟩ := both
  cases ordering : order first second with
  | lt => rfl
  | gt =>
    unfold notAfter at before
    rw [ordering] at before
    cases before
  | eq =>
    have after : notAfter second first = true := by
      unfold notAfter
      rw [order_eq_swap, ordering]
      rfl
    exact absurd (distinct first (mem_sorted.mp inFirst) second (mem_sorted.mp inSecond)
      (components_eq_of_notAfter before after)) differ

theorem isAbsolute_of_lead {path : Path} (bare : path.lead = []) : path.isAbsolute = false := by
  by_contra absolute
  obtain ⟨rest, text⟩ : ∃ rest, path.text = '/' :: rest := by
    refine List.head?_eq_some_iff.mp ?_
    simpa [isAbsolute, separator] using absolute
  unfold lead at bare
  rw [text] at bare
  cases bare

/-- The lead of a path shows in its components. -/
theorem lead_of_components {path other : Path} (bare : other.lead = [])
    (same : path.components = other.components) : path.lead = [] := by
  by_contra led
  rw [components_eq, components_eq] at same
  unfold leadComponents at same
  rw [if_neg led, if_pos bare, List.nil_append] at same
  generalize other.moves = moves at same
  cases moves with
  | nil => split at same <;> cases same
  | cons move rest =>
    rw [List.map_cons] at same
    unfold componentOf at same
    split at same <;> split at same <;> cases same

end Path

theorem FileTree.lookup_of_isDirectory {tree : FileTree} {path : Path}
    (directory : tree.isDirectory path = true) : tree.lookup path = .ok .directory :=
  isDirectory_iff_lookup.mp directory

namespace Selection

open FileTree (Sound Alike Stop)

variable {tree other : FileTree} {root : Path} {wildcard : Text} {files : List Path}
  {location : Location} {file : Path} {fault : Fault}

/-- The components of a file below the directory to search are those of the root and then those it
is reported by. -/
theorem components_foldl_base (given : root.text ≠ []) {selection : Selection} {names : List Name}
    (entries : ∀ name ∈ names, IsEntry name) :
    (names.foldl Path.child (selection.base root)).components =
      root.components ++ (selection.reported names).components := by
  have whole : names.foldl Path.child (selection.base root) =
      (selection.stepsTo names).foldl Path.child root := List.foldl_append.symm
  have solid : Path.Solid (selection.stepsTo names) := by
    intro step inside
    rcases List.mem_append.mp inside with inDirectory | below
    · exact selection.solid_directoryNames step inDirectory
    · exact Path.Solid.of_isEntry entries step below
  obtain ⟨bare, -, moves⟩ := Path.lead_of_trimIdle (selection.separator_not_mem_stepsTo entries)
  have shown : (selection.reported names).components =
      ((selection.stepsTo names).filter Path.isMove).map Path.componentOf := by
    rw [Path.components_eq]
    unfold Path.leadComponents reported
    rw [if_pos bare, moves]
    rfl
  rw [whole, shown]
  by_cases none : selection.stepsTo names = []
  · rw [none]
    exact (List.append_nil _).symm
  · rw [Path.foldl_child given solid none, Path.components_eq, Path.components_eq,
      Path.moves_join given solid.isAbsolute, List.map_append, ← List.append_assoc]
    unfold Path.leadComponents
    rw [Path.lead_join given solid.isAbsolute, Path.isAbsolute_join given solid.isAbsolute]
    unfold Path.moves
    rw [solid.steps none]

theorem lead_reported {selection : Selection} {names : List Name}
    (entries : ∀ name ∈ names, IsEntry name) : (selection.reported names).lead = [] :=
  (Path.lead_of_trimIdle (selection.separator_not_mem_stepsTo entries)).1

/-! ### The walk through the directory to search -/

/-- A walk starts from the directory to search. -/
abbrev start (root : Path) (wildcard : Text) (location : Location) : Stop :=
  .start ((ofWildcard wildcard).base root) location

/-- The walk comes to the file, and the pattern accepts its name. -/
def Matched (tree : FileTree) (root : Path) (wildcard : Text) (location : Location)
    (file : Path) : Prop :=
  tree.ComesTo (start root wildcard location) file ∧ (ofWildcard wildcard).selects file = true

/-- A file that is matched is reported by the part of its path behind the root. -/
theorem Matched.reported (sound : Sound tree) (given : root.text ≠ [])
    (matched : Matched tree root wildcard location file) :
    ∃ names, (∀ name ∈ names, IsEntry name) ∧
      file = names.foldl Path.child ((ofWildcard wildcard).base root) ∧
      file.below? root = some ((ofWildcard wildcard).reported names) := by
  obtain ⟨⟨last, descends, -, rfl⟩, -⟩ := matched
  obtain ⟨names, entries, written⟩ := descends.names sound
  exact ⟨names, entries, written, written ▸ below?_foldl_base given entries⟩

/-- Below a root that is a directory, only the directory to search may be missing. -/
theorem members_of_not_located (directory : tree.isDirectory root = true)
    (missing : tree.locate ((ofWildcard wildcard).base root) = .error fault) :
    members tree root wildcard =
      .error (.unsearchable ((ofWildcard wildcard).base root) fault) := by
  unfold members
  dsimp only
  rw [FileTree.lookup_of_isDirectory directory, missing]

/-- What a command finds is what the walk lists, chosen by name and sorted. -/
theorem members_of_located (directory : tree.isDirectory root = true)
    (located : tree.locate ((ofWildcard wildcard).base root) = .ok location) :
    members tree root wildcard =
      match tree.filesFrom tree.walkBound (start root wildcard location) with
      | .error error => .error (.unlisted error)
      | .ok listed => .ok (Path.sorted
          ((listed.filter (ofWildcard wildcard).selects).filterMap (·.below? root))) := by
  unfold members
  dsimp only
  rw [FileTree.lookup_of_isDirectory directory, located]
  rfl

/-- What a set of files holds when the walk got through. -/
structure Resolved (tree : FileTree) (root : Path) (wildcard : Text) (location : Location)
    (files : List Path) : Prop where
  /-- The files ascend in the order of their components, so none is there twice. -/
  ascending : files.Pairwise fun first second => Path.order first second = .lt
  /-- A path is in the set exactly when it leads from the root to a file that is matched. -/
  complete : ∀ relative : Path, (∃ member ∈ files, member.components = relative.components) ↔
    relative.lead = [] ∧ ∃ file, Matched tree root wildcard location file ∧
      (root.join relative).components = file.components
  /-- The path of every file that is matched begins with the root. -/
  kept : ∀ file, Matched tree root wildcard location file →
    ∃ member ∈ files, file.below? root = some member

/-! ### A walk that gets through -/

section Listing

variable {listed : List Path}

/-- The files that the walk listed and that have the right name, as they are reported. -/
abbrev chosen (root : Path) (wildcard : Text) (listed : List Path) : List Path :=
  (listed.filter (ofWildcard wildcard).selects).filterMap (·.below? root)

theorem mem_chosen_iff (sound : Sound tree)
    (located : tree.locate ((ofWildcard wildcard).base root) = .ok location)
    (listing : tree.filesFrom tree.walkBound (start root wildcard location) = .ok listed)
    {relative : Path} : relative ∈ chosen root wildcard listed ↔
      ∃ file, Matched tree root wildcard location file ∧ file.below? root = some relative := by
  have complete : ∀ file, file ∈ listed ↔ tree.ComesTo (start root wildcard location) file :=
    fun file => FileTree.mem_filesFrom_iff sound (fun _ => located) (tree.ample_start _ _) listing
  simp only [List.mem_filterMap, List.mem_filter, complete, Matched]

/-- Files of a set that stand level with each other are the same. -/
theorem chosen_distinct (sound : Sound tree) (given : root.text ≠ [])
    (located : tree.locate ((ofWildcard wildcard).base root) = .ok location)
    (listing : tree.filesFrom tree.walkBound (start root wildcard location) = .ok listed) :
    ∀ first ∈ chosen root wildcard listed, ∀ second ∈ chosen root wildcard listed,
      first.components = second.components → first = second := by
  intro first inFirst second inSecond same
  obtain ⟨file, matched, below⟩ := (mem_chosen_iff sound located listing).mp inFirst
  obtain ⟨other, otherMatched, otherBelow⟩ := (mem_chosen_iff sound located listing).mp inSecond
  obtain ⟨names, entries, -, shown⟩ := matched.reported sound given
  obtain ⟨otherNames, otherEntries, -, otherShown⟩ := otherMatched.reported sound given
  obtain rfl := Option.some.inj (shown.symm.trans below)
  obtain rfl := Option.some.inj (otherShown.symm.trans otherBelow)
  exact reported_injective entries otherEntries same

/-- No two files of a walk are reported alike. -/
theorem nodup_chosen (sound : Sound tree) (given : root.text ≠ [])
    (located : tree.locate ((ofWildcard wildcard).base root) = .ok location)
    (listing : tree.filesFrom tree.walkBound (start root wildcard location) = .ok listed) :
    (chosen root wildcard listed).Nodup := by
  have searched := ((FileTree.locate_eq_ok_iff_trail sound).mp located).1.given
  have once : listed.Nodup := FileTree.nodup_filesFrom sound searched listing
  have alike : ∀ file ∈ listed.filter (ofWildcard wildcard).selects,
      ∀ other ∈ listed.filter (ofWildcard wildcard).selects,
        file.below? root = other.below? root → file = other := by
    intro file inListed other otherListed same
    have matched : ∀ path ∈ listed.filter (ofWildcard wildcard).selects,
        Matched tree root wildcard location path := fun path member =>
      ⟨FileTree.comesTo_of_mem_filesFrom listing (List.mem_filter.mp member).1,
        (List.mem_filter.mp member).2⟩
    obtain ⟨names, entries, rfl, shown⟩ := (matched file inListed).reported sound given
    obtain ⟨others, otherEntries, rfl, otherShown⟩ :=
      (matched other otherListed).reported sound given
    have moves := congrArg Path.moves
      (Option.some.inj (shown.symm.trans (same.trans otherShown)))
    rw [moves_reported entries, moves_reported otherEntries, List.append_cancel_left_eq] at moves
    rw [moves]
  refine List.pairwise_filterMap.mpr ((once.filter _).imp_of_mem ?_)
  rintro file other inListed otherListed apart relative shown _ otherShown rfl
  exact apart (alike file inListed other otherListed (shown.trans otherShown.symm))

/-- When the walk gets through, the set holds what is matched. -/
theorem resolved_of_filesFrom (sound : Sound tree) (given : root.text ≠ [])
    (located : tree.locate ((ofWildcard wildcard).base root) = .ok location)
    (listing : tree.filesFrom tree.walkBound (start root wildcard location) = .ok listed) :
    Resolved tree root wildcard location (Path.sorted (chosen root wildcard listed)) where
  ascending := Path.ascending_sorted (nodup_chosen sound given located listing)
    (chosen_distinct sound given located listing)
  complete := by
    intro relative
    constructor
    · rintro ⟨member, inSet, same⟩
      obtain ⟨file, matched, below⟩ :=
        (mem_chosen_iff sound located listing).mp (Path.mem_sorted.mp inSet)
      obtain ⟨names, entries, rfl, shown⟩ := matched.reported sound given
      obtain rfl := Option.some.inj (shown.symm.trans below)
      have bare := Path.lead_of_components (lead_reported entries) same.symm
      refine ⟨bare, _, matched, ?_⟩
      rw [Path.components_join given bare (Path.isAbsolute_of_lead bare),
        components_foldl_base given entries, same]
    · rintro ⟨bare, file, matched, same⟩
      obtain ⟨names, entries, rfl, shown⟩ := matched.reported sound given
      refine ⟨(ofWildcard wildcard).reported names, Path.mem_sorted.mpr
        ((mem_chosen_iff sound located listing).mpr ⟨_, matched, shown⟩), ?_⟩
      rw [Path.components_join given bare (Path.isAbsolute_of_lead bare),
        components_foldl_base given entries, List.append_cancel_left_eq] at same
      exact same.symm
  kept := by
    intro file matched
    obtain ⟨names, entries, -, shown⟩ := matched.reported sound given
    exact ⟨_, Path.mem_sorted.mpr ((mem_chosen_iff sound located listing).mpr
      ⟨file, matched, shown⟩), shown⟩

/-- The order in which directories list their entries does not show in the set. -/
theorem sorted_chosen_alike (sound : Sound tree) (otherSound : Sound other)
    (alike : Alike tree other) (given : root.text ≠ []) {otherListed : List Path}
    (located : tree.locate ((ofWildcard wildcard).base root) = .ok location)
    (listing : tree.filesFrom tree.walkBound (start root wildcard location) = .ok listed)
    (relisting : other.filesFrom other.walkBound (start root wildcard location) =
      .ok otherListed) :
    Path.sorted (chosen root wildcard otherListed) = Path.sorted (chosen root wildcard listed) := by
  have relocated := (alike.locate _).trans located
  have matched : ∀ file, Matched tree root wildcard location file ↔
      Matched other root wildcard location file := fun file =>
    and_congr_left' ⟨alike.comesTo, alike.symm.comesTo⟩
  have perm : (chosen root wildcard listed).Perm (chosen root wildcard otherListed) := by
    refine (List.perm_ext_iff_of_nodup (nodup_chosen sound given located listing)
      (nodup_chosen otherSound given relocated relisting)).mpr fun relative => ?_
    rw [mem_chosen_iff sound located listing, mem_chosen_iff otherSound relocated relisting]
    exact exists_congr fun file => and_congr_left' (matched file)
  exact (Path.sorted_eq_of_perm perm (chosen_distinct sound given located listing)).symm

end Listing

/-! ### What a wildcard comes to -/

/-- In any tree and below any root that is a directory, a wildcard comes to an error exactly when
the directory to search cannot be found or the walk through it meets an obstacle, which it then
names. Otherwise it comes to the files that are matched, in ascending order, and it does so in
whatever order the directories list their entries. -/
theorem members_resolved (sound : Sound tree) (directory : tree.isDirectory root = true)
    (wildcard : Text) :
    (∀ path fault, members tree root wildcard = .error (.unsearchable path fault) ↔
      path = (ofWildcard wildcard).base root ∧ tree.locate path = .error fault) ∧
    ∀ location, tree.locate ((ofWildcard wildcard).base root) = .ok location →
      ((∃ error, members tree root wildcard = .error (.unlisted error)) ↔
        ∃ error, tree.Obstructed (start root wildcard location) error) ∧
      (∀ error, members tree root wildcard = .error (.unlisted error) →
        tree.Obstructed (start root wildcard location) error) ∧
      ((¬ ∃ error, tree.Obstructed (start root wildcard location) error) →
        ∃ files, members tree root wildcard = .ok files ∧
          Resolved tree root wildcard location files ∧
          ∀ other, Sound other → Alike tree other → members other root wildcard = .ok files) := by
  constructor
  · intro path fault
    cases located : tree.locate ((ofWildcard wildcard).base root) with
    | error reason =>
      rw [members_of_not_located directory located]
      simp only [Except.error.injEq, CommandFailure.unsearchable.injEq]
      constructor
      · rintro ⟨rfl, rfl⟩
        exact ⟨rfl, located⟩
      · rintro ⟨rfl, missing⟩
        exact ⟨rfl, Except.error.inj (located.symm.trans missing)⟩
    | ok location =>
      constructor
      · intro failed
        rw [members_of_located directory located] at failed
        split at failed <;> cases failed
      · rintro ⟨rfl, missing⟩
        rw [located] at missing
        cases missing
  intro location located
  rw [members_of_located directory located]
  cases listing : tree.filesFrom tree.walkBound (start root wildcard location) with
  | error error =>
    have obstructed := FileTree.obstructed_of_filesFrom listing
    refine ⟨⟨fun _ => ⟨error, obstructed⟩, fun _ => ⟨error, rfl⟩⟩, fun reported same => ?_,
      fun free => absurd ⟨error, obstructed⟩ free⟩
    obtain rfl := CommandFailure.unlisted.inj (Except.error.inj same)
    exact obstructed
  | ok listed =>
    have free : ¬ ∃ error, tree.Obstructed (start root wildcard location) error := fun obstacle =>
      FileTree.not_obstructed_of_filesFrom sound (fun _ => located) (tree.ample_start _ _) listing
        obstacle.choose_spec
    obtain ⟨place, rootLocated, -⟩ :=
      FileTree.lookup_eq_directory_iff.mp (FileTree.lookup_of_isDirectory directory)
    have given := ((FileTree.locate_eq_ok_iff_trail sound).mp rootLocated).1.given
    refine ⟨⟨fun ⟨_, same⟩ => (nomatch same), fun obstacle => absurd obstacle free⟩,
      fun _ same => (nomatch same), fun _ => ⟨_, rfl, resolved_of_filesFrom sound given located
        listing, fun other otherSound alike => ?_⟩⟩
    have otherDirectory : other.isDirectory root = true := by
      unfold FileTree.isDirectory at directory ⊢
      rw [alike.lookup]
      exact directory
    rw [members_of_located otherDirectory ((alike.locate _).trans located)]
    cases relisting : other.filesFrom other.walkBound (start root wildcard location) with
    | error error =>
      exact absurd ⟨error, alike.symm.obstructed (FileTree.obstructed_of_filesFrom relisting)⟩ free
    | ok otherListed =>
      exact congrArg Except.ok
        (sorted_chosen_alike sound otherSound alike given located listing relisting)

/-- A directory `s` with a link `a` in it to a directory `u` beside it, in which a file stands. -/
def aliased : FileTree where
  nodes := [([['s']], .directory), ([['u']], .directory),
    ([['u'], ['X', '.', 'w']], .file ⟨[], ⟨1000, 0⟩, .ordinary⟩),
    ([['s'], ['a']], .link ⟨['.', '.', '/', 'u']⟩)]
  workingDirectory := []
  clock := ⟨2000, 0⟩

theorem members_resolved_aliased :
    Sound aliased ∧ aliased.isDirectory ⟨['s']⟩ = true ∧
      Resolved aliased ⟨['s']⟩ ['*', '.', 'W'] [['s']] [⟨['a', '/', 'X', '.', 'w']⟩] := by
  have sound : Sound aliased := by decide +kernel
  have directory : aliased.isDirectory ⟨['s']⟩ = true := by decide +kernel
  have listing : members aliased ⟨['s']⟩ ['*', '.', 'W'] =
      .ok [⟨['a', '/', 'X', '.', 'w']⟩] := by decide +kernel
  obtain ⟨unlisted, -, found⟩ :=
    (members_resolved sound directory ['*', '.', 'W']).2 [['s']] (by decide +kernel)
  have free : ¬ ∃ error,
      aliased.Obstructed (start ⟨['s']⟩ ['*', '.', 'W'] [['s']]) error := fun obstacle => by
    obtain ⟨error, failed⟩ := unlisted.mpr obstacle
    rw [listing] at failed
    cases failed
  obtain ⟨files, same, resolved, -⟩ := found free
  obtain rfl := Except.ok.inj (listing.symm.trans same)
  exact ⟨sound, directory, resolved⟩

end Selection

end AssetPipeline
