/-
This file says what the files of a wildcard parameter depend on. They are the regular files that
stand, below the directory to search, where the pattern takes a name; whether they can be listed is
decided by the directories of the tree, and by the one file that the directory to search may turn
out to be. So two plain trees with the same directories, of which the same may be listed, and with
regular files at the same of the places that the wildcard looks at, have the same set.
-/

import AssetPipeline.Proofs.Selection.Members

namespace AssetPipeline.Selection

/-- A regular file at the place belongs to the files of the wildcard. -/
def Takes (root : Path) (wildcard : Text) (working place : Location) : Prop :=
  ∃ names, place = ((ofWildcard wildcard).base root).location working ++ names ∧
    (ofWildcard wildcard).selects (names.foldl Path.child ((ofWildcard wildcard).base root)) = true

/-- The files of the wildcard may depend on the file at the place: it belongs to them, or it stands
where the search begins. -/
def Looks (root : Path) (wildcard : Text) (working place : Location) : Prop :=
  place = ((ofWildcard wildcard).base root).location working ∨ Takes root wildcard working place

variable {tree later : FileTree} {root : Path} {wildcard : Text} {files others : List Path}

/-! ### When the files can be listed -/

/-- The root is a directory when there is a directory part that is reached. -/
theorem isDirectoryAt_root {selection : Selection} (given : root.text ≠ [])
    (some : selection.directoryNames ≠ []) (reaches : tree.Reaches (selection.base root)) :
    tree.isDirectoryAt (root.location tree.workingDirectory) = true := by
  have solid := selection.solid_directoryNames
  have joined : selection.base root =
      root.join (Path.ofSegments [] selection.directoryNames) :=
    Path.foldl_child given solid some
  rw [joined] at reaches
  by_cases still : (Path.ofSegments [] selection.directoryNames).moves = []
  · rcases List.eq_nil_or_concat selection.directoryNames with none | ⟨front, last, whole⟩
    · exact absurd none some
    rw [List.concat_eq_append] at whole
    have idle : Path.isMove last = false := by
      unfold Path.moves at still
      rw [solid.steps some, whole] at still
      simpa using (List.filter_eq_nil_iff.mp still) last (by simp)
    obtain ⟨start, steps⟩ := Path.steps_join given solid.isAbsolute
    rw [solid.steps some, whole, ← List.append_assoc] at steps
    have directory := reaches.isDirectoryAt_of_idle (whole ▸ steps) idle
    rwa [Path.location_join given solid.isAbsolute, still, Location.along_nil] at directory
  · exact (reaches.base given solid.isAbsolute still).2.1

/-- The files can be listed exactly when the root, the directory to search and every directory
below are reached, and every directory may be listed from the one to search on. -/
theorem members_isOk_iff (plain : FileTree.Plain tree) :
    (∃ files, members tree root wildcard = .ok files) ↔
      tree.Reaches root ∧ tree.Reaches ((ofWildcard wildcard).base root) ∧
        tree.Listable (((ofWildcard wildcard).base root).location tree.workingDirectory) ∧
        ∀ names, names ≠ [] → tree.isDirectoryAt (((ofWildcard wildcard).base root).location
          tree.workingDirectory ++ names) = true →
            tree.Reaches (names.foldl Path.child ((ofWildcard wildcard).base root)) := by
  constructor
  · rintro ⟨files, found⟩
    obtain ⟨node, location, listed, rootFound, located, walked, -⟩ := members_eq_ok.mp found
    obtain ⟨reaches, rfl⟩ := (FileTree.locate_eq_ok_iff plain).mp located
    exact ⟨((FileTree.lookup_eq_ok_iff plain).mp rootFound).1, reaches,
      (FileTree.filesBelow_isOk_iff plain reaches.usable.given rfl (tree.covers_walkBound _)).mp
        ⟨listed, walked⟩⟩
  · rintro ⟨rootReaches, reaches, below⟩
    have walks : ∃ listed, tree.walk ((ofWildcard wildcard).base root)
        (((ofWildcard wildcard).base root).location tree.workingDirectory) = .ok listed :=
      (FileTree.filesBelow_isOk_iff plain reaches.usable.given rfl (tree.covers_walkBound _)).mpr
        below
    obtain ⟨listed, walked⟩ := walks
    obtain ⟨node, stands⟩ := Option.isSome_iff_exists.mp (rootReaches.stands plain.toSound)
    exact ⟨_, members_eq_ok.mpr ⟨node, _, listed,
      (FileTree.lookup_eq_ok_iff plain).mpr ⟨rootReaches, stands⟩,
      (FileTree.locate_eq_ok_iff plain).mpr ⟨reaches, rfl⟩, walked, rfl⟩⟩

/-- Files that can be listed still can when there are the same directories, the same may be listed,
and the file is left where the search begins, if there is one. -/
theorem members_isOk_mono (plain : FileTree.Plain tree) (other : FileTree.Plain later)
    (working : later.workingDirectory = tree.workingDirectory)
    (directories : ∀ place, later.isDirectoryAt place = tree.isDirectoryAt place)
    (closed : ∀ place, later.isClosedAt place = tree.isClosedAt place)
    (start : (tree.file? (((ofWildcard wildcard).base root).location
        tree.workingDirectory)).isSome = true →
      (later.file? (((ofWildcard wildcard).base root).location
        tree.workingDirectory)).isSome = true)
    (found : members tree root wildcard = .ok files) :
    ∃ others, members later root wildcard = .ok others := by
  obtain ⟨rootReaches, reaches, listable, below⟩ := (members_isOk_iff plain).mp ⟨files, found⟩
  have given := rootReaches.usable.given
  have still : ∀ path, tree.isDirectoryAt (path.location tree.workingDirectory) = true →
      tree.Reaches path → later.Reaches path := by
    intro path directory reached
    refine reached.mono working (fun place => (directories place).trans) fun _ => ?_
    rw [FileTree.isDirectoryAt_iff.mp ((directories _).trans directory)]
    rfl
  have laterReaches : later.Reaches ((ofWildcard wildcard).base root) := by
    refine reaches.mono working (fun place => (directories place).trans) fun stands => ?_
    rcases plain.cases (((ofWildcard wildcard).base root).location tree.workingDirectory) with
      none | inner | ⟨file, there⟩
    · rw [none] at stands
      cases stands
    · rw [FileTree.isDirectoryAt_iff.mp ((directories _).trans
        (FileTree.isDirectoryAt_iff.mpr inner))]
      rfl
    · refine FileTree.node?_isSome_of_file?_isSome (start ?_)
      rw [FileTree.file?_eq_some_iff.mpr there]
      rfl
  refine (members_isOk_iff other).mpr
    ⟨?_, laterReaches, fun names => ?_, fun names some directory => ?_⟩
  · by_cases none : (ofWildcard wildcard).directoryNames = []
    · unfold base at laterReaches
      rw [none] at laterReaches
      exact laterReaches
    · exact still _ (isDirectoryAt_root given none reaches) rootReaches
  · rw [closed, working]
    exact listable names
  · rw [working, directories] at directory
    refine still _ ?_ (below names some directory)
    rw [Path.location_foldl_child reaches.usable.given fun name member =>
      plain.isEntry (by rw [FileTree.isDirectoryAt_iff.mp directory]; rfl) name
        (List.mem_append_right _ member)]
    exact directory

/-! ### Which files are listed -/

/-- The set holds every regular file below the directory to search that is selected. -/
theorem mem_members_iff (plain : FileTree.Plain tree)
    (found : members tree root wildcard = .ok files) {relative : Path} : relative ∈ files ↔
      ∃ names, (tree.file? (((ofWildcard wildcard).base root).location tree.workingDirectory ++
          names)).isSome = true ∧
        (ofWildcard wildcard).selects
          (names.foldl Path.child ((ofWildcard wildcard).base root)) = true ∧
        relative = (ofWildcard wildcard).reported names := by
  constructor
  · exact fun member => (names_of_mem_members plain found member).2
  · rintro ⟨names, there, selected, rfl⟩
    obtain ⟨node, location, listed, rootFound, located, walked, rfl⟩ := members_eq_ok.mp found
    have given := ((FileTree.lookup_eq_ok_iff plain).mp rootFound).1.usable.given
    obtain ⟨reaches, rfl⟩ := (FileTree.locate_eq_ok_iff plain).mp located
    have entries : ∀ name ∈ names, IsEntry name := fun name member =>
      plain.isEntry (FileTree.node?_isSome_of_file?_isSome there) name
        (List.mem_append_right _ member)
    have inWalk := (FileTree.mem_filesBelow_iff plain reaches.usable.given rfl
      (tree.covers_walkBound _) walked).mpr ⟨names, there, rfl⟩
    exact Path.mem_sorted.mpr (List.mem_filterMap.mpr ⟨_,
      List.mem_filter.mpr ⟨inWalk, selected⟩, below?_foldl_base given entries⟩)

/-- The source that a file of the set stands for is the file that was found. -/
theorem location_join_reported (given : root.text ≠ []) {selection : Selection}
    {names : List Name} (entries : ∀ name ∈ names, IsEntry name) (working : Location) :
    (root.join (selection.reported names)).location working =
      (selection.base root).location working ++ names := by
  have relative : (selection.reported names).isAbsolute = false :=
    (Path.lead_of_trimIdle (selection.separator_not_mem_stepsTo entries)).2.1
  rw [Path.location_join given relative, moves_reported entries, Location.along_append,
    Location.along_filter, ← location_base given, Location.along_of_isEntry entries]

/-- Every file of the set stands at a place that the wildcard takes, and the other way round. -/
theorem exists_mem_members_iff (plain : FileTree.Plain tree)
    (found : members tree root wildcard = .ok files) {place : Location} :
    (∃ relative ∈ files, (root.join relative).location tree.workingDirectory = place) ↔
      (tree.file? place).isSome = true ∧ Takes root wildcard tree.workingDirectory place := by
  have given := ((members_isOk_iff plain).mp ⟨files, found⟩).1.usable.given
  have entries : ∀ names, (tree.file? (((ofWildcard wildcard).base root).location
      tree.workingDirectory ++ names)).isSome = true → ∀ name ∈ names, IsEntry name :=
    fun names there name member => plain.isEntry (FileTree.node?_isSome_of_file?_isSome there) name
      (List.mem_append_right _ member)
  constructor
  · rintro ⟨relative, member, rfl⟩
    obtain ⟨names, there, selected, rfl⟩ := (mem_members_iff plain found).mp member
    rw [location_join_reported given (entries names there)]
    exact ⟨there, names, rfl, selected⟩
  · rintro ⟨there, names, rfl, selected⟩
    exact ⟨_, (mem_members_iff plain found).mpr ⟨names, there, selected, rfl⟩,
      location_join_reported given (entries names there) _⟩

/-- Sets are the same that are listed in trees with regular files at the same of the places that
the wildcard takes. -/
theorem members_eq_of_files (plain : FileTree.Plain tree) (other : FileTree.Plain later)
    (working : later.workingDirectory = tree.workingDirectory)
    (same : ∀ place, Takes root wildcard tree.workingDirectory place →
      (later.file? place).isSome = (tree.file? place).isSome)
    (found : members tree root wildcard = .ok files)
    (again : members later root wildcard = .ok others) : others = files := by
  obtain ⟨node, location, listed, rootFound, located, walked, rfl⟩ := members_eq_ok.mp found
  obtain ⟨laterNode, laterLocation, relisted, -, relocated, rewalked, rfl⟩ :=
    members_eq_ok.mp again
  have given := ((FileTree.lookup_eq_ok_iff plain).mp rootFound).1.usable.given
  obtain ⟨reaches, leads⟩ := (FileTree.locate_eq_ok_iff plain).mp located
  obtain ⟨-, laterLeads⟩ := (FileTree.locate_eq_ok_iff other).mp relocated
  obtain rfl : laterLocation = location := by rw [laterLeads, leads, working]
  have reachable := reaches.usable.given
  have perm : (listed.filter (ofWildcard wildcard).selects).Perm
      (relisted.filter (ofWildcard wildcard).selects) := by
    refine (List.perm_ext_iff_of_nodup
      ((FileTree.nodup_filesBelow plain reachable leads.symm walked).filter _)
      ((FileTree.nodup_filesBelow other reachable laterLeads.symm rewalked).filter _)).mpr
        fun file => ?_
    rw [List.mem_filter, List.mem_filter,
      FileTree.mem_filesBelow_iff plain reachable leads.symm (tree.covers_walkBound _) walked,
      FileTree.mem_filesBelow_iff other reachable laterLeads.symm (later.covers_walkBound _)
        rewalked]
    refine and_congr_left fun selected => exists_congr fun names => and_congr_left fun written => ?_
    rw [same _ ⟨names, by rw [leads], written ▸ selected⟩]
  exact (Path.sorted_eq_of_perm (perm.filterMap _)
    fun first inFirst second inSecond =>
      eq_of_components plain given located walked inFirst inSecond).symm

/-- Trees with the same directories, of which the same may be listed, and with regular files at the
same of the places that the wildcard looks at, have the same set. -/
theorem members_eq_of_looks (plain : FileTree.Plain tree) (other : FileTree.Plain later)
    (working : later.workingDirectory = tree.workingDirectory)
    (directories : ∀ place, later.isDirectoryAt place = tree.isDirectoryAt place)
    (closed : ∀ place, later.isClosedAt place = tree.isClosedAt place)
    (same : ∀ place, Looks root wildcard tree.workingDirectory place →
      (later.file? place).isSome = (tree.file? place).isSome)
    (found : members tree root wildcard = .ok files) : members later root wildcard = .ok files := by
  obtain ⟨others, again⟩ := members_isOk_mono plain other working directories closed
    (fun there => (same _ (Or.inl rfl)).trans there) found
  rw [again, members_eq_of_files plain other working (fun place takes => same place (Or.inr takes))
    found again]

end AssetPipeline.Selection
