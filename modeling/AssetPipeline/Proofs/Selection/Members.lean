/-
This file says which files a wildcard parameter stands for in a plain tree. Each is reported by the
steps that lead to it from the root: the names of the directory part, and then the entries that the
walk went down. So the source it stands for is the file that was found, and it goes up only where
the directory part does. Without a `..` in the directory part, everything about the set is decided
below the root: trees that agree there have the same set in the same order, and a file that is in
the set of a tree was in that of an earlier one where it stood already, unless a file gave way to a
directory in between or a directory was opened.
-/

import AssetPipeline.Proofs.FileTree.Listing
import AssetPipeline.Selection.Basic

namespace AssetPipeline.Selection

/-- The directory part is made of names that can be written in a path. -/
theorem solid_directoryNames (selection : Selection) : Path.Solid selection.directoryNames := by
  intro name member
  obtain ⟨piece, nonempty⟩ := List.mem_filter.mp member
  refine ⟨by simpa using nonempty, fun inside => ?_⟩
  exact absurd (Text.not_mem_of_mem_splitWhere piece inside) (by decide)

/-- Without a `..` the directory part goes down alone. -/
theorem isEntry_of_mem_directoryNames {selection : Selection}
    (named : Path.dotDot ∉ selection.directoryNames) :
    ∀ name ∈ selection.directoryNames.filter Path.isMove, IsEntry name := by
  intro name member
  obtain ⟨inside, move⟩ := List.mem_filter.mp member
  exact ⟨move, fun up => named (up ▸ inside), (selection.solid_directoryNames name inside).2⟩

/-- The way from the root to a file of the set. -/
def stepsTo (selection : Selection) (names : List Name) : List Text :=
  selection.directoryNames ++ names

/-- How a file of the set is reported. -/
def reported (selection : Selection) (names : List Name) : Path :=
  Path.ofSegments [] (Path.trimIdle ((selection.stepsTo names).dropWhile Path.isIdle))

variable {tree later : FileTree} {root : Path} {wildcard : Text} {files : List Path}

/-- The three look-ups that a set of files takes. -/
theorem members_eq_ok : members tree root wildcard = .ok files ↔
    ∃ node location listed, tree.lookup root = .ok node ∧
      tree.locate ((ofWildcard wildcard).base root) = .ok location ∧
      tree.walk ((ofWildcard wildcard).base root) location = .ok listed ∧
      files = Path.sorted
        ((listed.filter (ofWildcard wildcard).selects).filterMap (·.below? root)) := by
  unfold members
  dsimp only
  constructor
  · intro found
    split at found
    · cases found
    next node rootFound =>
    split at found
    · cases found
    next location located =>
    split at found
    · cases found
    next listed walked =>
    exact ⟨node, location, listed, rootFound, located, walked, (Except.ok.inj found).symm⟩
  · rintro ⟨node, location, listed, rootFound, located, walked, rfl⟩
    rw [rootFound, located]
    dsimp only
    rw [walked]

/-- A root where nothing stands has no files. -/
theorem members_ne_ok_of_absent (plain : FileTree.Plain tree)
    (absent : tree.node? (root.location tree.workingDirectory) = none) :
    members tree root wildcard ≠ .ok files := by
  intro found
  obtain ⟨node, location, listed, rootFound, -⟩ := members_eq_ok.mp found
  have stands := ((FileTree.lookup_eq_ok_iff plain).mp rootFound).2
  rw [absent] at stands
  cases stands

theorem separator_not_mem_stepsTo {selection : Selection} {names : List Name}
    (entries : ∀ name ∈ names, IsEntry name) :
      ∀ step ∈ selection.stepsTo names, Path.separator ∉ step := by
  intro step member
  rcases List.mem_append.mp member with inDirectory | inNames
  · exact (selection.solid_directoryNames step inDirectory).2
  · exact (entries step inNames).free

/-- A file below the directory to search is reported by the moves to it from the root. -/
theorem moves_reported {selection : Selection} {names : List Name}
    (entries : ∀ name ∈ names, IsEntry name) :
    (selection.reported names).moves = selection.directoryNames.filter Path.isMove ++ names := by
  have alone : names.filter Path.isMove = names :=
    List.filter_eq_self.mpr fun name member => (entries name member).move
  rw [← alone, ← List.filter_append, alone]
  exact (Path.lead_of_trimIdle (selection.separator_not_mem_stepsTo entries)).2.2

/-- No two files of a set are reported by the same components. -/
theorem reported_injective {selection : Selection} {names others : List Name}
    (entries : ∀ name ∈ names, IsEntry name) (otherEntries : ∀ name ∈ others, IsEntry name)
    (same : (selection.reported names).components = (selection.reported others).components) :
    selection.reported names = selection.reported others := by
  obtain ⟨lead, absolute, -⟩ :=
    Path.lead_of_trimIdle (selection.separator_not_mem_stepsTo entries)
  obtain ⟨otherLead, otherAbsolute, -⟩ :=
    Path.lead_of_trimIdle (selection.separator_not_mem_stepsTo otherEntries)
  have sameMoves : (selection.reported names).moves = (selection.reported others).moves :=
    Path.moves_injective_of_lead (lead.trans otherLead.symm) (absolute.trans otherAbsolute.symm)
      same
  rw [moves_reported entries, moves_reported otherEntries, List.append_cancel_left_eq] at sameMoves
  rw [sameMoves]

/-- A file below the directory to search is reported by the steps to it from the root. -/
theorem below?_foldl_base (given : root.text ≠ []) {selection : Selection} {names : List Name}
    (entries : ∀ name ∈ names, IsEntry name) :
    (names.foldl Path.child (selection.base root)).below? root =
      some (selection.reported names) := by
  have whole : names.foldl Path.child (selection.base root) =
      (selection.stepsTo names).foldl Path.child root := List.foldl_append.symm
  rw [whole]
  refine Path.below?_foldl given fun step inside => ?_
  rcases List.mem_append.mp inside with inDirectory | below
  · exact selection.solid_directoryNames step inDirectory
  · exact Path.Solid.of_isEntry entries step below

/-- A file of the set goes down from the root by the directory part and the entries below. -/
theorem mem_walk (plain : FileTree.Plain tree) {selection : Selection} {location : Location}
    {listed : List Path} (given : root.text ≠ [])
    (located : tree.locate (selection.base root) = .ok location)
    (walked : tree.walk (selection.base root) location = .ok listed) {file : Path}
    (member : file ∈ listed) : ∃ names, (∀ name ∈ names, IsEntry name) ∧
      file = (selection.stepsTo names).foldl Path.child root ∧
      file.below? root = some (selection.reported names) ∧
      (tree.file? (location ++ names)).isSome = true := by
  obtain ⟨reaches, leads⟩ := (FileTree.locate_eq_ok_iff plain).mp located
  obtain ⟨names, entries, written, there⟩ :=
    FileTree.mem_filesBelow plain reaches.usable.given leads.symm walked member
  subst written
  exact ⟨names, entries, List.foldl_append.symm, below?_foldl_base given entries, there⟩

/-- Files of the set with the same components are the same. -/
theorem eq_of_components (plain : FileTree.Plain tree) {selection : Selection}
    {location : Location} {listed : List Path} (given : root.text ≠ [])
    (located : tree.locate (selection.base root) = .ok location)
    (walked : tree.walk (selection.base root) location = .ok listed) {first second : Path}
    (inFirst : first ∈ (listed.filter selection.selects).filterMap (·.below? root))
    (inSecond : second ∈ (listed.filter selection.selects).filterMap (·.below? root))
    (same : first.components = second.components) : first = second := by
  obtain ⟨file, fileListed, fileBelow⟩ := List.mem_filterMap.mp inFirst
  obtain ⟨other, otherListed, otherBelow⟩ := List.mem_filterMap.mp inSecond
  obtain ⟨names, entries, -, written, -⟩ :=
    mem_walk plain given located walked (List.mem_filter.mp fileListed).1
  obtain ⟨otherNames, otherEntries, -, otherWritten, -⟩ :=
    mem_walk plain given located walked (List.mem_filter.mp otherListed).1
  obtain rfl := Option.some.inj (written.symm.trans fileBelow)
  obtain rfl := Option.some.inj (otherWritten.symm.trans otherBelow)
  exact reported_injective entries otherEntries same

theorem location_base (given : root.text ≠ []) (selection : Selection) (working : Location) :
    (selection.base root).location working =
      (root.location working).along selection.directoryNames := by
  have solid := selection.solid_directoryNames
  unfold base
  by_cases none : selection.directoryNames = []
  · rw [none]
    rfl
  · rw [Path.foldl_child given solid none, Path.location_join given solid.isAbsolute]
    unfold Path.moves
    rw [solid.steps none, Location.along_filter]

/-- Without `..` the directory to search is below the root. -/
theorem location_base_of_named (given : root.text ≠ []) {selection : Selection}
    (named : Path.dotDot ∉ selection.directoryNames) (working : Location) :
    (selection.base root).location working =
      root.location working ++ selection.directoryNames.filter Path.isMove := by
  rw [location_base given, ← Location.along_filter,
    Location.along_of_isEntry (isEntry_of_mem_directoryNames named)]

/-- A file of the set is reported by the steps to it, which lead to a regular file. It has no steps
only when the root itself is that file. -/
theorem mem_members (plain : FileTree.Plain tree) (found : members tree root wildcard = .ok files)
    {relative : Path} (member : relative ∈ files) : ∃ names, (∀ name ∈ names, IsEntry name) ∧
      (tree.file? ((root.location tree.workingDirectory).along
        ((ofWildcard wildcard).stepsTo names))).isSome = true ∧
      ((ofWildcard wildcard).stepsTo names = [] ∧ relative.text = [] ∨
        ∃ front name, (ofWildcard wildcard).stepsTo names = front ++ [name] ∧
          relative.Inner (front.dropWhile Path.isIdle) name) := by
  obtain ⟨rootNode, location, listed, rootFound, located, walked, rfl⟩ := members_eq_ok.mp found
  have given := ((FileTree.lookup_eq_ok_iff plain).mp rootFound).1.usable.given
  obtain ⟨reaches, leads⟩ := (FileTree.locate_eq_ok_iff plain).mp located
  obtain ⟨file, inListed, below⟩ := List.mem_filterMap.mp (Path.mem_sorted.mp member)
  obtain ⟨names, entries, -, written, there⟩ :=
    mem_walk plain given located walked (List.mem_filter.mp inListed).1
  rw [written, reported] at below
  have stepsFree : ∀ step ∈ (ofWildcard wildcard).stepsTo names, Path.separator ∉ step :=
    separator_not_mem_stepsTo entries
  have reached : (root.location tree.workingDirectory).along ((ofWildcard wildcard).stepsTo names) =
      location ++ names := by
    unfold stepsTo
    rw [Location.along_append, ← location_base given, ← leads, Location.along_of_isEntry entries]
  refine ⟨names, entries, reached ▸ there, ?_⟩
  rcases List.eq_nil_or_concat ((ofWildcard wildcard).stepsTo names) with none | ⟨front, name, last⟩
  · refine Or.inl ⟨none, ?_⟩
    rw [none] at below
    exact congrArg Path.text (Option.some.inj below).symm
  rw [List.concat_eq_append] at last
  have entry : IsEntry name := by
    rcases List.eq_nil_or_concat names with none | ⟨others, final, whole⟩
    · -- The base is the file itself, so the directory part ends in its name.
      subst none
      have directory : (ofWildcard wildcard).directoryNames = front ++ [name] := by
        rw [← last]
        exact (List.append_nil _).symm
      have some : (ofWildcard wildcard).directoryNames ≠ [] := by simp [directory]
      have solid := (ofWildcard wildcard).solid_directoryNames
      have path := Path.foldl_child given solid some
      unfold base at reaches
      rw [path] at reaches
      obtain ⟨start, steps⟩ := Path.steps_join given solid.isAbsolute
      have passes := reaches.passes
      rw [steps, solid.steps some, directory, ← List.append_assoc] at passes
      refine passes.isEntry_last plain.toSound (stepsFree name (by simp [last])) ?_
      rw [List.append_nil, leads] at there
      unfold base Path.location at there
      rwa [path, steps, solid.steps some, directory, ← List.append_assoc] at there
    · rw [List.concat_eq_append] at whole
      have same : name = final := by
        unfold stepsTo at last
        rw [whole, ← List.append_assoc] at last
        exact (List.append_inj_right' last rfl |> List.singleton_inj.mp).symm
      exact same ▸ entries final (whole ▸ List.mem_append_right _ (List.mem_singleton_self _))
  obtain ⟨bare, trimmed⟩ := Path.Bare.of_steps entry.move (last ▸ stepsFree)
  rw [last, trimmed] at below
  exact Or.inr ⟨front, name, last, bare, (Option.some.inj below).symm, entry⟩

/-- When the directory part does not go up and the root is no file, a file of the set is reported
by names alone, and the names lead down to it. -/
theorem inner_of_mem_members (plain : FileTree.Plain tree)
    (directory : tree.isDirectoryAt (root.location tree.workingDirectory) = true)
    (named : Path.dotDot ∉ (ofWildcard wildcard).directoryNames)
    (found : members tree root wildcard = .ok files) {relative : Path} (member : relative ∈ files) :
    ∃ front name, relative.Inner front name ∧ Path.dotDot ∉ front ∧
      (tree.file? (root.location tree.workingDirectory ++ relative.moves)).isSome = true := by
  obtain ⟨names, entries, there, none | ⟨front, name, last, inner⟩⟩ :=
    mem_members plain found member
  · rw [none.1, Location.along_nil] at there
    unfold FileTree.file? at there
    rw [FileTree.isDirectoryAt_iff.mp directory] at there
    cases there
  have unclimbed : Path.dotDot ∉ (ofWildcard wildcard).stepsTo names := by
    intro inside
    rcases List.mem_append.mp inside with inDirectory | inNames
    · exact named inDirectory
    · exact (entries _ inNames).named rfl
  rw [last] at unclimbed there
  have frontNamed : Path.dotDot ∉ front.dropWhile Path.isIdle := fun inside =>
    unclimbed (List.mem_append_left _ ((List.dropWhile_suffix _).subset inside))
  refine ⟨_, name, inner, frontNamed, ?_⟩
  have moves : relative.moves = (front ++ [name]).filter Path.isMove := by
    rw [inner.moves, List.filter_append, List.filter_cons_of_pos inner.entry.move, List.filter_nil,
      Path.filter_dropWhile_isIdle]
  rw [← Location.along_filter, ← moves, Location.along_of_isEntry (inner.isEntry frontNamed)]
    at there
  exact there

/-- When the directory part does not climb above the root, neither does a file of the set. -/
theorem climbs_of_mem_members (plain : FileTree.Plain tree)
    (stays : Path.climbs 0 (ofWildcard wildcard).directoryNames = false)
    (found : members tree root wildcard = .ok files) {relative : Path} (member : relative ∈ files) :
    relative.text = [] ∨
      ∃ front name, relative.Inner front name ∧ Path.climbs 0 front = false := by
  obtain ⟨names, entries, -, none | ⟨front, name, last, inner⟩⟩ := mem_members plain found member
  · exact Or.inl none.2
  have whole : Path.climbs 0 (front ++ [name]) = false := by
    rw [← last]
    exact Path.climbs_append stays fun inside => (entries _ inside).named rfl
  have kept := Path.climbs_of_isPrefix (List.prefix_append front [name]) whole
  rw [← Path.climbs_filter, ← Path.filter_dropWhile_isIdle, Path.climbs_filter] at kept
  exact Or.inr ⟨_, name, inner, kept⟩

/-! ### All files of a set -/

/-- A file of the set is reached below the directory that is searched, and is selected there. -/
theorem names_of_mem_members (plain : FileTree.Plain tree)
    (found : members tree root wildcard = .ok files) {relative : Path} (member : relative ∈ files) :
    tree.Reaches ((ofWildcard wildcard).base root) ∧
      ∃ names, (tree.file? (((ofWildcard wildcard).base root).location tree.workingDirectory ++
          names)).isSome = true ∧
        (ofWildcard wildcard).selects (names.foldl Path.child ((ofWildcard wildcard).base root)) ∧
        relative = (ofWildcard wildcard).reported names := by
  obtain ⟨node, location, listed, rootFound, located, walked, rfl⟩ := members_eq_ok.mp found
  have given := ((FileTree.lookup_eq_ok_iff plain).mp rootFound).1.usable.given
  obtain ⟨reaches, rfl⟩ := (FileTree.locate_eq_ok_iff plain).mp located
  obtain ⟨file, inListed, below⟩ := List.mem_filterMap.mp (Path.mem_sorted.mp member)
  obtain ⟨inWalk, selected⟩ := List.mem_filter.mp inListed
  obtain ⟨names, entries, rfl, written, there⟩ := mem_walk plain given located walked inWalk
  refine ⟨reaches, names, there, ?_, Option.some.inj (below.symm.trans written)⟩
  unfold stepsTo at selected
  rwa [List.foldl_append] at selected

/-- Where there is a set, every directory could be listed from which the search began on. -/
theorem listable_of_members (plain : FileTree.Plain tree)
    (found : members tree root wildcard = .ok files) :
    tree.Listable (((ofWildcard wildcard).base root).location tree.workingDirectory) := by
  obtain ⟨node, location, listed, -, located, walked, -⟩ := members_eq_ok.mp found
  obtain ⟨reaches, rfl⟩ := (FileTree.locate_eq_ok_iff plain).mp located
  exact FileTree.listable_of_filesBelow plain reaches.usable.given rfl (tree.covers_walkBound _)
    walked

/-- When the directory to search is reached, every directory from there on may be listed, and no
path below is over the limits, the set holds every file that is selected there. -/
theorem members_complete (plain : FileTree.Plain tree) (reaches : tree.Reaches root)
    (directory : tree.isDirectoryAt (root.location tree.workingDirectory) = true)
    (reachesBase : tree.Reaches ((ofWildcard wildcard).base root))
    (listable : tree.Listable (((ofWildcard wildcard).base root).location tree.workingDirectory))
    (fits : ∀ names, (tree.node? (((ofWildcard wildcard).base root).location
      tree.workingDirectory ++ names)).isSome = true →
        (names.foldl Path.child ((ofWildcard wildcard).base root)).Fits) :
    ∃ files, members tree root wildcard = .ok files ∧
      ∀ names, (tree.file? (((ofWildcard wildcard).base root).location tree.workingDirectory ++
          names)).isSome = true →
        (ofWildcard wildcard).selects (names.foldl Path.child ((ofWildcard wildcard).base root)) →
          (ofWildcard wildcard).reported names ∈ files := by
  obtain ⟨listed, walked, complete⟩ :=
    FileTree.filesBelow_complete plain reachesBase (tree.covers_walkBound _) listable fits
  refine ⟨_, members_eq_ok.mpr ⟨.directory, _, listed,
    (FileTree.lookup_eq_ok_iff plain).mpr ⟨reaches, FileTree.isDirectoryAt_iff.mp directory⟩,
    (FileTree.locate_eq_ok_iff plain).mpr ⟨reachesBase, rfl⟩, walked, rfl⟩,
    fun names found selected => ?_⟩
  refine Path.mem_sorted.mpr (List.mem_filterMap.mpr ⟨_,
    List.mem_filter.mpr ⟨complete names found, selected⟩, ?_⟩)
  have entries : ∀ name ∈ names, IsEntry name := fun name member =>
    plain.isEntry (FileTree.node?_isSome_of_file?_isSome found) name
      (List.mem_append_right _ member)
  exact below?_foldl_base reaches.usable.given entries

/-! ### Trees that agree below the root -/

/-- The directory to search can be reached wherever the root can and something stands there, if it
is reached in another tree, and no file stands there for a directory. -/
theorem reaches_base (sound : FileTree.Sound later) {selection : Selection}
    (reachesBase : tree.Reaches (selection.base root))
    (working : later.workingDirectory = tree.workingDirectory) (reaches : later.Reaches root)
    (named : Path.dotDot ∉ selection.directoryNames)
    (stands : (later.node? ((selection.base root).location tree.workingDirectory)).isSome = true)
    (directories : tree.isDirectoryAt ((selection.base root).location tree.workingDirectory) =
      true → later.isDirectoryAt ((selection.base root).location tree.workingDirectory) = true) :
    later.Reaches (selection.base root) := by
  have given := reaches.usable.given
  have solid := selection.solid_directoryNames
  rcases List.eq_nil_or_concat selection.directoryNames with none | ⟨front, last, whole⟩
  · unfold base
    rw [none]
    exact reaches
  rw [List.concat_eq_append] at whole
  have some : selection.directoryNames ≠ [] := by simp [whole]
  have moves : (Path.ofSegments [] selection.directoryNames).moves =
      selection.directoryNames.filter Path.isMove := by
    unfold Path.moves
    rw [solid.steps some]
  have path := Path.foldl_child given solid some
  have entries := selection.isEntry_of_mem_directoryNames named
  rw [location_base_of_named given named] at stands
  unfold base at reachesBase directories ⊢
  rw [path] at reachesBase directories ⊢
  refine reaches.join solid.isAbsolute reachesBase.usable ?_ ?_
  · by_cases still : selection.directoryNames.filter Path.isMove = []
    · rw [moves, still]
      trivial
    · have passes := (reachesBase.base given solid.isAbsolute (moves ▸ still)).2.2
      rw [moves] at passes ⊢
      rw [working]
      exact FileTree.Passes.of_isEntry sound entries (passes.short entries) stands
  · obtain ⟨start, steps⟩ := Path.steps_join given solid.isAbsolute
    rw [solid.steps some, whole, ← List.append_assoc] at steps
    by_cases move : Path.isMove last = true
    · exact Or.inr ⟨_, last, whole ▸ steps, move⟩
    · left
      rw [working]
      exact directories (reachesBase.isDirectoryAt_of_idle (whole ▸ steps) (by simpa using move))

/-- Trees that agree below the root have the same files for a wildcard without `..`. -/
theorem members_agree (plain : FileTree.Plain tree) (other : FileTree.Plain later)
    (working : later.workingDirectory = tree.workingDirectory) (reaches : later.Reaches root)
    (directory : later.isDirectoryAt (root.location later.workingDirectory) = true)
    (named : Path.dotDot ∉ (ofWildcard wildcard).directoryNames)
    (agree : ∀ below, later.node? (root.location tree.workingDirectory ++ below) =
      tree.node? (root.location tree.workingDirectory ++ below))
    (closed : ∀ below, later.isClosedAt (root.location tree.workingDirectory ++ below) =
      tree.isClosedAt (root.location tree.workingDirectory ++ below))
    (found : members tree root wildcard = .ok files) : members later root wildcard = .ok files := by
  obtain ⟨node, location, listed, rootFound, located, walked, rfl⟩ := members_eq_ok.mp found
  have given := reaches.usable.given
  obtain ⟨reachesBase, leads⟩ := (FileTree.locate_eq_ok_iff plain).mp located
  have agreeBelow : ∀ below, later.node? (location ++ below) = tree.node? (location ++ below) := by
    intro below
    rw [leads, location_base_of_named given named, List.append_assoc]
    exact agree _
  have closedBelow : ∀ below,
      later.isClosedAt (location ++ below) = tree.isClosedAt (location ++ below) := by
    intro below
    rw [leads, location_base_of_named given named, List.append_assoc]
    exact closed _
  have agreeThere : later.node? location = tree.node? location := by simpa using agreeBelow []
  have laterReaches : later.Reaches ((ofWildcard wildcard).base root) := by
    refine reaches_base other.toSound reachesBase working reaches named ?_ ?_
    · rw [← leads, agreeThere, leads]
      exact reachesBase.stands plain.toSound
    · rw [← leads, FileTree.isDirectoryAt_iff, FileTree.isDirectoryAt_iff, agreeThere]
      exact id
  obtain ⟨relisted, rewalked, perm⟩ := FileTree.filesBelow_agree plain other working
    (fun _ => laterReaches) leads.symm agreeBelow closedBelow (tree.covers_walkBound location)
    (later.covers_walkBound location) walked
  refine members_eq_ok.mpr ⟨.directory, location, relisted,
    (FileTree.lookup_eq_ok_iff other).mpr ⟨reaches, FileTree.isDirectoryAt_iff.mp directory⟩,
    (FileTree.locate_eq_ok_iff other).mpr ⟨laterReaches, working.symm ▸ leads⟩, rewalked, ?_⟩
  exact Path.sorted_eq_of_perm ((perm.filter _).filterMap _)
    fun first inFirst second inSecond =>
      eq_of_components plain given located walked inFirst inSecond

/-! ### Trees in which no file gave way to a directory -/

/-- A file of a set that stood in an earlier tree belonged to the set there, unless a file has given
way to a directory since, or a directory was opened. -/
theorem mem_members_earlier (plain : FileTree.Plain tree) (other : FileTree.Plain later)
    (working : later.workingDirectory = tree.workingDirectory) (reaches : tree.Reaches root)
    (directory : tree.isDirectoryAt (root.location tree.workingDirectory) = true)
    (named : Path.dotDot ∉ (ofWildcard wildcard).directoryNames)
    (fits : ∀ names, (tree.node? (((ofWildcard wildcard).base root).location
      tree.workingDirectory ++ names)).isSome = true →
        (names.foldl Path.child ((ofWildcard wildcard).base root)).Fits)
    (stays : ∀ place, (tree.file? place).isSome = true → later.isDirectoryAt place = false)
    (closed : ∀ place, tree.isClosedAt place = true → later.isClosedAt place = true)
    (found : members later root wildcard = .ok files) {relative : Path} (member : relative ∈ files)
    (there : (tree.file? (root.location tree.workingDirectory ++ relative.moves)).isSome = true) :
    ∃ before, members tree root wildcard = .ok before ∧ relative ∈ before := by
  obtain ⟨reachesBase, names, stands, selected, rfl⟩ := names_of_mem_members other found member
  have entries : ∀ name ∈ names, IsEntry name := fun name inside =>
    other.isEntry (FileTree.node?_isSome_of_file?_isSome stands) name
      (List.mem_append_right _ inside)
  have given := reaches.usable.given
  rw [moves_reported entries, ← List.append_assoc, ← location_base_of_named given named] at there
  have standsBase : (tree.node? (((ofWildcard wildcard).base root).location
      tree.workingDirectory)).isSome = true :=
    plain.isSome_of_below (FileTree.node?_isSome_of_file?_isSome there)
  have reachesBefore : tree.Reaches ((ofWildcard wildcard).base root) := by
    refine reaches_base plain.toSound reachesBase working.symm reaches named
      (working ▸ standsBase) fun directoryLater => ?_
    rw [working] at directoryLater ⊢
    rcases plain.cases (((ofWildcard wildcard).base root).location tree.workingDirectory) with
      none | inner | ⟨file, was⟩
    · rw [none] at standsBase
      cases standsBase
    · exact FileTree.isDirectoryAt_iff.mpr inner
    · have gone := stays _ (by rw [FileTree.file?_eq_some_iff.mpr was]; rfl)
      rw [gone] at directoryLater
      cases directoryLater
  have listable : tree.Listable
      (((ofWildcard wildcard).base root).location tree.workingDirectory) := fun below =>
    Bool.eq_false_iff.mpr fun shut => by
      have still := closed _ shut
      rw [← working, listable_of_members other found] at still
      cases still
  obtain ⟨before, listed, complete⟩ :=
    members_complete plain reaches directory reachesBefore listable fits
  exact ⟨before, listed, complete names there selected⟩

end AssetPipeline.Selection
