/-
This file says which files a pattern stands for in a plain tree: the regular files at any depth
below its directory part whose names match its last name. Whether a pattern can be expanded at all
is decided by the directories of the tree and by which of them may be listed. So patterns stand for
the same files in the same order as long as no directory changes and no file comes or goes that a
pattern would match.
-/

import AssetPipeline.Encoding.Batch
import AssetPipeline.Proofs.FileTree.Listing
import AssetPipeline.Proofs.FileTree.Trails

namespace AssetPipeline.Encoding

open FileTree (Plain Refiled)

variable {tree later : FileTree} {pattern : Path} {files : List Path}

/-- Does a file at a path match the last name of a pattern? -/
def accepts (name : Name) (file : Path) : Bool :=
  Wildcard.accept name (file.fileName?.getD file.text)

/-- The look-ups that expanding a pattern takes. -/
theorem expand_eq_ok_iff : expand tree pattern = .ok files ↔ ∃ name location listed,
    pattern.fileName? = some name ∧ tree.lookup (directoryOf pattern) = .ok .directory ∧
      tree.locate (directoryOf pattern) = .ok location ∧
      tree.walk (directoryOf pattern) location = .ok listed ∧
      files = Path.sorted (listed.filter (accepts name)) := by
  unfold expand
  dsimp only
  constructor
  · intro expanded
    split at expanded
    · cases expanded
    next name named =>
    split at expanded
    · next location looked located =>
      split at expanded
      · cases expanded
      next listed walked =>
      exact ⟨name, location, listed, named, looked, located, walked, (Except.ok.inj expanded).symm⟩
    · cases expanded
  · rintro ⟨name, location, listed, named, looked, located, walked, rfl⟩
    rw [named]
    dsimp only
    rw [looked, located]
    dsimp only
    rw [walked]
    rfl

theorem isEntry_append_mark {name : Name} (entry : IsEntry name) : IsEntry (name ++ mark) where
  move := by
    refine Path.isMove_iff.mpr ⟨by simp [mark], fun same => ?_⟩
    have short := congrArg List.length same
    exact entry.ne_nil (by simpa [mark, Path.dot] using short)
  named same := by
    have last := congrArg List.getLast? same
    simp [mark, Path.dotDot] at last
  free inside := by
    rcases List.mem_append.mp inside with inName | inMark
    · exact entry.free inName
    · exact absurd inMark (by decide)

theorem markedPath_child {base : Path} {name : Name} (given : base.text ≠ [])
    (entry : IsEntry name) : markedPath (base.child name) = base.child (name ++ mark) := by
  have texts : (base.child name).text ++ mark = (base.child (name ++ mark)).text := by
    unfold Path.child
    rw [Path.text_join given (Path.isAbsolute_of_isEntry entry),
      Path.text_join given (Path.isAbsolute_of_isEntry (isEntry_append_mark entry)),
      List.append_assoc]
  exact congrArg Path.mk texts

/-- Would a pattern match a file at this place? It has to be below the directory part, at any depth,
and its name has to match the last name. -/
def Selects (working : Location) (pattern : Path) (place : Location) : Prop :=
  ∃ name front last, pattern.fileName? = some name ∧ Wildcard.accept name last = true ∧
    place = (directoryOf pattern).location working ++ (front ++ [last])

/-- A file that a pattern stands for: found by the path that goes down to it from the directory
part. -/
structure Found (tree : FileTree) (pattern source : Path) (front : List Name) (last : Name) :
    Prop where
  given : (directoryOf pattern).text ≠ []
  entries : ∀ name ∈ front ++ [last], IsEntry name
  written : source = (front ++ [last]).foldl Path.child (directoryOf pattern)
  there : (tree.file? ((directoryOf pattern).location tree.workingDirectory ++
    (front ++ [last]))).isSome = true
  accepted : ∃ name, pattern.fileName? = some name ∧ Wildcard.accept name last = true

namespace Found

variable {source : Path} {front : List Name} {last : Name}

theorem location_eq (found : Found tree pattern source front last) (working : Location) :
    source.location working =
      (directoryOf pattern).location working ++ (front ++ [last]) := by
  rw [found.written, Path.location_foldl_child found.given found.entries]

theorem selects (found : Found tree pattern source front last) :
    Selects tree.workingDirectory pattern (source.location tree.workingDirectory) := by
  obtain ⟨name, named, accepted⟩ := found.accepted
  exact ⟨name, front, last, named, accepted, found.location_eq _⟩

/-- The encoded copy of a file stands beside it. -/
theorem location_markedPath (found : Found tree pattern source front last) (working : Location) :
    (markedPath source).location working =
      (directoryOf pattern).location working ++ (front ++ [last ++ mark]) := by
  have entry := found.entries last (List.mem_append_right _ (List.mem_singleton_self _))
  have marked := isEntry_append_mark entry
  have frontEntries : ∀ name ∈ front, IsEntry name := fun name member =>
    found.entries name (List.mem_append_left _ member)
  have given := Path.text_foldl_child_ne_nil found.given frontEntries
  rw [found.written, List.foldl_concat, markedPath_child given entry,
    Path.location_child given marked, Path.location_foldl_child found.given frontEntries,
    ← List.append_assoc]
  rfl

/-- Files with one place for their encoded copies are at one place. -/
theorem location_injective {other otherPattern : Path} {back : List Name} {final : Name}
    {working : Location} (found : Found tree pattern source front last)
    (second : Found tree otherPattern other back final)
    (same : (markedPath source).location working = (markedPath other).location working) :
    source.location working = other.location working := by
  rw [found.location_markedPath, second.location_markedPath, ← List.append_assoc,
    ← List.append_assoc] at same
  obtain ⟨sameFront, sameLast⟩ := List.append_inj' same rfl
  rw [found.location_eq, second.location_eq, ← List.append_assoc, ← List.append_assoc, sameFront,
    List.append_cancel_right (List.singleton_inj.mp sameLast)]

end Found

/-- A pattern that can be expanded stands for the files below its directory part whose names
match. -/
theorem mem_expand_iff (plain : Plain tree) (expanded : expand tree pattern = .ok files)
    {source : Path} : source ∈ files ↔ ∃ front last, Found tree pattern source front last := by
  obtain ⟨name, location, listed, named, looked, located, walked, rfl⟩ :=
    expand_eq_ok_iff.mp expanded
  obtain ⟨reaches, rfl⟩ := (FileTree.locate_eq_ok_iff plain).mp located
  have directory := ((FileTree.lookup_eq_ok_iff plain).mp looked).2
  have given := reaches.usable.given
  rw [Path.mem_sorted, List.mem_filter,
    FileTree.mem_filesBelow_iff plain given rfl (tree.covers_walkBound _) walked]
  have fileName : ∀ front last, (∀ name ∈ front ++ [last], IsEntry name) →
      ((front ++ [last]).foldl Path.child (directoryOf pattern)).fileName? = some last := by
    intro front last entries
    rw [List.foldl_concat]
    exact Path.fileName?_child
      (Path.text_foldl_child_ne_nil given fun name member =>
        entries name (List.mem_append_left _ member))
      (entries last (List.mem_append_right _ (List.mem_singleton_self _)))
  constructor
  · rintro ⟨⟨names, there, rfl⟩, accepted⟩
    rcases List.eq_nil_or_concat names with rfl | ⟨front, last, rfl⟩
    · unfold FileTree.file? at there
      rw [List.append_nil, directory] at there
      cases there
    rw [List.concat_eq_append] at there accepted ⊢
    have entries : ∀ name ∈ front ++ [last], IsEntry name := fun name member =>
      plain.isEntry (FileTree.node?_isSome_of_file?_isSome there) name
        (List.mem_append_right _ member)
    unfold accepts at accepted
    rw [fileName front last entries] at accepted
    exact ⟨front, last, given, entries, rfl, there, name, named, accepted⟩
  · rintro ⟨front, last, -, entries, rfl, there, other, otherNamed, accepted⟩
    obtain rfl := Option.some.inj (named.symm.trans otherNamed)
    refine ⟨⟨front ++ [last], there, rfl⟩, ?_⟩
    unfold accepts
    rw [fileName front last entries]
    exact accepted

/-! ### The same files in a later tree -/

/-- Whether a pattern can be expanded is decided by the directories and by which may be listed. -/
theorem expand_isOk_of_directories (plain : Plain tree) (other : Plain later)
    (working : later.workingDirectory = tree.workingDirectory)
    (directories : ∀ place, later.isDirectoryAt place = tree.isDirectoryAt place)
    (closed : ∀ place, later.isClosedAt place = tree.isClosedAt place)
    (expanded : ∃ files, expand tree pattern = .ok files) :
    ∃ files, expand later pattern = .ok files := by
  obtain ⟨files, expanded⟩ := expanded
  obtain ⟨name, location, listed, named, looked, located, walked, -⟩ :=
    expand_eq_ok_iff.mp expanded
  obtain ⟨reaches, rfl⟩ := (FileTree.locate_eq_ok_iff plain).mp located
  have given := reaches.usable.given
  have directory := FileTree.isDirectoryAt_iff.mpr ((FileTree.lookup_eq_ok_iff plain).mp looked).2
  have stays : ∀ path : Path, tree.Reaches path →
      tree.isDirectoryAt (path.location tree.workingDirectory) = true → later.Reaches path := by
    intro path before there
    refine before.mono working (fun place => (directories place).trans) fun _ => ?_
    rw [FileTree.isDirectoryAt_iff.mp ((directories _).trans there)]
    rfl
  have laterReaches := stays _ reaches directory
  have laterDirectory := (directories _).trans directory
  rw [← working] at laterDirectory
  obtain ⟨found, relisted⟩ : ∃ found, later.walk (directoryOf pattern) _ = .ok found := by
    refine (FileTree.filesBelow_isOk_iff other given rfl (later.covers_walkBound _)).mpr
      ⟨fun names => ?_, fun names some there => ?_⟩
    · rw [closed, working]
      exact FileTree.listable_of_filesBelow plain given rfl (tree.covers_walkBound _) walked names
    · rw [directories, working] at there
      have below := FileTree.reaches_of_filesBelow plain given rfl (tree.covers_walkBound _) walked
        some there
      have entries : ∀ name ∈ names, IsEntry name := fun name member =>
        plain.isEntry (by rw [FileTree.isDirectoryAt_iff.mp there]; rfl) name
          (List.mem_append_right _ member)
      exact stays _ below (by rwa [Path.location_foldl_child given entries])
  exact ⟨_, expand_eq_ok_iff.mpr ⟨name, _, found, named,
    (FileTree.lookup_eq_ok_iff other).mpr
      ⟨laterReaches, FileTree.isDirectoryAt_iff.mp laterDirectory⟩,
    (FileTree.locate_eq_ok_iff other).mpr ⟨laterReaches, rfl⟩, relisted, rfl⟩⟩

/-- Expansions of the same files have them in the same order. -/
theorem expand_ext (plain : Plain tree) (other : Plain later) {others : List Path}
    (expanded : expand tree pattern = .ok files) (again : expand later pattern = .ok others)
    (same : ∀ source, source ∈ files ↔ source ∈ others) : files = others := by
  have listing : ∀ {tree : FileTree} {files : List Path}, Plain tree →
      expand tree pattern = .ok files →
        ∃ listed : List Path, listed.Nodup ∧ files = Path.sorted listed := by
    intro tree files plain expanded
    obtain ⟨name, location, listed, -, -, located, walked, rfl⟩ := expand_eq_ok_iff.mp expanded
    obtain ⟨reaches, rfl⟩ := (FileTree.locate_eq_ok_iff plain).mp located
    exact ⟨_, (FileTree.nodup_filesBelow plain reaches.usable.given rfl walked).filter _, rfl⟩
  have members : ∀ source ∈ files, ∃ front last, Found tree pattern source front last :=
    fun source => (mem_expand_iff plain expanded).mp
  obtain ⟨listed, distinct, rfl⟩ := listing plain expanded
  obtain ⟨relisted, redistinct, rfl⟩ := listing other again
  refine Path.sorted_eq_of_perm ?_ fun first inFirst second inSecond level => ?_
  · refine (List.perm_ext_iff_of_nodup distinct redistinct).mpr fun source => ?_
    rw [← Path.mem_sorted, same, Path.mem_sorted]
  · obtain ⟨front, last, found⟩ := members first (Path.mem_sorted.mpr inFirst)
    obtain ⟨back, final, other⟩ := members second (Path.mem_sorted.mpr inSecond)
    rw [found.written, other.written] at level ⊢
    rw [Path.foldl_child_injective found.given found.entries other.entries level]

/-- A pattern stands for the same files when no directory changes and no file comes or goes that it
would match. -/
theorem expand_stable (plain : Plain tree) (other : Plain later) {touched : Location → Prop}
    (refiled : Refiled tree later touched)
    (apart : ∀ place, touched place → ¬ Selects tree.workingDirectory pattern place)
    (expanded : expand tree pattern = .ok files) : expand later pattern = .ok files := by
  obtain ⟨others, again⟩ := expand_isOk_of_directories plain other refiled.working
    refiled.isDirectoryAt refiled.closed ⟨files, expanded⟩
  suffices same : ∀ source front last, Found tree pattern source front last ↔
      Found later pattern source front last by
    rw [again, expand_ext plain other expanded again fun source => ?_]
    rw [mem_expand_iff plain expanded, mem_expand_iff other again]
    simp only [same]
  have agree : ∀ front last, (∃ name, pattern.fileName? = some name ∧
      Wildcard.accept name last = true) →
        later.file? ((directoryOf pattern).location tree.workingDirectory ++ (front ++ [last])) =
          tree.file? ((directoryOf pattern).location tree.workingDirectory ++
            (front ++ [last])) := by
    rintro front last ⟨name, named, accepted⟩
    refine FileTree.file?_congr (refiled.elsewhere fun changed => ?_)
    exact apart _ changed ⟨name, front, last, named, accepted, rfl⟩
  intro source front last
  constructor
  · rintro ⟨given, entries, written, there, accepted⟩
    refine ⟨given, entries, written, ?_, accepted⟩
    rw [refiled.working, agree front last accepted]
    exact there
  · rintro ⟨given, entries, written, there, accepted⟩
    rw [refiled.working, agree front last accepted] at there
    exact ⟨given, entries, written, there, accepted⟩

end AssetPipeline.Encoding
