/-
This file says exactly when a walk through a plain tree gets through, and exactly what it lists
then. It gets through when every directory may be listed, and those below the place where it starts
are reached by the paths that go down to them; both are decided by the directories of the tree
alone. It lists the regular files below, each once. So files that come and go make no difference but
for themselves.
-/

import AssetPipeline.Proofs.FileTree.Walk

namespace AssetPipeline

namespace Path

variable {base : Path} {name : Name} {names others : List Name}

/-! ### Paths of entries -/

theorem components_child (given : base.text ≠ []) (entry : IsEntry name) :
    (base.child name).components = base.components ++ [.name name] := by
  have relative := isAbsolute_of_isEntry entry
  unfold child
  rw [components_eq, components_eq, moves_join given relative, moves_of_isEntry entry,
    List.map_append, ← List.append_assoc]
  unfold leadComponents componentOf
  rw [lead_join given relative, isAbsolute_join given relative, List.map_singleton,
    if_neg entry.named]

theorem components_foldl_child (given : base.text ≠ []) (entries : ∀ name ∈ names, IsEntry name) :
    (names.foldl child base).components = base.components ++ names.map .name := by
  induction names generalizing base with
  | nil => exact (List.append_nil _).symm
  | cons head rest inductionHypothesis =>
    have entry := entries head List.mem_cons_self
    rw [List.foldl_cons, inductionHypothesis (text_child_ne_nil given entry)
      fun name member => entries name (List.mem_cons_of_mem _ member), components_child given entry,
      List.append_assoc]
    rfl

/-- Different entries below a directory have paths of different components. -/
theorem foldl_child_injective (given : base.text ≠ []) (entries : ∀ name ∈ names, IsEntry name)
    (otherEntries : ∀ name ∈ others, IsEntry name)
    (same : (names.foldl child base).components = (others.foldl child base).components) :
    names = others := by
  rw [components_foldl_child given entries, components_foldl_child given otherEntries,
    List.append_cancel_left_eq] at same
  exact List.map_injective_iff.mpr (fun _ _ => Component.name.inj) same

theorem text_foldl_child_ne_nil (given : base.text ≠ []) (entries : ∀ name ∈ names, IsEntry name) :
    (names.foldl child base).text ≠ [] := by
  induction names generalizing base with
  | nil => exact given
  | cons head rest inductionHypothesis =>
    exact inductionHypothesis (text_child_ne_nil given (entries head List.mem_cons_self))
      fun name member => entries name (List.mem_cons_of_mem _ member)

theorem location_foldl_child (given : base.text ≠ []) (entries : ∀ name ∈ names, IsEntry name)
    (working : Location) :
    (names.foldl child base).location working = base.location working ++ names := by
  induction names generalizing base with
  | nil => exact (List.append_nil _).symm
  | cons head rest inductionHypothesis =>
    have entry := entries head List.mem_cons_self
    rw [List.foldl_cons, inductionHypothesis (text_child_ne_nil given entry)
      fun name member => entries name (List.mem_cons_of_mem _ member), location_child given entry,
      Location.child_append]

theorem fileName?_child (given : base.text ≠ []) (entry : IsEntry name) :
    (base.child name).fileName? = some name := by
  obtain ⟨front, segments, -⟩ := segments_join given (isAbsolute_of_isEntry entry)
  rw [steps_of_isEntry entry] at segments
  refine @fileName?_of_namedSegments _ front _ ?_ entry.named
  unfold namedSegments child
  rw [segments, trimIdle_of_isMove entry.move]

end Path

namespace FileTree

/-! ### What is gathered -/

section Gather

variable {Error Item Key : Type}

/-- Gathering succeeds only when every answer does, and then it leaves nothing out. -/
theorem subset_of_gather {answers : List (Except Error (List Item))} {items : List Item}
    (gathered : gather answers = .ok items) {answer : Except Error (List Item)}
    (member : answer ∈ answers) : ∃ part, answer = .ok part ∧ part ⊆ items := by
  induction answers generalizing items with
  | nil => cases member
  | cons head rest inductionHypothesis =>
    obtain ⟨first, more, rfl, later, rfl⟩ := gather_cons_eq_ok.mp gathered
    rcases List.mem_cons.mp member with rfl | inRest
    · exact ⟨first, rfl, List.subset_append_left _ _⟩
    · obtain ⟨part, same, within⟩ := inductionHypothesis later inRest
      exact ⟨part, same, List.Subset.trans within (List.subset_append_right _ _)⟩

/-- What different keys give has nothing in common, so nothing is gathered twice. -/
theorem nodup_of_gather {keys : List Key} {answer : Key → Except Error (List Item)}
    {owner : Item → Key} (distinct : keys.Nodup)
    (each : ∀ key ∈ keys, ∀ part, answer key = .ok part →
      part.Nodup ∧ ∀ item ∈ part, owner item = key)
    {items : List Item} (gathered : gather (keys.map answer) = .ok items) :
    items.Nodup ∧ ∀ item ∈ items, owner item ∈ keys := by
  induction keys generalizing items with
  | nil =>
    obtain rfl := Except.ok.inj gathered
    exact ⟨List.nodup_nil, fun _ member => (nomatch member)⟩
  | cons key rest inductionHypothesis =>
    obtain ⟨first, more, answered, later, rfl⟩ := gather_cons_eq_ok.mp gathered
    obtain ⟨firstDistinct, firstOwned⟩ := each key List.mem_cons_self first answered
    obtain ⟨moreDistinct, moreOwned⟩ := inductionHypothesis (List.nodup_cons.mp distinct).2
      (fun key member => each key (List.mem_cons_of_mem _ member)) later
    constructor
    · refine List.nodup_append.mpr ⟨firstDistinct, moreDistinct, ?_⟩
      rintro item inFirst other inMore rfl
      exact (List.nodup_cons.mp distinct).1 (firstOwned item inFirst ▸ moreOwned item inMore)
    · intro item member
      rcases List.mem_append.mp member with inFirst | inMore
      · exact firstOwned item inFirst ▸ List.mem_cons_self
      · exact List.mem_cons_of_mem _ (moreOwned item inMore)

end Gather

/-! ### What a walk lists -/

variable {tree : FileTree} {fuel : Nat} {inside : List Visited} {path : Path} {location : Location}
  {files : List Path}

/-- A walk that gets through has listed what is at each entry of a directory. -/
theorem filesBelow_of_filesAt (plain : Plain tree) (given : path.text ≠ [])
    (leads : path.location tree.workingDirectory = location) {name : Name}
    (named : name ∈ tree.names location)
    (answered : tree.filesAt fuel inside path location name = .ok files) :
    (tree.isDirectoryAt (location.child name) = true → tree.Reaches (path.child name)) ∧
      tree.filesBelow fuel inside (path.child name) (location.child name) = .ok files := by
  have entry : IsEntry name := plain.isEntry (mem_names.mp named) name (by simp [Location.child])
  have further := Path.location_child given entry tree.workingDirectory
  rw [leads] at further
  unfold filesAt at answered
  split at answered
  · cases answered
  next place resolved =>
  obtain rfl := resolveEntry_ok plain further resolved
  refine ⟨fun directory => ?_, answered⟩
  unfold resolveEntry at resolved
  rw [isDirectoryAt_iff.mp directory] at resolved
  exact ((locate_eq_ok_iff plain).mp resolved).1

/-- A walk that gets through has gone through every directory below, which it has reached. -/
theorem filesBelow_of_below (plain : Plain tree) (given : path.text ≠ [])
    (leads : path.location tree.workingDirectory = location) (covers : tree.Covers fuel location)
    (listed : tree.filesBelow fuel inside path location = .ok files) {names : List Name}
    (directory : tree.isDirectoryAt (location ++ names) = true) :
    (names ≠ [] → tree.Reaches (names.foldl Path.child path)) ∧ ∃ less around part,
      tree.filesBelow (less + 1) around (names.foldl Path.child path) (location ++ names) =
        .ok part := by
  induction names generalizing fuel inside path location files with
  | nil =>
    rw [List.append_nil] at directory ⊢
    obtain ⟨less, rfl⟩ := covers.eq_succ (by rw [isDirectoryAt_iff.mp directory]; rfl)
    exact ⟨absurd rfl, less, inside, files, listed⟩
  | cons name rest inductionHypothesis =>
    have stands : (tree.node? (location ++ name :: rest)).isSome = true := by
      rw [isDirectoryAt_iff.mp directory]
      rfl
    have above := plain.isDirectoryAt_of_below (List.cons_ne_nil _ _) stands
    obtain ⟨less, rfl⟩ := covers.eq_succ (by rw [isDirectoryAt_iff.mp above]; rfl)
    rw [filesBelow_directory plain above (isClosedAt_of_filesBelow listed)] at listed
    rw [← Location.child_append] at stands directory ⊢
    have named := mem_names.mpr (plain.isSome_of_below stands)
    obtain ⟨part, answered, -⟩ := subset_of_gather listed (List.mem_map_of_mem named)
    obtain ⟨reaches, below⟩ := filesBelow_of_filesAt plain given leads named answered
    have entry : IsEntry name := plain.isEntry (mem_names.mp named) name (by simp [Location.child])
    have further := Path.location_child given entry tree.workingDirectory
    rw [leads] at further
    obtain ⟨reached, found⟩ := inductionHypothesis (Path.text_child_ne_nil given entry) further
      (covers.child name) below directory
    refine ⟨fun _ => ?_, found⟩
    rw [List.foldl_cons]
    by_cases last : rest = []
    · subst last
      rw [List.append_nil] at directory
      exact reaches directory
    · exact reached last

/-- A walk that gets through has reached every directory below. -/
theorem reaches_of_filesBelow (plain : Plain tree) (given : path.text ≠ [])
    (leads : path.location tree.workingDirectory = location) (covers : tree.Covers fuel location)
    (listed : tree.filesBelow fuel inside path location = .ok files) {names : List Name}
    (some : names ≠ []) (directory : tree.isDirectoryAt (location ++ names) = true) :
    tree.Reaches (names.foldl Path.child path) :=
  (filesBelow_of_below plain given leads covers listed directory).1 some

/-- A walk that gets through could list every directory. -/
theorem listable_of_filesBelow (plain : Plain tree) (given : path.text ≠ [])
    (leads : path.location tree.workingDirectory = location) (covers : tree.Covers fuel location)
    (listed : tree.filesBelow fuel inside path location = .ok files) : tree.Listable location := by
  intro names
  refine Bool.eq_false_iff.mpr fun closed => ?_
  have directory : tree.isDirectoryAt (location ++ names) = true :=
    (Bool.and_eq_true_iff.mp closed).1
  obtain ⟨-, less, around, part, found⟩ :=
    filesBelow_of_below plain given leads covers listed directory
  rw [isClosedAt_of_filesBelow found] at closed
  cases closed

/-- A walk gets through exactly when every directory below is reached, and every directory may be
listed. -/
theorem filesBelow_isOk_iff (plain : Plain tree) (given : path.text ≠ [])
    (leads : path.location tree.workingDirectory = location) (covers : tree.Covers fuel location) :
    (∃ files, tree.filesBelow fuel inside path location = .ok files) ↔ tree.Listable location ∧
      ∀ names, names ≠ [] → tree.isDirectoryAt (location ++ names) = true →
        tree.Reaches (names.foldl Path.child path) := by
  constructor
  · rintro ⟨files, listed⟩
    exact ⟨listable_of_filesBelow plain given leads covers listed,
      fun names => reaches_of_filesBelow plain given leads covers listed⟩
  · rintro ⟨listable, reaches⟩
    obtain ⟨files, listed, -⟩ := filesBelow_finds plain given leads covers listable reaches
    exact ⟨files, listed⟩

/-- A walk that gets through lists exactly the regular files below. -/
theorem mem_filesBelow_iff (plain : Plain tree) (given : path.text ≠ [])
    (leads : path.location tree.workingDirectory = location) (covers : tree.Covers fuel location)
    (listed : tree.filesBelow fuel inside path location = .ok files) {file : Path} :
    file ∈ files ↔ ∃ names, (tree.file? (location ++ names)).isSome = true ∧
      file = names.foldl Path.child path := by
  constructor
  · intro member
    obtain ⟨names, -, written, found⟩ := mem_filesBelow plain given leads listed member
    exact ⟨names, found, written⟩
  · rintro ⟨names, found, rfl⟩
    obtain ⟨all, same, holds⟩ := @filesBelow_finds tree plain fuel inside path location given leads
      covers (listable_of_filesBelow plain given leads covers listed)
      fun names => reaches_of_filesBelow plain given leads covers listed
    obtain rfl := Except.ok.inj (listed.symm.trans same)
    exact holds names found

/-- No file is listed twice. -/
theorem nodup_filesBelow (plain : Plain tree) (given : path.text ≠ [])
    (leads : path.location tree.workingDirectory = location)
    (listed : tree.filesBelow fuel inside path location = .ok files) : files.Nodup := by
  induction fuel generalizing inside path location files with
  | zero =>
    obtain rfl := Except.ok.inj listed
    exact List.nodup_nil
  | succ fuel inductionHypothesis =>
    rcases plain.cases location with none | directory | ⟨file, there⟩
    · rw [filesBelow_nothing none] at listed
      obtain rfl := Except.ok.inj listed
      exact List.nodup_nil
    · rw [filesBelow_directory plain (isDirectoryAt_iff.mpr directory)
        (isClosedAt_of_filesBelow listed)] at listed
      -- A file belongs to the entry that is the next name on the way to it.
      let owner (file : Path) : Name :=
        ((file.location tree.workingDirectory).drop location.length).headD []
      suffices each : ∀ name ∈ tree.names location, ∀ part,
          tree.filesAt fuel (⟨location, path⟩ :: inside) path location name = .ok part →
            part.Nodup ∧ ∀ file ∈ part, owner file = name from
        (nodup_of_gather (nodup_names plain.toSound location) each listed).1
      intro name named part answered
      have entry : IsEntry name :=
        plain.isEntry (mem_names.mp named) name (by simp [Location.child])
      have further := Path.location_child given entry tree.workingDirectory
      rw [leads] at further
      have childGiven := Path.text_child_ne_nil given entry
      have below := (filesBelow_of_filesAt plain given leads named answered).2
      refine ⟨inductionHypothesis childGiven further below, fun file member => ?_⟩
      obtain ⟨names, entries, rfl, -⟩ := mem_filesBelow plain childGiven further below member
      unfold owner
      rw [Path.location_foldl_child childGiven entries, further, Location.child_append,
        List.drop_left]
      rfl
    · rw [filesBelow_file there] at listed
      obtain rfl := Except.ok.inj listed
      exact List.nodup_singleton path

end FileTree

end AssetPipeline
