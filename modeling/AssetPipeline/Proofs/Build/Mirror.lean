/-
This file says when a file can be copied, and what copying it leaves. The output root mirrors the
source root as long as what stands below it was copied from below the source root, and is no newer
than what it was copied from. Then no copy is in the way of another: the directories for a copy can
be made, since files below the source root do not stand in each other's way either, and the copy can
be written. So every visit to a file that can be read and written completes. It finds the output
current exactly when that has the content and the time of its source, and copies the file otherwise.
-/

import AssetPipeline.Proofs.Build.Frame
import AssetPipeline.Proofs.Build.Integrity
import AssetPipeline.Proofs.FileTree.Making

namespace AssetPipeline

open FileTree (Plain Keeps Grows)

/-- May its owner read the file and write to it? -/
def File.Opened (file : File) : Prop := file.mode.ownerReads = true ∧ file.mode.ownerWrites = true

instance (file : File) : Decidable file.Opened := inferInstanceAs (Decidable (_ ∧ _))

/-- What stands below `output` was copied from below `origin`. A copy can be written to, it is no
newer than its source, and if it is as old it has the same content. -/
structure Mirrors (origin output : Location) (tree : FileTree) : Prop where
  directory : ∀ names, names ≠ [] → tree.isDirectoryAt (output ++ names) = true →
    tree.isDirectoryAt (origin ++ names) = true
  file : ∀ names copied, tree.file? (output ++ names) = some copied →
    copied.mode.ownerWrites = true ∧ ∃ source, tree.file? (origin ++ names) = some source ∧
      copied.modified.notAfter source.modified = true ∧
      (copied.modified = source.modified → copied.content = source.content)

/-- A file and its copy have the same content and the same time. -/
def InStep (origin output : Location) (tree : FileTree) (names : List Name) : Prop :=
  ∃ source copied, tree.file? (origin ++ names) = some source ∧
    tree.file? (output ++ names) = some copied ∧ copied.content = source.content ∧
      copied.modified = source.modified

section Mirrors

variable {origin output : Location} {tree later : FileTree} {names : List Name}

theorem inStep_iff : InStep origin output tree names ↔
    ((tree.file? (origin ++ names)).any fun source =>
      (tree.file? (output ++ names)).any fun copied =>
        decide (copied.content = source.content ∧ copied.modified = source.modified)) = true := by
  simp only [InStep, Option.any_eq_true, decide_eq_true_eq]
  refine exists_congr fun source => ⟨?_, ?_⟩
  · rintro ⟨copied, there, stands, same⟩
    exact ⟨there, copied, stands, same⟩
  · rintro ⟨there, copied, stands, same⟩
    exact ⟨copied, there, stands, same⟩

instance : Decidable (InStep origin output tree names) := decidable_of_iff' _ inStep_iff

theorem inStep_congr (source : later.file? (origin ++ names) = tree.file? (origin ++ names))
    (copied : later.file? (output ++ names) = tree.file? (output ++ names)) :
    InStep origin output later names ↔ InStep origin output tree names := by
  unfold InStep
  rw [source, copied]

/-- A copy is in step when its source is no newer. -/
theorem Mirrors.inStep_iff (mirrors : Mirrors origin output tree) :
    InStep origin output tree names ↔ ∃ source copied,
      tree.file? (origin ++ names) = some source ∧ tree.file? (output ++ names) = some copied ∧
        source.modified.notAfter copied.modified = true := by
  constructor
  · rintro ⟨source, copied, there, stands, -, time⟩
    exact ⟨source, copied, there, stands, time ▸ Instant.notAfter_refl _⟩
  · rintro ⟨source, copied, there, stands, noNewer⟩
    obtain ⟨-, original, same, noOlder, content⟩ := mirrors.file names copied stands
    obtain rfl := Option.some.inj (there.symm.trans same)
    have time := Instant.notAfter_antisymm noOlder noNewer
    exact ⟨source, copied, there, stands, content time, time⟩

/-- More copies and more directories, each of what stands below the source root, leave a mirror. -/
theorem Mirrors.extend (mirrors : Mirrors origin output tree)
    (below : ∀ names, later.node? (origin ++ names) = tree.node? (origin ++ names))
    (directories : ∀ names, later.isDirectoryAt (output ++ names) = true →
      tree.isDirectoryAt (output ++ names) = true ∨ tree.isDirectoryAt (origin ++ names) = true)
    (files : ∀ names copied, later.file? (output ++ names) = some copied →
      tree.file? (output ++ names) = some copied ∨ copied.mode.ownerWrites = true ∧
        ∃ source, tree.file? (origin ++ names) = some source ∧
          copied.content = source.content ∧ copied.modified = source.modified) :
    Mirrors origin output later where
  directory names some there := by
    rw [FileTree.isDirectoryAt_iff, below, ← FileTree.isDirectoryAt_iff]
    rcases directories names there with before | inner
    · exact mirrors.directory names some before
    · exact inner
  file names copied there := by
    rw [FileTree.file?_congr (below names)]
    rcases files names copied there with before | ⟨writes, source, found, content, time⟩
    · exact mirrors.file names copied before
    · exact ⟨writes, source, found, time ▸ Instant.notAfter_refl _, fun _ => content⟩

/-- On the way down to a file nothing is in the way of its copy. -/
theorem Mirrors.free (mirrors : Mirrors origin output tree) (plain : Plain tree)
    {part rest : List Name} (below : rest ≠ [])
    (stands : (tree.node? (origin ++ (part ++ rest))).isSome = true) :
    tree.node? (output ++ part) = none ∨ tree.isDirectoryAt (output ++ part) = true := by
  rcases plain.cases (output ++ part) with vacant | directory | ⟨copied, there⟩
  · exact Or.inl vacant
  · exact Or.inr (FileTree.isDirectoryAt_iff.mpr directory)
  · obtain ⟨-, source, found, -⟩ := mirrors.file part copied (FileTree.file?_eq_some_iff.mpr there)
    rw [← List.append_assoc] at stands
    have directory := plain.isDirectoryAt_of_below below stands
    rw [FileTree.isDirectoryAt_iff, FileTree.file?_eq_some_iff.mp found] at directory
    cases directory

/-- Where a file stands, its copy can be written. -/
theorem Mirrors.writable (mirrors : Mirrors origin output tree) (plain : Plain tree)
    (below : names ≠ []) (there : (tree.file? (origin ++ names)).isSome = true) :
    tree.node? (output ++ names) = none ∨
      ∃ old, tree.file? (output ++ names) = some old ∧ old.mode.ownerWrites = true := by
  rcases plain.cases (output ++ names) with vacant | directory | ⟨copied, stands⟩
  · exact Or.inl vacant
  · have inner := mirrors.directory names below (FileTree.isDirectoryAt_iff.mpr directory)
    obtain ⟨file, found⟩ := Option.isSome_iff_exists.mp there
    rw [FileTree.isDirectoryAt_iff, FileTree.file?_eq_some_iff.mp found] at inner
    cases inner
  · have stands := FileTree.file?_eq_some_iff.mpr stands
    exact Or.inr ⟨copied, stands, (mirrors.file names copied stands).1⟩

end Mirrors

namespace Session

variable {State : Type} {session : Session State} {origin output : Location} {relative root : Path}
  {front : List Text} {name : Name} {machine : Machine State} {tree later : FileTree}

/-! ### Files that can be copied -/

/-- What lies within the limits as part of a longer path does so itself. -/
theorem short_of_fits_join (given : root.text ≠ []) (below : relative.isAbsolute = false)
    (fits : (root.join relative).Fits) :
    ∀ move ∈ relative.moves, move.byteLength ≤ FileTree.longestName := by
  obtain ⟨start, steps⟩ := Path.steps_join given below
  intro move member
  refine fits.short move ?_
  rw [steps]
  exact List.mem_append_right _ (List.mem_filter.mp member).1

theorem reaches_of_fits (plain : Plain tree) (reaches : tree.Reaches root)
    (listed : Listed relative front name) (fits : (root.join relative).Fits)
    (stands : (tree.node? (root.location tree.workingDirectory ++ relative.moves)).isSome = true) :
    tree.Reaches (root.join relative) :=
  reaches.inner plain.toSound listed.inner listed.named fits.usable
    (short_of_fits_join reaches.usable.given listed.inner.isAbsolute fits) stands

/-- Within the limits, the file at a path is the one at its place below the root. -/
theorem fileAt?_of_fits (plain : Plain tree) (reaches : tree.Reaches root)
    (listed : Listed relative front name) (fits : (root.join relative).Fits) :
    tree.fileAt? (root.join relative) =
      tree.file? (root.location tree.workingDirectory ++ relative.moves) :=
  FileTree.fileAt?_join plain reaches listed.inner listed.named fits.usable
    (short_of_fits_join reaches.usable.given listed.inner.isAbsolute fits)

/-- A file below the source root that can be copied. -/
structure Copyable (session : Session State) (origin : Location) (tree : FileTree)
    (relative : Path) : Prop where
  listed : ∃ front name, Listed relative front name
  there : ∃ file, tree.file? (origin ++ relative.moves) = some file ∧ file.Opened
  source : (session.sourceOf relative).Fits
  target : (session.targetOf .copy relative).Fits

theorem Copyable.mono (copyable : session.Copyable origin tree relative)
    (same : later.file? (origin ++ relative.moves) = tree.file? (origin ++ relative.moves)) :
    session.Copyable origin later relative :=
  ⟨copyable.listed, same ▸ copyable.there, copyable.source, copyable.target⟩

theorem Copyable.isSome (copyable : session.Copyable origin tree relative) :
    (tree.file? (origin ++ relative.moves)).isSome = true := by
  obtain ⟨file, there, -⟩ := copyable.there
  rw [there]
  rfl

/-! ### Room for a copy -/

/-- The way from the output root to a copy, or to the directory that holds it. -/
theorem way_of_target (ready : session.Ready origin output tree)
    (listed : Listed relative front name) (fits : (session.targetOf .copy relative).Fits) :
    tree.Way session.layout.outputRoot.moves relative.moves (session.targetOf .copy relative) := by
  have given := ready.outputReaches.usable.given
  have start := startFrom_targetOf given listed.inner .copy tree.workingDirectory
  obtain ⟨before, steps⟩ := Path.steps_join given listed.inner.isAbsolute
  rw [listed.inner.steps, ← List.append_assoc] at steps
  exact {
    usable := fits.usable
    moves := Path.moves_join given listed.inner.isAbsolute
    ends := Or.inr ⟨_, name, steps, listed.inner.entry.move⟩
    passes := start ▸ ready.outputReaches.passes.filter
    directory := by
      rw [start, ← Path.location_eq_moves, ready.outputAt]
      exact ready.outputDirectory
    entries := fun move member => ⟨listed.inner.isEntry listed.named move member,
      short_of_fits_join given listed.inner.isAbsolute fits move member⟩ }

/-- Room can be made for every copy. -/
theorem room_of_copyable (ready : session.Ready origin output tree)
    (mirrors : Mirrors origin output tree) (copyable : session.Copyable origin tree relative) :
    (tree.makeParent (session.targetOf .copy relative)).2 = .ok () := by
  obtain ⟨front, name, listed⟩ := copyable.listed
  have way := way_of_target ready listed copyable.target
  have start := startFrom_targetOf ready.outputReaches.usable.given listed.inner .copy
    tree.workingDirectory
  have moves : relative.moves = front.filter Path.isMove ++ [name] := listed.inner.moves
  have stands := FileTree.node?_isSome_of_file?_isSome copyable.isSome
  rw [moves] at way stands
  refine FileTree.makeParent_ok ready.plain fun parent above given =>
    ⟨way.parent above given, fun part within => ?_⟩
  obtain ⟨rest, whole⟩ := within
  rw [FileTree.Way.startFrom_parent above given, start, ← Path.location_eq_moves, ready.outputAt]
  refine mirrors.free ready.plain (List.concat_ne_nil name rest) ?_
  rw [← List.append_assoc part, whole]
  exact stands

theorem Ready.rooted (ready : session.Ready origin output tree) : session.Rooted output tree := by
  rw [← ready.outputAt]
  refine rooted_of_isDirectory ready.plain ((FileTree.isDirectory_iff ready.plain).mpr
    ⟨ready.outputReaches, ?_⟩)
  rw [ready.outputAt]
  exact ready.outputDirectory

/-- The directory that holds a copy is there once there is room for it. -/
theorem isDirectoryAt_withRoom (ready : session.Ready origin output machine.tree)
    (listed : Listed relative front name)
    (room : (machine.tree.makeParent (session.targetOf .copy relative)).2 = .ok ()) :
    (session.withRoom .copy relative machine).tree.isDirectoryAt
      (output ++ front.filter Path.isMove) = true := by
  obtain ⟨-, roomy⟩ := ready.withRoom listed .copy
  have holder := ready.rooted.isDirectoryAt_holder roomy.rooted listed.inner room
  have entries : ∀ move ∈ front.filter Path.isMove, IsEntry move := fun move member =>
    listed.inner.isEntry listed.named move
      (listed.inner.moves ▸ List.mem_append_left _ member)
  rwa [holderOf_outputOf listed.inner, ← Location.along_filter,
    Location.along_of_isEntry entries] at holder

/-- No directory was made where the copy goes. -/
theorem writable_withRoom (ready : session.Ready origin output machine.tree)
    (mirrors : Mirrors origin output machine.tree) (listed : Listed relative front name)
    (copyable : session.Copyable origin machine.tree relative) :
    (session.withRoom .copy relative machine).tree.node? (output ++ relative.moves) = none ∨
      ∃ old, (session.withRoom .copy relative machine).tree.file? (output ++ relative.moves) =
        some old ∧ old.mode.ownerWrites = true := by
  obtain ⟨grows, -⟩ := ready.withRoom listed .copy
  have below : relative.moves ≠ [] := by simp [listed.inner.moves]
  rcases mirrors.writable ready.plain below copyable.isSome with vacant | ⟨old, stood, writes⟩
  · rcases grows.node (output ++ relative.moves) with same | ⟨-, -, made, part, place⟩
    · exact Or.inl (same.trans vacant)
    · have shorter := part.length_le
      rw [← List.append_cancel_left place, listed.inner.moves, List.length_append,
        List.length_singleton] at shorter
      omega
  · exact Or.inr ⟨old, (grows.file?_eq _).trans stood, writes⟩

/-! ### Visits that copy -/

/-- A file is found current exactly when its copy is in step. -/
theorem decisionOf_copy (ready : session.Ready origin output machine.tree)
    (mirrors : Mirrors origin output machine.tree)
    (copyable : session.Copyable origin machine.tree relative) :
    session.decisionOf .copy relative machine = .upToDate ↔
      InStep origin output machine.tree relative.moves := by
  obtain ⟨front, name, listed⟩ := copyable.listed
  obtain ⟨grows, roomy⟩ := ready.withRoom listed .copy
  have sources := fileAt?_of_fits roomy.plain roomy.sourceReaches listed copyable.source
  have targets := fileAt?_of_fits roomy.plain roomy.outputReaches listed copyable.target
  rw [roomy.sourceAt, grows.file?_eq] at sources
  rw [roomy.outputAt, grows.file?_eq] at targets
  unfold decisionOf
  rw [FileTree.decision_eq_upToDate_iff, mirrors.inStep_iff]
  show (∃ sourceFile targetFile, FileTree.fileAt? _ (session.layout.sourceRoot.join relative) = _ ∧
    FileTree.fileAt? _ (session.layout.outputRoot.join relative) = _ ∧ _) ↔ _
  rw [sources, targets]

/-- Once there is room, a file is copied with its content and its mode. -/
theorem copyFile_of_copyable (ready : session.Ready origin output tree)
    (apart : Apart origin output) (listed : Listed relative front name)
    (copyable : session.Copyable origin tree relative)
    (holder : tree.isDirectoryAt (output ++ front.filter Path.isMove) = true)
    (free : tree.node? (output ++ relative.moves) = none ∨
      ∃ old, tree.file? (output ++ relative.moves) = some old ∧ old.mode.ownerWrites = true) :
    ∃ source copied, tree.file? (origin ++ relative.moves) = some source ∧ source.Opened ∧
      tree.copyFile (session.sourceOf relative) (session.targetOf .copy relative) = .ok copied ∧
      Keeps tree copied (· = output ++ relative.moves) ∧
      tree.isDirectoryAt (output ++ relative.moves) = false ∧
      copied.file? (output ++ relative.moves) = some ⟨source.content, tree.clock, source.mode⟩ := by
  obtain ⟨source, there, opened⟩ := copyable.there
  have given := ready.outputReaches.usable.given
  have way := way_of_target ready listed copyable.target
  have start := startFrom_targetOf given listed.inner .copy tree.workingDirectory
  have placed : (session.targetOf .copy relative).location tree.workingDirectory =
      output ++ relative.moves := listed.placeOf_eq ready listed.inner.entry.named
  have sourceReaches := reaches_of_fits ready.plain ready.sourceReaches listed copyable.source
    (ready.sourceAt.symm ▸ node?_isSome_of_file? there)
  have entered : tree.Entered (session.targetOf .copy relative) name := by
    rw [listed.inner.moves] at way
    refine way.entered ready.plain ?_
    rw [start, ← Path.location_eq_moves, ready.outputAt]
    exact holder
  rw [← placed] at free ⊢
  have sourceAt := location_sourceOf ready listed
  rw [← sourceAt] at there
  have differs : (session.sourceOf relative).location tree.workingDirectory ≠
      (session.targetOf .copy relative).location tree.workingDirectory := by
    rw [sourceAt, placed]
    exact apart.ne _ _
  obtain ⟨copied, done, stands⟩ := FileTree.copyFile_of_entered ready.plain sourceReaches there
    opened.1 entered differs free
  obtain ⟨keeps, leaf, -⟩ := FileTree.copyFile_ok ready.plain done
  exact ⟨source, copied, sourceAt ▸ there, opened, done, keeps, leaf, stands⟩

/-- A copy is given the time of its source. -/
theorem copyModified_of_copyable (ready : session.Ready origin output tree)
    (listed : Listed relative front name) (copyable : session.Copyable origin tree relative)
    {source copied : File} (there : tree.file? (origin ++ relative.moves) = some source)
    (stands : tree.file? (output ++ relative.moves) = some copied) :
    ∃ stamped,
      tree.copyModified (session.sourceOf relative) (session.targetOf .copy relative) =
        .ok stamped ∧ Keeps tree stamped (· = output ++ relative.moves) ∧
      stamped.file? (output ++ relative.moves) =
        some { copied with modified := source.modified } := by
  have sourceReaches := reaches_of_fits ready.plain ready.sourceReaches listed copyable.source
    (ready.sourceAt.symm ▸ node?_isSome_of_file? there)
  have targetReaches := reaches_of_fits ready.plain ready.outputReaches listed copyable.target
    (ready.outputAt.symm ▸ node?_isSome_of_file? stands)
  obtain ⟨stamped, done⟩ :=
    FileTree.copyModified_of_reaches ready.plain sourceReaches targetReaches
  have done : tree.copyModified (session.sourceOf relative) (session.targetOf .copy relative) =
      .ok stamped := done
  obtain ⟨-, -, keeps, -, stamp⟩ := FileTree.copyModified_ok ready.plain done
  have placed : (session.targetOf .copy relative).location tree.workingDirectory =
      output ++ relative.moves := listed.placeOf_eq ready listed.inner.entry.named
  have time : tree.modifiedAt (origin ++ relative.moves) = source.modified := by
    unfold FileTree.modifiedAt
    rw [FileTree.file?_eq_some_iff.mp there]
  rw [placed, location_sourceOf ready listed, time] at stamp
  rw [placed] at keeps
  exact ⟨stamped, done, keeps, stamp copied stands⟩

/-- What a visit that copies leaves. -/
structure Refreshed (session : Session State) (origin output : Location) (relative : Path)
    (tree later : FileTree) : Prop where
  ready : session.Ready origin output later
  working : later.workingDirectory = tree.workingDirectory
  /-- Nothing has changed below the source root. -/
  below : ∀ names, later.node? (origin ++ names) = tree.node? (origin ++ names)
  closed : ∀ place, later.isClosedAt place = tree.isClosedAt place
  /-- No other output has come, gone or changed. -/
  others : ∀ names, names ≠ relative.moves →
    later.file? (output ++ names) = tree.file? (output ++ names)
  mirrors : Mirrors origin output later
  inStep : InStep origin output later relative.moves

/-- It is enough that nothing but the copy differs once there is room, and that the copy is in
step. -/
theorem refreshed_of_keeps (ready : session.Ready origin output machine.tree)
    (apart : Apart origin output) (mirrors : Mirrors origin output machine.tree)
    (listed : Listed relative front name)
    (keeps : Keeps (session.withRoom .copy relative machine).tree later
      (· = output ++ relative.moves))
    (leaf : (session.withRoom .copy relative machine).tree.isDirectoryAt
      (output ++ relative.moves) = false) {source copied : File}
    (there : machine.tree.file? (origin ++ relative.moves) = some source)
    (stands : later.file? (output ++ relative.moves) = some copied)
    (writes : copied.mode.ownerWrites = true) (content : copied.content = source.content)
    (time : copied.modified = source.modified) :
    session.Refreshed origin output relative machine.tree later := by
  obtain ⟨grows, roomy⟩ := ready.withRoom listed .copy
  have below : ∀ names, later.node? (origin ++ names) = machine.tree.node? (origin ++ names) :=
    fun names => (keeps.elsewhere _ (apart.ne _ _)).trans (below_of_grows apart grows names)
  have others : ∀ names, names ≠ relative.moves →
      later.file? (output ++ names) = machine.tree.file? (output ++ names) := by
    intro names differs
    rw [FileTree.file?_congr (keeps.elsewhere _ (by simpa using differs)), grows.file?_eq]
  exact {
    ready := roomy.mono keeps.plain keeps.working fun _ => keeps.isDirectoryAt leaf
    working := keeps.working.trans grows.working
    below := below
    closed := fun place => (keeps.closed place).trans (grows.closed place)
    others := others
    mirrors := by
      refine mirrors.extend below (fun names directory => ?_) fun names other found => ?_
      · by_cases same : names = relative.moves
        · rw [same, FileTree.isDirectoryAt_iff, FileTree.file?_eq_some_iff.mp stands] at directory
          cases directory
        · rw [FileTree.isDirectoryAt_iff, keeps.elsewhere _ (by simpa using same)] at directory
          rcases grows.node (output ++ names) with kept | ⟨-, -, made, part, place⟩
          · exact Or.inl (FileTree.isDirectoryAt_iff.mpr (kept ▸ directory))
          · obtain ⟨rest, whole⟩ := part
            obtain rfl := List.append_cancel_left place
            have stood := node?_isSome_of_file? there
            rw [listed.inner.moves, ← whole, List.append_assoc, ← List.append_assoc] at stood
            exact Or.inr (ready.plain.isDirectoryAt_of_below (by simp) stood)
      · by_cases same : names = relative.moves
        · obtain rfl := Option.some.inj (stands.symm.trans (same ▸ found))
          exact Or.inr ⟨writes, source, same ▸ there, content, time⟩
        · exact Or.inl (others names same ▸ found)
    inStep := ⟨source, copied, FileTree.file?_congr (below _) ▸ there, stands, content, time⟩ }

/-- A file that can be copied is found current when its copy is in step, and is copied otherwise.
Neither fails. -/
theorem refreshed_of_visit (ready : session.Ready origin output machine.tree)
    (apart : Apart origin output) (mirrors : Mirrors origin output machine.tree)
    (copyable : session.Copyable origin machine.tree relative) :
    (session.visit .copy relative machine).value =
        .ok ⟨relative, relative, session.decisionOf .copy relative machine⟩ ∧
      session.Refreshed origin output relative machine.tree
        (session.visit .copy relative machine).machine.tree := by
  obtain ⟨front, name, listed⟩ := copyable.listed
  obtain ⟨grows, roomy⟩ := ready.withRoom listed .copy
  have room := room_of_copyable ready mirrors copyable
  have stillCopyable := copyable.mono (grows.file?_eq _)
  obtain ⟨source, copied, there, opened, done, keeps, leaf, stands⟩ :=
    copyFile_of_copyable roomy apart listed stillCopyable
      (isDirectoryAt_withRoom ready listed room) (writable_withRoom ready mirrors listed copyable)
  have copiedReady := roomy.mono keeps.plain keeps.working fun _ => keeps.isDirectoryAt leaf
  have same : copied.file? (origin ++ relative.moves) =
      (session.withRoom .copy relative machine).tree.file? (origin ++ relative.moves) :=
    FileTree.file?_congr (keeps.elsewhere _ (apart.ne _ _))
  obtain ⟨stamped, stamps, restores, final⟩ := copyModified_of_copyable copiedReady listed
    (stillCopyable.mono same) (same.trans there) stands
  rw [grows.file?_eq] at there
  have produced : session.producing .copy relative machine =
      .pure (.ok ()) { session.withRoom .copy relative machine with tree := copied } := by
    unfold producing produce copy
    dsimp only
    rw [done]
  have course := session.visit_course .copy relative machine
  generalize (session.visit .copy relative machine).value = value at course ⊢
  generalize (session.visit .copy relative machine).machine = left at course ⊢
  cases course with
  | noRoom failed =>
    rw [room] at failed
    cases failed
  | current _ decided =>
    obtain ⟨source, old, found, stood, content, time⟩ :=
      (decisionOf_copy ready mirrors copyable).mp decided
    rw [decided]
    refine ⟨rfl, refreshed_of_keeps ready apart mirrors listed (Keeps.refl roomy.plain _) leaf found
      ((grows.file?_eq _).trans stood) (mirrors.file _ _ stood).1 content time⟩
  | notProduced _ _ failed =>
    rw [produced] at failed
    cases failed
  | notStamped _ _ _ failed =>
    rw [produced] at failed
    cases stamps.symm.trans failed
  | rebuilt _ decided _ finished =>
    rw [produced] at finished ⊢
    obtain rfl := Except.ok.inj (stamps.symm.trans finished)
    rw [decided]
    exact ⟨rfl, refreshed_of_keeps ready apart mirrors listed (keeps.trans restores) leaf there
      final opened.2 rfl rfl⟩

end Session

end AssetPipeline
