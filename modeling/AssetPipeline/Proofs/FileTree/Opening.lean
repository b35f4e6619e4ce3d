/-
This file says what opening a file to write leaves behind in a tree that may hold links. The file is
where the path leads, through links or not: it is new or it is empty, and from then on the path
leads to it. Nothing else changes, so filling the file changes nothing else either, and a file that
may be written can be opened once more by any path that leads to it.
-/

import AssetPipeline.Proofs.FileTree.Changes
import AssetPipeline.Proofs.FileTree.Trails

namespace AssetPipeline.FileTree

variable {tree later : FileTree} {location : Location}

theorem Vacancy.room (vacancy : tree.Vacancy location) : Room tree location where
  below := by
    rintro rfl
    exact nomatch vacancy.none
  entries := vacancy.entries
  housed := vacancy.housed
  leaf := by simp [isDirectoryAt, vacancy.none]

theorem Room.sound (room : Room tree location) (sound : Sound tree) (file : File) :
    Sound (tree.put location (.file file)) :=
  sound.put room.below room.entries room.housed room.replaces

theorem refiled_put (below : location ≠ [])
    (before : tree.node? location = none ∨ ∃ other, tree.node? location = some (.file other))
    (file : File) : Refiled tree (tree.put location (.file file)) (· = location) where
  working := rfl
  node place := by
    by_cases same : place = location
    · subst same
      exact Or.inr ⟨rfl, ⟨file, node?_put_self tree below _⟩, before⟩
    · exact Or.inl (node?_put_of_ne tree same _)
  closed := isClosedAt_put tree below fun directory => by
    rw [isDirectoryAt_iff] at directory
    rcases before with none | ⟨other, there⟩
    · exact nomatch none.symm.trans directory
    · exact nomatch there.symm.trans directory

/-- What writing a file by a path leaves behind. -/
structure Rewritten (tree later : FileTree) (path : Path) (location : Location) (content : Bytes) :
    Prop where
  sound : Sound later
  refiled : Refiled tree later (· = location)
  /-- The file holds what was written, and may be written again. -/
  file : ∃ file, later.file? location = some file ∧ file.content = content ∧
    file.mode.ownerWrites = true
  leads : later.locate path = .ok location

/-- What opening a file to write leaves behind: an empty file where the path leads. -/
structure Opened (tree later : FileTree) (path : Path) (location : Location) (mode : Mode) :
    Prop where
  sound : Sound later
  refiled : Refiled tree later (· = location)
  file : later.file? location = some ⟨[], tree.clock, mode⟩
  leads : later.locate path = .ok location

/-- A file that is opened is new and has the mode that was wished for, or its owner may write. -/
theorem opened_of_create (sound : Sound tree) {path : Path} {wished : Mode}
    (created : tree.create path wished = .ok (later, location)) :
    ∃ mode, Opened tree later path location mode ∧
      (mode = wished ∨ mode.ownerWrites = true) := by
  unfold create at created
  split at created
  · cases created
  · next place placed =>
    obtain ⟨rfl, rfl⟩ := Prod.mk.inj (Except.ok.inj created)
    unfold FileTree.place at placed
    have usable := usable_of_placeOfSteps placed
    rw [placeOfSteps_eq tree _ usable] at placed
    obtain ⟨vacancy, leads⟩ := arrives_of_follow sound (by decide)
      (fun _ => Path.separator_not_mem_of_mem_steps) placed
    have room := vacancy.room
    have refiled := refiled_put room.below (Or.inl vacancy.none) ⟨[], tree.clock, wished⟩
    have there := @file?_put tree _ room.below ⟨[], tree.clock, wished⟩
    refine ⟨wished, ⟨room.sound sound _, refiled, there, ?_⟩, Or.inl rfl⟩
    refine (locate_eq_ok_iff_trail (room.sound sound _)).mpr ⟨usable, ?_⟩
    exact leads _ _ refiled (by rw [there]; rfl)
  · next place placed =>
    split at created
    · next file there =>
      split at created
      · next writable =>
        obtain ⟨rfl, rfl⟩ := Prod.mk.inj (Except.ok.inj created)
        unfold FileTree.place at placed
        have usable := usable_of_placeOfSteps placed
        rw [placeOfSteps_eq tree _ usable] at placed
        obtain ⟨left, trail⟩ := arrives_of_follow sound (by decide)
          (fun _ => Path.separator_not_mem_of_mem_steps) placed
        have room := Room.of_node sound there
        have refiled := refiled_put room.below (Or.inr ⟨file, there⟩) ⟨[], tree.clock, file.mode⟩
        refine ⟨file.mode, ⟨room.sound sound _, refiled, file?_put room.below _, ?_⟩,
          Or.inr writable⟩
        exact (locate_eq_ok_iff_trail (room.sound sound _)).mpr ⟨usable, left, refiled.trail trail⟩
      · cases created
    · cases created
    · cases created

theorem rewritten_of_create (sound : Sound tree) {path : Path} {mode : Mode}
    (writes : mode.ownerWrites = true)
    (created : tree.create path mode = .ok (later, location)) :
    Rewritten tree later path location [] := by
  obtain ⟨taken, opened, given⟩ := opened_of_create sound created
  have writable : taken.ownerWrites = true := given.elim (fun same => same ▸ writes) id
  exact ⟨opened.sound, opened.refiled, ⟨_, opened.file, rfl, writable⟩, opened.leads⟩

/-- Filling the file that was opened writes it. -/
theorem Rewritten.fill {path : Path} {before : Bytes}
    (opened : Rewritten tree later path location before) (content : Bytes) :
    Rewritten tree (later.fill location content) path location content := by
  obtain ⟨file, there, -, writable⟩ := opened.file
  have stands := file?_eq_some_iff.mp there
  have room := Room.of_node opened.sound stands
  have refiled := refiled_put room.below (Or.inr ⟨file, stands⟩) { file with content := content }
  have sound := room.sound opened.sound { file with content := content }
  unfold FileTree.fill
  rw [there]
  exact ⟨sound, opened.refiled.trans refiled, ⟨_, file?_put room.below _, rfl, writable⟩,
    refiled.locate opened.sound sound opened.leads⟩

/-- A path that leads to a file is taken to that file when it is opened. -/
theorem place_of_locate (sound : Sound tree) {path : Path} {file : File}
    (located : tree.locate path = .ok location) (there : tree.file? location = some file) :
    tree.place .newFile path = .ok (.found location) := by
  obtain ⟨usable, left, trail⟩ := (locate_eq_ok_iff_trail sound).mp located
  unfold FileTree.place
  rw [placeOfSteps_eq tree _ usable]
  exact follow_of_trail (by decide) trail fun _ =>
    (Room.of_node sound (file?_eq_some_iff.mp there)).leaf

/-- A file that is there and may be written can be opened by any path that leads to it. -/
theorem create_of_locate (sound : Sound tree) {path : Path} {file : File} (mode : Mode)
    (located : tree.locate path = .ok location) (there : tree.file? location = some file)
    (writable : file.mode.ownerWrites = true) : tree.create path mode =
      .ok (tree.put location (.file ⟨[], tree.clock, file.mode⟩), location) := by
  unfold create
  rw [place_of_locate sound located there]
  dsimp only
  rw [file?_eq_some_iff.mp there]
  exact if_pos writable

/-- A file that is there and may not be written cannot be opened. -/
theorem create_denied (sound : Sound tree) {path : Path} {file : File} (mode : Mode)
    (located : tree.locate path = .ok location) (there : tree.file? location = some file)
    (writable : file.mode.ownerWrites = false) :
    tree.create path mode = .error .permissionDenied := by
  unfold create
  rw [place_of_locate sound located there]
  dsimp only
  rw [file?_eq_some_iff.mp there]
  exact if_neg (by simp [writable])

end AssetPipeline.FileTree
