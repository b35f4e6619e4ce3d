/-
This file says what a copy leaves behind in a tree that may hold links, and when there can be
another. A copy has the content and the mode of its source, and takes its time afterwards, so the
two are the same file twice. A file that is there already is written over only if its owner may
write it, whatever the source allows.
-/

import AssetPipeline.Build.Freshness
import AssetPipeline.Proofs.FileTree.Soundness

namespace AssetPipeline.FileTree

variable {tree later : FileTree} {source target : Path} {file old : File}

/-- A file that is put elsewhere leaves what a path leads to. -/
theorem Refiled.fileAt? (sound : Sound tree) (other : Sound later) {place location : Location}
    (refiled : Refiled tree later (· = place)) {path : Path}
    (located : tree.locate path = .ok location) (apart : location ≠ place) :
    later.fileAt? path = tree.fileAt? path := by
  rw [fileAt?_of_located located, fileAt?_of_located (refiled.locate sound other located),
    file?_congr (refiled.elsewhere apart)]

/-- A copy that was due leaves its source alone and has the content and the mode of it. -/
theorem copied_of_copyFile (sound : Sound tree) (due : tree.decision source target = .rebuild)
    (copied : tree.copyFile source target = .ok later) :
    ∃ file, tree.fileAt? source = some file ∧ file.mode.ownerReads = true ∧
      later.fileAt? source = some file ∧
      later.fileAt? target = some { file with modified := tree.clock } := by
  have soundLater := sound.copyFile copied
  unfold copyFile at copied
  split at copied
  · cases copied
  next origin located =>
  split at copied
  · cases copied
  next file there =>
  split at copied
  · next reads =>
    split at copied
    · cases copied
    next opened place created =>
    obtain rfl := Except.ok.inj copied
    obtain ⟨mode, opens, -⟩ := opened_of_create sound created
    have found : tree.fileAt? source = some file := (fileAt?_of_located located).trans there
    have apart : origin ≠ place := by
      -- A target that leads to the source would have been current.
      rintro rfl
      have same : tree.fileAt? target = some file := (fileAt?_of_located
        (opens.refiled.locate_earlier sound opens.sound opens.leads
          (node?_isSome_of_file?_isSome (by rw [there]; rfl)))).trans there
      have current : tree.decision source target = .upToDate :=
        decision_eq_upToDate_iff.mpr ⟨file, file, found, same, Instant.notAfter_refl _⟩
      rw [current] at due
      cases due
    have kept : opened.file? origin = some file :=
      (file?_congr (opens.refiled.elsewhere apart)).trans there
    rw [kept] at soundLater ⊢
    have stands := file?_eq_some_iff.mp opens.file
    have room := Room.of_node opens.sound stands
    have filled := refiled_put room.below (Or.inr ⟨_, stands⟩)
      ⟨file.content, tree.clock, file.mode⟩
    refine ⟨file, found, reads, ?_, ?_⟩
    · exact ((opens.refiled.trans filled).fileAt? sound soundLater located apart).trans found
    · exact (fileAt?_of_located (filled.locate opens.sound soundLater opens.leads)).trans
        (file?_put room.below _)
  · cases copied

/-- A copy of a file that its owner may read opens the target and fills it. -/
theorem copyFile_of_fileAt? (target : Path) (found : tree.fileAt? source = some file)
    (reads : file.mode.ownerReads = true) : ∃ filled : FileTree × Location → FileTree,
      tree.copyFile source target = (tree.create target file.mode.created).map filled := by
  obtain ⟨origin, located, there⟩ := fileAt?_eq_some_iff_locate.mp found
  refine ⟨fun (opened, place) => opened.put place
    (.file ⟨((opened.file? origin).map File.content).getD [], tree.clock, file.mode⟩), ?_⟩
  unfold copyFile
  rw [located]
  dsimp only
  rw [there]
  dsimp only
  rw [if_pos reads]
  cases tree.create target file.mode.created <;> rfl

/-- A file that its owner may write is written over. -/
theorem copyFile_of_writable (sound : Sound tree) (found : tree.fileAt? source = some file)
    (reads : file.mode.ownerReads = true) (there : tree.fileAt? target = some old)
    (writable : old.mode.ownerWrites = true) :
    ∃ later, tree.copyFile source target = .ok later := by
  obtain ⟨filled, opens⟩ := copyFile_of_fileAt? target found reads
  obtain ⟨place, located, stands⟩ := fileAt?_eq_some_iff_locate.mp there
  rw [opens, create_of_locate sound _ located stands writable]
  exact ⟨_, rfl⟩

/-- A file that its owner may not write is not. -/
theorem copyFile_of_not_writable (sound : Sound tree) (found : tree.fileAt? source = some file)
    (reads : file.mode.ownerReads = true) (there : tree.fileAt? target = some old)
    (writable : old.mode.ownerWrites = false) :
    tree.copyFile source target = .error .permissionDenied := by
  obtain ⟨filled, opens⟩ := copyFile_of_fileAt? target found reads
  obtain ⟨place, located, stands⟩ := fileAt?_eq_some_iff_locate.mp there
  rw [opens, create_denied sound _ located stands writable]
  rfl

/-- The time of one file can always be passed on to another. -/
theorem copyModified_of_fileAt? (sound : Sound tree) (found : tree.fileAt? source = some file)
    (there : tree.fileAt? target = some old) :
    ∃ later, tree.copyModified source target = .ok later ∧
      later.fileAt? source = some file ∧
      later.fileAt? target = some { old with modified := file.modified } := by
  obtain ⟨origin, sourceLocated, sourceThere⟩ := fileAt?_eq_some_iff_locate.mp found
  obtain ⟨place, targetLocated, targetThere⟩ := fileAt?_eq_some_iff_locate.mp there
  have stands := file?_eq_some_iff.mp targetThere
  have room := Room.of_node sound stands
  have timed : tree.modified source = .ok file.modified := by
    unfold modified modifiedAt
    rw [sourceLocated, Except.map, file?_eq_some_iff.mp sourceThere]
  have set : tree.setModified target file.modified =
      .ok (tree.put place (.file { old with modified := file.modified })) := by
    have clean := ((locate_eq_ok_iff_trail sound).mp targetLocated).1.clean
    unfold setModified
    rw [clean, targetLocated]
    dsimp only
    rw [targetThere]
    rfl
  have stamped := refiled_put room.below (Or.inr ⟨_, stands⟩) { old with modified := file.modified }
  have soundLater := room.sound sound { old with modified := file.modified }
  refine ⟨tree.put place (.file { old with modified := file.modified }), ?_, ?_, ?_⟩
  · unfold copyModified
    rw [timed]
    dsimp only
    rw [set]
  · by_cases same : origin = place
    · -- The two paths lead to one file, which is given the time that it has.
      subst same
      obtain rfl := Option.some.inj (sourceThere.symm.trans targetThere)
      exact (fileAt?_of_located (stamped.locate sound soundLater sourceLocated)).trans
        (file?_put room.below _)
    · exact (stamped.fileAt? sound soundLater sourceLocated same).trans found
  · exact (fileAt?_of_located (stamped.locate sound soundLater targetLocated)).trans
      (file?_put room.below _)

end AssetPipeline.FileTree
