/-
This file says that the wave between decoder and encoder is gone when a conversion ends, however it
ends. Tools that do no more than write a file at the target of their job can only have put a file
where a path leads, so that what stands at the path of the wave afterwards is a regular file or
nothing, and a regular file can be removed. Two places may have changed in the end: nothing stands
where the wave stood, and the target may have been written. Unless it is the wave itself, the target
was not even touched when the decoder failed, for then the encoder is not launched.
-/

import AssetPipeline.Proofs.Build.Footprint
import AssetPipeline.Proofs.FileTree.Making
import AssetPipeline.Proofs.Path.Renaming

namespace AssetPipeline

open FileTree (Plain Keeps Adds)

variable {State : Type}

namespace FileTree

variable {tree between later : FileTree} {path : Path}

/-! ### Places that can be written -/

/-- A path ends in a name in a directory as long as no directory is lost. -/
theorem Entered.mono {name : Name} (entered : tree.Entered path name)
    (working : later.workingDirectory = tree.workingDirectory)
    (directories : ∀ place, tree.isDirectoryAt place = true → later.isDirectoryAt place = true) :
    later.Entered path name := by
  obtain ⟨front, steps, passes, directory⟩ := entered.way
  refine ⟨entered.usable, entered.entry, entered.short, front, steps, ?_⟩
  rw [working]
  have still := directories _ directory
  refine ⟨passes.mono directories fun _ => ?_, still⟩
  rw [isDirectoryAt_iff.mp still]
  rfl

/-- A path that leads to a regular file ends in a name in a directory. -/
theorem entered_of_fileAt? (plain : Plain tree) {file : File}
    (there : tree.fileAt? path = some file) : ∃ name, tree.Entered path name := by
  obtain ⟨reaches, -⟩ := (fileAt?_eq_some_iff plain).mp there
  obtain ⟨front, last, steps, entry⟩ := steps_of_fileAt? plain there
  have passes := reaches.passes
  rw [steps] at passes
  obtain ⟨way, directory, onwards, -⟩ := passes_append.mp passes
  exact ⟨last, reaches.usable, entry, (onwards entry.move entry.named).1, front, steps, way,
    directory⟩

/-- What a path leads to is a regular file, unless it led to a directory before. -/
theorem isFile_of_found (plain : Plain tree) (laterPlain : Plain later)
    (working : later.workingDirectory = tree.workingDirectory)
    (directories : ∀ place, later.isDirectoryAt place = true → tree.isDirectoryAt place = true)
    (leaf : tree.isDirectory path = false) {location : Location}
    (found : later.place .entry path = .ok (.found location)) : later.isFile path = true := by
  obtain ⟨reaches, -⟩ := (place_eq_found_iff laterPlain (by decide)).mp found
  refine (reaches.isDirectory_or_isFile laterPlain).resolve_left fun directory => ?_
  rw [isDirectory_mono laterPlain plain working.symm directories directory] at leaf
  cases leaf

/-- A tree with the same directories, of which the same may be listed, where all that has changed
stands where some paths can put a file. -/
structure Written (tree later : FileTree) (paths : Path → Prop) : Prop where
  plain : Plain later
  working : later.workingDirectory = tree.workingDirectory
  directory : ∀ place, later.isDirectoryAt place = tree.isDirectoryAt place
  node : ∀ place, later.node? place = tree.node? place ∨ ∃ path, paths path ∧
    (∃ name, tree.Entered path name) ∧ place = path.location tree.workingDirectory
  closed : ∀ place, later.isClosedAt place = tree.isClosedAt place

namespace Written

variable {paths wider : Path → Prop}

theorem refl (plain : Plain tree) (paths : Path → Prop) : Written tree tree paths :=
  ⟨plain, rfl, fun _ => rfl, fun _ => Or.inl rfl, fun _ => rfl⟩

theorem trans (first : Written tree between paths) (second : Written between later paths) :
    Written tree later paths where
  plain := second.plain
  working := second.working.trans first.working
  directory place := (second.directory place).trans (first.directory place)
  node place := by
    rcases second.node place with same | ⟨path, member, ⟨name, entered⟩, here⟩
    · rw [same]
      exact first.node place
    · have before := entered.mono first.working.symm fun place => (first.directory place).symm.trans
      exact Or.inr ⟨path, member, ⟨name, before⟩, first.working ▸ here⟩
  closed place := (second.closed place).trans (first.closed place)

theorem mono (written : Written tree later paths) (within : ∀ path, paths path → wider path) :
    Written tree later wider :=
  ⟨written.plain, written.working, written.directory, fun place =>
    (written.node place).imp_right fun ⟨path, member, rest⟩ => ⟨path, within path member, rest⟩,
    written.closed⟩

end Written

end FileTree

open FileTree (Written)

/-! ### Conversions -/

theorem Runner.OnlyWrites.written {runner : Runner State} (only : runner.OnlyWrites) (job : Job)
    {machine : Machine State} (plain : Plain machine.tree) :
    Written machine.tree (runner.launch job machine).machine.tree (· = job.target) := by
  have adds := only.adds job plain
  obtain ⟨keeps, outcome⟩ := only job machine plain
  refine ⟨keeps.plain, keeps.working, adds.directory, fun place => ?_, keeps.closed⟩
  by_cases here : place = job.target.location machine.tree.workingDirectory
  · rcases outcome with same | ⟨-, there⟩
    · exact Or.inl (here ▸ same)
    · obtain ⟨file, found⟩ := Option.isSome_iff_exists.mp there
      obtain ⟨name, entered⟩ := FileTree.entered_of_fileAt? keeps.plain found
      refine Or.inr ⟨_, rfl, ⟨name, entered.mono keeps.working.symm fun place => ?_⟩, here⟩
      rw [adds.directory]
      exact id
  · exact Or.inl (keeps.elsewhere place here)

namespace Toolbox

variable {toolbox : Toolbox} {runner : Runner State} {source target scratch : Path}
  {machine : Machine State}

/-- What is left once the tools are through and the wave is removed. -/
structure Cleared (tree later : FileTree) (scratch : Path) (paths : Path → Prop) : Prop where
  /-- No entry exists at the path of the wave. -/
  gone : ∀ location, later.place .entry scratch ≠ .ok (.found location)
  /-- What has changed stands where the wave or an output can be put. -/
  elsewhere : ∀ place, later.node? place = tree.node? place ∨
    ∃ path, (path = scratch ∨ paths path) ∧ (∃ name, tree.Entered path name) ∧
      place = path.location tree.workingDirectory
  closed : ∀ place, later.isClosedAt place = tree.isClosedAt place

theorem cleared_removeScratch {tree : FileTree} {paths : Path → Prop} (plain : Plain tree)
    (written : Written tree machine.tree paths) (leaf : tree.isDirectory scratch = false) :
    Cleared tree (removeScratch scratch machine).machine.tree scratch paths := by
  have changed := (written.mono fun path (member : paths path) =>
    (Or.inr member : path = scratch ∨ paths path)).node
  have before : ∀ place, machine.tree.isDirectoryAt place = true →
      tree.isDirectoryAt place = true := fun place => (written.directory place).symm.trans
  cases there : machine.tree.isFile scratch with
  | true =>
    obtain ⟨wave, found⟩ := Option.isSome_iff_exists.mp there
    obtain ⟨keeps, -, nothing⟩ := removeScratch_of_file written.plain found
    have directories : ∀ place,
        (removeScratch scratch machine).machine.tree.isDirectoryAt place = true →
          tree.isDirectoryAt place = true := by
      intro place directory
      have apart : place ≠ scratch.location machine.tree.workingDirectory := by
        rintro rfl
        rw [FileTree.isDirectoryAt_iff, nothing] at directory
        cases directory
      rw [FileTree.isDirectoryAt_iff, keeps.elsewhere place apart] at directory
      exact before place (FileTree.isDirectoryAt_iff.mpr directory)
    refine ⟨fun location still => ?_, fun place => ?_,
      fun place => (keeps.closed place).trans (written.closed place)⟩
    · have isFile := FileTree.isFile_of_found plain keeps.plain
        (keeps.working.trans written.working) directories leaf still
      obtain ⟨file, stands⟩ := Session.file?_of_isFile keeps.plain keeps.working isFile
      rw [FileTree.file?_eq_some_iff, nothing] at stands
      cases stands
    · by_cases here : place = scratch.location machine.tree.workingDirectory
      · obtain ⟨name, entered⟩ := FileTree.entered_of_fileAt? written.plain found
        exact Or.inr ⟨scratch, Or.inl rfl, ⟨name, entered.mono written.working.symm before⟩,
          written.working ▸ here⟩
      · rw [keeps.elsewhere place here]
        exact changed place
  | false =>
    rw [removeScratch_of_not_isFile written.plain there]
    refine ⟨fun location still => ?_, changed, written.closed⟩
    rw [FileTree.isFile_of_found plain written.plain written.working before leaf still] at there
    cases there

/-- However a conversion ends, nothing stands at the path of the wave, and all that has changed is
there or at the target. When the decoder failed, the target stands as it did. -/
theorem convertMp3_clears_scratch (toolbox : Toolbox) (source : Path)
    (plain : Plain machine.tree) (only : runner.OnlyWrites)
    (apart : (scratchOf target).components ≠ target.components)
    (leaf : machine.tree.isDirectory (scratchOf target) = false) :
    Cleared machine.tree (toolbox.convertMp3 runner source target machine).machine.tree
        (scratchOf target) (· = target) ∧
      ∀ failure, (toolbox.decodeMp3 runner source (scratchOf target) machine).value =
          .error failure →
        (toolbox.convertMp3 runner source target machine).machine.tree.node?
            (target.location machine.tree.workingDirectory) =
          machine.tree.node? (target.location machine.tree.workingDirectory) := by
  constructor
  · obtain ⟨between, written, left⟩ :=
      @convertMp3_removes State toolbox runner source target machine
        (fun between => Written machine.tree between.tree
          fun path => path = target ∨ path = scratchOf target)
        (fun job _ aimed written => written.trans
          ((only.written job written.plain).mono fun _ same => same ▸ aimed))
        (Written.refl plain _)
    rw [left]
    obtain ⟨gone, elsewhere, closed⟩ := cleared_removeScratch plain written leaf
    refine ⟨gone, fun place => (elsewhere place).imp_right ?_, closed⟩
    rintro ⟨path, (wave | output | wave), rest⟩
    · exact ⟨path, Or.inl wave, rest⟩
    · exact ⟨path, Or.inr output, rest⟩
    · exact ⟨path, Or.inl wave, rest⟩
  · intro failure failed
    have written : Written machine.tree
        (toolbox.decodeMp3 runner source (scratchOf target) machine).machine.tree
          (· = scratchOf target) :=
      @decodeMp3_preserves State toolbox runner source (scratchOf target) machine
        (fun between => Written machine.tree between.tree (· = scratchOf target))
        (fun job _ aimed written => written.trans
          ((only.written job written.plain).mono fun _ same => same.trans aimed))
        (Written.refl plain _)
    rw [convertMp3_of_decoder_failed failed]
    refine ((cleared_removeScratch plain written leaf).elsewhere _).resolve_right ?_
    rintro ⟨path, wave, -, here⟩
    rw [or_self] at wave
    exact Path.location_withExtension_ne plain_waveExtension apart _ (wave ▸ here.symm)

/-- An output that is to be made again, with a wave beside it that was left over. -/
def leftOver : Machine Unit where
  tree := {
    nodes := [
      ([['o', 'u', 't'], ['a', '.', 'o', 'g', 'g']], .file ⟨[111], ⟨900, 0⟩, .ordinary⟩),
      ([['o', 'u', 't'], ['a', '.', 'w', 'a', 'v']], .file ⟨[119], ⟨900, 0⟩, .ordinary⟩),
      ([['s', 'r', 'c'], ['a', '.', 'm', 'p', '3']], .file ⟨[109], ⟨1000, 0⟩, .ordinary⟩),
      ([['s', 'r', 'c']], .directory),
      ([['o', 'u', 't']], .directory)]
    workingDirectory := []
    clock := ⟨2000, 0⟩ }
  runner := ()

def leftTools : Toolbox := .find .twoRoots leftOver.tree

def leftSource : Path := .ofString "src/a.mp3"

def leftTarget : Path := .ofString "out/a.ogg"

/-- A decoder that writes a part of the wave and fails: the wave is gone, and the output stays. -/
theorem convertMp3_clears_scratch_leftOver :
    (scratchOf leftTarget).components ≠ leftTarget.components ∧
      leftOver.tree.isFile (scratchOf leftTarget) = true ∧
      Cleared leftOver.tree
        (leftTools.convertMp3 (.writing [112] 3) leftSource leftTarget leftOver).machine.tree
        (scratchOf leftTarget) (· = leftTarget) ∧
      (leftTools.convertMp3 (.writing [112] 3) leftSource leftTarget leftOver).machine.tree.node?
        (leftTarget.location leftOver.tree.workingDirectory) =
          some (.file ⟨[111], ⟨900, 0⟩, .ordinary⟩) := by
  have plain : Plain leftOver.tree := by decide +kernel
  have apart : (scratchOf leftTarget).components ≠ leftTarget.components := by decide +kernel
  have leaf : leftOver.tree.isDirectory (scratchOf leftTarget) = false := by decide +kernel
  have left : leftOver.tree.isFile (scratchOf leftTarget) = true := by decide +kernel
  have failed : (leftTools.decodeMp3 (.writing [112] 3) leftSource (scratchOf leftTarget)
      leftOver).value = .error (.toolFailed "madplay".toList (some 3)) := by
    decide +kernel
  have before : leftOver.tree.node? (leftTarget.location leftOver.tree.workingDirectory) =
      some (.file ⟨[111], ⟨900, 0⟩, .ordinary⟩) := by decide +kernel
  obtain ⟨cleared, stays⟩ := convertMp3_clears_scratch leftTools leftSource plain
    (@Runner.onlyWrites_writing [112] 3) apart leaf
  exact ⟨apart, left, cleared, (stays _ failed).trans before⟩

end Toolbox

end AssetPipeline
