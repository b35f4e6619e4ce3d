/-
This file says which copies can be brought up to date. The first copy of a file takes over its mode,
and every later one has to open the copy to write it over, so it is the mode of the copy that
decides. An asset that its owner may write is copied again as often as it is replaced. One that is
read only is copied once: from then on the copy is due, each attempt is refused, and the output
keeps the bytes of the first.
-/

import AssetPipeline.Proofs.Build.Frame
import AssetPipeline.Proofs.Build.Retry
import AssetPipeline.Proofs.FileTree.Overwriting

namespace AssetPipeline

open FileTree (Sound)

variable {State : Type}

/-- Launches leave a tree that a file system can hold. -/
def Runner.KeepsSound (runner : Runner State) : Prop :=
  ∀ job machine, Sound machine.tree → Sound (runner.launch job machine).machine.tree

theorem Runner.keepsSound_writing {content : Bytes} {code : Int} :
    (Runner.writing content code).KeepsSound := by
  intro job machine sound
  rcases @launch_writing content code job machine with ⟨same, -⟩ | ⟨tree, written, -, same⟩
  · rw [same]
    exact sound
  · rw [same]
    exact sound.writeFile written

namespace Session

variable {session : Session State} {script : Script} {machine : Machine State} {relative : Path}

/-! ### Trees that a file system can hold -/

theorem sound_visit (tools : session.runner.KeepsSound) (verb : Verb) (relative : Path)
    (sound : Sound machine.tree) : Sound (session.visit verb relative machine).machine.tree := by
  have room : Sound (session.withRoom verb relative machine).tree := sound.makeParent _
  have produced : Sound (session.producing verb relative machine).machine.tree :=
    @produce_preserves State session verb (session.withRoom verb relative machine)
      (fun between => Sound between.tree) _ _
      (fun job between _ _ sound => tools job between sound)
      (fun _ _ _ removed sound => sound.removeFile removed)
      (fun _ _ copied => room.copyFile copied) room
  have course := session.visit_course verb relative machine
  generalize (session.visit verb relative machine).value = value at course
  generalize (session.visit verb relative machine).machine = left at course ⊢
  cases course with
  | noRoom => exact room
  | current => exact room
  | notProduced => exact produced
  | notStamped => exact produced
  | rebuilt _ _ _ stamped => exact produced.copyModified stamped

/-- A run keeps a tree one that a file system can hold, links and all. -/
theorem sound_run (tools : session.runner.KeepsSound) (script : Script)
    (sound : Sound machine.tree) : Sound (session.run script machine).machine.tree ∧
      ∀ visit ∈ session.visits script machine, Sound visit.machine.tree :=
  @invariant_of_follows State session machine _ (fun between => Sound between.tree) _
    (session.follows_visits script machine) sound fun visit _ =>
      sound_visit tools visit.verb visit.relative

/-! ### Copying once and once more -/

/-- A copy that was made is its source once more. -/
theorem copied_of_visit {completion : Completion} (sound : Sound machine.tree)
    (succeeded : (session.visit .copy relative machine).value = .ok completion)
    (rebuilt : completion.decision = .rebuild) : ∃ file : File, file.mode.ownerReads = true ∧
      (session.visit .copy relative machine).machine.tree.fileAt? (session.sourceOf relative) =
        some file ∧
      (session.visit .copy relative machine).machine.tree.fileAt?
        (session.targetOf .copy relative) = some file := by
  have course := session.visit_course .copy relative machine
  generalize (session.visit .copy relative machine).value = value at succeeded course
  generalize (session.visit .copy relative machine).machine = left at course ⊢
  subst succeeded
  cases course with
  | current => cases rebuilt
  | rebuilt room decided produced stamped =>
    have roomSound : Sound (session.withRoom .copy relative machine).tree := sound.makeParent _
    have copied := copy_ok produced
    obtain ⟨file, -, reads, found, there⟩ :=
      FileTree.copied_of_copyFile roomSound decided copied
    obtain ⟨last, again, stays, timed⟩ :=
      FileTree.copyModified_of_fileAt? (roomSound.copyFile copied) found there
    obtain rfl := Except.ok.inj (again.symm.trans stamped)
    exact ⟨file, reads, stays, timed⟩

/-- A source that is newer than the copy that is there. -/
structure Overdue (session : Session State) (relative : Path) (machine : Machine State)
    (file copy : File) : Prop where
  sound : Sound machine.tree
  found : machine.tree.fileAt? (session.sourceOf relative) = some file
  reads : file.mode.ownerReads = true
  there : machine.tree.fileAt? (session.targetOf .copy relative) = some copy
  newer : file.modified.notAfter copy.modified = false

namespace Overdue

variable {file copy : File}

/-- No directory has to be made for a copy that is there. -/
theorem withRoom (overdue : session.Overdue relative machine file copy) :
    (machine.tree.makeParent (session.targetOf .copy relative)).2 = .ok () ∧
      session.withRoom .copy relative machine = machine := by
  obtain ⟨place, located, -⟩ := FileTree.fileAt?_eq_some_iff_locate.mp overdue.there
  have made := FileTree.makeParent_of_locate overdue.sound located
  unfold Session.withRoom
  rw [made]
  exact ⟨rfl, rfl⟩

theorem decision (overdue : session.Overdue relative machine file copy) :
    machine.tree.decision (session.sourceOf relative) (session.targetOf .copy relative) =
      .rebuild := by
  unfold FileTree.decision
  rw [overdue.there, overdue.found]
  dsimp only
  rw [overdue.newer]
  rfl

/-- It is copied again when the owner may write the copy. -/
theorem rebuilt (overdue : session.Overdue relative machine file copy)
    (writable : copy.mode.ownerWrites = true) :
    (session.visit .copy relative machine).value = .ok ⟨relative, relative, .rebuild⟩ ∧
      ∀ path, path = session.sourceOf relative ∨ path = session.targetOf .copy relative →
        (session.visit .copy relative machine).machine.tree.fileAt? path = some file := by
  obtain ⟨room, same⟩ := overdue.withRoom
  have sound := overdue.sound
  obtain ⟨between, copied⟩ :=
    FileTree.copyFile_of_writable sound overdue.found overdue.reads overdue.there writable
  obtain ⟨original, found, -, stays, taken⟩ :=
    FileTree.copied_of_copyFile sound overdue.decision copied
  obtain rfl := Option.some.inj (overdue.found.symm.trans found)
  obtain ⟨later, stamped, atSource, atTarget⟩ :=
    FileTree.copyModified_of_fileAt? (sound.copyFile copied) stays taken
  have producing : session.producing .copy relative machine =
      ⟨.ok (), [], { machine with tree := between }⟩ := by
    unfold Session.producing produce Session.copy
    rw [same]
    dsimp only
    rw [copied]
    rfl
  have course : session.Course .copy relative machine (.ok ⟨relative, relative, .rebuild⟩)
      { (session.producing .copy relative machine).machine with tree := later } :=
    .rebuilt room (by unfold decisionOf; rw [same, overdue.decision]) (by rw [producing])
      (by rw [producing]; exact stamped)
  obtain ⟨value, left⟩ := course.visit_eq
  refine ⟨value, fun path concerned => ?_⟩
  rw [left]
  rcases concerned with rfl | rfl
  · exact atSource
  · exact atTarget

/-- It is refused when the owner may not, and all stays as it was. -/
theorem refused (overdue : session.Overdue relative machine file copy)
    (writable : copy.mode.ownerWrites = false) :
    (session.visit .copy relative machine).value = .error (.notCopied (session.sourceOf relative)
        (session.targetOf .copy relative) .permissionDenied) ∧
      (session.visit .copy relative machine).machine = machine := by
  obtain ⟨room, same⟩ := overdue.withRoom
  have refused := FileTree.copyFile_of_not_writable overdue.sound overdue.found overdue.reads
    overdue.there writable
  have producing : session.producing .copy relative machine =
      ⟨.error (.notCopied (session.sourceOf relative) (session.targetOf .copy relative)
        .permissionDenied), [], machine⟩ := by
    unfold Session.producing produce Session.copy
    rw [same]
    dsimp only
    rw [refused]
    rfl
  have course : session.Course .copy relative machine
      (.error (.notCopied (session.sourceOf relative) (session.targetOf .copy relative)
        .permissionDenied)) (session.producing .copy relative machine).machine :=
    .notProduced room (by unfold decisionOf; rw [same, overdue.decision]) (by rw [producing])
  rw [producing] at course
  exact course.visit_eq

end Overdue

/-! ### Rounds of replacing and running -/

/-- A run takes up a source to copy it to a target, and does nothing else to either of them. -/
structure TakesUp (session : Session State) (script : Script) (machine : Machine State)
    (source target : Path) (visit : Visit State) : Prop where
  sound : Sound machine.tree
  tools : session.runner.KeepsSound
  copies : visit.verb = .copy
  reads : session.sourceOf visit.relative = source
  writes : session.targetOf .copy visit.relative = target
  alone : ∃ earlier later, session.visits script machine = earlier ++ visit :: later ∧
    ∀ path, path = source ∨ path = target →
      session.LeaveAlone path earlier ∧ session.LeaveAlone path later

/-- The source has been replaced by a newer file of the same mode, and its copy is as it was. -/
structure Replaced (source target : Path) (tree later : FileTree) (file : File) : Prop where
  found : later.fileAt? source = some file
  replaces : ∃ old, tree.fileAt? source = some old ∧ file.mode = old.mode ∧
    file.modified.notAfter old.modified = false
  copy : later.fileAt? target = tree.fileAt? target

/-- What all rounds keep: source and copy have the mode of the first copy, and the copy is no newer
than the source. -/
structure Standing (source target : Path) (first : File) (tree : FileTree) : Prop where
  reads : first.mode.ownerReads = true
  files : ∃ file copy, tree.fileAt? source = some file ∧ tree.fileAt? target = some copy ∧
    file.mode = first.mode ∧ copy.mode = first.mode ∧
    copy.modified.notAfter file.modified = true

namespace TakesUp

variable {source target : Path} {visit : Visit State} {tree : FileTree} {first file : File}

theorem effectOf_eq (takes : session.TakesUp script machine source target visit) :
    session.effectOf visit = session.visit .copy visit.relative visit.machine := by
  unfold effectOf
  rw [takes.copies]

theorem sound_machine (takes : session.TakesUp script machine source target visit) :
    Sound visit.machine.tree := by
  obtain ⟨earlier, later, taken, -⟩ := takes.alone
  refine (sound_run takes.tools script takes.sound).2 visit ?_
  rw [taken]
  exact List.mem_append_right _ List.mem_cons_self

/-- The visit finds the two files as the run did, and the run leaves them as the visit does. -/
theorem fileAt? (takes : session.TakesUp script machine source target visit) {path : Path}
    (concerned : path = source ∨ path = target) :
    visit.machine.tree.fileAt? path = machine.tree.fileAt? path ∧
      (session.run script machine).machine.tree.fileAt? path =
        (session.visit .copy visit.relative visit.machine).machine.tree.fileAt? path := by
  obtain ⟨earlier, later, taken, alone⟩ := takes.alone
  have follows := session.follows_visits script machine
  rw [taken] at follows
  obtain ⟨middle, before, rfl, after⟩ := follows_append.mp follows
  obtain ⟨aloneBefore, aloneAfter⟩ := alone path concerned
  rw [← takes.effectOf_eq]
  exact ⟨fileAt?_of_follows before aloneBefore, fileAt?_of_follows after aloneAfter⟩

/-- The run that makes the copy leaves the same file at both paths. -/
theorem standing (takes : session.TakesUp script machine source target visit)
    (builds : session.Builds visit)
    (left : (session.run script machine).machine.tree.fileAt? target = some first) :
    Standing source target first (session.run script machine).machine.tree := by
  obtain ⟨completion, succeeded, rebuilt⟩ := builds
  rw [takes.effectOf_eq] at succeeded
  obtain ⟨file, reads, atSource, atTarget⟩ :=
    copied_of_visit takes.sound_machine succeeded rebuilt
  rw [takes.reads, ← (takes.fileAt? (Or.inl rfl)).2] at atSource
  rw [takes.writes, ← (takes.fileAt? (Or.inr rfl)).2] at atTarget
  obtain rfl := Option.some.inj (left.symm.trans atTarget)
  exact ⟨reads, first, first, atSource, left, rfl, rfl, Instant.notAfter_refl _⟩

/-- A run that takes up a source that has been replaced finds its copy overdue. -/
theorem overdue (takes : session.TakesUp script machine source target visit)
    (standing : Standing source target first tree)
    (replaced : Replaced source target tree machine.tree file) :
    ∃ copy, tree.fileAt? target = some copy ∧ copy.mode = first.mode ∧ file.mode = first.mode ∧
      session.Overdue visit.relative visit.machine file copy := by
  obtain ⟨before, copy, found, there, fileMode, copyMode, noNewer⟩ := standing.files
  obtain ⟨old, oldFound, sameMode, newer⟩ := replaced.replaces
  obtain rfl := Option.some.inj (found.symm.trans oldFound)
  have mode : file.mode = first.mode := sameMode.trans fileMode
  refine ⟨copy, there, copyMode, mode, takes.sound_machine, ?_, mode ▸ standing.reads, ?_, ?_⟩
  · rw [takes.reads, (takes.fileAt? (Or.inl rfl)).1, replaced.found]
  · rw [takes.writes, (takes.fileAt? (Or.inr rfl)).1, replaced.copy, there]
  · by_contra late
    have late := Instant.notAfter_trans (Bool.of_not_eq_false late) noNewer
    rw [newer] at late
    cases late

/-- What a run does about a source that has been replaced, by the mode of the first copy. -/
theorem settles (takes : session.TakesUp script machine source target visit)
    (standing : Standing source target first tree)
    (replaced : Replaced source target tree machine.tree file) :
    (session.run script machine).machine.tree.fileAt? source = some file ∧
      (first.mode.ownerWrites = true → session.Builds visit ∧
        (session.run script machine).machine.tree.fileAt? target = some file) ∧
      (first.mode.ownerWrites = false →
        (session.effectOf visit).value = .error (.notCopied source target .permissionDenied) ∧
          (session.run script machine).machine.tree.fileAt? target = tree.fileAt? target) := by
  obtain ⟨copy, there, copyMode, -, overdue⟩ := takes.overdue standing replaced
  unfold Builds
  rw [(takes.fileAt? (Or.inl rfl)).2, (takes.fileAt? (Or.inr rfl)).2, takes.effectOf_eq, ← copyMode]
  cases writable : copy.mode.ownerWrites with
  | true =>
    obtain ⟨value, leaves⟩ := overdue.rebuilt writable
    rw [takes.reads, takes.writes] at leaves
    exact ⟨leaves source (Or.inl rfl),
      fun _ => ⟨⟨_, value, rfl⟩, leaves target (Or.inr rfl)⟩, nofun⟩
  | false =>
    obtain ⟨value, same⟩ := overdue.refused writable
    rw [takes.reads, takes.writes] at value
    rw [same, (takes.fileAt? (Or.inl rfl)).1, (takes.fileAt? (Or.inr rfl)).1]
    exact ⟨replaced.found, nofun, fun _ => ⟨value, replaced.copy⟩⟩

end TakesUp

/-- What can come of a source and its first copy: after the run that made the copy the source is
replaced any number of times, and each time the next run takes it up. -/
inductive Rounds (State : Type) (source target : Path) (first : File) : FileTree → Prop
  | copied {session : Session State} {script : Script} {machine : Machine State}
      {visit : Visit State} (takes : session.TakesUp script machine source target visit)
      (builds : session.Builds visit)
      (left : (session.run script machine).machine.tree.fileAt? target = some first) :
      Rounds State source target first (session.run script machine).machine.tree
  | again {session : Session State} {script : Script} {machine : Machine State}
      {visit : Visit State} {tree : FileTree} {file : File}
      (rounds : Rounds State source target first tree)
      (replaced : Replaced source target tree machine.tree file)
      (takes : session.TakesUp script machine source target visit) :
      Rounds State source target first (session.run script machine).machine.tree

section Rounds

variable {source target : Path} {visit : Visit State} {tree : FileTree} {first file : File}

theorem standing_of_rounds (rounds : Rounds State source target first tree) :
    Standing source target first tree := by
  induction rounds with
  | copied takes builds left => exact takes.standing builds left
  | again _ replaced takes standing =>
    obtain ⟨copy, there, copyMode, mode, overdue⟩ := takes.overdue standing replaced
    obtain ⟨atSource, written, kept⟩ := takes.settles standing replaced
    cases writable : first.mode.ownerWrites with
    | true =>
      exact ⟨standing.reads, _, _, atSource, (written writable).2, mode, mode,
        Instant.notAfter_refl _⟩
    | false =>
      exact ⟨standing.reads, _, copy, atSource, (kept writable).2.trans there, mode, copyMode,
        (Instant.notAfter_total _ _).resolve_left (by simp [overdue.newer])⟩

/-- However often a source has been replaced since it was first copied: when it is replaced once
more by a newer file of the same mode, the next run copies it without error exactly when the owner
may write the first copy, and then the output is that file, with its content, mode and time. When
the owner may not, the copy is refused and the output stays as it was. -/
theorem recopied_iff_ownerWrites (rounds : Rounds State source target first tree)
    (replaced : Replaced source target tree machine.tree file)
    (takes : session.TakesUp script machine source target visit) :
    (session.Builds visit ∧
        (session.run script machine).machine.tree.fileAt? target = some file ↔
      first.mode.ownerWrites = true) ∧
    (first.mode.ownerWrites = false →
      (session.effectOf visit).value = .error (.notCopied source target .permissionDenied) ∧
        (session.run script machine).machine.tree.fileAt? target = tree.fileAt? target) := by
  obtain ⟨-, written, kept⟩ := takes.settles (standing_of_rounds rounds) replaced
  refine ⟨⟨fun ⟨⟨completion, succeeded, _⟩, _⟩ => ?_, written⟩, kept⟩
  by_contra writable
  have refused := (kept (Bool.of_not_eq_true writable)).1
  rw [refused] at succeeded
  cases succeeded

end Rounds

/-! ### An asset that is replaced once -/

def assetSource : Path := .ofString "src/a.wav"

def assetTarget : Path := .ofString "out/a.wav"

/-- An asset of a mode, and an output directory with nothing in it. -/
def asset (mode : Mode) : Machine Unit where
  tree := {
    nodes := [
      ([['s', 'r', 'c'], ['a', '.', 'w', 'a', 'v']], .file ⟨[49], ⟨1000, 0⟩, mode⟩),
      ([['s', 'r', 'c']], .directory),
      ([['o', 'u', 't']], .directory)]
    workingDirectory := []
    clock := ⟨3000, 0⟩ }
  runner := ()

def copies : Session Unit := .start .twoRoots (.writing [112] 0) (asset .ordinary).tree

/-- Copies the asset. -/
def copyOnce : Command := ⟨1, ['c', 'o', 'p', 'y'], [['*', '.', 'w', 'a', 'v'], ['x']]⟩

/-- What the first run leaves, with the asset replaced. -/
def replacedAsset (mode : Mode) : Machine Unit :=
  { (copies.run [copyOnce] (asset mode)).machine with
    tree := (copies.run [copyOnce] (asset mode)).machine.tree.put
      [['s', 'r', 'c'], ['a', '.', 'w', 'a', 'v']] (.file ⟨[50], ⟨2000, 0⟩, mode⟩) }

def assetVisit (machine : Machine Unit) : Visit Unit := ⟨.copy, .ofString "a.wav", machine⟩

/-- An asset that its owner may read and not write is copied once, and refused when it has been
replaced. -/
theorem read_only_asset_is_refused :
    (asset ⟨0o444⟩).tree.fileAt? assetTarget = none ∧
      (copies.run [copyOnce] (asset ⟨0o444⟩)).value =
        [⟨1, copyOnce.verb, [⟨.ofString "a.wav", .ofString "a.wav", .rebuild⟩], none⟩] ∧
      (replacedAsset ⟨0o444⟩).tree.fileAt? assetSource = some ⟨[50], ⟨2000, 0⟩, ⟨0o444⟩⟩ ∧
      (copies.run [copyOnce] (replacedAsset ⟨0o444⟩)).value =
        [⟨1, copyOnce.verb, [], some (.notCopied assetSource assetTarget .permissionDenied)⟩] ∧
      (copies.run [copyOnce] (replacedAsset ⟨0o444⟩)).machine.tree.fileAt? assetTarget =
        some ⟨[49], ⟨1000, 0⟩, ⟨0o444⟩⟩ := by
  decide +kernel

theorem takesUp_asset {machine : Machine Unit} (sound : Sound machine.tree)
    (taken : copies.visits [copyOnce] machine = [assetVisit machine]) :
    copies.TakesUp [copyOnce] machine assetSource assetTarget (assetVisit machine) where
  sound := sound
  tools := Runner.keepsSound_writing
  copies := rfl
  reads := rfl
  writes := rfl
  alone := ⟨[], [], taken, fun _ _ => ⟨nofun, nofun⟩⟩

/-- One that its owner may write is copied again. -/
theorem recopied_iff_ownerWrites_asset :
    Rounds Unit assetSource assetTarget ⟨[49], ⟨1000, 0⟩, .ordinary⟩
        (copies.run [copyOnce] (asset .ordinary)).machine.tree ∧
      copies.Builds (assetVisit (replacedAsset .ordinary)) ∧
      (copies.run [copyOnce] (replacedAsset .ordinary)).machine.tree.fileAt? assetTarget =
        some ⟨[50], ⟨2000, 0⟩, .ordinary⟩ := by
  have sound : Sound (asset .ordinary).tree := by decide +kernel
  have taken : copies.visits [copyOnce] (asset .ordinary) = [assetVisit (asset .ordinary)] := by
    decide +kernel
  have built : (copies.effectOf (assetVisit (asset .ordinary))).value =
      .ok ⟨.ofString "a.wav", .ofString "a.wav", .rebuild⟩ := by decide +kernel
  have left : (copies.run [copyOnce] (asset .ordinary)).machine.tree.fileAt? assetTarget =
      some ⟨[49], ⟨1000, 0⟩, .ordinary⟩ := by decide +kernel
  have rounds := Rounds.copied (takesUp_asset sound taken) ⟨_, built, rfl⟩ left
  have soundLater : Sound (replacedAsset .ordinary).tree := by decide +kernel
  have takenLater : copies.visits [copyOnce] (replacedAsset .ordinary) =
      [assetVisit (replacedAsset .ordinary)] := by decide +kernel
  have found : (replacedAsset .ordinary).tree.fileAt? assetSource =
      some ⟨[50], ⟨2000, 0⟩, .ordinary⟩ := by decide +kernel
  have before : (copies.run [copyOnce] (asset .ordinary)).machine.tree.fileAt? assetSource =
      some ⟨[49], ⟨1000, 0⟩, .ordinary⟩ := by decide +kernel
  have copy : (replacedAsset .ordinary).tree.fileAt? assetTarget =
      (copies.run [copyOnce] (asset .ordinary)).machine.tree.fileAt? assetTarget := by
    decide +kernel
  have replaced : Replaced assetSource assetTarget
      (copies.run [copyOnce] (asset .ordinary)).machine.tree (replacedAsset .ordinary).tree
      ⟨[50], ⟨2000, 0⟩, .ordinary⟩ :=
    ⟨found, ⟨_, before, rfl, by decide⟩, copy⟩
  exact ⟨rounds, (recopied_iff_ownerWrites rounds replaced
    (takesUp_asset soundLater takenLater)).1.mpr (by decide)⟩

end Session

end AssetPipeline
