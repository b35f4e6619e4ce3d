/-
This file says where directories and regular files may stand after a visit, when tools do no more
than write a file at the target of their job. The directories are those that were there once room
was made for the output, and the one place where a regular file may be new is that of the output:
whatever the decoder wrote beside it is removed, even when the conversion fails. A visit that
succeeds leaves something at the place of its output, and room for it that need not be made again.
-/

import AssetPipeline.Proofs.Build.WriteSet

namespace AssetPipeline

open FileTree (Plain Keeps)

variable {State : Type}

namespace FileTree

variable {tree between later : FileTree} {fresh wider : Location → Prop}

/-- A tree with the same directories, of which the same may be listed, where regular files are new
only at some places. -/
structure Adds (tree later : FileTree) (fresh : Location → Prop) : Prop where
  plain : Plain later
  working : later.workingDirectory = tree.workingDirectory
  directory : ∀ place, later.isDirectoryAt place = tree.isDirectoryAt place
  closed : ∀ place, later.isClosedAt place = tree.isClosedAt place
  file : ∀ place, (later.file? place).isSome = true →
    (tree.file? place).isSome = true ∨ fresh place

theorem Adds.refl (plain : Plain tree) (fresh : Location → Prop) : Adds tree tree fresh :=
  ⟨plain, rfl, fun _ => rfl, fun _ => rfl, fun _ => Or.inl⟩

theorem Adds.trans (first : Adds tree between fresh) (second : Adds between later fresh) :
    Adds tree later fresh where
  plain := second.plain
  working := second.working.trans first.working
  directory place := (second.directory place).trans (first.directory place)
  closed place := (second.closed place).trans (first.closed place)
  file place there := by
    rcases second.file place there with before | new
    · exact first.file place before
    · exact Or.inr new

theorem Adds.mono (adds : Adds tree later fresh)
    (within : ∀ place, (later.file? place).isSome = true → fresh place → wider place) :
    Adds tree later wider :=
  ⟨adds.plain, adds.working, adds.directory, adds.closed, fun place there =>
    (adds.file place there).imp_right (within place there)⟩

/-- A change of one place, where no directory comes or goes. -/
theorem Adds.of_keeps {place : Location} (keeps : Keeps tree later (· = place))
    (same : later.isDirectoryAt place = tree.isDirectoryAt place) :
    Adds tree later (· = place) where
  plain := keeps.plain
  working := keeps.working
  directory other := by
    by_cases here : other = place
    · rw [here, same]
    · unfold isDirectoryAt
      rw [keeps.elsewhere other here]
  closed := keeps.closed
  file other there := by
    by_cases here : other = place
    · exact Or.inr here
    · rw [file?_congr (keeps.elsewhere other here)] at there
      exact Or.inl there

theorem isDirectoryAt_of_file? {place : Location} (there : (tree.file? place).isSome = true) :
    tree.isDirectoryAt place = false := by
  obtain ⟨file, there⟩ := Option.isSome_iff_exists.mp there
  simp [isDirectoryAt, file?_eq_some_iff.mp there]

end FileTree

open FileTree (Adds)

/-! ### Runners that only write -/

/-- A launch writes a regular file at the target of its job, or changes nothing. -/
def Runner.OnlyWrites (runner : Runner State) : Prop :=
  ∀ job machine, Plain machine.tree →
    Keeps machine.tree (runner.launch job machine).machine.tree
        (· = job.target.location machine.tree.workingDirectory) ∧
      ((runner.launch job machine).machine.tree.node?
          (job.target.location machine.tree.workingDirectory) =
            machine.tree.node? (job.target.location machine.tree.workingDirectory) ∨
        machine.tree.isDirectoryAt (job.target.location machine.tree.workingDirectory) = false ∧
          (runner.launch job machine).machine.tree.isFile job.target = true)

namespace Runner.OnlyWrites

variable {runner : Runner State}

theorem confined (only : runner.OnlyWrites) : runner.Confined :=
  fun job machine plain => (only job machine plain).1

theorem sparesFiles (only : runner.OnlyWrites) : runner.SparesFiles := by
  intro job machine plain there
  obtain ⟨keeps, same | ⟨-, written⟩⟩ := only job machine plain
  · rwa [FileTree.file?_congr same]
  · obtain ⟨file, stands⟩ := Session.file?_of_isFile keeps.plain keeps.working written
    rw [stands]
    rfl

/-- A regular file is new only where the job aims, and the target leads to it then. -/
theorem adds (only : runner.OnlyWrites) (job : Job) {machine : Machine State}
    (plain : Plain machine.tree) :
    Adds machine.tree (runner.launch job machine).machine.tree fun place =>
      place = job.target.location machine.tree.workingDirectory ∧
        (runner.launch job machine).machine.tree.isFile job.target = true := by
  obtain ⟨keeps, same | ⟨leaf, written⟩⟩ := only job machine plain
  · refine ⟨keeps.plain, keeps.working, fun place => ?_, keeps.closed,
      fun place there => Or.inl ?_⟩
    all_goals
      have still : (runner.launch job machine).machine.tree.node? place =
          machine.tree.node? place := by
        by_cases here : place = job.target.location machine.tree.workingDirectory
        · rw [here, same]
        · exact keeps.elsewhere place here
    · unfold FileTree.isDirectoryAt
      rw [still]
    · rwa [FileTree.file?_congr still] at there
  · obtain ⟨file, stands⟩ := Session.file?_of_isFile keeps.plain keeps.working written
    have filled := FileTree.isDirectoryAt_of_file? (Option.isSome_iff_exists.mpr ⟨file, stands⟩)
    exact (Adds.of_keeps keeps (filled.trans leaf.symm)).mono fun place _ here => ⟨here, written⟩

end Runner.OnlyWrites

theorem Runner.onlyWrites_writing {content : Bytes} {code : Int} :
    (Runner.writing content code).OnlyWrites := by
  intro job machine plain
  rcases @launch_writing content code job machine with ⟨same, -⟩ | ⟨tree, written, found, same⟩
  · rw [same]
    exact ⟨Keeps.refl plain _, Or.inl rfl⟩
  · rw [same]
    obtain ⟨keeps, leaf⟩ := FileTree.writeFile_ok plain written
    exact ⟨keeps, Or.inr ⟨leaf, found⟩⟩

/-! ### Producing an output -/

namespace Toolbox

variable {toolbox : Toolbox} {runner : Runner State} {source target : Path}
  {machine : Machine State}

theorem adds_encodeWave (only : runner.OnlyWrites) (plain : Plain machine.tree) (downmix : Bool) :
    Adds machine.tree (toolbox.encodeWave runner source target downmix machine).machine.tree
      (· = target.location machine.tree.workingDirectory) := by
  refine @encodeWave_preserves State toolbox runner source target machine
    (fun between => Adds machine.tree between.tree
      (· = target.location machine.tree.workingDirectory)) downmix ?_ (Adds.refl plain _)
  intro job between aimed adds
  have launched := only.adds job adds.plain
  rw [aimed, adds.working] at launched
  exact adds.trans (launched.mono fun place _ new => new.1)

/-- Nothing is left of the wave, whatever failed, unless a file stood there before. -/
theorem adds_convertMp3 (only : runner.OnlyWrites) (plain : Plain machine.tree) :
    Adds machine.tree (toolbox.convertMp3 runner source target machine).machine.tree
      (· = target.location machine.tree.workingDirectory) := by
  -- As long as the tools run, there may be a wave, to which its path leads.
  obtain ⟨between, drafts, left⟩ := @convertMp3_removes State toolbox runner source target machine
    (fun between => Adds machine.tree between.tree fun place =>
      place = target.location machine.tree.workingDirectory ∨
        place = (scratchOf target).location machine.tree.workingDirectory ∧
          between.tree.isFile (scratchOf target) = true)
    (by
      intro job between aimed drafts
      have launched := only.adds job drafts.plain
      rw [drafts.working] at launched
      refine ⟨launched.plain, launched.working.trans drafts.working,
        fun place => (launched.directory place).trans (drafts.directory place),
        fun place => (launched.closed place).trans (drafts.closed place), fun place there => ?_⟩
      rcases launched.file place there with before | ⟨here, written⟩
      · rcases drafts.file place before with old | output | ⟨wave, leads⟩
        · exact Or.inl old
        · exact Or.inr (Or.inl output)
        · refine Or.inr (Or.inr ⟨wave, ?_⟩)
          refine FileTree.isFile_mono drafts.plain launched.plain launched.working
            (fun place => (launched.directory place).trans) ?_ leads
          rw [drafts.working, ← wave]
          exact there
      · rcases aimed with output | wave
        · exact Or.inr (Or.inl (output ▸ here))
        · exact Or.inr (Or.inr ⟨wave ▸ here, wave ▸ written⟩))
    (Adds.refl plain _)
  rw [left]
  cases there : between.tree.isFile (scratchOf target) with
  | true =>
    obtain ⟨wave, found⟩ := Option.isSome_iff_exists.mp there
    obtain ⟨keeps, leaf, gone⟩ := removeScratch_of_file drafts.plain found
    have emptied : (removeScratch (scratchOf target) between).machine.tree.isDirectoryAt
        ((scratchOf target).location between.tree.workingDirectory) = false := by
      simp [FileTree.isDirectoryAt, gone]
    have removes := Adds.of_keeps keeps (emptied.trans leaf.symm)
    refine ⟨removes.plain, removes.working.trans drafts.working,
      fun place => (removes.directory place).trans (drafts.directory place),
      fun place => (removes.closed place).trans (drafts.closed place), fun place stands => ?_⟩
    have differs : place ≠ (scratchOf target).location between.tree.workingDirectory := by
      rintro rfl
      have nothing := FileTree.node?_isSome_of_file?_isSome stands
      rw [gone] at nothing
      cases nothing
    refine (drafts.file place ((removes.file place stands).resolve_right differs)).imp_right ?_
    rintro (output | ⟨wave, -⟩)
    · exact output
    · exact absurd (drafts.working.symm ▸ wave) differs
  | false =>
    rw [removeScratch_of_not_isFile drafts.plain there]
    exact drafts.mono fun place _ new => new.resolve_right fun wave => by
      rw [there] at wave
      cases wave.2

end Toolbox

namespace Session

variable {session : Session State} {verb : Verb} {relative : Path} {visit : Visit State}
  {machine last : Machine State} {tree between later : FileTree}

theorem adds_produce (only : session.runner.OnlyWrites) (plain : Plain machine.tree) :
    Adds machine.tree (session.produce verb (session.sourceOf relative)
      (session.targetOf verb relative) machine).machine.tree
        (· = session.placeOf verb relative machine.tree) := by
  cases verb with
  | copy =>
    unfold produce copy
    dsimp only
    split
    · exact Adds.refl plain _
    · next copied done =>
      obtain ⟨keeps, leaf, -, file, stands⟩ := FileTree.copyFile_ok plain done
      have filled := Option.isSome_iff_exists.mpr ⟨file, stands⟩
      exact Adds.of_keeps keeps ((FileTree.isDirectoryAt_of_file? filled).trans leaf.symm)
  | waveToOgg => exact Toolbox.adds_encodeWave only plain false
  | waveToOggMono => exact Toolbox.adds_encodeWave only plain true
  | mp3ToOgg => exact Toolbox.adds_convertMp3 only plain

/-- Giving a file its time neither makes nor moves anything. -/
theorem adds_stamped (plain : Plain tree) {source target : Path}
    (stamped : tree.copyModified source target = .ok later) (fresh : Location → Prop) :
    Adds tree later fresh := by
  obtain ⟨-, -, keeps, same, -⟩ := FileTree.copyModified_ok plain stamped
  refine ⟨keeps.plain, keeps.working, fun place => (same place).2, keeps.closed,
    fun place there => Or.inl ?_⟩
  have stands := FileTree.node?_isSome_of_file?_isSome there
  have leaf := FileTree.isDirectoryAt_of_file? there
  rw [(same place).1] at stands
  rw [(same place).2] at leaf
  rcases plain.cases place with none | directory | ⟨file, before⟩
  · rw [none] at stands
    cases stands
  · rw [FileTree.isDirectoryAt_iff.mpr directory] at leaf
    cases leaf
  · rw [FileTree.file?_eq_some_iff.mpr before]
    rfl

theorem placeOf_congr (working : later.workingDirectory = tree.workingDirectory) :
    session.placeOf verb relative later = session.placeOf verb relative tree := by
  unfold placeOf
  rw [working]

theorem waveOf_congr (working : later.workingDirectory = tree.workingDirectory) :
    session.waveOf verb relative later = session.waveOf verb relative tree := by
  unfold waveOf
  rw [working]

/-! ### Visits -/

/-- Once room is made, a visit makes no directory, and no file but its output. -/
theorem adds_visit (only : session.runner.OnlyWrites) (plain : Plain machine.tree) :
    Adds (session.withRoom verb relative machine).tree
      (session.visit verb relative machine).machine.tree
        (· = session.placeOf verb relative machine.tree) := by
  have grows := FileTree.makeParent_grows_fronts plain (session.targetOf verb relative)
  have roomPlain : Plain (session.withRoom verb relative machine).tree := grows.plain
  have produces : Adds (session.withRoom verb relative machine).tree
      (session.producing verb relative machine).machine.tree
        (· = session.placeOf verb relative machine.tree) := by
    rw [← @placeOf_congr State session verb relative machine.tree
      (session.withRoom verb relative machine).tree grows.working]
    exact adds_produce only roomPlain
  have course := session.visit_course verb relative machine
  generalize (session.visit verb relative machine).value = value at course
  generalize (session.visit verb relative machine).machine = left at course ⊢
  cases course with
  | noRoom => exact Adds.refl roomPlain _
  | current => exact Adds.refl roomPlain _
  | notProduced => exact produces
  | notStamped => exact produces
  | rebuilt _ _ _ stamped => exact produces.trans (adds_stamped produces.plain stamped _)

/-- Where a visit succeeds, there is room for its output, and something stands at its place. -/
theorem stands_of_visit (only : session.runner.OnlyWrites) (plain : Plain machine.tree)
    {completion : Completion}
    (succeeded : (session.visit verb relative machine).value = .ok completion) :
    (machine.tree.makeParent (session.targetOf verb relative)).2 = .ok () ∧
      ((session.visit verb relative machine).machine.tree.node?
        (session.placeOf verb relative machine.tree)).isSome = true := by
  have grows := FileTree.makeParent_grows_fronts plain (session.targetOf verb relative)
  have roomPlain : Plain (session.withRoom verb relative machine).tree := grows.plain
  have produces := @adds_produce State session verb relative
    (session.withRoom verb relative machine) only roomPlain
  have working : (session.withRoom verb relative machine).tree.workingDirectory =
    machine.tree.workingDirectory := grows.working
  have course := session.visit_course verb relative machine
  generalize (session.visit verb relative machine).value = value at succeeded course
  generalize (session.visit verb relative machine).machine = left at course ⊢
  subst succeeded
  cases course with
  | current room decided =>
    obtain ⟨-, file, -, found, -⟩ := FileTree.decision_eq_upToDate_iff.mp decided
    refine ⟨room, ?_⟩
    have reaches := ((FileTree.fileAt?_eq_some_iff roomPlain).mp found).1
    have stands := reaches.stands roomPlain.toSound
    rwa [working] at stands
  | rebuilt room decided produced stamped =>
    obtain ⟨-, reaches, -, same, -⟩ := FileTree.copyModified_ok produces.plain stamped
    refine ⟨room, (same _).1.trans ?_⟩
    have stands := reaches.stands produces.plain.toSound
    rwa [produces.working, working] at stands

/-! ### Runs -/

/-- What becomes of directories and regular files while some files are visited. -/
structure Advances (session : Session State) (visits : List (Visit State))
    (tree later : FileTree) : Prop where
  plain : Plain later
  working : later.workingDirectory = tree.workingDirectory
  directory : ∀ place, tree.isDirectoryAt place = true → later.isDirectoryAt place = true
  /-- A regular file that is new is an output. -/
  born : ∀ place, (later.file? place).isSome = true → (tree.file? place).isSome = true ∨
    ∃ visit ∈ visits, place = session.placeOf visit.verb visit.relative tree
  /-- A regular file that is gone was taken for a wave. -/
  gone : ∀ place, (tree.file? place).isSome = true → (later.file? place).isSome = true ∨
    ∃ visit ∈ visits, visit.verb = .mp3ToOgg ∧
      place = session.waveOf visit.verb visit.relative tree

theorem Advances.refl (plain : Plain tree) : session.Advances [] tree tree :=
  ⟨plain, rfl, fun _ => id, fun _ => Or.inl, fun _ => Or.inl⟩

theorem Advances.trans {front back : List (Visit State)}
    (first : session.Advances front tree between) (second : session.Advances back between later) :
    session.Advances (front ++ back) tree later where
  plain := second.plain
  working := second.working.trans first.working
  directory place there := second.directory place (first.directory place there)
  born place there := by
    rcases second.born place there with before | ⟨visit, member, here⟩
    · refine (first.born place before).imp_right fun ⟨visit, member, here⟩ => ?_
      exact ⟨visit, List.mem_append_left _ member, here⟩
    · exact Or.inr ⟨visit, List.mem_append_right _ member,
        here.trans (placeOf_congr first.working)⟩
  gone place there := by
    rcases first.gone place there with still | ⟨visit, member, decodes, here⟩
    · refine (second.gone place still).imp_right fun ⟨visit, member, decodes, here⟩ => ?_
      exact ⟨visit, List.mem_append_right _ member, decodes,
        here.trans (waveOf_congr first.working)⟩
    · exact Or.inr ⟨visit, List.mem_append_left _ member, decodes, here⟩

theorem advances_of_visit (only : session.runner.OnlyWrites) (plain : Plain visit.machine.tree) :
    session.Advances [visit] visit.machine.tree (session.effectOf visit).machine.tree := by
  have grows := FileTree.makeParent_grows_fronts plain
    (session.targetOf visit.verb visit.relative)
  have adds := @adds_visit State session visit.verb visit.relative visit.machine only plain
  have here := List.mem_singleton_self visit
  refine ⟨adds.plain, adds.working.trans grows.working,
    fun place there => ?_, fun place there => ?_, fun place there => ?_⟩
  · exact (adds.directory place).trans (grows.isDirectoryAt there)
  · rcases adds.file place there with before | output
    · exact Or.inl (grows.file?_eq place ▸ before)
    · exact Or.inr ⟨visit, here, output⟩
  · refine Decidable.or_iff_not_imp_left.mpr fun lost => ?_
    obtain ⟨other, one, decodes, -, wave⟩ :=
      (differs_of_visit only.confined only.sparesFiles plain).file place there (by simpa using lost)
    obtain rfl := List.mem_singleton.mp one
    exact ⟨other, here, decodes, wave⟩

theorem advances_of_follows (only : session.runner.OnlyWrites) {visits : List (Visit State)}
    (follows : session.Follows machine visits last) (plain : Plain machine.tree) :
    session.Advances visits machine.tree last.tree := by
  induction visits generalizing machine with
  | nil =>
    rw [follows]
    exact Advances.refl plain
  | cons visit rest inductionHypothesis =>
    obtain ⟨rfl, later⟩ := follows
    have here := advances_of_visit only plain
    exact here.trans (inductionHypothesis later here.plain)

end Session

end AssetPipeline
