/-
This file says what a run may leave different from how it found it, whatever fails on the way. A
visit that decides to rebuild writes where its target leads, and one that converts an mp3 file also
writes, and removes, the wave beside it; any visit may make the directories that its target needs.
Nothing else in the file tree differs after a run, and no regular file is gone but such a wave. So
an output that was current whenever it was looked at, and is the wave of none that was rebuilt, is
what it was.
-/

import AssetPipeline.Proofs.Build.Frame
import AssetPipeline.Proofs.Build.Retention

namespace AssetPipeline

open FileTree (Plain Keeps)

variable {State : Type}

/-! ### Runners that do no more than write -/

/-- A regular file at the target of a job is a regular file after the launch. -/
def Runner.SparesFiles (runner : Runner State) : Prop :=
  ∀ job machine, Plain machine.tree →
    (machine.tree.file? (job.target.location machine.tree.workingDirectory)).isSome = true →
      ((runner.launch job machine).machine.tree.file?
        (job.target.location machine.tree.workingDirectory)).isSome = true

theorem Runner.sparesFiles_writing {content : Bytes} {code : Int} :
    (Runner.writing content code).SparesFiles := by
  intro job machine plain there
  rcases @launch_writing content code job machine with ⟨same, -⟩ | ⟨tree, written, found, same⟩
  · rwa [same]
  · obtain ⟨keeps, -⟩ := FileTree.writeFile_ok plain written
    obtain ⟨file, stands⟩ := Session.file?_of_isFile keeps.plain keeps.working found
    rw [same, stands]
    rfl

namespace Session

variable {session : Session State} {verb : Verb} {relative : Path} {visit : Visit State}
  {machine last : Machine State} {tree between later : FileTree}

/-! ### What visits decide -/

/-- The visit decides this about its output. It then says so before it reports anything else. -/
def Decides (session : Session State) (visit : Visit State) (decision : Decision) : Prop :=
  (session.effectOf visit).events.head? =
    some (.file visit.relative (outputOf visit.verb visit.relative) decision)

instance (visit : Visit State) (decision : Decision) : Decidable (session.Decides visit decision) :=
  inferInstanceAs (Decidable (_ = _))

/-- A visit decides once there is room for its output. -/
theorem decides_iff {decision : Decision} : session.Decides visit decision ↔
    (visit.machine.tree.makeParent (session.targetOf visit.verb visit.relative)).2 = .ok () ∧
      session.decisionOf visit.verb visit.relative visit.machine = decision := by
  obtain ⟨verb, relative, machine⟩ := visit
  unfold Decides effectOf Session.visit
  dsimp only
  cases room : (machine.tree.makeParent (session.targetOf verb relative)).2 with
  | error error =>
    have failed : (makeRoom (session.targetOf verb relative) machine).value = .error error := room
    rw [Effect.andThen_of_error failed]
    exact iff_of_false nofun fun ⟨made, _⟩ => nomatch made
  | ok made =>
    have succeeded : (makeRoom (session.targetOf verb relative) machine).value = .ok made := room
    have first : (makeRoom (session.targetOf verb relative) machine).events = [] := rfl
    rw [Effect.andThen_of_ok succeeded]
    simp only [Effect.after, first, List.nil_append, List.cons_append, List.head?_cons,
      Option.some.injEq, Event.file.injEq, true_and]
    rfl

/-- What a visit finds current is a regular file. -/
theorem file?_of_upToDate (plain : Plain visit.machine.tree)
    (current : session.Decides visit .upToDate) :
    ∃ file, visit.machine.tree.file?
      (session.placeOf visit.verb visit.relative visit.machine.tree) = some file := by
  obtain ⟨-, decided⟩ := decides_iff.mp current
  obtain ⟨sourceFile, file, -, found, -⟩ := FileTree.decision_eq_upToDate_iff.mp decided
  have grows := FileTree.makeParent_grows_fronts plain
    (session.targetOf visit.verb visit.relative)
  obtain ⟨-, there⟩ := (FileTree.fileAt?_eq_some_iff grows.plain).mp found
  refine ⟨file, ?_⟩
  rw [grows.working, grows.file?_eq] at there
  exact there

/-! ### Producing an output -/

/-- What producing an output changes, and the one regular file that may be gone afterwards. -/
structure Writes (session : Session State) (verb : Verb) (relative : Path)
    (tree later : FileTree) : Prop where
  keeps : Keeps tree later fun place => place = session.placeOf verb relative tree ∨
    verb = .mp3ToOgg ∧ place = session.waveOf verb relative tree
  files : ∀ place, (tree.file? place).isSome = true → later.file? place = none →
    verb = .mp3ToOgg ∧ place = session.waveOf verb relative tree

namespace Writes

theorem refl (plain : Plain tree) : session.Writes verb relative tree tree where
  keeps := Keeps.refl plain _
  files place there gone := by
    rw [gone] at there
    cases there

/-- A further change of one place of the two, which takes no file away but the wave. -/
theorem extend {place : Location} (writes : session.Writes verb relative tree between)
    (keeps : Keeps between later (· = place))
    (within : place = session.placeOf verb relative tree ∨
      verb = .mp3ToOgg ∧ place = session.waveOf verb relative tree)
    (stays : place = session.waveOf verb relative tree ∧ verb = .mp3ToOgg ∨
      ((between.file? place).isSome = true → (later.file? place).isSome = true)) :
    session.Writes verb relative tree later where
  keeps := writes.keeps.trans (keeps.mono fun _ same => same ▸ within)
  files other there gone := by
    by_cases before : (between.file? other).isSome = true
    · by_cases same : other = place
      · subst same
        rcases stays with ⟨wave, decodes⟩ | stays
        · exact ⟨decodes, wave⟩
        · rw [gone] at stays
          cases stays before
      · rw [← FileTree.file?_congr (keeps.elsewhere other same), gone] at before
        cases before
    · exact writes.files other there (by simpa using before)

end Writes

theorem writes_produce (confined : session.runner.Confined) (spares : session.runner.SparesFiles)
    (plain : Plain machine.tree) :
    session.Writes verb relative machine.tree (session.produce verb (session.sourceOf relative)
      (session.targetOf verb relative) machine).machine.tree := by
  refine @produce_preserves State session verb machine
    (fun between => session.Writes verb relative machine.tree between.tree) _ _ ?_ ?_ ?_
    (Writes.refl plain)
  · intro job between _ aimed writes
    have changes := confined job between writes.keeps.plain
    have stays := spares job between writes.keeps.plain
    rw [writes.keeps.working] at changes stays
    refine writes.extend changes ?_ (Or.inr stays)
    rcases aimed with output | ⟨decodes, wave⟩
    · rw [output]
      exact Or.inl rfl
    · rw [wave]
      exact Or.inr ⟨decodes, rfl⟩
  · intro between removed decodes removal writes
    have changes := (FileTree.removeFile_ok writes.keeps.plain removal).1
    rw [writes.keeps.working] at changes
    exact writes.extend changes (Or.inr ⟨decodes, rfl⟩) (Or.inl ⟨rfl, decodes⟩)
  · intro copied _ done
    obtain ⟨changes, -, -, file, stands⟩ := FileTree.copyFile_ok plain done
    refine (Writes.refl plain).extend changes (Or.inl rfl) (Or.inr fun _ => ?_)
    rw [stands]
    rfl

theorem writes_stamped (writes : session.Writes verb relative tree between)
    (stamped : between.copyModified (session.sourceOf relative) (session.targetOf verb relative) =
      .ok later) : session.Writes verb relative tree later := by
  obtain ⟨-, -, changes, -, stamp⟩ := FileTree.copyModified_ok writes.keeps.plain stamped
  rw [writes.keeps.working] at changes stamp
  refine writes.extend changes (Or.inl rfl) (Or.inr fun there => ?_)
  obtain ⟨file, stands⟩ := Option.isSome_iff_exists.mp there
  rw [stamp file stands]
  rfl

/-! ### What a visit may change -/

/-- The visit decides to rebuild its output, and the output stands there. -/
def RebuildsAt (session : Session State) (visit : Visit State) (place : Location) : Prop :=
  session.Decides visit .rebuild ∧
    place = session.placeOf visit.verb visit.relative visit.machine.tree

/-- The visit decides to convert an mp3 file, and the wave beside the output stands there. -/
def DecodesAt (session : Session State) (visit : Visit State) (place : Location) : Prop :=
  visit.verb = .mp3ToOgg ∧ session.Decides visit .rebuild ∧
    place = session.waveOf visit.verb visit.relative visit.machine.tree

instance (visit : Visit State) (place : Location) : Decidable (session.RebuildsAt visit place) :=
  inferInstanceAs (Decidable (_ ∧ _))

instance (visit : Visit State) (place : Location) : Decidable (session.DecodesAt visit place) :=
  inferInstanceAs (Decidable (_ ∧ _ ∧ _))

/-- A front of the path of the output, as that is written, leads there. -/
def NeedsDirectory (session : Session State) (visit : Visit State) (place : Location) : Prop :=
  ∃ directory : Path, directory.Fronts (session.targetOf visit.verb visit.relative) ∧
    place = directory.location visit.machine.tree.workingDirectory

/-- How a later tree differs from an earlier one, once these visits lie between them. -/
structure Differs (session : Session State) (visits : List (Visit State))
    (tree later : FileTree) : Prop where
  plain : Plain later
  working : later.workingDirectory = tree.workingDirectory
  node : ∀ place, later.node? place ≠ tree.node? place →
    (∃ visit ∈ visits, session.RebuildsAt visit place) ∨
    (∃ visit ∈ visits, session.DecodesAt visit place) ∨
    tree.node? place = none ∧ later.node? place = some .directory ∧
      ∃ visit ∈ visits, session.NeedsDirectory visit place
  file : ∀ place, (tree.file? place).isSome = true → later.file? place = none →
    ∃ visit ∈ visits, session.DecodesAt visit place
  closed : ∀ place, later.isClosedAt place = tree.isClosedAt place

/-- Making room for an output makes the directories it needs, and nothing else. -/
theorem differs_withRoom (plain : Plain visit.machine.tree) : session.Differs [visit]
    visit.machine.tree (session.withRoom visit.verb visit.relative visit.machine).tree := by
  have grows := FileTree.makeParent_grows_fronts plain
    (session.targetOf visit.verb visit.relative)
  refine ⟨grows.plain, grows.working, fun place changed => ?_, fun place there gone => ?_,
    grows.closed⟩
  · obtain ⟨vacant, directory, made, fronts, -, same⟩ := (grows.node place).resolve_left changed
    exact Or.inr (Or.inr ⟨vacant, directory, visit, List.mem_singleton_self _, made, fronts, same⟩)
  · have gone : (visit.machine.tree.makeParent
        (session.targetOf visit.verb visit.relative)).1.file? place = none := gone
    rw [← grows.file?_eq place, gone] at there
    cases there

/-- A visit that decides to rebuild may besides write its output and its wave. -/
theorem differs_of_writes (decides : session.Decides visit .rebuild)
    (makesRoom : session.Differs [visit] visit.machine.tree
      (session.withRoom visit.verb visit.relative visit.machine).tree)
    (writes : session.Writes visit.verb visit.relative
      (session.withRoom visit.verb visit.relative visit.machine).tree later) :
    session.Differs [visit] visit.machine.tree later := by
  have outputAt : session.placeOf visit.verb visit.relative
      (session.withRoom visit.verb visit.relative visit.machine).tree =
        session.placeOf visit.verb visit.relative visit.machine.tree := by
    unfold placeOf
    rw [makesRoom.working]
  have waveAt : session.waveOf visit.verb visit.relative
      (session.withRoom visit.verb visit.relative visit.machine).tree =
        session.waveOf visit.verb visit.relative visit.machine.tree := by
    unfold waveOf
    rw [makesRoom.working]
  obtain ⟨keeps, files⟩ := writes
  rw [outputAt, waveAt] at keeps
  rw [waveAt] at files
  have here := List.mem_singleton_self visit
  refine ⟨keeps.plain, keeps.working.trans makesRoom.working, fun place changed => ?_,
    fun place there gone => ?_, fun place => (keeps.closed place).trans (makesRoom.closed place)⟩
  · by_cases output : place = session.placeOf visit.verb visit.relative visit.machine.tree
    · exact Or.inl ⟨visit, here, decides, output⟩
    by_cases wave : visit.verb = .mp3ToOgg ∧
        place = session.waveOf visit.verb visit.relative visit.machine.tree
    · exact Or.inr (Or.inl ⟨visit, here, wave.1, decides, wave.2⟩)
    have same := keeps.elsewhere place (not_or.mpr ⟨output, wave⟩)
    rw [same] at changed ⊢
    exact makesRoom.node place changed
  · by_cases before : ((session.withRoom visit.verb visit.relative visit.machine).tree.file?
        place).isSome = true
    · obtain ⟨decodes, wave⟩ := files place before gone
      exact ⟨visit, here, decodes, decides, wave⟩
    · exact makesRoom.file place there (by simpa using before)

theorem differs_of_visit (confined : session.runner.Confined)
    (spares : session.runner.SparesFiles) (plain : Plain visit.machine.tree) :
    session.Differs [visit] visit.machine.tree (session.effectOf visit).machine.tree := by
  have makesRoom := @differs_withRoom State session visit plain
  have produces : session.Writes visit.verb visit.relative
      (session.withRoom visit.verb visit.relative visit.machine).tree
      (session.producing visit.verb visit.relative visit.machine).machine.tree :=
    writes_produce confined spares makesRoom.plain
  have course := session.visit_course visit.verb visit.relative visit.machine
  unfold effectOf
  generalize (session.visit visit.verb visit.relative visit.machine).value = value at course
  generalize (session.visit visit.verb visit.relative visit.machine).machine = left at course ⊢
  cases course with
  | noRoom room => exact makesRoom
  | current room decided => exact makesRoom
  | notProduced room decided produced =>
    exact differs_of_writes (decides_iff.mpr ⟨room, decided⟩) makesRoom produces
  | notStamped room decided produced stamped =>
    exact differs_of_writes (decides_iff.mpr ⟨room, decided⟩) makesRoom produces
  | rebuilt room decided produced stamped =>
    exact differs_of_writes (decides_iff.mpr ⟨room, decided⟩) makesRoom
      (writes_stamped produces stamped)

/-! ### What a run may change -/

theorem Differs.refl (plain : Plain tree) : session.Differs [] tree tree where
  plain := plain
  working := rfl
  node place changed := absurd rfl changed
  file place there gone := by
    rw [gone] at there
    cases there
  closed _ := rfl

/-- What a front of the visits has changed, those behind it may change further. -/
theorem Differs.trans {front back : List (Visit State)}
    (first : session.Differs front tree between) (second : session.Differs back between later) :
    session.Differs (front ++ back) tree later where
  plain := second.plain
  working := second.working.trans first.working
  node place changed := by
    simp only [List.mem_append, or_and_right, exists_or]
    by_cases late : later.node? place = between.node? place
    · rw [late] at changed ⊢
      rcases first.node place changed with rebuilt | decoded | ⟨vacant, directory, needed⟩
      · exact Or.inl (Or.inl rebuilt)
      · exact Or.inr (Or.inl (Or.inl decoded))
      · exact Or.inr (Or.inr ⟨vacant, directory, Or.inl needed⟩)
    · rcases second.node place late with rebuilt | decoded | ⟨vacant, directory, needed⟩
      · exact Or.inl (Or.inr rebuilt)
      · exact Or.inr (Or.inl (Or.inr decoded))
      · by_cases early : between.node? place = tree.node? place
        · exact Or.inr (Or.inr ⟨early ▸ vacant, directory, Or.inr needed⟩)
        · rcases first.node place early with rebuilt | decoded | ⟨-, stands, -⟩
          · exact Or.inl (Or.inl rebuilt)
          · exact Or.inr (Or.inl (Or.inl decoded))
          · rw [vacant] at stands
            cases stands
  file place there gone := by
    by_cases before : (between.file? place).isSome = true
    · obtain ⟨visit, member, decodes⟩ := second.file place before gone
      exact ⟨visit, List.mem_append_right _ member, decodes⟩
    · obtain ⟨visit, member, decodes⟩ := first.file place there (by simpa using before)
      exact ⟨visit, List.mem_append_left _ member, decodes⟩
  closed place := (second.closed place).trans (first.closed place)

theorem differs_of_follows (confined : session.runner.Confined)
    (spares : session.runner.SparesFiles) {visits : List (Visit State)}
    (follows : session.Follows machine visits last) (plain : Plain machine.tree) :
    session.Differs visits machine.tree last.tree := by
  induction visits generalizing machine with
  | nil =>
    rw [follows]
    exact Differs.refl plain
  | cons visit rest inductionHypothesis =>
    obtain ⟨rfl, later⟩ := follows
    have here := differs_of_visit confined spares plain
    exact here.trans (inductionHypothesis later here.plain)

/-- Through the visits up to one that finds its output current nothing has become of that output,
unless it was rebuilt or taken for a wave. -/
theorem node?_of_upToDate (confined : session.runner.Confined)
    (spares : session.runner.SparesFiles) {visits : List (Visit State)}
    (follows : session.Follows machine visits last) (plain : Plain machine.tree)
    (member : visit ∈ visits) (current : session.Decides visit .upToDate)
    (unbuilt : ∀ other ∈ visits, ¬ session.RebuildsAt other
      (session.placeOf visit.verb visit.relative visit.machine.tree))
    (undecoded : ∀ other ∈ visits, ¬ session.DecodesAt other
      (session.placeOf visit.verb visit.relative visit.machine.tree)) :
    last.tree.node? (session.placeOf visit.verb visit.relative visit.machine.tree) =
      machine.tree.node? (session.placeOf visit.verb visit.relative visit.machine.tree) := by
  have whole := differs_of_follows confined spares follows plain
  obtain ⟨front, back, rfl⟩ := List.append_of_mem member
  obtain ⟨middle, before, rfl, -⟩ := follows_append.mp follows
  have early := differs_of_follows confined spares before plain
  obtain ⟨file, stands⟩ := file?_of_upToDate early.plain current
  have found := FileTree.file?_eq_some_iff.mp stands
  -- A directory made at the place before would stand there instead of the file, and one made
  -- after would have found nothing.
  have same : visit.machine.tree.node? _ = machine.tree.node? _ := Decidable.of_not_not
    fun changed => by
      rcases early.node _ changed with ⟨other, inFront, rebuilt⟩ | ⟨other, inFront, decoded⟩ |
        ⟨-, directory, -⟩
      · exact unbuilt other (List.mem_append_left _ inFront) rebuilt
      · exact undecoded other (List.mem_append_left _ inFront) decoded
      · rw [found] at directory
        cases directory
  refine Decidable.of_not_not fun changed => ?_
  rcases whole.node _ changed with ⟨other, inAll, rebuilt⟩ | ⟨other, inAll, decoded⟩ |
    ⟨vacant, -, -⟩
  · exact unbuilt other inAll rebuilt
  · exact undecoded other inAll decoded
  · rw [← same, found] at vacant
    cases vacant

/-- What stands somewhere else after a run than before is an output that a visit decided to
rebuild, the wave of an mp3 file that one decided to convert, or a directory that was made because
it is named by a front of the path of an output. No regular file is gone but such a wave: neither
after the run, nor after any of its visits. An output that was found current each time, and is no
such wave, stands as it did. A command that is refused, or cannot list its files, changes
nothing. And no directory is closed or opened. -/
theorem run_changes_only (confined : session.runner.Confined)
    (spares : session.runner.SparesFiles) (plain : Plain machine.tree) (script : Script) :
    let start := machine.tree
    let final := (session.run script machine).machine.tree
    let visits := session.visits script machine
    (∀ place, final.node? place ≠ start.node? place →
      (∃ visit ∈ visits, session.RebuildsAt visit place) ∨
      (∃ visit ∈ visits, session.DecodesAt visit place) ∨
      start.node? place = none ∧ final.node? place = some .directory ∧
        ∃ visit ∈ visits, session.NeedsDirectory visit place) ∧
    (∀ place, (start.file? place).isSome = true → final.file? place = none →
      ∃ visit ∈ visits, session.DecodesAt visit place) ∧
    (∀ visit ∈ visits, ∀ place, (visit.machine.tree.file? place).isSome = true →
      (session.effectOf visit).machine.tree.file? place = none → session.DecodesAt visit place) ∧
    (∀ visit ∈ visits, session.Decides visit .upToDate →
      let place := session.placeOf visit.verb visit.relative visit.machine.tree
      (∀ other ∈ visits, ¬ session.RebuildsAt other place) →
      (∀ other ∈ visits, ¬ session.DecodesAt other place) →
        final.node? place = start.node? place) ∧
    (∀ command found error, (command.check = .error error ∨
        ∃ checked, command.check = .ok checked ∧
          Selection.members found.tree session.layout.sourceRoot checked.wildcard =
            .error error) →
      (session.record command found).machine = found) ∧
    ∀ place, final.isClosedAt place = start.isClosedAt place := by
  have follows := session.follows_visits script machine
  have whole := differs_of_follows confined spares follows plain
  refine ⟨whole.node, whole.file, ?_, ?_, ?_, whole.closed⟩
  · intro visit member place there gone
    have plainHere := (@invariant_of_follows State session _ _ (fun found => Plain found.tree) _
      follows plain fun other _ plain => (differs_of_visit confined spares plain).plain).2 visit
        member
    obtain ⟨other, one, decodes⟩ :=
      (differs_of_visit confined spares plainHere).file place there gone
    exact List.mem_singleton.mp one ▸ decodes
  · intro visit member current place unbuilt undecoded
    exact node?_of_upToDate confined spares follows plain member current unbuilt undecoded
  · rintro command found error (refused | ⟨checked, accepted, unlisted⟩)
    · exact congrArg Effect.machine (carryOut_of_refused refused)
    · exact congrArg Effect.machine (carryOut_of_unlisted accepted unlisted)

/-- Converting the mp3 file puts an output where nothing stood. -/
theorem run_changes_only_waveAndMp3 :
    Plain waveAndMp3.tree ∧
      (delivering.run copyAndConvert waveAndMp3).machine.tree.node?
        [['o', 'u', 't'], ['a', '.', 'o', 'g', 'g']] ≠
          waveAndMp3.tree.node? [['o', 'u', 't'], ['a', '.', 'o', 'g', 'g']] ∧
      ∃ visit ∈ delivering.visits copyAndConvert waveAndMp3,
        delivering.RebuildsAt visit [['o', 'u', 't'], ['a', '.', 'o', 'g', 'g']] := by
  have plain : Plain waveAndMp3.tree := by decide +kernel
  have changed : (delivering.run copyAndConvert waveAndMp3).machine.tree.node?
      [['o', 'u', 't'], ['a', '.', 'o', 'g', 'g']] ≠
        waveAndMp3.tree.node? [['o', 'u', 't'], ['a', '.', 'o', 'g', 'g']] := by decide +kernel
  refine ⟨plain, changed, ?_⟩
  rcases (@run_changes_only Unit delivering waveAndMp3 Runner.confined_writing
    Runner.sparesFiles_writing plain copyAndConvert).1 _ changed with
    rebuilt | ⟨visit, member, decoded⟩ | ⟨-, directory, -⟩
  · exact rebuilt
  · have none : ¬ ∃ visit ∈ delivering.visits copyAndConvert waveAndMp3,
        delivering.DecodesAt visit [['o', 'u', 't'], ['a', '.', 'o', 'g', 'g']] := by
      decide +kernel
    exact absurd ⟨visit, member, decoded⟩ none
  · have file : (delivering.run copyAndConvert waveAndMp3).machine.tree.node?
        [['o', 'u', 't'], ['a', '.', 'o', 'g', 'g']] ≠ some .directory := by decide +kernel
    exact absurd directory file

end Session

end AssetPipeline
