/-
This file says what a visit leaves alone, wherever the file it takes up lies. All that a visit
writes stands in the directory that holds the output. When that directory is the output root or
inside, and whatever else lies on the way to it is there already, nothing changes but strictly
inside the output root. The one output that is not an entry of that directory goes up from it, and
leads to a directory, which no launch can do away with, for there is something in it.
-/

import AssetPipeline.Proofs.Build.Completion
import AssetPipeline.Proofs.Build.Visits

namespace AssetPipeline

open FileTree (Plain Keeps Grows)

namespace Location

/-- Is the place below the directory, and not the directory itself? -/
def Inside (directory place : Location) : Prop := directory <+: place ∧ place ≠ directory

variable {directory place : Location} {name : Name}

instance (directory place : Location) : Decidable (directory.Inside place) :=
  inferInstanceAs (Decidable (_ ∧ _))

theorem inside_child_iff : directory.Inside (place.child name) ↔ directory <+: place := by
  unfold Inside child
  rw [List.prefix_concat_iff]
  constructor
  · rintro ⟨same | inside, differs⟩
    · exact absurd same.symm differs
    · exact inside
  · intro inside
    refine ⟨Or.inr inside, fun same => ?_⟩
    have shorter := inside.length_le
    rw [← same, List.length_append, List.length_singleton] at shorter
    omega

theorem not_inside_self : ¬ directory.Inside directory := fun inside => inside.2 rfl

end Location

namespace FileTree

variable {tree later : FileTree}

/-- A change of what holds something that stays is no change at all. -/
theorem Keeps.of_held {place : Location} (plain : Plain tree)
    (keeps : Keeps tree later (· = place.dropLast)) (stands : (tree.node? place).isSome = true)
    (other : Location) : later.node? other = tree.node? other := by
  by_cases same : other = place.dropLast
  · subst same
    by_cases root : place = []
    · subst root
      rfl
    · have differs : place ≠ place.dropLast := by
        intro equal
        have lengths := congrArg List.length equal
        rw [List.length_dropLast] at lengths
        have := List.length_pos_iff.mpr root
        omega
      have before := plain.isDirectoryAt_dropLast stands
      have after := keeps.plain.isDirectoryAt_dropLast (keeps.elsewhere _ differs ▸ stands)
      rw [isDirectoryAt_iff.mp before, isDirectoryAt_iff.mp after]
  · exact keeps.elsewhere other same

end FileTree

namespace Session

variable {State : Type} {session : Session State} {root : Location} {verb : Verb} {relative : Path}
  {front : List Text} {name : Name} {machine : Machine State} {tree later : FileTree}

/-- The output root leads to `root`, and what lies on the way to it stands, unless it is inside. -/
structure Rooted (session : Session State) (root : Location) (tree : FileTree) : Prop where
  plain : Plain tree
  given : session.layout.outputRoot.text ≠ []
  leads : session.layout.outputRoot.location tree.workingDirectory = root
  way : ∀ moves, moves <+: session.layout.outputRoot.moves →
    ¬ root.Inside ((session.layout.outputRoot.startFrom tree.workingDirectory).along moves) →
      tree.isDirectoryAt
        ((session.layout.outputRoot.startFrom tree.workingDirectory).along moves) = true

theorem rooted_of_isDirectory (plain : Plain tree)
    (directory : tree.isDirectory session.layout.outputRoot = true) :
    session.Rooted (session.layout.outputRoot.location tree.workingDirectory) tree := by
  obtain ⟨reaches, stands⟩ := (FileTree.isDirectory_iff plain).mp directory
  refine ⟨plain, reaches.usable.given, rfl, fun moves part _ => ?_⟩
  by_cases whole : moves = session.layout.outputRoot.moves
  · rw [whole, ← Path.location_eq_moves]
    exact stands
  · exact reaches.isDirectoryAt_of_isPrefix part whole

theorem Rooted.keeps (rooted : session.Rooted root tree) (keeps : Keeps tree later root.Inside) :
    session.Rooted root later where
  plain := keeps.plain
  given := rooted.given
  leads := keeps.working ▸ rooted.leads
  way moves part outside := by
    rw [keeps.working] at outside ⊢
    rw [FileTree.isDirectoryAt_iff, keeps.elsewhere _ outside]
    exact FileTree.isDirectoryAt_iff.mp (rooted.way moves part outside)

theorem Rooted.isDirectoryAt (rooted : session.Rooted root tree) :
    tree.isDirectoryAt root = true := by
  have stands := rooted.way _ List.prefix_rfl
  rw [← Path.location_eq_moves, rooted.leads] at stands
  exact stands Location.not_inside_self

/-- The directory that holds an output. -/
def holderOf (root : Location) (output : Path) : Location := root.along output.moves.dropLast

/-- What lies on the way to an output and is not at the root or inside is there, and the output is
held by the root or a directory inside if it is due. -/
structure Inward (root : Location) (tree : FileTree) (output : Path) (decision : Decision) :
    Prop where
  way : ∀ moves, moves <+: output.moves.dropLast →
    root <+: root.along moves ∨ tree.isDirectoryAt (root.along moves) = true
  holder : decision = .rebuild → root <+: holderOf root output

/-! ### Where things stand -/

theorem holderOf_outputOf (inner : relative.Inner front name) (verb : Verb) :
    holderOf root (outputOf verb relative) = root.along front := by
  unfold holderOf
  rw [inner.moves_outputOf, List.dropLast_concat, Location.along_filter]

/-- An output with a name is an entry of its directory. -/
theorem Rooted.placeOf_eq_child (rooted : session.Rooted root tree)
    (inner : relative.Inner front name) (named : verb.outputName name ≠ Path.dotDot) :
    session.placeOf verb relative tree =
      (holderOf root (outputOf verb relative)).child (verb.outputName name) := by
  unfold placeOf targetOf
  rw [inner.location_outputOf verb rooted.given, rooted.leads, holderOf_outputOf inner,
    Location.along_concat (isEntry_outputName inner.entry named)]

/-- The wave of an output with a name is another. -/
theorem Rooted.waveOf_eq_child (rooted : session.Rooted root tree)
    (inner : relative.Inner front name) (converts : verb ≠ .copy)
    (named : verb.outputName name ≠ Path.dotDot) :
    session.waveOf verb relative tree = (holderOf root (outputOf verb relative)).child
      (Path.renamed (verb.outputName name) Toolbox.waveExtension) := by
  unfold waveOf targetOf
  rw [inner.location_scratchOf converts rooted.given named, rooted.leads, holderOf_outputOf inner,
    Location.along_concat (inner.scratchName converts named).1]

/-- An output that goes up leads to what holds the directory it goes up from. -/
theorem Rooted.placeOf_eq_dropLast (rooted : session.Rooted root tree)
    (inner : relative.Inner front name) (up : verb.outputName name = Path.dotDot) :
    session.placeOf verb relative tree = (holderOf root (outputOf verb relative)).dropLast := by
  unfold placeOf targetOf
  rw [inner.location_outputOf verb rooted.given, rooted.leads, holderOf_outputOf inner, up,
    Location.along_append, Location.along_cons, Location.step_dotDot, Location.along_nil]

theorem waveOf_eq_placeOf (rooted : session.Rooted root tree) (inner : relative.Inner front name)
    (up : verb.outputName name = Path.dotDot) :
    session.waveOf verb relative tree = session.placeOf verb relative tree := by
  unfold waveOf placeOf targetOf
  rw [inner.scratchOf_of_dotDot rooted.given up]

/-! ### The room for an output -/

theorem moves_targetOf (given : session.layout.outputRoot.text ≠ [])
    (inner : relative.Inner front name) (verb : Verb) :
    (session.targetOf verb relative).moves.dropLast =
      session.layout.outputRoot.moves ++ (outputOf verb relative).moves.dropLast := by
  unfold targetOf
  rw [Path.moves_join given (inner.isAbsolute_outputOf verb), inner.moves_outputOf,
    ← List.append_assoc, List.dropLast_concat, List.dropLast_concat]

theorem startFrom_targetOf (given : session.layout.outputRoot.text ≠ [])
    (inner : relative.Inner front name) (verb : Verb) (working : Location) :
    (session.targetOf verb relative).startFrom working =
      session.layout.outputRoot.startFrom working := by
  unfold Path.startFrom targetOf
  rw [Path.isAbsolute_join given (inner.isAbsolute_outputOf verb)]

theorem Rooted.along_outputRoot (rooted : session.Rooted root tree) (moves : List Text) :
    (session.layout.outputRoot.startFrom tree.workingDirectory).along
      (session.layout.outputRoot.moves ++ moves) = root.along moves := by
  rw [Location.along_append, ← Path.location_eq_moves, rooted.leads]

/-- The directories that are made are inside. -/
theorem Rooted.keeps_withRoom (rooted : session.Rooted root machine.tree)
    (inner : relative.Inner front name)
    (way : ∀ moves, moves <+: (outputOf verb relative).moves.dropLast →
      root <+: root.along moves ∨ machine.tree.isDirectoryAt (root.along moves) = true) :
    Keeps machine.tree (session.withRoom verb relative machine).tree root.Inside := by
  have grows : Grows machine.tree (session.withRoom verb relative machine).tree _ :=
    grows_makeParent rooted.plain rooted.given inner verb
  refine (grows.mono fun place vacant made => ?_).keeps
  refine Decidable.of_not_not fun outside => ?_
  have directory : machine.tree.isDirectoryAt place = true := by
    rcases made with ⟨moves, part, rfl⟩ | ⟨steps, part, rfl⟩
    · exact rooted.way moves part outside
    · have moves : (outputOf verb relative).moves.dropLast = front.filter Path.isMove := by
        rw [inner.moves_outputOf, List.dropLast_concat]
      rw [rooted.leads] at outside ⊢
      rcases way steps (moves ▸ part) with below | there
      · have same : root.along steps = root := Decidable.of_not_not fun differs =>
          outside ⟨below, differs⟩
        rw [same]
        exact rooted.isDirectoryAt
      · exact there
  rw [FileTree.isDirectoryAt_iff.mp directory] at vacant
  cases vacant

/-- Once there is room for an output, the directory to hold it is there. -/
theorem Rooted.isDirectoryAt_holder (rooted : session.Rooted root machine.tree)
    (roomy : session.Rooted root (session.withRoom verb relative machine).tree)
    (inner : relative.Inner front name)
    (room : (machine.tree.makeParent (session.targetOf verb relative)).2 = .ok ()) :
    (session.withRoom verb relative machine).tree.isDirectoryAt
      (holderOf root (outputOf verb relative)) = true := by
  cases above : (session.targetOf verb relative).parent? with
  | none =>
    have still := Path.moves_of_parent?_eq_none above
    unfold targetOf at still
    rw [Path.moves_join rooted.given (inner.isAbsolute_outputOf verb), inner.moves_outputOf]
      at still
    simp at still
  | some parent =>
    obtain ⟨text, moves⟩ := Path.parent?_eq_some above
    rw [moves_targetOf rooted.given inner] at moves
    by_cases given : parent.text = []
    · have still : parent.moves = [] := by
        obtain ⟨written⟩ := parent
        obtain rfl := given
        rfl
      rw [still] at moves
      have holder : holderOf root (outputOf verb relative) = root := by
        unfold holderOf
        rw [(List.append_eq_nil_iff.mp moves.symm).2, Location.along_nil]
      rw [holder]
      exact roomy.isDirectoryAt
    · have made := FileTree.isDirectoryAt_of_makeParent rooted.plain above given room
      have start : parent.startFrom machine.tree.workingDirectory =
          session.layout.outputRoot.startFrom machine.tree.workingDirectory := by
        rw [← startFrom_targetOf rooted.given inner verb]
        unfold Path.startFrom
        rw [Path.isAbsolute_of_isPrefix text given]
      rw [Path.location_eq_moves, start, moves, rooted.along_outputRoot] at made
      exact made

/-! ### What producing an output may change -/

/-- Producing an output preserves whatever its launches, its copy and the removal of its wave do. -/
theorem produce_preserves {Holds : Machine State → Prop} {source target : Path}
    (launched : ∀ job machine, verb ≠ .copy →
      job.target = target ∨ verb = .mp3ToOgg ∧ job.target = Toolbox.scratchOf target →
        Holds machine → Holds (session.runner.launch job machine).machine)
    (removed : ∀ machine tree, verb = .mp3ToOgg →
      machine.tree.removeFile (Toolbox.scratchOf target) = .ok tree → Holds machine →
        Holds { machine with tree := tree })
    (copied : ∀ tree, verb = .copy → machine.tree.copyFile source target = .ok tree →
      Holds { machine with tree := tree })
    (start : Holds machine) : Holds (session.produce verb source target machine).machine := by
  cases verb with
  | copy =>
    unfold produce copy
    dsimp only
    split
    · exact start
    · next tree done => exact copied tree rfl done
  | waveToOgg =>
    exact Toolbox.encodeWave_preserves
      (fun job machine aimed => launched job machine (by decide) (Or.inl aimed)) start
  | waveToOggMono =>
    exact Toolbox.encodeWave_preserves
      (fun job machine aimed => launched job machine (by decide) (Or.inl aimed)) start
  | mp3ToOgg =>
    exact Toolbox.convertMp3_preserves
      (fun job machine aimed => launched job machine (by decide)
        (aimed.imp_right fun wave => ⟨rfl, wave⟩))
      (fun machine tree => removed machine tree rfl) start

/-- An output with a name and its wave stand in the directory that holds the output. -/
theorem keeps_produce_of_named (confined : session.runner.Confined)
    (rooted : session.Rooted root machine.tree) (inner : relative.Inner front name)
    (named : verb.outputName name ≠ Path.dotDot)
    (holder : root <+: holderOf root (outputOf verb relative)) :
    Keeps machine.tree (session.produce verb (session.sourceOf relative)
      (session.targetOf verb relative) machine).machine.tree root.Inside := by
  have outputInside : root.Inside (session.placeOf verb relative machine.tree) := by
    rw [rooted.placeOf_eq_child inner named]
    exact Location.inside_child_iff.mpr holder
  have waveInside : verb ≠ .copy → root.Inside (session.waveOf verb relative machine.tree) := by
    intro converts
    rw [rooted.waveOf_eq_child inner converts named]
    exact Location.inside_child_iff.mpr holder
  unfold placeOf at outputInside
  unfold waveOf at waveInside
  refine @produce_preserves State session verb machine
    (fun between => Keeps machine.tree between.tree root.Inside) _ _ ?_ ?_ ?_
    (Keeps.refl rooted.plain _)
  · intro job between converts aimed keeps
    refine keeps.trans ((confined job between keeps.plain).mono fun place same => ?_)
    rw [same, keeps.working]
    rcases aimed with output | ⟨-, wave⟩
    · rw [output]
      exact outputInside
    · rw [wave]
      exact waveInside converts
  · intro between removed decodes removal keeps
    refine keeps.trans ((FileTree.removeFile_ok keeps.plain removal).1.mono fun place same => ?_)
    rw [same, keeps.working]
    exact waveInside (by rw [decodes]; decide)
  · intro copied copies done
    exact (FileTree.copyFile_ok rooted.plain done).1.mono fun place same => same ▸ outputInside

/-- Where an output goes up there is a directory, and that is not done away with. -/
theorem keeps_produce_of_dotDot (confined : session.runner.Confined)
    (rooted : session.Rooted root machine.tree) (inner : relative.Inner front name)
    (up : verb.outputName name = Path.dotDot)
    (stands : machine.tree.isDirectoryAt (holderOf root (outputOf verb relative)) = true) :
    Keeps machine.tree (session.produce verb (session.sourceOf relative)
      (session.targetOf verb relative) machine).machine.tree fun _ => False := by
  have place := rooted.placeOf_eq_dropLast inner up
  have wave := waveOf_eq_placeOf rooted inner up
  unfold placeOf at place
  unfold waveOf placeOf at wave
  have isSome : (machine.tree.node? (holderOf root (outputOf verb relative))).isSome = true := by
    rw [FileTree.isDirectoryAt_iff.mp stands]
    rfl
  have directory : machine.tree.isDirectoryAt
      (holderOf root (outputOf verb relative)).dropLast = true :=
    rooted.plain.isDirectoryAt_dropLast isSome
  refine @produce_preserves State session verb machine
    (fun between => Keeps machine.tree between.tree fun _ => False) _ _ ?_ ?_ ?_
    (Keeps.refl rooted.plain _)
  · intro job between _ aimed keeps
    have here : job.target.location between.tree.workingDirectory =
        (holderOf root (outputOf verb relative)).dropLast := by
      rw [keeps.working]
      rcases aimed with output | ⟨-, scratch⟩
      · rw [output, place]
      · rw [scratch, wave, place]
    have launched := confined job between keeps.plain
    rw [here] at launched
    have stays : (between.tree.node? (holderOf root (outputOf verb relative))).isSome = true := by
      rw [keeps.elsewhere _ not_false]
      exact isSome
    exact keeps.trans ⟨launched.plain, launched.working,
      fun other _ => launched.of_held keeps.plain stays other, launched.closed⟩
  · intro between removed _ removal keeps
    have leaf := (FileTree.removeFile_ok keeps.plain removal).2.1
    rw [keeps.working, wave, place] at leaf
    rw [FileTree.isDirectoryAt_iff, ← keeps.elsewhere _ not_false, ← FileTree.isDirectoryAt_iff,
      leaf] at directory
    cases directory
  · intro copied copies
    subst copies
    exact absurd up inner.entry.named

/-! ### What a visit may change -/

section Visit

variable (confined : session.runner.Confined) (rooted : session.Rooted root machine.tree)
  (inner : relative.Inner front name)
  (inward : Inward root machine.tree (outputOf verb relative)
    (session.decisionOf verb relative machine))

include confined rooted inner inward

/-- Producing an output that is due changes nothing but inside, and where the output goes up it
changes nothing at all. -/
theorem keeps_producing
    (room : (machine.tree.makeParent (session.targetOf verb relative)).2 = .ok ())
    (decided : session.decisionOf verb relative machine = .rebuild) :
    Keeps machine.tree (session.producing verb relative machine).machine.tree root.Inside ∧
      (verb.outputName name = Path.dotDot →
        (session.producing verb relative machine).machine.tree.isDirectoryAt
          (session.placeOf verb relative machine.tree) = true) := by
  have makesRoom := rooted.keeps_withRoom inner inward.way
  have roomy := rooted.keeps makesRoom
  by_cases up : verb.outputName name = Path.dotDot
  · have holder := rooted.isDirectoryAt_holder roomy inner room
    have produces : Keeps (session.withRoom verb relative machine).tree
        (session.producing verb relative machine).machine.tree _ :=
      keeps_produce_of_dotDot confined roomy inner up holder
    refine ⟨makesRoom.trans (produces.mono fun _ => False.elim), fun _ => ?_⟩
    have stands : ((session.withRoom verb relative machine).tree.node?
        (holderOf root (outputOf verb relative))).isSome = true := by
      rw [FileTree.isDirectoryAt_iff.mp holder]
      rfl
    rw [rooted.placeOf_eq_dropLast inner up, FileTree.isDirectoryAt_iff,
      produces.elsewhere _ not_false]
    exact FileTree.isDirectoryAt_iff.mp (roomy.plain.isDirectoryAt_dropLast stands)
  · have produces : Keeps (session.withRoom verb relative machine).tree
        (session.producing verb relative machine).machine.tree _ :=
      keeps_produce_of_named confined roomy inner up (inward.holder decided)
    exact ⟨makesRoom.trans produces, fun same => absurd same up⟩

theorem keeps_visit : Keeps machine.tree (session.visit verb relative machine).machine.tree
    root.Inside := by
  have makesRoom := rooted.keeps_withRoom inner inward.way
  have course := session.visit_course verb relative machine
  generalize (session.visit verb relative machine).value = value at course
  generalize (session.visit verb relative machine).machine = left at course
  cases course with
  | noRoom room => exact makesRoom
  | current room decided => exact makesRoom
  | notProduced room decided produced =>
    exact (keeps_producing confined rooted inner inward room decided).1
  | notStamped room decided produced stamped =>
    exact (keeps_producing confined rooted inner inward room decided).1
  | rebuilt room decided produced stamped =>
    obtain ⟨keeps, goesUp⟩ := keeps_producing confined rooted inner inward room decided
    obtain ⟨-, -, stamps, same, -⟩ := FileTree.copyModified_ok keeps.plain stamped
    refine keeps.trans ⟨stamps.plain, stamps.working, fun place outside => ?_, stamps.closed⟩
    by_cases there : place = session.placeOf verb relative machine.tree
    · -- Only where the output goes up can it be outside, and there its directory is stamped.
      subst there
      have up : verb.outputName name = Path.dotDot := Decidable.of_not_not fun named => by
        rw [rooted.placeOf_eq_child inner named, Location.inside_child_iff] at outside
        exact outside (inward.holder decided)
      have before := goesUp up
      rw [FileTree.isDirectoryAt_iff.mp before, ← FileTree.isDirectoryAt_iff, (same _).2]
      exact before
    · refine stamps.elsewhere place ?_
      rw [keeps.working]
      exact there

end Visit

/-! ### What a visit launches -/

theorem jobs_produce {source target : Path} :
    ∀ job ∈ Event.jobs (session.produce verb source target machine).events,
      verb ≠ .copy ∧ (job.target = target ∨ job.target = Toolbox.scratchOf target) := by
  cases verb with
  | copy =>
    unfold produce copy
    dsimp only
    split <;> exact fun job member => nomatch member
  | waveToOgg => exact fun job member => ⟨by decide, Or.inl (Toolbox.jobs_encodeWave job member)⟩
  | waveToOggMono => exact fun job member =>
    ⟨by decide, Or.inl (Toolbox.jobs_encodeWave job member)⟩
  | mp3ToOgg => exact fun job member => ⟨by decide, Toolbox.jobs_convertMp3 job member⟩

/-- A visit whose output is due launches what producing it launches. -/
theorem jobs_visit_of_due
    (room : (machine.tree.makeParent (session.targetOf verb relative)).2 = .ok ())
    (decided : session.decisionOf verb relative machine = .rebuild) :
    Event.jobs (session.visit verb relative machine).events =
      Event.jobs (session.producing verb relative machine).events := by
  have made : (makeRoom (session.targetOf verb relative) machine).value = .ok () := room
  have entered : (makeRoom (session.targetOf verb relative) machine).machine =
    session.withRoom verb relative machine := rfl
  unfold decisionOf at decided
  unfold visit build
  rw [Effect.andThen_of_ok made, entered, decided]
  dsimp only
  rw [Effect.jobs_after, Effect.jobs_after, Effect.jobs_andThen_of_quiet fun _ _ => rfl,
    Effect.jobs_andThen_of_quiet]
  · rfl
  · intro _ machine
    unfold stamp
    split <;> rfl

/-- A visit launches nothing else. -/
theorem jobs_visit_of_idle
    (idle : ∀ done, (machine.tree.makeParent (session.targetOf verb relative)).2 = .ok done →
      session.decisionOf verb relative machine = .upToDate) :
    Event.jobs (session.visit verb relative machine).events = [] := by
  unfold visit
  cases room : (machine.tree.makeParent (session.targetOf verb relative)).2 with
  | error error =>
    have failed : (makeRoom (session.targetOf verb relative) machine).value = .error error := room
    rw [Effect.andThen_of_error failed]
    rfl
  | ok made =>
    have succeeded : (makeRoom (session.targetOf verb relative) machine).value = .ok made := room
    have entered : (makeRoom (session.targetOf verb relative) machine).machine =
      session.withRoom verb relative machine := rfl
    have decided := idle made room
    unfold decisionOf at decided
    rw [Effect.andThen_of_ok succeeded, entered, decided]
    rfl

/-- A visit launches jobs only to build an output that is due, and they aim at it or at its wave. -/
theorem jobs_visit : ∀ job ∈ Event.jobs (session.visit verb relative machine).events,
    session.decisionOf verb relative machine = .rebuild ∧ verb ≠ .copy ∧
      (job.target = session.targetOf verb relative ∨
        job.target = Toolbox.scratchOf (session.targetOf verb relative)) := by
  intro job member
  cases room : (machine.tree.makeParent (session.targetOf verb relative)).2 with
  | error error =>
    rw [jobs_visit_of_idle (fun done made => nomatch room.symm.trans made)] at member
    cases member
  | ok made =>
    cases decided : session.decisionOf verb relative machine with
    | upToDate =>
      rw [jobs_visit_of_idle fun _ _ => decided] at member
      cases member
    | rebuild =>
      rw [jobs_visit_of_due room decided] at member
      exact ⟨rfl, jobs_produce job member⟩

/-- What a visit leaves alone: outside the root everything stays, and a job aims inside, or where a
directory stands. -/
structure KeepsInside (session : Session State) (root : Location) (visit : Visit State) : Prop where
  keeps : Keeps visit.machine.tree (session.effectOf visit).machine.tree root.Inside
  launches : ∀ job ∈ Event.jobs (session.effectOf visit).events,
    root.Inside (job.target.location visit.machine.tree.workingDirectory) ∨
      visit.machine.tree.isDirectoryAt
        (job.target.location visit.machine.tree.workingDirectory) = true

/-- A visit whose way leads inside keeps inside. -/
theorem keepsInside_of_inward (confined : session.runner.Confined) {visit : Visit State}
    (rooted : session.Rooted root visit.machine.tree) (inner : visit.relative.Inner front name)
    (inward : Inward root visit.machine.tree (outputOf visit.verb visit.relative)
      (session.decisionOf visit.verb visit.relative visit.machine)) :
    session.KeepsInside root visit := by
  refine ⟨keeps_visit confined rooted inner inward, fun job member => ?_⟩
  obtain ⟨decided, converts, aimed⟩ := jobs_visit job member
  have holder := inward.holder decided
  by_cases up : visit.verb.outputName name = Path.dotDot
  · have place : job.target.location visit.machine.tree.workingDirectory =
        (holderOf root (outputOf visit.verb visit.relative)).dropLast := by
      rw [← rooted.placeOf_eq_dropLast inner up]
      rcases aimed with output | wave
      · rw [output]
        rfl
      · rw [wave, ← waveOf_eq_placeOf rooted inner up]
        rfl
    rw [place]
    obtain ⟨below, whole⟩ := holder
    rw [← whole]
    rcases List.eq_nil_or_concat below with rfl | ⟨deeper, last, rfl⟩
    · rw [List.append_nil]
      refine Or.inr (rooted.plain.isDirectoryAt_dropLast ?_)
      rw [FileTree.isDirectoryAt_iff.mp rooted.isDirectoryAt]
      rfl
    · rw [List.concat_eq_append, ← List.append_assoc, List.dropLast_concat]
      by_cases here : deeper = []
      · subst here
        rw [List.append_nil]
        exact Or.inr rooted.isDirectoryAt
      · exact Or.inl ⟨List.prefix_append _ _, by simpa using here⟩
  · left
    rcases aimed with output | wave
    · have place := rooted.placeOf_eq_child inner up
      unfold placeOf at place
      rw [output, place]
      exact Location.inside_child_iff.mpr holder
    · have place := rooted.waveOf_eq_child inner converts up
      unfold waveOf at place
      rw [wave, place]
      exact Location.inside_child_iff.mpr holder

end Session

end AssetPipeline
