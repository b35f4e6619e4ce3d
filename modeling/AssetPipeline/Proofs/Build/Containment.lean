/-
This file says which runs keep to the output root. A visit writes where the steps of its file lead
from the output root, so it keeps inside when they never lead out of it, and this is so for every
file of a wildcard whose directory part does not climb. It is what decides, too: when every visit is
completed, the run keeps inside exactly when the way to each output does, for what is built does
change.
-/

import AssetPipeline.Proofs.Build.Frame
import AssetPipeline.Proofs.Build.Integrity

namespace AssetPipeline

open FileTree (Plain Keeps Grows)

/-- No directory part of a wildcard climbs above the root. -/
def Script.StaysBelow (script : Script) : Prop :=
  ∀ command ∈ script, ∀ checked, command.check = .ok checked →
    Path.climbs 0 (Selection.ofWildcard checked.wildcard).directoryNames = false

instance (script : Script) : Decidable script.StaysBelow :=
  decidable_of_iff _ Script.forall_checked_iff

namespace Session

variable {State : Type} {session : Session State} {root : Location} {verb : Verb} {relative : Path}
  {front : List Text} {name : Name} {script : Script} {machine : Machine State}
  {visit : Visit State}
  {tree later : FileTree}

/-! ### Steps that do not climb -/

/-- Steps that do not climb lead inside all the way. -/
theorem inward_of_not_climbs (inner : relative.Inner front name)
    (stays : Path.climbs 0 front = false) (decision : Decision) :
    Inward root tree (outputOf verb relative) decision := by
  have moves : (outputOf verb relative).moves.dropLast = front.filter Path.isMove := by
    rw [inner.moves_outputOf, List.dropLast_concat]
  have inside : ∀ moves, moves <+: front.filter Path.isMove → root <+: root.along moves := by
    intro moves part
    have kept : Path.climbs ([] : Location).length moves = false :=
      Path.climbs_of_isPrefix part (by rw [Path.climbs_filter]; exact stays)
    obtain ⟨reached, leads⟩ := Path.along_of_not_climbs kept
    have here := leads root
    rw [List.append_nil] at here
    rw [here]
    exact List.prefix_append _ _
  refine ⟨fun way part => Or.inl (inside way (moves ▸ part)), fun _ => ?_⟩
  unfold holderOf
  rw [moves]
  exact inside _ List.prefix_rfl

/-! ### What is built shows -/

/-- A copy that was due and got the time of its source has changed the output, for the output was
missing before or older. -/
theorem changed_of_copied (plain : Plain tree) {source target : Path} {copied last : FileTree}
    (done : tree.copyFile source target = .ok copied)
    (decided : tree.decision source target = .rebuild)
    (stamped : copied.copyModified source target = .ok last) :
    last.file? (target.location tree.workingDirectory) ≠
      tree.file? (target.location tree.workingDirectory) := by
  obtain ⟨keeps, leaf, ⟨original, found⟩, file, made⟩ := FileTree.copyFile_ok plain done
  obtain ⟨-, outputReaches, -, -, stamp⟩ := FileTree.copyModified_ok keeps.plain stamped
  obtain ⟨-, stands⟩ := (FileTree.fileAt?_eq_some_iff plain).mp found
  rw [keeps.working] at stamp
  intro unchanged
  -- If it had not changed, what stood there before would have been current.
  have stood := unchanged.symm.trans (stamp file made)
  have fresh : original.modified.notAfter
      (copied.modifiedAt (source.location tree.workingDirectory)) = true := by
    by_cases same : source.location tree.workingDirectory = target.location tree.workingDirectory
    · rw [same, stood] at stands
      obtain rfl := Option.some.inj stands
      rw [same]
      exact Instant.notAfter_refl _
    · unfold FileTree.modifiedAt
      rw [keeps.elsewhere _ same, FileTree.file?_eq_some_iff.mp stands]
      exact Instant.notAfter_refl _
  have reaches : tree.Reaches target := by
    refine outputReaches.mono keeps.working.symm (fun other directory => ?_) fun _ => ?_
    · rw [FileTree.isDirectoryAt_iff] at directory ⊢
      rw [← directory, eq_comm]
      refine keeps.elsewhere other fun same => ?_
      rw [same, FileTree.file?_eq_some_iff.mp made] at directory
      cases directory
    · rw [keeps.working]
      exact node?_isSome_of_file? stood
  rw [FileTree.decision_eq_upToDate_iff.mpr ⟨original, _, found,
    (FileTree.fileAt?_eq_some_iff plain).mpr ⟨reaches, stood⟩, fresh⟩] at decided
  cases decided

/-- Whatever is not copied takes a job that aims at the output. -/
theorem produce_launches {source target : Path} (converts : verb ≠ .copy)
    (done : (session.produce verb source target machine).value = .ok ()) :
    ∃ job ∈ Event.jobs (session.produce verb source target machine).events,
      job.target = target := by
  cases verb with
  | copy => exact absurd rfl converts
  | waveToOgg => exact Toolbox.encodeWave_launches
  | waveToOggMono => exact Toolbox.encodeWave_launches
  | mp3ToOgg => exact Toolbox.convertMp3_launches done

section Rebuilt

variable (decided : session.decisionOf verb relative machine = .rebuild)
  (done : (session.producing verb relative machine).value = .ok ())
  (keeps : Keeps machine.tree later root.Inside)

include decided done keeps

/-- A copy that keeps inside has its output inside. -/
theorem inside_of_copied (plain : Plain machine.tree) (copies : verb = .copy)
    (stamped : (session.producing verb relative machine).machine.tree.copyModified
      (session.sourceOf relative) (session.targetOf verb relative) = .ok later) :
    root.Inside (session.placeOf verb relative machine.tree) := by
  subst copies
  have grows : Grows machine.tree (session.withRoom .copy relative machine).tree _ :=
    FileTree.makeParent_grows plain (session.targetOf .copy relative)
  have changed := changed_of_copied grows.plain (copy_ok done) decided stamped
  rw [grows.file?_eq, grows.working] at changed
  exact Decidable.of_not_not fun outside =>
    changed (FileTree.file?_congr (keeps.elsewhere _ outside))

/-- An output built by jobs that aim inside, or where a directory stands, is inside: a directory
outside would still be there. -/
theorem inside_of_launched (converts : verb ≠ .copy)
    (room : (machine.tree.makeParent (session.targetOf verb relative)).2 = .ok ())
    (stands : (later.file? (session.placeOf verb relative machine.tree)).isSome = true)
    (launches : ∀ job ∈ Event.jobs (session.visit verb relative machine).events,
      root.Inside (job.target.location machine.tree.workingDirectory) ∨
        machine.tree.isDirectoryAt (job.target.location machine.tree.workingDirectory) = true) :
    root.Inside (session.placeOf verb relative machine.tree) := by
  obtain ⟨job, member, aimed⟩ := produce_launches converts done
  have launched := launches job (by rw [jobs_visit_of_due room decided]; exact member)
  rw [aimed] at launched
  refine launched.elim id fun directory => Decidable.of_not_not fun outside => ?_
  obtain ⟨file, found⟩ := Option.isSome_iff_exists.mp stands
  have stays : later.isDirectoryAt (session.placeOf verb relative machine.tree) = true := by
    rw [FileTree.isDirectoryAt_iff, keeps.elsewhere _ outside]
    exact FileTree.isDirectoryAt_iff.mp directory
  rw [(FileTree.Room.of_file keeps.plain found).leaf] at stays
  cases stays

end Rebuilt

/-! ### Completed visits -/

/-- No file can be reached through the output of a source without a name. -/
theorem fileAt?_targetOf_nil (plain : Plain tree) (given : session.layout.outputRoot.text ≠ []) :
    tree.fileAt? (session.targetOf verb ⟨[]⟩) = none := by
  have output : outputOf verb ⟨[]⟩ = ⟨[]⟩ := by cases verb <;> rfl
  obtain ⟨front, steps⟩ := @Path.steps_join session.layout.outputRoot ⟨[]⟩ given rfl
  cases found : tree.fileAt? (session.targetOf verb ⟨[]⟩) with
  | none => rfl
  | some file =>
    obtain ⟨reaches, stands⟩ := (FileTree.fileAt?_eq_some_iff plain).mp found
    have idle : (session.targetOf verb ⟨[]⟩).steps = front ++ [[]] := by
      unfold targetOf
      rw [output]
      exact steps
    have directory := reaches.isDirectoryAt_of_idle idle rfl
    rw [(FileTree.Room.of_file plain stands).leaf] at directory
    cases directory

/-- Whatever was not copied was a file at some time. -/
theorem produce_files (confined : session.runner.Confined) (delivers : session.runner.Delivers)
    (plain : Plain machine.tree) {source target : Path} (converts : verb ≠ .copy)
    (done : (session.produce verb source target machine).value = .ok ()) :
    ∃ between : FileTree, Plain between ∧ between.isFile target = true := by
  cases verb with
  | copy => exact absurd rfl converts
  | waveToOgg =>
    obtain ⟨keeps, there⟩ := Toolbox.encodeWave_ok confined delivers plain done
    exact ⟨_, keeps.plain, there⟩
  | waveToOggMono =>
    obtain ⟨keeps, there⟩ := Toolbox.encodeWave_ok confined delivers plain done
    exact ⟨_, keeps.plain, there⟩
  | mp3ToOgg =>
    obtain ⟨_, decoded, -, encoded⟩ := Effect.andThen_eq_ok done
    obtain ⟨decodes, -⟩ := Toolbox.decodeMp3_ok confined delivers plain decoded
    obtain ⟨encodes, there⟩ := Toolbox.encode_ok confined delivers decodes.plain encoded
    exact ⟨_, encodes.plain, there⟩

/-- A visit completes only to a file below the source root, not to the root itself. -/
theorem given_of_completed (confined : session.runner.Confined)
    (delivers : session.runner.Delivers) (plain : Plain machine.tree)
    (given : session.layout.outputRoot.text ≠ []) {completion : Completion}
    (succeeded : (session.visit verb relative machine).value = .ok completion) :
    relative.text ≠ [] := by
  intro empty
  obtain ⟨text⟩ := relative
  obtain rfl := empty
  have grows : Grows machine.tree (session.withRoom verb ⟨[]⟩ machine).tree _ :=
    FileTree.makeParent_grows plain (session.targetOf verb ⟨[]⟩)
  have course := session.visit_course verb ⟨[]⟩ machine
  generalize (session.visit verb ⟨[]⟩ machine).value = value at succeeded course
  generalize (session.visit verb ⟨[]⟩ machine).machine = left at course
  subst succeeded
  cases course with
  | current room decided =>
    obtain ⟨-, file, -, found, -⟩ := FileTree.decision_eq_upToDate_iff.mp decided
    rw [fileAt?_targetOf_nil grows.plain given] at found
    cases found
  | rebuilt room decided done stamped =>
    by_cases copies : verb = .copy
    · subst copies
      obtain ⟨keeps, -, -, file, made⟩ := FileTree.copyFile_ok grows.plain (copy_ok done)
      obtain ⟨-, reaches, -⟩ := FileTree.copyModified_ok keeps.plain stamped
      have found := (FileTree.fileAt?_eq_some_iff keeps.plain).mpr
        ⟨reaches, keeps.working.symm ▸ made⟩
      rw [fileAt?_targetOf_nil keeps.plain given] at found
      cases found
    · obtain ⟨between, sound, there⟩ := produce_files confined delivers grows.plain copies done
      unfold FileTree.isFile at there
      rw [fileAt?_targetOf_nil sound given] at there
      cases there

/-- What lies outside on the way to an output that can be reached was there already. -/
theorem way_of_reaches (rooted : session.Rooted root tree) (inner : relative.Inner front name)
    (keeps : Keeps tree later root.Inside)
    (reaches : later.Reaches (session.targetOf verb relative))
    {moves : List Text} (part : moves <+: (outputOf verb relative).moves.dropLast) :
    root <+: root.along moves ∨ tree.isDirectoryAt (root.along moves) = true := by
  by_cases below : root <+: root.along moves
  · exact Or.inl below
  right
  have passes : later.Passes ((session.targetOf verb relative).startFrom later.workingDirectory)
      (session.targetOf verb relative).moves := reaches.passes.filter
  obtain ⟨rest, whole⟩ := part
  have moved : (session.targetOf verb relative).moves =
      session.layout.outputRoot.moves ++ moves ++ (rest ++ [verb.outputName name]) := by
    have output : (outputOf verb relative).moves =
        (outputOf verb relative).moves.dropLast ++ [verb.outputName name] := by
      rw [inner.moves_outputOf, List.dropLast_concat]
    unfold targetOf
    rw [Path.moves_join rooted.given (inner.isAbsolute_outputOf verb), output, ← whole]
    simp
  obtain ⟨next, others, behind⟩ : ∃ next others, rest ++ [verb.outputName name] = next :: others :=
    List.exists_cons_of_ne_nil (by simp)
  rw [moved, behind, FileTree.passes_append, startFrom_targetOf rooted.given inner, keeps.working,
    rooted.along_outputRoot] at passes
  have directory := passes.2.1
  rw [FileTree.isDirectoryAt_iff, keeps.elsewhere _ fun inside => below inside.1] at directory
  exact FileTree.isDirectoryAt_iff.mpr directory

/-- The way of a completed visit that keeps inside leads inside. -/
theorem inward_of_keepsInside (confined : session.runner.Confined)
    (delivers : session.runner.Delivers) (rooted : session.Rooted root visit.machine.tree)
    (inner : visit.relative.Inner front name) {completion : Completion}
    (succeeded : (session.effectOf visit).value = .ok completion)
    (keepsInside : session.KeepsInside root visit) :
    Inward root visit.machine.tree (outputOf visit.verb visit.relative)
      (session.decisionOf visit.verb visit.relative visit.machine) := by
  obtain ⟨keeps, launches⟩ := keepsInside
  have course := session.visit_course visit.verb visit.relative visit.machine
  unfold effectOf at succeeded keeps launches
  generalize (session.visit visit.verb visit.relative visit.machine).value = value
    at succeeded course
  generalize (session.visit visit.verb visit.relative visit.machine).machine = left at keeps course
  subst succeeded
  cases course with
  | current room decided =>
    obtain ⟨-, file, -, found, -⟩ := FileTree.decision_eq_upToDate_iff.mp decided
    have reaches := ((FileTree.fileAt?_eq_some_iff keeps.plain).mp found).1
    refine ⟨fun moves part => way_of_reaches rooted inner keeps reaches part, fun due => ?_⟩
    rw [decided] at due
    cases due
  | rebuilt room decided done stamped =>
    have grows : Grows visit.machine.tree
        (session.withRoom visit.verb visit.relative visit.machine).tree _ :=
      FileTree.makeParent_grows rooted.plain (session.targetOf visit.verb visit.relative)
    have built := built_of_produced
      (produced_of_produce confined delivers grows.plain rooted.given inner done) stamped
    refine ⟨fun moves part => way_of_reaches rooted inner keeps built.outputReaches part,
      fun _ => ?_⟩
    have inside : root.Inside
        (session.placeOf visit.verb visit.relative visit.machine.tree) := by
      by_cases copies : visit.verb = .copy
      · exact inside_of_copied decided done keeps rooted.plain copies stamped
      · refine inside_of_launched decided done keeps copies room ?_ launches
        obtain ⟨file, stands, -⟩ := built.file
        unfold placeOf at stands ⊢
        rw [← grows.working, stands]
        rfl
    rw [rooted.placeOf_eq_child inner built.named] at inside
    exact Location.inside_child_iff.mp inside

/-! ### Runs that keep inside -/

/-- A run keeps inside the root. Nothing else differs in the end, every job aims inside or where a
directory stands, and every visit kept inside on the way. -/
structure Contained (session : Session State) (root : Location) (script : Script)
    (machine : Machine State) : Prop where
  elsewhere : ∀ place, ¬ root.Inside place →
    (session.run script machine).machine.tree.node? place = machine.tree.node? place
  launches : ∀ job ∈ Event.jobs (session.run script machine).events,
    root.Inside (job.target.location machine.tree.workingDirectory) ∨
      machine.tree.isDirectoryAt (job.target.location machine.tree.workingDirectory) = true
  visits : ∀ visit ∈ session.visits script machine, session.KeepsInside root visit

/-- The way to every output of a run leads inside the root. -/
def LeadsInside (session : Session State) (root : Location) (script : Script)
    (machine : Machine State) : Prop :=
  ∀ visit ∈ session.visits script machine,
    Inward root visit.machine.tree (outputOf visit.verb visit.relative)
      (session.decisionOf visit.verb visit.relative visit.machine)

/-- A run keeps inside when each of its visits does. -/
theorem contained_of_keepsInside (plain : Plain machine.tree)
    (each : ∀ visit ∈ session.visits script machine, session.KeepsInside root visit) :
    session.Contained root script machine := by
  obtain ⟨ends, found⟩ := @invariant_of_follows State session machine _
    (fun between => Keeps machine.tree between.tree root.Inside) _
    (session.follows_visits script machine) (Keeps.refl plain _)
    fun visit member keeps => keeps.trans (each visit member).keeps
  refine ⟨ends.elsewhere, fun job member => ?_, each⟩
  rw [jobs_run] at member
  obtain ⟨visit, visited, launched⟩ := List.mem_flatMap.mp member
  have keeps := found visit visited
  rw [← keeps.working]
  by_cases inside : root.Inside (job.target.location visit.machine.tree.workingDirectory)
  · exact Or.inl inside
  · right
    rw [FileTree.isDirectoryAt_iff, ← keeps.elsewhere _ inside, ← FileTree.isDirectoryAt_iff]
    exact ((each visit visited).launches job launched).resolve_left inside

/-- What is known about the files of a command. -/
theorem inner_or_nil_of_mem (command : Command) (plain : Plain machine.tree)
    (member : visit ∈ session.commandVisits command machine) :
    visit.relative.text = [] ∨ ∃ front name, visit.relative.Inner front name := by
  obtain ⟨checked, files, -, found, -, inside⟩ := mem_commandVisits member
  obtain ⟨names, -, -, none | ⟨front, name, -, inner⟩⟩ :=
    Selection.mem_members plain found inside
  · exact Or.inl none.2
  · exact Or.inr ⟨_, name, inner⟩

/-- While visits keep inside, the output root stays where it was, and what is known about the files
of a command rests on no more. -/
theorem rooted_of_mem_visits (Known : Path → Prop) (rooted : session.Rooted root machine.tree)
    (known : ∀ command ∈ script, ∀ between : Machine State, session.Rooted root between.tree →
      ∀ visit ∈ session.commandVisits command between, Known visit.relative)
    (step : ∀ visit ∈ session.visits script machine, Known visit.relative →
      session.Rooted root visit.machine.tree → session.KeepsInside root visit) :
    ∀ visit ∈ session.visits script machine,
      Known visit.relative ∧ session.Rooted root visit.machine.tree :=
  (@invariant_of_visits State session machine (fun between => session.Rooted root between.tree)
    (fun _ relative => Known relative) script rooted known
    fun visit member known holds => holds.keeps (step visit member known holds).keeps).2

/-- A run keeps inside when it takes up files below the source root and every way leads inside. -/
theorem contained_of_leadsInside (confined : session.runner.Confined)
    (rooted : session.Rooted root machine.tree)
    (given : ∀ visit ∈ session.visits script machine, Plain visit.machine.tree →
      visit.relative.text ≠ [])
    (inward : session.LeadsInside root script machine) : session.Contained root script machine := by
  have step : ∀ visit ∈ session.visits script machine,
      (visit.relative.text = [] ∨ ∃ front name, visit.relative.Inner front name) →
        session.Rooted root visit.machine.tree → session.KeepsInside root visit := by
    intro visit member known holds
    obtain ⟨front, name, inner⟩ := known.resolve_left (given visit member holds.plain)
    exact keepsInside_of_inward confined holds inner (inward visit member)
  refine contained_of_keepsInside rooted.plain fun visit member => ?_
  obtain ⟨known, holds⟩ := rooted_of_mem_visits
    (fun relative => relative.text = [] ∨ ∃ front name, relative.Inner front name) rooted
    (fun command _ _ holds _ member => inner_or_nil_of_mem command holds.plain member) step visit
    member
  exact step visit member known holds

/-- In a run without failures that keeps inside, every way leads inside. -/
theorem leadsInside_of_contained (confined : session.runner.Confined)
    (delivers : session.runner.Delivers) (rooted : session.Rooted root machine.tree)
    (complete : (session.run script machine).value.failed = 0)
    (contained : session.Contained root script machine) :
    session.LeadsInside root script machine := by
  intro visit member
  have keepsInside := contained.visits visit member
  obtain ⟨completion, succeeded⟩ := succeeded_of_mem_visits complete visit member
  obtain ⟨known, holds⟩ := rooted_of_mem_visits
    (fun relative => relative.text = [] ∨ ∃ front name, relative.Inner front name) rooted
    (fun command _ _ holds _ member => inner_or_nil_of_mem command holds.plain member)
    (fun visit member _ _ => contained.visits visit member) visit member
  obtain ⟨front, name, inner⟩ :=
    known.resolve_left (given_of_completed confined delivers holds.plain holds.given succeeded)
  exact inward_of_keepsInside confined delivers holds inner succeeded keepsInside

/-- The ways of a script that does not climb lead inside. -/
theorem leadsInside_of_staysBelow (confined : session.runner.Confined)
    (rooted : session.Rooted root machine.tree) (stays : script.StaysBelow)
    (given : ∀ visit ∈ session.visits script machine, visit.relative.text ≠ []) :
    session.LeadsInside root script machine := by
  have known : ∀ command ∈ script, ∀ between : Machine State, session.Rooted root between.tree →
      ∀ visit ∈ session.commandVisits command between, visit.relative.text = [] ∨
        ∃ front name, visit.relative.Inner front name ∧ Path.climbs 0 front = false := by
    intro command inScript between holds visit member
    obtain ⟨checked, files, accepted, found, -, inside⟩ := mem_commandVisits member
    exact Selection.climbs_of_mem_members holds.plain (stays command inScript checked accepted)
      found inside
  intro visit member
  obtain ⟨below, -⟩ := rooted_of_mem_visits (fun relative =>
    relative.text = [] ∨ ∃ front name, relative.Inner front name ∧ Path.climbs 0 front = false)
    rooted known (fun visit member below holds => by
      obtain ⟨front, name, inner, kept⟩ := below.resolve_left (given visit member)
      exact keepsInside_of_inward confined holds inner (inward_of_not_climbs inner kept _))
    visit member
  obtain ⟨front, name, inner, kept⟩ := below.resolve_left (given visit member)
  exact inward_of_not_climbs inner kept _

/-! ### A copy beside the output root -/

/-- A wave below the source root, and notes beside it. -/
def notesBesideSources : Machine Unit where
  tree := {
    nodes := [
      ([['n', 'o', 't', 'e', 's']], .file ⟨[110], ⟨1000, 0⟩, .ordinary⟩),
      ([['s', 'r', 'c'], ['a', '.', 'w', 'a', 'v']], .file ⟨[119], ⟨1000, 0⟩, .ordinary⟩),
      ([['s', 'r', 'c']], .directory),
      ([['b', 'u', 'i', 'l', 'd'], ['o', 'u', 't']], .directory),
      ([['b', 'u', 'i', 'l', 'd']], .directory)]
    workingDirectory := []
    clock := ⟨2000, 0⟩ }
  runner := ()

/-- Outputs go below `build/out`. -/
def deep : Session Unit :=
  .start { Layout.twoRoots with outputRoot := ⟨['b', 'u', 'i', 'l', 'd', '/', 'o', 'u', 't']⟩ }
    (.writing [112] 0) notesBesideSources.tree

/-- Copies what stands beside the source root. -/
def copyFromBeside : Script :=
  [⟨1, ['c', 'o', 'p', 'y'], [['.', '.', '/', 'n', 'o', 't', 'e', 's'], ['x']]⟩]

/-- Encodes what stands below the source root. -/
def encodeFromBelow : Script :=
  [⟨1, ['w', 'a', 'v', 'e', '-', 't', 'o', '-', 'o', 'g', 'g'], [['*', '.', 'w', 'a', 'v'], ['x']]⟩]

/-! ### The end of a run -/

/-- A run that takes up no source root that is a file itself keeps inside the output root when no
directory part climbs above the source root, and also when every way leads inside. If nothing fails,
it keeps inside exactly when every way leads inside. -/
theorem contained_iff_leadsInside (confined : session.runner.Confined) (plain : Plain machine.tree)
    (outputs : machine.tree.isDirectory session.layout.outputRoot = true)
    (leads : session.layout.outputRoot.location machine.tree.workingDirectory = root) :
    ((∀ visit ∈ session.visits script machine, visit.relative.text ≠ []) →
        script.StaysBelow ∨ session.LeadsInside root script machine →
          session.Contained root script machine) ∧
      (session.runner.Delivers → (session.run script machine).value.failed = 0 →
        (session.Contained root script machine ↔ session.LeadsInside root script machine)) := by
  subst leads
  have rooted := session.rooted_of_isDirectory plain outputs
  constructor
  · intro given reason
    refine contained_of_leadsInside confined rooted (fun visit member _ => given visit member) ?_
    rcases reason with stays | inward
    · exact leadsInside_of_staysBelow confined rooted stays given
    · exact inward
  · intro delivers complete
    refine ⟨leadsInside_of_contained confined delivers rooted complete, fun inward => ?_⟩
    refine contained_of_leadsInside confined rooted (fun visit member plain => ?_) inward
    obtain ⟨completion, succeeded⟩ := succeeded_of_mem_visits complete visit member
    exact given_of_completed confined delivers plain rooted.given succeeded

/-- Nothing fails, and yet the notes are copied beside the output root. -/
theorem notes_are_copied_beside :
    deep.runner.Confined ∧ Plain notesBesideSources.tree ∧
      notesBesideSources.tree.isDirectory deep.layout.outputRoot = true ∧
      (deep.run copyFromBeside notesBesideSources).value.failed = 0 ∧
      ¬ (deep.layout.outputRoot.location []).Inside
        [['b', 'u', 'i', 'l', 'd'], ['n', 'o', 't', 'e', 's']] ∧
      notesBesideSources.tree.node? [['b', 'u', 'i', 'l', 'd'], ['n', 'o', 't', 'e', 's']] = none ∧
      (deep.run copyFromBeside notesBesideSources).machine.tree.file?
        [['b', 'u', 'i', 'l', 'd'], ['n', 'o', 't', 'e', 's']] =
          some ⟨[110], ⟨1000, 0⟩, .ordinary⟩ :=
  ⟨Runner.confined_writing, by decide +kernel⟩

theorem contained_iff_leadsInside_encodeFromBelow :
    encodeFromBelow.StaysBelow ∧ (deep.run encodeFromBelow notesBesideSources).value.failed = 0 ∧
      deep.Contained [['b', 'u', 'i', 'l', 'd'], ['o', 'u', 't']] encodeFromBelow
        notesBesideSources ∧
      deep.LeadsInside [['b', 'u', 'i', 'l', 'd'], ['o', 'u', 't']] encodeFromBelow
        notesBesideSources := by
  have stays : encodeFromBelow.StaysBelow := by decide +kernel
  have complete : (deep.run encodeFromBelow notesBesideSources).value.failed = 0 := by
    decide +kernel
  have confined : deep.runner.Confined := Runner.confined_writing
  obtain ⟨below, exactly⟩ :=
    @contained_iff_leadsInside Unit deep [['b', 'u', 'i', 'l', 'd'], ['o', 'u', 't']]
      encodeFromBelow notesBesideSources confined (by decide +kernel) (by decide +kernel)
      (by decide +kernel)
  have contained := below (by decide +kernel) (Or.inl stays)
  exact ⟨stays, complete, contained, (exactly Runner.delivers_writing complete).mp contained⟩

end Session

end AssetPipeline
