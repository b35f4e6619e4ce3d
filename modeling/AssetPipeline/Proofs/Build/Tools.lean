/-
This file says what is expected of a runner of tools, and what the conversions then do. A runner is
confined when a launch leaves everything alone but what stands at the target of its job, and it
delivers when a launch that ends with exit code 0 has left a regular file there. With a confined
runner that delivers, a conversion that succeeds has put a file where its target leads, and of the
wave between decoder and encoder nothing is left.
-/

import AssetPipeline.Proofs.Build.Course
import AssetPipeline.Proofs.Build.Target
import AssetPipeline.Proofs.FileTree.Changes

namespace AssetPipeline

open FileTree (Plain Keeps)

variable {State : Type}

namespace Runner

/-- A launch changes nothing but what stands at the target of its job, puts no link there, and
closes or opens no directory. -/
def Confined (runner : Runner State) : Prop :=
  ∀ job machine, Plain machine.tree →
    Keeps machine.tree (runner.launch job machine).machine.tree
      (· = job.target.location machine.tree.workingDirectory)

/-- A launch that ends with exit code 0 leaves a regular file at the target of its job. -/
def Delivers (runner : Runner State) : Prop :=
  ∀ job machine, Plain machine.tree → (runner.launch job machine).outcome = .ok (some 0) →
    (runner.launch job machine).machine.tree.isFile job.target = true

/-- A runner that writes the same content to the target of every job. It answers with `code` once a
regular file is there, and with 1 when none can be written. -/
def writing (content : Bytes) (code : Int) : Runner Unit where
  launch job machine :=
    match machine.tree.writeFile job.target content with
    | .error _ => ⟨.ok (some 1), [], [], machine⟩
    | .ok tree =>
      if tree.isFile job.target then ⟨.ok (some code), [], [], { machine with tree := tree }⟩
      else ⟨.ok (some 1), [], [], machine⟩

section Writing

variable {content : Bytes} {code : Int}

/-- A launch of this runner changes nothing, or it has written the target. -/
theorem launch_writing (job : Job) (machine : Machine Unit) :
    ((writing content code).launch job machine).machine = machine ∧
        ((writing content code).launch job machine).outcome = .ok (some 1) ∨
      ∃ tree, machine.tree.writeFile job.target content = .ok tree ∧
        tree.isFile job.target = true ∧
        ((writing content code).launch job machine).machine = { machine with tree := tree } := by
  unfold writing
  dsimp only
  split
  · exact Or.inl ⟨rfl, rfl⟩
  next tree written =>
  split
  · next there => exact Or.inr ⟨tree, written, there, rfl⟩
  · exact Or.inl ⟨rfl, rfl⟩

theorem confined_writing : (writing content code).Confined := by
  intro job machine plain
  rcases @launch_writing content code job machine with ⟨same, -⟩ | ⟨tree, written, -, same⟩
  · rw [same]
    exact Keeps.refl plain _
  · rw [same]
    exact (FileTree.writeFile_ok plain written).1

theorem delivers_writing : (writing content code).Delivers := by
  intro job machine plain ended
  rcases @launch_writing content code job machine with ⟨-, one⟩ | ⟨tree, -, there, same⟩
  · rw [one] at ended
    cases ended
  · rw [same]
    exact there

end Writing

end Runner

/-- Sources below `src`, outputs below `out`. -/
def Layout.twoRoots : Layout where
  script := ⟨['b', 'u', 'i', 'l', 'd']⟩
  sourceRoot := ⟨['s', 'r', 'c']⟩
  outputRoot := ⟨['o', 'u', 't']⟩
  toolsRoot := ⟨['t', 'o', 'o', 'l', 's']⟩
  searchPath := []
  tools := .standard

namespace Toolbox

variable {toolbox : Toolbox} {runner : Runner State} {source target : Path}
  {machine : Machine State}

/-! ### What launches preserve, conversions preserve -/

section Preserves

variable {Holds : Machine State → Prop}

theorem encode_preserves
    (launched : ∀ job machine, job.target = target → Holds machine →
      Holds (runner.launch job machine).machine) (start : Holds machine) :
    Holds (toolbox.encode runner source target machine).machine := by
  unfold encode
  refine Effect.andThen_preserves (launched _ machine rfl start) fun code machine holds => ?_
  split <;> exact holds

theorem encodeWave_preserves {downmix : Bool}
    (launched : ∀ job machine, job.target = target → Holds machine →
      Holds (runner.launch job machine).machine) (start : Holds machine) :
    Holds (toolbox.encodeWave runner source target downmix machine).machine := by
  unfold encodeWave
  split
  · unfold encodeMono
    refine Effect.andThen_preserves (launched _ machine rfl start) fun code machine holds => ?_
    split
    · exact holds
    · exact encode_preserves launched holds
    · exact holds
  · exact encode_preserves launched start

theorem decodeMp3_preserves
    (launched : ∀ job machine, job.target = target → Holds machine →
      Holds (runner.launch job machine).machine) (start : Holds machine) :
    Holds (toolbox.decodeMp3 runner source target machine).machine := by
  unfold decodeMp3
  refine Effect.andThen_preserves (launched _ machine rfl start) fun code machine holds => ?_
  split <;> exact holds

/-- A conversion ends with the removal of the wave, from what its launches left. -/
theorem convertMp3_removes
    (launched : ∀ job machine, job.target = target ∨ job.target = scratchOf target →
      Holds machine → Holds (runner.launch job machine).machine) (start : Holds machine) :
    ∃ between, Holds between ∧ (toolbox.convertMp3 runner source target machine).machine =
      (removeScratch (scratchOf target) between).machine := by
  refine ⟨_, ?_, rfl⟩
  exact Effect.andThen_preserves
    (decodeMp3_preserves (fun job machine same => launched job machine (Or.inr same)) start)
    fun _ machine holds =>
      encode_preserves (fun job machine same => launched job machine (Or.inl same)) holds

/-- When the decoder fails, the wave is removed from what it left. -/
theorem convertMp3_of_decoder_failed {failure : CommandFailure}
    (failed : (toolbox.decodeMp3 runner source (scratchOf target) machine).value =
      .error failure) : (toolbox.convertMp3 runner source target machine).machine =
      (removeScratch (scratchOf target)
        (toolbox.decodeMp3 runner source (scratchOf target) machine).machine).machine := by
  unfold convertMp3 Effect.andThen
  dsimp only
  rw [failed]
  rfl

theorem convertMp3_preserves
    (launched : ∀ job machine, job.target = target ∨ job.target = scratchOf target →
      Holds machine → Holds (runner.launch job machine).machine)
    (removed : ∀ machine tree, machine.tree.removeFile (scratchOf target) = .ok tree →
      Holds machine → Holds { machine with tree := tree })
    (start : Holds machine) : Holds (toolbox.convertMp3 runner source target machine).machine := by
  obtain ⟨between, converted, left⟩ :=
    @convertMp3_removes State toolbox runner source target machine Holds launched start
  rw [left]
  unfold removeScratch
  split
  · next tree removal => exact removed _ tree removal converted
  · exact converted
  · exact converted

end Preserves

/-! ### What conversions launch -/

section Launches

theorem jobs_launch (job : Job) : Event.jobs (launch runner job machine).events = [job] := by
  unfold launch
  dsimp only
  split <;> split <;> rfl

theorem eq_of_mem_jobs_launch {job launched : Job}
    (member : launched ∈ Event.jobs (launch runner job machine).events) : launched = job := by
  rw [jobs_launch] at member
  exact List.mem_singleton.mp member

theorem jobs_encode : ∀ job ∈ Event.jobs (toolbox.encode runner source target machine).events,
    job.target = target := by
  unfold encode
  refine Effect.andThen_launches (fun job member => eq_of_mem_jobs_launch member ▸ rfl)
    fun code machine => ?_
  split <;> exact fun job member => nomatch member

theorem jobs_encodeWave {downmix : Bool} :
    ∀ job ∈ Event.jobs (toolbox.encodeWave runner source target downmix machine).events,
      job.target = target := by
  unfold encodeWave
  split
  · unfold encodeMono
    refine Effect.andThen_launches (fun job member => eq_of_mem_jobs_launch member ▸ rfl)
      fun code machine => ?_
    split
    · exact fun job member => nomatch member
    · exact jobs_encode
    · exact fun job member => nomatch member
  · exact jobs_encode

/-- Removing the wave launches nothing. -/
theorem jobs_convertMp3_eq :
    Event.jobs (toolbox.convertMp3 runner source target machine).events =
      Event.jobs ((toolbox.decodeMp3 runner source (scratchOf target) machine).andThen
        fun _ machine => toolbox.encode runner (scratchOf target) target machine).events := by
  unfold convertMp3 Effect.bind Effect.after
  rw [Event.jobs_append]
  refine (congrArg (_ ++ ·) ?_).trans (List.append_nil _)
  unfold removeScratch
  dsimp only
  split <;> rfl

theorem jobs_convertMp3 :
    ∀ job ∈ Event.jobs (toolbox.convertMp3 runner source target machine).events,
      job.target = target ∨ job.target = scratchOf target := by
  rw [jobs_convertMp3_eq]
  refine Effect.andThen_launches ?_ fun _ machine job member => Or.inl (jobs_encode job member)
  unfold decodeMp3
  refine Effect.andThen_launches (fun job member => ?_) fun code machine => ?_
  · rw [eq_of_mem_jobs_launch member]
    exact Or.inr rfl
  · split <;> exact fun job member => nomatch member

/-- Encoding launches a job for its output. -/
theorem encode_launches :
    ∃ job ∈ Event.jobs (toolbox.encode runner source target machine).events,
      job.target = target := by
  refine ⟨toolbox.encodeJob source target false, Effect.mem_jobs_andThen ?_, rfl⟩
  rw [jobs_launch]
  exact List.mem_singleton_self _

theorem encodeWave_launches {downmix : Bool} :
    ∃ job ∈ Event.jobs (toolbox.encodeWave runner source target downmix machine).events,
      job.target = target := by
  unfold encodeWave
  split
  · refine ⟨toolbox.encodeJob source target true, Effect.mem_jobs_andThen ?_, rfl⟩
    rw [jobs_launch]
    exact List.mem_singleton_self _
  · exact encode_launches

theorem convertMp3_launches
    (succeeded : (toolbox.convertMp3 runner source target machine).value = .ok ()) :
    ∃ job ∈ Event.jobs (toolbox.convertMp3 runner source target machine).events,
      job.target = target := by
  obtain ⟨done, -, whole, -⟩ := Effect.andThen_eq_ok succeeded
  obtain ⟨job, member, aimed⟩ := @encode_launches State toolbox runner (scratchOf target) target
    (toolbox.decodeMp3 runner source (scratchOf target) machine).machine
  refine ⟨job, ?_, aimed⟩
  rw [jobs_convertMp3_eq, whole, Effect.jobs_after]
  exact List.mem_append_right _ member

end Launches

/-! ### Conversions that succeed -/

section Succeeds

theorem eq_zero_of_success {code : ExitCode} {downmix : Bool}
    (success : EncoderExit.ofCode code downmix = .success) : code = some 0 := by
  unfold EncoderExit.ofCode at success
  split at success
  · assumption
  · split at success <;> cases success

theorem launch_ok {job : Job} {code : ExitCode}
    (ended : (launch runner job machine).value = .ok code) :
    (runner.launch job machine).outcome = .ok code := by
  unfold launch at ended
  dsimp only at ended
  split at ended
  · cases ended
  next other same =>
  obtain rfl := Except.ok.inj ended
  exact same

variable (confined : runner.Confined) (delivers : runner.Delivers) (plain : Plain machine.tree)

include confined delivers plain

/-- A launch that ends with exit code 0 has put a file where its target leads. -/
theorem launch_zero {job : Job} (ended : (launch runner job machine).value = .ok (some 0)) :
    Keeps machine.tree (launch runner job machine).machine.tree
        (· = job.target.location machine.tree.workingDirectory) ∧
      (launch runner job machine).machine.tree.isFile job.target = true :=
  ⟨confined job machine plain, delivers job machine plain (launch_ok ended)⟩

theorem encode_ok (succeeded : (toolbox.encode runner source target machine).value = .ok ()) :
    Keeps machine.tree (toolbox.encode runner source target machine).machine.tree
        (· = target.location machine.tree.workingDirectory) ∧
      (toolbox.encode runner source target machine).machine.tree.isFile target = true := by
  unfold encode at succeeded ⊢
  dsimp only at succeeded ⊢
  obtain ⟨code, ended, whole, rest⟩ := Effect.andThen_eq_ok succeeded
  rw [whole]
  split at rest
  · next success =>
    rw [eq_zero_of_success success] at ended
    exact launch_zero confined delivers plain ended
  · cases rest

theorem encodeWave_ok {downmix : Bool}
    (succeeded : (toolbox.encodeWave runner source target downmix machine).value = .ok ()) :
    Keeps machine.tree (toolbox.encodeWave runner source target downmix machine).machine.tree
        (· = target.location machine.tree.workingDirectory) ∧
      (toolbox.encodeWave runner source target downmix machine).machine.tree.isFile target =
        true := by
  unfold encodeWave at succeeded ⊢
  cases downmix with
  | false => exact encode_ok confined delivers plain succeeded
  | true =>
    simp only [if_true] at succeeded ⊢
    unfold encodeMono at succeeded ⊢
    dsimp only at succeeded ⊢
    obtain ⟨code, ended, whole, rest⟩ := Effect.andThen_eq_ok succeeded
    rw [whole]
    split at rest
    · next success =>
      rw [eq_zero_of_success success] at ended
      exact launch_zero confined delivers plain ended
    · have first := confined (toolbox.encodeJob source target true) machine plain
      obtain ⟨second, delivered⟩ := encode_ok confined delivers first.plain rest
      rw [first.working] at second
      exact ⟨first.trans second, delivered⟩
    · cases rest

theorem decodeMp3_ok (succeeded : (toolbox.decodeMp3 runner source target machine).value = .ok ()) :
    Keeps machine.tree (toolbox.decodeMp3 runner source target machine).machine.tree
        (· = target.location machine.tree.workingDirectory) ∧
      (toolbox.decodeMp3 runner source target machine).machine.tree.isFile target = true := by
  unfold decodeMp3 at succeeded ⊢
  dsimp only at succeeded ⊢
  obtain ⟨code, ended, whole, rest⟩ := Effect.andThen_eq_ok succeeded
  rw [whole]
  split at rest
  · next zero =>
    rw [if_pos zero]
    rw [zero] at ended
    exact launch_zero confined delivers plain ended
  · cases rest

end Succeeds

/-- A file stands at the output of a source only if that output has a name. -/
theorem named_of_isFile {tree : FileTree} (plain : Plain tree) {root relative : Path}
    {front : List Text} {name : Name} {verb : Verb} (inner : relative.Inner front name)
    (given : root.text ≠ [])
    (there : tree.isFile (root.join (Session.outputOf verb relative)) = true) :
    verb.outputName name ≠ Path.dotDot := by
  intro up
  obtain ⟨file, found⟩ := Option.isSome_iff_exists.mp there
  obtain ⟨reaches, stands⟩ := (FileTree.fileAt?_eq_some_iff plain).mp found
  have moves : (root.join (Session.outputOf verb relative)).moves =
      root.moves ++ front.filter Path.isMove ++ [Path.dotDot] := by
    rw [Path.moves_join given (inner.isAbsolute_outputOf verb), inner.moves_outputOf, up,
      List.append_assoc]
  have directory := reaches.isDirectoryAt_of_dotDot plain moves
  rw [(FileTree.Room.of_file plain stands).leaf] at directory
  cases directory

/-- A regular file at the wave is removed. -/
theorem removeScratch_of_file {scratch : Path} {file : File} (plain : Plain machine.tree)
    (there : machine.tree.fileAt? scratch = some file) :
    Keeps machine.tree (removeScratch scratch machine).machine.tree
        (· = scratch.location machine.tree.workingDirectory) ∧
      machine.tree.isDirectoryAt (scratch.location machine.tree.workingDirectory) = false ∧
      (removeScratch scratch machine).machine.tree.node?
        (scratch.location machine.tree.workingDirectory) = none := by
  obtain ⟨removed, removal⟩ := FileTree.removeFile_of_file plain there
  have left : (removeScratch scratch machine).machine.tree = removed := by
    unfold removeScratch
    rw [removal]
    rfl
  rw [left]
  exact FileTree.removeFile_ok plain removal

/-- Where there is no regular file, nothing is removed. -/
theorem removeScratch_of_not_isFile {scratch : Path} (plain : Plain machine.tree)
    (absent : machine.tree.isFile scratch = false) :
    (removeScratch scratch machine).machine = machine := by
  unfold removeScratch
  split
  · next tree removed =>
    rw [FileTree.isFile_of_removeFile plain removed] at absent
    cases absent
  · rfl
  · rfl

/-! ### The wave between decoder and encoder -/

section Wave

variable {tree later : FileTree} {root relative : Path} {front : List Text} {name : Name}
  (inner : relative.Inner front name) (given : root.text ≠ [])
  (named : Verb.mp3ToOgg.outputName name ≠ Path.dotDot)
  (same : target = root.join (Session.outputOf .mp3ToOgg relative))

include inner given named same

theorem scratchOf_apart (working : Location) :
    (scratchOf target).location working ≠ target.location working := by
  rw [same]
  exact inner.location_scratchOf_ne (by decide) given named working

/-- The wave is still there once there is an output beside it. -/
theorem fileAt?_scratchOf_of_encoded (plain : Plain tree)
    (keeps : Keeps tree later (· = target.location tree.workingDirectory))
    (outputThere : later.isFile target = true) {wave : File}
    (found : tree.fileAt? (scratchOf target) = some wave) :
    later.fileAt? (scratchOf target) = some wave := by
  obtain ⟨entry, -⟩ := inner.scratchName (by decide) named
  have bare := inner.bare_output .mp3ToOgg
  obtain ⟨reaches, stands⟩ := (FileTree.fileAt?_eq_some_iff plain).mp found
  obtain ⟨output, outputFound⟩ := Option.isSome_iff_exists.mp outputThere
  obtain ⟨outputReaches, -⟩ := (FileTree.fileAt?_eq_some_iff keeps.plain).mp outputFound
  have stays : later.file? ((scratchOf target).location later.workingDirectory) = some wave := by
    rw [keeps.working, FileTree.file?_congr
      (keeps.elsewhere _ (scratchOf_apart inner given named same _))]
    exact stands
  refine (FileTree.fileAt?_eq_some_iff keeps.plain).mpr ⟨?_, stays⟩
  rw [same, inner.outputOf_eq] at outputReaches
  rw [same, inner.scratchOf_eq given named] at reaches stays ⊢
  refine outputReaches.beside given bare (bare.rename entry.move entry.free) entry reaches ?_
  rw [FileTree.file?_eq_some_iff.mp stays]
  rfl

/-- The output is still there once the wave is removed. -/
theorem isFile_of_removed
    (keeps : Keeps tree later (· = (scratchOf target).location tree.workingDirectory))
    (leaf : tree.isDirectoryAt ((scratchOf target).location tree.workingDirectory) = false)
    (plain : Plain tree) (there : tree.isFile target = true) : later.isFile target = true := by
  obtain ⟨output, found⟩ := Option.isSome_iff_exists.mp there
  have stands := ((FileTree.fileAt?_eq_some_iff plain).mp found).2
  have unmoved := keeps.elsewhere _ (Ne.symm (scratchOf_apart inner given named same _))
  refine FileTree.isFile_mono plain keeps.plain keeps.working (fun _ => keeps.isDirectoryAt leaf)
    ?_ there
  rw [FileTree.file?_congr unmoved, stands]
  rfl

end Wave

/-- A decoded file that was encoded has an output and no wave any more. -/
theorem convertMp3_ok (confined : runner.Confined) (delivers : runner.Delivers)
    (plain : Plain machine.tree) {root relative : Path} {front : List Text} {name : Name}
    (inner : relative.Inner front name) (given : root.text ≠ [])
    (same : target = root.join (Session.outputOf .mp3ToOgg relative))
    (succeeded : (toolbox.convertMp3 runner source target machine).value = .ok ()) :
    Keeps machine.tree (toolbox.convertMp3 runner source target machine).machine.tree
        (fun place => place = target.location machine.tree.workingDirectory ∨
          place = (scratchOf target).location machine.tree.workingDirectory) ∧
      (toolbox.convertMp3 runner source target machine).machine.tree.isFile target = true ∧
      (toolbox.convertMp3 runner source target machine).machine.tree.node?
        ((scratchOf target).location machine.tree.workingDirectory) = none := by
  obtain ⟨done, decoded, whole, encoded⟩ := Effect.andThen_eq_ok succeeded
  have left : (toolbox.convertMp3 runner source target machine).machine =
      (removeScratch (scratchOf target) (toolbox.encode runner (scratchOf target) target
        (toolbox.decodeMp3 runner source (scratchOf target) machine).machine).machine).machine := by
    show (removeScratch (scratchOf target) (Effect.andThen _ _).machine).machine = _
    rw [whole]
    rfl
  rw [left]
  obtain ⟨firstKeeps, waveThere⟩ := decodeMp3_ok confined delivers plain decoded
  obtain ⟨secondKeeps, outputThere⟩ := encode_ok confined delivers firstKeeps.plain encoded
  generalize (toolbox.decodeMp3 runner source (scratchOf target) machine).machine = between at *
  generalize (toolbox.encode runner (scratchOf target) target between).machine = after at *
  have named := named_of_isFile secondKeeps.plain inner given (same ▸ outputThere)
  obtain ⟨wave, found⟩ := Option.isSome_iff_exists.mp waveThere
  obtain ⟨thirdKeeps, leaf, gone⟩ := removeScratch_of_file secondKeeps.plain
    (fileAt?_scratchOf_of_encoded inner given named same firstKeeps.plain secondKeeps outputThere
      found)
  have outputStays :=
    isFile_of_removed inner given named same thirdKeeps leaf secondKeeps.plain outputThere
  rw [secondKeeps.working, firstKeeps.working] at thirdKeeps gone
  rw [firstKeeps.working] at secondKeeps
  refine ⟨?_, outputStays, gone⟩
  refine ((firstKeeps.mono fun place => Or.inr).trans (secondKeeps.mono fun place => Or.inl)).trans
    ?_
  exact thirdKeeps.mono fun place => Or.inr

end Toolbox

end AssetPipeline
