/-
This file says when a build that failed is tried again. A copy that fails, or a time that cannot be
set, leaves the output in need of a rebuild, whatever stands where: either nothing has changed since
that was decided, or one of the two files cannot be reached. For a copy this rests on there being
room for whatever is written and no device failing, so that it fails before the target is touched or
not at all. A tool that fails leaves what it has written. When that is a regular file no older than
the source, nothing tells it from a finished output, and the next run takes it for current.
-/

import AssetPipeline.Proofs.Build.Tools
import AssetPipeline.Proofs.Build.Visits

namespace AssetPipeline

namespace CommandFailure

/-- The failures of external tools. -/
def isOfTool : CommandFailure → Bool
  | .notLaunched .. | .toolFailed .. => true
  | _ => false

/-- The failures that end the build of an output. -/
def endsBuild : CommandFailure → Bool
  | .notCopied .. | .timeNotSet .. => true
  | failure => failure.isOfTool

end CommandFailure

namespace Toolbox

variable {State : Type} {toolbox : Toolbox} {runner : Runner State} {source target : Path}
  {machine : Machine State} {error : CommandFailure}

theorem launch_error {job : Job} (failed : (launch runner job machine).value = .error error) :
    error.isOfTool = true := by
  unfold launch at failed
  dsimp only at failed
  split at failed
  · obtain rfl := Except.error.inj failed
    rfl
  · cases failed

/-- Two steps fail when the first does, or the second from where the first ended. -/
theorem andThen_isOfTool {Value Result : Type}
    {effect : Effect State (Except CommandFailure Value)}
    {next : Value → Machine State → Effect State (Except CommandFailure Result)}
    (first : ∀ error, effect.value = .error error → error.isOfTool = true)
    (second : ∀ value machine error, (next value machine).value = .error error →
      error.isOfTool = true) (failed : (effect.andThen next).value = .error error) :
    error.isOfTool = true := by
  cases ended : effect.value with
  | error other =>
    rw [Effect.andThen_of_error ended] at failed
    exact Except.error.inj failed ▸ first other ended
  | ok value =>
    rw [Effect.andThen_of_ok ended] at failed
    exact second value _ error failed

theorem encode_error (failed : (toolbox.encode runner source target machine).value = .error error) :
    error.isOfTool = true := by
  unfold encode at failed
  refine andThen_isOfTool (fun _ => launch_error) (fun code machine error failed => ?_) failed
  split at failed <;> cases failed
  rfl

theorem encodeWave_error {downmix : Bool}
    (failed : (toolbox.encodeWave runner source target downmix machine).value = .error error) :
    error.isOfTool = true := by
  unfold encodeWave at failed
  split at failed
  · unfold encodeMono at failed
    refine andThen_isOfTool (fun _ => launch_error) (fun code machine error failed => ?_) failed
    split at failed
    · cases failed
    · exact encode_error failed
    · cases failed
      rfl
  · exact encode_error failed

theorem convertMp3_error
    (failed : (toolbox.convertMp3 runner source target machine).value = .error error) :
    error.isOfTool = true := by
  refine andThen_isOfTool (fun error failed => ?_) (fun _ _ _ => encode_error) failed
  unfold decodeMp3 at failed
  refine andThen_isOfTool (fun _ => launch_error) (fun code machine error failed => ?_) failed
  split at failed <;> cases failed
  rfl

end Toolbox

namespace Session

variable {State : Type} {session : Session State} {error : CommandFailure}

/-- Producing an output fails by a tool, or else by a copy that changes nothing. -/
theorem produce_error {verb : Verb} {source target : Path} {machine : Machine State}
    (failed : (session.produce verb source target machine).value = .error error) :
    error.isOfTool = true ∨
      error.isOfTool = false ∧ (session.produce verb source target machine).machine = machine := by
  cases verb with
  | copy =>
    unfold produce copy at failed ⊢
    dsimp only at failed ⊢
    split at failed
    · cases failed
      exact Or.inr ⟨rfl, rfl⟩
    · cases failed
  | waveToOgg => exact Or.inl (Toolbox.encodeWave_error failed)
  | waveToOggMono => exact Or.inl (Toolbox.encodeWave_error failed)
  | mp3ToOgg => exact Or.inl (Toolbox.convertMp3_error failed)

end Session

namespace FileTree

variable {tree : FileTree} {source target : Path}

/-- Making the directory of an output fails in one way. -/
theorem makeParent_error {path : Path} {error : CommandFailure}
    (failed : (tree.makeParent path).2 = .error error) :
    ∃ parent fault, error = .directoryNotMade parent fault := by
  unfold makeParent at failed
  split at failed
  · cases failed
  split at failed
  · cases failed
  split at failed <;> cases failed
  exact ⟨_, _, rfl⟩

/-- What cannot be found has no file. -/
theorem fileAt?_of_locate {path : Path} {fault : Fault} (lost : tree.locate path = .error fault) :
    tree.fileAt? path = none := by
  unfold fileAt? lookup
  rw [lost]

/-- A time that cannot be passed on leaves the target in need of a rebuild: one of the two files
cannot be found. -/
theorem copyModified_error {error : CommandFailure}
    (failed : tree.copyModified source target = .error error) :
    error.isOfTool = false ∧ tree.decision source target = .rebuild := by
  unfold copyModified modified at failed
  cases sourceLocated : tree.locate source with
  | error fault =>
    rw [sourceLocated] at failed
    cases failed
    refine ⟨rfl, ?_⟩
    unfold decision
    rw [fileAt?_of_locate sourceLocated]
    split <;> simp_all
  | ok location =>
    rw [sourceLocated] at failed
    simp only [Except.map] at failed
    split at failed
    · next fault set =>
      cases failed
      refine ⟨rfl, ?_⟩
      have lost : ∃ fault, tree.locate target = .error fault := by
        unfold setModified at set
        split at set
        · next unclean =>
          refine ⟨.nulInPath, ?_⟩
          unfold locate place placeOfSteps
          rw [if_pos unclean]
        · split at set
          · next fault located => exact ⟨fault, located⟩
          · split at set <;> cases set
      obtain ⟨fault, located⟩ := lost
      unfold decision
      rw [fileAt?_of_locate located]
    · cases failed

end FileTree

namespace Session

variable {State : Type} {session : Session State} {error : CommandFailure}

/-- After a build that failed the output passes for current exactly when a tool failed and left a
regular file no older than the source. -/
theorem decision_of_failed_visit {visit : Visit State}
    (failed : (session.effectOf visit).value = .error error) (building : error.endsBuild = true) :
    (session.effectOf visit).machine.tree.decision (session.sourceOf visit.relative)
        (session.targetOf visit.verb visit.relative) = .upToDate ↔
      error.isOfTool = true ∧ ∃ sourceFile targetFile,
        (session.effectOf visit).machine.tree.fileAt? (session.sourceOf visit.relative) =
          some sourceFile ∧
        (session.effectOf visit).machine.tree.fileAt?
          (session.targetOf visit.verb visit.relative) = some targetFile ∧
        sourceFile.modified.notAfter targetFile.modified = true := by
  rw [FileTree.decision_eq_upToDate_iff, iff_and_self]
  intro current
  rw [← FileTree.decision_eq_upToDate_iff] at current
  unfold effectOf at failed current
  have course := session.visit_course visit.verb visit.relative visit.machine
  generalize (session.visit visit.verb visit.relative visit.machine).value = value at failed course
  generalize (session.visit visit.verb visit.relative visit.machine).machine = left
    at current course
  subst failed
  cases course with
  | noRoom room =>
    obtain ⟨_, _, rfl⟩ := FileTree.makeParent_error room
    cases building
  | notProduced room decided produced =>
    rcases produce_error produced with tool | ⟨-, unchanged⟩
    · exact tool
    · unfold decisionOf at decided
      unfold producing at current
      rw [unchanged, decided] at current
      cases current
  | notStamped room decided produced stamped =>
    rw [(FileTree.copyModified_error stamped).2] at current
    cases current

/-- None of these visits changes what file a path leads to. -/
def LeaveAlone (session : Session State) (path : Path) (visits : List (Visit State)) : Prop :=
  ∀ visit ∈ visits,
    (session.effectOf visit).machine.tree.fileAt? path = visit.machine.tree.fileAt? path

/-- The visit built its target and completed it. -/
def Builds (session : Session State) (visit : Visit State) : Prop :=
  ∃ completion, (session.effectOf visit).value = .ok completion ∧ completion.decision = .rebuild

/-- A visit that did not complete a build of its target and left it looking current. -/
structure LeavesBehind (session : Session State) (source target : Path) (visit : Visit State) :
    Prop where
  aimed : session.targetOf visit.verb visit.relative = target
  unbuilt : ¬ session.Builds visit
  current : (session.effectOf visit).machine.tree.decision source target = .upToDate

/-- One of these visits is such, and those after it leave the target alone. -/
def LeftBehind (session : Session State) (source target : Path) (visits : List (Visit State)) :
    Prop :=
  ∃ front visit back, visits = front ++ visit :: back ∧
    session.LeavesBehind source target visit ∧ session.LeaveAlone target back

theorem leaveAlone_cons {path : Path} {visit : Visit State} {rest : List (Visit State)} :
    session.LeaveAlone path (visit :: rest) ↔
      (session.effectOf visit).machine.tree.fileAt? path = visit.machine.tree.fileAt? path ∧
        session.LeaveAlone path rest :=
  List.forall_mem_cons

/-- What every visit leaves alone the last machine has as the first. -/
theorem fileAt?_of_follows {path : Path} {visits : List (Visit State)}
    {machine last : Machine State} (follows : session.Follows machine visits last)
    (alone : session.LeaveAlone path visits) :
    last.tree.fileAt? path = machine.tree.fileAt? path := by
  induction visits generalizing machine with
  | nil => rw [follows]
  | cons visit rest inductionHypothesis =>
    obtain ⟨rfl, later⟩ := follows
    obtain ⟨same, restAlone⟩ := leaveAlone_cons.mp alone
    rw [inductionHypothesis later restAlone, same]

theorem leftBehind_cons {source target : Path} {visit : Visit State} {rest : List (Visit State)} :
    session.LeftBehind source target (visit :: rest) ↔
      session.LeavesBehind source target visit ∧ session.LeaveAlone target rest ∨
        session.LeftBehind source target rest := by
  constructor
  · rintro ⟨_ | ⟨head, front⟩, last, back, whole, leaves, alone⟩
    · obtain ⟨rfl, rfl⟩ := List.cons.inj whole
      exact Or.inl ⟨leaves, alone⟩
    · exact Or.inr ⟨front, last, back, (List.cons.inj whole).2, leaves, alone⟩
  · rintro (⟨leaves, alone⟩ | ⟨front, last, back, rfl, leaves, alone⟩)
    · exact ⟨[], visit, rest, rfl, leaves, alone⟩
    · exact ⟨visit :: front, last, back, rfl, leaves, alone⟩

/-- Through visits that leave the source alone and never complete the target, the target is current
in the end if it was and stays as it is, or if one of them has left it so. -/
theorem decision_of_follows {source target : Path} {visits : List (Visit State)}
    {machine last : Machine State} (follows : session.Follows machine visits last)
    (sourceAlone : session.LeaveAlone source visits)
    (unbuilt : ∀ visit ∈ visits, session.targetOf visit.verb visit.relative = target →
      ¬ session.Builds visit)
    (targetAlone : ∀ visit ∈ visits, session.targetOf visit.verb visit.relative ≠ target →
      (session.effectOf visit).machine.tree.fileAt? target = visit.machine.tree.fileAt? target) :
    last.tree.decision source target = .upToDate ↔
      machine.tree.decision source target = .upToDate ∧ session.LeaveAlone target visits ∨
        session.LeftBehind source target visits := by
  induction visits generalizing machine with
  | nil =>
    rw [follows]
    refine ⟨fun current => Or.inl ⟨current, fun visit member => nomatch member⟩, ?_⟩
    rintro (⟨current, -⟩ | ⟨front, visit, back, whole, -⟩)
    · exact current
    · simp at whole
  | cons visit rest inductionHypothesis =>
    obtain ⟨rfl, later⟩ := follows
    obtain ⟨sameSource, restAlone⟩ := leaveAlone_cons.mp sourceAlone
    rw [inductionHypothesis later restAlone
      (fun other member => unbuilt other (List.mem_cons_of_mem _ member))
      (fun other member => targetAlone other (List.mem_cons_of_mem _ member)),
      leaveAlone_cons, leftBehind_cons]
    by_cases same : (session.effectOf visit).machine.tree.fileAt? target =
        visit.machine.tree.fileAt? target
    · have decided : (session.effectOf visit).machine.tree.decision source target =
          visit.machine.tree.decision source target := by
        unfold FileTree.decision
        rw [sameSource, same]
      rw [decided]
      constructor
      · rintro (⟨current, alone⟩ | left)
        · exact Or.inl ⟨current, same, alone⟩
        · exact Or.inr (Or.inr left)
      · rintro (⟨current, -, alone⟩ | ⟨leaves, alone⟩ | left)
        · exact Or.inl ⟨current, alone⟩
        · exact Or.inl ⟨decided ▸ leaves.current, alone⟩
        · exact Or.inr left
    · have aimed : session.targetOf visit.verb visit.relative = target :=
        Decidable.of_not_not fun apart => same (targetAlone visit List.mem_cons_self apart)
      have incomplete := unbuilt visit List.mem_cons_self aimed
      constructor
      · rintro (⟨current, alone⟩ | left)
        · exact Or.inr (Or.inl ⟨⟨aimed, incomplete, current⟩, alone⟩)
        · exact Or.inr (Or.inr left)
      · rintro (⟨-, changed, -⟩ | ⟨leaves, alone⟩ | left)
        · exact absurd changed same
        · exact Or.inl ⟨leaves.current, alone⟩
        · exact Or.inr left

/-! ### An encoder that fails halfway -/

/-- A wave to encode, and an output directory with nothing in it. -/
def oneWave : Machine Unit where
  tree := {
    nodes := [
      ([['s', 'r', 'c'], ['a', '.', 'w', 'a', 'v']], .file ⟨[119], ⟨1000, 0⟩, .ordinary⟩),
      ([['s', 'r', 'c']], .directory),
      ([['o', 'u', 't']], .directory)]
    workingDirectory := []
    clock := ⟨2000, 0⟩ }
  runner := ()

/-- The tools write a part of their output and end with exit code 3. -/
def halfway : Session Unit := .start .twoRoots (.writing [112] 3) oneWave.tree

/-- Encodes the wave. -/
def encodeOnce : Command :=
  ⟨1, ['w', 'a', 'v', 'e', '-', 't', 'o', '-', 'o', 'g', 'g'], [['*', '.', 'w', 'a', 'v'], ['x']]⟩

/-- The same with the older spelling of the verb. -/
def encodeAgain : Command := { encodeOnce with
  line := 2
  verb := ['w', 'a', 'v', '-', 't', 'o', '-', 'o', 'g', 'g'] }

/-- The first of the two attempts. -/
def firstAttempt : Visit Unit := ⟨.waveToOgg, ⟨['a', '.', 'w', 'a', 'v']⟩, oneWave⟩

/-- The second, which finds what the first left. -/
def secondAttempt : Visit Unit :=
  ⟨.waveToOgg, ⟨['a', '.', 'w', 'a', 'v']⟩, (halfway.effectOf firstAttempt).machine⟩

/-! ### The end of a run -/

/-- After a run in which a build failed and no later visit completed its target, the target is due
again, unless that build or a later one that was not completed left it looking current; and the
build did so only if a tool failed and left a regular file no older than the source. This is so for
every world and every runner, as long as the later visits leave the source alone, and those to other
targets the target. -/
theorem retried_iff_nothing_left {script : Script} {machine : Machine State} {visit : Visit State}
    {earlier later : List (Visit State)}
    (taken : session.visits script machine = earlier ++ visit :: later)
    (failed : (session.effectOf visit).value = .error error) (building : error.endsBuild = true)
    (unbuilt : ∀ other ∈ later,
      session.targetOf other.verb other.relative = session.targetOf visit.verb visit.relative →
        ¬ session.Builds other)
    (sourceAlone : session.LeaveAlone (session.sourceOf visit.relative) later)
    (targetAlone : ∀ other ∈ later,
      session.targetOf other.verb other.relative ≠ session.targetOf visit.verb visit.relative →
        (session.effectOf other).machine.tree.fileAt? (session.targetOf visit.verb visit.relative) =
          other.machine.tree.fileAt? (session.targetOf visit.verb visit.relative)) :
    let source := session.sourceOf visit.relative
    let target := session.targetOf visit.verb visit.relative
    let left := (session.effectOf visit).machine.tree
    ((session.run script machine).machine.tree.decision source target = .rebuild ↔
      ¬ session.LeftBehind source target (visit :: later)) ∧
    (session.LeavesBehind source target visit ↔ error.isOfTool = true ∧
      ∃ sourceFile targetFile, left.fileAt? source = some sourceFile ∧
        left.fileAt? target = some targetFile ∧
        sourceFile.modified.notAfter targetFile.modified = true) := by
  intro source target left
  have follows := session.follows_visits script machine
  rw [taken] at follows
  obtain ⟨middle, -, rfl, afterwards⟩ := follows_append.mp follows
  have incomplete : ¬ session.Builds visit := fun ⟨completion, completed, _⟩ => by
    rw [failed] at completed
    cases completed
  have leaves : session.LeavesBehind source target visit ↔ left.decision source target =
    .upToDate :=
    ⟨fun leaves => leaves.current, fun current => ⟨rfl, incomplete, current⟩⟩
  refine ⟨?_, leaves.trans (decision_of_failed_visit failed building)⟩
  rw [leftBehind_cons, leaves, ← decision_of_follows afterwards sourceAlone unbuilt targetAlone]
  cases (session.run script machine).machine.tree.decision source target <;> simp

/-- The only build of the run has failed, and its output passes for current. -/
theorem partial_output_passes_for_current :
    halfway.visits [encodeOnce] oneWave = [firstAttempt] ∧
      (halfway.effectOf firstAttempt).value =
        .error (.toolFailed ['o', 'g', 'g', 'e', 'n', 'c', '2'] (some 3)) ∧
      (halfway.run [encodeOnce] oneWave).machine.tree.decision
        (halfway.sourceOf firstAttempt.relative)
        (halfway.targetOf firstAttempt.verb firstAttempt.relative) = .upToDate := by
  decide +kernel

theorem retried_iff_nothing_left_twice :
    halfway.visits [encodeOnce, encodeAgain] oneWave = [] ++ firstAttempt :: [secondAttempt] ∧
      ((halfway.run [encodeOnce, encodeAgain] oneWave).machine.tree.decision
          (halfway.sourceOf firstAttempt.relative)
          (halfway.targetOf firstAttempt.verb firstAttempt.relative) = .rebuild ↔
        ¬ halfway.LeftBehind (halfway.sourceOf firstAttempt.relative)
          (halfway.targetOf firstAttempt.verb firstAttempt.relative)
          [firstAttempt, secondAttempt]) := by
  have taken : halfway.visits [encodeOnce, encodeAgain] oneWave =
      [] ++ firstAttempt :: [secondAttempt] := by decide +kernel
  have failed : (halfway.effectOf firstAttempt).value =
      .error (.toolFailed ['o', 'g', 'g', 'e', 'n', 'c', '2'] (some 3)) := by decide +kernel
  refine ⟨taken, (retried_iff_nothing_left taken failed rfl ?_ ?_ ?_).1⟩
  · intro other member _
    obtain rfl := List.mem_singleton.mp member
    rintro ⟨completion, completed, rebuilt⟩
    have current : (halfway.effectOf secondAttempt).value =
        .ok ⟨secondAttempt.relative, ⟨['a', '.', 'o', 'g', 'g']⟩, .upToDate⟩ := by decide +kernel
    obtain rfl := Except.ok.inj (completed.symm.trans current)
    cases rebuilt
  · intro other member
    obtain rfl := List.mem_singleton.mp member
    decide +kernel
  · intro other member apart
    obtain rfl := List.mem_singleton.mp member
    exact absurd rfl apart

end Session

end AssetPipeline
