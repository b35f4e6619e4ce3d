/-
This file says what a visit leaves that was completed, when tools are confined and deliver, the tree
is plain, and the two roots are directories apart from each other. The output stands as a regular
file that is no older than its source and no older than what stood there before; the roots can be
reached; nothing has changed below the source root; and no other file came, went or changed, but for
the wave of a decoded file, which is gone.
-/

import AssetPipeline.Proofs.Build.Tools

namespace AssetPipeline

open FileTree (Plain Keeps Grows)

variable {State : Type}

section Room

variable {tree : FileTree} {root relative : Path} {front : List Text} {name : Name}

/-- Making room for an output makes directories on the way to the output root, or from there to the
output. -/
theorem grows_makeParent (plain : Plain tree) (given : root.text ≠ [])
    (inner : relative.Inner front name) (verb : Verb) :
    Grows tree (tree.makeParent (root.join (Session.outputOf verb relative))).1 fun place =>
      (∃ moves, moves <+: root.moves ∧
        place = (root.startFrom tree.workingDirectory).along moves) ∨
      ∃ steps, steps <+: front.filter Path.isMove ∧
        place = (root.location tree.workingDirectory).along steps := by
  have relativeOutput := inner.isAbsolute_outputOf verb
  refine (FileTree.makeParent_grows plain _).mono fun place _ => ?_
  rintro ⟨moves, part, rfl⟩
  have start : (root.join (Session.outputOf verb relative)).startFrom tree.workingDirectory =
      root.startFrom tree.workingDirectory := by
    unfold Path.startFrom
    rw [Path.isAbsolute_join given relativeOutput]
  rw [Path.moves_join given relativeOutput, inner.moves_outputOf, ← List.append_assoc,
    List.dropLast_concat] at part
  rw [start]
  rcases List.prefix_or_prefix_of_prefix part (List.prefix_append _ _) with short | ⟨rest, whole⟩
  · exact Or.inl ⟨moves, short, rfl⟩
  · subst whole
    rw [List.prefix_append_right_inj] at part
    exact Or.inr ⟨rest, part, by rw [Location.along_append, ← Path.location_eq_moves]⟩

/-- Whoever reaches the output root finds the directories on the way to it. -/
theorem grows_makeParent_of_reaches (plain : Plain tree) (reaches : tree.Reaches root)
    (inner : relative.Inner front name) (verb : Verb) :
    Grows tree (tree.makeParent (root.join (Session.outputOf verb relative))).1
      (fun place => ∃ steps, steps <+: front.filter Path.isMove ∧
        place = (root.location tree.workingDirectory).along steps) := by
  refine (grows_makeParent plain reaches.usable.given inner verb).mono fun place vacant => ?_
  rintro (⟨moves, part, rfl⟩ | further)
  · by_cases whole : moves = root.moves
    · refine ⟨[], List.nil_prefix, ?_⟩
      rw [whole, ← Path.location_eq_moves, Location.along_nil]
    · have directory := reaches.isDirectoryAt_of_isPrefix part whole
      rw [FileTree.isDirectoryAt_iff.mp directory] at vacant
      cases vacant
  · exact further

end Room

namespace Session

variable {session : Session State} {verb : Verb} {relative source : Path} {front : List Text}
  {name : Name} {machine : Machine State} {tree later : FileTree}

/-- Where an output stands. -/
def placeOf (session : Session State) (verb : Verb) (relative : Path) (tree : FileTree) :
    Location :=
  (session.targetOf verb relative).location tree.workingDirectory

/-- Where the wave between decoder and encoder stands. -/
def waveOf (session : Session State) (verb : Verb) (relative : Path) (tree : FileTree) : Location :=
  (Toolbox.scratchOf (session.targetOf verb relative)).location tree.workingDirectory

/-- What producing an output leaves: a regular file under a name, and of a wave nothing. -/
structure Produced (session : Session State) (verb : Verb) (relative : Path) (name : Name)
    (tree later : FileTree) : Prop where
  named : verb.outputName name ≠ Path.dotDot
  keeps : Keeps tree later fun place => place = session.placeOf verb relative tree ∨
    verb = .mp3ToOgg ∧ place = session.waveOf verb relative tree
  file : ∃ file, later.file? (session.placeOf verb relative tree) = some file
  gone : verb = .mp3ToOgg → later.node? (session.waveOf verb relative tree) = none

theorem file?_of_isFile {path : Path} (plain : Plain later)
    (working : later.workingDirectory = tree.workingDirectory) (there : later.isFile path = true) :
    ∃ file, later.file? (path.location tree.workingDirectory) = some file := by
  obtain ⟨file, found⟩ := Option.isSome_iff_exists.mp there
  exact ⟨file, working ▸ ((FileTree.fileAt?_eq_some_iff plain).mp found).2⟩

theorem copy_ok {target : Path} (succeeded : (copy source target machine).value = .ok ()) :
    machine.tree.copyFile source target = .ok (copy source target machine).machine.tree := by
  unfold copy at succeeded ⊢
  cases copied : machine.tree.copyFile source target with
  | error fault =>
    rw [copied] at succeeded
    cases succeeded
  | ok later => rfl

theorem produced_of_copy (plain : Plain machine.tree) (inner : relative.Inner front name)
    (succeeded : (copy source (session.targetOf .copy relative) machine).value = .ok ()) :
    session.Produced .copy relative name machine.tree
      (copy source (session.targetOf .copy relative) machine).machine.tree := by
  obtain ⟨keeps, -, -, file⟩ := FileTree.copyFile_ok plain (copy_ok succeeded)
  exact ⟨inner.entry.named, keeps.mono fun _ => Or.inl, file, fun converts => nomatch converts⟩

theorem produced_of_encodeWave (confined : session.runner.Confined)
    (delivers : session.runner.Delivers) (plain : Plain machine.tree)
    (given : session.layout.outputRoot.text ≠ []) (inner : relative.Inner front name)
    {downmix : Bool} (other : verb ≠ .mp3ToOgg)
    (succeeded : (session.toolbox.encodeWave session.runner source (session.targetOf verb relative)
      downmix machine).value = .ok ()) :
    session.Produced verb relative name machine.tree
      (session.toolbox.encodeWave session.runner source
      (session.targetOf verb relative) downmix machine).machine.tree := by
  obtain ⟨keeps, there⟩ := Toolbox.encodeWave_ok confined delivers plain succeeded
  exact ⟨Toolbox.named_of_isFile keeps.plain inner given there, keeps.mono fun _ => Or.inl,
    file?_of_isFile keeps.plain keeps.working there, fun converts => absurd converts other⟩

theorem produced_of_convertMp3 (confined : session.runner.Confined)
    (delivers : session.runner.Delivers) (plain : Plain machine.tree)
    (given : session.layout.outputRoot.text ≠ []) (inner : relative.Inner front name)
    (succeeded : (session.toolbox.convertMp3 session.runner source
      (session.targetOf .mp3ToOgg relative) machine).value = .ok ()) :
    session.Produced .mp3ToOgg relative name machine.tree (session.toolbox.convertMp3 session.runner
      source (session.targetOf .mp3ToOgg relative) machine).machine.tree := by
  have same : session.targetOf .mp3ToOgg relative =
    session.layout.outputRoot.join (outputOf .mp3ToOgg relative) := rfl
  obtain ⟨keeps, there, gone⟩ :=
    Toolbox.convertMp3_ok confined delivers plain inner given same succeeded
  constructor
  · exact Toolbox.named_of_isFile keeps.plain inner given there
  · refine keeps.mono fun place touched => ?_
    rcases touched with output | wave
    · exact Or.inl output
    · exact Or.inr ⟨rfl, wave⟩
  · exact file?_of_isFile keeps.plain keeps.working there
  · exact fun _ => gone

theorem produced_of_produce (confined : session.runner.Confined)
    (delivers : session.runner.Delivers) (plain : Plain machine.tree)
    (given : session.layout.outputRoot.text ≠ []) (inner : relative.Inner front name)
    (succeeded : (session.produce verb source (session.targetOf verb relative) machine).value =
      .ok ()) :
    session.Produced verb relative name machine.tree
      (session.produce verb source (session.targetOf verb relative) machine).machine.tree := by
  cases verb with
  | copy => exact produced_of_copy plain inner succeeded
  | waveToOgg =>
    exact produced_of_encodeWave confined delivers plain given inner (by decide) succeeded
  | waveToOggMono =>
    exact produced_of_encodeWave confined delivers plain given inner (by decide) succeeded
  | mp3ToOgg => exact produced_of_convertMp3 confined delivers plain given inner succeeded

/-- What building an output leaves: what producing it does, with the time of its source. -/
structure Built (session : Session State) (verb : Verb) (relative : Path) (name : Name)
    (tree later : FileTree) : Prop where
  named : verb.outputName name ≠ Path.dotDot
  keeps : Keeps tree later fun place => place = session.placeOf verb relative tree ∨
    verb = .mp3ToOgg ∧ place = session.waveOf verb relative tree
  sourceReaches : later.Reaches (session.sourceOf relative)
  outputReaches : later.Reaches (session.targetOf verb relative)
  file : ∃ file, later.file? (session.placeOf verb relative tree) = some file ∧
    ∀ source,
      later.file? ((session.sourceOf relative).location tree.workingDirectory) = some source →
        file.modified = source.modified
  gone : verb = .mp3ToOgg → later.node? (session.waveOf verb relative tree) = none

theorem built_of_produced {between : FileTree}
    (produced : session.Produced verb relative name tree between)
    (stamped : between.copyModified (session.sourceOf relative) (session.targetOf verb relative) =
      .ok later) : session.Built verb relative name tree later := by
  obtain ⟨named, makes, ⟨file, made⟩, gone⟩ := produced
  obtain ⟨sourceReaches, outputReaches, stamps, same, stamp⟩ :=
    FileTree.copyModified_ok makes.plain stamped
  have reaches : ∀ path, between.Reaches path → later.Reaches path := fun path before =>
    before.mono stamps.working (fun other directory => (same other).2 ▸ directory)
      fun stood => (same _).1 ▸ stood
  rw [makes.working] at stamps stamp
  have left := stamp file made
  refine ⟨named, makes.trans (stamps.mono fun _ => Or.inl), reaches _ sourceReaches,
    reaches _ outputReaches, ⟨_, left, fun source found => ?_⟩, fun converts => ?_⟩
  · by_cases itself : (session.sourceOf relative).location tree.workingDirectory =
        session.placeOf verb relative tree
    · rw [itself] at found
      exact congrArg File.modified (Option.some.inj (left.symm.trans found))
    · rw [FileTree.file?_eq_some_iff, stamps.elsewhere _ itself] at found
      unfold FileTree.modifiedAt
      rw [found]
  · have nothing := gone converts
    have differs : session.waveOf verb relative tree ≠ session.placeOf verb relative tree := by
      intro equal
      rw [equal, FileTree.file?_eq_some_iff.mp made] at nothing
      cases nothing
    rw [stamps.elsewhere _ differs]
    exact nothing

/-! ### Visits that complete -/

/-- A plain tree in which both roots are directories that can be reached. -/
structure Ready (session : Session State) (source output : Location) (tree : FileTree) : Prop where
  plain : Plain tree
  sourceReaches : tree.Reaches session.layout.sourceRoot
  sourceAt : session.layout.sourceRoot.location tree.workingDirectory = source
  sourceDirectory : tree.isDirectoryAt source = true
  outputReaches : tree.Reaches session.layout.outputRoot
  outputAt : session.layout.outputRoot.location tree.workingDirectory = output
  outputDirectory : tree.isDirectoryAt output = true

/-- A file of a command: an entry below the source root, reported by names alone. -/
structure Listed (relative : Path) (front : List Text) (name : Name) : Prop where
  inner : relative.Inner front name
  named : Path.dotDot ∉ front

/-- Neither of two locations is inside the other, nor are they the same. -/
structure Apart (source output : Location) : Prop where
  outside : ¬ source <+: output
  around : ¬ output <+: source

theorem apart_iff {source output : Location} :
    Apart source output ↔ ¬ source <+: output ∧ ¬ output <+: source :=
  ⟨fun apart => ⟨apart.outside, apart.around⟩, fun ⟨outside, around⟩ => ⟨outside, around⟩⟩

instance (source output : Location) : Decidable (Apart source output) :=
  decidable_of_iff' _ apart_iff

variable {origin output : Location}

theorem Apart.ne (apart : Apart origin output) (first second : List Name) :
    origin ++ first ≠ output ++ second := by
  intro same
  have part : origin <+: output ++ second := same ▸ List.prefix_append _ _
  rcases List.prefix_or_prefix_of_prefix part (List.prefix_append _ _) with outside | around
  · exact apart.outside outside
  · exact apart.around around

theorem Listed.isEntry_output (listed : Listed relative front name)
    (named : verb.outputName name ≠ Path.dotDot) :
    ∀ move ∈ (outputOf verb relative).moves, IsEntry move :=
  (listed.inner.output named).isEntry listed.named

theorem Listed.placeOf_eq (listed : Listed relative front name)
    (ready : session.Ready origin output tree) (named : verb.outputName name ≠ Path.dotDot) :
    session.placeOf verb relative tree = output ++ (outputOf verb relative).moves := by
  unfold placeOf targetOf
  rw [Path.location_join ready.outputReaches.usable.given (listed.inner.isAbsolute_outputOf verb),
    ready.outputAt, Location.along_of_isEntry (listed.isEntry_output named)]

theorem Listed.waveOf_eq (listed : Listed relative front name)
    (ready : session.Ready origin output tree) (converts : verb ≠ .copy)
    (named : verb.outputName name ≠ Path.dotDot) :
    session.waveOf verb relative tree =
      output ++ (Toolbox.scratchOf (outputOf verb relative)).moves := by
  have inner := listed.inner.wave converts named
  unfold waveOf targetOf
  rw [listed.inner.scratchOf_eq ready.outputReaches.usable.given named,
    ← listed.inner.scratchOf_outputOf named,
    Path.location_join ready.outputReaches.usable.given inner.isAbsolute, ready.outputAt,
    Location.along_of_isEntry (inner.isEntry listed.named)]

/-- Both roots are reached by whoever reaches a source and an output. -/
theorem ready_of_reaches (plain : Plain tree) (listed : Listed relative front name)
    (given : session.layout.sourceRoot.text ≠ [] ∧ session.layout.outputRoot.text ≠ [])
    (sourceReaches : tree.Reaches (session.sourceOf relative))
    (outputReaches : tree.Reaches (session.targetOf verb relative)) :
    session.Ready (session.layout.sourceRoot.location tree.workingDirectory)
      (session.layout.outputRoot.location tree.workingDirectory) tree := by
  have sources := sourceReaches.base given.1 listed.inner.isAbsolute (by simp [listed.inner.moves])
  have outputs := outputReaches.base given.2 (listed.inner.isAbsolute_outputOf verb)
    (by simp [listed.inner.moves_outputOf])
  exact ⟨plain, sources.1, rfl, sources.2.1, outputs.1, rfl, outputs.2.1⟩

/-- Roots stay where they are as long as no directory is lost. -/
theorem Ready.mono (ready : session.Ready origin output tree) (plain : Plain later)
    (working : later.workingDirectory = tree.workingDirectory)
    (directories : ∀ place, tree.isDirectoryAt place = true → later.isDirectoryAt place = true) :
    session.Ready origin output later := by
  have reaches : ∀ path place, tree.Reaches path → path.location tree.workingDirectory = place →
      tree.isDirectoryAt place = true → later.Reaches path := by
    rintro path _ before rfl directory
    have there := (FileTree.isDirectory_iff ready.plain).mpr ⟨before, directory⟩
    exact ((FileTree.isDirectory_iff plain).mp
      (FileTree.isDirectory_mono ready.plain plain working directories there)).1
  exact {
    plain := plain
    sourceReaches := reaches _ _ ready.sourceReaches ready.sourceAt ready.sourceDirectory
    sourceAt := working ▸ ready.sourceAt
    sourceDirectory := directories _ ready.sourceDirectory
    outputReaches := reaches _ _ ready.outputReaches ready.outputAt ready.outputDirectory
    outputAt := working ▸ ready.outputAt
    outputDirectory := directories _ ready.outputDirectory }

theorem Ready.withRoom (ready : session.Ready origin output machine.tree)
    (listed : Listed relative front name) (verb : Verb) :
    Grows machine.tree (session.withRoom verb relative machine).tree (fun place =>
        ∃ below, below <+: front.filter Path.isMove ∧ place = output ++ below) ∧
      session.Ready origin output (session.withRoom verb relative machine).tree := by
  have grows : Grows machine.tree (session.withRoom verb relative machine).tree _ :=
    grows_makeParent_of_reaches ready.plain ready.outputReaches listed.inner verb
  refine ⟨grows.mono fun place _ ⟨steps, part, same⟩ => ⟨steps, part, ?_⟩,
    ready.mono grows.plain grows.working fun _ => grows.isDirectoryAt⟩
  have entries : ∀ step ∈ steps, IsEntry step := fun step member => by
    obtain ⟨inFront, move⟩ := List.mem_filter.mp (part.subset member)
    refine ⟨move, fun up => listed.named (up ▸ inFront), ?_⟩
    exact listed.inner.bare.free step (List.mem_append_left _ inFront)
  rw [same, ready.outputAt, Location.along_of_isEntry entries]

/-- What a completed visit leaves, the decision being `decision`. -/
structure Completed (session : Session State) (origin output : Location) (verb : Verb)
    (relative : Path) (name : Name) (decision : Decision) (tree later : FileTree) : Prop where
  named : verb.outputName name ≠ Path.dotDot
  ready : session.Ready origin output later
  working : later.workingDirectory = tree.workingDirectory
  sourceReaches : later.Reaches (session.sourceOf relative)
  outputReaches : later.Reaches (session.targetOf verb relative)
  /-- Nothing has changed below the source root. -/
  below : ∀ names, later.node? (origin ++ names) = tree.node? (origin ++ names)
  closed : ∀ place, later.isClosedAt place = tree.isClosedAt place
  /-- The output is no older than its source, nor than what stood there before. -/
  stands : ∃ sourceFile file, tree.file? (origin ++ relative.moves) = some sourceFile ∧
    later.file? (output ++ (outputOf verb relative).moves) = some file ∧
    sourceFile.modified.notAfter file.modified = true ∧
    ∀ old, tree.file? (output ++ (outputOf verb relative).moves) = some old →
      old.modified.notAfter file.modified = true
  /-- No other file has come, gone or changed, but for the wave. -/
  others : ∀ place, place ≠ output ++ (outputOf verb relative).moves →
    ¬ (verb = .mp3ToOgg ∧ decision = .rebuild ∧
      place = output ++ (Toolbox.scratchOf (outputOf verb relative)).moves) →
    later.file? place = tree.file? place
  /-- The wave is gone. -/
  gone : verb = .mp3ToOgg → decision = .rebuild →
    later.file? (output ++ (Toolbox.scratchOf (outputOf verb relative)).moves) = none

theorem location_sourceOf (ready : session.Ready origin output tree)
    (listed : Listed relative front name) :
    (session.sourceOf relative).location tree.workingDirectory = origin ++ relative.moves := by
  unfold sourceOf
  rw [Path.location_join ready.sourceReaches.usable.given listed.inner.isAbsolute, ready.sourceAt,
    Location.along_of_isEntry (listed.inner.isEntry listed.named)]

theorem node?_isSome_of_file? {place : Location} {file : File}
    (there : tree.file? place = some file) : (tree.node? place).isSome = true := by
  rw [FileTree.file?_eq_some_iff.mp there]
  rfl

/-- Once a source was reached, the file at its path is the one at its place below the root. -/
theorem fileAt?_sourceOf (ready : session.Ready origin output tree)
    (listed : Listed relative front name) {earlier : FileTree}
    (reached : earlier.Reaches (session.sourceOf relative)) :
    tree.fileAt? (session.sourceOf relative) = tree.file? (origin ++ relative.moves) := by
  rw [← ready.sourceAt]
  exact FileTree.fileAt?_join_of_reached ready.plain ready.sourceReaches listed.inner listed.named
    reached

/-- Once an output was reached, the file at its path is the one at its place below the root. -/
theorem fileAt?_targetOf (ready : session.Ready origin output tree)
    (listed : Listed relative front name) (named : verb.outputName name ≠ Path.dotDot)
    {earlier : FileTree} (reached : earlier.Reaches (session.targetOf verb relative)) :
    tree.fileAt? (session.targetOf verb relative) =
      tree.file? (output ++ (outputOf verb relative).moves) := by
  rw [← ready.outputAt]
  exact FileTree.fileAt?_join_of_reached ready.plain ready.outputReaches
    (listed.inner.output named) listed.named reached

theorem below_of_grows (apart : Apart origin output) {steps : List Name}
    (grows : Grows tree later fun place => ∃ below, below <+: steps ∧ place = output ++ below)
    (names : List Name) : later.node? (origin ++ names) = tree.node? (origin ++ names) :=
  grows.keeps.elsewhere _ fun ⟨below, _, same⟩ => apart.ne names below same

/-- An output found current stays as it is. -/
theorem completed_of_current (ready : session.Ready origin output machine.tree)
    (apart : Apart origin output) (listed : Listed relative front name)
    (decided : session.decisionOf verb relative machine = .upToDate) :
    session.Completed origin output verb relative name .upToDate machine.tree
      (session.withRoom verb relative machine).tree := by
  obtain ⟨grows, roomy⟩ := ready.withRoom listed verb
  obtain ⟨sourceFile, file, sourceFound, found, older⟩ :=
    FileTree.decision_eq_upToDate_iff.mp decided
  obtain ⟨sourceReaches, sourceStands⟩ := (FileTree.fileAt?_eq_some_iff roomy.plain).mp sourceFound
  obtain ⟨outputReaches, stands⟩ := (FileTree.fileAt?_eq_some_iff roomy.plain).mp found
  have there : (session.withRoom verb relative machine).tree.isFile
      (session.targetOf verb relative) = true := by
    unfold FileTree.isFile
    rw [found]
    rfl
  have named :=
    Toolbox.named_of_isFile roomy.plain listed.inner roomy.outputReaches.usable.given there
  have place := listed.placeOf_eq roomy named
  unfold placeOf at place
  rw [location_sourceOf roomy listed] at sourceStands
  rw [place] at stands
  exact {
    named := named
    ready := roomy
    working := grows.working
    sourceReaches := sourceReaches
    outputReaches := outputReaches
    below := below_of_grows apart grows
    closed := grows.closed
    stands := by
      refine ⟨sourceFile, file, by rw [← grows.file?_eq]; exact sourceStands, stands, older, ?_⟩
      intro old before
      rw [← grows.file?_eq, stands] at before
      exact Option.some.inj before ▸ Instant.notAfter_refl _
    others := fun place _ _ => grows.file?_eq place
    gone := fun _ rebuilt => nomatch rebuilt }

/-- What stood at an output that was due is no newer than its source. -/
theorem notAfter_of_rebuild (roomy : session.Ready origin output tree)
    (listed : Listed relative front name) (named : verb.outputName name ≠ Path.dotDot)
    (decided : tree.decision (session.sourceOf relative) (session.targetOf verb relative) =
      .rebuild)
    {earlier : FileTree} (sourceReaches : earlier.Reaches (session.sourceOf relative))
    (outputReaches : earlier.Reaches (session.targetOf verb relative)) {sourceFile old : File}
    (source : tree.file? (origin ++ relative.moves) = some sourceFile)
    (stood : tree.file? (output ++ (outputOf verb relative).moves) = some old) :
    old.modified.notAfter sourceFile.modified = true := by
  have sourceFound : tree.fileAt? (session.sourceOf relative) = some sourceFile := by
    rw [fileAt?_sourceOf roomy listed sourceReaches, source]
  have found : tree.fileAt? (session.targetOf verb relative) = some old := by
    rw [fileAt?_targetOf roomy listed named outputReaches, stood]
  rcases Instant.notAfter_total old.modified sourceFile.modified with older | newer
  · exact older
  · rw [FileTree.decision_eq_upToDate_iff.mpr ⟨_, _, sourceFound, found, newer⟩] at decided
    cases decided

/-- An output that was built is as old as its source. -/
theorem completed_of_rebuilt (confined : session.runner.Confined)
    (delivers : session.runner.Delivers) (ready : session.Ready origin output machine.tree)
    (apart : Apart origin output) (listed : Listed relative front name)
    (there : (machine.tree.file? (origin ++ relative.moves)).isSome = true)
    (decided : session.decisionOf verb relative machine = .rebuild)
    (succeeded : (session.producing verb relative machine).value = .ok ())
    (stamped : (session.producing verb relative machine).machine.tree.copyModified
      (session.sourceOf relative) (session.targetOf verb relative) = .ok later) :
    session.Completed origin output verb relative name .rebuild machine.tree later := by
  obtain ⟨grows, roomy⟩ := ready.withRoom listed verb
  have given : session.layout.sourceRoot.text ≠ [] ∧ session.layout.outputRoot.text ≠ [] :=
    ⟨roomy.sourceReaches.usable.given, roomy.outputReaches.usable.given⟩
  obtain ⟨named, keeps, sourceReaches, outputReaches, ⟨file, stands, stamped⟩, gone⟩ :=
    built_of_produced
      (produced_of_produce confined delivers roomy.plain given.2 listed.inner succeeded) stamped
  have place := listed.placeOf_eq roomy named
  have wave : verb = .mp3ToOgg → session.waveOf verb relative
      (session.withRoom verb relative machine).tree =
        output ++ (Toolbox.scratchOf (outputOf verb relative)).moves := fun converts =>
    listed.waveOf_eq roomy (by rw [converts]; decide) named
  rw [place] at stands
  rw [location_sourceOf roomy listed] at stamped
  have elsewhere : ∀ other, other ≠ output ++ (outputOf verb relative).moves →
      ¬ (verb = .mp3ToOgg ∧
        other = output ++ (Toolbox.scratchOf (outputOf verb relative)).moves) →
      later.node? other = (session.withRoom verb relative machine).tree.node? other := by
    intro other notOutput notWave
    refine keeps.elsewhere other ?_
    rintro (here | ⟨converts, here⟩)
    · exact notOutput (here.trans place)
    · exact notWave ⟨converts, here.trans (wave converts)⟩
  have below : ∀ names, later.node? (origin ++ names) =
      (session.withRoom verb relative machine).tree.node? (origin ++ names) := fun names =>
    elsewhere _ (apart.ne _ _) fun ⟨_, here⟩ => apart.ne _ _ here
  obtain ⟨sourceFile, source⟩ := Option.isSome_iff_exists.mp there
  rw [← grows.file?_eq] at source
  have time : file.modified = sourceFile.modified := by
    refine stamped sourceFile ?_
    rw [FileTree.file?_congr (below _)]
    exact source
  have ready := ready_of_reaches keeps.plain listed given sourceReaches outputReaches
  rw [keeps.working, roomy.sourceAt, roomy.outputAt] at ready
  exact {
    named := named
    ready := ready
    working := keeps.working.trans grows.working
    sourceReaches := sourceReaches
    outputReaches := outputReaches
    below := fun names => (below names).trans (below_of_grows apart grows names)
    closed := fun place => (keeps.closed place).trans (grows.closed place)
    stands := by
      refine ⟨sourceFile, file, grows.file?_eq _ ▸ source, stands, ?_, ?_⟩
      · rw [time]
        exact Instant.notAfter_refl _
      · intro old stood
        rw [← grows.file?_eq] at stood
        rw [time]
        exact notAfter_of_rebuild roomy listed named decided sourceReaches outputReaches
          source stood
    others := fun other notOutput notWave => by
      rw [FileTree.file?_congr (elsewhere other notOutput fun ⟨converts, here⟩ =>
        notWave ⟨converts, rfl, here⟩), grows.file?_eq]
    gone := fun converts _ => by
      unfold FileTree.file?
      rw [← wave converts, gone converts] }

/-- A visit that completes leaves what it should, and reports the decision it took. -/
theorem completed_of_visit (confined : session.runner.Confined)
    (delivers : session.runner.Delivers) (ready : session.Ready origin output machine.tree)
    (apart : Apart origin output) (listed : Listed relative front name)
    (there : (machine.tree.file? (origin ++ relative.moves)).isSome = true)
    {completion : Completion}
    (succeeded : (session.visit verb relative machine).value = .ok completion) :
    completion = ⟨relative, outputOf verb relative, session.decisionOf verb relative machine⟩ ∧
      session.Completed origin output verb relative name
        (session.decisionOf verb relative machine) machine.tree
        (session.visit verb relative machine).machine.tree := by
  have course := session.visit_course verb relative machine
  generalize (session.visit verb relative machine).value = value at succeeded course
  generalize (session.visit verb relative machine).machine = left at course
  subst succeeded
  cases course with
  | current room decided =>
    rw [decided]
    exact ⟨rfl, completed_of_current ready apart listed decided⟩
  | rebuilt room decided produced stamped =>
    rw [decided]
    exact ⟨rfl, completed_of_rebuilt confined delivers ready apart listed there decided produced
      stamped⟩

end Session

end AssetPipeline
