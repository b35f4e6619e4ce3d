/-
This file follows a build that only copies, through any sequence of edits and runs. An edit writes a
file below the source root and gives it a later time than it had before. Between the runs the
outputs lag behind just by the edits: whatever is listed is in step, unless it was edited since the
last run, or there was no run yet. A run then copies exactly the listed files that were edited, each
of them once, and leaves every listed file in step. A directory that is not there yet makes its
commands fail, but the files that come with it later are edits, and so are copied then.
-/

import AssetPipeline.Proofs.Build.Copying

namespace AssetPipeline

open FileTree (Plain)
open Session (Apart)

/-! ### What histories are about -/

namespace FileTree

/-- Does this hold of everything that stands at the location or below? -/
def AllBelow (tree : FileTree) (location : Location) (Holds : List Name → Node → Prop) : Prop :=
  ∀ names node, tree.node? (location ++ names) = some node → Holds names node

theorem allBelow_iff {tree : FileTree} {location : Location} {Holds : List Name → Node → Prop} :
    tree.AllBelow location Holds ↔ (location = [] → Holds [] .directory) ∧
      ∀ entry ∈ tree.nodes, location <+: entry.1 → ∀ node ∈ tree.node? entry.1,
        Holds (entry.1.drop location.length) node := by
  constructor
  · refine fun all => ⟨?_, ?_⟩
    · rintro rfl
      exact all [] .directory rfl
    · rintro ⟨_, listed⟩ - ⟨names, rfl⟩ node stands
      rw [List.drop_left]
      exact all names node stands
  · rintro ⟨root, listed⟩ names node stands
    by_cases top : location ++ names = []
    · obtain ⟨rfl, rfl⟩ := List.append_eq_nil_iff.mp top
      cases stands
      exact root rfl
    · have below := listed _ (mem_nodes_of_node? top stands) (List.prefix_append _ _) node stands
      rwa [List.drop_left] at below

instance (tree : FileTree) (location : Location) (Holds : List Name → Node → Prop)
    [∀ names, DecidablePred (Holds names)] : Decidable (tree.AllBelow location Holds) :=
  decidable_of_iff' _ allBelow_iff

end FileTree

/-- Is it no file, or one that its owner may read and write to? -/
def Node.Opened : Node → Prop
  | .file stored => stored.Opened
  | .directory => True
  | .link _ => True

instance : DecidablePred Node.Opened := fun node =>
  match node with
  | .file stored => inferInstanceAs (Decidable stored.Opened)
  | .directory => inferInstanceAs (Decidable True)
  | .link _ => inferInstanceAs (Decidable True)

/-- No path that the commands come by in their searches is over the limits of the system. -/
def Script.SearchesFit (script : Script) (tree : FileTree) (root : Path) : Prop :=
  ∀ command ∈ script, ∀ checked, command.check = .ok checked →
    let base := (Selection.ofWildcard checked.wildcard).base root
    tree.AllBelow (base.location tree.workingDirectory) fun names _ =>
      (names.foldl Path.child base).Fits

instance (script : Script) (tree : FileTree) (root : Path) :
    Decidable (script.SearchesFit tree root) :=
  decidable_of_iff _ Script.forall_checked_iff

/-- No path is over the limits: none that is searched, and none of a listed file or its output. -/
structure WithinLimits (layout : Layout) (script : Script) (tree : FileTree) : Prop where
  searched : script.SearchesFit tree layout.sourceRoot
  listed : ∀ relative ∈ script.listing tree layout.sourceRoot,
    (layout.sourceRoot.join relative).Fits ∧ (layout.outputRoot.join relative).Fits

theorem withinLimits_iff {layout : Layout} {script : Script} {tree : FileTree} :
    WithinLimits layout script tree ↔ script.SearchesFit tree layout.sourceRoot ∧
      ∀ relative ∈ script.listing tree layout.sourceRoot,
        (layout.sourceRoot.join relative).Fits ∧ (layout.outputRoot.join relative).Fits :=
  ⟨fun ⟨searched, listed⟩ => ⟨searched, listed⟩, fun ⟨searched, listed⟩ => ⟨searched, listed⟩⟩

instance (layout : Layout) (script : Script) (tree : FileTree) :
    Decidable (WithinLimits layout script tree) :=
  decidable_of_iff' _ withinLimits_iff

/-- Where a history may start. The source root may be missing. -/
structure Fresh (layout : Layout) (script : Script) (tree : FileTree) : Prop where
  plain : Plain tree
  sources : tree.isDirectory layout.sourceRoot = true ∨
    tree.node? (layout.sourceRoot.location tree.workingDirectory) = none
  outputs : tree.isDirectory layout.outputRoot = true
  apart : Apart (layout.sourceRoot.location tree.workingDirectory)
    (layout.outputRoot.location tree.workingDirectory)
  empty : tree.AllBelow (layout.outputRoot.location tree.workingDirectory) fun names _ => names = []
  opened : tree.AllBelow (layout.sourceRoot.location tree.workingDirectory) fun _ node =>
    node.Opened
  limits : WithinLimits layout script tree

theorem fresh_iff {layout : Layout} {script : Script} {tree : FileTree} :
    Fresh layout script tree ↔ Plain tree ∧
      (tree.isDirectory layout.sourceRoot = true ∨
        tree.node? (layout.sourceRoot.location tree.workingDirectory) = none) ∧
      tree.isDirectory layout.outputRoot = true ∧
      Apart (layout.sourceRoot.location tree.workingDirectory)
        (layout.outputRoot.location tree.workingDirectory) ∧
      (tree.AllBelow (layout.outputRoot.location tree.workingDirectory) fun names _ =>
        names = []) ∧
      (tree.AllBelow (layout.sourceRoot.location tree.workingDirectory) fun _ node =>
        node.Opened) ∧ WithinLimits layout script tree :=
  ⟨fun ⟨plain, sources, outputs, apart, empty, opened, limits⟩ =>
    ⟨plain, sources, outputs, apart, empty, opened, limits⟩,
    fun ⟨plain, sources, outputs, apart, empty, opened, limits⟩ =>
      ⟨plain, sources, outputs, apart, empty, opened, limits⟩⟩

instance (layout : Layout) (script : Script) (tree : FileTree) :
    Decidable (Fresh layout script tree) :=
  decidable_of_iff' _ fresh_iff

/-- The file at these names below the source root is written, with a later time than it had. No file
gives way to a directory, nor a directory to a file. Directories may be made for it, wherever that
does not touch the outputs. No directory is opened that could not be listed before. -/
structure Edits (layout : Layout) (script : Script) (names : List Name) (tree later : FileTree) :
    Prop where
  plain : Plain later
  working : later.workingDirectory = tree.workingDirectory
  sources : later.isDirectory layout.sourceRoot = true
  written : ∃ file,
    later.file? (layout.sourceRoot.location tree.workingDirectory ++ names) = some file ∧
      file.Opened ∧
      (tree.node? (layout.sourceRoot.location tree.workingDirectory ++ names) = none ∨ ∃ old,
        tree.file? (layout.sourceRoot.location tree.workingDirectory ++ names) = some old ∧
          file.modified.notAfter old.modified = false)
  others : ∀ place, place ≠ layout.sourceRoot.location tree.workingDirectory ++ names →
    later.node? place = tree.node? place ∨
      tree.node? place = none ∧ later.node? place = some .directory ∧
        ¬ layout.outputRoot.location tree.workingDirectory <+: place
  closed : ∀ place, tree.isClosedAt place = true → later.isClosedAt place = true
  limits : WithinLimits layout script later

/-- What has come about from a start by edits and runs, and the files edited since the last run, if
there was one. A run may have any tools, and takes place at any time. -/
inductive History (layout : Layout) (script : Script) (start : FileTree) :
    Option (List (List Name)) → FileTree → Prop where
  | start : History layout script start none start
  | edit {edited : Option (List (List Name))} {tree later : FileTree} {names : List Name}
      (before : History layout script start edited tree)
      (edits : Edits layout script names tree later) :
      History layout script start (edited.map (names :: ·)) later
  | run {edited : Option (List (List Name))} {tree : FileTree}
      (before : History layout script start edited tree) {State : Type} (toolbox : Toolbox)
      (runner : Runner State) (state : State) (now : Instant) :
      History layout script start (some [])
        ((Session.mk layout toolbox runner).run script
          ⟨{ tree with clock := now }, state⟩).machine.tree

/-- Was the file edited since the last run? Before the first run every file counts as edited. -/
def Due (edited : Option (List (List Name))) (names : List Name) : Prop :=
  ∀ since ∈ edited, names ∈ since

instance (edited : Option (List (List Name))) (names : List Name) : Decidable (Due edited names) :=
  inferInstanceAs (Decidable (∀ since ∈ edited, _))

/-- What a run does for the files that are listed. -/
structure CatchesUp (layout : Layout) (script : Script) (edited : Option (List (List Name)))
    (found later : FileTree) (report : RunRecord) : Prop where
  /-- The same files are listed after the run. -/
  lists : script.listing later layout.sourceRoot = script.listing found layout.sourceRoot
  /-- Every listed file has an output with the same path, content and time. -/
  current : ∀ relative ∈ script.listing found layout.sourceRoot, ∃ source copied,
    later.fileAt? (layout.sourceRoot.join relative) = some source ∧
      later.fileAt? (layout.outputRoot.join relative) = some copied ∧
      copied.content = source.content ∧ copied.modified = source.modified
  /-- A file is built once if it is listed and due, and else not at all. -/
  rebuilt : ∀ names, report.timesRebuilt names =
    if names ∈ (script.listing found layout.sourceRoot).map Path.moves ∧ Due edited names then 1
    else 0

/-! ### What stays true between the runs -/

/-- The outputs lag behind by the files that are due, and by no others. -/
structure Tracks (layout : Layout) (script : Script) (origin output : Location)
    (edited : Option (List (List Name))) (tree : FileTree) : Prop where
  plain : Plain tree
  sourceAt : layout.sourceRoot.location tree.workingDirectory = origin
  sources : tree.isDirectory layout.sourceRoot = true ∨ tree.node? origin = none
  outputAt : layout.outputRoot.location tree.workingDirectory = output
  outputs : tree.isDirectory layout.outputRoot = true
  opened : ∀ names file, tree.file? (origin ++ names) = some file → file.Opened
  mirrors : Mirrors origin output tree
  limits : WithinLimits layout script tree
  current : ∀ relative ∈ script.listing tree layout.sourceRoot, ¬ Due edited relative.moves →
    InStep origin output tree relative.moves
  due : ∀ names, Due edited names → ¬ InStep origin output tree names

section Tracks

variable {layout : Layout} {script : Script} {origin output : Location}
  {edited : Option (List (List Name))} {tree later : FileTree} {names : List Name}
  {relative : Path}

theorem Fresh.tracks (fresh : Fresh layout script tree) :
    Tracks layout script (layout.sourceRoot.location tree.workingDirectory)
      (layout.outputRoot.location tree.workingDirectory) none tree := by
  have noFile : ∀ names,
      tree.file? (layout.outputRoot.location tree.workingDirectory ++ names) = none := by
    intro names
    refine Option.eq_none_iff_forall_ne_some.mpr fun file there => ?_
    have stands := FileTree.file?_eq_some_iff.mp there
    have root := fresh.empty names _ stands
    have directory := ((FileTree.isDirectory_iff fresh.plain).mp fresh.outputs).2
    rw [root, List.append_nil, FileTree.isDirectoryAt_iff.mp directory] at stands
    cases stands
  exact {
    plain := fresh.plain
    sourceAt := rfl
    sources := fresh.sources
    outputAt := rfl
    outputs := fresh.outputs
    opened := fun names file there =>
      fresh.opened names (.file file) (FileTree.file?_eq_some_iff.mp there)
    mirrors := {
      directory := fun names some directory =>
        absurd (fresh.empty names _ (FileTree.isDirectoryAt_iff.mp directory)) some
      file := fun names copied there => by
        rw [noFile] at there
        cases there }
    limits := fresh.limits
    current := fun _ _ due => absurd nofun due
    due := fun names _ ⟨_, copied, _, stands, _⟩ => by
      rw [noFile] at stands
      cases stands }

/-! ### Edits -/

namespace Edits

variable (edits : Edits layout script names tree later)

include edits

/-- A directory stays one. -/
theorem isDirectoryAt {place : Location} (directory : tree.isDirectoryAt place = true) :
    later.isDirectoryAt place = true := by
  rw [FileTree.isDirectoryAt_iff] at directory ⊢
  obtain ⟨file, -, -, before⟩ := edits.written
  by_cases here : place = layout.sourceRoot.location tree.workingDirectory ++ names
  · subst here
    rcases before with vacant | ⟨old, there, -⟩
    · rw [vacant] at directory
      cases directory
    · rw [FileTree.file?_eq_some_iff.mp there] at directory
      cases directory
  · rcases edits.others place here with same | ⟨vacant, -⟩
    · exact same.trans directory
    · rw [vacant] at directory
      cases directory

/-- No other file comes, goes or changes. -/
theorem file?_eq {place : Location}
    (differs : place ≠ layout.sourceRoot.location tree.workingDirectory ++ names) :
    later.file? place = tree.file? place := by
  rcases edits.others place differs with same | ⟨vacant, directory, -⟩
  · exact FileTree.file?_congr same
  · unfold FileTree.file?
    rw [vacant, directory]

/-- No file gives way to a directory. -/
theorem isDirectoryAt_of_file {place : Location} (there : (tree.file? place).isSome = true) :
    later.isDirectoryAt place = false := by
  have stays : (later.file? place).isSome = true := by
    by_cases here : place = layout.sourceRoot.location tree.workingDirectory ++ names
    · obtain ⟨file, stands, -⟩ := edits.written
      rw [here, stands]
      rfl
    · rwa [edits.file?_eq here]
  obtain ⟨file, stands⟩ := Option.isSome_iff_exists.mp stays
  exact (FileTree.Room.of_file edits.plain stands).leaf

/-- The outputs are not touched. -/
theorem node?_output (apart : Apart (layout.sourceRoot.location tree.workingDirectory)
      (layout.outputRoot.location tree.workingDirectory)) (moves : List Name) :
    later.node? (layout.outputRoot.location tree.workingDirectory ++ moves) =
      tree.node? (layout.outputRoot.location tree.workingDirectory ++ moves) := by
  rcases edits.others _ (Ne.symm (apart.ne names moves)) with same | ⟨-, -, outside⟩
  · exact same
  · exact absurd (List.prefix_append _ _) outside

theorem inStep_iff (apart : Apart (layout.sourceRoot.location tree.workingDirectory)
      (layout.outputRoot.location tree.workingDirectory)) {moves : List Name}
    (differs : moves ≠ names) :
    InStep (layout.sourceRoot.location tree.workingDirectory)
        (layout.outputRoot.location tree.workingDirectory) later moves ↔
      InStep (layout.sourceRoot.location tree.workingDirectory)
        (layout.outputRoot.location tree.workingDirectory) tree moves :=
  inStep_congr (edits.file?_eq (by simpa using differs))
    (FileTree.file?_congr (edits.node?_output apart moves))

/-- What was copied before the edit is older than the file now. -/
theorem older (mirrors : Mirrors (layout.sourceRoot.location tree.workingDirectory)
      (layout.outputRoot.location tree.workingDirectory) tree) {copied file : File}
    (stood : tree.file? (layout.outputRoot.location tree.workingDirectory ++ names) = some copied)
    (there : later.file? (layout.sourceRoot.location tree.workingDirectory ++ names) = some file) :
    copied.modified.notAfter file.modified = true ∧ copied.modified ≠ file.modified := by
  obtain ⟨written, stands, -, before⟩ := edits.written
  obtain rfl := Option.some.inj (stands.symm.trans there)
  obtain ⟨-, source, found, noNewer, -⟩ := mirrors.file names copied stood
  rcases before with vacant | ⟨old, was, newer⟩
  · rw [FileTree.file?_eq_some_iff, vacant] at found
    cases found
  obtain rfl := Option.some.inj (was.symm.trans found)
  have earlier : old.modified.notAfter written.modified = true :=
    (Instant.notAfter_total _ _).resolve_right (by simp [newer])
  refine ⟨Instant.notAfter_trans noNewer earlier, fun same => ?_⟩
  rw [same, newer] at noNewer
  cases noNewer

theorem mirrors_later (apart : Apart (layout.sourceRoot.location tree.workingDirectory)
      (layout.outputRoot.location tree.workingDirectory))
    (mirrors : Mirrors (layout.sourceRoot.location tree.workingDirectory)
      (layout.outputRoot.location tree.workingDirectory) tree) :
    Mirrors (layout.sourceRoot.location tree.workingDirectory)
      (layout.outputRoot.location tree.workingDirectory) later where
  directory moves some inner := by
    rw [FileTree.isDirectoryAt_iff, edits.node?_output apart, ← FileTree.isDirectoryAt_iff] at inner
    exact edits.isDirectoryAt (mirrors.directory moves some inner)
  file moves copied stands := by
    rw [FileTree.file?_congr (edits.node?_output apart moves)] at stands
    obtain ⟨writes, source, found, noNewer, content⟩ := mirrors.file moves copied stands
    by_cases here : moves = names
    · subst here
      obtain ⟨file, there, -⟩ := edits.written
      obtain ⟨noNewer, differs⟩ := edits.older mirrors stands there
      exact ⟨writes, file, there, noNewer, fun same => absurd same differs⟩
    · rw [← edits.file?_eq (by simpa using here)] at found
      exact ⟨writes, source, found, noNewer, content⟩

/-- A file other than that which was edited is listed only if it was before. -/
theorem mem_listing (descends : script.Descends)
    (tracks : Tracks layout script (layout.sourceRoot.location tree.workingDirectory) output edited
      tree) (differs : relative.moves ≠ names)
    (listed : relative ∈ script.listing later layout.sourceRoot) :
    relative ∈ script.listing tree layout.sourceRoot := by
  obtain ⟨command, inScript, checked, files, accepted, found, inFiles⟩ :=
    Script.mem_listing_iff.mp listed
  have named := descends command inScript checked accepted
  have directoryLater := ((FileTree.isDirectory_iff edits.plain).mp edits.sources).2
  obtain ⟨front, name, inner, -, there⟩ :=
    Selection.inner_of_mem_members edits.plain directoryLater named found inFiles
  rw [edits.working, edits.file?_eq (by simpa using differs)] at there
  obtain ⟨reaches, directory⟩ : tree.Reaches layout.sourceRoot ∧
      tree.isDirectoryAt (layout.sourceRoot.location tree.workingDirectory) = true := by
    rcases tracks.sources with directory | absent
    · exact (FileTree.isDirectory_iff tracks.plain).mp directory
    · have above := tracks.plain.isDirectoryAt_of_below (by simp [inner.moves])
        (FileTree.node?_isSome_of_file?_isSome there)
      rw [FileTree.isDirectoryAt_iff, absent] at above
      cases above
  obtain ⟨before, foundBefore, inBefore⟩ := Selection.mem_members_earlier tracks.plain edits.plain
    edits.working reaches directory named
    (fun below stands => by
      obtain ⟨node, stands⟩ := Option.isSome_iff_exists.mp stands
      exact tracks.limits.searched command inScript checked accepted below node stands)
    (fun _ => edits.isDirectoryAt_of_file) edits.closed found inFiles there
  exact Script.mem_listing_iff.mpr
    ⟨command, inScript, checked, before, accepted, foundBefore, inBefore⟩

end Edits

theorem due_map_iff {moves : List Name} :
    Due (edited.map (names :: ·)) moves ↔ moves = names ∨ Due edited moves := by
  unfold Due
  cases edited with
  | none => simp
  | some since => simp

/-- After an edit the outputs lag behind by one file more. -/
theorem Tracks.edit (tracks : Tracks layout script origin output edited tree)
    (apart : Apart origin output) (descends : script.Descends)
    (edits : Edits layout script names tree later) :
    Tracks layout script origin output (edited.map (names :: ·)) later := by
  obtain rfl := tracks.sourceAt
  obtain rfl := tracks.outputAt
  exact {
    plain := edits.plain
    sourceAt := by rw [edits.working]
    sources := Or.inl edits.sources
    outputAt := by rw [edits.working]
    outputs := FileTree.isDirectory_mono tracks.plain edits.plain edits.working
      (fun _ => edits.isDirectoryAt) tracks.outputs
    opened := fun moves file there => by
      by_cases here : moves = names
      · subst here
        obtain ⟨written, stands, opened, -⟩ := edits.written
        exact Option.some.inj (stands.symm.trans there) ▸ opened
      · rw [edits.file?_eq (by simpa using here)] at there
        exact tracks.opened moves file there
    mirrors := edits.mirrors_later apart tracks.mirrors
    limits := edits.limits
    current := fun relative listed quiet => by
      obtain ⟨differs, notDue⟩ := not_or.mp (mt due_map_iff.mpr quiet)
      exact (edits.inStep_iff apart differs).mpr
        (tracks.current relative (edits.mem_listing descends tracks differs listed) notDue)
    due := fun moves due => by
      by_cases here : moves = names
      · subst here
        rintro ⟨file, copied, there, stands, -, same⟩
        rw [FileTree.file?_congr (edits.node?_output apart moves)] at stands
        exact (edits.older tracks.mirrors stands there).2 same
      · rw [edits.inStep_iff apart here]
        exact tracks.due moves ((due_map_iff.mp due).resolve_left here) }

/-! ### Runs -/

variable {State : Type} {session : Session State} {machine : Machine State}

/-- Nothing is listed while the source root is missing. -/
theorem listing_of_absent (plain : Plain tree)
    (absent : tree.node? (layout.sourceRoot.location tree.workingDirectory) = none) :
    script.listing tree layout.sourceRoot = [] := by
  refine List.eq_nil_iff_forall_not_mem.mpr fun relative listed => ?_
  obtain ⟨command, -, checked, files, -, found, -⟩ := Script.mem_listing_iff.mp listed
  exact Selection.members_ne_ok_of_absent plain absent found

theorem Tracks.ready (tracks : Tracks session.layout script origin output edited tree)
    (directory : tree.isDirectory session.layout.sourceRoot = true) :
    session.Ready origin output tree := by
  obtain ⟨sourceReaches, sourceDirectory⟩ := (FileTree.isDirectory_iff tracks.plain).mp directory
  obtain ⟨outputReaches, outputDirectory⟩ :=
    (FileTree.isDirectory_iff tracks.plain).mp tracks.outputs
  exact ⟨tracks.plain, sourceReaches, tracks.sourceAt, tracks.sourceAt ▸ sourceDirectory,
    outputReaches, tracks.outputAt, tracks.outputAt ▸ outputDirectory⟩

/-- Nothing changes as time goes by. -/
theorem Tracks.of_clock (session : Session State) (descends : script.Descends)
    (tracks : Tracks session.layout script origin output edited tree) (now : Instant) :
    Tracks session.layout script origin output edited { tree with clock := now } := by
  have plain := tracks.plain.of_clock now
  have directories : ∀ path, tree.isDirectory path = true →
      FileTree.isDirectory { tree with clock := now } path = true := fun path =>
    FileTree.isDirectory_mono tracks.plain plain rfl fun _ directory => directory
  have listing : script.listing { tree with clock := now } session.layout.sourceRoot =
      script.listing tree session.layout.sourceRoot := by
    rcases tracks.sources with directory | absent
    · have upheld := (tracks.ready directory).upheld
      exact Session.listing_eq descends upheld (upheld.of_clock now)
    · rw [← tracks.sourceAt] at absent
      rw [listing_of_absent tracks.plain absent, listing_of_absent plain absent]
  exact {
    plain := plain
    sourceAt := tracks.sourceAt
    sources := tracks.sources.imp_left (directories _)
    outputAt := tracks.outputAt
    outputs := directories _ tracks.outputs
    opened := tracks.opened
    mirrors := ⟨tracks.mirrors.directory, tracks.mirrors.file⟩
    limits := ⟨tracks.limits.searched, listing ▸ tracks.limits.listed⟩
    current := listing ▸ tracks.current
    due := tracks.due }

/-- The files that a run finds listed can be copied. -/
theorem Tracks.prepared (tracks : Tracks session.layout script origin output edited machine.tree)
    (apart : Apart origin output) (copies : script.Copies) (descends : script.Descends)
    (directory : machine.tree.isDirectory session.layout.sourceRoot = true) :
    session.Prepared origin output script machine where
  apart := apart
  copies := copies
  descends := descends
  ready := tracks.ready directory
  mirrors := tracks.mirrors
  copyable relative listed := by
    obtain ⟨command, inScript, checked, files, accepted, found, inFiles⟩ :=
      Script.mem_listing_iff.mp listed
    obtain ⟨front, name, inner, named, there⟩ := Selection.inner_of_mem_members tracks.plain
      ((FileTree.isDirectory_iff tracks.plain).mp directory).2
      (descends command inScript checked accepted) found inFiles
    rw [tracks.sourceAt] at there
    obtain ⟨file, stands⟩ := Option.isSome_iff_exists.mp there
    obtain ⟨sourceFits, outputFits⟩ := tracks.limits.listed relative listed
    exact ⟨⟨front, name, inner, named⟩, ⟨file, stands, tracks.opened _ file stands⟩, sourceFits,
      outputFits⟩

/-- A run leaves the outputs lagging behind by nothing. -/
theorem Tracks.of_prepared
    (tracks : Tracks session.layout script origin output edited machine.tree)
    (prepared : session.Prepared origin output script machine) :
    Tracks session.layout script origin output (some [])
      (session.run script machine).machine.tree := by
  obtain ⟨upheld, mirrors⟩ := prepared.served.1
  have listing := Session.listing_eq prepared.descends prepared.ready.upheld upheld
  have ready := upheld.ready
  exact {
    plain := ready.plain
    sourceAt := ready.sourceAt
    sources := Or.inl ((FileTree.isDirectory_iff ready.plain).mpr
      ⟨ready.sourceReaches, ready.sourceAt ▸ ready.sourceDirectory⟩)
    outputAt := ready.outputAt
    outputs := (FileTree.isDirectory_iff ready.plain).mpr
      ⟨ready.outputReaches, ready.outputAt ▸ ready.outputDirectory⟩
    opened := fun moves file there => tracks.opened moves file (upheld.file?_eq moves ▸ there)
    mirrors := mirrors
    limits := {
      searched := fun command inScript checked accepted names node stands => by
        have named := prepared.descends command inScript checked accepted
        refine tracks.limits.searched command inScript checked accepted names node ?_
        rw [upheld.working, Selection.location_base_of_named ready.sourceReaches.usable.given named,
          tracks.sourceAt, List.append_assoc, upheld.below] at stands
        rw [Selection.location_base_of_named ready.sourceReaches.usable.given named,
          tracks.sourceAt, List.append_assoc]
        exact stands
      listed := listing ▸ tracks.limits.listed }
    current := fun relative listed _ =>
      prepared.inStep_of_mem_listing (List.mem_map_of_mem (listing ▸ listed))
    due := fun moves due => nomatch due [] rfl }

/-- A run copies the files that are due, and leaves every listed file in step. -/
theorem Tracks.catchesUp_of_prepared
    (tracks : Tracks session.layout script origin output edited machine.tree)
    (prepared : session.Prepared origin output script machine) :
    CatchesUp session.layout script edited machine.tree (session.run script machine).machine.tree
      (session.run script machine).value := by
  obtain ⟨upheld, -⟩ := prepared.served.1
  have ready := upheld.ready
  refine ⟨Session.listing_eq prepared.descends prepared.ready.upheld upheld,
    fun relative listed => ?_, fun names => ?_⟩
  · obtain ⟨⟨front, name, entry⟩, -, sourceFits, outputFits⟩ := prepared.copyable relative listed
    obtain ⟨source, copied, there, stands, same⟩ :=
      prepared.inStep_of_mem_listing (List.mem_map_of_mem listed)
    refine ⟨source, copied, ?_, ?_, same⟩
    · rw [Session.fileAt?_of_fits ready.plain ready.sourceReaches entry sourceFits, ready.sourceAt]
      exact there
    · rw [Session.fileAt?_of_fits ready.plain ready.outputReaches entry outputFits, ready.outputAt]
      exact stands
  · rw [prepared.timesRebuilt_eq]
    refine if_congr (and_congr_right fun listed => ?_) rfl rfl
    obtain ⟨relative, inListing, rfl⟩ := List.mem_map.mp listed
    exact ⟨fun behind => Decidable.of_not_not fun quiet =>
      behind (tracks.current relative inListing quiet), tracks.due _⟩

/-- A run does nothing while the source root is missing. -/
theorem run_of_absent (plain : Plain machine.tree)
    (absent : machine.tree.node? (session.layout.sourceRoot.location
      machine.tree.workingDirectory) = none) :
    (session.run script machine).machine.tree = machine.tree ∧
      session.visits script machine = [] := by
  obtain ⟨ends, each⟩ := @Session.invariant_of_visits State session machine
    (fun current => current.tree = machine.tree) (fun _ _ => False) script rfl
    (fun command _ current same visit taken => by
      obtain ⟨checked, files, -, found, -⟩ := Session.mem_commandVisits taken
      rw [same] at found
      exact Selection.members_ne_ok_of_absent plain absent found)
    (fun _ _ impossible => impossible.elim)
  exact ⟨ends, List.eq_nil_iff_forall_not_mem.mpr fun visit taken => (each visit taken).1⟩

theorem Tracks.run (session : Session State) (machine : Machine State)
    (tracks : Tracks session.layout script origin output edited machine.tree)
    (apart : Apart origin output) (copies : script.Copies) (descends : script.Descends) :
    Tracks session.layout script origin output (some [])
        (session.run script machine).machine.tree ∧
      CatchesUp session.layout script edited machine.tree
        (session.run script machine).machine.tree (session.run script machine).value := by
  rcases tracks.sources with directory | absent
  · have prepared := tracks.prepared apart copies descends directory
    exact ⟨tracks.of_prepared prepared, tracks.catchesUp_of_prepared prepared⟩
  rw [← tracks.sourceAt] at absent
  have listing : script.listing machine.tree session.layout.sourceRoot = [] :=
    listing_of_absent tracks.plain absent
  obtain ⟨same, noVisits⟩ := @run_of_absent script State session machine tracks.plain absent
  rw [same]
  refine ⟨{ tracks with
    current := by simp [listing]
    due := fun moves due => nomatch due [] rfl }, rfl, by simp [listing], fun names => ?_⟩
  rw [if_neg (by simp [listing])]
  unfold RunRecord.timesRebuilt
  rw [Session.files_run, noVisits]
  rfl

theorem History.tracks {start : FileTree} (fresh : Fresh layout script start)
    (copies : script.Copies) (descends : script.Descends)
    (history : History layout script start edited tree) :
    Tracks layout script (layout.sourceRoot.location start.workingDirectory)
      (layout.outputRoot.location start.workingDirectory) edited tree := by
  induction history with
  | start => exact fresh.tracks
  | edit _ edits inductionHypothesis => exact inductionHypothesis.edit fresh.apart descends edits
  | run _ toolbox runner state now inductionHypothesis =>
    have tracks := inductionHypothesis.of_clock ⟨layout, toolbox, runner⟩ descends now
    exact (Tracks.run ⟨layout, toolbox, runner⟩ ⟨_, state⟩ tracks fresh.apart copies descends).1

end Tracks

/-! ### A folder that comes later -/

/-- A tone below `src`, and nothing below `out`. -/
def oneTone : FileTree where
  nodes := [
    ([['s', 'r', 'c'], ['a', '.', 'w', 'a', 'v']], .file ⟨[119], ⟨1000, 0⟩, .ordinary⟩),
    ([['s', 'r', 'c']], .directory),
    ([['o', 'u', 't']], .directory)]
  workingDirectory := []
  clock := ⟨2000, 0⟩

/-- Two commands list the tone, and one a folder that is not there yet. -/
def copyTones : Script := [
  ⟨1, ['c', 'o', 'p', 'y'], [['a', '.', '*'], ['x']]⟩,
  ⟨2, ['c', 'o', 'p', 'y'], [['a', '*'], ['x']]⟩,
  ⟨3, ['c', 'o', 'p', 'y'], [['n', '/', '*'], ['y']]⟩]

/-- A session whose tools are never used. -/
def toneless : Session Unit := .start .twoRoots (.writing [] 1) oneTone

/-- The first run copies the tone. -/
def copiedTone : FileTree := (toneless.run copyTones ⟨oneTone, ()⟩).machine.tree

/-- Then the tone is changed, -/
def changedTone : FileTree :=
  copiedTone.put [['s', 'r', 'c'], ['a', '.', 'w', 'a', 'v']]
    (.file ⟨[120], ⟨3000, 0⟩, .ordinary⟩)

/-- and the folder comes with a file. -/
def newFolder : FileTree :=
  (changedTone.put [['s', 'r', 'c'], ['n']] .directory).put
    [['s', 'r', 'c'], ['n'], ['b']] (.file ⟨[98], ⟨500, 0⟩, .ordinary⟩)

theorem history_newFolder : History .twoRoots copyTones oneTone
    (some [[['n'], ['b']], [['a', '.', 'w', 'a', 'v']]]) newFolder := by
  have source : ∀ names : List Name,
      Layout.twoRoots.sourceRoot.location copiedTone.workingDirectory ++ names =
        ['s', 'r', 'c'] :: names := by
    intro names
    rw [show Layout.twoRoots.sourceRoot.location copiedTone.workingDirectory = [['s', 'r', 'c']] by
      decide +kernel]
    rfl
  have first : History .twoRoots copyTones oneTone (some []) copiedTone :=
    .run .start toneless.toolbox toneless.runner () ⟨2000, 0⟩
  have changed : Edits .twoRoots copyTones [['a', '.', 'w', 'a', 'v']] copiedTone changedTone := {
    plain := by decide +kernel
    working := rfl
    sources := by decide +kernel
    written := ⟨⟨[120], ⟨3000, 0⟩, .ordinary⟩, by decide +kernel⟩
    others := fun place differs => Or.inl (FileTree.node?_put_of_ne _ (source _ ▸ differs) _)
    closed := fun place shut =>
      (FileTree.isClosedAt_put copiedTone (by decide) (by decide +kernel) place).trans shut
    limits := by decide +kernel }
  have added : Edits .twoRoots copyTones [['n'], ['b']] changedTone newFolder := {
    plain := by decide +kernel
    working := rfl
    sources := by decide +kernel
    written := ⟨⟨[98], ⟨500, 0⟩, .ordinary⟩, by decide +kernel⟩
    others := fun place differs => by
      have same : newFolder.node? place =
          (changedTone.put [['s', 'r', 'c'], ['n']] .directory).node? place :=
        FileTree.node?_put_of_ne _ (source _ ▸ differs) _
      by_cases folder : place = [['s', 'r', 'c'], ['n']]
      · subst folder
        exact Or.inr (by decide +kernel)
      · exact Or.inl (same.trans (FileTree.node?_put_of_ne _ folder _))
    closed := fun place shut => by
      unfold newFolder
      rw [FileTree.isClosedAt_put _ (by decide) (by decide +kernel),
        FileTree.isClosedAt_put _ (by decide) fun _ => rfl]
      exact shut
    limits := by decide +kernel }
  exact (first.edit changed).edit added

/-! ### All histories -/

/-- After any sequence of edits and runs, one more run copies exactly the listed files that were
edited since the last run, or all that are listed if it is the first, and each of them once. Then
every listed file has an output with the same path, content and time. -/
theorem History.run_catchesUp {layout : Layout} {script : Script} {start tree : FileTree}
    {edited : Option (List (List Name))} (fresh : Fresh layout script start)
    (copies : script.Copies) (descends : script.Descends)
    (history : History layout script start edited tree) {State : Type} (toolbox : Toolbox)
    (runner : Runner State) (state : State) (now : Instant) :
    let found : FileTree := { tree with clock := now }
    let effect := (Session.mk layout toolbox runner).run script ⟨found, state⟩
    CatchesUp layout script edited found effect.machine.tree effect.value := by
  have tracks := (history.tracks fresh copies descends).of_clock ⟨layout, toolbox, runner⟩
    descends now
  exact (Tracks.run ⟨layout, toolbox, runner⟩ ⟨_, state⟩ tracks fresh.apart copies descends).2

/-- The run after both edits copies both files once, although two commands list the tone. -/
theorem run_catchesUp_newFolder :
    let found : FileTree := { newFolder with clock := ⟨4000, 0⟩ }
    let effect := toneless.run copyTones ⟨found, ()⟩
    CatchesUp .twoRoots copyTones (some [[['n'], ['b']], [['a', '.', 'w', 'a', 'v']]]) found
        effect.machine.tree effect.value ∧
      effect.value.timesRebuilt [['n'], ['b']] = 1 ∧
      effect.value.timesRebuilt [['a', '.', 'w', 'a', 'v']] = 1 := by
  have caught := History.run_catchesUp (by decide +kernel) (by decide +kernel) (by decide +kernel)
    history_newFolder toneless.toolbox toneless.runner () ⟨4000, 0⟩
  refine ⟨caught, (caught.rebuilt _).trans ?_, (caught.rebuilt _).trans ?_⟩
  · decide +kernel
  · decide +kernel

end AssetPipeline
