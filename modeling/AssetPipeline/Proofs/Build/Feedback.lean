/-
This file compares a run with the runs of the same script that come after it. Wherever the roots
lie, an output may fall where a command looks for sources, and then the next run takes it up. When
the commands take up no output of the first run, and can still list their files, nothing else can
make a difference: a later run makes no directory, for all it needs are there, and no regular file,
for something stands wherever an output goes. So it finds the same files again, and so does every
run after it. Left aside are places from which one visit takes a file for its wave that another
wants to stand there.
-/

import AssetPipeline.Proofs.Build.Footprint
import AssetPipeline.Proofs.Build.Reporting
import AssetPipeline.Proofs.Selection.Persistence

namespace AssetPipeline

open FileTree (Plain)

variable {State Other : Type}

/-! ### Trees that look the same to a wildcard -/

/-- A tree with the same directories, of which the same may be listed, and with regular files at the
same places but for some. -/
structure FileTree.Resembles (tree later : FileTree) (exempt : Location → Prop) : Prop where
  plain : Plain later
  working : later.workingDirectory = tree.workingDirectory
  directory : ∀ place, later.isDirectoryAt place = tree.isDirectoryAt place
  closed : ∀ place, later.isClosedAt place = tree.isClosedAt place
  file : ∀ place, ¬ exempt place → (later.file? place).isSome = (tree.file? place).isSome

open FileTree (Resembles)

namespace Layout

variable (layout : Layout)

/-- The files that a command stands for in a tree. -/
def resolve (command : Command) (tree : FileTree) : Except CommandFailure (List Path) :=
  match command.check with
  | .error error => .error error
  | .ok checked => Selection.members tree layout.sourceRoot checked.wildcard

/-- The command takes up whatever regular file stands there. -/
def Takes (command : Command) (working place : Location) : Prop :=
  ∃ checked, command.check = .ok checked ∧
    Selection.Takes layout.sourceRoot checked.wildcard working place

/-- What the command finds may depend on the regular file there. -/
def Looks (command : Command) (working place : Location) : Prop :=
  ∃ checked, command.check = .ok checked ∧
    Selection.Looks layout.sourceRoot checked.wildcard working place

variable {layout} {command : Command} {tree later : FileTree} {exempt : Location → Prop}
  {files : List Path}

theorem Takes.looks {working place : Location} (takes : layout.Takes command working place) :
    layout.Looks command working place := by
  obtain ⟨checked, accepted, takes⟩ := takes
  exact ⟨checked, accepted, Or.inr takes⟩

theorem resolve_eq_ok : layout.resolve command tree = .ok files ↔
    ∃ checked, command.check = .ok checked ∧
      Selection.members tree layout.sourceRoot checked.wildcard = .ok files := by
  unfold resolve
  cases command.check with
  | error error => simp
  | ok checked => simp

/-- A command finds the same in trees that resemble each other wherever it looks. -/
theorem resolve_eq_of_resembles (plain : Plain tree) (resembles : Resembles tree later exempt)
    (spared : ∀ place, layout.Looks command tree.workingDirectory place → ¬ exempt place)
    (found : layout.resolve command tree = .ok files) :
    layout.resolve command later = .ok files := by
  obtain ⟨checked, accepted, listed⟩ := resolve_eq_ok.mp found
  refine resolve_eq_ok.mpr ⟨checked, accepted, ?_⟩
  refine Selection.members_eq_of_looks plain resembles.plain resembles.working resembles.directory
    resembles.closed (fun place looks => ?_) listed
  exact resembles.file place (spared place ⟨checked, accepted, looks⟩)

/-- The sources that a command finds are the files that it takes up. -/
theorem mem_resolve_iff (plain : Plain tree) (found : layout.resolve command tree = .ok files)
    {place : Location} :
    (∃ relative ∈ files, (layout.sourceRoot.join relative).location tree.workingDirectory = place) ↔
      (tree.file? place).isSome = true ∧ layout.Takes command tree.workingDirectory place := by
  obtain ⟨checked, accepted, listed⟩ := resolve_eq_ok.mp found
  rw [Selection.exists_mem_members_iff plain listed]
  refine and_congr_right fun _ => ⟨fun takes => ⟨checked, accepted, takes⟩, ?_⟩
  rintro ⟨other, same, takes⟩
  obtain rfl := Except.ok.inj (accepted.symm.trans same)
  exact takes

end Layout

namespace FileTree.Resembles

variable {tree between later : FileTree} {exempt : Location → Prop}

theorem refl (plain : Plain tree) (exempt : Location → Prop) : Resembles tree tree exempt :=
  ⟨plain, rfl, fun _ => rfl, fun _ => rfl, fun _ _ => rfl⟩

theorem trans (first : Resembles tree between exempt) (second : Resembles between later exempt) :
    Resembles tree later exempt where
  plain := second.plain
  working := second.working.trans first.working
  directory place := (second.directory place).trans (first.directory place)
  closed place := (second.closed place).trans (first.closed place)
  file place spared := (second.file place spared).trans (first.file place spared)

theorem symm (plain : Plain tree) (resembles : Resembles tree later exempt) :
    Resembles later tree exempt where
  plain := plain
  working := resembles.working.symm
  directory place := (resembles.directory place).symm
  closed place := (resembles.closed place).symm
  file place spared := (resembles.file place spared).symm

/-- Time goes by. -/
theorem of_clock (plain : Plain tree) (clock : Instant) (exempt : Location → Prop) :
    Resembles tree { tree with clock := clock } exempt :=
  ⟨plain.of_clock clock, rfl, fun _ => rfl, fun _ => rfl, fun _ _ => rfl⟩

end FileTree.Resembles

namespace Session

variable {session : Session State} {again : Session Other} {script : Script} {verb : Verb}
  {relative : Path} {machine : Machine State} {later : Machine Other}
  {tree : FileTree} {exempt : Location → Prop}

/-! ### What a run finds and leaves -/

/-- What the commands of a run find, one after the other. -/
def resolutions (session : Session State) :
    Script → Machine State → List (Except CommandFailure (List Path))
  | [], _ => []
  | command :: rest, machine =>
    session.layout.resolve command machine.tree ::
      resolutions session rest (session.record command machine).machine

/-- The run puts a regular file where there was none. -/
def Creates (session : Session State) (script : Script) (machine : Machine State)
    (place : Location) : Prop :=
  machine.tree.file? place = none ∧
    ((session.run script machine).machine.tree.file? place).isSome = true

/-- A wave of these visits stands there, and also a file that is wanted: one that was there before,
or the output of a visit. -/
def Spoils (session : Session State) (visits : List (Visit State)) (tree : FileTree)
    (place : Location) : Prop :=
  (∃ visit ∈ visits, visit.verb = .mp3ToOgg ∧
      place = session.waveOf visit.verb visit.relative tree) ∧
    ((tree.file? place).isSome = true ∨
      ∃ visit ∈ visits, place = session.placeOf visit.verb visit.relative tree)

/-- The tree resembles the one that the run has left, but for places that its visits spoil. -/
abbrev Recalls (session : Session State) (script : Script) (machine : Machine State)
    (tree : FileTree) : Prop :=
  Resembles (session.run script machine).machine.tree tree
    (session.Spoils (session.visits script machine) machine.tree)

/-- What a visit takes up, and what for. -/
def task (visit : Visit State) : Verb × Path := (visit.verb, visit.relative)

/-- The files of a later run are those of the first, and none of them was created by it. -/
structure Repeats (session : Session State) (again : Session Other) (script : Script)
    (machine : Machine State) (later : Machine Other) : Prop where
  finds : again.resolutions script later = session.resolutions script machine
  visits : (again.run script later).value.failed = 0 →
    (again.visits script later).map task = (session.visits script machine).map task
  original : ∀ files, .ok files ∈ again.resolutions script later → ∀ relative ∈ files,
    ¬ session.Creates script machine
      ((again.sourceOf relative).location later.tree.workingDirectory)

/-- Every command can list its files where the run has left the tree, and takes up nothing that the
run has created. -/
structure NoFeedback (session : Session State) (script : Script) (machine : Machine State) :
    Prop where
  lists : ∀ command ∈ script, ∃ files,
    session.layout.resolve command (session.run script machine).machine.tree = .ok files
  untaken : ∀ command ∈ script, ∀ place, session.Creates script machine place →
    ¬ session.layout.Takes command machine.tree.workingDirectory place

/-- One tree is left by runs of the script from another, with time going by before each. -/
inductive Reruns (layout : Layout) (script : Script) : FileTree → FileTree → Prop where
  | none (tree : FileTree) : Reruns layout script tree tree
  | more {State : Type} {first tree : FileTree} (earlier : Reruns layout script first tree)
      (session : Session State) (machine : Machine State) (clock : Instant)
      (laid : session.layout = layout) (only : session.runner.OnlyWrites)
      (world : machine.tree = { tree with clock := clock }) :
      Reruns layout script first (session.run script machine).machine.tree

/-! ### One visit -/

/-- All that a visit would make is there: room for its output, something at the place of the output,
and no file where it may write a wave. -/
structure Equipped (session : Session State) (exempt : Location → Prop) (tree : FileTree)
    (verb : Verb) (relative : Path) : Prop where
  room : tree.makeParent (session.targetOf verb relative) = (tree, .ok ())
  stands : ¬ exempt (session.placeOf verb relative tree) →
    (tree.node? (session.placeOf verb relative tree)).isSome = true
  unwaved : verb = .mp3ToOgg → ¬ exempt (session.waveOf verb relative tree) →
    (tree.file? (session.waveOf verb relative tree)).isSome = false

theorem Equipped.of_layout (layout : again.layout = session.layout)
    (equipped : session.Equipped exempt tree verb relative) :
    again.Equipped exempt tree verb relative := by
  have target : again.targetOf verb relative = session.targetOf verb relative := by
    unfold targetOf
    rw [layout]
  obtain ⟨room, stands, unwaved⟩ := equipped
  unfold placeOf at stands
  unfold waveOf at unwaved
  constructor
  · rwa [target]
  · unfold placeOf
    rwa [target]
  · unfold waveOf
    rwa [target]

/-- A visit for which all is equipped makes nothing, and takes away no file but in exempt places. -/
theorem resembles_of_visit (only : session.runner.OnlyWrites) (plain : Plain tree)
    (resembles : Resembles tree machine.tree exempt)
    (equipped : session.Equipped exempt tree verb relative) :
    Resembles tree (session.visit verb relative machine).machine.tree exempt := by
  have room : machine.tree.makeParent (session.targetOf verb relative) = (machine.tree, .ok ()) :=
    FileTree.makeParent_again plain resembles.plain (by rw [equipped.room]) resembles.working
      fun place there => by
        rw [equipped.room] at there
        exact (resembles.directory place).trans there
  have adds := @adds_visit State session verb relative machine only resembles.plain
  have entered : (session.withRoom verb relative machine).tree = machine.tree := by
    unfold withRoom
    rw [room]
  rw [entered] at adds
  have gone := (@advances_of_visit State session ⟨verb, relative, machine⟩ only
    resembles.plain).gone
  refine ⟨adds.plain, adds.working.trans resembles.working,
    fun place => (adds.directory place).trans (resembles.directory place),
    fun place => (adds.closed place).trans (resembles.closed place),
    fun place spared => Bool.eq_iff_iff.mpr ⟨fun there => ?_, fun there => ?_⟩⟩
  · rcases adds.file place there with before | output
    · exact (resembles.file place spared).symm.trans before
    · -- Something stands at the place of the output already, and it is no directory.
      rw [placeOf_congr resembles.working] at output
      have stands := equipped.stands (output ▸ spared)
      rw [← output] at stands
      have leaf := FileTree.isDirectoryAt_of_file? there
      rw [adds.directory, resembles.directory] at leaf
      rcases plain.cases place with none | directory | ⟨file, found⟩
      · rw [none] at stands
        cases stands
      · rw [FileTree.isDirectoryAt_iff.mpr directory] at leaf
        cases leaf
      · exact Option.isSome_iff_exists.mpr ⟨file, FileTree.file?_eq_some_iff.mpr found⟩
  · have before := (resembles.file place spared).trans there
    rcases gone place before with still | ⟨visit, one, decodes, wave⟩
    · exact still
    · obtain rfl := List.mem_singleton.mp one
      rw [waveOf_congr resembles.working] at wave
      have nothing := equipped.unwaved decodes (wave ▸ spared)
      rw [← wave, there] at nothing
      cases nothing

/-! ### The first run -/

section First

variable {front back : List (Visit State)} {between last : FileTree} {place : Location}

/-- A file that has come to stand where nothing is spoiled stays. -/
theorem Advances.kept (first : session.Advances front tree between)
    (second : session.Advances back between last)
    (spared : ¬ session.Spoils (front ++ back) tree place)
    (there : (between.file? place).isSome = true) : (last.file? place).isSome = true := by
  refine (second.gone place there).resolve_right fun ⟨visit, member, decodes, wave⟩ => spared ?_
  refine ⟨⟨visit, List.mem_append_right _ member, decodes,
    wave.trans (waveOf_congr first.working)⟩, ?_⟩
  exact (first.born place there).imp_right fun ⟨other, inFront, output⟩ =>
    ⟨other, List.mem_append_left _ inFront, output⟩

/-- So does a file that was there from the start. -/
theorem Advances.kept_start (first : session.Advances front tree between)
    (spared : ¬ session.Spoils (front ++ back) tree place)
    (there : (tree.file? place).isSome = true) : (between.file? place).isSome = true := by
  refine (first.gone place there).resolve_right fun ⟨visit, member, decodes, wave⟩ => spared ?_
  exact ⟨⟨visit, List.mem_append_left _ member, decodes, wave⟩, Or.inl there⟩

/-- Where a wave spoils nothing there is no file. -/
theorem Advances.unwaved (whole : session.Advances front tree last) {visit : Visit State}
    (member : visit ∈ front) (decodes : visit.verb = .mp3ToOgg)
    (spared : ¬ session.Spoils front tree (session.waveOf visit.verb visit.relative tree)) :
    (last.file? (session.waveOf visit.verb visit.relative tree)).isSome = false := by
  refine Bool.eq_false_iff.mpr fun there => spared ?_
  exact ⟨⟨visit, member, decodes, rfl⟩, whole.born _ there⟩

variable {before after : Script} {command : Command}

/-- The commands in the front of a script advance the tree, and those behind them go on from
there. -/
theorem advances_of_split (only : session.runner.OnlyWrites) (plain : Plain machine.tree)
    (before after : Script) :
    let middle := (session.runCommands before machine).machine
    session.Advances (session.visits before machine) machine.tree middle.tree ∧
      session.Advances (session.visits after middle) middle.tree
        (session.run (before ++ after) machine).machine.tree := by
  intro middle
  have first := advances_of_follows only (follows_visits before machine) plain
  have second := advances_of_follows only (follows_visits after middle) first.plain
  have left : (session.run (before ++ after) machine).machine =
      (session.run after middle).machine := by
    show (session.runCommands (before ++ after) machine).machine = _
    rw [runCommands_append]
    rfl
  rw [left]
  exact ⟨first, second⟩

/-- A run in which nothing fails leaves all prepared for its visits to be made again. -/
theorem equipped_of_mem_visits (only : session.runner.OnlyWrites) (plain : Plain machine.tree)
    (complete : (session.run script machine).value.failed = 0) {visit : Visit State}
    (member : visit ∈ session.visits script machine) :
    session.Equipped (session.Spoils (session.visits script machine) machine.tree)
      (session.run script machine).machine.tree visit.verb visit.relative := by
  obtain ⟨completion, succeeded⟩ := succeeded_of_mem_visits complete visit member
  have follows := session.follows_visits script machine
  have whole := advances_of_follows only follows plain
  obtain ⟨earlier, others, split⟩ := List.append_of_mem member
  rw [split] at follows
  obtain ⟨middle, before, rfl, after⟩ := follows_append.mp follows
  have first := advances_of_follows only before plain
  have here := advances_of_visit only first.plain
  have second := advances_of_follows only after here.plain
  obtain ⟨room, stands⟩ := stands_of_visit only first.plain succeeded
  have adds := @adds_visit State session visit.verb visit.relative visit.machine only first.plain
  have outputAt : session.placeOf visit.verb visit.relative
      (session.run script machine).machine.tree =
        session.placeOf visit.verb visit.relative visit.machine.tree :=
    placeOf_congr (whole.working.trans first.working.symm)
  refine ⟨?_, fun spared => ?_, fun decodes spared => ?_⟩
  · refine FileTree.makeParent_again first.plain whole.plain room
      (whole.working.trans first.working.symm) fun place there => ?_
    exact second.directory place ((adds.directory place).trans there)
  · rw [outputAt] at spared ⊢
    rcases here.plain.cases (session.placeOf visit.verb visit.relative visit.machine.tree) with
      none | directory | ⟨file, there⟩
    · have stands : ((session.effectOf visit).machine.tree.node? _).isSome = true := stands
      rw [none] at stands
      cases stands
    · have still := second.directory _ (FileTree.isDirectoryAt_iff.mpr directory)
      rw [FileTree.isDirectoryAt_iff.mp still]
      rfl
    · refine FileTree.node?_isSome_of_file?_isSome ((first.trans here).kept second ?_
        (Option.isSome_iff_exists.mpr ⟨file, FileTree.file?_eq_some_iff.mpr there⟩))
      rwa [List.append_assoc, List.singleton_append, ← split]
  · rw [waveOf_congr whole.working] at spared ⊢
    exact whole.unwaved member decodes spared

/-- A command that ends without an error finds files, and visits them all. -/
theorem resolve_of_succeeded
    (complete : (session.record command machine).value.succeeded = true) :
    ∃ checked files, command.check = .ok checked ∧
      session.layout.resolve command machine.tree = .ok files ∧
      (session.commandVisits command machine).map task = files.map (checked.verb, ·) := by
  have succeeded := succeeded_of_mem_commandVisits complete
  have ended : (session.carryOut command machine).value.2 = none :=
    Option.isNone_iff_eq_none.mp complete
  rcases session.carryOut_cases command machine with ⟨error, same, -⟩ |
    ⟨checked, files, accepted, listed, -, visits⟩
  · rw [same] at ended
    cases ended
  refine ⟨checked, files, accepted, Layout.resolve_eq_ok.mpr ⟨checked, accepted, listed⟩, ?_⟩
  rw [visits] at succeeded ⊢
  have relatives := relatives_visitsOf succeeded
  calc (session.visitsOf checked.verb files machine).map task
      = (session.visitsOf checked.verb files machine).map
          fun visit => (checked.verb, visit.relative) :=
        List.map_congr_left fun visit member =>
          congrArg (·, visit.relative) (verb_of_mem_visitsOf member).1
    _ = ((session.visitsOf checked.verb files machine).map (·.relative)).map (checked.verb, ·) :=
        (List.map_map ..).symm
    _ = files.map (checked.verb, ·) := by rw [relatives]

theorem succeeded_of_split
    (complete : (session.run (before ++ command :: after) machine).value.failed = 0) :
    (session.record command (session.runCommands before machine).machine).value.succeeded =
      true := by
  replace complete : (session.runCommands (before ++ command :: after) machine).value.failed = 0 :=
    complete
  rw [runCommands_append] at complete
  have behind : (session.runCommands (command :: after)
      (session.runCommands before machine).machine).value.failed = 0 :=
    (Nat.add_eq_zero_iff.mp ((List.countP_append ..).symm.trans complete)).2
  rw [(runCommands_cons command after _).1, failed_cons] at behind
  exact behind.1

/-- What a command found in a run in which nothing failed is visited, so all is prepared for it. -/
theorem equipped_of_resolve (only : session.runner.OnlyWrites) (plain : Plain machine.tree)
    (complete : (session.run (before ++ command :: after) machine).value.failed = 0)
    {checked : CheckedCommand} (accepted : command.check = .ok checked) {files : List Path}
    (found : session.layout.resolve command (session.runCommands before machine).machine.tree =
      .ok files) (member : relative ∈ files) :
    session.Equipped
      (session.Spoils (session.visits (before ++ command :: after) machine) machine.tree)
      (session.run (before ++ command :: after) machine).machine.tree checked.verb relative := by
  obtain ⟨other, others, known, there, visited⟩ :=
    resolve_of_succeeded (succeeded_of_split complete)
  obtain rfl := Except.ok.inj (accepted.symm.trans known)
  obtain rfl := Except.ok.inj (found.symm.trans there)
  obtain ⟨visit, inCommand, same⟩ :=
    List.mem_map.mp (visited ▸ List.mem_map_of_mem member : (checked.verb, relative) ∈ _)
  obtain ⟨verb, path⟩ := Prod.mk.inj same
  rw [← verb, ← path]
  refine equipped_of_mem_visits only plain complete ?_
  rw [visits_append, visits]
  exact List.mem_append_right _ (List.mem_append_left _ inCommand)

/-- A command that takes up nothing that the run creates finds in the run what it finds where the
run has left the tree. -/
theorem resolve_of_untaken (only : session.runner.OnlyWrites) (plain : Plain machine.tree)
    (complete : (session.run (before ++ command :: after) machine).value.failed = 0)
    (spared : ∀ place, session.layout.Looks command machine.tree.workingDirectory place →
      ¬ session.Spoils (session.visits (before ++ command :: after) machine) machine.tree place)
    (untaken : ∀ place, session.Creates (before ++ command :: after) machine place →
      ¬ session.layout.Takes command machine.tree.workingDirectory place) {files : List Path}
    (found : session.layout.resolve command
      (session.run (before ++ command :: after) machine).machine.tree = .ok files) :
    session.layout.resolve command (session.runCommands before machine).machine.tree =
      .ok files := by
  obtain ⟨first, second⟩ := advances_of_split only plain before (command :: after)
  rw [visits_append] at spared
  obtain ⟨checked, others, accepted, there, -⟩ :=
    resolve_of_succeeded (succeeded_of_split complete)
  obtain ⟨known, same, listed⟩ := Layout.resolve_eq_ok.mp there
  obtain rfl := Except.ok.inj (accepted.symm.trans same)
  obtain ⟨known, same, relisted⟩ := Layout.resolve_eq_ok.mp found
  obtain rfl := Except.ok.inj (accepted.symm.trans same)
  rw [there]
  refine congrArg Except.ok (Selection.members_eq_of_files first.plain second.plain second.working
    (fun place takes => ?_) listed relisted).symm
  rw [first.working] at takes
  have takes : session.layout.Takes command machine.tree.workingDirectory place :=
    ⟨checked, accepted, takes⟩
  have unspoiled := spared place takes.looks
  refine Bool.eq_iff_iff.mpr ⟨fun ends => ?_, first.kept second unspoiled⟩
  refine first.kept_start unspoiled ?_
  by_contra absent
  exact untaken place ⟨by simpa using absent, ends⟩ takes

end First

/-! ### Runs over the same commands -/

theorem resolutions_append (session : Session State) (before after : Script)
    (machine : Machine State) : session.resolutions (before ++ after) machine =
      session.resolutions before machine ++
        session.resolutions after (session.runCommands before machine).machine := by
  induction before generalizing machine with
  | nil => rfl
  | cons command rest inductionHypothesis =>
    rw [List.cons_append, resolutions, resolutions, inductionHypothesis, List.cons_append]
    rfl

theorem length_resolutions (session : Session State) (script : Script) (machine : Machine State) :
    (session.resolutions script machine).length = script.length := by
  induction script generalizing machine with
  | nil => rfl
  | cons command rest inductionHypothesis => exact congrArg (· + 1) (inductionHypothesis _)

/-- Runs that find the same find the same at each command. -/
theorem resolve_eq_of_resolutions {before after : Script} {command : Command}
    (same : again.resolutions (before ++ command :: after) later =
      session.resolutions (before ++ command :: after) machine) :
    again.layout.resolve command (again.runCommands before later).machine.tree =
      session.layout.resolve command (session.runCommands before machine).machine.tree := by
  rw [resolutions_append, resolutions_append] at same
  have behind := (List.append_inj same (by rw [length_resolutions, length_resolutions])).2
  exact (List.cons.inj behind).1

/-- A run finds what each of its commands finds. -/
theorem resolutions_eq_map {answer : Command → Except CommandFailure (List Path)}
    (each : ∀ before command after, script = before ++ command :: after →
      session.layout.resolve command (session.runCommands before machine).machine.tree =
        answer command) : session.resolutions script machine = script.map answer := by
  induction script generalizing machine with
  | nil => rfl
  | cons command rest inductionHypothesis =>
    have here : session.layout.resolve command machine.tree = answer command :=
      each [] command rest rfl
    rw [resolutions, List.map_cons, here, inductionHypothesis]
    intro before other after split
    exact each (command :: before) other after (congrArg (command :: ·) split)

/-- Runs in which nothing fails visit the same when they find the same. -/
theorem tasks_of_resolutions (first : (session.runCommands script machine).value.failed = 0)
    (second : (again.runCommands script later).value.failed = 0)
    (same : again.resolutions script later = session.resolutions script machine) :
    (again.visits script later).map task = (session.visits script machine).map task := by
  induction script generalizing machine later with
  | nil => rfl
  | cons command rest inductionHypothesis =>
    rw [(runCommands_cons command rest machine).1, failed_cons] at first
    rw [(runCommands_cons command rest later).1, failed_cons] at second
    obtain ⟨here, behind⟩ := List.cons.inj same
    obtain ⟨checked, files, accepted, found, visited⟩ := resolve_of_succeeded first.1
    obtain ⟨other, others, known, refound, revisited⟩ := resolve_of_succeeded second.1
    obtain rfl := Except.ok.inj (accepted.symm.trans known)
    obtain rfl := Except.ok.inj (found.symm.trans (here.symm.trans refound))
    rw [visits, visits, List.map_append, List.map_append, visited, revisited,
      inductionHypothesis first.2 second.2 behind]

/-- Commands for whose visits all is prepared leave a tree that resembles the one they found. -/
theorem resembles_of_commands (only : session.runner.OnlyWrites) (plain : Plain tree)
    (start : Resembles tree machine.tree exempt)
    (equipped : ∀ before command after, script = before ++ command :: after →
      Resembles tree (session.runCommands before machine).machine.tree exempt →
        ∀ visit ∈ session.commandVisits command (session.runCommands before machine).machine,
          session.Equipped exempt tree visit.verb visit.relative)
    (before after : Script) (split : script = before ++ after) :
    Resembles tree (session.runCommands before machine).machine.tree exempt := by
  induction before using List.reverseRecOn generalizing after with
  | nil => exact start
  | append_singleton front command inductionHypothesis =>
    rw [List.append_assoc, List.singleton_append] at split
    have holds := inductionHypothesis _ split
    have left : (session.runCommands (front ++ [command]) machine).machine =
        (session.record command (session.runCommands front machine).machine).machine := by
      rw [runCommands_append]
      rfl
    rw [left]
    exact (@invariant_of_follows State session _ _
      (fun middle => Resembles tree middle.tree exempt) _
      (follows_commandVisits command (session.runCommands front machine).machine) holds
      fun visit member resembles => resembles_of_visit only plain resembles
        (equipped front command after split holds visit member)).1

/-! ### Later runs -/

section Later

variable (only : session.runner.OnlyWrites) (plain : Plain machine.tree)
  (complete : (session.run script machine).value.failed = 0)
  (layout : again.layout = session.layout)

include only plain complete layout

/-- A later run keeps the tree as it is, as long as its commands find what they found first. -/
theorem resembles_of_finds (others : again.runner.OnlyWrites)
    (start : session.Recalls script machine later.tree)
    (finds : ∀ before command after, script = before ++ command :: after →
      session.Recalls script machine (again.runCommands before later).machine.tree →
      ∀ files, again.layout.resolve command (again.runCommands before later).machine.tree =
          .ok files →
        session.layout.resolve command (session.runCommands before machine).machine.tree =
          .ok files) (before after : Script) (split : script = before ++ after) :
    session.Recalls script machine (again.runCommands before later).machine.tree := by
  have final := (advances_of_follows only (session.follows_visits script machine) plain).plain
  refine resembles_of_commands others final start
    (fun before command after split holds visit member => ?_) before after split
  obtain ⟨checked, files, accepted, listed, verb, inFiles⟩ := mem_commandVisits member
  have found := finds before command after split holds files
    (Layout.resolve_eq_ok.mpr ⟨checked, accepted, listed⟩)
  subst split
  rw [verb]
  exact (equipped_of_resolve only plain complete accepted found inFiles).of_layout layout

variable (spared : ∀ command ∈ script, ∀ place,
  session.layout.Looks command machine.tree.workingDirectory place →
    ¬ session.Spoils (session.visits script machine) machine.tree place)

include spared

/-- What a command finds in the tree that the first run has left, it finds in the first run, and in
every later one. -/
theorem finds_of_noFeedback (apart : session.NoFeedback script machine) {before after : Script}
    {command : Command} (split : script = before ++ command :: after) {tree : FileTree}
    (resembles : session.Recalls script machine tree) :
    again.layout.resolve command tree =
        session.layout.resolve command (session.run script machine).machine.tree ∧
      session.layout.resolve command (session.runCommands before machine).machine.tree =
        session.layout.resolve command (session.run script machine).machine.tree := by
  have whole := advances_of_follows only (session.follows_visits script machine) plain
  have member : command ∈ script := split ▸ List.mem_append_right _ List.mem_cons_self
  obtain ⟨files, found⟩ := apart.lists command member
  have looks := spared command member
  rw [← whole.working] at looks
  rw [layout, found, Layout.resolve_eq_of_resembles whole.plain resembles looks found]
  have untaken := apart.untaken command member
  have unspoiled := spared command member
  subst split
  exact ⟨rfl, resolve_of_untaken only plain complete unspoiled untaken found⟩

/-- A later run leaves a tree that resembles the one that the first run has left, and repeats what
the first run did. -/
theorem repeats_of_noFeedback (apart : session.NoFeedback script machine)
    (others : again.runner.OnlyWrites)
    (start : session.Recalls script machine later.tree) :
    session.Recalls script machine (again.run script later).machine.tree ∧
      session.Repeats again script machine later := by
  have whole := advances_of_follows only (session.follows_visits script machine) plain
  have resembles := resembles_of_finds only plain complete layout others start
    fun before command after split holds files found => by
      obtain ⟨refound, first⟩ :=
        finds_of_noFeedback only plain complete layout spared apart split holds
      rw [first, ← refound, found]
  have finds : again.resolutions script later = script.map fun command =>
      session.layout.resolve command (session.run script machine).machine.tree :=
    resolutions_eq_map fun before command after split =>
      (finds_of_noFeedback only plain complete layout spared apart split
        (resembles before _ split)).1
  have first : session.resolutions script machine = script.map fun command =>
      session.layout.resolve command (session.run script machine).machine.tree :=
    resolutions_eq_map fun before command after split =>
      (finds_of_noFeedback only plain complete layout spared apart split
        (resembles before _ split)).2
  refine ⟨resembles script [] (List.append_nil _).symm, ?_, fun ends => ?_, ?_⟩
  · exact finds.trans first.symm
  · exact tasks_of_resolutions complete ends (finds.trans first.symm)
  · intro files found relative member created
    obtain ⟨command, inScript, answer⟩ := List.mem_map.mp (finds ▸ found)
    have place : (again.sourceOf relative).location later.tree.workingDirectory =
        (session.layout.sourceRoot.join relative).location
          (session.run script machine).machine.tree.workingDirectory := by
      unfold sourceOf
      rw [layout, start.working]
    have taken := ((Layout.mem_resolve_iff whole.plain answer).mp ⟨relative, member, place.symm⟩).2
    rw [whole.working] at taken
    exact apart.untaken command inScript _ created taken

/-- A second run that repeats the first has found nothing that the first created. -/
theorem noFeedback_of_repeats (others : again.runner.OnlyWrites)
    (start : session.Recalls script machine later.tree)
    (repeats : session.Repeats again script machine later) :
    session.NoFeedback script machine := by
  have whole := advances_of_follows only (session.follows_visits script machine) plain
  have same : ∀ before command after, script = before ++ command :: after →
      again.layout.resolve command (again.runCommands before later).machine.tree =
        session.layout.resolve command (session.runCommands before machine).machine.tree := by
    rintro before command after rfl
    exact resolve_eq_of_resolutions repeats.finds
  have resembles := resembles_of_finds only plain complete layout others start
    fun before command after split _ files found => (same before command after split) ▸ found
  have finds : ∀ command ∈ script, ∃ middle files, .ok files ∈ again.resolutions script later ∧
      session.Recalls script machine middle ∧
      session.layout.resolve command middle = .ok files := by
    intro command member
    obtain ⟨before, after, split⟩ := List.append_of_mem member
    have found := same before command after split
    have holds := resembles before _ split
    subst split
    obtain ⟨-, files, -, first, -⟩ := resolve_of_succeeded (succeeded_of_split complete)
    rw [first] at found
    refine ⟨_, files, ?_, holds, layout ▸ found⟩
    rw [resolutions_append, resolutions, found]
    exact List.mem_append_right _ List.mem_cons_self
  constructor
  · intro command member
    obtain ⟨middle, files, -, holds, found⟩ := finds command member
    refine ⟨files, Layout.resolve_eq_of_resembles holds.plain (holds.symm whole.plain)
      (fun place looks => spared command member place ?_) found⟩
    rwa [holds.working, whole.working] at looks
  · intro command member place created takes
    obtain ⟨middle, files, answered, holds, found⟩ := finds command member
    have working : middle.workingDirectory = machine.tree.workingDirectory :=
      holds.working.trans whole.working
    have there : (middle.file? place).isSome = true :=
      (holds.file place (spared command member place takes.looks)).trans created.2
    rw [← working] at takes
    obtain ⟨relative, inFiles, source⟩ :=
      (Layout.mem_resolve_iff holds.plain found).mpr ⟨there, takes⟩
    refine repeats.original files answered relative inFiles ?_
    have leads : (again.sourceOf relative).location later.tree.workingDirectory = place := by
      unfold sourceOf
      rw [layout, start.working, ← holds.working]
      exact source
    exact leads.symm ▸ created

end Later

theorem resembles_of_reruns (only : session.runner.OnlyWrites) (plain : Plain machine.tree)
    (complete : (session.run script machine).value.failed = 0)
    (spared : ∀ command ∈ script, ∀ place,
      session.layout.Looks command machine.tree.workingDirectory place →
        ¬ session.Spoils (session.visits script machine) machine.tree place)
    (apart : session.NoFeedback script machine) {first tree : FileTree}
    (left : (session.run script machine).machine.tree = first)
    (reruns : Reruns session.layout script first tree) : Resembles first tree
      (session.Spoils (session.visits script machine) machine.tree) := by
  have whole := advances_of_follows only (session.follows_visits script machine) plain
  induction reruns with
  | none tree =>
    subst left
    exact Resembles.refl whole.plain _
  | more earlier third last clock laid writes world inductionHypothesis =>
    have before := inductionHypothesis left
    have onwards := before.trans (Resembles.of_clock before.plain clock _)
    rw [← world] at onwards
    subst left
    exact (repeats_of_noFeedback only plain complete laid spared apart writes onwards).1

/-- Runs of the script that come later leave the tree as the first one left it: there are no more
directories, and no more or fewer regular files but at spoiled places. Each of them repeats the
first, and so does another run that follows them. -/
structure Settles (session : Session State) (script : Script) (machine : Machine State)
    (tree : FileTree) : Prop where
  directory : ∀ place,
    tree.isDirectoryAt place = (session.run script machine).machine.tree.isDirectoryAt place
  file : ∀ place, ¬ session.Spoils (session.visits script machine) machine.tree place →
    (tree.file? place).isSome = ((session.run script machine).machine.tree.file? place).isSome
  repeats : ∀ {Third : Type} (third : Session Third) (last : Machine Third) (clock : Instant),
    third.layout = session.layout → third.runner.OnlyWrites →
      last.tree = { tree with clock := clock } → session.Repeats third script machine last

/-! ### Outputs below the source root -/

/-- A wave beside the output root. -/
def waveBesideOutputs : Machine Unit where
  tree := {
    nodes := [
      ([['a', '.', 'w', 'a', 'v']], .file ⟨[119], ⟨1000, 0⟩, .ordinary⟩),
      ([['o', 'u', 't']], .directory)]
    workingDirectory := []
    clock := ⟨2000, 0⟩ }
  runner := ()

/-- Outputs go below the directory that sources are taken from. -/
def nested : Session Unit :=
  .start { Layout.twoRoots with sourceRoot := ⟨['.']⟩ } (.writing [112] 0) waveBesideOutputs.tree

/-- Copies every wave. -/
def copyWaves : Script := [⟨1, ['c', 'o', 'p', 'y'], [['*', '.', 'w', 'a', 'v'], ['x']]⟩]

/-- An mp3 file beside the output root. -/
def mp3BesideOutputs : Machine Unit where
  tree := {
    nodes := [
      ([['a', '.', 'm', 'p', '3']], .file ⟨[109], ⟨1000, 0⟩, .ordinary⟩),
      ([['o', 'u', 't']], .directory)]
    workingDirectory := []
    clock := ⟨2000, 0⟩ }
  runner := ()

/-- Converts every mp3 file. -/
def convertAll : Script :=
  [⟨1, ['m', 'p', '3', '-', 't', 'o', '-', 'o', 'g', 'g'], [['*', '.', 'm', 'p', '3'], ['x']]⟩]

instance (script : Script) (machine : Machine State) (place : Location) :
    Decidable (session.Creates script machine place) :=
  inferInstanceAs (Decidable (_ ∧ _))

/-- After a run without failures, a second run repeats it, and takes up nothing that it has created,
exactly when every command can list its files where the run left the tree and none takes up what the
run has created. Then nothing is added by any number of further runs. This is so wherever the roots
lie, as long as no command looks where a wave of the run spoils another file. -/
theorem repeats_iff_noFeedback (only : session.runner.OnlyWrites)
    (others : again.runner.OnlyWrites) (plain : Plain machine.tree)
    (complete : (session.run script machine).value.failed = 0)
    (layout : again.layout = session.layout) {clock : Instant}
    (world : later.tree = { (session.run script machine).machine.tree with clock := clock })
    (spared : ∀ command ∈ script, ∀ place,
      session.layout.Looks command machine.tree.workingDirectory place →
        ¬ session.Spoils (session.visits script machine) machine.tree place) :
    (session.Repeats again script machine later ↔ session.NoFeedback script machine) ∧
      (session.NoFeedback script machine → ∀ tree,
        Reruns session.layout script (session.run script machine).machine.tree tree →
          session.Settles script machine tree) := by
  have final := (advances_of_follows only (session.follows_visits script machine) plain).plain
  have start : session.Recalls script machine later.tree := by
    rw [world]
    exact Resembles.of_clock final clock _
  refine ⟨⟨noFeedback_of_repeats only plain complete layout spared others start,
    fun apart => (repeats_of_noFeedback only plain complete layout spared apart others start).2⟩,
    fun apart tree reruns => ?_⟩
  have resembles := resembles_of_reruns only plain complete spared apart rfl reruns
  refine ⟨resembles.directory, resembles.file, fun third last clock laid writes world => ?_⟩
  have onwards := resembles.trans (Resembles.of_clock resembles.plain clock _)
  rw [← world] at onwards
  exact (repeats_of_noFeedback only plain complete laid spared apart writes onwards).2

/-- The wave is copied below the source root, where the second run finds the copy. -/
theorem copied_wave_feeds_back :
    nested.runner.OnlyWrites ∧ Plain waveBesideOutputs.tree ∧
      waveBesideOutputs.tree.isDirectory nested.layout.sourceRoot = true ∧
      waveBesideOutputs.tree.isDirectory nested.layout.outputRoot = true ∧
      (nested.run copyWaves waveBesideOutputs).value.failed = 0 ∧
      nested.Creates copyWaves waveBesideOutputs [['o', 'u', 't'], ['a', '.', 'w', 'a', 'v']] ∧
      (∃ files, .ok files ∈ nested.resolutions copyWaves
          (nested.run copyWaves waveBesideOutputs).machine ∧
        (⟨['o', 'u', 't', '/', 'a', '.', 'w', 'a', 'v']⟩ : Path) ∈ files) ∧
      ¬ nested.Repeats nested copyWaves waveBesideOutputs
        (nested.run copyWaves waveBesideOutputs).machine := by
  have created : nested.Creates copyWaves waveBesideOutputs
      [['o', 'u', 't'], ['a', '.', 'w', 'a', 'v']] := by decide +kernel
  have found : ∃ files, Selection.members (nested.run copyWaves waveBesideOutputs).machine.tree
      ⟨['.']⟩ ['*', '.', 'w', 'a', 'v'] = .ok files ∧
        (⟨['o', 'u', 't', '/', 'a', '.', 'w', 'a', 'v']⟩ : Path) ∈ files :=
    ⟨_, Selection.members_eq_ok.mpr ⟨.directory, [],
      [⟨['.', '/', 'a', '.', 'w', 'a', 'v']⟩,
        ⟨['.', '/', 'o', 'u', 't', '/', 'a', '.', 'w', 'a', 'v']⟩],
      by decide +kernel, by decide +kernel, by decide +kernel, rfl⟩,
      Path.mem_sorted.mpr (by decide +kernel)⟩
  obtain ⟨files, listed, member⟩ := found
  have answered : .ok files ∈ nested.resolutions copyWaves
      (nested.run copyWaves waveBesideOutputs).machine := by
    rw [← listed]
    exact List.mem_singleton_self _
  have leads : (nested.sourceOf ⟨['o', 'u', 't', '/', 'a', '.', 'w', 'a', 'v']⟩).location
      (nested.run copyWaves waveBesideOutputs).machine.tree.workingDirectory =
        [['o', 'u', 't'], ['a', '.', 'w', 'a', 'v']] := by decide +kernel
  refine ⟨Runner.onlyWrites_writing, by decide +kernel, by decide +kernel, by decide +kernel,
    by decide +kernel, created, ⟨files, answered, member⟩, fun repeats => ?_⟩
  exact repeats.original files answered _ member (leads.symm ▸ created)

/-- The mp3 file is converted to an output that no command takes up. -/
theorem repeats_iff_noFeedback_convertAll :
    nested.runner.OnlyWrites ∧ Plain mp3BesideOutputs.tree ∧
      (nested.run convertAll mp3BesideOutputs).value.failed = 0 ∧
      nested.Creates convertAll mp3BesideOutputs [['o', 'u', 't'], ['a', '.', 'o', 'g', 'g']] ∧
      nested.Repeats nested convertAll mp3BesideOutputs
        (nested.run convertAll mp3BesideOutputs).machine ∧
      nested.Settles convertAll mp3BesideOutputs
        (nested.run convertAll mp3BesideOutputs).machine.tree := by
  have only : nested.runner.OnlyWrites := Runner.onlyWrites_writing
  have plain : Plain mp3BesideOutputs.tree := by decide +kernel
  have complete : (nested.run convertAll mp3BesideOutputs).value.failed = 0 := by decide +kernel
  have spared : ∀ command ∈ convertAll, ∀ place,
      nested.layout.Looks command mp3BesideOutputs.tree.workingDirectory place →
        ¬ nested.Spoils (nested.visits convertAll mp3BesideOutputs) mp3BesideOutputs.tree
          place := by
    rintro command - place - ⟨⟨visit, member, decodes, rfl⟩, wanted⟩
    have clear : ∀ visit ∈ nested.visits convertAll mp3BesideOutputs,
        let wave := nested.waveOf visit.verb visit.relative mp3BesideOutputs.tree
        ¬ ((mp3BesideOutputs.tree.file? wave).isSome = true ∨
          ∃ other ∈ nested.visits convertAll mp3BesideOutputs,
            wave = nested.placeOf other.verb other.relative mp3BesideOutputs.tree) := by
      decide +kernel
    exact clear visit member wanted
  obtain ⟨exactly, settles⟩ := @repeats_iff_noFeedback Unit Unit nested nested convertAll
    mp3BesideOutputs (nested.run convertAll mp3BesideOutputs).machine only only plain complete rfl
    (nested.run convertAll mp3BesideOutputs).machine.tree.clock rfl spared
  have apart : nested.NoFeedback convertAll mp3BesideOutputs := by
    constructor
    · have lists : ∀ command ∈ convertAll, nested.layout.resolve command
          (nested.run convertAll mp3BesideOutputs).machine.tree =
            .ok [⟨['a', '.', 'm', 'p', '3']⟩] := by decide +kernel
      exact fun command member => ⟨_, lists command member⟩
    · rintro command member place ⟨absent, there⟩ ⟨checked, accepted, names, rfl, selected⟩
      have unselected : ∀ command ∈ convertAll, ∀ checked, command.check = .ok checked →
          let base := (Selection.ofWildcard checked.wildcard).base nested.layout.sourceRoot
          base.location mp3BesideOutputs.tree.workingDirectory = [] ∧
            ∀ entry ∈ (nested.run convertAll mp3BesideOutputs).machine.tree.nodes,
              mp3BesideOutputs.tree.file? entry.1 = none →
                (Selection.ofWildcard checked.wildcard).selects (entry.1.foldl Path.child base) =
                  false :=
        Script.forall_checked_iff.mp (by decide +kernel)
      obtain ⟨root, others⟩ := unselected command member checked accepted
      rw [root, List.nil_append] at absent there
      obtain ⟨file, there⟩ := Option.isSome_iff_exists.mp there
      have below : names ≠ [] := by
        rintro rfl
        cases there
      have listed := FileTree.mem_nodes_of_node? below (FileTree.file?_eq_some_iff.mp there)
      rw [others _ listed absent] at selected
      cases selected
  exact ⟨only, plain, complete, by decide +kernel, exactly.mpr apart,
    settles apart _ (.none _)⟩

end Session

end AssetPipeline
