/-
This file says that log and report tell the same story. A command prints its summary once its files
are listed, then a line for each file as it is taken up, and at the end what failed and an empty
line; the report is filled in when all of that is over. Still the report says what was printed, line
by line, but for one file: when a build fails, its file has been announced and is not completed. So
the lines of the log can be counted in the report.
-/

import AssetPipeline.Proofs.Build.Events
import AssetPipeline.Proofs.Build.Issues
import AssetPipeline.Proofs.Build.Reporting

namespace AssetPipeline

variable {State : Type}

/-! ### What is printed -/

namespace Event

/-- Does the program itself print the event? The notes about files that are mono are left out. -/
def isPrinted : Event → Bool
  | .summary .. | .file .. | .commandFailed .. | .commandEnd | .done => true
  | _ => false

/-- What the program itself prints of some events. -/
def printed (events : List Event) : List Event := events.filter isPrinted

/-- Is the event the line of a file? -/
def isFile : Event → Bool
  | .file .. => true
  | _ => false

/-- Does the line end by saying that the output is current? -/
def endsCurrent (event : Event) : Bool :=
  (currentMark .upToDate ++ "\n").toList.isSuffixOf event.text.toList

theorem printed_append (first second : List Event) :
    printed (first ++ second) = printed first ++ printed second :=
  List.filter_append ..

/-- Of what the tools do the program itself prints nothing. -/
theorem printed_of_tools {events : List Event} (tools : ∀ event ∈ events, event.isOfTools = true) :
    printed events = [] := by
  refine List.filter_eq_nil_iff.mpr fun event member => ?_
  have ofTools := tools event member
  cases event with
  | summary => cases ofTools
  | file => cases ofTools
  | commandFailed => cases ofTools
  | commandEnd => cases ofTools
  | done => cases ofTools
  | _ => exact Bool.false_ne_true

/-- The line of a file ends so exactly when its output is current. -/
theorem endsCurrent_file (relative output : Path) (decision : Decision) :
    (Event.file relative output decision).endsCurrent = (decision == .upToDate) := by
  have line : (Event.file relative output decision).text =
      "  [" ++ relative.shownAsSource ++ "] => [" ++ output.shownAsOutput ++ "]" ++
        currentMark decision ++ "\n" := rfl
  unfold endsCurrent
  rw [line, String.append_assoc, String.append_assoc, String.toList_append, String.toList_append,
    List.isSuffixOf, List.reverse_append, List.reverse_append]
  cases decision with
  | rebuild => rfl
  | upToDate => exact List.isPrefixOf_iff_prefix.mpr (List.prefix_append _ _)

end Event

/-! ### What a report tells -/

/-- The line of a completed file. -/
def Completion.event (completion : Completion) : Event :=
  .file completion.relative completion.output completion.decision

/-- A command that is in order, and the files it found. -/
structure Listing where
  checked : CheckedCommand
  files : List Path

/-- The summary of what a command found. -/
def Listing.summary (listing : Listing) : Event :=
  .summary listing.checked.verb listing.checked.wildcard listing.files.length listing.checked.label

namespace CommandRecord

/-- Did the command fail while it built a file? -/
def endedBuild (record : CommandRecord) : Bool := record.error?.any CommandFailure.endsBuild

/-- The line of the file whose build failed, the first on the list that is not completed. -/
def unfinished? (record : CommandRecord) (listing : Listing) : Option Event :=
  if record.endedBuild then
    listing.files[record.files.length]?.map fun relative =>
      .file relative (Session.outputOf listing.checked.verb relative) .rebuild
  else none

/-- What the program prints of a command, told from its record and from what it found. -/
def story (record : CommandRecord) (listing? : Option Listing) : List Event :=
  (listing?.map Listing.summary).toList ++ record.files.map Completion.event ++
    (listing?.bind record.unfinished?).toList ++
    (record.error?.map (Event.commandFailed record.verb)).toList ++ [.commandEnd]

end CommandRecord

namespace Session

/-- What a command finds, when its check succeeds and its files can be listed. -/
def listing? (session : Session State) (command : Command) (machine : Machine State) :
    Option Listing :=
  match command.check with
  | .error _ => none
  | .ok checked =>
    match Selection.members machine.tree session.layout.sourceRoot checked.wildcard with
    | .error _ => none
    | .ok files => some ⟨checked, files⟩

/-- What the commands of a script find, each in the tree that those before it leave. -/
def listings (session : Session State) : Script → Machine State → List (Option Listing)
  | [], _ => []
  | command :: rest, machine =>
    session.listing? command machine ::
      session.listings rest (session.record command machine).machine

/-! ### The lines of a command -/

variable {session : Session State} {verb : Verb} {machine : Machine State}

/-- A visit prints the line of the file it completes, and of the file whose build fails. -/
theorem printed_visit (session : Session State) (verb : Verb) (relative : Path)
    (machine : Machine State) :
    Event.printed (session.visit verb relative machine).events =
      match (session.visit verb relative machine).value with
      | .ok completion => [completion.event]
      | .error error =>
        if error.endsBuild then [.file relative (outputOf verb relative) .rebuild] else [] := by
  rcases session.events_visit verb relative machine with
    ⟨error, room, silent⟩ | ⟨room, work, whole, tools⟩
  · have failed : (session.visit verb relative machine).value = .error error :=
      (Course.noRoom room).visit_eq.1
    obtain ⟨parent, fault, rfl⟩ := FileTree.makeParent_error room
    rw [silent, failed]
    rfl
  · have told : Event.printed (session.visit verb relative machine).events =
        [.file relative (outputOf verb relative) (session.decisionOf verb relative machine)] := by
      rw [whole, ← List.singleton_append, Event.printed_append, Event.printed_of_tools tools]
      rfl
    have course := session.visit_course verb relative machine
    rw [told]
    generalize (session.visit verb relative machine).value = value at course ⊢
    generalize (session.visit verb relative machine).machine = left at course
    cases course with
    | noRoom none => cases none.symm.trans room
    | current _ decided => rw [decided]; rfl
    | notProduced _ decided produced =>
      rw [decided]
      exact (if_pos (endsBuild_of_produce produced)).symm
    | notStamped _ decided _ stamped =>
      rw [decided]
      exact (if_pos (endsBuild_of_copyModified stamped)).symm
    | rebuilt _ decided => rw [decided]; rfl

/-- Going through a list of files prints the lines of those completed, and of the one behind them
when its build fails. -/
theorem printed_visitAll (session : Session State) (verb : Verb) (files : List Path)
    (machine : Machine State) :
    let went := session.visitAll verb files machine
    Event.printed went.events = went.value.1.map Completion.event ++
      (if went.value.2.any CommandFailure.endsBuild then
        files[went.value.1.length]?.map fun relative =>
          Event.file relative (outputOf verb relative) .rebuild
      else none).toList := by
  induction files generalizing machine with
  | nil => rfl
  | cons relative rest inductionHypothesis =>
    have told := session.printed_visit verb relative machine
    cases visited : (session.visit verb relative machine).value with
    | error error =>
      rw [visited] at told
      rw [visitAll_cons_of_error visited]
      dsimp only at told ⊢
      rw [told]
      cases building : error.endsBuild <;> simp [building]
    | ok completion =>
      rw [visited] at told
      rw [visitAll_cons_of_ok visited]
      dsimp only at told ⊢
      rw [Event.printed_append, told, inductionHypothesis]
      rfl

/-- A command that finds no files fails before it builds anything. -/
theorem listing?_cases (session : Session State) (command : Command) (machine : Machine State) :
    (∃ error, session.listing? command machine = none ∧
      session.carryOut command machine = .pure ([], some error) machine ∧
      error.endsBuild = false) ∨
    ∃ checked files, session.listing? command machine = some ⟨checked, files⟩ ∧
      command.check = .ok checked ∧
      Selection.members machine.tree session.layout.sourceRoot checked.wildcard = .ok files := by
  unfold listing?
  cases accepted : command.check with
  | error error =>
    refine Or.inl ⟨error, rfl, carryOut_of_refused accepted, ?_⟩
    have static := Command.isStatic_of_check accepted
    refine Bool.eq_false_iff.mpr fun building => ?_
    cases static.symm.trans (CommandFailure.isStatic_of_endsBuild building)
  | ok checked =>
    dsimp only
    cases found : Selection.members machine.tree session.layout.sourceRoot checked.wildcard with
    | error error =>
      refine Or.inl ⟨error, rfl, carryOut_of_unlisted accepted found, ?_⟩
      rcases Selection.members_error found with ⟨_, _, rfl⟩ | ⟨_, rfl⟩ <;> rfl
    | ok files => exact Or.inr ⟨checked, files, rfl, rfl, found⟩

/-- A command prints what its record tells. -/
theorem printed_record (session : Session State) (command : Command) (machine : Machine State) :
    Event.printed (session.record command machine).events =
      (session.record command machine).value.story (session.listing? command machine) := by
  rcases session.listing?_cases command machine with
    ⟨error, nothing, same, -⟩ | ⟨checked, files, found, accepted, listed⟩
  · unfold record
    rw [nothing, same]
    rfl
  · have told := session.printed_visitAll checked.verb files machine
    rw [record_of_listed accepted listed, found]
    dsimp only at told ⊢
    have closing : ∀ error? : Option CommandFailure,
        Event.printed ((error?.map (Event.commandFailed command.verb)).toList ++ [.commandEnd]) =
          (error?.map (Event.commandFailed command.verb)).toList ++ [.commandEnd] := by
      intro error?
      cases error? <;> rfl
    rw [← List.singleton_append, Event.printed_append, Event.printed_append, told, closing]
    simp only [CommandRecord.story, CommandRecord.unfinished?, CommandRecord.endedBuild,
      Option.map_some, Option.toList_some, Option.bind_some, List.append_assoc]
    rfl

/-- The line of an unfinished file is there exactly when the build of a file has ended the
command. -/
theorem isSome_unfinished? (session : Session State) (command : Command)
    (machine : Machine State) :
    ((session.listing? command machine).bind
        (session.record command machine).value.unfinished?).isSome =
      (session.record command machine).value.endedBuild := by
  rcases session.listing?_cases command machine with
    ⟨error, nothing, same, unbuilt⟩ | ⟨checked, files, found, accepted, listed⟩
  · unfold record CommandRecord.endedBuild
    rw [nothing, same]
    exact unbuilt.symm
  · obtain ⟨first, whole⟩ := (session.accounts_record command machine).inOrder _ _ accepted listed
    rw [found, Option.bind_some]
    unfold CommandRecord.unfinished?
    cases building : (session.record command machine).value.endedBuild with
    | false => rfl
    | true =>
      have failed : (session.record command machine).value.error? ≠ none := by
        intro none
        unfold CommandRecord.endedBuild at building
        rw [none] at building
        cases building
      have shorter : (session.record command machine).value.files.length < files.length := by
        refine Nat.lt_of_not_le fun long => failed (whole.mp (first.eq_of_length_le ?_))
        rwa [List.length_map]
      rw [if_pos rfl, List.getElem?_eq_getElem shorter]
      rfl

end Session

/-! ### Counting lines -/

namespace Event

/-- The line of a file whose output is current. -/
def tellsCurrent (event : Event) : Bool := event.isFile && event.endsCurrent

/-- The line of a file that is going to be built. -/
def tellsBuild (event : Event) : Bool := event.isFile && !event.endsCurrent

theorem tellsCurrent_file (relative output : Path) (decision : Decision) :
    (Event.file relative output decision).tellsCurrent = (decision == .upToDate) := by
  unfold tellsCurrent
  rw [endsCurrent_file]
  rfl

theorem tellsBuild_file (relative output : Path) (decision : Decision) :
    (Event.file relative output decision).tellsBuild = (decision == .rebuild) := by
  unfold tellsBuild
  rw [endsCurrent_file]
  cases decision <;> rfl

/-- What is no line of a file does not count. -/
theorem countP_of_noFile {events : List Event} (others : ∀ event ∈ events, event.isFile = false) :
    events.countP tellsCurrent = 0 ∧ events.countP tellsBuild = 0 := by
  constructor <;>
  · refine List.countP_eq_zero.mpr fun event member => ?_
    simp [tellsCurrent, tellsBuild, others event member]

end Event

namespace CommandRecord

/-- The line of an unfinished file says that it is going to be built. -/
theorem unfinished?_eq_some {record : CommandRecord} {listing : Listing} {event : Event}
    (line : record.unfinished? listing = some event) :
    ∃ relative output, event = .file relative output .rebuild := by
  unfold unfinished? at line
  split at line
  · obtain ⟨relative, -, rfl⟩ := Option.map_eq_some_iff.mp line
    exact ⟨relative, _, rfl⟩
  · cases line

/-- A story has a line for every file completed, by its decision, and one for an unfinished file. -/
theorem countP_story (record : CommandRecord) (listing? : Option Listing) :
    (record.story listing?).countP Event.tellsCurrent =
        record.files.countP (·.decision == .upToDate) ∧
      (record.story listing?).countP Event.tellsBuild =
        record.files.countP (·.decision == .rebuild) +
          (listing?.bind record.unfinished?).toList.length := by
  have current : Event.tellsCurrent ∘ Completion.event = (·.decision == .upToDate) := by
    funext completion
    rw [Function.comp_apply, Completion.event, Event.tellsCurrent_file]
  have build : Event.tellsBuild ∘ Completion.event = (·.decision == .rebuild) := by
    funext completion
    rw [Function.comp_apply, Completion.event, Event.tellsBuild_file]
  have summary : ∀ event ∈ (listing?.map Listing.summary).toList, event.isFile = false := by
    cases listing? with
    | none => exact nofun
    | some listing => exact fun _ member => List.mem_singleton.mp member ▸ rfl
  have failure : ∀ event ∈ (record.error?.map (Event.commandFailed record.verb)).toList,
      event.isFile = false := by
    cases record.error? with
    | none => exact nofun
    | some error => exact fun _ member => List.mem_singleton.mp member ▸ rfl
  have closing : ∀ event ∈ [Event.commandEnd], event.isFile = false :=
    fun _ member => List.mem_singleton.mp member ▸ rfl
  have unfinished : (listing?.bind record.unfinished?).toList.countP Event.tellsCurrent = 0 ∧
      (listing?.bind record.unfinished?).toList.countP Event.tellsBuild =
        (listing?.bind record.unfinished?).toList.length := by
    cases line : listing?.bind record.unfinished? with
    | none => exact ⟨rfl, rfl⟩
    | some event =>
      obtain ⟨listing, -, same⟩ := Option.bind_eq_some_iff.mp line
      obtain ⟨relative, output, rfl⟩ := unfinished?_eq_some same
      simp [Event.tellsCurrent_file, Event.tellsBuild_file]
  unfold story
  simp only [List.countP_append, List.countP_map, current, build, unfinished,
    Event.countP_of_noFile summary, Event.countP_of_noFile failure, Event.countP_of_noFile closing,
    Nat.zero_add, Nat.add_zero, and_self]

end CommandRecord

theorem RunRecord.count_cons (first : CommandRecord) (rest : RunRecord) (decision : Decision) :
    count (first :: rest) decision =
      first.files.countP (·.decision == decision) + count rest decision := by
  unfold count
  rw [List.flatMap_cons, List.countP_append]

namespace Session

/-! ### The lines of a run -/

/-- A script prints what the record of its first command tells, and then what the rest prints. -/
theorem printed_runCommands_cons (session : Session State) (command : Command) (rest : Script)
    (machine : Machine State) :
    Event.printed (session.runCommands (command :: rest) machine).events =
      (session.record command machine).value.story (session.listing? command machine) ++
        Event.printed
          (session.runCommands rest (session.record command machine).machine).events := by
  rw [← printed_record, ← Event.printed_append]
  rfl

/-- The commands of a script print, one after the other, what their records tell. -/
theorem printed_runCommands (session : Session State) (script : Script) (machine : Machine State) :
    Event.printed (session.runCommands script machine).events =
      (List.zipWith CommandRecord.story (session.runCommands script machine).value
        (session.listings script machine)).flatten := by
  induction script generalizing machine with
  | nil => rfl
  | cons command rest inductionHypothesis =>
    rw [printed_runCommands_cons, inductionHypothesis]
    rfl

/-- Each command has its own finding. -/
theorem length_listings (session : Session State) (script : Script) (machine : Machine State) :
    (session.runCommands script machine).value.length =
      (session.listings script machine).length := by
  induction script generalizing machine with
  | nil => rfl
  | cons command rest inductionHypothesis =>
    unfold listings
    rw [(runCommands_cons command rest machine).1, List.length_cons, List.length_cons,
      inductionHypothesis]

/-- Unfinished files are there for just the commands that the build of a file has ended. -/
theorem unfinished_runCommands (session : Session State) (script : Script)
    (machine : Machine State) :
    List.zipWith (fun record listing? => (listing?.bind record.unfinished?).isSome)
        (session.runCommands script machine).value (session.listings script machine) =
      (session.runCommands script machine).value.map CommandRecord.endedBuild := by
  induction script generalizing machine with
  | nil => rfl
  | cons command rest inductionHypothesis =>
    unfold listings
    rw [(runCommands_cons command rest machine).1, List.zipWith_cons_cons, List.map_cons,
      isSome_unfinished?, inductionHypothesis]

/-- The lines of the files, counted in the report. -/
theorem countP_runCommands (session : Session State) (script : Script) (machine : Machine State) :
    let effect := session.runCommands script machine
    (Event.printed effect.events).countP Event.tellsCurrent = effect.value.upToDate ∧
      (Event.printed effect.events).countP Event.tellsBuild =
        effect.value.rebuilt + effect.value.countP CommandRecord.endedBuild := by
  induction script generalizing machine with
  | nil => exact ⟨rfl, rfl⟩
  | cons command rest inductionHypothesis =>
    obtain ⟨idle, due⟩ := (session.record command machine).value.countP_story
      (session.listing? command machine)
    obtain ⟨idleBehind, dueBehind⟩ := inductionHypothesis (session.record command machine).machine
    rw [Option.length_toList, session.isSome_unfinished? command machine] at due
    dsimp only at idleBehind dueBehind ⊢
    rw [printed_runCommands_cons, (runCommands_cons command rest machine).1, List.countP_append,
      List.countP_append, idle, due, idleBehind, dueBehind]
    unfold RunRecord.upToDate RunRecord.rebuilt
    rw [RunRecord.count_cons, RunRecord.count_cons, List.countP_cons]
    exact ⟨rfl, by omega⟩

/-- The log and the report of a run tell the same story. Command by command, what the program prints
is what the record tells: the summary of the files found, when there is one; the line of each file
completed, in order; the line of one more file, just when its build has ended the command; the
error, when there is one; and an empty line. Then the run says that it is done. So the lines that
say that an output is current are as many as the files that were up to date; the other lines of
files are as many as the files built and the commands that a build has ended. -/
theorem runText_tells (session : Session State) (text : Text) (machine : Machine State) :
    let effect := session.runText text machine
    let told := Event.printed effect.events
    let found := session.listings (Script.ofText text) machine
    effect.value.length = found.length ∧
      told = (List.zipWith CommandRecord.story effect.value found).flatten ++ [.done] ∧
      effect.events.getLast? = some .done ∧
      List.zipWith (fun record listing? => (listing?.bind record.unfinished?).isSome)
          effect.value found =
        effect.value.map CommandRecord.endedBuild ∧
      told.countP Event.tellsCurrent = effect.value.upToDate ∧
      told.countP Event.tellsBuild =
        effect.value.rebuilt + effect.value.countP CommandRecord.endedBuild := by
  intro effect told found
  have lines : told =
      Event.printed (session.runCommands (Script.ofText text) machine).events ++ [.done] :=
    Event.printed_append ..
  obtain ⟨idle, due⟩ := session.countP_runCommands (Script.ofText text) machine
  refine ⟨session.length_listings _ machine, ?_, List.getLast?_concat,
    session.unfinished_runCommands _ machine, ?_, ?_⟩
  · rw [lines, printed_runCommands]
    rfl
  · rw [lines, List.countP_append, idle]
    rfl
  · rw [lines, List.countP_append, due]
    rfl

end Session

end AssetPipeline
