/-
This file lists the courses that a visit can take. It ends before anything is built when there is no
room for the output, or when the output is current. Else the output is produced and then given the
time of its source, and either of the two may fail. Every fact about what a visit does is a case
analysis on its course.
-/

import AssetPipeline.Build.Log
import AssetPipeline.Build.Run

namespace AssetPipeline

theorem Event.jobs_append (first second : List Event) :
    jobs (first ++ second) = jobs first ++ jobs second :=
  List.filterMap_append

namespace Effect

variable {State Value Result Error : Type}

theorem andThen_of_ok {effect : Effect State (Except Error Value)}
    {next : Value → Machine State → Effect State (Except Error Result)} {value : Value}
    (succeeded : effect.value = .ok value) :
    effect.andThen next = (next value effect.machine).after effect.events := by
  unfold andThen
  rw [succeeded]

theorem andThen_of_error {effect : Effect State (Except Error Value)}
    {next : Value → Machine State → Effect State (Except Error Result)} {error : Error}
    (failed : effect.value = .error error) :
    effect.andThen next = ⟨.error error, effect.events, effect.machine⟩ := by
  unfold andThen
  rw [failed]

/-- Two steps succeed when the first does and the second does from where the first ended. -/
theorem andThen_eq_ok {effect : Effect State (Except Error Value)}
    {next : Value → Machine State → Effect State (Except Error Result)} {result : Result}
    (succeeded : (effect.andThen next).value = .ok result) :
    ∃ value, effect.value = .ok value ∧
      effect.andThen next = (next value effect.machine).after effect.events ∧
      (next value effect.machine).value = .ok result := by
  cases first : effect.value with
  | error error =>
    rw [andThen_of_error first] at succeeded
    cases succeeded
  | ok value =>
    have whole : effect.andThen next = (next value effect.machine).after effect.events :=
      andThen_of_ok first
    rw [whole] at succeeded
    exact ⟨value, rfl, whole, succeeded⟩

/-- A step of two parts preserves what each of them does. -/
theorem andThen_preserves {Holds : Machine State → Prop}
    {effect : Effect State (Except Error Value)}
    {next : Value → Machine State → Effect State (Except Error Result)}
    (first : Holds effect.machine)
    (second : ∀ value machine, Holds machine → Holds (next value machine).machine) :
    Holds (effect.andThen next).machine := by
  cases ended : effect.value with
  | error error =>
    rw [andThen_of_error ended]
    exact first
  | ok value =>
    rw [andThen_of_ok ended]
    exact second value _ first

theorem jobs_after (effect : Effect State Value) (events : List Event) :
    Event.jobs (effect.after events).events = Event.jobs events ++ Event.jobs effect.events :=
  Event.jobs_append _ _

/-- Two steps launch what each of them does. -/
theorem andThen_launches {Expected : Job → Prop} {effect : Effect State (Except Error Value)}
    {next : Value → Machine State → Effect State (Except Error Result)}
    (first : ∀ job ∈ Event.jobs effect.events, Expected job)
    (second : ∀ value machine, ∀ job ∈ Event.jobs (next value machine).events, Expected job) :
    ∀ job ∈ Event.jobs (effect.andThen next).events, Expected job := by
  cases ended : effect.value with
  | error error =>
    rw [andThen_of_error ended]
    exact first
  | ok value =>
    rw [andThen_of_ok ended]
    intro job member
    rw [jobs_after] at member
    rcases List.mem_append.mp member with early | late
    · exact first job early
    · exact second value _ job late

/-- A second step that launches nothing adds nothing to what the first launches. -/
theorem jobs_andThen_of_quiet {effect : Effect State (Except Error Value)}
    {next : Value → Machine State → Effect State (Except Error Result)}
    (quiet : ∀ value machine, Event.jobs (next value machine).events = []) :
    Event.jobs (effect.andThen next).events = Event.jobs effect.events := by
  cases ended : effect.value with
  | error error => rw [andThen_of_error ended]
  | ok value => rw [andThen_of_ok ended, jobs_after, quiet, List.append_nil]

/-- What the first of two steps launches is launched. -/
theorem mem_jobs_andThen {effect : Effect State (Except Error Value)}
    {next : Value → Machine State → Effect State (Except Error Result)} {job : Job}
    (member : job ∈ Event.jobs effect.events) : job ∈ Event.jobs (effect.andThen next).events := by
  cases ended : effect.value with
  | error error =>
    rw [andThen_of_error ended]
    exact member
  | ok value =>
    rw [andThen_of_ok ended, jobs_after]
    exact List.mem_append_left _ member

end Effect

namespace Session

variable {State : Type} (session : Session State) (verb : Verb) (relative : Path)
  (machine : Machine State)

/-- The machine once the directory of the output is made. -/
def withRoom : Machine State :=
  { machine with tree := (machine.tree.makeParent (session.targetOf verb relative)).1 }

/-- Producing the output, once its directory is made. -/
def producing : Effect State (Except CommandFailure Unit) :=
  session.produce verb (session.sourceOf relative) (session.targetOf verb relative)
    (session.withRoom verb relative machine)

/-- What to do about the output, once its directory is made. -/
def decisionOf : Decision :=
  (session.withRoom verb relative machine).tree.decision (session.sourceOf relative)
    (session.targetOf verb relative)

/-- The courses of a visit, each with what the visit answers and the machine it leaves. -/
inductive Course : Except CommandFailure Completion → Machine State → Prop where
  | noRoom {error : CommandFailure}
      (room : (machine.tree.makeParent (session.targetOf verb relative)).2 = .error error) :
      Course (.error error) (session.withRoom verb relative machine)
  | current (room : (machine.tree.makeParent (session.targetOf verb relative)).2 = .ok ())
      (decided : session.decisionOf verb relative machine = .upToDate) :
      Course (.ok ⟨relative, outputOf verb relative, .upToDate⟩)
        (session.withRoom verb relative machine)
  | notProduced {error : CommandFailure}
      (room : (machine.tree.makeParent (session.targetOf verb relative)).2 = .ok ())
      (decided : session.decisionOf verb relative machine = .rebuild)
      (produced : (session.producing verb relative machine).value = .error error) :
      Course (.error error) (session.producing verb relative machine).machine
  | notStamped {error : CommandFailure}
      (room : (machine.tree.makeParent (session.targetOf verb relative)).2 = .ok ())
      (decided : session.decisionOf verb relative machine = .rebuild)
      (produced : (session.producing verb relative machine).value = .ok ())
      (stamped : (session.producing verb relative machine).machine.tree.copyModified
        (session.sourceOf relative) (session.targetOf verb relative) = .error error) :
      Course (.error error) (session.producing verb relative machine).machine
  | rebuilt {later : FileTree}
      (room : (machine.tree.makeParent (session.targetOf verb relative)).2 = .ok ())
      (decided : session.decisionOf verb relative machine = .rebuild)
      (produced : (session.producing verb relative machine).value = .ok ())
      (stamped : (session.producing verb relative machine).machine.tree.copyModified
        (session.sourceOf relative) (session.targetOf verb relative) = .ok later) :
      Course (.ok ⟨relative, outputOf verb relative, .rebuild⟩)
        { (session.producing verb relative machine).machine with tree := later }

theorem visit_course : session.Course verb relative machine
    (session.visit verb relative machine).value (session.visit verb relative machine).machine := by
  unfold visit
  cases room : (machine.tree.makeParent (session.targetOf verb relative)).2 with
  | error error =>
    have failed : (makeRoom (session.targetOf verb relative) machine).value = .error error := room
    rw [Effect.andThen_of_error failed]
    exact .noRoom room
  | ok made =>
    have succeeded : (makeRoom (session.targetOf verb relative) machine).value = .ok made := room
    rw [Effect.andThen_of_ok succeeded]
    dsimp only [Effect.after]
    have entered : (makeRoom (session.targetOf verb relative) machine).machine =
      session.withRoom verb relative machine := rfl
    rw [entered]
    cases decided : (session.withRoom verb relative machine).tree.decision
        (session.sourceOf relative) (session.targetOf verb relative) with
    | upToDate => exact .current room decided
    | rebuild =>
      dsimp only [build]
      have produces : session.produce verb (session.sourceOf relative)
        (session.targetOf verb relative) (session.withRoom verb relative machine) =
          session.producing verb relative machine := rfl
      rw [produces]
      cases produced : (session.producing verb relative machine).value with
      | error error =>
        rw [Effect.andThen_of_error produced, Effect.andThen_of_error rfl]
        exact .notProduced room decided produced
      | ok done =>
        rw [Effect.andThen_of_ok produced]
        unfold stamp
        cases stamped : (session.producing verb relative machine).machine.tree.copyModified
            (session.sourceOf relative) (session.targetOf verb relative) with
        | error error =>
          exact .notStamped room decided produced stamped
        | ok later =>
          exact .rebuilt room decided produced stamped

variable {session verb relative machine}

/-- There is one course for a visit. -/
theorem Course.unique {value other : Except CommandFailure Completion} {left last : Machine State}
    (one : session.Course verb relative machine value left)
    (two : session.Course verb relative machine other last) : value = other ∧ left = last := by
  cases one <;> cases two <;> simp_all

/-- A visit for which a course has been found takes it. -/
theorem Course.visit_eq {value : Except CommandFailure Completion} {left : Machine State}
    (course : session.Course verb relative machine value left) :
    (session.visit verb relative machine).value = value ∧
      (session.visit verb relative machine).machine = left :=
  (session.visit_course verb relative machine).unique course

end Session

end AssetPipeline
