/-
This file says how the steps of a build act. A step starts from a machine, which is the file tree
together with whatever state the runner of tools keeps, and ends with a value, the events it
reported on the way, and the machine it leaves. Steps are put together in order: the machine goes
from one to the next, and the events follow each other.
-/

import AssetPipeline.Build.Freshness
import AssetPipeline.Build.Output
import AssetPipeline.Script.Verb
import AssetPipeline.Tool.Job

namespace AssetPipeline

/-- Something that a build reports while it runs. -/
inductive Event where
  /-- The tools were looked up. -/
  | toolsFound (toolbox : Toolbox)
  /-- A command found its files. -/
  | summary (verb : Verb) (wildcard : Text) (count : Nat) (label : Text)
  /-- A file is about to be built, or is up to date. -/
  | file (relative output : Path) (decision : Decision)
  /-- A tool is about to be launched. -/
  | launch (job : Job)
  /-- A tool printed something. -/
  | toolOutput (text : Text)
  /-- A tool printed something as an error. -/
  | toolComplaint (text : Text)
  /-- A file is encoded once more, as the encoder found it to be mono. -/
  | alreadyMono (source : Path)
  /-- The wave between decoder and encoder could not be removed. -/
  | scratchKept (path : Path) (fault : Fault)
  | commandFailed (verb : Text) (error : CommandFailure)
  | commandEnd
  /-- The run is over. -/
  | done
  deriving DecidableEq

/-- What a step acts on: the file tree, and the state of the runner of tools. -/
structure Machine (State : Type) where
  tree : FileTree
  runner : State

/-- What a step did. -/
structure Effect (State Value : Type) where
  value : Value
  events : List Event
  machine : Machine State

namespace Effect

variable {State Value Result Error : Type}

/-- Nothing but a value. -/
def pure (value : Value) (machine : Machine State) : Effect State Value :=
  ⟨value, [], machine⟩

def after (events : List Event) (effect : Effect State Value) : Effect State Value :=
  { effect with events := events ++ effect.events }

def map (change : Value → Result) (effect : Effect State Value) : Effect State Result :=
  ⟨change effect.value, effect.events, effect.machine⟩

/-- Go on from the machine an effect leaves. -/
def bind (effect : Effect State Value) (next : Value → Machine State → Effect State Result) :
    Effect State Result :=
  (next effect.value effect.machine).after effect.events

/-- Go on when the effect succeeded; an error ends the step. -/
def andThen (effect : Effect State (Except Error Value))
    (next : Value → Machine State → Effect State (Except Error Result)) :
    Effect State (Except Error Result) :=
  match effect.value with
  | .error error => ⟨.error error, effect.events, effect.machine⟩
  | .ok value => (next value effect.machine).after effect.events

end Effect

end AssetPipeline
