/-
This file runs the external tools on one file.

What a launch does is up to a runner, which may change the file tree and keep a state of its own;
nothing is assumed about it here. A wave file is encoded once, and once more without mixing down
when the encoder was to mix down and says that its input is mono already. An mp3 file is decoded
to a wave file beside the target, which is encoded and then removed, whatever happened.
-/

import AssetPipeline.Build.Effect

namespace AssetPipeline

/-- What one launch did. -/
structure Launch (State : Type) where
  /-- How the process ended, or why there was none. -/
  outcome : Except Fault ExitCode
  printed : Text
  /-- What it printed as errors. -/
  complained : Text
  machine : Machine State

/-- A way of running the external tools. -/
structure Runner (State : Type) where
  launch : Job → Machine State → Launch State

namespace Toolbox

variable {State : Type}

def launch (runner : Runner State) (job : Job) (machine : Machine State) :
    Effect State (Except CommandFailure ExitCode) :=
  let launched := runner.launch job machine
  let printed := if launched.printed = [] then [] else [Event.toolOutput launched.printed]
  let complained :=
    if launched.complained = [] then [] else [Event.toolComplaint launched.complained]
  let value :=
    match launched.outcome with
    | .error fault => .error (.notLaunched job.executable fault)
    | .ok code => .ok code
  ⟨value, .launch job :: (printed ++ complained), launched.machine⟩

/-- The error of a job that ended like this. -/
def failure (job : Job) (code : ExitCode) : CommandFailure := .toolFailed job.tool code

/-- Encode a wave file as it is. -/
def encode (toolbox : Toolbox) (runner : Runner State) (source target : Path)
    (machine : Machine State) : Effect State (Except CommandFailure Unit) :=
  let job := toolbox.encodeJob source target false
  (launch runner job machine).andThen fun code machine =>
    match EncoderExit.ofCode code false with
    | .success => .pure (.ok ()) machine
    | _ => .pure (.error (failure job code)) machine

/-- Encode a wave file mixed down to one channel, or as it is when that is what it has. -/
def encodeMono (toolbox : Toolbox) (runner : Runner State) (source target : Path)
    (machine : Machine State) : Effect State (Except CommandFailure Unit) :=
  let job := toolbox.encodeJob source target true
  (launch runner job machine).andThen fun code machine =>
    match EncoderExit.ofCode code true with
    | .success => .pure (.ok ()) machine
    | .alreadyMono => (toolbox.encode runner source target machine).after [.alreadyMono source]
    | .failed code => .pure (.error (failure job code)) machine

def encodeWave (toolbox : Toolbox) (runner : Runner State) (source target : Path) (downmix : Bool)
    (machine : Machine State) : Effect State (Except CommandFailure Unit) :=
  if downmix then toolbox.encodeMono runner source target machine
  else toolbox.encode runner source target machine

/-- Decode an mp3 file to a wave file. -/
def decodeMp3 (toolbox : Toolbox) (runner : Runner State) (source target : Path)
    (machine : Machine State) : Effect State (Except CommandFailure Unit) :=
  let job := toolbox.decodeJob source target
  (launch runner job machine).andThen fun code machine =>
    if code = some 0 then .pure (.ok ()) machine
    else .pure (.error (failure job code)) machine

def waveExtension : Text := ['w', 'a', 'v']

/-- The wave file between decoder and encoder. -/
def scratchOf (target : Path) : Path := target.withExtension waveExtension

/-- Remove the wave file between decoder and encoder, if there is one. -/
def removeScratch (scratch : Path) (machine : Machine State) : Effect State Unit :=
  match machine.tree.removeFile scratch with
  | .ok tree => .pure () { machine with tree := tree }
  | .error .notFound => .pure () machine
  | .error fault => ⟨(), [.scratchKept scratch fault], machine⟩

/-- Decode an mp3 file and encode what comes out. -/
def convertMp3 (toolbox : Toolbox) (runner : Runner State) (source target : Path)
    (machine : Machine State) : Effect State (Except CommandFailure Unit) :=
  let scratch := scratchOf target
  let effect := (toolbox.decodeMp3 runner source scratch machine).andThen fun _ machine =>
    toolbox.encode runner scratch target machine
  effect.bind fun value machine => (removeScratch scratch machine).map fun _ => value

end Toolbox

end AssetPipeline
