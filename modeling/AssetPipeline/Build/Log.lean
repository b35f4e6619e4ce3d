/-
This file writes events out. `Event.text` is what an event adds to the log of a run;
`Event.diagnostics` are the lines meant for whoever looks for the cause of a problem.
-/

import AssetPipeline.Build.Effect

namespace AssetPipeline

/-- How much a diagnostic line matters. -/
inductive Severity where
  | debug
  | info
  | warning
  deriving DecidableEq

def Severity.word : Severity → String
  | .debug => "DEBUG"
  | .info => "INFO"
  | .warning => "WARN"

/-- A diagnostic line: how much it matters, which part of the program it comes from, and what it
says. -/
structure Diagnostic where
  severity : Severity
  origin : String
  words : String

/-- A character of a diagnostic. Those that could make a terminal act are shown by their codes. -/
def Diagnostic.escape (character : Char) : Text :=
  if character = '\x07' then ['\\', 'x', '0', '7']
  else if character = '\x08' then ['\\', 'x', '0', '8']
  else if character = '\x0c' then ['\\', 'x', '0', 'c']
  else if character = '\x1b' then ['\\', 'x', '1', 'b']
  else if character = '\x7f' then ['\\', 'x', '7', 'f']
  else if 0x80 ≤ character.toNat ∧ character.toNat ≤ 0x9F then
    ['\\', 'u', '{'] ++ Nat.toDigits 16 character.toNat ++ ['}']
  else [character]

def Diagnostic.line (diagnostic : Diagnostic) : String :=
  let words := String.ofList (diagnostic.words.toList.flatMap escape)
  s!"{diagnostic.severity.word} {diagnostic.origin}: {words}\n"

namespace Event

/-- What the log adds to a file that is up to date. -/
def currentMark : Decision → String
  | .rebuild => ""
  | .upToDate => " -> already up-to date"

/-- What an event adds to the log. -/
def text : Event → String
  | .toolsFound _ | .launch _ | .toolComplaint _ | .scratchKept .. => ""
  | .summary verb wildcard count label =>
    s!"{verb.title} [{Path.shownAsSource ⟨wildcard⟩}, {count} files] => " ++
      s!"[{Path.shownAsOutput ⟨label⟩}]\n"
  | .file relative output decision =>
    s!"  [{relative.shownAsSource}] => [{output.shownAsOutput}]{currentMark decision}\n"
  | .toolOutput printed => String.ofList printed
  | .alreadyMono source => s!"Wave file {source} is already mono, not downmixing...\n"
  | .commandFailed verb error => s!"Error executing command [{String.ofList verb}]: {error}\n"
  | .commandEnd => "\n"
  | .done => "Done.\n"

/-- The part of the program that launches tools, as diagnostics name it. -/
def transcodeOrigin : String := "build_data::transcode"

def diagnostics : Event → List Diagnostic
  | .toolsFound toolbox =>
    [⟨.debug, transcodeOrigin, s!"Ogg encoder: {toolbox.oggEncoder}"⟩,
      ⟨.debug, transcodeOrigin, s!"MP3 decoder: {toolbox.mp3Decoder}"⟩]
  | .launch job => [⟨.debug, transcodeOrigin, s!"Running {job.written}"⟩]
  | .scratchKept path fault =>
    [⟨.warning, transcodeOrigin, s!"Failed to remove intermediate file {path}: {fault}"⟩]
  | _ => []

def logText (events : List Event) : String := String.join (events.map text)

/-- The jobs of a run, in order. -/
def jobs (events : List Event) : List Job :=
  events.filterMap fun
    | .launch job => some job
    | _ => none

end Event

end AssetPipeline
