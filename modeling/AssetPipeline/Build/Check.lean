/-
This file checks scripts without running them. The check of a command is also the first thing a
run does with it, so check and run agree on it.
-/

import AssetPipeline.Build.Failure
import AssetPipeline.Script.Command
import AssetPipeline.Script.Verb

namespace AssetPipeline

/-- A command whose verb exists and has as many parameters as it needs. -/
structure CheckedCommand where
  verb : Verb
  wildcard : Text
  label : Text
  deriving DecidableEq

/-- Check the verb and the number of parameters of a command. -/
def Command.check (command : Command) : Except CommandFailure CheckedCommand :=
  match Verb.ofKeyword? command.verb with
  | none => .error (.unknownVerb command.verb)
  | some verb =>
    match command.parameters with
    | [wildcard, label] => .ok ⟨verb, wildcard, label⟩
    | parameters => .error (.wrongCount command.verb verb.arity parameters.length)

/-- Something wrong with a line of a script. -/
structure Issue where
  line : Nat
  error : CommandFailure
  deriving DecidableEq

def Command.issue? (command : Command) : Option Issue :=
  match command.check with
  | .ok _ => none
  | .error error => some ⟨command.line, error⟩

/-- What is wrong with a script, in order. -/
def Script.issues (script : Script) : List Issue := script.filterMap Command.issue?

end AssetPipeline
