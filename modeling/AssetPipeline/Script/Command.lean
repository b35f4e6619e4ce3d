/-
This file reads build scripts. Every line that is not blank once its comment is taken off is one
command: a verb, a space, and the parameters. A comment runs from the first `//` or `#`, whatever
stands around it, to the end of the line. Commands carry the number of their line, from one.
-/

import AssetPipeline.Script.Parameters
import AssetPipeline.Text.Lines

namespace AssetPipeline

/-- One command of a script, as written. -/
structure Command where
  /-- The number of its line, from one. -/
  line : Nat
  verb : Text
  parameters : List Text
  deriving DecidableEq

/-- A script: its commands in order. -/
abbrev Script := List Command

namespace Script

/-- The two ways a comment can start. -/
def slashes : Text := ['/', '/']

def withoutComment (line : Text) : Text :=
  (Text.before slashes line).takeWhile (· != '#')

/-- The command on a line, if there is one. -/
def commandOfLine? (number : Nat) (line : Text) : Option Command :=
  match (withoutComment line).trim with
  | [] => none
  | written =>
    some {
      line := number
      verb := written.takeWhile (· != ' ')
      parameters := Parameters.split ((written.dropWhile (· != ' ')).drop 1) }

/-- The commands on these lines, the first of which has this number. -/
def ofLines (number : Nat) : List Text → Script
  | [] => []
  | line :: rest => (commandOfLine? number line).toList ++ ofLines (number + 1) rest

/-- The commands of a script text, in order. -/
def ofText (text : Text) : Script := ofLines 1 text.lines

end Script

end AssetPipeline
