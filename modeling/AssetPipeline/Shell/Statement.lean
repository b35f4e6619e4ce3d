/-
This file holds the statements of shell scripts. Statements that complain, or that set the line
number for what they run, know the line they begin on.
-/

import AssetPipeline.Shell.Word

namespace AssetPipeline.Shell

/-- A command without structure. -/
structure SimpleCommand where
  line : Nat
  assignments : List (Text × Word)
  words : List Word
  redirections : List Redirection

/-- The command with texts of the script for their numbers. -/
def SimpleCommand.fill (documents : List Word) (command : SimpleCommand) : SimpleCommand :=
  { command with redirections := command.redirections.map (·.fill documents) }

/-- A statement of a script. -/
inductive Statement where
  /-- Nothing, which leaves everything as it is. -/
  | idle
  | simple (command : SimpleCommand)
  /-- With success and failure exchanged. -/
  | negated (body : Statement)
  | sequence (first second : Statement)
  /-- The second only if the first succeeds. -/
  | both (first second : Statement)
  /-- The second only if the first fails. -/
  | either (first second : Statement)
  /-- The second reads what the first prints. -/
  | pipe (first second : Statement)
  /-- Beside the statements that follow. -/
  | background (line : Nat) (body : Statement) (redirections : List Redirection)
  /-- In a shell of its own. -/
  | subshell (line : Nat) (body : Statement) (redirections : List Redirection)
  | redirected (line : Nat) (body : Statement) (redirections : List Redirection)
  /-- Without another branch, nothing is done when the condition fails. -/
  | choice (condition yes no : Statement)
  /-- As long as the condition succeeds or, with `negative`, fails. -/
  | loop (negative : Bool) (condition body : Statement)
  /-- Once for each field of the words. -/
  | each (line : Nat) (name : Text) (words : List Word) (body : Statement)
  /-- The first branch that the word matches. -/
  | select (line : Nat) (word : Word) (branches : Statement)
  /-- If the word selected for matches one of the patterns, the body, and otherwise the rest. -/
  | branch (patterns : List Word) (body rest : Statement)
  /-- From now on a name stands for the body. -/
  | define (line : Nat) (name : Text) (body : Statement)

namespace Statement

/-- The statement with texts of the script for their numbers. -/
def fill (documents : List Word) : Statement → Statement
  | .idle => .idle
  | .simple command => .simple (command.fill documents)
  | .negated body => .negated (fill documents body)
  | .sequence first second => .sequence (fill documents first) (fill documents second)
  | .both first second => .both (fill documents first) (fill documents second)
  | .either first second => .either (fill documents first) (fill documents second)
  | .pipe first second => .pipe (fill documents first) (fill documents second)
  | .background line body redirections =>
    .background line (fill documents body) (redirections.map (·.fill documents))
  | .subshell line body redirections =>
    .subshell line (fill documents body) (redirections.map (·.fill documents))
  | .redirected line body redirections =>
    .redirected line (fill documents body) (redirections.map (·.fill documents))
  | .choice condition yes no =>
    .choice (fill documents condition) (fill documents yes) (fill documents no)
  | .loop negative condition body =>
    .loop negative (fill documents condition) (fill documents body)
  | .each line name words body => .each line name words (fill documents body)
  | .select line word branches => .select line word (fill documents branches)
  | .branch patterns body rest =>
    .branch patterns (fill documents body) (fill documents rest)
  | .define line name body => .define line name (fill documents body)

/-- Is there nothing to run? -/
def isIdle : Statement → Bool
  | .idle => true
  | _ => false

end Statement

end AssetPipeline.Shell
