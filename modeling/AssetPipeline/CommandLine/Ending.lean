/-
This file says how a program ends: what it printed, its exit code, and the file tree it leaves.
An error that stops a program is reported with its causes. A single cause stands indented below
the words of the error; several are numbered.
-/

import AssetPipeline.Build.Log
import AssetPipeline.CommandLine.Arguments
import AssetPipeline.FileTree.Basic

namespace AssetPipeline.CommandLine

/-- The end of a program. -/
structure Ending where
  code : Nat
  output : String
  errors : String
  tree : FileTree

/-- A cause, every line of it indented, the first with its number if it has one. -/
def indented (number? : Option Nat) (cause : String) : String :=
  let digits := (number?.map toString).getD ""
  let lead :=
    match number? with
    | some _ => "".pushn ' ' (5 - digits.length) ++ digits ++ ": "
    | none => "    "
  let margin := if number?.isSome then "       " else "    "
  lead ++ ("\n" ++ margin).intercalate (cause.splitOn "\n")

/-- The report of an error, given the words of the error and of its causes. -/
def fatalReport : List String → String
  | [] => ""
  | [error] => s!"Error: {error}\n"
  | [error, cause] => s!"Error: {error}\n\nCaused by:\n{indented none cause}\n"
  | error :: causes =>
    let numbered := causes.zipIdx.map fun (cause, number) => indented (some number) cause
    let listed := "\n".intercalate numbered
    s!"Error: {error}\n\nCaused by:\n{listed}\n"

namespace Ending

/-- The code of a program that did what was asked. -/
def successCode : Nat := 0

/-- The code of a program that was stopped by an error. -/
def failureCode : Nat := 1

/-- The code of a program that was asked for something it does not know. -/
def misuseCode : Nat := 2

/-- The end of a program that did what was asked. -/
def success (output : String) (tree : FileTree) : Ending := ⟨successCode, output, "", tree⟩

/-- The end of a program that was stopped by an error, which has these causes. -/
def fatal (output : String) (causes : List String) (tree : FileTree) : Ending :=
  ⟨failureCode, output, fatalReport causes, tree⟩

/-- The end of a program whose arguments ask for nothing to be done. -/
def halted (usage version : String) (tree : FileTree) : Halt → Ending
  | .misuse => ⟨misuseCode, "", usage, tree⟩
  | .help => .success usage tree
  | .version => .success version tree

end Ending

/-- Is a diagnostic line shown? The debugging lines only are when asked for. -/
def isShown (verbose : Bool) (diagnostic : Diagnostic) : Bool :=
  verbose || diagnostic.severity != .debug

def shownLines (verbose : Bool) (diagnostics : List Diagnostic) : String :=
  String.join ((diagnostics.filter (isShown verbose)).map Diagnostic.line)

/-- Everything that events print. -/
def console (verbose : Bool) (events : List Event) : String :=
  String.join (events.map fun event => event.text ++ shownLines verbose event.diagnostics)

end AssetPipeline.CommandLine
