/-
This file holds the values of a settings file in the TOML format, and says how its statements
add to a table. A table remembers how it came to be, because that decides what may be added to
it later: dotted keys end in a table that dotted keys made, and only pass through tables that
nobody has given a header; a table that was only passed through on the way to another may still
get its header; an inline table is complete.
-/

import AssetPipeline.Toml.Real

namespace AssetPipeline.Toml

/-- How a table came to be. -/
inductive TableKind where
  /-- By its header. -/
  | headed
  /-- As a step on the way of some other table's header. -/
  | passed
  /-- As a step of a dotted key. -/
  | dotted
  /-- In braces. -/
  | inline
  deriving DecidableEq

/-- A value. -/
inductive Value where
  | string (text : Text)
  /-- A whole number; none when its text has no value. -/
  | integer (number? : Option Int)
  | real (literal : RealLiteral)
  | boolean (value : Bool)
  /-- A date, a time, or both. -/
  | moment
  | array (items : List Value)
  /-- An array of tables, each with a header of its own. -/
  | tables (items : List (List (Text × Value)))
  | table (kind : TableKind) (entries : List (Text × Value))

/-- The entries of a table, in the order they were added. -/
abbrev Entries := List (Text × Value)

namespace Entries

/-- The entries with another value for a key. -/
def replace (entries : Entries) (key : Text) (value : Value) : Entries :=
  entries.map fun entry => if entry.1 = key then (key, value) else entry

/-- One step down into a table: its key, and whether the step is written with a dot. -/
structure Step where
  key : Text
  isDotted : Bool

/-- Change the table that steps lead to, making the tables on the way. `kind` tells how the table
that the steps start from came to be. The last table of an array of tables has a header. -/
def change (act : TableKind → Entries → Option Entries) :
    List Step → TableKind → Entries → Option Entries
  | [], kind, entries => act kind entries
  | step :: rest, _, entries =>
    match entries.lookup step.key with
    | none =>
      let kind := if step.isDotted then TableKind.dotted else .passed
      (change act rest kind []).map fun inner => entries ++ [(step.key, .table kind inner)]
    | some (.table kind inner) =>
      if kind = .inline ∨ (step.isDotted ∧ kind = .headed) then none
      else
        (change act rest kind inner).map fun inner =>
          entries.replace step.key (.table kind inner)
    | some (.tables items) =>
      match items.getLast? with
      | none => none
      | some inner =>
        (change act rest .headed inner).map fun inner =>
          entries.replace step.key (.tables (items.dropLast ++ [inner]))
    | some _ => none

/-- Add a key that is not there yet. A key behind a dot, and only such a key, goes into a table
that dotted keys made. -/
def add (isBehindDot : Bool) (key : Text) (value : Value) (kind : TableKind) (entries : Entries) :
    Option Entries :=
  if isBehindDot = (kind == .dotted) then
    match entries.lookup key with
    | none => some (entries ++ [(key, value)])
    | some _ => none
  else none

/-- Give a table its header. -/
def addHeader (key : Text) (_ : TableKind) (entries : Entries) : Option Entries :=
  match entries.lookup key with
  | none => some (entries ++ [(key, .table .headed [])])
  | some (.table .passed inner) => some (entries.replace key (.table .headed inner))
  | some _ => none

/-- Begin one more table of an array of tables. -/
def addTable (key : Text) (_ : TableKind) (entries : Entries) : Option Entries :=
  match entries.lookup key with
  | none => some (entries ++ [(key, .tables [[]])])
  | some (.tables items) => some (entries.replace key (.tables (items ++ [[]])))
  | some _ => none

/-- The steps of keys that are all written alike. -/
def steps (isDotted : Bool) (keys : List Text) : List Step := keys.map (⟨·, isDotted⟩)

end Entries

end AssetPipeline.Toml
