/-
This file reads a settings file in the TOML format: key and value statements, table headers,
headers of arrays of tables, and comments, one to a line. Values may be quoted, bare, or hold
other values in brackets or braces. A document is read only if every statement is well formed
and none says again what another has said.
-/

import AssetPipeline.Toml.Quoted
import AssetPipeline.Toml.Scalar

namespace AssetPipeline.Toml

/-- Behind spaces and tabs. -/
def skipSpacing (text : Text) : Text := text.dropWhile isSpacing

/-- Behind a comment at the front, which ends before the line end. -/
def afterComment? : Text → Option Text
  | '#' :: rest =>
    let comment := rest.takeWhile (· != '\n')
    let after := rest.dropWhile (· != '\n')
    let words := if after ≠ [] ∧ comment.getLast? = some '\r' then comment.dropLast else comment
    if words.all isPlain then some after else none
  | text => some text

/-- Behind the rest of a line: blanks, a comment, and the line end or the end of the text. -/
def afterLine? (text : Text) : Option Text :=
  match afterComment? (skipSpacing text) with
  | some ('\n' :: rest) => some rest
  | some ('\r' :: '\n' :: rest) => some rest
  | some [] => some []
  | _ => none

/-- Behind blanks, line ends and comments. -/
def skipLinesWithin : Nat → Text → Option Text
  | 0, text => some text
  | fuel + 1, text =>
    match skipSpacing text with
    | '\n' :: rest => skipLinesWithin fuel rest
    | '\r' :: '\n' :: rest => skipLinesWithin fuel rest
    | '#' :: rest =>
      match afterComment? ('#' :: rest) with
      | some after => skipLinesWithin fuel after
      | none => none
    | other => some other

/-- Behind blanks, line ends and comments. -/
def skipLines (text : Text) : Option Text := skipLinesWithin (text.length + 1) text

/-! ### Keys -/

def isBare (character : Char) : Bool :=
  ('a' ≤ character && character ≤ 'z') || ('A' ≤ character && character ≤ 'Z') ||
    ('0' ≤ character && character ≤ '9') || character == '_' || character == '-'

/-- A key without dots, and what stands behind it. -/
def simpleKey? (text : Text) : Option (Text × Text) :=
  match text with
  | '"' :: _ => quoted? text
  | '\'' :: _ => quoted? text
  | _ =>
    match text.takeWhile isBare with
    | [] => none
    | key => some (key, text.dropWhile isBare)

/-- Keys with dots between them, and what stands behind them and the blanks there. -/
def keysWithin : Nat → Text → Option (List Text × Text)
  | 0, _ => none
  | fuel + 1, text =>
    match simpleKey? (skipSpacing text) with
    | none => none
    | some (key, rest) =>
      match skipSpacing rest with
      | '.' :: more =>
        match keysWithin fuel more with
        | some (keys, after) => some (key :: keys, after)
        | none => none
      | after => some ([key], after)

/-- The number of keys that dots may join, and of arrays and inline tables that may stand inside
one another. -/
def nestingLimit : Nat := 80

/-- Keys with dots between them, and what stands behind them and the blanks there. -/
def keys? (text : Text) : Option (List Text × Text) :=
  match keysWithin (text.length + 1) text with
  | some (keys, after) => if keys.length ≤ nestingLimit then some (keys, after) else none
  | none => none

/-! ### Values -/

def endsBare (character : Char) : Bool :=
  isSpacing character || character == '\n' || character == '\r' || character == '#' ||
    character == ',' || character == ']' || character == '}' || character == '=' ||
    character == '[' || character == '{'

/-- A bare value and what stands behind it. A date may be followed by a space and a time. -/
def bare? (text : Text) : Option (Value × Text) :=
  let word := text.takeWhile (!endsBare ·)
  let rest := text.dropWhile (!endsBare ·)
  let (word, rest) :=
    match afterDate? word, rest with
    | some [], ' ' :: first :: more =>
      if first.isDigit then
        (word ++ ' ' :: (first :: more).takeWhile (!endsBare ·),
          (first :: more).dropWhile (!endsBare ·))
      else (word, rest)
    | _, _ => (word, rest)
  (scalar? word).map fun value => (value, rest)

/-- Add a value under dotted keys. -/
def addUnder (above : List Entries.Step) (keys : List Text) (value : Value) (entries : Entries) :
    Option Entries :=
  match keys.getLast? with
  | none => none
  | some last =>
    Entries.change (Entries.add (keys.dropLast != []) last value)
      (above ++ Entries.steps true keys.dropLast) .headed entries

mutual

/-- A value and what stands behind it. Inside it arrays and inline tables may stand `depth`
deep. -/
def valueWithin : Nat → Nat → Text → Option (Value × Text)
  | 0, _, _ => none
  | fuel + 1, depth, text =>
    match text with
    | '[' :: rest =>
      match depth with
      | 0 => none
      | depth + 1 =>
        match itemsWithin fuel depth rest with
        | some (items, after) => some (.array items, after)
        | none => none
    | '{' :: rest =>
      match depth with
      | 0 => none
      | depth + 1 =>
        match pairsWithin fuel depth [] rest with
        | some (entries, after) => some (.table .inline entries, after)
        | none => none
    | '"' :: _ => (string? text).map fun (words, after) => (.string words, after)
    | '\'' :: _ => (string? text).map fun (words, after) => (.string words, after)
    | _ => bare? text

/-- The items of an array up to its closing bracket, and what stands behind that. -/
def itemsWithin : Nat → Nat → Text → Option (List Value × Text)
  | 0, _, _ => none
  | fuel + 1, depth, text =>
    match skipLines text with
    | none => none
    | some (']' :: after) => some ([], after)
    | some other =>
      match valueWithin fuel depth other with
      | none => none
      | some (item, rest) =>
        match skipLines rest with
        | some (']' :: after) => some ([item], after)
        | some (',' :: more) =>
          match itemsWithin fuel depth more with
          | some (items, after) => some (item :: items, after)
          | none => none
        | _ => none

/-- The pairs of an inline table up to its closing brace, added to `entries`, and what stands
behind that. -/
def pairsWithin : Nat → Nat → Entries → Text → Option (Entries × Text)
  | 0, _, _, _ => none
  | fuel + 1, depth, entries, text =>
    match skipLines text with
    | none => none
    | some ('}' :: after) => some (entries, after)
    | some other =>
      match keys? other with
      | some (keys, '=' :: rest) =>
        match valueWithin fuel depth (skipSpacing rest) with
        | none => none
        | some (value, rest) =>
          match addUnder [] keys value entries, skipLines rest with
          | some entries, some ('}' :: after) => some (entries, after)
          | some entries, some (',' :: more) => pairsWithin fuel depth entries more
          | _, _ => none
      | _ => none

end

/-- A value and what stands behind it. -/
def value? (text : Text) : Option (Value × Text) :=
  valueWithin (2 * text.length + 2) nestingLimit text

/-! ### Statements -/

/-- What has been read: the root table, and the table whose header came last. -/
structure Reading where
  root : Entries
  current : List Text

/-- Read the statement at the front of a text. Answers with what has been read then, and the
text behind the statement's line. -/
def statement? (reading : Reading) (text : Text) : Option (Reading × Text) :=
  match text with
  | '[' :: '[' :: rest =>
    match keys? rest with
    | some (keys, ']' :: ']' :: after) =>
      match keys.getLast?, afterLine? after with
      | some last, some next =>
        (Entries.change (Entries.addTable last) (Entries.steps false keys.dropLast) .headed
          reading.root).map fun root => (⟨root, keys⟩, next)
      | _, _ => none
    | _ => none
  | '[' :: rest =>
    match keys? rest with
    | some (keys, ']' :: after) =>
      match keys.getLast?, afterLine? after with
      | some last, some next =>
        (Entries.change (Entries.addHeader last) (Entries.steps false keys.dropLast) .headed
          reading.root).map fun root => (⟨root, keys⟩, next)
      | _, _ => none
    | _ => none
  | _ =>
    match keys? text with
    | some (keys, '=' :: rest) =>
      match value? (skipSpacing rest) with
      | none => none
      | some (value, after) =>
        match afterLine? after with
        | none => none
        | some next =>
          (addUnder (Entries.steps false reading.current) keys value reading.root).map fun root =>
            (⟨root, reading.current⟩, next)
    | _ => none

/-- Read statements to the end of the text. Each takes at least a character. -/
def statementsWithin : Nat → Reading → Text → Option Entries
  | 0, _, _ => none
  | fuel + 1, reading, text =>
    match skipLines text with
    | none => none
    | some [] => some reading.root
    | some other =>
      match statement? reading other with
      | none => none
      | some (reading, next) => statementsWithin fuel reading next

/-- The mark that a text file may begin with to show its encoding. -/
def byteOrderMark : Char := '\uFEFF'

/-- The root table of a document, if it is well formed. -/
def document? (text : Text) : Option Entries :=
  let body := if text.head? = some byteOrderMark then text.drop 1 else text
  statementsWithin (body.length + 1) ⟨[], []⟩ body

end AssetPipeline.Toml
