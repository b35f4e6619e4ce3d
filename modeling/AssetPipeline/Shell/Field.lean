/-
This file cuts words whose values are known into fields. Only what values brought into a word is
cut, at the characters that separate fields. White space among them counts once, and not at the
ends; any other one ends a field, even an empty one. Each argument of `"$@"` is a field.
-/

import AssetPipeline.Shell.Pattern

namespace AssetPipeline.Shell

/-- A character of a word whose values are known, or what stands between characters. -/
inductive Fragment where
  /-- A character. Unless it is quoted it has a meaning in patterns, and if it `splits` it may
  separate fields. -/
  | character (character : Char) (quoted splits : Bool)
  /-- Nothing, but quoted, so that it makes a field. -/
  | quotes
  /-- Here a value begins; one that `keeps` consists of arguments that are fields, even empty
  ones. -/
  | edge (keeps : Bool)
  /-- Here one argument ends and the next begins. -/
  | gap
  deriving DecidableEq

/-- A field before its patterns are looked up. -/
abbrev Field := List Fragment

namespace Fragment

/-- The characters that separate fields when nothing else was said, which are white space. -/
def blanks : Text := [' ', '\t', '\n']

def ofQuoted (value : Text) : List Fragment := value.map (.character · true false)

/-- The fragments of a value that is not quoted, and that is cut into fields if it `splits`. -/
def ofUnquoted (splits : Bool) (value : Text) : List Fragment :=
  let characters := value.map (Fragment.character · false splits)
  if splits then edge false :: characters else characters

def ofValue (quoted splits : Bool) (value : Text) : List Fragment :=
  if quoted then ofQuoted value else ofUnquoted splits value

def ofArguments (quoted : Bool) (arguments : List Text) : List Fragment :=
  if arguments.isEmpty then []
  else
    let parts := arguments.map fun argument => argument.map (Fragment.character · quoted (!quoted))
    edge quoted :: [gap].intercalate parts

def character? : Fragment → Option Char
  | .character head _ _ => some head
  | .quotes | .edge _ | .gap => none

def text (fragments : List Fragment) : Text := fragments.filterMap character?

/-- The text of the pattern that fragments make. What is quoted gets a backslash, unless it has
one. -/
def patternTextFrom (quotedAlready : Bool) : List Fragment → Text
  | [] => []
  | .character head true _ :: rest =>
    if quotedAlready then head :: patternTextFrom false rest
    else '\\' :: head :: patternTextFrom false rest
  | .character head false _ :: rest => head :: patternTextFrom (head == '\\') rest
  | _ :: rest => patternTextFrom quotedAlready rest

def patternText (fragments : List Fragment) : Text := patternTextFrom false fragments

def pattern (fragments : List Fragment) : Pattern := Pattern.ofText (patternText fragments)

end Fragment

/-- How far a word has been cut into fields. -/
structure Splitting where
  /-- The fields that are complete, the last one first. -/
  complete : List Field := []
  /-- The field that is not complete, the last fragment first. -/
  current : Field := []
  /-- So much of the last field stays, if nothing that belongs to it follows. -/
  kept? : Option Nat := none
  /-- The fields that may still be begun, if they are limited. -/
  limit? : Option Nat := none
  /-- Whether white space ended a field here. -/
  isBehindBlank : Bool := false
  /-- Whether the value is one of arguments that are fields. -/
  keeps : Bool := false
  /-- Whether the value before was such a one. -/
  kept : Bool := false

namespace Splitting

/-- Add a fragment to the field. -/
def extend (splitting : Splitting) (fragment : Fragment) : Splitting :=
  { splitting with current := fragment :: splitting.current, isBehindBlank := false }

/-- End the field. -/
def close (splitting : Splitting) : Splitting :=
  { splitting with complete := splitting.current.reverse :: splitting.complete, current := [] }

/-- Take a separator, which may be white space, that stands in a value. -/
def separate (splitting : Splitting) (fragment : Fragment) (isBlank : Bool) : Splitting :=
  if splitting.isBehindBlank then { splitting with isBehindBlank := isBlank }
  else
    let isBehindBlank :=
      if splitting.kept || splitting.keeps then splitting.isBehindBlank else isBlank
    if splitting.current.isEmpty && isBehindBlank then { splitting with isBehindBlank := false }
    else
      let marked := { splitting with isBehindBlank }
      match splitting.limit? with
      | none => marked.close
      | some (count + 2) => { marked.close with limit? := some (count + 1) }
      | some _ =>
        { marked with
          limit? := some 0
          kept? := some splitting.current.length
          current := fragment :: splitting.current }

/-- Take a fragment of the last field that there may be. It keeps everything except the separator
that ends it. -/
def extendLast (splitting : Splitting) (fragment : Fragment) (isSeparator isBlank : Bool) :
    Splitting :=
  let longer := { splitting with current := fragment :: splitting.current }
  if isBlank then
    { longer with kept? := some (splitting.kept?.getD splitting.current.length) }
  else if isSeparator && splitting.isBehindBlank then { longer with isBehindBlank := false }
  else { longer with kept? := none, isBehindBlank := false }

/-- Take a fragment, where these characters separate fields. -/
def take (separators : Text) (splitting : Splitting) : Fragment → Splitting
  | .edge keeps => { splitting with keeps, kept := splitting.keeps, isBehindBlank := false }
  | .character head quoted true =>
    let fragment := Fragment.character head quoted true
    let isSeparator := separators.contains head && !splitting.keeps
    let isBlank := isSeparator && Fragment.blanks.contains head
    if splitting.limit? = some 0 then splitting.extendLast fragment isSeparator isBlank
    else if isSeparator then splitting.separate fragment isBlank
    else splitting.extend fragment
  | .gap => splitting.separate .gap true
  | fragment => { splitting with current := fragment :: splitting.current }

/-- The fields, when all has been taken. -/
def fields (splitting : Splitting) : List Field :=
  let current := splitting.current.reverse
  let last :=
    match splitting.kept? with
    | some length => current.take length
    | none => current
  let others := splitting.complete.reverse
  if last.isEmpty && !splitting.keeps then others else others ++ [last]

end Splitting

namespace Fragment

/-- The fields that fragments make, where these characters separate fields. -/
def fields (separators : Text) (fragments : List Fragment) : List Field :=
  (fragments.foldl (Splitting.take separators) {}).fields

/-- The fields that fragments make, of which there are at most so many. -/
def fieldsUpTo (limit : Nat) (separators : Text) (fragments : List Fragment) : List Field :=
  (fragments.foldl (Splitting.take separators) { limit? := some limit }).fields

end Fragment

end AssetPipeline.Shell
