/-
This file holds the patterns of shell scripts: in a pattern `*` stands for any run of characters,
`?` for any one character, a list in brackets for one of the characters it lists, and every other
character, or one behind a backslash, for itself. A bracket that does not close stands for itself.
A pattern is matched against a whole text, or cut off the front or the end of one.
-/

import AssetPipeline.Text.Basic

namespace AssetPipeline.Shell

/-- The named classes of characters. -/
inductive CharacterClass where
  | alnum
  | alpha
  | blank
  | cntrl
  | digit
  | graph
  | lower
  | print
  | punct
  | space
  | upper
  | xdigit
  deriving DecidableEq

namespace CharacterClass

/-- The name of a class in a pattern, behind the bracket that opens it. -/
def name : CharacterClass → String
  | .alnum => ":alnum:]"
  | .alpha => ":alpha:]"
  | .blank => ":blank:]"
  | .cntrl => ":cntrl:]"
  | .digit => ":digit:]"
  | .graph => ":graph:]"
  | .lower => ":lower:]"
  | .print => ":print:]"
  | .punct => ":punct:]"
  | .space => ":space:]"
  | .upper => ":upper:]"
  | .xdigit => ":xdigit:]"

def all : List CharacterClass :=
  [.alnum, .alpha, .blank, .cntrl, .digit, .graph, .lower, .print, .punct, .space, .upper, .xdigit]

/-- Can a character be seen? -/
def isGraph (character : Char) : Bool := '!' ≤ character && character ≤ '~'

def has (character : Char) : CharacterClass → Bool
  | .alnum => character.isAlphanum
  | .alpha => character.isAlpha
  | .blank => character == ' ' || character == '\t'
  | .cntrl => character < ' ' || character == '\x7f'
  | .digit => character.isDigit
  | .graph => isGraph character
  | .lower => character.isLower
  | .print => character == ' ' || isGraph character
  | .punct => isGraph character && !character.isAlphanum
  | .space => character == ' ' || ('\t' ≤ character && character ≤ '\r')
  | .upper => character.isUpper
  | .xdigit =>
    character.isDigit || ('a' ≤ character && character ≤ 'f') ||
      ('A' ≤ character && character ≤ 'F')

/-- The class that is named at the front of a text, and the text behind the name. -/
def named? (text : Text) : Option (CharacterClass × Text) :=
  all.findSome? fun kind => (Text.after? kind.name.toList text).map ((kind, ·))

end CharacterClass

/-- What a list in brackets lists. -/
inductive Member where
  | range (first last : Char)
  | ofClass (kind : CharacterClass)
  deriving DecidableEq

namespace Member

/-- The place of an octet in the order of ranges: those above 127 come first. -/
def rank (octet : Char) : Nat := (octet.toNat + 128) % 256

/-- Does a character belong to what is listed? -/
def has (character : Char) : Member → Bool
  | .range first last => rank first ≤ rank character && rank character ≤ rank last
  | .ofClass kind => kind.has character

end Member

/-- One item of a pattern. -/
inductive PatternItem where
  | exactly (character : Char)
  | anyOne
  /-- Any run of characters, also none. -/
  | anyRun
  /-- One of the characters listed or, with `negative`, one of the others. -/
  | oneOf (negative : Bool) (members : List Member)
  deriving DecidableEq

/-- All ways to cut a text in two, the shortest first part first. -/
def cuts : Text → List (Text × Text)
  | [] => [([], [])]
  | head :: rest => ([], head :: rest) :: (cuts rest).map fun (front, back) => (head :: front, back)

/-- A pattern. -/
abbrev Pattern := List PatternItem

namespace Pattern

/-! ### Reading -/

/-- The character at the front of a text, where a backslash quotes the next one. -/
def unquoted : Text → Option (Char × Text)
  | [] => none
  | '\\' :: head :: rest => some (head, rest)
  | head :: rest => some (head, rest)

/-- What is listed at the front of a text. -/
def member (text : Text) : Option (Member × Text) :=
  let named :=
    match text with
    | '[' :: rest => CharacterClass.named? rest
    | _ => none
  match named with
  | some (kind, rest) => some (.ofClass kind, rest)
  | none =>
    match unquoted text with
    | none => none
    | some (first, '-' :: ']' :: rest) => some (.range first first, '-' :: ']' :: rest)
    | some (first, '-' :: rest) => (unquoted rest).map fun (last, behind) =>
      (.range first last, behind)
    | some (first, rest) => some (.range first first, rest)

/-- What is listed up to the closing bracket, and what stands behind that. -/
def membersWithin : Nat → Text → Option (List Member × Text)
  | 0, _ => none
  | fuel + 1, text =>
    match member text with
    | none => none
    | some (first, ']' :: behind) => some ([first], behind)
    | some (first, rest) =>
      (membersWithin fuel rest).map fun (others, behind) => (first :: others, behind)

/-- The list in brackets at the front of a text, behind the opening bracket. -/
def brackets? (text : Text) : Option (PatternItem × Text) :=
  match text with
  | '!' :: rest =>
    (membersWithin (rest.length + 1) rest).map fun (members, behind) =>
      (.oneOf true members, behind)
  | rest =>
    (membersWithin (rest.length + 1) rest).map fun (members, behind) =>
      (.oneOf false members, behind)

def ofTextWithin : Nat → Text → Pattern
  | 0, _ => []
  | fuel + 1, text =>
    match text with
    | [] => []
    | '*' :: rest => .anyRun :: ofTextWithin fuel rest
    | '?' :: rest => .anyOne :: ofTextWithin fuel rest
    | '\\' :: head :: rest => .exactly head :: ofTextWithin fuel rest
    | '[' :: rest =>
      match brackets? rest with
      | some (item, behind) => item :: ofTextWithin fuel behind
      | none => .exactly '[' :: ofTextWithin fuel rest
    | head :: rest => .exactly head :: ofTextWithin fuel rest

def ofText (text : Text) : Pattern := ofTextWithin text.length text

/-! ### Matching -/

/-- Does a whole text match? -/
def accepts : Pattern → Text → Bool
  | [], text => text.isEmpty
  | .exactly character :: items, text =>
    match text with
    | [] => false
    | head :: rest => head == character && accepts items rest
  | .anyOne :: items, text =>
    match text with
    | [] => false
    | _ :: rest => accepts items rest
  | .oneOf negative members :: items, text =>
    match text with
    | [] => false
    | head :: rest => members.any (·.has head) != negative && accepts items rest
  | .anyRun :: items, text => (cuts text).any fun (_, rest) => accepts items rest

/-- Cut what matches off the front of a text, as little or as much as possible. A text whose front
does not match stays. -/
def trimFront (pattern : Pattern) (longest : Bool) (text : Text) : Text :=
  let ways := if longest then (cuts text).reverse else cuts text
  match ways.find? fun (front, _) => pattern.accepts front with
  | some (_, back) => back
  | none => text

/-- Cut what matches off the end of a text, as little or as much as possible. -/
def trimBack (pattern : Pattern) (longest : Bool) (text : Text) : Text :=
  let ways := if longest then cuts text else (cuts text).reverse
  match ways.find? fun (_, back) => pattern.accepts back with
  | some (front, _) => front
  | none => text

end Pattern

end AssetPipeline.Shell
