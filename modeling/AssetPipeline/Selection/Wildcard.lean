/-
This file matches names against wildcards. A `*` stands for any run of characters, a `?` for any
one character, and every other character for itself, upper and lower case ASCII letters alike.

The match reads pattern and name together. At a `*` it notes where it stands and first lets the
star take nothing; when the match fails later on, it goes back to the last star and lets it take
one character more. Earlier stars need no second try: whatever a later star could reach from
there it can reach from where it stands.
-/

import AssetPipeline.Text.Basic

namespace AssetPipeline.Wildcard

/-- Are two characters the same but for the case of ASCII letters? -/
def sameLetter (first second : Char) : Bool := first.toLower == second.toLower

/-- Does a pattern character other than `*` accept a character? -/
def accepts (pattern character : Char) : Bool :=
  pattern == '?' || sameLetter pattern character

/-- Where to go on after a failure: behind the last star, and the name the star was tried on. -/
structure Retry where
  pattern : Text
  name : Text
  deriving DecidableEq

/-- Where a match stands: what is left of the pattern and of the name. -/
structure Cursor where
  pattern : Text
  name : Text
  retry? : Option Retry
  deriving DecidableEq

namespace Cursor

/-- The cursor after the last star took one character more, if there was a star. -/
def retreat? (cursor : Cursor) : Option Cursor :=
  match cursor.retry? with
  | none => none
  | some retry =>
    some ⟨retry.pattern, retry.name.drop 1, some ⟨retry.pattern, retry.name.drop 1⟩⟩

/-- One step of a match whose name is not used up, or `none` when the match has failed. -/
def step? (cursor : Cursor) (head : Char) (rest : Text) : Option Cursor :=
  match cursor.pattern with
  | [] => cursor.retreat?
  | first :: others =>
    if first = '*' then some ⟨others, head :: rest, some ⟨others, head :: rest⟩⟩
    else if accepts first head then some ⟨others, rest, cursor.retry?⟩
    else cursor.retreat?

/-- Go on for at most `fuel` steps. With the name used up, only stars may be left. -/
def run : Nat → Cursor → Bool
  | 0, _ => false
  | fuel + 1, cursor =>
    match cursor.name with
    | [] => cursor.pattern.all (· == '*')
    | head :: rest =>
      match cursor.step? head rest with
      | none => false
      | some next => run fuel next

end Cursor

/-- More steps than a match takes: between two returns to a star each step uses up a character
of the pattern or of the name, and each return leaves the star one character less. -/
def stepBound (pattern name : Text) : Nat :=
  (name.length + 2) * (pattern.length + name.length + 2)

def accept (pattern name : Text) : Bool :=
  Cursor.run (stepBound pattern name) ⟨pattern, name, none⟩

end AssetPipeline.Wildcard
