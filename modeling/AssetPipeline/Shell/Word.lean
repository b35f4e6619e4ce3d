/-
This file holds the words of shell scripts. A word is a list of pieces: characters, quoted or not,
and things to be replaced by their values, which are parameters, the output of scripts, and sums.
Texts of a script are texts of octets.
-/

import AssetPipeline.Text.Basic

namespace AssetPipeline.Shell

/-- What becomes of the value of a parameter. -/
inductive Change where
  | keep
  /-- Its length is taken. -/
  | measure
  /-- The operand takes its place if it is unset, or also if it is empty. -/
  | ifUnset (orEmpty : Bool)
  /-- The same, and the parameter is set to the operand. -/
  | settle (orEmpty : Bool)
  /-- The operand takes its place if it is set, or only if it is not empty. -/
  | ifSet (notEmpty : Bool)
  /-- The script fails with the operand for a reason if it is unset, or also if it is empty. -/
  | demand (orEmpty : Bool)
  /-- What matches the operand is cut off the front. -/
  | trimFront (longest : Bool)
  /-- What matches the operand is cut off the end. -/
  | trimBack (longest : Bool)
  /-- There is no such change. -/
  | unknown
  deriving DecidableEq

/-- A piece of a word. -/
inductive Piece where
  | character (character : Char) (quoted : Bool)
  /-- A pair of quotes, which makes a field even if nothing stands between them. -/
  | quotes
  | parameter (name : Text) (change : Change) (operand : List Piece) (quoted : Bool)
  /-- The output of a script, which begins on a line. -/
  | substitution (script : Text) (line : Nat) (quoted : Bool)
  | sum (expression : List Piece) (quoted : Bool)

/-- A word before its pieces are replaced. -/
abbrev Word := List Piece

/-- The text of a word of unquoted characters. -/
def Word.bare? : Word → Option Text
  | [] => some []
  | .character character false :: rest => (bare? rest).map (character :: ·)
  | _ => none

/-- The characters of a word without things to be replaced. -/
def Word.characters (word : Word) : Text :=
  word.filterMap fun
    | .character character _ => some character
    | _ => none

/-- Does a word have something quoted in it? -/
def Word.isQuoted (word : Word) : Bool :=
  word.any fun
    | .quotes => true
    | .character _ quoted | .parameter _ _ _ quoted | .substitution _ _ quoted | .sum _ quoted =>
      quoted

/-- May a name begin with this? -/
def startsName (character : Char) : Bool := character.isAlpha || character == '_'

/-- May a name go on with this? -/
def continuesName (character : Char) : Bool := startsName character || character.isDigit

def isName : Text → Bool
  | [] => false
  | head :: rest => startsName head && rest.all continuesName

/-- The characters of a name at the front of a word, and the word behind them. -/
def nameOfWord : Word → Text × Word
  | .character character false :: rest =>
    if continuesName character then
      let (name, behind) := nameOfWord rest
      (character :: name, behind)
    else ([], .character character false :: rest)
  | word => ([], word)

/-- A word that assigns a value: a name, an equals sign, and the value. -/
def assignment? (word : Word) : Option (Text × Word) :=
  match nameOfWord word with
  | (name, .character '=' false :: value) => if isName name then some (name, value) else none
  | _ => none

/-- Where a redirection leads. -/
inductive Redirect where
  | read (source : Word)
  /-- Into a file that is emptied first. -/
  | write (target : Word)
  /-- The same, whatever protects files from that. -/
  | overwrite (target : Word)
  /-- Behind what a file holds. -/
  | append (target : Word)
  /-- From and into a file. -/
  | update (target : Word)
  /-- To where another descriptor leads, or, with a hyphen, nowhere. -/
  | duplicate (source : Word)
  /-- From a text of the script that has been read. -/
  | document (content : Word)
  /-- From the text of the script that is numbered so. -/
  | awaited (number : Nat)

/-- A redirection of a descriptor. -/
structure Redirection where
  descriptor : Nat
  redirect : Redirect

/-- The redirection with texts of the script for their numbers. -/
def Redirection.fill (documents : List Word) (redirection : Redirection) : Redirection :=
  match redirection.redirect with
  | .awaited number => { redirection with redirect := .document (documents[number]?.getD []) }
  | _ => redirection

end AssetPipeline.Shell
