/-
This file fixes how text is held: as the list of its characters, so that scanning is recursion
on the list and a cut is a pair of lists. It has the two operations that paths, wildcards and
scripts share, cutting a text at separators and putting pieces together again, and the length
of a text in UTF-8 bytes, by which file names are limited.
-/

namespace AssetPipeline

/-- Text as the list of its characters. -/
abbrev Text := List Char

/-- The content of a file. -/
abbrev Bytes := List UInt8

namespace Text

def ofString (string : String) : Text := string.toList

def toString (text : Text) : String := String.ofList text

/-- Cut at every character that `separates`. There is one piece more than there are
separators, so pieces may be empty. -/
def splitWhere (separates : Char → Bool) : Text → List Text
  | [] => [[]]
  | head :: rest =>
    if separates head then [] :: splitWhere separates rest
    else
      match splitWhere separates rest with
      | [] => [[head]]
      | piece :: pieces => (head :: piece) :: pieces

/-- Cut at every `separator`. -/
def splitOn (separator : Char) (text : Text) : List Text :=
  splitWhere (· == separator) text

/-- Put pieces together with one `separator` between each two. -/
def joinWith (separator : Char) : List Text → Text
  | [] => []
  | [piece] => piece
  | piece :: rest => piece ++ separator :: joinWith separator rest

theorem splitWhere_ne_nil (separates : Char → Bool) (text : Text) :
    splitWhere separates text ≠ [] := by
  cases text with
  | nil => simp [splitWhere]
  | cons head rest =>
    rw [splitWhere]
    split
    · simp
    · split <;> simp

/-- Cutting at a separator loses nothing: the pieces join to the text. -/
theorem joinWith_splitOn (separator : Char) (text : Text) :
    joinWith separator (splitOn separator text) = text := by
  unfold splitOn
  induction text with
  | nil => rfl
  | cons head rest inductionHypothesis =>
    rw [splitWhere]
    have nonempty := splitWhere_ne_nil (· == separator) rest
    split
    · next same =>
      have headEq : head = separator := by simpa using same
      cases pieces : splitWhere (· == separator) rest with
      | nil => exact absurd pieces nonempty
      | cons piece more =>
        rw [pieces] at inductionHypothesis
        rw [joinWith, inductionHypothesis, headEq]
        · rfl
        · simp
    · cases pieces : splitWhere (· == separator) rest with
      | nil => exact absurd pieces nonempty
      | cons piece more =>
        rw [pieces] at inductionHypothesis
        cases more with
        | nil => simpa [joinWith] using inductionHypothesis
        | cons next others => simpa [joinWith] using inductionHypothesis

/-- The length of the text in UTF-8 bytes. -/
def byteLength (text : Text) : Nat :=
  text.foldr (fun character length => character.utf8Size + length) 0

/-- Everything before the first position at which `stop` starts, or the whole text. -/
def before (stop : Text) : Text → Text
  | [] => []
  | head :: rest => if stop.isPrefixOf (head :: rest) then [] else head :: before stop rest

/-- The text behind `start`, when the text begins with it. -/
def after? (start text : Text) : Option Text :=
  if start.isPrefixOf text then some (text.drop start.length) else none

end Text

end AssetPipeline
