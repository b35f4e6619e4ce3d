/-
This file reads the numbers of shell scripts. A number may have blanks and a sign in front. Where
the base is open, `0x` announces sixteen and `0` eight. Numbers have sixty-four bits.
-/

import AssetPipeline.Text.Basic

namespace AssetPipeline.Shell

/-- A number at the front of a text. -/
structure Numeral where
  /-- The number, whatever its size. -/
  value : Int
  rest : Text
  /-- Whether there are digits at all. -/
  isThere : Bool

namespace Numeral

/-- The greatest number. -/
def greatest : Int := 9223372036854775807

/-- The least number. -/
def least : Int := -9223372036854775808

/-- The greatest number without a sign. -/
def greatestUnsigned : Int := 18446744073709551615

def isSpace (character : Char) : Bool :=
  character == ' ' || ('\t' ≤ character && character ≤ '\r')

def digit? (character : Char) : Option Nat :=
  if character.isDigit then some (character.toNat - '0'.toNat)
  else if character.isLower then some (character.toNat - 'a'.toNat + 10)
  else if character.isUpper then some (character.toNat - 'A'.toNat + 10)
  else none

def isDigitIn (base : Nat) (character : Char) : Bool := (digit? character).any (· < base)

/-- The number that digits write in a base. -/
def ofDigits (base : Nat) (digits : Text) : Nat :=
  digits.foldl (fun number character => number * base + (digit? character).getD 0) 0

/-- The base of a text without a sign, and the text without what announces the base. -/
def announcedBase (text : Text) : Nat × Text :=
  match text with
  | '0' :: mark :: first :: rest =>
    if (mark == 'x' || mark == 'X') && isDigitIn 16 first then (16, first :: rest) else (8, text)
  | '0' :: _ => (8, text)
  | _ => (10, text)

/-- The number at the front of a text, in a base or, without one, in the base it announces. -/
def read (base? : Option Nat) (text : Text) : Numeral :=
  let (isNegative, unsigned) :=
    match text.dropWhile isSpace with
    | '-' :: rest => (true, rest)
    | '+' :: rest => (false, rest)
    | rest => (false, rest)
  let (base, start) :=
    match base? with
    | some base => (base, unsigned)
    | none => announcedBase unsigned
  let digits := start.takeWhile (isDigitIn base)
  if digits.isEmpty then ⟨0, text, false⟩
  else
    let size := ofDigits base digits
    let value : Int := if isNegative then -(size : Int) else size
    ⟨value, start.dropWhile (isDigitIn base), true⟩

/-- Does the number fit? -/
def fits (numeral : Numeral) : Bool := least ≤ numeral.value && numeral.value ≤ greatest

/-- The number, or the nearest one that fits. -/
def clamped (numeral : Numeral) : Int := max least (min greatest numeral.value)

end Numeral

/-- The number that a whole text writes in base ten. -/
def decimal? (text : Text) : Option Int :=
  let numeral := Numeral.read (some 10) text
  if numeral.isThere && numeral.fits && numeral.rest.all Numeral.isSpace then some numeral.value
  else none

/-- The number that a whole text writes in a base it announces; a blank text writes zero. -/
def integer? (text : Text) : Option Int :=
  let numeral := Numeral.read none text
  if numeral.fits && numeral.rest.all Numeral.isSpace then some numeral.value else none

/-- The greatest number of arguments, loops and the like. -/
def countLimit : Int := 2147483647

/-- The number without a sign that a whole text writes in base ten. -/
def count? (text : Text) : Option Nat :=
  (decimal? text).bind fun number =>
    if 0 ≤ number && number ≤ countLimit then some number.toNat else none

end AssetPipeline.Shell
