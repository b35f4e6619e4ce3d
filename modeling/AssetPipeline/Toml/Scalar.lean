/-
This file reads the values that are written without brackets or quotes: booleans, whole and real
numbers, dates and times. Underscores may stand between the digits of a number; a decimal number
has no zero in front; a date has to exist.

A real number has to be well formed. The text of a whole number may hold more than digits behind
its first underscore, and none at all behind the mark of its base: such a number can stand in a
document, but it has no value.
-/

import AssetPipeline.Toml.Value

namespace AssetPipeline.Toml

/-- The value of a digit, in any base up to sixteen. -/
def digitValue (character : Char) : Nat :=
  if character.isDigit then character.toNat - '0'.toNat
  else character.toLower.toNat - 'a'.toNat + 10

def isDigitOf (base : Nat) (character : Char) : Bool :=
  (character.isDigit || ('a' ≤ character.toLower && character.toLower ≤ 'f')) &&
    digitValue character < base

/-- The number that digits write. -/
def numberOf (base : Nat) (digits : Text) : Nat :=
  digits.foldl (fun number digit => number * base + digitValue digit) 0

/-- A sign and what it stands in front of. -/
def splitSign : Text → Bool × Text
  | '-' :: rest => (true, rest)
  | '+' :: rest => (false, rest)
  | text => (false, text)

/-- Is a character a digit for the underscores around it, in a whole number? -/
def isWholeDigit (character : Char) : Bool := isDigitOf 16 character

/-- May these parts of a number have underscores between them? No part is empty; a part behind an
underscore begins with a digit; a part in front of one ends in a digit, a single sign at the very
beginning apart. -/
def isGrouped (isDigit : Char → Bool) (parts : List Text) : Bool :=
  parts.length ≤ 1 ||
    (parts.all (· != []) && parts.tail.all (fun part => part.head?.any isDigit) &&
      parts.dropLast.all fun part => part.length ≤ 1 || part.getLast?.any isDigit)

/-- Do the underscores of a number stand where they may? -/
def hasFairUnderscores (isDigit : Char → Bool) (text : Text) : Bool :=
  isGrouped isDigit (Text.splitOn '_' text)

def withoutUnderscores (text : Text) : Text := text.filter (· != '_')

/-- The value of the digits of a whole number; none when there are no digits or something else
is among them. -/
def wholeValue? (base : Nat) (digits : Text) : Option Nat :=
  if digits ≠ [] ∧ digits.all (isDigitOf base) = true then some (numberOf base digits) else none

/-- A whole number in another base: the text behind the mark of the base holds digits and
underscores only. -/
def basedInteger? (base : Nat) (text : Text) : Option Value :=
  if text.all (fun character => isDigitOf base character || character == '_') &&
      hasFairUnderscores isWholeDigit text then
    some (.integer ((wholeValue? base (withoutUnderscores text)).map Int.ofNat))
  else none

/-- Does a decimal number begin with a zero that is not all of it? -/
def hasLeadingZero (unsigned : Text) : Bool := unsigned.head? == some '0' && unsigned != ['0']

/-- Does a text have a mark that only real numbers have? -/
def isMarkedReal (text : Text) : Bool :=
  text.any fun character => character == '.' || character == 'e' || character == 'E'

/-- A decimal whole number: digits, and whatever follows from the first underscore on. -/
def decimalInteger? (text : Text) : Option Value :=
  let (negative, unsigned) := splitSign text
  let rest := unsigned.dropWhile Char.isDigit
  if unsigned = [] ∨ hasLeadingZero unsigned ∨ isMarkedReal rest then none
  else if (rest = [] ∨ rest.head? = some '_') ∧ hasFairUnderscores isWholeDigit text then
    some (.integer ((wholeValue? 10 (withoutUnderscores unsigned)).map fun number =>
      if negative then -(number : Int) else number))
  else none

/-- A whole number. -/
def integer? (text : Text) : Option Value :=
  match text with
  | '0' :: 'x' :: rest => basedInteger? 16 rest
  | '0' :: 'o' :: rest => basedInteger? 8 rest
  | '0' :: 'b' :: rest => basedInteger? 2 rest
  | _ => decimalInteger? text

/-- The digits at the front of a text, underscores left out, and what stands behind them. There
has to be a digit. -/
def digitRun? (text : Text) : Option (Text × Text) :=
  let belongs := fun character : Char => character.isDigit || character == '_'
  match withoutUnderscores (text.takeWhile belongs) with
  | [] => none
  | digits => some (digits, text.dropWhile belongs)

/-- The digits of the fraction at the front of a text, and what stands behind it. -/
def fraction? : Text → Option (Text × Text)
  | '.' :: rest => digitRun? rest
  | text => some ([], text)

/-- The exponent at the front of a text, which may begin with zeros, and what stands behind it. -/
def exponent? : Text → Option (Int × Text)
  | mark :: rest =>
    if mark = 'e' ∨ mark = 'E' then
      let (negative, unsigned) := splitSign rest
      (digitRun? unsigned).map fun (digits, after) =>
        let number : Int := numberOf 10 digits
        (if negative then -number else number, after)
    else some (0, mark :: rest)
  | [] => some (0, [])

/-- A real number in digits. It has a fraction, an exponent, or both. -/
def decimalReal? (negative : Bool) (unsigned : Text) : Option RealLiteral :=
  match digitRun? unsigned with
  | none => none
  | some (whole, rest) =>
    if 1 < whole.length ∧ unsigned.head? = some '0' then none
    else
      match fraction? rest with
      | none => none
      | some (part, behind) =>
        match exponent? behind with
        | some (exponent, []) =>
          some (.decimal negative (numberOf 10 (whole ++ part)) (exponent - (part.length : Int)))
        | _ => none

/-- A real number. -/
def real? (text : Text) : Option RealLiteral :=
  let (negative, unsigned) := splitSign text
  if unsigned = ['i', 'n', 'f'] then some (.infinite negative)
  else if unsigned = ['n', 'a', 'n'] then some .notANumber
  else if isMarkedReal unsigned && hasFairUnderscores Char.isDigit text then
    decimalReal? negative unsigned
  else none

/-! ### Dates and times -/

/-- The number that exactly `count` digits at the front write, and the rest. -/
def fixedNumber? (count : Nat) (text : Text) : Option (Nat × Text) :=
  let digits := text.take count
  if digits.length = count ∧ digits.all Char.isDigit = true then
    some (numberOf 10 digits, text.drop count)
  else none

/-- The number of days of a month. -/
def daysOf (year month : Nat) : Nat :=
  if month = 2 then
    if (year % 4 = 0 ∧ year % 100 ≠ 0) ∨ year % 400 = 0 then 29 else 28
  else if month = 4 ∨ month = 6 ∨ month = 9 ∨ month = 11 then 30
  else 31

/-- The text behind a date at the front. -/
def afterDate? (text : Text) : Option Text :=
  match fixedNumber? 4 text with
  | some (year, '-' :: rest) =>
    match fixedNumber? 2 rest with
    | some (month, '-' :: rest) =>
      match fixedNumber? 2 rest with
      | some (day, rest) =>
        if 1 ≤ month ∧ month ≤ 12 ∧ 1 ≤ day ∧ day ≤ daysOf year month then some rest else none
      | none => none
    | _ => none
  | _ => none

/-- The text behind the fraction of a second at the front, if there is one. -/
def afterFraction? (text : Text) : Option Text :=
  match text with
  | '.' :: rest =>
    if rest.takeWhile Char.isDigit = [] then none else some (rest.dropWhile Char.isDigit)
  | _ => some text

/-- The text behind the seconds of a time at the front, if there are any. -/
def afterSeconds? (text : Text) : Option Text :=
  match text with
  | ':' :: rest =>
    match fixedNumber? 2 rest with
    | some (second, rest) => if second ≤ 60 then afterFraction? rest else none
    | none => none
  | _ => some text

/-- The text behind a time of day at the front. -/
def afterTime? (text : Text) : Option Text :=
  match fixedNumber? 2 text with
  | some (hour, ':' :: rest) =>
    match fixedNumber? 2 rest with
    | some (minute, rest) => if hour ≤ 23 ∧ minute ≤ 59 then afterSeconds? rest else none
    | none => none
  | _ => none

/-- Is the text an offset from universal time, or nothing? -/
def isOffset (text : Text) : Bool :=
  match text with
  | [] => true
  | ['Z'] => true
  | ['z'] => true
  | sign :: rest =>
    if sign = '+' ∨ sign = '-' then
      match fixedNumber? 2 rest with
      | some (hour, ':' :: rest) =>
        match fixedNumber? 2 rest with
        | some (minute, []) => hour ≤ 23 && minute ≤ 59
        | _ => false
      | _ => false
    else false

/-- Is the text a date, a time, or a date and a time with or without an offset? -/
def isMoment (text : Text) : Bool :=
  match afterDate? text with
  | some [] => true
  | some (divider :: rest) =>
    (divider == 'T' || divider == 't' || divider == ' ') &&
      match afterTime? rest with
      | some offset => isOffset offset
      | none => false
  | none => afterTime? text == some []

/-- The value a text writes without brackets or quotes. -/
def scalar? (text : Text) : Option Value :=
  if text = ['t', 'r', 'u', 'e'] then some (.boolean true)
  else if text = ['f', 'a', 'l', 's', 'e'] then some (.boolean false)
  else
    match integer? text with
    | some number => some number
    | none =>
      match real? text with
      | some literal => some (.real literal)
      | none => if isMoment text then some .moment else none

end AssetPipeline.Toml
