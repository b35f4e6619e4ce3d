/-
This file reads and writes real numbers in the notations of formatted output: positional, with a
power of ten, the shorter one of these, and in base sixteen with a power of two. A literal may also
name an infinity or what is no number.
-/

import AssetPipeline.Real.Magnitude

namespace AssetPipeline

/-- A real number, or what takes the place of one. -/
inductive RealNumber where
  | notANumber
  | infinite
  | finite (magnitude : Magnitude)
  deriving DecidableEq

/-- A real number at the front of a text. -/
structure RealNumeral where
  isNegative : Bool
  size : RealNumber
  rest : Text
  /-- Whether there is a number at all. -/
  isThere : Bool
  /-- Whether the number is too large, or too small to be exact. -/
  isOutOfRange : Bool := false

namespace RealNumeral

def digit? (base : Nat) (character : Char) : Option Nat :=
  let value? :=
    if character.isDigit then some (character.toNat - '0'.toNat)
    else if character.isLower then some (character.toNat - 'a'.toNat + 10)
    else if character.isUpper then some (character.toNat - 'A'.toNat + 10)
    else none
  value?.filter (· < base)

def isDigitIn (base : Nat) (character : Char) : Bool := (digit? base character).isSome

/-- The number that digits write in a base. -/
def ofDigits (base : Nat) (digits : Text) : Nat :=
  digits.foldl (fun number character => number * base + (digit? base character).getD 0) 0

/-- The digits at the front of a text, before and behind a point, and the text behind them. -/
def significantDigits (base : Nat) (text : Text) : Text × Text × Text :=
  let whole := text.takeWhile (isDigitIn base)
  match text.dropWhile (isDigitIn base) with
  | '.' :: rest =>
    let part := rest.takeWhile (isDigitIn base)
    if whole.isEmpty && part.isEmpty then ([], [], text)
    else (whole, part, rest.dropWhile (isDigitIn base))
  | rest => (whole, [], rest)

/-- The power behind a mark at the front of a text, and the text behind it. Without digits there
is no power. -/
def power (mark : Char) (text : Text) : Int × Text :=
  match text with
  | head :: rest =>
    if head.toLower = mark then
      let (isNegative, digits) :=
        match rest with
        | '-' :: digits => (true, digits)
        | '+' :: digits => (false, digits)
        | digits => (false, digits)
      let number : Int := ofDigits 10 (digits.takeWhile Char.isDigit)
      if (digits.head?.any Char.isDigit) then
        (if isNegative then -number else number, digits.dropWhile Char.isDigit)
      else (0, text)
    else (0, text)
  | [] => (0, text)

/-- Is a magnitude too small to have all its digits? -/
def isTiny (magnitude : Magnitude) : Bool :=
  magnitude.significand < Magnitude.significandBound / 2 &&
    magnitude.exponent == Magnitude.leastExponent

/-- The number with this magnitude, if there is one. -/
def ofMagnitude (isNegative isZero : Bool) (rest : Text) : Option Magnitude → RealNumeral
  | none => ⟨isNegative, .infinite, rest, true, true⟩
  | some magnitude => ⟨isNegative, .finite magnitude, rest, true, !isZero && isTiny magnitude⟩

/-- The decimal number at the front of a text. -/
def readDecimal (isNegative : Bool) (text : Text) : RealNumeral :=
  let (whole, part, behind) := significantDigits 10 text
  if whole.isEmpty && part.isEmpty then ⟨false, .finite ⟨0, 0⟩, text, false, false⟩
  else
    let (exponent, rest) := power 'e' behind
    let digits := ofDigits 10 (whole ++ part)
    ofMagnitude isNegative (digits == 0) rest
      (Magnitude.nearest? digits (exponent - part.length))

/-- The number in base sixteen at the front of a text, behind its mark. -/
def readSixteen? (isNegative : Bool) (text : Text) : Option RealNumeral :=
  let (whole, part, behind) := significantDigits 16 text
  if whole.isEmpty && part.isEmpty then none
  else
    let (exponent, rest) := power 'p' behind
    let digits := ofDigits 16 (whole ++ part)
    let bounded := max (-5000) (min 5000 (exponent - 4 * part.length))
    let (numerator, denominator) := scaled digits 2 bounded
    some (ofMagnitude isNegative (digits == 0) rest
      (Magnitude.nearestFraction? numerator denominator))

/-- The text behind a word in letters of either case, if it stands in front. -/
def afterWord? (word : String) (text : Text) : Option Text :=
  let front := text.take word.length
  if front.map Char.toLower = word.toList then some (text.drop word.length) else none

/-- The text behind a remark in parentheses, if one stands in front. -/
def afterRemark (text : Text) : Text :=
  match text with
  | '(' :: rest =>
    match rest.dropWhile fun head => head.isAlphanum || head == '_' with
    | ')' :: behind => behind
    | _ => text
  | _ => text

/-- The named number at the front of a text. -/
def readNamed? (isNegative : Bool) (text : Text) : Option RealNumeral :=
  match afterWord? "infinity" text, afterWord? "inf" text, afterWord? "nan" text with
  | some rest, _, _ => some ⟨isNegative, .infinite, rest, true, false⟩
  | _, some rest, _ => some ⟨isNegative, .infinite, rest, true, false⟩
  | _, _, some rest => some ⟨isNegative, .notANumber, afterRemark rest, true, false⟩
  | _, _, _ => none

/-- The real number at the front of a text, which may have white space and a sign in front. -/
def read (text : Text) : RealNumeral :=
  let isSpace (character : Char) : Bool :=
    character == ' ' || ('\t' ≤ character && character ≤ '\r')
  let (isNegative, unsigned) :=
    match text.dropWhile isSpace with
    | '-' :: rest => (true, rest)
    | '+' :: rest => (false, rest)
    | rest => (false, rest)
  let numeral :=
    match readNamed? isNegative unsigned with
    | some numeral => numeral
    | none =>
      match unsigned with
      | '0' :: mark :: rest =>
        let sixteen? := if mark.toLower = 'x' then readSixteen? isNegative rest else none
        sixteen?.getD (readDecimal isNegative unsigned)
      | _ => readDecimal isNegative unsigned
  if numeral.isThere then numeral else { numeral with rest := text }

end RealNumeral

namespace Magnitude

/-- The whole number nearest to the magnitude times a power of ten. -/
def timesTen (magnitude : Magnitude) (places : Int) : Nat :=
  let (upper, lower) := scaled magnitude.significand 2 magnitude.exponent
  let (tenOver, tenUnder) := scaled 1 10 places
  roundHalfEven (upper * tenOver) (lower * tenUnder)

/-- Digits with a point in front of so many of them. -/
def pointed (digits : Nat) (places : Nat) (pointsAlways : Bool) : Text :=
  let written := Nat.toDigits 10 digits
  let padded := List.replicate (places + 1 - written.length) '0' ++ written
  let whole := padded.take (padded.length - places)
  if places = 0 then if pointsAlways then whole ++ ['.'] else whole
  else whole ++ '.' :: padded.drop (padded.length - places)

/-- The magnitude with so many digits behind the point. -/
def fixed (magnitude : Magnitude) (places : Nat) (pointsAlways : Bool) : Text :=
  pointed (magnitude.timesTen places) places pointsAlways

/-- The greatest exponent of ten that does not exceed the magnitude, looked for downwards. -/
def decimalExponentFrom (upper lower : Nat) : Nat → Int → Int
  | 0, exponent => exponent
  | fuel + 1, exponent =>
    let (tenOver, tenUnder) := scaled 1 10 exponent
    if lower * tenOver ≤ upper * tenUnder then exponent
    else decimalExponentFrom upper lower fuel (exponent - 1)

/-- The greatest exponent of ten that does not exceed the magnitude. -/
def decimalExponent (magnitude : Magnitude) : Int :=
  if magnitude.significand = 0 then 0
  else
    let (upper, lower) := scaled magnitude.significand 2 magnitude.exponent
    decimalExponentFrom upper lower 700 310

/-- The digits of the magnitude, one more than `places`, and its exponent of ten. -/
def rounded (magnitude : Magnitude) (places : Nat) : Nat × Int :=
  let exponent := magnitude.decimalExponent
  let digits := magnitude.timesTen (places - exponent)
  if Nat.pow 10 (places + 1) ≤ digits then (digits / 10, exponent + 1) else (digits, exponent)

/-- An exponent with its sign and at least two digits. -/
def exponentText (exponent : Int) : Text :=
  let digits := Nat.toDigits 10 exponent.natAbs
  let padded := List.replicate (2 - digits.length) '0' ++ digits
  (if exponent < 0 then '-' else '+') :: padded

/-- The magnitude with one digit in front of the point, so many behind it, and a power of ten. -/
def scientific (magnitude : Magnitude) (places : Nat) (pointsAlways : Bool) : Text :=
  let (digits, exponent) := magnitude.rounded places
  pointed digits places pointsAlways ++ 'e' :: exponentText exponent

/-- A positional text without the zeros at its end, and without a point there. -/
def withoutLastZeros (text : Text) : Text :=
  if text.contains '.' then
    match text.reverse.dropWhile (· == '0') with
    | '.' :: rest => rest.reverse
    | rest => rest.reverse
  else text

/-- The magnitude with so many digits in all, positionally unless it is very large or small. The
zeros at the end are left out unless they are wanted. -/
def general (magnitude : Magnitude) (places : Nat) (keepsZeros : Bool) : Text :=
  let count := max 1 places
  let (digits, exponent) := magnitude.rounded (count - 1)
  let trimmed (text : Text) : Text := if keepsZeros then text else withoutLastZeros text
  if -4 ≤ exponent ∧ exponent < count then
    trimmed (magnitude.fixed ((count : Int) - 1 - exponent).toNat keepsZeros)
  else trimmed (pointed digits (count - 1) keepsZeros) ++ 'e' :: exponentText exponent

/-- The magnitude with as large a significand as there may be. -/
def normalized (magnitude : Magnitude) : Magnitude :=
  let room := (precision : Int) - 1 - Nat.log2 magnitude.significand
  let shift := (min room (magnitude.exponent - leastExponent)).toNat
  ⟨magnitude.significand * Nat.pow 2 shift, magnitude.exponent - shift⟩

/-- The digits in base sixteen behind the point of a significand. -/
def sixteenPlaces : Nat := 13

/-- The magnitude in base sixteen, without a mark: one digit in front of the point, so many behind
it or else as many as are needed, and a power of two. -/
def sixteen (magnitude : Magnitude) (places? : Option Nat) (pointsAlways : Bool) : Text :=
  let scale := Nat.pow 2 (precision - 1)
  let full := magnitude.normalized
  let isZero := full.significand = 0
  let isSmall := full.significand < scale
  let exponent : Int := if isZero then 0 else if isSmall then -1022 else full.exponent + 52
  let places := places?.getD sixteenPlaces
  let kept := min places sixteenPlaces
  let rounded := roundHalfEven full.significand (Nat.pow 16 (sixteenPlaces - kept))
  let unit := Nat.pow 16 kept
  let behind := Nat.toDigits 16 (rounded % unit)
  let padded := if kept = 0 then [] else List.replicate (kept - behind.length) '0' ++ behind
  let wanted := padded ++ List.replicate (places - kept) '0'
  let part :=
    if places?.isSome then wanted else (wanted.reverse.dropWhile (· == '0')).reverse
  let point := if part.isEmpty && !pointsAlways then [] else ['.']
  let sign := if exponent < 0 then '-' else '+'
  Nat.toDigits 16 (rounded / unit) ++ point ++ part ++
    'p' :: sign :: Nat.toDigits 10 exponent.natAbs

end Magnitude

end AssetPipeline
