/-
This file makes the texts that scripts print. A format consists of characters and of conversions,
each of which takes an argument and writes it in a field of some width. A format is used again as
long as arguments are left.
-/

import AssetPipeline.Real.Notation
import AssetPipeline.Shell.Number
import AssetPipeline.Text.Octets

namespace AssetPipeline.Shell

/-! ### Escapes -/

/-- Is a character a digit in base eight? -/
def isOctal (character : Char) : Bool := '0' ≤ character && character ≤ '7'

/-- The octet that up to three digits in base eight write. -/
def octalOctet (digits : Text) : Char :=
  Char.ofNat (digits.foldl (fun code digit => code * 8 + (digit.toNat - '0'.toNat)) 0 % 256)

/-- The character that a letter behind a backslash stands for. -/
def escaped? : Char → Option Char
  | '\\' => some '\\'
  | 'a' => some '\x07'
  | 'b' => some '\x08'
  | 'e' => some '\x1b'
  | 'f' => some '\x0c'
  | 'n' => some '\n'
  | 'r' => some '\r'
  | 't' => some '\t'
  | 'v' => some '\x0b'
  | _ => none

/-- The character that a backslash and the text behind it stand for, and the text behind that. A
backslash in front of anything unknown stands for itself. -/
def escape (text : Text) : Char × Text :=
  match text with
  | [] => ('\\', [])
  | head :: rest =>
    match escaped? head with
    | some character => (character, rest)
    | none =>
      if isOctal head then
        let digits := (text.take 3).takeWhile isOctal
        (octalOctet digits, text.drop digits.length)
      else ('\\', text)

/-- A text with its escapes replaced, and whether printing goes on: `\c` ends it. A zero may stand
in front of the digits of an escape. -/
def unescapeWithin : Nat → Text → Text × Bool
  | 0, _ => ([], true)
  | fuel + 1, text =>
    match text with
    | [] => ([], true)
    | '\\' :: 'c' :: _ => ([], false)
    | '\\' :: rest =>
      let digits :=
        match rest with
        | '0' :: next :: behind => if isOctal next then next :: behind else rest
        | _ => rest
      let (character, behind) := escape digits
      let (others, goesOn) := unescapeWithin fuel behind
      (character :: others, goesOn)
    | head :: rest =>
      let (others, goesOn) := unescapeWithin fuel rest
      (head :: others, goesOn)

/-- A text with its escapes replaced, and whether printing goes on. -/
def unescape (text : Text) : Text × Bool := unescapeWithin (text.length + 1) text

/-- What `echo` prints. -/
def echo (arguments : List Text) : Text :=
  let (ends, words) :=
    match arguments with
    | option :: rest => if option = ['-', 'n'] then ([], rest) else (['\n'], arguments)
    | [] => (['\n'], [])
  let (text, goesOn) := unescape (Text.joinWith ' ' words)
  if goesOn then text ++ ends else text

/-! ### Formats -/

/-- How wide a field is, or how exact a number. -/
inductive Amount where
  | number (value : Nat)
  /-- As an argument says. -/
  | ofArgument
  deriving DecidableEq

/-- A conversion of an argument. -/
structure Conversion where
  flags : Text
  width? : Option Amount
  precision? : Option Amount
  kind : Char

/-- A piece of a format. -/
inductive FormatPiece where
  | character (character : Char)
  | conversion (conversion : Conversion)
  /-- What is wrong with the format from here on. -/
  | fault (words : String)

/-- The kinds of conversions. -/
def conversionKinds : List Char := "bcsdiouxXaAeEfFgG".toList

/-- The amount at the front of a text, and the text behind it. -/
def amount (text : Text) : Option Amount × Text :=
  match text with
  | '*' :: rest => (some .ofArgument, rest)
  | _ =>
    let digits := text.takeWhile Char.isDigit
    let number := Numeral.ofDigits 10 digits
    (if digits.isEmpty then none else some (.number number), text.dropWhile Char.isDigit)

/-- The amount behind a point at the front of a text, and the text behind it. -/
def pointedAmount (text : Text) : Option Amount × Text :=
  match text with
  | '.' :: rest =>
    let (amount?, behind) := amount rest
    (some (amount?.getD (.number 0)), behind)
  | _ => (none, text)

/-- The piece behind a percent sign, and the text behind it. -/
def conversionPiece (text : Text) : FormatPiece × Text :=
  let isFlag (character : Char) : Bool := "#-+ 0".toList.contains character
  let (width?, behindWidth) := amount (text.dropWhile isFlag)
  let (precision?, behind) := pointedAmount behindWidth
  match behind with
  | [] => (.fault "missing format character", [])
  | kind :: rest =>
    if conversionKinds.contains kind then
      (.conversion ⟨text.takeWhile isFlag, width?, precision?, kind⟩, rest)
    else
      let directive := String.ofList ('%' :: text.take (text.length - rest.length))
      (.fault s!"{directive}: invalid directive", [])

/-- The pieces of a format. -/
def formatPieces : Nat → Text → List FormatPiece
  | 0, _ => []
  | fuel + 1, text =>
    match text with
    | [] => []
    | '\\' :: rest =>
      let (character, behind) := escape rest
      .character character :: formatPieces fuel behind
    | '%' :: '%' :: rest => .character '%' :: formatPieces fuel rest
    | '%' :: rest =>
      let (piece, behind) := conversionPiece rest
      piece :: formatPieces fuel behind
    | head :: rest => .character head :: formatPieces fuel rest

/-! ### Fields -/

/-- A conversion whose width and precision are known. -/
structure FieldStyle where
  isLeft : Bool
  hasZeros : Bool
  /-- What stands in front of numbers that are not negative. -/
  plus : Text
  isAlternate : Bool
  width : Nat
  precision? : Option Nat

namespace FieldStyle

/-- A text with blanks to fill the field. -/
def padded (style : FieldStyle) (text : Text) : Text :=
  let blanks := List.replicate (style.width - text.length) ' '
  if style.isLeft then text ++ blanks else blanks ++ text

/-- A number with its sign, with zeros or blanks to fill the field. -/
def signed (style : FieldStyle) (hasZeros : Bool) (sign digits : Text) : Text :=
  if hasZeros && !style.isLeft then
    sign ++ List.replicate (style.width - sign.length - digits.length) '0' ++ digits
  else style.padded (sign ++ digits)

/-- The digits of a whole number, as many as wanted at least. -/
def digits (style : FieldStyle) (base number : Nat) : Text :=
  let digits := if number = 0 && style.precision? == some 0 then [] else Nat.toDigits base number
  List.replicate (style.precision?.getD 0 - digits.length) '0' ++ digits

/-- A whole number in base ten. -/
def integer (style : FieldStyle) (number : Int) : Text :=
  let sign := if number < 0 then ['-'] else style.plus
  style.signed (style.hasZeros && style.precision?.isNone) sign (style.digits 10 number.natAbs)

/-- A whole number without a sign, in the base of a kind of conversion. -/
def natural (style : FieldStyle) (kind : Char) (number : Nat) : Text :=
  let hasZeros := style.hasZeros && style.precision?.isNone
  match kind with
  | 'o' =>
    let digits := style.digits 8 number
    let marked :=
      if style.isAlternate && digits.head? != some '0' then '0' :: digits else digits
    style.signed hasZeros [] marked
  | 'x' =>
    let mark := if style.isAlternate && number != 0 then ['0', 'x'] else []
    style.signed hasZeros mark (style.digits 16 number)
  | 'X' =>
    let mark := if style.isAlternate && number != 0 then ['0', 'X'] else []
    style.signed hasZeros mark ((style.digits 16 number).map Char.toUpper)
  | _ => style.signed hasZeros [] (style.digits 10 number)

/-- A real number in the notation of a kind of conversion. -/
def real (style : FieldStyle) (kind : Char) (isNegative : Bool) (size : RealNumber) : Text :=
  let sign := if isNegative then ['-'] else style.plus
  let places := style.precision?.getD 6
  let cased (text : Text) : Text := if kind.isUpper then text.map Char.toUpper else text
  match size with
  | .notANumber => style.signed false sign (cased ['n', 'a', 'n'])
  | .infinite => style.signed false sign (cased ['i', 'n', 'f'])
  | .finite magnitude =>
    match kind.toLower with
    | 'a' =>
      let digits := magnitude.sixteen style.precision? style.isAlternate
      style.signed style.hasZeros (sign ++ cased ['0', 'x']) (cased digits)
    | 'f' => style.signed style.hasZeros sign (magnitude.fixed places style.isAlternate)
    | 'e' => style.signed style.hasZeros sign (cased (magnitude.scientific places style.isAlternate))
    | _ => style.signed style.hasZeros sign (cased (magnitude.general places style.isAlternate))

end FieldStyle

/-! ### Printing -/

/-- How far printing has come. -/
structure Printing where
  output : Text := []
  arguments : List Text
  complaints : List String := []
  /-- Whether nothing else is printed. -/
  isOver : Bool := false
  /-- What was wrong with the format. -/
  fault? : Option String := none

namespace Printing

/-- Add to what is printed. -/
def add (printing : Printing) (text : Text) : Printing :=
  { printing with output := printing.output ++ text }

/-- Take an argument; when none is left, `none`. -/
def take (printing : Printing) : Printing × Option Text :=
  ({ printing with arguments := printing.arguments.drop 1 }, printing.arguments.head?)

/-- Complain about an argument that is not, or not wholly, a number. -/
def check (printing : Printing) (argument rest : Text) (isThere isOutOfRange : Bool) : Printing :=
  let shown := String.ofList argument
  let complaint? :=
    if ¬ rest.isEmpty then
      some (if isThere then s!"{shown}: not completely converted"
        else s!"{shown}: expected numeric value")
    else if isOutOfRange then some s!"{shown}: Numerical result out of range"
    else none
  match complaint? with
  | none => printing
  | some complaint => { printing with complaints := printing.complaints ++ [complaint] }

/-- The code of the character behind a quote, for which such an argument stands. -/
def quotedCode? (argument : Text) : Option Nat :=
  match argument with
  | '"' :: rest | '\'' :: rest => some ((rest.head?.map Char.toNat).getD 0)
  | _ => none

/-- Take a whole number within bounds. -/
def takeWhole (printing : Printing) (least greatest : Int) : Printing × Int :=
  match printing.take with
  | (taken, none) => (taken, 0)
  | (taken, some argument) =>
    match quotedCode? argument with
    | some code => (taken, code)
    | none =>
      let numeral := Numeral.read none argument
      let value := max least (min greatest numeral.value)
      (taken.check argument numeral.rest numeral.isThere (value != numeral.value), value)

/-- Take a whole number with a sign. -/
def takeInteger (printing : Printing) : Printing × Int :=
  printing.takeWhole Numeral.least Numeral.greatest

/-- Take a whole number without a sign. Negative ones are counted down from the end. -/
def takeNatural (printing : Printing) : Printing × Nat :=
  let (taken, value) := printing.takeWhole (-Numeral.greatestUnsigned) Numeral.greatestUnsigned
  (taken, (value % (Numeral.greatestUnsigned + 1)).toNat)

/-- Take a real number. -/
def takeReal (printing : Printing) : Printing × Bool × RealNumber :=
  match printing.take with
  | (taken, none) => (taken, false, .finite ⟨0, 0⟩)
  | (taken, some argument) =>
    match quotedCode? argument with
    | some code => (taken, false, .finite ⟨code, 0⟩)
    | none =>
      let numeral := RealNumeral.read argument
      (taken.check argument numeral.rest numeral.isThere numeral.isOutOfRange,
        numeral.isNegative, numeral.size)

/-- Take an amount from the arguments if it is to be found there. -/
def takeAmount (printing : Printing) : Option Amount → Printing × Option Int
  | none => (printing, none)
  | some (.number value) => (printing, some value)
  | some .ofArgument =>
    let (taken, value) := printing.takeInteger
    (taken, some value)

/-- The style of a conversion, for which amounts may have to be taken. -/
def takeStyle (printing : Printing) (conversion : Conversion) : Printing × FieldStyle :=
  let (behindWidth, width?) := printing.takeAmount conversion.width?
  let (behind, precision?) := behindWidth.takeAmount conversion.precision?
  let width := width?.getD 0
  let has (flag : Char) : Bool := conversion.flags.contains flag
  let plus := if has '+' then ['+'] else if has ' ' then [' '] else []
  let precision? := (precision?.filter (0 ≤ ·)).map Int.toNat
  (behind, ⟨has '-' || width < 0, has '0', plus, has '#', width.natAbs, precision?⟩)

/-- Print a text in a field. -/
def addText (printing : Printing) (style : FieldStyle) (text : Text) : Printing :=
  printing.add (style.padded (text.take (style.precision?.getD text.length)))

/-- Print an argument as a conversion says. -/
def convert (printing : Printing) (conversion : Conversion) : Printing :=
  let (styled, style) := printing.takeStyle conversion
  match conversion.kind with
  | 'b' =>
    let (taken, argument?) := styled.take
    let (text, goesOn) := unescape (argument?.getD [])
    { taken.addText style text with isOver := !goesOn }
  | 's' =>
    let (taken, argument?) := styled.take
    taken.addText style (argument?.getD [])
  | 'c' =>
    let (taken, argument?) := styled.take
    taken.add (style.padded [((argument?.bind List.head?).getD '\x00')])
  | 'd' | 'i' =>
    let (taken, value) := styled.takeInteger
    taken.add (style.integer value)
  | 'o' | 'u' | 'x' | 'X' =>
    let (taken, value) := styled.takeNatural
    taken.add (style.natural conversion.kind value)
  | kind =>
    let (taken, isNegative, size) := styled.takeReal
    taken.add (style.real kind isNegative size)

/-- Print a piece of a format. -/
def addPiece (printing : Printing) (piece : FormatPiece) : Printing :=
  if printing.isOver || printing.fault?.isSome then printing
  else
    match piece with
    | .character character => printing.add [character]
    | .conversion conversion => printing.convert conversion
    | .fault words => { printing with fault? := some words }

/-- Use a format again and again, until the arguments are used up. -/
def rounds (pieces : List FormatPiece) : Nat → Printing → Printing
  | 0, printing => printing
  | fuel + 1, printing =>
    let after := pieces.foldl addPiece printing
    let isFinished :=
      after.isOver || after.fault?.isSome || after.arguments.isEmpty ||
        after.arguments.length == printing.arguments.length
    if isFinished then after else rounds pieces fuel after

end Printing

/-- What a format makes of arguments. -/
def printFormat (format : Text) (arguments : List Text) : Printing :=
  Printing.rounds (formatPieces format.length format) (arguments.length + 1) { arguments }

end AssetPipeline.Shell
