/-
This file works out the sums of shell scripts, which are whole numbers of sixty-four bits with the
operators of arithmetic, comparison, bits, choice and assignment. A sum is worked out while it is
read, so what stands in front of a fault has been done. A part that a choice does not take is read
only.
-/

import AssetPipeline.Shell.Number
import AssetPipeline.Shell.Process

namespace AssetPipeline.Shell

/-- A token of a sum. -/
inductive SumToken where
  | number (value : Int)
  | name (name : Text)
  | sign (sign : String)
  /-- A character that is no part of any sum. -/
  | other
  deriving DecidableEq

namespace SumToken

/-- The signs of sums. One that another one begins with stands behind it. -/
def signs : List String :=
  ["<<=", ">>=", "<<", ">>", "<=", ">=", "==", "!=", "&&", "||", "|=", "&=", "^=", "*=", "/=",
    "%=", "+=", "-=", "=", "<", ">", "|", "&", "^", "!", "~", "*", "/", "%", "+", "-", "(", ")",
    "?", ":"]

/-- The sign at the front of a text, and the text behind it. -/
def sign? (text : Text) : Option (String × Text) :=
  signs.findSome? fun sign => (Text.after? sign.toList text).map ((sign, ·))

def ofTextWithin : Nat → Text → List SumToken
  | 0, _ => []
  | fuel + 1, text =>
    match text with
    | [] => []
    | head :: rest =>
      if head = ' ' ∨ head = '\t' ∨ head = '\n' then ofTextWithin fuel rest
      else if head.isDigit then
        let numeral := Numeral.read none text
        .number numeral.clamped :: ofTextWithin fuel numeral.rest
      else if startsName head then
        .name (text.takeWhile continuesName) :: ofTextWithin fuel (text.dropWhile continuesName)
      else
        match sign? text with
        | some (found, behind) => .sign found :: ofTextWithin fuel behind
        | none => .other :: ofTextWithin fuel rest

def ofText (text : Text) : List SumToken := ofTextWithin text.length text

end SumToken

/-- A sum that is being worked out. -/
structure Reckoning where
  source : Text
  tokens : List SumToken

/-- Working out a sum. -/
abbrev Reckon := StateT Reckoning Act

namespace Reckon

/-- The sum cannot be worked out. -/
def refuse {Result : Type} (words : String) : Reckon Result := do
  let source := written (← get).source
  (Process.fail s!"arithmetic expression: {words}: \"{source}\"" : Act Result)

/-- Take the next token if it is a sign that belongs. -/
def takeSign (signs : List String) : Reckon (Option String) := do
  let reckoning ← get
  match reckoning.tokens with
  | .sign sign :: rest =>
    if signs.contains sign then
      set { reckoning with tokens := rest }
      return some sign
    else return none
  | _ => return none

/-- The number that a variable holds. -/
def lookUp (name : Text) : Act Int64 := do
  let value := (← get).valueOf name
  match integer? value with
  | some number => return Int64.ofInt number
  | none => Process.fail s!"Illegal number: {written value}"

/-- Give a variable a number. -/
def store (name : Text) (number : Int64) : Act Int64 := do
  Process.assign name (ascii (toString number.toInt))
  return number

/-- The number for a statement that holds or not. -/
def truth (holds : Bool) : Int64 := if holds then 1 else 0

/-- The number that an operator makes of two numbers. -/
def combine (sign : String) (first second : Int64) : Reckon Int64 := do
  match sign with
  | "*" => return first * second
  | "/" => if second = 0 then refuse "division by zero" else return first / second
  | "%" => if second = 0 then refuse "division by zero" else return first % second
  | "+" => return first + second
  | "-" => return first - second
  | "<<" => return first <<< second
  | ">>" => return first >>> second
  | "<" => return truth (first < second)
  | "<=" => return truth (first ≤ second)
  | ">" => return truth (second < first)
  | ">=" => return truth (second ≤ first)
  | "==" => return truth (first == second)
  | "!=" => return truth (first != second)
  | "&" => return first &&& second
  | "^" => return first ^^^ second
  | _ => return first ||| second

/-- The operators between two numbers, the loosest first. -/
def levels : List (List String) :=
  [["|"], ["^"], ["&"], ["==", "!="], ["<", "<=", ">", ">="], ["<<", ">>"], ["+", "-"],
    ["*", "/", "%"]]

/-- The operators that assign, and what they do with the number that is there. -/
def assigning : List (String × String) :=
  [("*=", "*"), ("/=", "/"), ("%=", "%"), ("+=", "+"), ("-=", "-"), ("<<=", "<<"), (">>=", ">>"),
    ("&=", "&"), ("^=", "^"), ("|=", "|")]

mutual

/-- A number with what stands in front of it. -/
def single (skips : Bool) : Nat → Reckon Int64
  | 0 => refuse "expecting primary"
  | fuel + 1 => do
    let reckoning ← get
    let goOn : Reckon Unit := set { reckoning with tokens := reckoning.tokens.drop 1 }
    match reckoning.tokens with
    | .number value :: _ =>
      goOn
      return Int64.ofInt value
    | .name name :: _ =>
      goOn
      if skips then return 0 else lookUp name
    | .sign "(" :: _ =>
      goOn
      let value ← assignment skips fuel
      match ← takeSign [")"] with
      | some _ => return value
      | none => refuse "expecting ')'"
    | .sign "+" :: _ =>
      goOn
      single skips fuel
    | .sign "-" :: _ =>
      goOn
      return 0 - (← single skips fuel)
    | .sign "!" :: _ =>
      goOn
      return truth ((← single skips fuel) == 0)
    | .sign "~" :: _ =>
      goOn
      return (-1 : Int64) ^^^ (← single skips fuel)
    | _ => refuse "expecting primary"

/-- Numbers with operators between them. -/
def joined (skips : Bool) : Nat → List (List String) → Reckon Int64
  | 0, _ => refuse "expecting primary"
  | fuel + 1, [] => single skips fuel
  | fuel + 1, signs :: tighter => do
    let first ← joined skips fuel tighter
    joinedFrom skips fuel signs tighter first

/-- The rest of numbers with operators between them that begin with `first`. -/
def joinedFrom (skips : Bool) : Nat → List String → List (List String) → Int64 → Reckon Int64
  | 0, _, _, _ => refuse "expecting primary"
  | fuel + 1, signs, tighter, first => do
    match ← takeSign signs with
    | none => return first
    | some sign =>
      let second ← joined skips fuel tighter
      let value ← if skips then pure second else combine sign first second
      joinedFrom skips fuel signs tighter value

/-- Numbers that are all to be true. -/
def conjunction (skips : Bool) : Nat → Reckon Int64
  | 0 => refuse "expecting primary"
  | fuel + 1 => do
    let first ← joined skips fuel levels
    match ← takeSign ["&&"] with
    | none => return first
    | some _ =>
      let second ← conjunction (skips || first == 0) fuel
      return truth (first != 0 && second != 0)

/-- Numbers of which one is to be true. -/
def disjunction (skips : Bool) : Nat → Reckon Int64
  | 0 => refuse "expecting primary"
  | fuel + 1 => do
    let first ← conjunction skips fuel
    match ← takeSign ["||"] with
    | none => return first
    | some _ =>
      let second ← disjunction (skips || first != 0) fuel
      return truth (first != 0 || second != 0)

/-- A choice of two numbers. -/
def choice (skips : Bool) : Nat → Reckon Int64
  | 0 => refuse "expecting primary"
  | fuel + 1 => do
    let condition ← disjunction skips fuel
    match ← takeSign ["?"] with
    | none => return condition
    | some _ =>
      let yes ← assignment (skips || condition == 0) fuel
      match ← takeSign [":"] with
      | none => refuse "expecting ':'"
      | some _ =>
        let no ← choice (skips || condition != 0) fuel
        return if condition != 0 then yes else no

/-- A number that a variable may be given. -/
def assignment (skips : Bool) : Nat → Reckon Int64
  | 0 => refuse "expecting primary"
  | fuel + 1 => do
    let reckoning ← get
    match reckoning.tokens with
    | .name name :: .sign sign :: rest =>
      if sign = "=" then
        set { reckoning with tokens := rest }
        let value ← assignment skips fuel
        if skips then return value else store name value
      else
        match assigning.lookup sign with
        | none => choice skips fuel
        | some operator =>
          set { reckoning with tokens := rest }
          let second ← assignment skips fuel
          if skips then return second
          else
            let first ← lookUp name
            store name (← combine operator first second)
    | _ => choice skips fuel

end

def whole : Reckon Int64 := do
  let value ← assignment false (16 * ((← get).tokens.length + 2))
  if (← get).tokens = [] then return value else refuse "expecting EOF"

end Reckon

def sum (source : Text) : Act Text := do
  let (value, _) ← Reckon.whole.run ⟨source, SumToken.ofText source⟩
  return ascii (toString value.toInt)

end AssetPipeline.Shell
