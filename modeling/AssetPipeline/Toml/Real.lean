/-
This file reads and writes the real numbers of settings files. A decimal literal stands for the
binary number of double precision nearest to it; a literal beyond the largest such number stands
for none. A number is written with the fewest digits that stand for it again, the nearest such
digits, the larger of two equally near, and always positionally.
-/

import AssetPipeline.Real.Magnitude

namespace AssetPipeline

namespace Magnitude

/-- Does the decimal `digits * 10 ^ exponent` stand for this magnitude? -/
def isNearest (magnitude : Magnitude) (digits : Nat) (exponent : Int) : Bool :=
  nearest? digits exponent == some magnitude

/-- How far apart `digits * 10 ^ exponent` and the magnitude are, over a common denominator. -/
def distance (magnitude : Magnitude) (digits : Nat) (exponent : Int) : Nat :=
  let (tenOver, tenUnder) := scaled digits 10 exponent
  let (twoOver, twoUnder) := scaled magnitude.significand 2 magnitude.exponent
  let first := tenOver * twoUnder
  let second := twoOver * tenUnder
  (first - second) + (second - first)

/-- Of the two multiples of `10 ^ exponent` around the magnitude, the nearer one that stands for
it, if one does. Of two equally near ones it is the larger. -/
def onDecimalGrid? (magnitude : Magnitude) (exponent : Int) : Option (Nat × Int) :=
  let (upper, lower) := scaled magnitude.significand 2 magnitude.exponent
  let (tenOver, tenUnder) := scaled 1 10 exponent
  let below := upper * tenUnder / (lower * tenOver)
  let candidates := [below, below + 1].filter (magnitude.isNearest · exponent)
  match candidates with
  | [] => none
  | [digits] => some (digits, exponent)
  | first :: second :: _ =>
    if magnitude.distance first exponent < magnitude.distance second exponent then
      some (first, exponent)
    else some (second, exponent)

/-- The first exponent, going down, at which a decimal stands for the magnitude. -/
def shortestFrom (magnitude : Magnitude) : Nat → Int → Nat × Int
  | 0, exponent => (0, exponent)
  | fuel + 1, exponent =>
    match magnitude.onDecimalGrid? exponent with
    | some found => found
    | none => shortestFrom magnitude fuel (exponent - 1)

/-- The shortest decimal that stands for the magnitude: its digits and their exponent. -/
def shortest (magnitude : Magnitude) : Nat × Int :=
  if magnitude.significand = 0 then (0, 0)
  else magnitude.shortestFrom 700 310

/-- A decimal written positionally, with at least one digit behind the point. -/
def positional (digits : Nat) (exponent : Int) : String :=
  let written := Nat.toDigits 10 digits
  if 0 ≤ exponent then
    String.ofList (if digits = 0 then ['0'] else written ++ List.replicate exponent.toNat '0') ++
      ".0"
  else
    let places := (-exponent).toNat
    let padded := List.replicate (places + 1 - written.length) '0' ++ written
    let whole := padded.take (padded.length - places)
    let part := padded.drop (padded.length - places)
    String.ofList whole ++ "." ++ String.ofList part

/-- The magnitude, written. -/
def render (magnitude : Magnitude) : String :=
  let (digits, exponent) := magnitude.shortest
  positional digits exponent

end Magnitude

namespace Toml

/-- A real number as a literal gives it. -/
inductive RealLiteral where
  | notANumber
  | infinite (negative : Bool)
  /-- The number `digits * 10 ^ exponent`. -/
  | decimal (negative : Bool) (digits : Nat) (exponent : Int)
  deriving DecidableEq

/-- The number that a literal stands for, written; none when it is too large. -/
def RealLiteral.render? : RealLiteral → Option String
  | .notANumber => some "NaN"
  | .infinite negative => some (if negative then "-inf" else "inf")
  | .decimal negative digits exponent =>
    (Magnitude.nearest? digits exponent).map fun magnitude =>
      (if negative then "-" else "") ++ magnitude.render

end Toml

end AssetPipeline
