/-
This file finds the binary number of double precision nearest to a fraction, a tie going to the
even neighbour. A fraction beyond the largest such number has none.
-/

import AssetPipeline.Text.Basic

namespace AssetPipeline

/-- The size of a binary number of double precision: `significand * 2 ^ exponent`. -/
structure Magnitude where
  significand : Nat
  exponent : Int
  deriving DecidableEq

/-- The fraction `number * base ^ exponent`, as numerator and denominator. -/
def scaled (number base : Nat) (exponent : Int) : Nat × Nat :=
  if 0 ≤ exponent then (number * base.pow exponent.toNat, 1)
  else (number, base.pow (-exponent).toNat)

/-- The whole number nearest to a fraction; a tie goes to the even one. -/
def roundHalfEven (numerator denominator : Nat) : Nat :=
  let quotient := numerator / denominator
  let twice := 2 * (numerator % denominator)
  if denominator < twice ∨ (twice = denominator ∧ quotient % 2 = 1) then quotient + 1
  else quotient

namespace Magnitude

/-- The number of binary digits of a significand. -/
def precision : Nat := 53

/-- Significands stay below this. -/
def significandBound : Nat := Nat.pow 2 precision

def leastExponent : Int := -1074

def greatestExponent : Int := 971

/-- The multiple of `2 ^ exponent` nearest to a fraction. -/
def onGrid (numerator denominator : Nat) (exponent : Int) : Nat :=
  let (upper, lower) := scaled 1 2 (-exponent)
  roundHalfEven (numerator * upper) (denominator * lower)

/-- The magnitude nearest to a fraction, if it is not too large. -/
def nearestFraction? (numerator denominator : Nat) : Option Magnitude :=
  if numerator = 0 then some ⟨0, leastExponent⟩
  else
    let guess : Int := Nat.log2 numerator - Nat.log2 denominator - precision
    let (upper, lower) := scaled 1 2 (-guess)
    let fits := numerator * upper / (denominator * lower) < significandBound
    let exponent := max leastExponent (if fits then guess else guess + 1)
    let significand := onGrid numerator denominator exponent
    let rounded : Magnitude :=
      if significand = significandBound then ⟨significandBound / 2, exponent + 1⟩
      else ⟨significand, exponent⟩
    if greatestExponent < rounded.exponent then none else some rounded

/-- The magnitude nearest to `digits * 10 ^ exponent`, if it is not too large. Numbers far
outside the range are settled by their size alone. -/
def nearest? (digits : Nat) (exponent : Int) : Option Magnitude :=
  let size : Int := (Nat.toDigits 10 digits).length + exponent
  if digits = 0 ∨ size < -400 then some ⟨0, leastExponent⟩
  else if 400 < size then none
  else
    let (numerator, denominator) := scaled digits 10 exponent
    nearestFraction? numerator denominator

end Magnitude

end AssetPipeline
