import SharedQuota.Quantity

/-!
Whole numbers, ratios and amounts as IEEE 754 doubles, rounded to the nearest and to even in a tie.
-/

namespace SharedQuota.Double

/-- A natural number as `significand * 2 ^ exponent` with a significand of at most 53 bits, plus one
in the last place. -/
def round53 (n : Nat) : Nat × Nat :=
  let e := n.log2 - 52
  let q := n >>> e
  let r := n % (1 <<< e)
  let up := 1 <<< e < 2 * r || (1 <<< e = 2 * r && q % 2 = 1)
  (if up then q + 1 else q, e)

def ofNat (n : Nat) : Float :=
  let (q, e) := round53 n
  q.toUInt64.toFloat.scaleB e

def ofInt (n : Int) : Float := if n < 0 then -ofNat n.natAbs else ofNat n.natAbs

/-! ### Magnitudes

A magnitude is a double without its sign: `significand * 2 ^ exponent`, with a significand of 53
bits at most and an exponent that is not below `minExponent`. -/

structure Magnitude where
  significand : Nat
  exponent : Int
deriving DecidableEq

def minExponent : Int := -1074

namespace Magnitude

def zero : Magnitude := ⟨0, 0⟩

def bound : Nat := 1 <<< 1024

/-- The magnitude nearest to `num / den`, unless that is beyond all of them. The exponent is the
least with which the quotient fits. -/
def ofRatio? (num den : Nat) : Option Magnitude :=
  let quotient (e : Int) : Nat := (num <<< (-e).toNat) / (den <<< e.toNat)
  let guess : Int := num.log2 - den.log2 - 53
  let e := max minExponent (if 1 <<< 53 ≤ quotient guess then guess + 1 else guess)
  let d := den <<< e.toNat
  let q := quotient e
  let r := (num <<< (-e).toNat) % d
  let m := if d < 2 * r || (d = 2 * r && q % 2 = 1) then q + 1 else q
  if m <<< e.toNat < bound then some ⟨m, e⟩ else none

def num (x : Magnitude) : Nat := x.significand <<< x.exponent.toNat

def den (x : Magnitude) : Nat := 1 <<< (-x.exponent).toNat

def mul? (x y : Magnitude) : Option Magnitude := ofRatio? (x.num * y.num) (x.den * y.den)

def div? (x y : Magnitude) : Option Magnitude := ofRatio? (x.num * y.den) (x.den * y.num)

def maxTens : Nat := 308

def tens? (n : Nat) : Option Magnitude := ofRatio? (Nat.pow 10 n) 1

/-- `n * 10 ^ e` as it comes out when `n` and the power of ten are rounded first. A divisor beyond
the powers of ten is taken in two steps, and what it would take three for is nothing. -/
def ofScaled? (n : Nat) (e : Int) : Option Magnitude := do
  let x ← ofRatio? n 1
  if n = 0 then some zero
  else if 0 ≤ e then
    if e ≤ maxTens then x.mul? (← tens? e.toNat) else none
  else if -e ≤ maxTens then x.div? (← tens? (-e).toNat)
  else if -e ≤ 2 * maxTens then
    (← x.div? (← tens? maxTens)).div? (← tens? ((-e).toNat - maxTens))
  else some zero

end Magnitude

example : Magnitude.ofScaled? 1 (-1) = Magnitude.ofRatio? 1 10 := by decide +kernel

example : Magnitude.ofScaled? 5 (-324) = some ⟨1, minExponent⟩ := by decide +kernel

end SharedQuota.Double

/-- The amount in units, for reports only. -/
def SharedQuota.Quantity.toDouble (q : SharedQuota.Quantity) : Float :=
  SharedQuota.Double.ofInt q.nanos / 1e9
