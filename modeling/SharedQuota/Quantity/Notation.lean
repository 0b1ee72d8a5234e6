import SharedQuota.Quantity
import SharedQuota.Text.Cut
import SharedQuota.Text.Quoted

/-!
The written form of amounts: an optional sign, digits with at most one point, and a suffix that
scales by a power of 1024 or of ten. `Quantity.parse` reads it; a fraction of a nano-unit is
rounded away from zero, so that reading never makes an amount look smaller.

All that is computed on the way is a `Magnitude`, which an amount can hold: sums, products and
powers are checked, and a quotient comes with the proof that it fits. Exponents are kept in 32 bits.
Of the numbers that these hold the least has no size there, and reading it as an exponent breaks
off. The length of a fraction wraps around.
-/

namespace SharedQuota.Quantity

inductive ParseError
  | empty
  | invalidNumber (quantity : String)
  | invalidSuffix (quantity suffix : String)
  | outOfRange (quantity : String)
  /-- No answer at all: the size of the exponent goes out of 32 bits. In what is under review this
  breaks the decision off; elsewhere the amount counts as one that cannot be read. -/
  | brokenOff
deriving DecidableEq

def ParseError.message : ParseError → String
  | .empty => "quantity must not be empty"
  | .invalidNumber q => "invalid number in quantity " ++ Text.quoted q
  | .invalidSuffix q s => "invalid suffix " ++ Text.quoted s ++ " in quantity " ++ Text.quoted q
  | .outOfRange q => "quantity " ++ Text.quoted q ++ " is out of range"
  | .brokenOff => "attempt to negate with overflow"

/-- A factor `1024 ^ binary * 10 ^ decimal`. -/
structure Scale where
  binary : Nat
  decimal : Int
deriving DecidableEq

/-- A number as 32 bits with a sign hold it. -/
def wrapped (n : Int) : Int := n.bmod 4294967296

/-- The largest decimal exponent, of either sign, that a suffix may name. -/
def maxExponent : Nat := 64

def splitSign : List Char → Bool × List Char
  | '-' :: rest => (true, rest)
  | '+' :: rest => (false, rest)
  | s => (false, s)

/-- The integer that a text denotes. -/
def integer? (s : List Char) : Option Int :=
  let (negative, ds) := splitSign s
  (Decimal.ofDigits? ds).map fun n : Nat => if negative then -(n : Int) else n

/-- The exponent that a text denotes, if its size is not too large. -/
def exponent? (s : List Char) : Option Int := (integer? s).filter (·.natAbs ≤ maxExponent)

/-- The least number that 32 bits hold. They do not hold its size. -/
def leastExponent : Int := -2147483648

/-- Whether the size of an exponent would have to be taken that 32 bits do not hold. -/
def breaksOff : List Char → Bool
  | 'e' :: rest => integer? rest = some leastExponent
  | 'E' :: rest => integer? rest = some leastExponent
  | _ => false

def Scale.ofSuffix? (s : List Char) : Option Scale :=
  match s with
  | [] => some ⟨0, 0⟩
  | ['n'] => some ⟨0, -9⟩
  | ['u'] => some ⟨0, -6⟩
  | ['m'] => some ⟨0, -3⟩
  | ['k'] => some ⟨0, 3⟩
  | ['M'] => some ⟨0, 6⟩
  | ['G'] => some ⟨0, 9⟩
  | ['T'] => some ⟨0, 12⟩
  | ['P'] => some ⟨0, 15⟩
  | ['E'] => some ⟨0, 18⟩
  | ['K', 'i'] => some ⟨1, 0⟩
  | ['M', 'i'] => some ⟨2, 0⟩
  | ['G', 'i'] => some ⟨3, 0⟩
  | ['T', 'i'] => some ⟨4, 0⟩
  | ['P', 'i'] => some ⟨5, 0⟩
  | ['E', 'i'] => some ⟨6, 0⟩
  | 'e' :: rest => (exponent? rest).map (⟨0, ·⟩)
  | 'E' :: rest => (exponent? rest).map (⟨0, ·⟩)
  | _ => none

/-- A quantity as written: its sign, its digits before and after the point, and its scale. -/
structure Notation where
  negative : Bool
  whole : List Char
  fraction : List Char
  scale : Scale
deriving DecidableEq

/-- Whether a character belongs to the number, not to the suffix. -/
def inNumber (c : Char) : Bool := Decimal.isDigit c || c == '.'

def Notation.parse (text : String) : Except ParseError Notation :=
  if text.isEmpty then .error .empty
  else
    let (negative, s) := splitSign text.toList
    let number := s.takeWhile inNumber
    let suffix := s.dropWhile inNumber
    let (whole, fraction) := (Text.cutFirst? '.' number).getD (number, [])
    if (whole.isEmpty && fraction.isEmpty) || fraction.contains '.' then
      .error (.invalidNumber text)
    else match Scale.ofSuffix? suffix with
      | none =>
        .error (if breaksOff suffix then .brokenOff else .invalidSuffix text (String.ofList suffix))
      | some scale => .ok ⟨negative, whole, fraction, scale⟩

/-! ### What is computed -/

/-- A number of nano-units that an amount can hold with either sign. -/
structure Magnitude where
  nanos : Nat
  lt_bound : nanos < 1 <<< 127
deriving DecidableEq

def ceilDiv (n d : Nat) : Nat := if n % d = 0 then n / d else n / d + 1

theorem ceilDiv_lt {n bound : Nat} (d : Nat) (h : n < bound) (hone : 1 < bound) :
    ceilDiv n d < bound := by
  rw [ceilDiv]
  split
  next => exact Nat.lt_of_le_of_lt (Nat.div_le_self n d) h
  next hrest =>
    have hpos : 0 < n := Nat.pos_of_ne_zero fun hn => hrest (by simp [hn])
    match d with
    | 0 => simpa using hone
    | 1 => exact absurd (Nat.mod_one n) hrest
    | d + 2 =>
      have hless : n / (d + 2) < n := Nat.div_lt_self hpos (by omega)
      omega

namespace Magnitude

def of? (n : Nat) : Option Magnitude := if h : n < 1 <<< 127 then some ⟨n, h⟩ else none

def zero : Magnitude := ⟨0, by decide⟩

def one : Magnitude := ⟨1, by decide⟩

/-- A number with one more digit. -/
def push? (n : Magnitude) (c : Char) : Option Magnitude := do
  let tens ← of? (10 * n.nanos)
  of? (tens.nanos + Decimal.digitValue c)

/-- A power of ten. The powers above the thirty-eighth do not fit. -/
def power? (k : Nat) : Option Magnitude := if k ≤ 38 then of? (Nat.pow 10 k) else none

def ceilDiv (n d : Magnitude) : Magnitude :=
  ⟨Quantity.ceilDiv n.nanos d.nanos, ceilDiv_lt d.nanos n.lt_bound (by decide)⟩

/-- A number times a power of ten. The power and the product must be in range; dividing rounds
up. -/
def scale? (n : Magnitude) (shift : Int) : Option Magnitude :=
  if 0 ≤ shift then do
    let power ← power? shift.toNat
    of? (n.nanos * power.nanos)
  else
    match power? (-shift).toNat with
    | some power => some (n.ceilDiv power)
    -- divided by more than an amount can hold, all but nothing rounds up to one
    | none => some (if n.nanos = 0 then zero else one)

def signed (n : Magnitude) (negative : Bool) : Quantity :=
  ⟨if negative then -n.nanos else n.nanos,
    by have := n.lt_bound; split <;> omega, by have := n.lt_bound; split <;> omega⟩

end Magnitude

namespace Notation

/-- All digits read as one whole number, in range after each of them. -/
def mantissa? (q : Notation) : Option Magnitude :=
  (q.whole ++ q.fraction).foldlM Magnitude.push? .zero

/-- The digits times the binary multiple. -/
def multiple? (q : Notation) : Option Magnitude := do
  let m ← q.mantissa?
  let factor ← Magnitude.of? (Nat.pow 1024 q.scale.binary)
  Magnitude.of? (m.nanos * factor.nanos)

def shift (q : Notation) : Int := wrapped (9 + q.scale.decimal - q.fraction.length)

/-- The nano-units without the sign. -/
def magnitude? (q : Notation) : Option Magnitude := do
  let n ← q.multiple?
  n.scale? q.shift

def value? (q : Notation) : Option Quantity := q.magnitude?.map (·.signed q.negative)

end Notation

def parse (text : String) : Except ParseError Quantity := do
  let q ← Notation.parse text
  match q.value? with
  | none => .error (.outOfRange text)
  | some v => .ok v

end SharedQuota.Quantity
