import SharedQuota.Decimal

/-!
Exact amounts of a resource, counted in nano-units and held between the bounds of a signed
128-bit integer. Addition and subtraction stop at the bounds.
-/

namespace SharedQuota

/-- An amount in nano-units. -/
structure Quantity where
  nanos : Int
  ge_min : -(1 <<< 127) ≤ nanos
  lt_bound : nanos < 1 <<< 127
deriving DecidableEq

namespace Quantity

theorem ext {q r : Quantity} (h : q.nanos = r.nanos) : q = r := by
  cases q; cases r; cases h; rfl

/-- The amount nearest to `n` nano-units. -/
def ofNanos (n : Int) : Quantity :=
  ⟨max (-(1 <<< 127)) (min n ((1 <<< 127) - 1)), by omega, by omega⟩

theorem nanos_ofNanos {n : Int} (lower : -(1 <<< 127) ≤ n) (upper : n < 1 <<< 127) :
    (ofNanos n).nanos = n := by
  simp only [ofNanos]; omega

@[simp] theorem ofNanos_nanos (q : Quantity) : ofNanos q.nanos = q :=
  ext (nanos_ofNanos q.ge_min q.lt_bound)

def nanosPerUnit : Int := 1_000_000_000

def ofUnits (n : Int) : Quantity := ofNanos (n * nanosPerUnit)

instance : Zero Quantity := ⟨⟨0, by omega, by omega⟩⟩

instance : Inhabited Quantity := ⟨0⟩

@[simp] theorem nanos_zero : (0 : Quantity).nanos = 0 := rfl

def one : Quantity := ofUnits 1

instance : LE Quantity := ⟨fun q r => q.nanos ≤ r.nanos⟩

instance : LT Quantity := ⟨fun q r => q.nanos < r.nanos⟩

instance (q r : Quantity) : Decidable (q ≤ r) := inferInstanceAs (Decidable (q.nanos ≤ r.nanos))

instance (q r : Quantity) : Decidable (q < r) := inferInstanceAs (Decidable (q.nanos < r.nanos))

instance : Add Quantity := ⟨fun q r => ofNanos (q.nanos + r.nanos)⟩

instance : Sub Quantity := ⟨fun q r => ofNanos (q.nanos - r.nanos)⟩

theorem nanos_add (q r : Quantity) : (q + r).nanos = (ofNanos (q.nanos + r.nanos)).nanos := rfl

/-- What `q` has more than `r`, or nothing. -/
def excess (q r : Quantity) : Quantity := ofNanos (max 0 (q.nanos - r.nanos))

def isZero (q : Quantity) : Bool := q.nanos == 0

def isNegative (q : Quantity) : Bool := q.nanos < 0

def sum (qs : List Quantity) : Quantity := qs.foldl (· + ·) 0

def order (q r : Quantity) : Ordering := compare q.nanos r.nanos

/-! ### Text -/

/-- The amount in the largest of units, thousandths, millionths and billionths that leaves no
fraction. -/
def text (q : Quantity) : String :=
  if q.nanos % 1_000_000_000 = 0 then Decimal.text (q.nanos / 1_000_000_000)
  else if q.nanos % 1_000_000 = 0 then Decimal.text (q.nanos / 1_000_000) ++ "m"
  else if q.nanos % 1_000 = 0 then Decimal.text (q.nanos / 1_000) ++ "u"
  else Decimal.text q.nanos ++ "n"

end Quantity

end SharedQuota
