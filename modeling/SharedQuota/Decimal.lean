/-!
Decimal digits of natural numbers and integers: `value` reads digits, `digits` writes the shortest
of them, and `value_digits` says that what is written reads back.
-/

namespace SharedQuota.Decimal

def digitChar (d : Nat) : Char := Char.ofNat (0x30 + d)

def isDigit (c : Char) : Bool := '0' ≤ c && c ≤ '9'

def digitValue (c : Char) : Nat := c.toNat - 0x30

/-- The number a list of digits denotes, most significant first. -/
def value (s : List Char) : Nat := s.foldl (fun n c => 10 * n + digitValue c) 0

def digits (n : Nat) : List Char :=
  if n < 10 then [digitChar n] else digits (n / 10) ++ [digitChar (n % 10)]

def text (n : Int) : String :=
  String.ofList (if n < 0 then '-' :: digits n.natAbs else digits n.natAbs)

/-- The number a non-empty text of digits denotes. -/
def ofDigits? (s : List Char) : Option Nat :=
  if s ≠ [] ∧ s.all isDigit then some (value s) else none

/-- The number that digits denote, with a plus sign or without. -/
def ofPlusDigits? : List Char → Option Nat
  | '+' :: s => ofDigits? s
  | s => ofDigits? s

theorem isDigit_digitChar {d : Nat} (h : d < 10) : isDigit (digitChar d) = true := by
  have : ∀ d : Fin 10, isDigit (digitChar d) = true := by decide
  exact this ⟨d, h⟩

theorem digitValue_digitChar {d : Nat} (h : d < 10) : digitValue (digitChar d) = d := by
  have : ∀ d : Fin 10, digitValue (digitChar d) = d := by decide
  exact this ⟨d, h⟩

@[simp] theorem value_nil : value [] = 0 := rfl

theorem value_append_singleton (s : List Char) (c : Char) :
    value (s ++ [c]) = 10 * value s + digitValue c := by
  simp [value]

@[simp] theorem value_digits (n : Nat) : value (digits n) = n := by
  induction n using Nat.strongRecOn with
  | ind n ih =>
    rw [digits]
    split
    next h => simp [value, digitValue_digitChar h]
    next h =>
      rw [value_append_singleton, ih (n / 10) (by omega), digitValue_digitChar (by omega)]
      omega

theorem all_isDigit_digits (n : Nat) : (digits n).all isDigit = true := by
  induction n using Nat.strongRecOn with
  | ind n ih =>
    rw [digits]
    split
    next h => simp [isDigit_digitChar h]
    next h => simp [ih (n / 10) (by omega), isDigit_digitChar (show n % 10 < 10 by omega)]

theorem digits_ne_nil (n : Nat) : digits n ≠ [] := by
  rw [digits]; split <;> simp

theorem ofDigits?_digits (n : Nat) : ofDigits? (digits n) = some n := by
  simp [ofDigits?, digits_ne_nil, all_isDigit_digits]

end SharedQuota.Decimal
