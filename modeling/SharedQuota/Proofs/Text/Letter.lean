import SharedQuota.Text.Letter

/-!
The letters and digits of ASCII as ranges of characters.
-/

namespace SharedQuota.Text

/-- A character of `[A-Za-z0-9]`. -/
def IsLetterOrDigit (c : Char) : Prop :=
  'a' ≤ c ∧ c ≤ 'z' ∨ 'A' ≤ c ∧ c ≤ 'Z' ∨ '0' ≤ c ∧ c ≤ '9'

/-- A character of `[a-z0-9]`. -/
def IsLowerOrDigit (c : Char) : Prop := 'a' ≤ c ∧ c ≤ 'z' ∨ '0' ≤ c ∧ c ≤ '9'

instance : DecidablePred IsLetterOrDigit := fun _ => inferInstanceAs (Decidable (_ ∨ _))

instance : DecidablePred IsLowerOrDigit := fun _ => inferInstanceAs (Decidable (_ ∨ _))

theorem isLower_iff {c : Char} : isLower c = true ↔ 'a' ≤ c ∧ c ≤ 'z' := by
  simp [isLower]

theorem isUpper_iff {c : Char} : isUpper c = true ↔ 'A' ≤ c ∧ c ≤ 'Z' := by
  simp [isUpper]

theorem isDigit_iff {c : Char} : Decimal.isDigit c = true ↔ '0' ≤ c ∧ c ≤ '9' := by
  simp [Decimal.isDigit]

theorem isAlphanumeric_iff {c : Char} : isAlphanumeric c = true ↔ IsLetterOrDigit c := by
  simp only [isAlphanumeric, Bool.or_eq_true, isLower_iff, isUpper_iff, isDigit_iff, or_assoc,
    IsLetterOrDigit]

theorem isLowerOrDigit_iff {c : Char} : isLowerOrDigit c = true ↔ IsLowerOrDigit c := by
  simp only [isLowerOrDigit, Bool.or_eq_true, isLower_iff, isDigit_iff, IsLowerOrDigit]

end SharedQuota.Text
