import SharedQuota.Proofs.Quantity.Exact

/-!
Amounts that are written and read back. A text of an amount is a whole number and a unit, of which
no fraction is left, so that nothing is rounded on the way back. Main statement (`parse_text`):
every amount but the least reads back, and no two amounts have the same text.
-/

namespace SharedQuota

namespace Quantity

/-- The suffixes of the units in which amounts are written, each with the number of zeros by which
it is more than a nano-unit. -/
def units : List (List Char × Nat) := [([], 9), (['m'], 6), (['u'], 3), (['n'], 0)]

/-- A whole number of units, in nano-units. -/
structure IsWrittenAs (q : Quantity) (n : Int) (suffix : List Char) (zeros : Nat) : Prop where
  unit : (suffix, zeros) ∈ units
  nanos : q.nanos = n * 10 ^ zeros
  text : q.text = Decimal.text n ++ String.ofList suffix

theorem exists_isWrittenAs (q : Quantity) : ∃ n suffix zeros, IsWrittenAs q n suffix zeros := by
  by_cases hunit : q.nanos % 1_000_000_000 = 0
  · refine ⟨q.nanos / 1_000_000_000, [], 9, by decide, by omega, ?_⟩
    simp [text, hunit]
  by_cases hmilli : q.nanos % 1_000_000 = 0
  · refine ⟨q.nanos / 1_000_000, ['m'], 6, by decide, by omega, ?_⟩
    rw [text, if_neg hunit, if_pos hmilli]
  by_cases hmicro : q.nanos % 1_000 = 0
  · refine ⟨q.nanos / 1_000, ['u'], 3, by decide, by omega, ?_⟩
    rw [text, if_neg hunit, if_neg hmilli, if_pos hmicro]
  · refine ⟨q.nanos, ['n'], 0, by decide, by omega, ?_⟩
    rw [text, if_neg hunit, if_neg hmilli, if_neg hmicro]

/-! ### Whole numbers as they are written -/

theorem isDigit_of_mem_digits {n : Nat} {c : Char} (hc : c ∈ Decimal.digits n) :
    Decimal.isDigit c = true := List.all_eq_true.1 (Decimal.all_isDigit_digits n) c hc

theorem point_not_mem_digits (n : Nat) : '.' ∉ Decimal.digits n := fun hpoint =>
  absurd (isDigit_of_mem_digits hpoint) (by decide)

theorem isNumber_digits (n : Nat) : IsNumber (Decimal.digits n) := by
  obtain ⟨c, hc⟩ := List.exists_mem_of_ne_nil _ (Decimal.digits_ne_nil n)
  refine ⟨⟨c, hc, isDigit_of_mem_digits hc⟩, ?_⟩
  rw [List.count_eq_zero_of_not_mem (point_not_mem_digits n)]
  exact Nat.zero_le 1

theorem mantissa_digits (n : Nat) : mantissa (Decimal.digits n) = n := by
  rw [mantissa_of_isDigit fun c => isDigit_of_mem_digits, Decimal.value_digits]

theorem places_digits (n : Nat) : places (Decimal.digits n) = 0 :=
  places_of_not_mem (point_not_mem_digits n)

theorem splitSign_text (n : Int) (suffix : List Char) :
    splitSign (Decimal.text n ++ String.ofList suffix).toList =
      (decide (n < 0), Decimal.digits n.natAbs ++ suffix) := by
  rw [← signed_iff]
  by_cases hn : n < 0
  · simp only [Decimal.text, hn, if_true, String.toList_append, String.toList_ofList, decide_true]
    exact .minus _
  · simp only [Decimal.text, hn, if_false, String.toList_append, String.toList_ofList, decide_false]
    refine .unsigned fun c hc => ?_
    obtain ⟨d, rest, hdigits⟩ := List.exists_cons_of_ne_nil (Decimal.digits_ne_nil n.natAbs)
    rw [hdigits] at hc
    obtain rfl : d = c := by simpa using hc
    have hdigit : Decimal.isDigit d = true :=
      isDigit_of_mem_digits (hdigits ▸ List.mem_cons_self ..)
    refine ⟨?_, ?_⟩ <;> rintro rfl <;> exact absurd hdigit (by decide)

/-! ### Reading back -/

namespace IsWrittenAs

variable {q : Quantity} {n : Int} {suffix : List Char} {zeros : Nat}

theorem isCut (h : IsWrittenAs q n suffix zeros) :
    IsCut q.text (decide (n < 0)) (Decimal.digits n.natAbs) suffix := by
  refine isCut_of_splitSign (h.text ▸ splitSign_text n suffix) ?_ ?_
  · exact List.all_eq_true.2 fun c hc => inNumber_iff.2 (.inl (isDigit_of_mem_digits hc))
  · have hall : ∀ unit ∈ units, unit.1.head?.any inNumber = false := by decide
    exact hall _ h.unit

theorem isSpelled (h : IsWrittenAs q n suffix zeros) :
    Scale.IsSpelled suffix ⟨0, zeros - 9⟩ := by
  have hall : ∀ unit ∈ units, (unit.1, (⟨0, unit.2 - 9⟩ : Scale)) ∈ Scale.names := by decide
  exact .name (hall _ h.unit)

theorem shift_eq (n : Nat) (zeros : Nat) :
    9 + ((zeros : Int) - 9) - places (Decimal.digits n) = zeros := by
  rw [places_digits]
  omega

theorem ceil_exact (n : Nat) (zeros : Nat) :
    ⌈exact (Decimal.digits n) ⟨0, zeros - 9⟩⌉ = n * 10 ^ zeros := by
  rw [exact_eq, mantissa_digits, shift_eq, zpow_natCast, Nat.pow_zero, Nat.mul_one]
  exact_mod_cast Int.ceil_natCast (n * 10 ^ zeros)

theorem natAbs_nanos (h : IsWrittenAs q n suffix zeros) :
    q.nanos.natAbs = n.natAbs * 10 ^ zeros := by
  rw [h.nanos, Int.natAbs_mul, Int.natAbs_pow]
  rfl

theorem places_lt (n : Nat) : places (Decimal.digits n) < 2 ^ 30 := by
  rw [places_digits]
  decide

/-- The number of nano-units is the largest number on the way back, if it is not zero. Of all
amounts only the least is too large for that. -/
theorem parse_eq_outOfRange_iff (h : IsWrittenAs q n suffix zeros) :
    parse q.text = .error (.outOfRange q.text) ↔ q.nanos = -(2 ^ 127) := by
  have hzeros : 10 ^ zeros ≤ 10 ^ 9 := by
    have hall : ∀ unit ∈ units, 10 ^ unit.2 ≤ 10 ^ 9 := by decide
    exact hall _ h.unit
  have hnanos := h.natAbs_nanos
  have hmin := q.ge_min
  have hmax := q.lt_bound
  rw [Quantity.parse_eq_outOfRange_iff h.isCut (isNumber_digits _) h.isSpelled, reach,
    wrapped_shift h.isSpelled (places_lt _), shift_eq, mantissa_digits, Int.toNat_natCast,
    Nat.pow_zero, Nat.mul_one]
  rcases Nat.eq_zero_or_pos n.natAbs with hzero | hpos
  · rw [hzero, Nat.zero_mul] at hnanos
    rw [hzero, Nat.max_eq_left (Nat.zero_le 1), Nat.one_mul]
    omega
  · rw [Nat.max_eq_right hpos, ← hnanos]
    omega

theorem eq_of_parse (h : IsWrittenAs q n suffix zeros) {r : Quantity}
    (hr : parse q.text = .ok r) : r = q := by
  have hsigned : (if decide (n < 0) = true then -1 else 1) * (n.natAbs : Int) = n := by
    simp only [decide_eq_true_eq]
    split <;> omega
  have hnanos := Quantity.nanos_of_parse h.isCut (isNumber_digits _) h.isSpelled (places_lt _) hr
  rw [ceil_exact, ← mul_assoc, hsigned, ← h.nanos] at hnanos
  exact Quantity.ext hnanos

end IsWrittenAs

theorem parse_text_eq (q : Quantity) :
    parse q.text = if q.nanos = -(2 ^ 127) then .error (.outOfRange q.text) else .ok q := by
  obtain ⟨n, suffix, zeros, h⟩ := exists_isWrittenAs q
  split
  next hleast => exact h.parse_eq_outOfRange_iff.2 hleast
  next hleast =>
    obtain hrange | ⟨r, hr⟩ := parse_of_scale h.isCut (isNumber_digits _) h.isSpelled.ofSuffix?_eq
    · exact absurd (h.parse_eq_outOfRange_iff.1 hrange) hleast
    · rw [hr, h.eq_of_parse hr]

/-- The text of an amount tells it from all others. The text of the least does not read back, and
is no other's for that. -/
theorem text_injective {q r : Quantity} (h : q.text = r.text) : q = r := by
  have hparse := (parse_text_eq q).symm.trans ((congrArg parse h).trans (parse_text_eq r))
  split at hparse <;> split at hparse
  next hq hr => exact Quantity.ext (hq.trans hr.symm)
  next => cases hparse
  next => cases hparse
  next => exact Except.ok.inj hparse

/-- What is written reads back, but for the least amount, and amounts are written alike only if they
are the same, whatever texts they have been read from. -/
theorem parse_text :
    (∀ q : Quantity, -(2 ^ 127) < q.nanos → parse q.text = .ok q) ∧
    (∀ q r : Quantity, q.text = r.text → q = r) ∧
    ∀ s t a b, parse s = .ok a → parse t = .ok b → (a.text = b.text ↔ a.nanos = b.nanos) := by
  refine ⟨fun q hmin => ?_, fun q r => text_injective, fun s t a b _ _ => ?_⟩
  · rw [parse_text_eq, if_neg (by omega)]
  · constructor
    · intro htext
      rw [text_injective htext]
    · intro hnanos
      rw [Quantity.ext hnanos]

theorem parse_text_secondLeast :
    parse (⟨-(2 ^ 127) + 1, by decide, by decide⟩ : Quantity).text =
      .ok ⟨-(2 ^ 127) + 1, by decide, by decide⟩ :=
  parse_text.1 _ (by decide)

end Quantity

end SharedQuota
