import SharedQuota.Quantity.Notation
import Mathlib.Algebra.Order.Field.Power
import Mathlib.Data.Rat.Floor

/-!
What is computed of a spelled amount, against exact arithmetic. Main statements: a number is
computed as long as the largest number on the way, `Notation.reach`, fits
(`Notation.magnitude?_eq_none_iff`), and then it is the exact one, rounded up
(`Notation.nanos_of_magnitude?`).
-/

namespace SharedQuota

namespace Quantity

/-! ### Rounding up -/

theorem ceil_div (n : Nat) {d : Nat} (hd : 0 < d) : ⌈(n : ℚ) / d⌉ = ceilDiv n d := by
  have hdivided : (d : Int) * (n / d : Nat) + (n % d : Nat) = n := mod_cast Nat.div_add_mod n d
  have hrest : n % d < d := Nat.mod_lt n hd
  rw [Rat.ceil_natCast_div_natCast, ceilDiv]
  split
  next hmod =>
    rw [Int.neg_ediv_of_dvd (mod_cast Nat.dvd_of_mod_eq_zero hmod)]
    simp
  next hmod =>
    -- what is left over makes the quotient of the opposite one less
    have hopposite : -(n : Int) / d = -(n / d : Nat) - 1 := by
      refine ((Int.ediv_emod_unique (r := d - (n % d : Nat)) (by omega)).2 ⟨?_, ?_, ?_⟩).1
      · rw [mul_sub, mul_neg]
        omega
      · omega
      · omega
    rw [hopposite]
    push_cast
    omega

/-- A power of ten as a quotient of whole numbers, one of which is one. -/
theorem ten_zpow (shift : Int) :
    (10 : ℚ) ^ shift = (10 ^ shift.toNat : Nat) / (10 ^ (-shift).toNat : Nat) := by
  have hsplit : shift = shift.toNat - (-shift).toNat := by omega
  conv_lhs => rw [hsplit, zpow_sub₀ (by norm_num)]
  push_cast
  simp only [zpow_natCast]

theorem ceil_mul_ten_zpow (n : Nat) (shift : Int) :
    ⌈(n : ℚ) * 10 ^ shift⌉ = ceilDiv (n * 10 ^ shift.toNat) (10 ^ (-shift).toNat) := by
  rw [ten_zpow, ← mul_div_assoc, ← Nat.cast_mul, ceil_div _ (Nat.pow_pos (by decide))]

/-! ### Numbers in range -/

namespace Magnitude

variable {m m' n : Magnitude}

theorem ext_iff : m = m' ↔ m.nanos = m'.nanos := by
  cases m
  cases m'
  simp

theorem of?_eq_some_iff {k : Nat} : of? k = some m ↔ m.nanos = k := by
  have hbound := m.lt_bound
  unfold of?
  split
  · simp [ext_iff, eq_comm]
  · simp
    omega

theorem of?_eq_none_iff {k : Nat} : of? k = none ↔ 2 ^ 127 ≤ k := by
  unfold of?
  split <;> simp <;> omega

theorem of?_nanos (m : Magnitude) : of? m.nanos = some m := of?_eq_some_iff.2 rfl

theorem power?_eq (k : Nat) : power? k = of? (10 ^ k) := by
  unfold power?
  split
  next => rfl
  next h =>
    have hpow : 10 ^ 39 ≤ 10 ^ k := Nat.pow_le_pow_right (by decide) (by omega)
    exact (of?_eq_none_iff.2 (by omega)).symm

theorem push?_eq (m : Magnitude) (c : Char) :
    m.push? c = of? (10 * m.nanos + Decimal.digitValue c) := by
  cases htens : of? (10 * m.nanos) with
  | none =>
    have hbound := of?_eq_none_iff.1 htens
    rw [push?, htens, of?_eq_none_iff.2 (by omega)]
    rfl
  | some tens =>
    rw [push?, htens, ← of?_eq_some_iff.1 htens]
    rfl

theorem le_foldl_digits (ds : List Char) (n : Nat) :
    n ≤ ds.foldl (fun n c => 10 * n + Decimal.digitValue c) n := by
  induction ds generalizing n with
  | nil => simp
  | cons c rest ih =>
    have hrest := ih (10 * n + Decimal.digitValue c)
    rw [List.foldl_cons]
    omega

/-- Numbers only grow by their digits, so that it does not matter after which of them a number is
found out of range. -/
theorem foldlM_push? (ds : List Char) (m : Magnitude) :
    ds.foldlM push? m = of? (ds.foldl (fun n c => 10 * n + Decimal.digitValue c) m.nanos) := by
  induction ds generalizing m with
  | nil => exact (of?_nanos m).symm
  | cons c rest ih =>
    rw [List.foldlM_cons, push?_eq, List.foldl_cons]
    cases hpushed : of? (10 * m.nanos + Decimal.digitValue c) with
    | none =>
      have hbound := of?_eq_none_iff.1 hpushed
      have hgrows := le_foldl_digits rest (10 * m.nanos + Decimal.digitValue c)
      exact (of?_eq_none_iff.2 (by omega)).symm
    | some pushed =>
      rw [← of?_eq_some_iff.1 hpushed]
      exact ih pushed

theorem scale?_of_nonneg {shift : Int} (h : 0 ≤ shift) : n.scale? shift = some m ↔
    max 1 n.nanos * 10 ^ shift.toNat < 2 ^ 127 ∧ m.nanos = n.nanos * 10 ^ shift.toNat := by
  have hbound := m.lt_bound
  rw [scale?, if_pos h, power?_eq]
  simp only [Option.bind_eq_bind, Option.bind_eq_some_iff, of?_eq_some_iff]
  generalize 10 ^ shift.toNat = factor
  constructor
  · rintro ⟨power, rfl, hm⟩
    refine ⟨?_, hm⟩
    have hpower := power.lt_bound
    rcases Nat.eq_zero_or_pos n.nanos with hzero | hpos
    · rw [hzero, Nat.max_eq_left (Nat.zero_le 1), Nat.one_mul]
      exact hpower
    · rw [Nat.max_eq_right hpos, ← hm]
      exact hbound
  · rintro ⟨hreach, hm⟩
    have hfactor : factor ≤ max 1 n.nanos * factor :=
      Nat.le_mul_of_pos_left factor (Nat.lt_of_lt_of_le Nat.one_pos (Nat.le_max_left ..))
    exact ⟨⟨factor, by omega⟩, rfl, hm⟩

theorem scale?_of_neg {shift : Int} (h : ¬ 0 ≤ shift) :
    n.scale? shift = some m ↔ m.nanos = Quantity.ceilDiv n.nanos (10 ^ (-shift).toNat) := by
  have hbound := n.lt_bound
  rw [scale?, if_neg h, power?_eq]
  cases hpower : of? (10 ^ (-shift).toNat) with
  | some power =>
    rw [← of?_eq_some_iff.1 hpower, Option.some.injEq, eq_comm, ext_iff]
    rfl
  | none =>
    have hgreat : n.nanos < 10 ^ (-shift).toNat := by
      have := of?_eq_none_iff.1 hpower
      omega
    have hquotient : Quantity.ceilDiv n.nanos (10 ^ (-shift).toNat) =
        if n.nanos = 0 then 0 else 1 := by
      rw [Quantity.ceilDiv, Nat.mod_eq_of_lt hgreat, Nat.div_eq_of_lt hgreat]
    rw [hquotient, Option.some.injEq, eq_comm, ext_iff]
    split <;> rfl

/-- A number times a power of ten is computed if the power, and with something the product, fits.
Where it divides nothing is multiplied, and the other way round. -/
theorem scale?_eq_some_iff {shift : Int} : n.scale? shift = some m ↔
    max 1 n.nanos * 10 ^ shift.toNat < 2 ^ 127 ∧
      m.nanos = Quantity.ceilDiv (n.nanos * 10 ^ shift.toNat) (10 ^ (-shift).toNat) := by
  by_cases h : 0 ≤ shift
  · have hnone : (-shift).toNat = 0 := by omega
    rw [scale?_of_nonneg h, hnone, Nat.pow_zero, Quantity.ceilDiv, if_pos (Nat.mod_one _),
      Nat.div_one]
  · have hnone : shift.toNat = 0 := by omega
    have hfits : max 1 n.nanos < 2 ^ 127 := Nat.max_lt.2 ⟨by decide, n.lt_bound⟩
    rw [scale?_of_neg h, hnone, Nat.pow_zero, Nat.mul_one, Nat.mul_one, and_iff_right hfits]

end Magnitude

/-! ### Amounts -/

namespace Notation

variable {q : Notation} {n : Magnitude}

/-- The digits times the binary multiple, as they are. -/
def multiple (q : Notation) : Nat := Decimal.value (q.whole ++ q.fraction) * 1024 ^ q.scale.binary

/-- The largest number on the way to an amount; nothing counts as one. -/
def reach (q : Notation) : Nat := max 1 q.multiple * 10 ^ q.shift.toNat

theorem mantissa?_eq (q : Notation) :
    q.mantissa? = Magnitude.of? (Decimal.value (q.whole ++ q.fraction)) :=
  Magnitude.foldlM_push? _ .zero

theorem multiple?_eq (h : q.scale.binary ≤ 6) : q.multiple? = Magnitude.of? q.multiple := by
  have hpos : 1 ≤ 1024 ^ q.scale.binary := Nat.one_le_pow _ _ (by decide)
  have hfactor : 1024 ^ q.scale.binary ≤ 1024 ^ 6 := Nat.pow_le_pow_right (by decide) h
  have hfits : Magnitude.of? (Nat.pow 1024 q.scale.binary) =
      some ⟨1024 ^ q.scale.binary, by omega⟩ := Magnitude.of?_eq_some_iff.2 rfl
  rw [multiple?, multiple, mantissa?_eq, hfits]
  cases hvalue : Magnitude.of? (Decimal.value (q.whole ++ q.fraction)) with
  | none =>
    have hbound := Magnitude.of?_eq_none_iff.1 hvalue
    have hgrows := Nat.le_mul_of_pos_right (Decimal.value (q.whole ++ q.fraction)) hpos
    exact (Magnitude.of?_eq_none_iff.2 (hbound.trans hgrows)).symm
  | some m =>
    rw [← Magnitude.of?_eq_some_iff.1 hvalue]
    rfl

theorem multiple_le_reach (q : Notation) : q.multiple ≤ q.reach := by
  have hpos : 1 ≤ 10 ^ q.shift.toNat := Nat.one_le_pow _ _ (by decide)
  exact (Nat.le_max_right 1 q.multiple).trans (Nat.le_mul_of_pos_right _ hpos)

theorem magnitude?_eq_some_iff (h : q.scale.binary ≤ 6) : q.magnitude? = some n ↔
    q.reach < 2 ^ 127 ∧
      n.nanos = ceilDiv (q.multiple * 10 ^ q.shift.toNat) (10 ^ (-q.shift).toNat) := by
  rw [magnitude?, multiple?_eq h]
  cases hmultiple : Magnitude.of? q.multiple with
  | none =>
    have hbound := Magnitude.of?_eq_none_iff.1 hmultiple
    have hreach := multiple_le_reach q
    simp only [Option.bind_eq_bind, Option.bind_none, reduceCtorEq, false_iff]
    omega
  | some m =>
    rw [reach, ← Magnitude.of?_eq_some_iff.1 hmultiple]
    exact Magnitude.scale?_eq_some_iff

theorem magnitude?_eq_none_iff (h : q.scale.binary ≤ 6) :
    q.magnitude? = none ↔ 2 ^ 127 ≤ q.reach := by
  cases hq : q.magnitude? with
  | some n =>
    have hreach := ((magnitude?_eq_some_iff h).1 hq).1
    simp only [reduceCtorEq, false_iff]
    omega
  | none =>
    simp only [true_iff]
    by_contra hfits
    have hproduct : q.multiple * 10 ^ q.shift.toNat ≤ q.reach :=
      Nat.mul_le_mul_right _ (Nat.le_max_right 1 q.multiple)
    have hbound := ceilDiv_lt (10 ^ (-q.shift).toNat)
      (show q.multiple * 10 ^ q.shift.toNat < 2 ^ 127 by omega) (by decide)
    have hsome := (magnitude?_eq_some_iff h (n := ⟨_, hbound⟩)).2 ⟨by omega, rfl⟩
    rw [hq] at hsome
    cases hsome

theorem nanos_of_magnitude? (h : q.scale.binary ≤ 6) (hn : q.magnitude? = some n) :
    (n.nanos : Int) = ⌈(q.multiple : ℚ) * 10 ^ q.shift⌉ := by
  rw [ceil_mul_ten_zpow, ((magnitude?_eq_some_iff h).1 hn).2]

end Notation

theorem Magnitude.nanos_signed (n : Magnitude) (negative : Bool) :
    (n.signed negative).nanos = (if negative then -1 else 1) * (n.nanos : Int) := by
  cases negative <;> simp [signed]

end Quantity

end SharedQuota
