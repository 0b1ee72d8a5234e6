import SharedQuota.Quantity
import Mathlib.Algebra.Order.BigOperators.Group.List
import Mathlib.Algebra.Order.Ring.Int

/-!
Sums of amounts as sums of whole numbers. Adding amounts that are not negative gives the true sum or
the upper bound, whichever is less.
-/

namespace SharedQuota

namespace Quantity

theorem le_iff {q r : Quantity} : q ≤ r ↔ q.nanos ≤ r.nanos := Iff.rfl

@[simp] theorem add_zero (q : Quantity) : q + 0 = q := by
  refine ext ?_
  simp [nanos_add]

@[simp] theorem zero_add (q : Quantity) : 0 + q = q := by
  refine ext ?_
  simp [nanos_add]

theorem nanos_add_of_nonneg (q : Quantity) {r : Quantity} (hr : 0 ≤ r.nanos) :
    (q + r).nanos = min (q.nanos + r.nanos) (2 ^ 127 - 1) := by
  have hq := q.ge_min
  simp only [nanos_add, ofNanos]
  omega

theorem ofNanos_nonneg {n : Int} (h : 0 ≤ n) : 0 ≤ (ofNanos n).nanos := by
  simp only [ofNanos]
  omega

theorem add_nonneg {q r : Quantity} (hq : 0 ≤ q.nanos) (hr : 0 ≤ r.nanos) : 0 ≤ (q + r).nanos :=
  ofNanos_nonneg (Int.add_nonneg hq hr)

theorem nanos_excess (q r : Quantity) :
    (q.excess r).nanos = min (max 0 (q.nanos - r.nanos)) (2 ^ 127 - 1) := by
  simp only [excess, ofNanos]
  omega

/-- What is held at the bound and stays below it was not held back. -/
theorem le_of_min_le {n limit : Int} (h : min n (2 ^ 127 - 1) ≤ limit)
    (hlimit : limit < 2 ^ 127 - 1) : n ≤ limit := by
  omega

/-- Below the bound a sum is compared with a limit as the true sum is. -/
theorem add_le_iff {q r limit : Quantity} (hr : 0 ≤ r.nanos) (hlimit : limit.nanos < 2 ^ 127 - 1) :
    q + r ≤ limit ↔ q.nanos + r.nanos ≤ limit.nanos := by
  rw [le_iff, nanos_add_of_nonneg q hr]
  exact ⟨fun h => le_of_min_le h hlimit, fun h => Int.le_trans (Int.min_le_left _ _) h⟩

/-- Of amounts that are not negative, a sum of three that stays below the bound is the true one. -/
theorem add_add_le_of_le {used held : Quantity} {delta limit : Quantity} {n m : Int}
    (hused : used.nanos = min n (2 ^ 127 - 1)) (hheld : held.nanos = min m (2 ^ 127 - 1))
    (hn : 0 ≤ n) (hm : 0 ≤ m) (hdelta : 0 < delta.nanos) (hlimit : limit.nanos < 2 ^ 127 - 1)
    (h : used + held + delta ≤ limit) : n + m + delta.nanos ≤ limit.nanos := by
  have hheld_nonneg : 0 ≤ held.nanos := by omega
  rw [le_iff, nanos_add_of_nonneg _ (Int.le_of_lt hdelta)] at h
  have hthree := le_of_min_le h hlimit
  rw [nanos_add_of_nonneg _ hheld_nonneg] at hthree
  have htwo : used.nanos + held.nanos ≤ limit.nanos - delta.nanos :=
    le_of_min_le (by omega) (by omega)
  omega

theorem nanos_foldl_add {α : Type} (f : α → Quantity) (xs : List α)
    (h : ∀ x ∈ xs, 0 ≤ (f x).nanos) (q : Quantity) :
    (xs.foldl (fun sum x => sum + f x) q).nanos =
      min (q.nanos + (xs.map fun x => (f x).nanos).sum) (2 ^ 127 - 1) := by
  induction xs generalizing q with
  | nil =>
    have hq := q.lt_bound
    simp only [List.foldl_nil, List.map_nil, List.sum_nil]
    omega
  | cons x rest ih =>
    have hrest : 0 ≤ (rest.map fun x => (f x).nanos).sum :=
      List.sum_nonneg fun n hn => by
        obtain ⟨y, hy, rfl⟩ := List.mem_map.1 hn
        exact h y (List.mem_cons_of_mem _ hy)
    rw [List.foldl_cons, ih (fun y hy => h y (List.mem_cons_of_mem _ hy)),
      nanos_add_of_nonneg q (h x (List.mem_cons_self ..)), List.map_cons, List.sum_cons]
    omega

theorem nanos_ofUnits_natCast (n : Nat) :
    (ofUnits n).nanos = min (n * nanosPerUnit) (2 ^ 127 - 1) := by
  have hn : 0 ≤ (n : Int) * nanosPerUnit := Int.mul_nonneg (Int.natCast_nonneg n) (by decide)
  simp only [ofUnits, ofNanos]
  omega

/-- Where each amount is a whole number or the upper bound, whichever is less, so is the sum. -/
theorem nanos_foldl_add_of_min {α : Type} {f : α → Quantity} {g : α → Int} (xs : List α)
    (h : ∀ x ∈ xs, 0 ≤ g x ∧ (f x).nanos = min (g x) (2 ^ 127 - 1)) {q : Quantity} {n : Int}
    (hn : 0 ≤ n) (hq : q.nanos = min n (2 ^ 127 - 1)) :
    (xs.foldl (fun sum x => sum + f x) q).nanos = min (n + (xs.map g).sum) (2 ^ 127 - 1) := by
  induction xs generalizing q n with
  | nil => simpa using hq
  | cons x rest ih =>
    obtain ⟨hx, hrest⟩ := List.forall_mem_cons.1 h
    have hstep : (q + f x).nanos = min (n + g x) (2 ^ 127 - 1) := by
      rw [nanos_add_of_nonneg q (by omega)]
      omega
    rw [List.foldl_cons, ih hrest (by omega) hstep, List.map_cons, List.sum_cons]
    omega

/-! ### The same amount again and again -/

/-- What an amount comes to when it is counted `n` times. -/
def times (n : Nat) (q : Quantity) : Quantity := ofNanos (n * q.nanos)

@[simp] theorem times_zero (q : Quantity) : q.times 0 = 0 := by
  refine ext ?_
  simp [times, ofNanos]

@[simp] theorem times_one (q : Quantity) : q.times 1 = q := by
  simp [times]

theorem times_succ (n : Nat) (q : Quantity) : q.times (n + 1) = q.times n + q := by
  -- what has reached a bound stays there, as the amounts are all of one sign
  have hsign : 0 ≤ q.nanos ∧ 0 ≤ n * q.nanos ∨ q.nanos ≤ 0 ∧ n * q.nanos ≤ 0 := by
    have hn : (0 : Int) ≤ n := Int.natCast_nonneg n
    rcases Int.le_total 0 q.nanos with hq | hq
    · exact .inl ⟨hq, Int.mul_nonneg hn hq⟩
    · exact .inr ⟨hq, mul_nonpos_of_nonneg_of_nonpos hn hq⟩
  have hlower := q.ge_min
  have hupper := q.lt_bound
  refine ext ?_
  simp only [times, nanos_add, ofNanos, Int.natCast_add, Int.natCast_one, Int.add_mul, Int.one_mul]
  generalize (n : Int) * q.nanos = m at hsign ⊢
  omega

theorem foldl_add_replicate (n : Nat) (q : Quantity) :
    (List.replicate n q).foldl (· + ·) 0 = q.times n := by
  induction n with
  | zero => simp
  | succ n ih => rw [List.replicate_succ', List.foldl_concat, ih, times_succ]

/-- Neither zero nor at a bound, and so another amount when it is counted again. -/
def IsOrdinary (q : Quantity) : Prop :=
  q.nanos ≠ 0 ∧ -(2 ^ 127) < q.nanos ∧ q.nanos < 2 ^ 127 - 1

theorem times_eq_self_iff {n : Nat} (hn : 1 < n) {q : Quantity} :
    q.times n = q ↔ ¬ q.IsOrdinary := by
  have hnanos : q.times n = q ↔ (ofNanos (n * q.nanos)).nanos = q.nanos :=
    ⟨congrArg nanos, ext⟩
  have hn : (2 : Int) ≤ n := Int.ofNat_le.2 hn
  have hlower := q.ge_min
  have hupper := q.lt_bound
  have hup : 0 ≤ q.nanos → 2 * q.nanos ≤ n * q.nanos := Int.mul_le_mul_of_nonneg_right hn
  have hdown : q.nanos ≤ 0 → n * q.nanos ≤ 2 * q.nanos := Int.mul_le_mul_of_nonpos_right hn
  rw [hnanos, IsOrdinary]
  simp only [ofNanos]
  generalize (n : Int) * q.nanos = m at hup hdown ⊢
  omega

end Quantity

end SharedQuota
