import SharedQuota.Proofs.Resource.Amount

/-!
What grew from one list of resources to another.

Where nothing was negative before, a resource grew by what it has more and by nothing if it has less
(`nanos_amount_increaseFrom`). So what grew in several steps is at least what grew at once
(`amount_increaseFrom_le`, `nanos_amount_increaseFrom_le_sum`).
-/

namespace SharedQuota

namespace ResourceList

/-- What grew is what each resource has more, without zeros. -/
theorem increaseFrom_eq (l old : ResourceList) :
    l.increaseFrom old = nonZero (l.map fun r q => q.excess (old.amount r)) := by
  rw [← ofPairs_entries (nonZero _), increaseFrom]
  congr 1
  change _ = (l.entries.map _).filter _
  rw [List.filter_map, ← List.filterMap_eq_map, List.filterMap_filter]
  congr 1
  funext e
  cases h : (e.2.excess (old.amount e.1)).isZero <;> simp [h]

theorem nonZero_increaseFrom (l old : ResourceList) :
    (l.increaseFrom old).nonZero = l.increaseFrom old := by
  rw [increaseFrom_eq, nonZero_nonZero]

theorem map_nanos_get?_increaseFrom (l old : ResourceList) (r : ResourceName) :
    ((l.increaseFrom old).get? r).map (·.nanos) =
      if l.contains r = true ∧ old.amount r < l.amount r then
        some (min ((l.amount r).nanos - (old.amount r).nanos) (2 ^ 127 - 1))
      else none := by
  rw [increaseFrom_eq, nonZero, Table.get?_filter, Table.get?_map]
  cases hq : l.get? r with
  | none => simp [Table.contains, hq]
  | some q =>
    have hcontains : l.contains r = true := (Table.contains_iff l).2 ⟨q, hq⟩
    have hexcess := Quantity.nanos_excess q (old.amount r)
    rw [amount_of_get? hq, Option.map_some, Option.filter_some, Quantity.isZero]
    by_cases hlt : old.amount r < q
    · have hnanos : (old.amount r).nanos < q.nanos := hlt
      rw [if_pos (by simp; omega), if_pos ⟨hcontains, hlt⟩, Option.map_some]
      congr 1
      omega
    · have hnanos : ¬ (old.amount r).nanos < q.nanos := hlt
      rw [if_neg (by simp; omega), if_neg fun h => hlt h.2]
      rfl

/-- Nothing is entered that did not grow. -/
theorem isPositive_increaseFrom (l old : ResourceList) : (l.increaseFrom old).IsPositive := by
  intro q hq
  obtain ⟨r, hr⟩ := (Table.mem_values_iff _).1 hq
  have hnanos := map_nanos_get?_increaseFrom l old r
  rw [hr, Option.map_some] at hnanos
  split at hnanos
  case isFalse => cases hnanos
  case isTrue hgrew =>
    have hlt : (old.amount r).nanos < (l.amount r).nanos := hgrew.2
    have hq := Option.some.inj hnanos
    omega

theorem nonneg_increaseFrom (l old : ResourceList) : (l.increaseFrom old).Nonneg :=
  fun q hq => Int.le_of_lt (isPositive_increaseFrom l old q hq)

/-- Nothing grew where no resource has more than before. -/
theorem increaseFrom_eq_empty {l old : ResourceList} (h : ∀ r, l.amount r ≤ old.amount r) :
    l.increaseFrom old = Table.empty := by
  refine Table.ext_get? fun r => ?_
  have hnone := map_nanos_get?_increaseFrom l old r
  rw [if_neg fun hgrew => Int.not_lt.2 (h r) hgrew.2] at hnone
  exact Option.map_eq_none_iff.1 hnone

variable {old : ResourceList}

theorem nanos_amount_increaseFrom (hold : old.Nonneg) (l : ResourceList) (r : ResourceName) :
    ((l.increaseFrom old).amount r).nanos =
      max 0 ((l.amount r).nanos - (old.amount r).nanos) := by
  have hbefore := hold.amount r
  have hupper := (l.amount r).lt_bound
  have hnanos := map_nanos_get?_increaseFrom l old r
  split at hnanos
  case isTrue hgrew =>
    obtain ⟨q, hq, hqnanos⟩ := Option.map_eq_some_iff.1 hnanos
    have hlt : (old.amount r).nanos < (l.amount r).nanos := hgrew.2
    rw [amount_of_get? hq, hqnanos]
    omega
  case isFalse hnot =>
    have hle : (l.amount r).nanos ≤ (old.amount r).nanos := by
      by_cases hr : l.contains r = true
      · exact Int.not_lt.1 fun hlt => hnot ⟨hr, hlt⟩
      · rwa [amount_of_not_contains hr]
    rw [amount, Option.map_eq_none_iff.1 hnanos, Option.getD_none, Quantity.nanos_zero]
    omega

/-- Where nothing grew, and there was no negative amount before, no resource has more. -/
theorem le_of_increaseFrom_isEmpty {l : ResourceList} (hold : old.Nonneg)
    (h : (l.increaseFrom old).isEmpty = true) (r : ResourceName) : l.amount r ≤ old.amount r := by
  have hnone := nanos_amount_of_isEmpty h r
  rw [nanos_amount_increaseFrom hold] at hnone
  rw [Quantity.le_iff]
  omega

/-- With what grew the amounts of before reach those of after. -/
theorem le_amount_addAll_increaseFrom (hold : old.Nonneg) (l : ResourceList) (r : ResourceName) :
    l.amount r ≤ (old.addAll (l.increaseFrom old)).amount r := by
  have hgrown := nonneg_increaseFrom l old
  have hupper := (l.amount r).lt_bound
  rw [amount_addAll, Quantity.le_iff, Quantity.nanos_add_of_nonneg _ (hgrown.amount r),
    nanos_amount_increaseFrom hold]
  omega

/-- A list tells what grew between two: nothing but what did, and each resource by what it has more
than before, so that with it the amounts of before reach those of after. -/
structure IsIncrease (old new delta : ResourceList) : Prop where
  isPositive : delta.IsPositive
  nanos_eq : ∀ r, (delta.amount r).nanos = max 0 ((new.amount r).nanos - (old.amount r).nanos)
  reaches : ∀ r, new.amount r ≤ (old.addAll delta).amount r

theorem isIncrease_increaseFrom (hold : old.Nonneg) (new : ResourceList) :
    old.IsIncrease new (new.increaseFrom old) where
  isPositive := isPositive_increaseFrom new old
  nanos_eq := nanos_amount_increaseFrom hold new
  reaches := le_amount_addAll_increaseFrom hold new

/-! ### In several steps -/

/-- A step between makes what grew no less. -/
theorem amount_increaseFrom_le (hold : old.Nonneg) {between : ResourceList}
    (hbetween : between.Nonneg) (l : ResourceList) (r : ResourceName) :
    (l.increaseFrom old).amount r ≤
      (between.increaseFrom old).amount r + (l.increaseFrom between).amount r := by
  have hbound := ((l.increaseFrom old).amount r).lt_bound
  have hgrown := nonneg_increaseFrom l between
  rw [Quantity.le_iff, Quantity.nanos_add_of_nonneg _ (hgrown.amount r)]
  simp only [nanos_amount_increaseFrom hold, nanos_amount_increaseFrom hbetween] at hbound ⊢
  omega

/-- What grew in each of some steps. -/
def growths (old : ResourceList) : List ResourceList → List ResourceList
  | [] => []
  | l :: later => l.increaseFrom old :: growths l later

/-- Nor do any number of steps between. -/
theorem nanos_amount_increaseFrom_le_sum (hold : old.Nonneg) {steps : List ResourceList}
    (hsteps : ∀ l ∈ steps, l.Nonneg) (r : ResourceName) :
    (((steps.getLastD old).increaseFrom old).amount r).nanos ≤
      ((growths old steps).map fun d => (d.amount r).nanos).sum := by
  induction steps generalizing old with
  | nil =>
    rw [nanos_amount_increaseFrom hold, List.getLastD_nil, Int.sub_self]
    exact Int.le_refl 0
  | cons l later ih =>
    obtain ⟨hl, hlater⟩ := List.forall_mem_cons.1 hsteps
    have hrest := ih hl hlater
    rw [List.getLastD_cons, growths, List.map_cons, List.sum_cons]
    rw [nanos_amount_increaseFrom hl] at hrest
    rw [nanos_amount_increaseFrom hold, nanos_amount_increaseFrom hold]
    omega

end ResourceList

end SharedQuota
