import SharedQuota.Proofs.Table
import SharedQuota.Proofs.Quantity.Saturation
import SharedQuota.Resource.List
import Mathlib.Data.List.Nodup

/-!
The amounts of a resource in the lists that the operations on resource lists make. Entries are added
to what the list has of their resources (`amount_foldl_add`), and so an addition of lists adds at
every resource (`amount_addAll`).
-/

namespace SharedQuota

namespace ResourceList

theorem amount_of_get? {l : ResourceList} {r : ResourceName} {q : Quantity}
    (h : l.get? r = some q) : l.amount r = q := by
  simp [amount, h]

theorem amount_of_not_contains {l : ResourceList} {r : ResourceName}
    (h : ¬ l.contains r = true) : l.amount r = 0 := by
  cases hg : l.get? r with
  | none => simp [amount, hg]
  | some q => exact absurd ((Table.contains_iff l).2 ⟨q, hg⟩) h

theorem contains_of_amount_ne {l : ResourceList} {r : ResourceName}
    (h : (l.amount r).nanos ≠ 0) : l.contains r = true := by
  by_contra hnot
  exact h (by rw [amount_of_not_contains hnot]; rfl)

theorem nanos_amount_of_isEmpty {l : ResourceList} (h : l.isEmpty = true) (r : ResourceName) :
    (l.amount r).nanos = 0 := by
  simp [amount, Table.get?_of_isEmpty h]

theorem isEmpty_of_amount_ne {l : ResourceList} {r : ResourceName} (h : (l.amount r).nanos ≠ 0) :
    l.isEmpty = false := by
  by_contra hempty
  rw [Bool.not_eq_false] at hempty
  exact h (nanos_amount_of_isEmpty hempty r)

/-- A list is the resources it has and their amounts. -/
theorem ext_amount {l m : ResourceList} (h : ∀ r, l.contains r = true ↔ m.contains r = true)
    (hamount : ∀ r, l.amount r = m.amount r) : l = m := by
  refine Table.ext_get? fun r => ?_
  by_cases hr : l.contains r = true
  · obtain ⟨q, hq⟩ := (Table.contains_iff l).1 hr
    obtain ⟨q', hq'⟩ := (Table.contains_iff m).1 ((h r).1 hr)
    rw [hq, hq', ← amount_of_get? hq, ← amount_of_get? hq', hamount r]
  · have hnone : l.get? r = none := Option.not_isSome_iff_eq_none.1 hr
    have hnone' : m.get? r = none := Option.not_isSome_iff_eq_none.1 fun hm => hr ((h r).2 hm)
    rw [hnone, hnone']

@[simp] theorem amount_empty (r : ResourceName) : amount Table.empty r = 0 := rfl

theorem amount_add (l : ResourceList) (r : ResourceName) (q : Quantity) (s : ResourceName) :
    (l.add r q).amount s = if s = r then l.amount r + q else l.amount s := by
  simp only [amount, get?_add]
  by_cases h : s = r <;> simp [h]

theorem contains_add (l : ResourceList) (r : ResourceName) (q : Quantity) (s : ResourceName) :
    (l.add r q).contains s = true ↔ s = r ∨ l.contains s = true := by
  simp only [Table.contains, get?_add]
  by_cases h : s = r <;> simp [h]

/-! ### Lists without negative amounts -/

/-- No amount is negative. -/
def Nonneg (l : ResourceList) : Prop := ∀ q ∈ l.values, 0 ≤ q.nanos

instance (l : ResourceList) : Decidable l.Nonneg :=
  inferInstanceAs (Decidable (∀ q ∈ l.values, 0 ≤ q.nanos))

theorem Nonneg.amount {l : ResourceList} (h : l.Nonneg) (r : ResourceName) :
    0 ≤ (l.amount r).nanos := by
  cases hg : l.get? r with
  | none => simp [ResourceList.amount, hg]
  | some q =>
    rw [amount_of_get? hg]
    exact h q ((Table.mem_values_iff l).2 ⟨r, hg⟩)

/-! ### Lists with amounts above zero -/

/-- Every entry is above zero. -/
def IsPositive (l : ResourceList) : Prop := ∀ q ∈ l.values, 0 < q.nanos

instance (l : ResourceList) : Decidable l.IsPositive :=
  inferInstanceAs (Decidable (∀ q ∈ l.values, 0 < q.nanos))

theorem IsPositive.amount {l : ResourceList} (h : l.IsPositive) {r : ResourceName}
    (hr : l.contains r = true) : 0 < (l.amount r).nanos := by
  obtain ⟨q, hq⟩ := (Table.contains_iff l).1 hr
  rw [amount_of_get? hq]
  exact h q ((Table.mem_values_iff l).2 ⟨r, hq⟩)

theorem IsPositive.nonneg {l : ResourceList} (h : l.IsPositive) (r : ResourceName) :
    0 ≤ (l.amount r).nanos := by
  by_cases hr : l.contains r = true
  · exact Int.le_of_lt (h.amount hr)
  · rw [amount_of_not_contains hr]
    exact Int.le_refl 0

/-! ### Adding entries one after the other -/

theorem contains_foldl_add (es : List (ResourceName × Quantity)) (l : ResourceList)
    (r : ResourceName) :
    (es.foldl (fun l e => add l e.1 e.2) l).contains r = true ↔
      l.contains r = true ∨ r ∈ es.map (·.1) := by
  induction es generalizing l with
  | nil => simp
  | cons e rest ih =>
    rw [List.foldl_cons, ih, contains_add]
    simp only [List.map_cons, List.mem_cons]
    constructor
    · rintro ((h | h) | h)
      · exact .inr (.inl h)
      · exact .inl h
      · exact .inr (.inr h)
    · rintro (h | h | h)
      · exact .inl (.inr h)
      · exact .inl (.inl h)
      · exact .inr h

theorem contains_ofPairs (pairs : List (ResourceName × Quantity)) (r : ResourceName) :
    (ofPairs pairs).contains r = true ↔ r ∈ pairs.map (·.1) := by
  rw [ofPairs, contains_foldl_add]
  simp [Table.contains]

/-- Of the entries those for a resource are added to what it has. -/
theorem amount_foldl_add (es : List (ResourceName × Quantity)) (l : ResourceList)
    (r : ResourceName) :
    (es.foldl (fun l e => add l e.1 e.2) l).amount r =
      ((es.filter (·.1 = r)).map (·.2)).foldl (· + ·) (l.amount r) := by
  induction es generalizing l with
  | nil => rfl
  | cons e rest ih =>
    rw [List.foldl_cons, ih, amount_add]
    by_cases h : e.1 = r
    · simp [h]
    · simp [h, Ne.symm h]

theorem amount_foldl_add_of_not_mem {es : List (ResourceName × Quantity)} {r : ResourceName}
    (h : r ∉ es.map (·.1)) (l : ResourceList) :
    (es.foldl (fun l e => add l e.1 e.2) l).amount r = l.amount r := by
  have hnone : es.filter (·.1 = r) = [] := by
    rw [List.filter_eq_nil_iff]
    rintro e he heq
    exact h (List.mem_map.2 ⟨e, he, of_decide_eq_true heq⟩)
  rw [amount_foldl_add, hnone]
  rfl

theorem amount_foldl_add_of_mem {es : List (ResourceName × Quantity)} (hnd : (es.map (·.1)).Nodup)
    {r : ResourceName} {q : Quantity} (h : (r, q) ∈ es) (l : ResourceList) :
    (es.foldl (fun l e => add l e.1 e.2) l).amount r = l.amount r + q := by
  obtain ⟨before, after, rfl⟩ := List.append_of_mem h
  rw [List.map_append, List.map_cons, List.nodup_middle, List.nodup_cons, List.mem_append,
    not_or] at hnd
  rw [List.foldl_append, List.foldl_cons, amount_foldl_add_of_not_mem hnd.1.2, amount_add,
    if_pos rfl, amount_foldl_add_of_not_mem hnd.1.1]

/-- Of entries for different resources each is found as it is. -/
theorem get?_ofPairs_of_mem {pairs : List (ResourceName × Quantity)}
    (hnodup : (pairs.map (·.1)).Nodup) {r : ResourceName} {q : Quantity} (h : (r, q) ∈ pairs) :
    (ofPairs pairs).get? r = some q := by
  obtain ⟨q', hq'⟩ := (Table.contains_iff _).1
    ((contains_ofPairs ..).2 (List.mem_map_of_mem (f := (·.1)) h))
  have hamount := amount_foldl_add_of_mem hnodup h Table.empty
  rw [amount_empty, Quantity.zero_add] at hamount
  rw [hq', ← amount_of_get? hq', ofPairs, hamount]

theorem ofPairs_entries (l : ResourceList) : ofPairs l.entries = l := by
  refine Table.ext_get? fun r => ?_
  cases hr : l.get? r with
  | some q => exact get?_ofPairs_of_mem l.keys_nodup ((Table.mem_entries_iff l).2 hr)
  | none =>
    rw [← Option.not_isSome_iff_eq_none] at hr ⊢
    exact fun h => hr ((Table.mem_keys_iff l).1 ((contains_ofPairs ..).1 h))

/-! ### Adding lists -/

theorem amount_addAll (l m : ResourceList) (r : ResourceName) :
    (l.addAll m).amount r = l.amount r + m.amount r := by
  cases hg : m.get? r with
  | none =>
    have hnot : r ∉ m.keys := fun hm => by
      obtain ⟨q, hq⟩ := (Table.contains_iff m).1 ((Table.mem_keys_iff m).1 hm)
      simp [hg] at hq
    rw [addAll, amount_foldl_add_of_not_mem hnot]
    simp [amount, hg]
  | some q =>
    rw [addAll, amount_foldl_add_of_mem m.keys_nodup ((Table.mem_entries_iff m).2 hg),
      amount_of_get? hg]

theorem contains_addAll (l m : ResourceList) (r : ResourceName) :
    (l.addAll m).contains r = true ↔ l.contains r = true ∨ m.contains r = true := by
  rw [addAll, contains_foldl_add, ← Table.mem_keys_iff m, Table.keys]

theorem amount_foldl_addAll {α : Type} (f : α → ResourceList) (xs : List α) (l : ResourceList)
    (r : ResourceName) :
    (xs.foldl (fun sum x => sum.addAll (f x)) l).amount r =
      xs.foldl (fun sum x => sum + (f x).amount r) (l.amount r) := by
  induction xs generalizing l with
  | nil => rfl
  | cons x rest ih => rw [List.foldl_cons, ih, amount_addAll, List.foldl_cons]

theorem contains_foldl_addAll {α : Type} (f : α → ResourceList) (xs : List α) (l : ResourceList)
    (r : ResourceName) :
    (xs.foldl (fun sum x => sum.addAll (f x)) l).contains r = true ↔
      l.contains r = true ∨ ∃ x ∈ xs, (f x).contains r = true := by
  induction xs generalizing l with
  | nil => simp
  | cons x rest ih => simp [ih, contains_addAll, or_assoc]

/-! ### Without zeros -/

theorem get?_nonZero (l : ResourceList) (r : ResourceName) :
    l.nonZero.get? r = if (l.amount r).nanos = 0 then none else some (l.amount r) := by
  rw [nonZero, Table.get?_filter, amount]
  cases l.get? r with
  | none => rfl
  | some q => by_cases hq : q.nanos = 0 <;> simp [Quantity.isZero, Option.filter, hq]

theorem amount_nonZero (l : ResourceList) (r : ResourceName) :
    l.nonZero.amount r = l.amount r := by
  rw [amount, get?_nonZero]
  split
  case isTrue hzero => exact (Quantity.ext hzero).symm
  case isFalse => rfl

theorem contains_nonZero (l : ResourceList) (r : ResourceName) :
    l.nonZero.contains r = true ↔ (l.amount r).nanos ≠ 0 := by
  rw [Table.contains, get?_nonZero]
  split <;> simp [*]

theorem nonZero_nonZero (l : ResourceList) : l.nonZero.nonZero = l.nonZero :=
  Table.ext_get? fun r => by rw [get?_nonZero, amount_nonZero, ← get?_nonZero]

/-! ### What keeps lists from negative amounts -/

theorem nonneg_iff {l : ResourceList} : l.Nonneg ↔ ∀ r, 0 ≤ (l.amount r).nanos := by
  refine ⟨Nonneg.amount, fun h q hq => ?_⟩
  obtain ⟨r, hr⟩ := (Table.mem_values_iff l).1 hq
  exact amount_of_get? hr ▸ h r

theorem nonneg_empty : Nonneg Table.empty := fun _ hq => nomatch hq

theorem Nonneg.add {l : ResourceList} (h : l.Nonneg) (r : ResourceName) {q : Quantity}
    (hq : 0 ≤ q.nanos) : (l.add r q).Nonneg := by
  refine nonneg_iff.2 fun s => ?_
  rw [amount_add]
  split
  · exact Quantity.add_nonneg (h.amount r) hq
  · exact h.amount s

theorem nonneg_ofPairs {pairs : List (ResourceName × Quantity)}
    (h : ∀ e ∈ pairs, 0 ≤ e.2.nanos) : (ofPairs pairs).Nonneg := by
  rw [ofPairs]
  refine List.foldlRecOn pairs _ nonneg_empty fun l hl e he => ?_
  exact hl.add e.1 (h e he)

theorem Nonneg.addAll {l m : ResourceList} (h : l.Nonneg) (hm : m.Nonneg) :
    (l.addAll m).Nonneg := by
  refine nonneg_iff.2 fun r => ?_
  rw [amount_addAll]
  exact Quantity.add_nonneg (h.amount r) (hm.amount r)

theorem nonneg_nonZero_iff {l : ResourceList} : l.nonZero.Nonneg ↔ l.Nonneg := by
  simp only [nonneg_iff, amount_nonZero]

end ResourceList

end SharedQuota
