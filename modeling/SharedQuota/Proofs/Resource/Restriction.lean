import SharedQuota.Proofs.Resource.Amount

/-!
Restrictions of a list to the resources that a sequence of names gives.

What a restriction has of a resource is counted once for each time that the resource is named
(`get?_restrict`), so names that are all different keep the amounts as they are (`amount_restrict`).
Main statement (`keepsNamed_iff`): a restriction keeps what the list has of the names, and can be
repeated and split, exactly if no name is given again whose amount that would change.
-/

namespace SharedQuota

namespace ResourceList

variable (l : ResourceList) (names : List ResourceName) (r : ResourceName)

/-! ### What is entered -/

theorem map_fst_filterMap_get? :
    (names.filterMap fun r => (l.get? r).map (r, ·)).map (·.1) = names.filter l.contains := by
  induction names with
  | nil => rfl
  | cons n rest ih => cases h : l.get? n <;> simp [Table.contains, h, ← ih]

theorem contains_restrict :
    (l.restrict names).contains r = true ↔ r ∈ names ∧ l.contains r = true := by
  rw [restrict, contains_ofPairs, map_fst_filterMap_get?]
  simp

variable {l r}

/-- A resource is entered each time it is named. -/
theorem map_snd_filter_filterMap_get? {q : Quantity} (h : l.get? r = some q) :
    ((names.filterMap fun n => (l.get? n).map (n, ·)).filter (·.1 = r)).map (·.2) =
      List.replicate (names.count r) q := by
  induction names with
  | nil => rfl
  | cons n rest ih =>
    by_cases hn : n = r
    · subst hn
      simp [h, ih, List.replicate_succ]
    · cases hq : l.get? n <;> simp [hq, hn, ih]

theorem amount_restrict_of_get? {q : Quantity} (h : l.get? r = some q) :
    (l.restrict names).amount r = q.times (names.count r) := by
  rw [restrict, ofPairs, amount_foldl_add, map_snd_filter_filterMap_get? names h, amount_empty,
    Quantity.foldl_add_replicate]

variable (l r)

/-- A restriction has of each resource that is named as many times the amount as it is named. -/
theorem get?_restrict : (l.restrict names).get? r =
    if r ∈ names then (l.get? r).map (·.times (names.count r)) else none := by
  by_cases h : r ∈ names ∧ l.contains r = true
  · obtain ⟨hr, hc⟩ := h
    obtain ⟨q, hq⟩ := (Table.contains_iff l).1 hc
    obtain ⟨q', hq'⟩ := (Table.contains_iff _).1 ((contains_restrict l names r).2 ⟨hr, hc⟩)
    rw [if_pos hr, hq, Option.map_some, hq', ← amount_of_get? hq',
      amount_restrict_of_get? names hq]
  · have hnone : (l.restrict names).get? r = none := by
      rwa [← Option.not_isSome_iff_eq_none, ← Table.contains, contains_restrict]
    rw [hnone]
    split
    case isTrue hr =>
      have hnot : l.get? r = none := Option.not_isSome_iff_eq_none.1 fun hc => h ⟨hr, hc⟩
      rw [hnot, Option.map_none]
    case isFalse => rfl

/-! ### What is counted once -/

/-- No name is given again of which the list has an amount that changes with it. -/
def CountsOnce : Prop :=
  ∀ r q, l.get? r = some q → q.IsOrdinary → names.count r ≤ 1

variable {l names}

theorem countsOnce_of_nodup (h : names.Nodup) : l.CountsOnce names :=
  fun r _ _ _ => List.nodup_iff_count_le_one.1 h r

theorem get?_restrict_of_countsOnce (h : l.CountsOnce names) (r : ResourceName) :
    (l.restrict names).get? r = if r ∈ names then l.get? r else none := by
  rw [get?_restrict]
  split
  case isFalse => rfl
  case isTrue hr =>
    cases hq : l.get? r with
    | none => rfl
    | some q =>
      have hpos : 0 < names.count r := List.count_pos_iff.2 hr
      by_cases hcount : names.count r = 1
      · rw [hcount, Option.map_some, Quantity.times_one]
      · have hmany : 1 < names.count r := by omega
        have hsame : q.times (names.count r) = q :=
          (Quantity.times_eq_self_iff hmany).2 fun hordinary =>
            Nat.not_le.2 hmany (h r q hq hordinary)
        rw [Option.map_some, hsame]

theorem get?_filter_mem (r : ResourceName) :
    (l.filter fun r _ => decide (r ∈ names)).get? r = if r ∈ names then l.get? r else none := by
  rw [Table.get?_filter]
  by_cases hr : r ∈ names <;> cases l.get? r <;> simp [hr, Option.filter]

/-- The entries of a list whose names are given stay as they are exactly if each is counted once. -/
theorem restrict_eq_filter_iff :
    (l.restrict names = l.filter fun r _ => decide (r ∈ names)) ↔ l.CountsOnce names := by
  constructor
  · intro h r q hq hordinary
    by_contra hmany
    have hcount : 1 < names.count r := Nat.not_le.1 hmany
    have hr : r ∈ names := List.count_pos_iff.1 (by omega)
    have hget : (l.restrict names).get? r = l.get? r := by rw [h, get?_filter_mem, if_pos hr]
    rw [get?_restrict, if_pos hr, hq, Option.map_some] at hget
    exact (Quantity.times_eq_self_iff hcount).1 (Option.some.inj hget) hordinary
  · intro h
    refine Table.ext_get? fun r => ?_
    rw [get?_filter_mem, get?_restrict_of_countsOnce h]

variable (l)

theorem amount_restrict (hnd : names.Nodup) (r : ResourceName) :
    (l.restrict names).amount r = if r ∈ names then l.amount r else 0 := by
  rw [amount, get?_restrict]
  split
  case isTrue hr => simp [List.count_eq_one_of_mem hnd hr, amount]
  case isFalse => rfl

variable {l}

/-- Restricting to some of the names that a list has keeps their entries as they are. -/
theorem restrict_eq_filter (hnodup : names.Nodup) {p : ResourceName → Bool}
    (h : ∀ r, r ∈ names ↔ l.contains r = true ∧ p r = true) :
    l.restrict names = l.filter fun r _ => p r := by
  rw [restrict_eq_filter_iff.2 (countsOnce_of_nodup hnodup)]
  refine Table.ext_get? fun r => ?_
  rw [Table.get?_filter, Table.get?_filter]
  cases hq : l.get? r with
  | none => rfl
  | some q =>
    have hcontains : l.contains r = true := (Table.contains_iff l).2 ⟨q, hq⟩
    simp [h r, hcontains]

theorem Nonneg.restrict (h : l.Nonneg) (resources : KeySet ResourceName) :
    (l.restrict resources.toList).Nonneg := by
  refine nonneg_iff.2 fun r => ?_
  rw [amount_restrict _ resources.toList_nodup]
  split
  · exact h.amount r
  · exact Int.le_refl 0

/-! ### One restriction after another -/

/-- A restriction keeps just what the list has of the names. To repeat it changes nothing, and to
restrict to others after it is to restrict to the names common to both. -/
structure KeepsNamed (l : ResourceList) (names others : List ResourceName) : Prop where
  keeps : l.restrict names = l.filter fun r _ => decide (r ∈ names)
  again : (l.restrict names).restrict names = l.restrict names
  inTurn : (l.restrict names).restrict others = l.restrict (names ∩ others)

theorem CountsOnce.restrict (h : l.CountsOnce names) {others : List ResourceName}
    (hothers : l.CountsOnce others) : (l.restrict names).CountsOnce others := by
  intro r q hq
  rw [get?_restrict_of_countsOnce h] at hq
  split at hq
  case isTrue => exact hothers r q hq
  case isFalse => cases hq

theorem CountsOnce.inter (h : l.CountsOnce names) (others : List ResourceName) :
    l.CountsOnce (names ∩ others) := fun r q hq hordinary =>
  Nat.le_trans (List.filter_sublist.count_le r) (h r q hq hordinary)

/-- Where a restriction counts each name once, restricting to the names that are also among others
keeps what it has of these. -/
theorem CountsOnce.restrict_inter (h : l.CountsOnce names) (others : List ResourceName) :
    l.restrict (names ∩ others) = (l.restrict names).filter fun r _ => decide (r ∈ others) := by
  refine Table.ext_get? fun r => ?_
  rw [get?_restrict_of_countsOnce (h.inter others), get?_filter_mem, get?_restrict_of_countsOnce h,
    ← ite_and]
  simp only [List.mem_inter_iff, and_comm]

theorem CountsOnce.keepsNamed (h : l.CountsOnce names) {others : List ResourceName}
    (hothers : (l.restrict names).CountsOnce others) : l.KeepsNamed names others := by
  refine ⟨restrict_eq_filter_iff.2 h, Table.ext_get? fun r => ?_, ?_⟩
  · rw [get?_restrict_of_countsOnce (h.restrict h), get?_restrict_of_countsOnce h]
    by_cases hr : r ∈ names <;> simp [hr]
  · rw [h.restrict_inter, restrict_eq_filter_iff.2 hothers]

/-- Names without repetition, such as those of a set or those of a list's entries, do no harm. -/
theorem keepsNamed_of_nodup (l : ResourceList) (hnames : names.Nodup) {others : List ResourceName}
    (hothers : others.Nodup) : l.KeepsNamed names others :=
  (countsOnce_of_nodup hnames).keepsNamed (countsOnce_of_nodup hothers)

/-- Restrictions keep what is named exactly if no name is given again of which there is an amount
that changes with it, be it in the first sequence or, of the names in that, in the second. -/
theorem keepsNamed_iff (l : ResourceList) (names others : List ResourceName) :
    l.KeepsNamed names others ↔ l.CountsOnce names ∧ (l.restrict names).CountsOnce others := by
  refine ⟨?_, fun ⟨honce, hothers⟩ => honce.keepsNamed hothers⟩
  rintro ⟨hkeeps, -, hinTurn⟩
  have honce : l.CountsOnce names := restrict_eq_filter_iff.1 hkeeps
  rw [honce.restrict_inter] at hinTurn
  exact ⟨honce, restrict_eq_filter_iff.1 hinTurn⟩

theorem not_keepsNamed_podsTwice :
    ¬ KeepsNamed (.ofPairs [(.pods, .one)]) [.pods, .pods] [] := fun h =>
  absurd h.keeps (by decide +kernel)

end ResourceList

end SharedQuota
