import SharedQuota.Ledger
import SharedQuota.Proofs.Resource.Restriction

/-!
What reservations amount to, and when a reading accounts for one.
-/

namespace SharedQuota

namespace Reservation

/-- Whether the usage that a reading shows of the namespace has reached the amounts at which the
reservation is visible, for those resources asked for. -/
def isShown (x : Reservation) (s : Snapshot) (resources : KeySet ResourceName) : Bool :=
  match s.namespaces.get? x.namespaceName with
  | none => false
  | some used =>
    let checked := x.visibleAt.keys.filter resources.contains
    !checked.isEmpty && checked.all fun n => x.visibleAt.amount n ≤ used.amount n

theorem isObserved_eq (x : Reservation) (s : Snapshot) (resources : KeySet ResourceName) :
    x.isObserved s resources =
      ((s.source == .status && s.synced.any x.reservedAt.before) || x.isShown s resources) := rfl

theorem isShown_iff (x : Reservation) (s : Snapshot) (resources : KeySet ResourceName) :
    x.isShown s resources = true ↔ ∃ used, s.namespaces.get? x.namespaceName = some used ∧
      (∃ n, x.visibleAt.contains n = true ∧ resources.contains n = true) ∧
      ∀ n, x.visibleAt.contains n = true → resources.contains n = true →
        x.visibleAt.amount n ≤ used.amount n := by
  unfold isShown
  cases s.namespaces.get? x.namespaceName with
  | none => simp
  | some used =>
    simp only [Bool.and_eq_true, Bool.not_eq_true', List.isEmpty_eq_false_iff_exists_mem,
      List.mem_filter, Table.mem_keys_iff, List.all_eq_true, decide_eq_true_eq, and_imp,
      Option.some.injEq, exists_eq_left']

theorem isObserved_recompute (x : Reservation) (reads : Table String ResourceList)
    (asked resources : KeySet ResourceName) :
    x.isObserved (.recompute reads asked) resources =
      x.isShown (.recompute reads asked) resources := by
  simp [isObserved_eq, Snapshot.recompute]

end Reservation

namespace Ledger

/-- What some reservations hold of a resource, in nano-units and without a bound. -/
def held (rs : List Reservation) (r : ResourceName) : Int :=
  (rs.map fun x => (x.usage.amount r).nanos).sum

@[simp] theorem held_nil (r : ResourceName) : held [] r = 0 := rfl

@[simp] theorem held_cons (x : Reservation) (rs : List Reservation) (r : ResourceName) :
    held (x :: rs) r = (x.usage.amount r).nanos + held rs r := by
  simp [held]

@[simp] theorem held_append (rs more : List Reservation) (r : ResourceName) :
    held (rs ++ more) r = held rs r + held more r := by
  simp [held]

theorem held_nonneg {rs : List Reservation} {r : ResourceName}
    (h : ∀ x ∈ rs, 0 ≤ (x.usage.amount r).nanos) : 0 ≤ held rs r := by
  refine List.sum_nonneg fun n hn => ?_
  obtain ⟨x, hx, rfl⟩ := List.mem_map.1 hn
  exact h x hx

/-- The reservations in one namespace. -/
def inside (rs : List Reservation) (name : String) : List Reservation :=
  rs.filter (·.namespaceName == name)

theorem mem_inside {rs : List Reservation} {name : String} {x : Reservation} :
    x ∈ inside rs name ↔ x ∈ rs ∧ x.namespaceName = name := by
  simp [inside]

theorem inside_filter (p : Reservation → Bool) (rs : List Reservation) (name : String) :
    inside (rs.filter p) name = (inside rs name).filter p :=
  List.filter_comm ..

/-- The sum that `pending` answers is the true one unless that reaches the bound. -/
theorem nanos_amount_total {rs : List Reservation} {resources : KeySet ResourceName}
    {r : ResourceName} (hr : resources.contains r = true)
    (h : ∀ x ∈ rs, 0 ≤ (x.usage.amount r).nanos) :
    ((total rs resources.toList).amount r).nanos = min (held rs r) (2 ^ 127 - 1) := by
  have restricted (x : Reservation) :
      (x.usage.restrict resources.toList).amount r = x.usage.amount r := by
    rw [ResourceList.amount_restrict _ resources.toList_nodup,
      if_pos ((KeySet.mem_toList_iff resources).2 hr)]
  rw [total, ResourceList.amount_foldl_addAll fun x : Reservation =>
    x.usage.restrict resources.toList]
  simp only [restricted]
  rw [Quantity.nanos_foldl_add (fun x : Reservation => x.usage.amount r) rs h]
  simp [held]

theorem nonneg_total {rs : List Reservation} (h : ∀ x ∈ rs, x.usage.Nonneg)
    (resources : KeySet ResourceName) : (total rs resources.toList).Nonneg := by
  rw [total]
  refine List.foldlRecOn rs _ ResourceList.nonneg_empty fun l hl x hx => ?_
  exact hl.addAll ((h x hx).restrict resources)

/-! ### Amounts of visibility -/

variable (earlier : List Reservation) (name : String) (usage observed : ResourceList)

theorem contains_visibleAt (r : ResourceName) :
    (visibleAt earlier name usage observed).contains r = true ↔ usage.contains r = true := by
  simp only [visibleAt, ResourceList.contains_addAll,
    ResourceList.contains_foldl_addAll (fun x : Reservation => x.usage.restrict usage.keys),
    ResourceList.contains_restrict, Table.mem_keys_iff]
  constructor
  · rintro ((⟨h, -⟩ | ⟨x, -, h, -⟩) | h) <;> exact h
  · exact .inr

/-- A reservation is visible where the namespace has what was read of it, the earlier reservations
in it and its own usage. -/
theorem nanos_amount_visibleAt {r : ResourceName} (hr : usage.contains r = true)
    (hu : 0 ≤ (usage.amount r).nanos)
    (h : ∀ x ∈ inside earlier name, 0 ≤ (x.usage.amount r).nanos) :
    ((visibleAt earlier name usage observed).amount r).nanos =
      min ((observed.amount r).nanos + held (inside earlier name) r + (usage.amount r).nanos)
        (2 ^ 127 - 1) := by
  have restricted (l : ResourceList) : (l.restrict usage.keys).amount r = l.amount r := by
    rw [ResourceList.amount_restrict _ usage.keys_nodup,
      if_pos ((Table.mem_keys_iff usage).2 hr)]
  have hheld : 0 ≤ held (inside earlier name) r := held_nonneg h
  have hsum := Quantity.nanos_foldl_add (fun x : Reservation => x.usage.amount r) _ h
    (observed.amount r)
  simp only [visibleAt, ResourceList.amount_addAll,
    ResourceList.amount_foldl_addAll (fun x : Reservation => x.usage.restrict usage.keys),
    restricted]
  simp only [held, inside] at hheld hsum ⊢
  rw [Quantity.nanos_add_of_nonneg _ hu, hsum]
  omega

end Ledger

end SharedQuota
