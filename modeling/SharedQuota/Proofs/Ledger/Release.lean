import SharedQuota.Proofs.Ledger.Amount
import SharedQuota.Proofs.Ledger.History
import SharedQuota.Proofs.Snapshot

/-!
What a reading releases. It judges a reservation by the resources asked for and then drops all of
it. Main statement (`reached_of_dropped_iff`): whatever is in use, only what is visible in every
resource is dropped, exactly if no reservation holds resources that are asked for beside others.
-/

namespace SharedQuota

namespace Reservation

/-- Usage shows all of the reservation: each resource that it holds is at the amount at which the
reservation is visible. -/
def IsReached (x : Reservation) (used : ResourceList) : Prop :=
  ∀ r ∈ x.usage.keys, x.visibleAt.amount r ≤ used.amount r

/-- Some of the reservation is asked for and some is not. What is visible at the least amount of all
is visible anyway. -/
def IsSplitBy (x : Reservation) (resources : KeySet ResourceName) : Prop :=
  (∃ r ∈ x.usage.keys, resources.contains r = true) ∧
    ∃ r ∈ x.usage.keys, resources.contains r = false ∧ -2 ^ 127 < (x.visibleAt.amount r).nanos

instance (x : Reservation) (used : ResourceList) : Decidable (x.IsReached used) :=
  inferInstanceAs (Decidable (∀ r ∈ x.usage.keys, _))

instance (x : Reservation) (resources : KeySet ResourceName) : Decidable (x.IsSplitBy resources) :=
  inferInstanceAs (Decidable (_ ∧ _))

/-- The resources of which a reservation knows where it is visible are those that it holds. -/
def IsWhole (x : Reservation) : Prop :=
  ∀ r, x.visibleAt.contains r = true ↔ r ∈ x.usage.keys

variable {x : Reservation} {names : KeySet String} {live : String → ResourceList}
  {resources : KeySet ResourceName}

/-- A reading of what is in use shows a reservation by the resources asked for alone. -/
theorem isShown_ofLive_iff (hx : x.IsWhole) :
    x.isShown (.ofLive names live resources) resources = true ↔
      names.contains x.namespaceName = true ∧
        (∃ r ∈ x.usage.keys, resources.contains r = true) ∧
        ∀ r ∈ x.usage.keys, resources.contains r = true →
          x.visibleAt.amount r ≤ (live x.namespaceName).amount r := by
  have hget : (Snapshot.ofLive names live resources).namespaces.get? x.namespaceName = _ :=
    Snapshot.get?_measured names live resources x.namespaceName
  rw [isShown_iff, hget]
  constructor
  · rintro ⟨used, hused, ⟨r, hr, hasked⟩, hall⟩
    split at hused
    case isFalse => cases hused
    case isTrue hname =>
      cases hused
      refine ⟨hname, ⟨r, (hx r).1 hr, hasked⟩, fun r hr hasked => ?_⟩
      have hle := hall r ((hx r).2 hr) hasked
      rwa [Snapshot.amount_restrict_asked hasked] at hle
  · rintro ⟨hname, ⟨r, hr, hasked⟩, hall⟩
    refine ⟨_, if_pos hname, ⟨r, (hx r).2 hr, hasked⟩, fun r hr hasked => ?_⟩
    rw [Snapshot.amount_restrict_asked hasked]
    exact hall r ((hx r).1 hr) hasked

theorem IsReached.of_isShown (hx : x.IsWhole) (hsplit : ¬ x.IsSplitBy resources)
    (h : x.isShown (.ofLive names live resources) resources = true) :
    x.IsReached (live x.namespaceName) := by
  obtain ⟨-, hsome, hall⟩ := (isShown_ofLive_iff hx).1 h
  intro r hr
  by_cases hasked : resources.contains r = true
  · exact hall r hr hasked
  · rw [Bool.not_eq_true] at hasked
    have hleast : (x.visibleAt.amount r).nanos ≤ -2 ^ 127 := by
      by_contra hnot
      exact hsplit ⟨hsome, r, hr, hasked, Int.not_le.1 hnot⟩
    exact Int.le_trans hleast ((live x.namespaceName).amount r).ge_min

theorem IsSplitBy.exists_isShown (hx : x.IsWhole) (h : x.IsSplitBy resources)
    (hname : names.contains x.namespaceName = true) :
    ∃ live : String → ResourceList,
      x.isShown (.ofLive names live resources) resources = true ∧
        ¬ x.IsReached (live x.namespaceName) := by
  obtain ⟨hsome, m, hm, hnot, hleast⟩ := h
  refine ⟨fun _ => x.visibleAt.insert m (.ofNanos (-2 ^ 127)), ?_, fun hreached => ?_⟩
  · refine (isShown_ofLive_iff hx).2 ⟨hname, hsome, fun r _ hasked => ?_⟩
    have hne : r ≠ m := by
      rintro rfl
      rw [hnot] at hasked
      cases hasked
    simp [ResourceList.amount, hne, Quantity.le_iff]
  · have hle := Quantity.le_iff.1 (hreached m hm)
    have hmin : (Quantity.ofNanos (-2 ^ 127)).nanos = -2 ^ 127 := rfl
    rw [ResourceList.amount_of_get? (Table.get?_insert _ _ _ _ |>.trans (if_pos rfl)), hmin] at hle
    omega

end Reservation

namespace Ledger

theorem isWhole_of_mem_run {ops : List Operation} {quota : String} {x : Reservation}
    (h : x ∈ (run Table.empty ops).under quota) : x.IsWhole := by
  refine forall_mem_under_run Table.empty (P := Reservation.IsWhole) (fun x hx => by cases hx)
    ?_ x h
  intro l op x hx
  cases op with
  | pending => cases hx
  | reserve now wall ttl q name usage observed =>
    rw [Operation.enters?] at hx
    split at hx
    case isFalse => cases hx
    case isTrue =>
      intro r
      rw [eq_of_reserved? l now hx, contains_visibleAt, Table.mem_keys_iff]

theorem dropped_iff {l : Ledger} {quota : String} {now : Nat} {names : KeySet String}
    {live : String → ResourceList} {resources : KeySet ResourceName} {x : Reservation}
    (hx : x ∈ l.under quota) (hlive : x.isLive now = true) :
    x ∉ (l.pending now quota (.ofLive names live resources) resources).2.under quota ↔
      x.isShown (.ofLive names live resources) resources = true := by
  rw [under_pending, if_pos rfl, unseen, List.mem_filter, Snapshot.ofLive,
    Reservation.isObserved_recompute]
  simp [hx, hlive]

/-- Of the ledgers that operations lead to: a reading drops, whatever is in use, only reservations
that are reached in every resource they hold, exactly if none of them is split by what is asked. -/
theorem reached_of_dropped_iff (ops : List Operation) (quota : String) (now : Nat)
    (names : KeySet String) (resources : KeySet ResourceName) :
    (∀ live : String → ResourceList, ∀ x ∈ (run Table.empty ops).under quota,
        x.isLive now = true →
        x ∉ ((run Table.empty ops).pending now quota
          (.ofLive names live resources) resources).2.under quota →
        x.IsReached (live x.namespaceName)) ↔
      ∀ x ∈ (run Table.empty ops).under quota, x.isLive now = true →
        names.contains x.namespaceName = true → ¬ x.IsSplitBy resources := by
  constructor
  · intro h x hx hlive hname hsplit
    obtain ⟨live, hshown, hnot⟩ := hsplit.exists_isShown (isWhole_of_mem_run hx) hname
    exact hnot (h live x hx hlive ((dropped_iff hx hlive).2 hshown))
  · intro h live x hx hlive hdropped
    have hwhole := isWhole_of_mem_run hx
    have hshown := (dropped_iff hx hlive).1 hdropped
    obtain ⟨hname, -, -⟩ := (Reservation.isShown_ofLive_iff hwhole).1 hshown
    exact .of_isShown hwhole (h x hx hlive hname) hshown

/-! A pod with a request of processor time and then one without are admitted. The second becomes
visible, and a reading of pods alone drops the reservation of the first. -/

private def onePod : ResourceList := .ofPairs [(.pods, .one)]

private def podWithCpu : ResourceList := .ofPairs [(.ofText "cpu", .one), (.pods, .one)]

private def twoReserved : List Operation := [
  .reserve 0 ⟨0, 0⟩ 60000 "q" "ns" podWithCpu Table.empty,
  .reserve 1 ⟨0, 0⟩ 60000 "q" "ns" onePod Table.empty]

/-- One pod is in use, and not any processor time. -/
theorem dropped_of_split :
    let l := run Table.empty twoReserved
    let podsAsked := KeySet.ofList [ResourceName.pods]
    ∃ x ∈ l.under "q", x.isLive 2 = true ∧
      x ∉ (l.pending 2 "q" (.ofLive (KeySet.ofList ["ns"]) (fun _ => onePod) podsAsked)
        podsAsked).2.under "q" ∧
      ¬ x.IsReached onePod := by
  refine ⟨⟨"ns", podWithCpu, podWithCpu, ⟨0, 0⟩, 60000⟩, ?_⟩
  decide +kernel

end Ledger

end SharedQuota
