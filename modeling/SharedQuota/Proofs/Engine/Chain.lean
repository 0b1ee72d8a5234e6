import SharedQuota.Proofs.Engine.Advance
import SharedQuota.Proofs.Engine.Applicable
import SharedQuota.Proofs.Resource.Increase

/-!
Updates of one object, one after the other. Each is charged with what the object grew by, and what a
quota limits of that is reserved (`heldAfter_eq`). Main statement (`growth_isCovered`): growth is
covered however it is split, so that after a chain of updates at least as much is held of each
limited resource as after one update that leads to the same usage.
-/

namespace SharedQuota

/-- An update of an object: what the object uses after it, when that is reserved, and what a reading
showed of the namespace by then. -/
structure Update where
  usage : ResourceList
  now : Now
  observed : ResourceList

namespace Update

variable (rules : Rules) (q : Quota) (name : String)

/-- What an update reserves in a quota, which is nothing if the quota limits nothing that grew. -/
def reservation? (old : ResourceList) (u : Update) : Option Ledger.Operation :=
  let delta := u.usage.increaseFrom old
  (Applicable.of? delta q).map fun a =>
    -- of a charge only the namespace and the usage are reserved, not what it was checked against
    Engine.reservation rules u.now ⟨name, delta, [], [a]⟩ a u.observed

/-- What the updates of an object reserve in a quota. -/
def reservations (old : ResourceList) : List Update → List Ledger.Operation
  | [] => []
  | u :: later => (u.reservation? rules q name old).toList ++ reservations u.usage later

/-- The reservation is made by an instant and has not expired then. -/
def Lasts (t : Nat) (u : Update) : Prop :=
  u.now.millis ≤ t ∧ t < u.now.millis + rules.reservationTtl

instance (t : Nat) (u : Update) : Decidable (u.Lasts rules t) :=
  inferInstanceAs (Decidable (_ ∧ _))

/-- What the quota's unexpired reservations hold of a resource when the updates are reserved. -/
def heldAfter (l : Ledger) (t : Nat) (old : ResourceList) (updates : List Update)
    (r : ResourceName) : Int :=
  Ledger.held (((l.run (reservations rules q name old updates)).under q.name).filter (·.isLive t)) r

variable {rules q name}

/-- A reservation that lasts adds what it is of a resource to what is held of it. -/
theorem held_apply_reservation {now : Now} {t : Nat} (hmade : now.millis ≤ t)
    (hlasts : t < now.millis + rules.reservationTtl) (l : Ledger) (c : Charge) (a : Applicable)
    (observed : ResourceList) (r : ResourceName) :
    Ledger.held (((l.apply (Engine.reservation rules now c a observed)).under a.name).filter
        (·.isLive t)) r =
      Ledger.held ((l.under a.name).filter (·.isLive t)) r +
        ((c.delta.restrict a.resources.toList).amount r).nanos := by
  have hall : ∀ x ∈ (l.reserved? now.millis now.wall rules.reservationTtl a.name c.name
      (c.delta.restrict a.resources.toList) observed).toList, x.isLive t = true := by
    intro x hx
    rw [Ledger.eq_of_reserved? l now.millis (Option.mem_toList.1 hx)]
    exact decide_eq_true hlasts
  rw [Ledger.filter_isLive_under_apply _ _ hmade, Ledger.held_append]
  simp only [Engine.reservation, Ledger.Operation.releases, Ledger.Operation.enters?,
    Bool.not_false, Bool.and_true, if_true]
  rw [List.filter_eq_self.2 hall, Ledger.held_reserved?]

variable {hard : ResourceList} {t : Nat} {r : ResourceName}

/-- An update adds what grew of a limited resource to what is held of it. -/
theorem held_run_reservation? (hhard : q.hardLimits = .ok hard) (hr : hard.contains r = true)
    {u : Update} (hu : u.Lasts rules t) (l : Ledger) (old : ResourceList) :
    Ledger.held (((l.run (u.reservation? rules q name old).toList).under q.name).filter
        (·.isLive t)) r =
      Ledger.held ((l.under q.name).filter (·.isLive t)) r +
        ((u.usage.increaseFrom old).amount r).nanos := by
  have hshare : Applicable.share (u.usage.increaseFrom old) q.name r
      (Applicable.of? (u.usage.increaseFrom old) q).toList =
        ((u.usage.increaseFrom old).amount r).nanos := Applicable.share_toList_of? hhard hr
  rw [reservation?]
  cases ha : Applicable.of? (u.usage.increaseFrom old) q with
  | none =>
    rw [ha] at hshare
    rw [← hshare]
    exact (Int.add_zero _).symm
  | some a =>
    have hname : a.name = q.name := congrArg Quota.name (Applicable.of_of? ha).1
    rw [ha, Option.toList_some, Applicable.share_cons, if_pos hname, Applicable.share_nil,
      Int.add_zero] at hshare
    rw [← hshare, ← hname]
    exact held_apply_reservation hu.1 hu.2 l _ a u.observed r

/-- Updates add what grew in each of them. -/
theorem heldAfter_eq (hhard : q.hardLimits = .ok hard) (hr : hard.contains r = true)
    {updates : List Update} (hlast : ∀ u ∈ updates, u.Lasts rules t) (l : Ledger)
    (old : ResourceList) :
    heldAfter rules q name l t old updates r =
      Ledger.held ((l.under q.name).filter (·.isLive t)) r +
        ((ResourceList.growths old (updates.map (·.usage))).map fun delta =>
          (delta.amount r).nanos).sum := by
  induction updates generalizing l old with
  | nil => exact (Int.add_zero _).symm
  | cons u later ih =>
    obtain ⟨hu, hlater⟩ := List.forall_mem_cons.1 hlast
    rw [heldAfter, reservations, Ledger.run_append, ← heldAfter, ih hlater,
      held_run_reservation? hhard hr hu, List.map_cons, ResourceList.growths, List.map_cons,
      List.sum_cons, Int.add_assoc]

/-- Updates that lead an object from one usage to another without a negative amount on the way, and
whose reservations all last. -/
structure IsChain (rules : Rules) (t : Nat) (old new : ResourceList) (updates : List Update) :
    Prop where
  ends : (updates.map (·.usage)).getLastD old = new
  nonneg : ∀ u ∈ updates, u.usage.Nonneg
  lasts : ∀ u ∈ updates, u.Lasts rules t

/-- What one update holds is held by any updates that lead to the same usage. -/
theorem IsChain.heldAfter_le {old new : ResourceList} {direct : Update} {updates : List Update}
    (hdirect : IsChain rules t old new [direct]) (h : IsChain rules t old new updates)
    (hold : old.Nonneg) (hhard : q.hardLimits = .ok hard) (hr : hard.contains r = true)
    (l : Ledger) :
    heldAfter rules q name l t old [direct] r ≤ heldAfter rules q name l t old updates r := by
  have hsteps : ∀ d ∈ updates.map (·.usage), d.Nonneg := List.forall_mem_map.2 h.nonneg
  have hsum := ResourceList.nanos_amount_increaseFrom_le_sum hold hsteps r
  have hends : direct.usage = new := hdirect.ends
  rw [h.ends, ← hends] at hsum
  rw [heldAfter_eq hhard hr hdirect.lasts, heldAfter_eq hhard hr h.lasts]
  refine Int.add_le_add_left ?_ _
  simpa [ResourceList.growths] using hsum

/-- Growth is what each resource has more, and nothing is gained by splitting it: a step between two
usages makes what grew no less, and whatever the updates that lead from one to the other, the ledger
holds at least as much after them as after one. -/
theorem growth_isCovered {old : ResourceList} (hold : old.Nonneg) (new : ResourceList) :
    old.IsIncrease new (new.increaseFrom old) ∧
    (∀ between : ResourceList, between.Nonneg → ∀ r, (new.increaseFrom old).amount r ≤
      (between.increaseFrom old).amount r + (new.increaseFrom between).amount r) ∧
    ∀ rules t direct updates, IsChain rules t old new [direct] → IsChain rules t old new updates →
      ∀ (q : Quota) hard, q.hardLimits = .ok hard → ∀ name l r, hard.contains r = true →
        heldAfter rules q name l t old [direct] r ≤ heldAfter rules q name l t old updates r := by
  refine ⟨ResourceList.isIncrease_increaseFrom hold new, fun between hbetween r => ?_, ?_⟩
  · exact ResourceList.amount_increaseFrom_le hold hbetween new r
  · exact fun _ _ _ _ hdirect h _ _ hhard _ l _ hr => hdirect.heldAfter_le h hold hhard hr l

/-! An object that requests one core comes to request three and then two, or two at once. -/

private def coresUsed (n : Int) : ResourceList := .ofPairs [(.requests "cpu", .ofUnits n)]

private def coresQuota : Quota where
  metadata := ⟨some "team", none, none, none, none, []⟩
  spec := ⟨none, Table.ofList [("cpu", "8")]⟩
  status := none

private def coresAt (millis : Nat) (n : Int) : Update :=
  ⟨coresUsed n, ⟨millis, ⟨0, 0⟩⟩, Table.empty⟩

private def coreRules : Rules := ⟨⟨none, []⟩, 10, 30⟩

theorem growth_isCovered_threeOnTheWay :
    heldAfter coreRules coresQuota "ns" Table.empty 20 (coresUsed 1) [coresAt 5 2]
        (.requests "cpu") ≤
      heldAfter coreRules coresQuota "ns" Table.empty 20 (coresUsed 1) [coresAt 0 3, coresAt 10 2]
        (.requests "cpu") := by
  have hold : (coresUsed 1).Nonneg := by decide +kernel
  have hdirect : IsChain coreRules 20 (coresUsed 1) (coresUsed 2) [coresAt 5 2] :=
    ⟨rfl, by decide +kernel, by decide +kernel⟩
  have hchain : IsChain coreRules 20 (coresUsed 1) (coresUsed 2) [coresAt 0 3, coresAt 10 2] :=
    ⟨rfl, by decide +kernel, by decide +kernel⟩
  have hhard : coresQuota.hardLimits = .ok (coresUsed 8) := by decide +kernel
  exact (growth_isCovered hold (coresUsed 2)).2.2 coreRules 20 _ _ hdirect hchain coresQuota _ hhard
    "ns" Table.empty (.requests "cpu") (by decide +kernel)

end Update

end SharedQuota
