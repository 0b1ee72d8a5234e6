import SharedQuota.Proofs.Ledger.Amount
import SharedQuota.Proofs.Ledger.History

/-!
The ledger of one quota beside the objects of the cluster. Admissions read the quota and may then
reserve; meanwhile the objects that were admitted become visible, in any order, and visible ones are
deleted, as far as they may be.
-/

namespace SharedQuota

structure Placed where
  namespaceName : String
  usage : ResourceList

namespace Placed

/-- What the objects in a namespace use of a resource. -/
def sum (os : List Placed) (name : String) (r : ResourceName) : Int :=
  ((os.filter (·.namespaceName == name)).map fun o => (o.usage.amount r).nanos).sum

@[simp] theorem sum_nil (name : String) (r : ResourceName) : sum [] name r = 0 := rfl

theorem sum_cons (o : Placed) (os : List Placed) (name : String) (r : ResourceName) :
    sum (o :: os) name r =
      (if o.namespaceName = name then (o.usage.amount r).nanos else 0) + sum os name r := by
  by_cases h : o.namespaceName = name <;> simp [sum, h]

theorem sum_append (os more : List Placed) (name : String) (r : ResourceName) :
    sum (os ++ more) name r = sum os name r + sum more name r := by
  simp [sum]

/-- The object is elsewhere, or uses no negative amount of the resource. -/
def OwesNothing (name : String) (r : ResourceName) (o : Placed) : Prop :=
  o.namespaceName = name → 0 ≤ (o.usage.amount r).nanos

instance (name : String) (r : ResourceName) (o : Placed) : Decidable (o.OwesNothing name r) :=
  inferInstanceAs (Decidable (_ → _))

end Placed

structure Surroundings where
  ledger : Ledger
  /-- What readings find. -/
  visible : List Placed
  /-- What was admitted and readings do not find yet. -/
  hidden : List Placed
  /-- The last reading and what it was asked for, as long as nothing was reserved on it. -/
  reading : Option (Snapshot × KeySet ResourceName)

namespace Surroundings

def IsLive (σ : Surroundings) (quota : String) (now : Nat) : Prop :=
  ∀ x ∈ σ.ledger.under quota, x.isLive now = true

instance (σ : Surroundings) (quota : String) (now : Nat) : Decidable (σ.IsLive quota now) :=
  inferInstanceAs (Decidable (∀ x ∈ σ.ledger.under quota, x.isLive now = true))

/-- Nothing was admitted yet. -/
def IsFresh (σ : Surroundings) (quota : String) : Prop :=
  σ.ledger.under quota = [] ∧ σ.hidden = [] ∧ σ.reading = none

/-- The quota may be read: nothing has expired, whatever is reserved is asked for, and every
namespace is shown at what its visible objects use. -/
structure MayRead (σ : Surroundings) (quota : String) (now : Nat)
    (reads : Table String ResourceList) (resources : KeySet ResourceName) : Prop where
  live : σ.IsLive quota now
  asked : ∀ x ∈ σ.ledger.under quota, ∀ r ∈ x.usage.keys, resources.contains r = true
  shown : ∀ e ∈ reads.entries, ∀ r ∈ resources.toList,
    (e.2.amount r).nanos = Placed.sum σ.visible e.1 r

/-- A reading of the quota at which they are left. -/
def read (σ : Surroundings) (quota : String) (now : Nat) (reads : Table String ResourceList)
    (resources : KeySet ResourceName) : Surroundings :=
  let s := Snapshot.recompute reads resources
  { σ with
    ledger := (σ.ledger.pending now quota s resources).2
    reading := some (s, resources) }

/-- The usage of an object that is reserved on a reading that shows its namespace. Neither it nor
the amounts at which it will be visible may go out of bounds. -/
structure MayAccept (σ : Surroundings) (quota : String) (now : Nat) (name : String)
    (usage observed : ResourceList) : Prop where
  live : σ.IsLive quota now
  nonneg : usage.Nonneg
  bounded : ∀ r ∈ usage.keys, (observed.amount r).nanos +
    Ledger.held (Ledger.inside (σ.ledger.under quota) name) r + (usage.amount r).nanos < 2 ^ 127 - 1

def accept (σ : Surroundings) (quota : String) (now : Nat) (wall : Time) (ttl : Nat) (name : String)
    (usage observed : ResourceList) : Surroundings :=
  { σ with
    ledger := σ.ledger.reserve now wall ttl quota name usage observed
    hidden := ⟨name, usage⟩ :: σ.hidden
    reading := none }

inductive Step (quota : String) (mayGo : Placed → Prop) : Surroundings → Surroundings → Prop
  | read {σ now reads resources} (h : σ.MayRead quota now reads resources) :
    Step quota mayGo σ (σ.read quota now reads resources)
  /-- Only what was asked for is reserved. -/
  | accept {σ s resources now wall ttl name} {delta observed : ResourceList}
      (hs : σ.reading = some (s, resources)) (hname : s.namespaces.get? name = some observed)
      (h : σ.MayAccept quota now name (delta.restrict resources.toList) observed) :
    Step quota mayGo σ (σ.accept quota now wall ttl name (delta.restrict resources.toList) observed)
  | appear {σ before o after} (h : σ.hidden = before ++ o :: after) :
    Step quota mayGo σ { σ with visible := o :: σ.visible, hidden := before ++ after }
  | delete {σ before o after} (h : σ.visible = before ++ o :: after) (hgo : mayGo o) :
    Step quota mayGo σ { σ with visible := before ++ after }
  /-- Other quotas have reservations of their own. -/
  | elsewhere {σ ledger} (h : Ledger.under ledger quota = σ.ledger.under quota) :
    Step quota mayGo σ { σ with ledger }

end Surroundings

end SharedQuota
