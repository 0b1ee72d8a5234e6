import SharedQuota.Cluster

/-!
A cluster held in memory: its namespaces, its quotas and the usage of each namespace, with the
manner in which each read behaves.
-/

namespace SharedQuota

/-- How a read behaves: it waits, then it panics or fails, or it answers. -/
structure Manner where
  delay : Nat
  panics : Bool
  fails : Option String

namespace Manner

def plain : Manner := ⟨0, false, none⟩

def fetch {α : Type} (m : Manner) (answer : α) : Fetch α :=
  ⟨[], m.delay,
    if m.panics then .error .panicked
    else match m.fails with
      | some why => .error (.failed why)
      | none => .ok answer⟩

end Manner

inductive Cluster.Read where
  | namespaces
  | quotas
  | usage (name : String)
  deriving DecidableEq

structure Inventory where
  namespaces : List Namespace
  quotas : List Quota
  usage : Table String ResourceList
  /-- What was added to the usage since. -/
  persisted : Table String ResourceList
  manners : Cluster.Read → Manner

namespace Inventory

def usedIn (i : Inventory) (name : String) : ResourceList :=
  ((i.usage.get? name).getD Table.empty).addAll ((i.persisted.get? name).getD Table.empty)

def persist (i : Inventory) (name : String) (usage : ResourceList) : Inventory :=
  { i with persisted := i.persisted.alter name fun old => (old.getD Table.empty).addAll usage }

def cluster (i : Inventory) : Cluster where
  namespaces := (i.manners .namespaces).fetch i.namespaces
  quotas := (i.manners .quotas).fetch i.quotas
  usage name resources :=
    (i.manners (.usage name)).fetch ((i.usedIn name).restrict resources.toList)

end Inventory

end SharedQuota
