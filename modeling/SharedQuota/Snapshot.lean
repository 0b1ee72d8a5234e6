import SharedQuota.Scope
import SharedQuota.Time.Rfc3339

/-!
Readings of a quota's usage, each taken for one decision: from the quota's status while that is
fresh and accounts for what is asked, and otherwise from the usage of every namespace in scope.
-/

namespace SharedQuota

inductive Snapshot.Source
  | status
  | recomputed
deriving DecidableEq

structure Snapshot where
  source : Snapshot.Source
  total : ResourceList
  namespaces : Table String ResourceList
  /-- When the status was computed that the reading was taken from. -/
  synced : Option Time
deriving DecidableEq

namespace Snapshot

/-- Whether a status of time `synced` may be used at `now`: not later than `now`, and at most
`tolerance` milliseconds old. -/
def isFresh (now synced : Time) (tolerance : Nat) : Bool :=
  let age := now.since synced
  0 ≤ age && age ≤ (tolerance * 1_000_000 : Nat)

/-- The usage that the status records for the given namespaces, if it can be read of all of them. -/
def recorded? (q : Quota) (resources : List ResourceName) :
    List String → Option (List (String × ResourceList))
  | [] => some []
  | name :: rest =>
    match q.usedIn name with
    | .ok (some used) => (recorded? q resources rest).map ((name, used.restrict resources) :: ·)
    | _ => none

/-- A reading from the status: it must be fresh, account for exactly the namespaces in scope, and
have a total for every resource asked for. -/
def ofStatus? (q : Quota) (scope : Scope) (resources : KeySet ResourceName) (tolerance : Nat)
    (now : Time) : Option Snapshot := do
  let synced ← q.lastSync.bind Time.ofRfc3339?
  if !isFresh now synced tolerance then none
  let aggregated := scope.aggregated
  if KeySet.ofList q.tracked ≠ aggregated then none
  let used ← match q.usedTotal with
    | .ok used => used
    | .error _ => none
  if !resources.toList.all used.contains then none
  let namespaces ← recorded? q resources.toList aggregated.toList
  some ⟨.status, used.restrict resources.toList, Table.ofList namespaces, some synced⟩

/-- A reading from the usage of each namespace. -/
def recompute (reads : Table String ResourceList) (resources : KeySet ResourceName) : Snapshot :=
  let total := reads.values.foldl ResourceList.addAll Table.empty
  ⟨.recomputed, total.restrict resources.toList, reads, none⟩

/-- What the reading says of one namespace; nothing, if it is not aggregated. -/
def usedIn (s : Snapshot) (name : String) : ResourceList :=
  (s.namespaces.get? name).getD Table.empty

end Snapshot

end SharedQuota
