import SharedQuota.Snapshot
import SharedQuota.Proofs.Resource.Restriction

/-!
What readings say of the usage that they were made from. As long as nothing goes out of bounds, a
reading of what is in use shows the sum over the namespaces (`nanos_amount_total`).
-/

namespace SharedQuota

namespace Snapshot

theorem ofStatus?_of_lastSync {q : Quota} (h : q.lastSync = none) (scope : Scope)
    (resources : KeySet ResourceName) (tolerance : Nat) (now : Time) :
    ofStatus? q scope resources tolerance now = none := by
  rw [ofStatus?, h]
  rfl

theorem ofStatus?_eq_some_iff {q : Quota} {scope : Scope} {resources : KeySet ResourceName}
    {tolerance : Nat} {now : Time} {s : Snapshot} :
    ofStatus? q scope resources tolerance now = some s ↔
      ∃ synced used namespaces, q.lastSync.bind Time.ofRfc3339? = some synced ∧
        isFresh now synced tolerance = true ∧ KeySet.ofList q.tracked = scope.aggregated ∧
        q.usedTotal = .ok (some used) ∧ resources.toList.all used.contains = true ∧
        recorded? q resources.toList scope.aggregated.toList = some namespaces ∧
        s = ⟨.status, used.restrict resources.toList, Table.ofList namespaces, some synced⟩ := by
  simp only [ofStatus?]
  cases q.lastSync.bind Time.ofRfc3339? with
  | none => simp
  | some synced =>
    cases hfresh : isFresh now synced tolerance with
    | false => simp [hfresh]
    | true =>
      by_cases htracked : KeySet.ofList q.tracked = scope.aggregated
      · cases q.usedTotal with
        | error fault => simp
        | ok used =>
          cases used with
          | none => simp
          | some used =>
            by_cases hall : ∀ r ∈ resources.toList, used.contains r = true
            · cases recorded? q resources.toList scope.aggregated.toList with
              | none => simp
              | some namespaces => simp [htracked, hfresh, eq_comm (a := s)]
            · simp [htracked, hfresh, hall]
      · simp [htracked]

/-- What is measured of some namespaces for the resources asked for, when `live` is what they use of
all resources. -/
def measured (names : KeySet String) (live : String → ResourceList)
    (resources : KeySet ResourceName) : Table String ResourceList :=
  names.map fun name _ => (live name).restrict resources.toList

def ofLive (names : KeySet String) (live : String → ResourceList)
    (resources : KeySet ResourceName) : Snapshot :=
  .recompute (measured names live resources) resources

section

variable (names : KeySet String) (live : String → ResourceList) {resources : KeySet ResourceName}
  {r : ResourceName}

theorem amount_restrict_asked (hr : resources.contains r = true) (l : ResourceList) :
    (l.restrict resources.toList).amount r = l.amount r := by
  rw [ResourceList.amount_restrict _ resources.toList_nodup,
    if_pos ((KeySet.mem_toList_iff resources).2 hr)]

theorem get?_measured (resources : KeySet ResourceName) (name : String) :
    (measured names live resources).get? name =
      if names.contains name then some ((live name).restrict resources.toList) else none := by
  rw [measured, Table.get?_map, Table.contains]
  cases names.get? name <;> rfl

theorem amount_usedIn_ofLive (hr : resources.contains r = true) {name : String}
    (hname : names.contains name = true) :
    ((ofLive names live resources).usedIn name).amount r = (live name).amount r := by
  have hget : (ofLive names live resources).namespaces.get? name = _ :=
    get?_measured names live resources name
  rw [usedIn, hget, if_pos hname, Option.getD_some, amount_restrict_asked hr]

theorem values_measured (resources : KeySet ResourceName) :
    (measured names live resources).values =
      names.toList.map fun name => (live name).restrict resources.toList := by
  simp [measured, Table.values, Table.map, KeySet.toList, Table.keys]

theorem nanos_amount_total (hlive : ∀ name, (live name).Nonneg) (hr : resources.contains r = true) :
    ((ofLive names live resources).total.amount r).nanos =
      min (names.toList.map fun name => ((live name).amount r).nanos).sum (2 ^ 127 - 1) := by
  have hsum := Quantity.nanos_foldl_add (fun name => (live name).amount r) names.toList
    (fun name _ => (hlive name).amount r) 0
  rw [ofLive, recompute, amount_restrict_asked hr, values_measured, List.foldl_map,
    ResourceList.amount_foldl_addAll fun name => (live name).restrict resources.toList]
  simp only [amount_restrict_asked hr, ResourceList.amount_empty]
  rw [hsum, Quantity.nanos_zero, Int.zero_add]

end

end Snapshot

end SharedQuota
