import SharedQuota.Quota

/-!
Quotas as JSON values, each encoder beside its decoder. A part that is absent is left out and comes
back absent; a part that is empty stays, unless absent means empty.
-/

namespace SharedQuota

namespace Expression

def ofJson? (j : Json) : Option Expression := do
  let [key, operator, values] ← j.record? 2 ["key", "operator", "values"] | none
  some {
    key := ← Json.required? Json.string? key
    operator := ← Json.required? (Json.word? Operator.ofText?) operator
    values := ← Json.defaulted? Table.empty Json.set? values }

def toJson (e : Expression) : Json :=
  .ofFields [
    ("key", some (.string e.key)),
    ("operator", some (.string e.operator.text)),
    ("values", if e.values.isEmpty then none else some (.ofStrings e.values.toList))]

end Expression

namespace Selector

def ofJson? (j : Json) : Option Selector := do
  let [labels, expressions] ← j.record? 0 ["matchLabels", "matchExpressions"] | none
  some {
    matchLabels := ← Json.optional? (Json.table? Json.string?) labels
    matchExpressions := ← Json.optional? (Json.list? Expression.ofJson?) expressions }

def toJson (s : Selector) : Json :=
  .ofFields [
    ("matchLabels", s.matchLabels.map (Json.ofTable .string)),
    ("matchExpressions", s.matchExpressions.map fun es => .array (es.map Expression.toJson))]

end Selector

namespace WrittenAmounts

def ofJson? : Json → Option WrittenAmounts := Json.table? Json.string?

def toJson : WrittenAmounts → Json := Json.ofTable .string

end WrittenAmounts

namespace UsageRecord

def ofJson? (j : Json) : Option UsageRecord := do
  let [hard, used] ← j.record? 0 ["hard", "used"] | none
  some {
    hard := ← Json.defaulted? Table.empty WrittenAmounts.ofJson? hard
    used := ← Json.defaulted? Table.empty WrittenAmounts.ofJson? used }

def toJson (u : UsageRecord) : Json :=
  .object [("hard", u.hard.toJson), ("used", u.used.toJson)]

end UsageRecord

namespace NamespaceUsage

def ofJson? (j : Json) : Option NamespaceUsage := do
  let [name, used] ← j.record? 1 ["namespace", "used"] | none
  some {
    name := ← Json.required? Json.string? name
    used := ← Json.defaulted? Table.empty WrittenAmounts.ofJson? used }

def toJson (u : NamespaceUsage) : Json :=
  .object [("namespace", .string u.name), ("used", u.used.toJson)]

end NamespaceUsage

namespace QuotaStatus

def ofJson? (j : Json) : Option QuotaStatus := do
  let [total, namespaces, sync] ← j.record? 0 ["total", "namespaces", "lastSyncTime"] | none
  some {
    total := ← Json.defaulted? ⟨Table.empty, Table.empty⟩ UsageRecord.ofJson? total
    namespaces := ← Json.defaulted? [] (Json.list? NamespaceUsage.ofJson?) namespaces
    lastSync := ← Json.optional? Json.string? sync }

def toJson (s : QuotaStatus) : Json :=
  .ofFields [
    ("total", some s.total.toJson),
    ("namespaces",
      if s.namespaces.isEmpty then none
      else some (.array (s.namespaces.map NamespaceUsage.toJson))),
    ("lastSyncTime", s.lastSync.map .string)]

end QuotaStatus

namespace QuotaSpec

def ofJson? (j : Json) : Option QuotaSpec := do
  let [selector, hard] ← j.record? 0 ["namespaceSelector", "hard"] | none
  some {
    selector := ← Json.optional? Selector.ofJson? selector
    hard := ← Json.defaulted? Table.empty WrittenAmounts.ofJson? hard }

def toJson (s : QuotaSpec) : Json :=
  .ofFields [
    ("namespaceSelector", s.selector.map Selector.toJson),
    ("hard", some s.hard.toJson)]

end QuotaSpec

namespace Quota

/-- Neither the version nor the kind of the object is looked at. -/
def ofJson? (j : Json) : Option Quota := do
  let [metadata, spec, status] ← j.record? 3 ["metadata", "spec", "status"] | none
  some {
    metadata := ← Json.required? Metadata.ofJson? metadata
    spec := ← Json.required? QuotaSpec.ofJson? spec
    status := ← Json.optional? QuotaStatus.ofJson? status }

def apiVersion : String := "clusterquota.io/v1alpha1"

def kind : String := "ClusterResourceQuota"

def toJson (q : Quota) : Json :=
  .ofFields [
    ("apiVersion", some (.string apiVersion)),
    ("kind", some (.string kind)),
    ("metadata", some q.metadata.toJson),
    ("spec", some q.spec.toJson),
    ("status", q.status.map QuotaStatus.toJson)]

end Quota

end SharedQuota
