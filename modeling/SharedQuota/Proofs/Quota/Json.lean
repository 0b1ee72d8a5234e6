import SharedQuota.Quota.Json
import SharedQuota.Proofs.Json.Record

/-!
Quotas that are written and read back. Main statement (`Quota.json_roundTrip`): the specification
and the status of a quota come back as they were, and what is left out of them is just what was
absent.
-/

namespace SharedQuota

namespace Expression

theorem record?_toJson (e : Expression) : e.toJson.record? 2 ["key", "operator", "values"] =
    some [some (.string e.key), some (.string e.operator.text),
      if e.values.isEmpty then none else some (.ofStrings e.values.toList)] :=
  Json.record?_ofFields (by rfl) (by decide) 2

theorem ofJson?_toJson (e : Expression) : ofJson? e.toJson = some e := by
  have hoperator : Json.word? Operator.ofText? (.string e.operator.text) = some e.operator :=
    Operator.ofText?_text e.operator
  have hvalues : Json.defaulted? Table.empty Json.set?
      (if e.values.isEmpty then none else some (.ofStrings e.values.toList)) = some e.values :=
    Json.defaulted?_ite Table.eq_empty_of_isEmpty (Json.set?_ofStrings e.values)
  rw [ofJson?, record?_toJson]
  simp only [Json.required?, Json.string?, hoperator, hvalues, Option.bind_eq_bind,
    Option.bind_some]

theorem numberless_toJson (e : Expression) : e.toJson.numberless = true := by
  have hvalues : (if e.values.isEmpty then none
      else some (Json.ofStrings e.values.toList)).all Json.numberless = true := by
    split
    · rfl
    · exact Json.numberless_ofStrings _
  refine Json.numberless_ofFields ?_
  simp only [List.forall_mem_cons, hvalues]
  exact ⟨rfl, rfl, trivial, nofun⟩

theorem lacks_values_iff (e : Expression) :
    Json.Lacks "values" e.toJson ↔ e.values.isEmpty = true := by
  simp [toJson, Json.lacks_ofFields_iff]

end Expression

namespace WrittenAmounts

theorem ofJson?_toJson (w : WrittenAmounts) : ofJson? w.toJson = some w :=
  Json.table?_ofTable Json.string?_string w

theorem numberless_toJson (w : WrittenAmounts) : w.toJson.numberless = true :=
  Json.numberless_ofTable Json.numberless_string w

end WrittenAmounts

namespace Selector

theorem record?_toJson (s : Selector) : s.toJson.record? 0 ["matchLabels", "matchExpressions"] =
    some [s.matchLabels.map (Json.ofTable .string),
      s.matchExpressions.map fun es => .array (es.map Expression.toJson)] :=
  Json.record?_ofFields (by rfl) (by decide) 0

theorem ofJson?_toJson (s : Selector) : ofJson? s.toJson = some s := by
  have hlabels : Json.optional? (Json.table? Json.string?)
      (s.matchLabels.map (Json.ofTable .string)) = some s.matchLabels :=
    Json.optional?_map (Json.table?_ofTable Json.string?_string) rfl s.matchLabels
  have hexpressions : Json.optional? (Json.list? Expression.ofJson?)
      (s.matchExpressions.map fun es => .array (es.map Expression.toJson)) =
        some s.matchExpressions :=
    Json.optional?_map (Json.list?_array Expression.ofJson?_toJson) rfl s.matchExpressions
  rw [ofJson?, record?_toJson]
  simp only [hlabels, hexpressions, Option.bind_eq_bind, Option.bind_some]

theorem numberless_toJson (s : Selector) : s.toJson.numberless = true := by
  have hlabels := Json.all_numberless_map (Json.numberless_ofTable Json.numberless_string)
    s.matchLabels
  have hexpressions := Json.all_numberless_map (Json.numberless_array Expression.numberless_toJson)
    s.matchExpressions
  refine Json.numberless_ofFields ?_
  simp only [List.forall_mem_cons]
  exact ⟨hlabels, hexpressions, nofun⟩

theorem lacks_matchLabels_iff (s : Selector) :
    Json.Lacks "matchLabels" s.toJson ↔ s.matchLabels = none := by
  simp [toJson, Json.lacks_ofFields_iff]

theorem lacks_matchExpressions_iff (s : Selector) :
    Json.Lacks "matchExpressions" s.toJson ↔ s.matchExpressions = none := by
  simp [toJson, Json.lacks_ofFields_iff]

end Selector

namespace UsageRecord

theorem record?_toJson (u : UsageRecord) : u.toJson.record? 0 ["hard", "used"] =
    some [some u.hard.toJson, some u.used.toJson] := rfl

theorem ofJson?_toJson (u : UsageRecord) : ofJson? u.toJson = some u := by
  rw [ofJson?, record?_toJson]
  simp only [Json.defaulted?, WrittenAmounts.ofJson?_toJson, Option.bind_eq_bind, Option.bind_some]

theorem numberless_toJson (u : UsageRecord) : u.toJson.numberless = true := by
  refine Json.numberlessMembers_iff.2 ?_
  simp only [List.forall_mem_cons, WrittenAmounts.numberless_toJson]
  exact ⟨trivial, trivial, nofun⟩

end UsageRecord

namespace NamespaceUsage

theorem record?_toJson (u : NamespaceUsage) : u.toJson.record? 1 ["namespace", "used"] =
    some [some (.string u.name), some u.used.toJson] := rfl

theorem ofJson?_toJson (u : NamespaceUsage) : ofJson? u.toJson = some u := by
  rw [ofJson?, record?_toJson]
  simp only [Json.required?, Json.defaulted?, Json.string?_string, WrittenAmounts.ofJson?_toJson,
    Option.bind_eq_bind, Option.bind_some]

theorem numberless_toJson (u : NamespaceUsage) : u.toJson.numberless = true := by
  refine Json.numberlessMembers_iff.2 ?_
  simp only [List.forall_mem_cons, WrittenAmounts.numberless_toJson]
  exact ⟨rfl, trivial, nofun⟩

end NamespaceUsage

namespace QuotaStatus

theorem record?_toJson (s : QuotaStatus) :
    s.toJson.record? 0 ["total", "namespaces", "lastSyncTime"] =
      some [some s.total.toJson,
        if s.namespaces.isEmpty then none
        else some (.array (s.namespaces.map NamespaceUsage.toJson)),
        s.lastSync.map .string] :=
  Json.record?_ofFields (by rfl) (by decide) 0

theorem ofJson?_toJson (s : QuotaStatus) : ofJson? s.toJson = some s := by
  have htotal : Json.defaulted? ⟨Table.empty, Table.empty⟩ UsageRecord.ofJson?
      (some s.total.toJson) = some s.total := s.total.ofJson?_toJson
  have hnamespaces : Json.defaulted? [] (Json.list? NamespaceUsage.ofJson?)
      (if s.namespaces.isEmpty then none
        else some (.array (s.namespaces.map NamespaceUsage.toJson))) = some s.namespaces :=
    Json.defaulted?_ite List.isEmpty_iff.1
      (Json.list?_array NamespaceUsage.ofJson?_toJson s.namespaces)
  have hsync : Json.optional? Json.string? (s.lastSync.map .string) = some s.lastSync :=
    Json.optional?_map Json.string?_string rfl s.lastSync
  rw [ofJson?, record?_toJson]
  simp only [htotal, hnamespaces, hsync, Option.bind_eq_bind, Option.bind_some]

theorem numberless_toJson (s : QuotaStatus) : s.toJson.numberless = true := by
  have hnamespaces : (if s.namespaces.isEmpty then none
      else some (Json.array (s.namespaces.map NamespaceUsage.toJson))).all Json.numberless =
        true := by
    split
    · rfl
    · exact Json.numberless_array NamespaceUsage.numberless_toJson s.namespaces
  have hsync := Json.all_numberless_map Json.numberless_string s.lastSync
  refine Json.numberless_ofFields ?_
  simp only [List.forall_mem_cons]
  exact ⟨s.total.numberless_toJson, hnamespaces, hsync, nofun⟩

theorem lacks_namespaces_iff (s : QuotaStatus) :
    Json.Lacks "namespaces" s.toJson ↔ s.namespaces = [] := by
  simp [toJson, Json.lacks_ofFields_iff]

theorem lacks_lastSyncTime_iff (s : QuotaStatus) :
    Json.Lacks "lastSyncTime" s.toJson ↔ s.lastSync = none := by
  simp [toJson, Json.lacks_ofFields_iff]

end QuotaStatus

namespace QuotaSpec

theorem record?_toJson (s : QuotaSpec) : s.toJson.record? 0 ["namespaceSelector", "hard"] =
    some [s.selector.map Selector.toJson, some s.hard.toJson] :=
  Json.record?_ofFields (by rfl) (by decide) 0

theorem ofJson?_toJson (s : QuotaSpec) : ofJson? s.toJson = some s := by
  have hselector : Json.optional? Selector.ofJson? (s.selector.map Selector.toJson) =
      some s.selector := Json.optional?_map Selector.ofJson?_toJson rfl s.selector
  rw [ofJson?, record?_toJson]
  simp only [hselector, Json.defaulted?, WrittenAmounts.ofJson?_toJson, Option.bind_eq_bind,
    Option.bind_some]

theorem numberless_toJson (s : QuotaSpec) : s.toJson.numberless = true := by
  have hselector := Json.all_numberless_map Selector.numberless_toJson s.selector
  refine Json.numberless_ofFields ?_
  simp only [List.forall_mem_cons]
  exact ⟨hselector, s.hard.numberless_toJson, nofun⟩

theorem lacks_namespaceSelector_iff (s : QuotaSpec) :
    Json.Lacks "namespaceSelector" s.toJson ↔ s.selector = none := by
  simp [toJson, Json.lacks_ofFields_iff]

end QuotaSpec

namespace Quota

/-- Specifications and statuses come back as they were written, and a part is left out of them just
where it is absent, or where it is empty and absent means empty. -/
theorem json_roundTrip :
    (∀ spec : QuotaSpec, Json.IsKept QuotaSpec.toJson QuotaSpec.ofJson? spec ∧
      (Json.Lacks "namespaceSelector" spec.toJson ↔ spec.selector = none)) ∧
    (∀ status : QuotaStatus, Json.IsKept QuotaStatus.toJson QuotaStatus.ofJson? status ∧
      (Json.Lacks "namespaces" status.toJson ↔ status.namespaces = []) ∧
      (Json.Lacks "lastSyncTime" status.toJson ↔ status.lastSync = none)) ∧
    (∀ s : Selector, Json.IsKept Selector.toJson Selector.ofJson? s ∧
      (Json.Lacks "matchLabels" s.toJson ↔ s.matchLabels = none) ∧
      (Json.Lacks "matchExpressions" s.toJson ↔ s.matchExpressions = none)) ∧
    ∀ e : Expression, Json.IsKept Expression.toJson Expression.ofJson? e ∧
      (Json.Lacks "values" e.toJson ↔ e.values.isEmpty = true) := by
  refine ⟨fun spec => ?_, fun status => ?_, fun s => ?_, fun e => ?_⟩
  · exact ⟨Json.isKept_of_numberless spec.ofJson?_toJson spec.numberless_toJson,
      spec.lacks_namespaceSelector_iff⟩
  · exact ⟨Json.isKept_of_numberless status.ofJson?_toJson status.numberless_toJson,
      status.lacks_namespaces_iff, status.lacks_lastSyncTime_iff⟩
  · exact ⟨Json.isKept_of_numberless s.ofJson?_toJson s.numberless_toJson, s.lacks_matchLabels_iff,
      s.lacks_matchExpressions_iff⟩
  · exact ⟨Json.isKept_of_numberless e.ofJson?_toJson e.numberless_toJson, e.lacks_values_iff⟩

end Quota

end SharedQuota
