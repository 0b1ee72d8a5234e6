import SharedQuota.Scope
import SharedQuota.Proofs.Selector

/-!
Which namespaces a scope holds.

Main statement (`Scope.resolve_isExact`): a scope holds exactly the listed namespaces that are not
excluded and that the quota selects or accounts for, in the order of their names, in whatever order
the namespaces, the records of the status and the expressions of the selector are given.
-/

namespace SharedQuota

/-- Whether settings exclude a namespace: by its name, or by a label that is not empty. -/
def Namespace.IsExcluded (label : Option String) (names : List String) (ns : Namespace) : Prop :=
  ns.name ∈ names ∨ ∃ key, label = some key ∧ key ≠ "" ∧ ∃ value, ns.labels.get? key = some value

theorem Exclusions.excludes_ofSettings_iff {label : Option String} {names : List String}
    {ns : Namespace} :
    (ofSettings label names).excludes ns = true ↔ ns.IsExcluded label names := by
  rw [excludes, Bool.or_eq_true, List.contains_iff_mem, ofSettings, Namespace.IsExcluded]
  cases label with
  | none => simp
  | some key => by_cases hkey : key = "" <;> simp [Option.filter, hkey, Table.contains_iff]

namespace Quota

variable {q q' : Quota}

/-- Whether the selector of a quota selects a namespace; without a selector it selects all. -/
def Selects (q : Quota) (ns : Namespace) : Prop :=
  ∀ s ∈ q.spec.selector, s.Selects ns.labels

/-- Whether the status of a quota has a record of the name. -/
def HasRecord (q : Quota) (name : String) : Prop :=
  ∃ status, q.status = some status ∧ ∃ record ∈ status.namespaces, record.name = name

theorem mem_tracked_iff_hasRecord {name : String} : name ∈ q.tracked ↔ q.HasRecord name := by
  cases h : q.status <;> simp [tracked, records, HasRecord, h]

/-- Quotas whose selectors and whose statuses differ in no more than the order of the expressions
and of the records. -/
structure Rearranged (q q' : Quota) : Prop where
  selector : Option.Rel Selector.Rearranged q.spec.selector q'.spec.selector
  records : q.records.Perm q'.records

theorem Rearranged.mem_tracked_iff (h : q.Rearranged q') {name : String} :
    name ∈ q.tracked ↔ name ∈ q'.tracked := (h.records.map _).mem_iff

end Quota

namespace Exclusions

variable {x : Exclusions} {ns : Namespace}

theorem selects_iff {q : Quota} : x.selects q.spec.selector ns = true ↔
    x.excludes ns = false ∧ q.Selects ns := by
  rw [selects, Bool.and_eq_true, Bool.not_eq_true', Quota.Selects]
  cases q.spec.selector <;> simp [Selector.selects_iff]

theorem selects_eq_of_rearranged {selector selector' : Option Selector}
    (h : Option.Rel Selector.Rearranged selector selector') :
    x.selects selector ns = x.selects selector' ns := by
  cases h with
  | none => rfl
  | some h => simp only [selects, Option.all_some, h.selects_eq]

end Exclusions

namespace Scope

variable {x : Exclusions} {q : Quota} {listing : List Namespace} {name : String}

theorem mem_selected_iff : name ∈ (resolve x q listing).selected.toList ↔
    ∃ ns ∈ listing, ns.name = name ∧ x.selects q.spec.selector ns = true := by
  rw [resolve, KeySet.mem_toList_ofList, List.mem_map]
  simp only [List.mem_filter]
  constructor
  · rintro ⟨ns, ⟨hm, hs⟩, rfl⟩
    exact ⟨ns, hm, rfl, hs⟩
  · rintro ⟨ns, hm, rfl, hs⟩
    exact ⟨ns, ⟨hm, hs⟩, rfl⟩

theorem mem_tracked_iff : name ∈ (resolve x q listing).tracked.toList ↔
    ∃ ns ∈ listing, ns.name = name ∧ name ∈ q.tracked ∧ x.excludes ns = false ∧
      name ∉ (resolve x q listing).selected.toList := by
  rw [resolve, KeySet.mem_toList_ofList, List.mem_map, KeySet.mem_toList_iff]
  simp only [List.mem_filter, Bool.and_eq_true, Bool.not_eq_true', Bool.not_eq_true,
    List.contains_iff_mem]
  constructor
  · rintro ⟨ns, ⟨hm, ⟨hin, hx⟩, hnot⟩, rfl⟩
    exact ⟨ns, hm, rfl, hin, hx, hnot⟩
  · rintro ⟨ns, hm, rfl, hin, hx, hnot⟩
    exact ⟨ns, ⟨hm, ⟨hin, hx⟩, hnot⟩, rfl⟩

/-- A listed namespace counts for a quota that selects it, and for one whose status records it
unless it is excluded. -/
theorem contains_aggregated_iff : (resolve x q listing).aggregated.contains name = true ↔
    ∃ ns ∈ listing, ns.name = name ∧ (x.selects q.spec.selector ns = true ∨
      name ∈ q.tracked ∧ x.excludes ns = false) := by
  rw [aggregated, KeySet.contains_ofList, List.mem_append, mem_tracked_iff, mem_selected_iff]
  constructor
  · rintro (⟨ns, hm, hname, hs⟩ | ⟨ns, hm, hname, hin, hx, -⟩)
    · exact ⟨ns, hm, hname, .inl hs⟩
    · exact ⟨ns, hm, hname, .inr ⟨hin, hx⟩⟩
  · rintro ⟨ns, hm, hname, hs⟩
    by_cases hsel : ∃ ns ∈ listing, ns.name = name ∧ x.selects q.spec.selector ns = true
    · exact .inl hsel
    · rcases hs with hs | ⟨hin, hx⟩
      · exact absurd ⟨ns, hm, hname, hs⟩ hsel
      · exact .inr ⟨ns, hm, hname, hin, hx, hsel⟩

theorem contains_aggregated_of_selects {ns : Namespace} (hm : ns ∈ listing)
    (hs : x.selects q.spec.selector ns = true) :
    (resolve x q listing).aggregated.contains ns.name = true :=
  contains_aggregated_iff.2 ⟨ns, hm, rfl, .inl hs⟩

/-! ### In whatever order -/

theorem ext_mem {s s' : Scope} (hselected : ∀ n, n ∈ s.selected.toList ↔ n ∈ s'.selected.toList)
    (htracked : ∀ n, n ∈ s.tracked.toList ↔ n ∈ s'.tracked.toList) : s = s' := by
  obtain ⟨selected, tracked⟩ := s
  obtain ⟨selected', tracked'⟩ := s'
  congr 1
  · exact KeySet.ext_contains fun n => by simpa only [KeySet.mem_toList_iff] using hselected n
  · exact KeySet.ext_contains fun n => by simpa only [KeySet.mem_toList_iff] using htracked n

theorem resolve_eq_of_rearranged {q' : Quota} {listing' : List Namespace} (hq : q.Rearranged q')
    (hlisting : listing.Perm listing') : resolve x q' listing' = resolve x q listing := by
  have hselected (n : String) : n ∈ (resolve x q' listing').selected.toList ↔
      n ∈ (resolve x q listing).selected.toList := by
    simp only [mem_selected_iff, hlisting.mem_iff, Exclusions.selects_eq_of_rearranged hq.selector]
  refine ext_mem hselected fun n => ?_
  simp only [mem_tracked_iff, hlisting.mem_iff, hq.mem_tracked_iff, hselected]

/-! ### What is resolved -/

/-- The scope that a quota has in a listing under settings that exclude by a label and by names. -/
structure IsScopeOf (label : Option String) (names : List String) (q : Quota)
    (listing : List Namespace) (scope : Scope) : Prop where
  aggregated : ∀ name, name ∈ scope.aggregated.toList ↔
    ∃ ns ∈ listing, ns.name = name ∧ ¬ ns.IsExcluded label names ∧
      (q.Selects ns ∨ q.HasRecord name)
  selected : ∀ name, name ∈ scope.selected.toList ↔
    ∃ ns ∈ listing, ns.name = name ∧ ¬ ns.IsExcluded label names ∧ q.Selects ns
  aggregated_ascending : scope.aggregated.toList.Pairwise (compare · · = .lt)
  selected_ascending : scope.selected.toList.Pairwise (compare · · = .lt)

/-- A quota is resolved to exactly the listed namespaces that it applies to, whatever the order of
the listing, of the records of its status and of the expressions of its selector. -/
theorem resolve_isExact (label : Option String) (names : List String) (q : Quota)
    (listing : List Namespace) :
    IsScopeOf label names q listing (resolve (.ofSettings label names) q listing) ∧
    ∀ q' listing', q.Rearranged q' → listing.Perm listing' →
      resolve (.ofSettings label names) q' listing' =
        resolve (.ofSettings label names) q listing := by
  have hexcludes (ns : Namespace) : (Exclusions.ofSettings label names).excludes ns = false ↔
      ¬ ns.IsExcluded label names := by
    rw [← Exclusions.excludes_ofSettings_iff, Bool.not_eq_true]
  refine ⟨⟨fun name => ?_, fun name => ?_, KeySet.toList_ascending _, KeySet.toList_ascending _⟩,
    fun q' listing' hq hlisting => resolve_eq_of_rearranged hq hlisting⟩
  · rw [KeySet.mem_toList_iff, contains_aggregated_iff]
    simp only [Exclusions.selects_iff, hexcludes, Quota.mem_tracked_iff_hasRecord]
    refine exists_congr fun ns => and_congr_right fun _ => and_congr_right fun _ => ?_
    rw [and_comm (a := q.HasRecord name), ← and_or_left]
  · simp only [mem_selected_iff, Exclusions.selects_iff, hexcludes]

end Scope

end SharedQuota
