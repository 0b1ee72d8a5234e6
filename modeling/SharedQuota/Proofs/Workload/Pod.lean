import SharedQuota.Proofs.Workload.Sign
import Mathlib.Algebra.BigOperators.Group.List.Basic

/-!
What a pod uses.

Main statement (`Extractor.pod_isExact`): the usage of a pod is known unless something that counts
in it cannot be read, and is then the sum of what all of its containers state, in whatever order
they are given and whatever resources are named once more.
-/

namespace SharedQuota

/-! ### The sum of entries -/

namespace ResourceList

/-- The true sum of what entries have for a resource. -/
def total (es : List (ResourceName × Quantity)) (r : ResourceName) : Int :=
  ((es.filter (·.1 = r)).map (·.2.nanos)).sum

variable {es : List (ResourceName × Quantity)} {r : ResourceName}

theorem total_append (es es' : List (ResourceName × Quantity)) (r : ResourceName) :
    total (es ++ es') r = total es r + total es' r := by
  simp [total]

theorem total_flatMap {α : Type} (f : α → List (ResourceName × Quantity)) (xs : List α)
    (r : ResourceName) : total (xs.flatMap f) r = (xs.map fun x => total (f x) r).sum := by
  induction xs with
  | nil => rfl
  | cons x rest ih => rw [List.flatMap_cons, total_append, ih, List.map_cons, List.sum_cons]

theorem nanos_amount_ofPairs (h : ∀ e ∈ es, 0 ≤ e.2.nanos) (r : ResourceName) :
    ((ofPairs es).amount r).nanos = min (total es r) (2 ^ 127 - 1) := by
  have hsum := Quantity.nanos_foldl_add (fun e : ResourceName × Quantity => e.2)
    (es.filter (·.1 = r)) (fun e he => h e (List.mem_filter.1 he).1) 0
  rw [Quantity.nanos_zero, Int.zero_add] at hsum
  rw [ofPairs, amount_foldl_add, List.foldl_map, amount_empty, hsum, total]

end ResourceList

namespace WrittenAmounts

variable {w : WrittenAmounts} {resources : List String} {name : String → ResourceName}

/-- What is written for a resource in nano-units, and nothing if it cannot be read. -/
def nanos (w : WrittenAmounts) (resource : String) : Int :=
  ((w.read? resource).map (·.nanos)).getD 0

theorem total_entry (resource : String) (n r : ResourceName) :
    ResourceList.total (w.entry resource n) r = if n = r then w.nanos resource else 0 := by
  rw [entry, nanos]
  cases w.read? resource <;> by_cases hn : n = r <;> simp [ResourceList.total, hn]

/-- Of resources that are each named once, every one counts once. -/
theorem total_flatMap_entry (hnodup : resources.Nodup) (hname : Function.Injective name)
    (resource : String) :
    ResourceList.total (resources.flatMap fun r => w.entry r (name r)) (name resource) =
      if resource ∈ resources then w.nanos resource else 0 := by
  simp only [ResourceList.total_flatMap, total_entry, hname.eq_iff]
  rw [List.sum_map_ite_eq, hnodup.count]
  by_cases h : resource ∈ resources <;> simp [h]

theorem total_flatMap_entry_of_ne {r : ResourceName} (h : ∀ resource, name resource ≠ r) :
    ResourceList.total (resources.flatMap fun r => w.entry r (name r)) r = 0 := by
  simp [ResourceList.total_flatMap, total_entry, h]

end WrittenAmounts

/-! ### The sum over containers -/

namespace Container

theorem total_entries (resources : List String) (c : Container) (r : ResourceName) :
    ResourceList.total (c.entries resources) r =
      ResourceList.total (resources.flatMap fun r => c.requests.entry r (.requests r)) r +
        ResourceList.total (resources.flatMap fun r => c.limits.entry r (.limits r)) r := by
  simp only [entries, ResourceList.total_flatMap, ResourceList.total_append, List.sum_map_add]

variable {c : Container} {resources : List String}

theorem total_requests (hnodup : resources.Nodup) (resource : String) :
    ResourceList.total (c.entries resources) (.requests resource) =
      if resource ∈ resources then c.requests.nanos resource else 0 := by
  have hlimits (r : String) : ResourceName.limits r ≠ .requests resource :=
    ResourceName.ne_of_head?_ne (by simp)
  rw [total_entries, WrittenAmounts.total_flatMap_entry hnodup ResourceName.requests_injective,
    WrittenAmounts.total_flatMap_entry_of_ne hlimits, Int.add_zero]

theorem total_limits (hnodup : resources.Nodup) (resource : String) :
    ResourceList.total (c.entries resources) (.limits resource) =
      if resource ∈ resources then c.limits.nanos resource else 0 := by
  have hrequests (r : String) : ResourceName.requests r ≠ .limits resource :=
    ResourceName.ne_of_head?_ne (by simp)
  rw [total_entries, WrittenAmounts.total_flatMap_entry hnodup ResourceName.limits_injective,
    WrittenAmounts.total_flatMap_entry_of_ne hrequests, Int.zero_add]

end Container

namespace PodSpec

/-- What all containers request of a resource, in nano-units. -/
def requested (spec : PodSpec) (resource : String) : Int :=
  (spec.all.map (·.requests.nanos resource)).sum

/-- What all containers are limited to of a resource, in nano-units. -/
def limited (spec : PodSpec) (resource : String) : Int :=
  (spec.all.map (·.limits.nanos resource)).sum

variable {spec spec' : PodSpec} {resources : List String}

/-- What holds of the sum for each container holds of that for all. -/
theorem total_entries {r : ResourceName} {p : Prop} [Decidable p] {amount : Container → Int}
    (h : ∀ c : Container,
      ResourceList.total (c.entries resources) r = if p then amount c else 0) :
    ResourceList.total (spec.entries resources) r =
      if p then (spec.all.map amount).sum else 0 := by
  simp only [entries, ResourceList.total_flatMap, h]
  by_cases hp : p <;> simp [hp]

theorem total_requests (hnodup : resources.Nodup) (resource : String) :
    ResourceList.total (spec.entries resources) (.requests resource) =
      if resource ∈ resources then spec.requested resource else 0 :=
  total_entries fun _ => Container.total_requests hnodup resource

theorem total_limits (hnodup : resources.Nodup) (resource : String) :
    ResourceList.total (spec.entries resources) (.limits resource) =
      if resource ∈ resources then spec.limited resource else 0 :=
  total_entries fun _ => Container.total_limits hnodup resource

theorem requested_eq_of_perm (h : spec'.all.Perm spec.all) (resource : String) :
    spec'.requested resource = spec.requested resource := (h.map _).sum_eq

theorem limited_eq_of_perm (h : spec'.all.Perm spec.all) (resource : String) :
    spec'.limited resource = spec.limited resource := (h.map _).sum_eq

end PodSpec

/-! ### Which resources count -/

namespace Extractor

/-- Whether a resource of containers counts when some names are tracked. Compute resources count
anyway, and the empty name is that of no resource. -/
def Counts (names : List String) (resource : String) : Prop :=
  resource ∈ computeResources ∨ resource ∈ names ∧ resource ≠ ""

instance (names : List String) (resource : String) : Decidable (Counts names resource) :=
  inferInstanceAs (Decidable (resource ∈ computeResources ∨ resource ∈ names ∧ resource ≠ ""))

variable {names names' : List String}

theorem mem_summed_ofTracked_iff {resource : String} :
    resource ∈ (ofTracked names).summed ↔ Counts names resource := by
  rw [summed, List.mem_append, mem_tracked_ofTracked, Counts, String.isEmpty_eq_false_iff]
  tauto

/-- A resource counts once, however often it is named. -/
theorem summed_ofTracked_nodup : (ofTracked names).summed.Nodup := by
  refine List.Nodup.append (by decide) (KeySet.toList_nodup _) fun resource hcompute htracked => ?_
  exact (mem_tracked_ofTracked.1 htracked).2.2 hcompute

theorem counts_congr (h : ∀ n, n ∈ names' ↔ n ∈ names) (resource : String) :
    Counts names' resource ↔ Counts names resource := by
  rw [Counts, Counts, h]

end Extractor

/-! ### The usage of a pod -/

namespace PodSpec

open Extractor (Counts podUsage ofTracked)

/-- What a pod of some containers uses when some names are tracked: of each resource that counts
what is requested and limited altogether, unless that is zero, and itself. -/
structure Uses (names : List String) (spec : PodSpec) (usage : ResourceList) : Prop where
  requests : ∀ resource, (usage.get? (.requests resource)).map (·.nanos) =
    if Counts names resource ∧ spec.requested resource ≠ 0 then some (spec.requested resource)
    else none
  limits : ∀ resource, (usage.get? (.limits resource)).map (·.nanos) =
    if Counts names resource ∧ spec.limited resource ≠ 0 then some (spec.limited resource)
    else none
  pods : usage.get? .pods = some .one
  count : usage.get? (.objectCount "pods" "") = some .one
  nothingElse : ∀ r, usage.contains r = true → r = .pods ∨ r = .objectCount "pods" "" ∨
    ∃ resource, r = .requests resource ∨ r = .limits resource

/-- No sum of a resource that counts reaches the bound of quantities. -/
def Fits (names : List String) (spec : PodSpec) : Prop := ∀ resource, Counts names resource →
  spec.requested resource < 2 ^ 127 ∧ spec.limited resource < 2 ^ 127

variable {names names' : List String} {spec spec' : PodSpec} {usage usage' : ResourceList}

theorem Uses.unique (h : spec.Uses names usage) (h' : spec.Uses names usage') :
    usage = usage' := by
  have hnanos : Function.Injective (Option.map Quantity.nanos) :=
    Option.map_injective fun _ _ => Quantity.ext
  have hsame (r : ResourceName) (hr : usage.contains r = true ∨ usage'.contains r = true) :
      usage.get? r = usage'.get? r := by
    rcases hr.elim (h.nothingElse r) (h'.nothingElse r) with rfl | rfl | ⟨resource, rfl | rfl⟩
    · rw [h.pods, h'.pods]
    · rw [h.count, h'.count]
    · exact hnanos ((h.requests resource).trans (h'.requests resource).symm)
    · exact hnanos ((h.limits resource).trans (h'.limits resource).symm)
  refine Table.ext_get? fun r => ?_
  by_cases hr : usage.contains r = true ∨ usage'.contains r = true
  · exact hsame r hr
  · obtain ⟨hnot, hnot'⟩ := not_or.1 hr
    rw [Option.not_isSome_iff_eq_none.1 hnot, Option.not_isSome_iff_eq_none.1 hnot']

/-- Neither the order of the containers matters, nor which of them come first, nor how often a
resource is named. -/
theorem Uses.of_rearranged (h : spec'.Uses names' usage) (hnames : ∀ n, n ∈ names' ↔ n ∈ names)
    (hspec : spec'.all.Perm spec.all) : spec.Uses names usage where
  requests resource := by
    simp only [h.requests, Extractor.counts_congr hnames, requested_eq_of_perm hspec]
  limits resource := by
    simp only [h.limits, Extractor.counts_congr hnames, limited_eq_of_perm hspec]
  pods := h.pods
  count := h.count
  nothingElse := h.nothingElse

theorem Fits.of_rearranged (h : spec.Fits names) (hnames : ∀ n, n ∈ names' ↔ n ∈ names)
    (hspec : spec'.all.Perm spec.all) : spec'.Fits names' := fun resource hcounts => by
  rw [requested_eq_of_perm hspec, limited_eq_of_perm hspec]
  exact h resource ((Extractor.counts_congr hnames resource).1 hcounts)

end PodSpec

namespace Extractor

variable {names names' : List String} {spec spec' : PodSpec}
  {es : List (ResourceName × Quantity)} {r : ResourceName}

theorem get?_podUsage (hpods : r ≠ .pods) (hcount : r ≠ .objectCount "pods" "") :
    (podUsage es).get? r =
      if ((ResourceList.ofPairs es).amount r).nanos = 0 then none
      else some ((ResourceList.ofPairs es).amount r) := by
  rw [podUsage, ResourceList.get?_add, if_neg hcount, ResourceList.get?_add, if_neg hpods,
    ResourceList.get?_nonZero]

/-- What is found under the name of a resource that counts, if its sum does not reach the bound. -/
theorem map_nanos_get?_podUsage {resource : String} {n : Int} (hnonneg : ∀ e ∈ es, 0 ≤ e.2.nanos)
    (htotal : ResourceList.total es r = if Counts names resource then n else 0)
    (hn : Counts names resource → n < 2 ^ 127) (hpods : r ≠ .pods)
    (hcount : r ≠ .objectCount "pods" "") :
    ((podUsage es).get? r).map (·.nanos) =
      if Counts names resource ∧ n ≠ 0 then some n else none := by
  have hamount := ResourceList.nanos_amount_ofPairs hnonneg r
  rw [get?_podUsage hpods hcount]
  by_cases hcounts : Counts names resource
  · have hbound := hn hcounts
    rw [htotal, if_pos hcounts, Int.min_eq_left (by omega)] at hamount
    by_cases hzero : n = 0 <;> simp [hcounts, hamount, hzero]
  · rw [htotal, if_neg hcounts] at hamount
    simp [hcounts, hamount]

/-- No container states anything under a name that begins like neither requests nor limits. -/
theorem amount_entries_eq_zero (x : Extractor) (hr : r.text.toList.head? ≠ some 'r')
    (hl : r.text.toList.head? ≠ some 'l') :
    (ResourceList.ofPairs (spec.entries x.summed)).amount r = 0 := by
  refine ResourceList.amount_of_not_contains fun hcontains => ?_
  obtain ⟨resource, -, rfl | rfl⟩ := isStated_of_contains hcontains
  · exact hr (ResourceName.head?_requests resource)
  · exact hl (ResourceName.head?_limits resource)

theorem uses_podUsage (hfits : spec.Fits names)
    (hnonneg : ∀ e ∈ spec.entries (ofTracked names).summed, 0 ≤ e.2.nanos) :
    spec.Uses names (podUsage (spec.entries (ofTracked names).summed)) where
  requests resource := by
    refine map_nanos_get?_podUsage hnonneg ?_ (fun h => (hfits resource h).1) ?_ ?_
    · simp only [PodSpec.total_requests summed_ofTracked_nodup, mem_summed_ofTracked_iff]
    all_goals exact ResourceName.ne_of_head?_ne (by rw [ResourceName.head?_requests]; decide)
  limits resource := by
    refine map_nanos_get?_podUsage hnonneg ?_ (fun h => (hfits resource h).2) ?_ ?_
    · simp only [PodSpec.total_limits summed_ofTracked_nodup, mem_summed_ofTracked_iff]
    all_goals exact ResourceName.ne_of_head?_ne (by rw [ResourceName.head?_limits]; decide)
  pods := by
    rw [podUsage, ResourceList.get?_add, if_neg (by decide), ResourceList.get?_add, if_pos rfl,
      ResourceList.amount_nonZero, amount_entries_eq_zero _ (by decide) (by decide),
      Quantity.zero_add]
  count := by
    rw [podUsage, ResourceList.get?_add, if_pos rfl, ResourceList.amount_add, if_neg (by decide),
      ResourceList.amount_nonZero, amount_entries_eq_zero _ (by decide) (by decide),
      Quantity.zero_add]
  nothingElse r hr := by
    rcases (ResourceList.contains_add ..).1 hr with rfl | hr
    · exact .inr (.inl rfl)
    rcases (ResourceList.contains_add ..).1 hr with rfl | hr
    · exact .inl rfl
    obtain ⟨resource, -, hname⟩ := isStated_of_contains
      (ResourceList.contains_of_amount_ne ((ResourceList.contains_nonZero ..).1 hr))
    exact .inr (.inr ⟨resource, hname⟩)

/-! ### What is extracted -/

theorem pod_fails_iff {x : Extractor} {p : Pod} : (∃ fault, x.pod p = .error fault) ↔
    p.spec = none ∨ ∃ spec ∈ p.spec, ∃ c ∈ spec.all, ∃ resource ∈ x.summed,
      c.IsUnreadable resource := by
  simp only [exists_error_iff, pod_eq_ok_iff]
  cases p.spec with
  | none => simp
  | some spec => simp

theorem uses_of_pod {p : Pod} {usage : ResourceList} (hspec : p.spec = some spec) (hp : p.Nonneg)
    (hfits : spec.Fits names) (h : (ofTracked names).pod p = .ok usage) :
    spec.Uses names usage := by
  obtain ⟨spec', hspec', -, rfl⟩ := pod_eq_ok_iff.1 h
  obtain rfl := Option.some.inj (hspec.symm.trans hspec')
  exact uses_podUsage hfits (hp.entries hspec _)

/-- A pod of which the containers are given in another order is read where the pod is read. -/
theorem exists_pod_of_perm {p p' : Pod} {usage : ResourceList}
    (hnames : ∀ n, n ∈ names' ↔ n ∈ names) (hspec : p.spec = some spec)
    (hspec' : p'.spec = some spec') (hperm : spec'.all.Perm spec.all)
    (h : (ofTracked names).pod p = .ok usage) :
    ∃ usage', (ofTracked names').pod p' = .ok usage' := by
  obtain ⟨spec, hs, hreads, -⟩ := pod_eq_ok_iff.1 h
  obtain rfl := Option.some.inj (hspec.symm.trans hs)
  refine ⟨_, pod_eq_ok_iff.2 ⟨spec', hspec', fun c hc resource hresource => ?_, rfl⟩⟩
  rw [mem_summed_ofTracked_iff, counts_congr hnames, ← mem_summed_ofTracked_iff] at hresource
  exact hreads c (hperm.mem_iff.1 hc) resource hresource

/-- Whatever names are tracked, what a pod uses is known unless it has no spec or one of its
containers states an amount that counts and cannot be read. It is then the exact sum over the
containers, as it is of every pod with the same containers in some order, whichever of them come
first, and with the same names tracked, however often each is given. -/
theorem pod_isExact (names : List String) (p : Pod) :
    ((∃ fault, (ofTracked names).pod p = .error fault) ↔
      p.spec = none ∨ ∃ spec ∈ p.spec, ∃ c ∈ spec.all, ∃ resource,
        Counts names resource ∧ c.IsUnreadable resource) ∧
    ∀ spec usage, p.spec = some spec → p.Nonneg → spec.Fits names →
      (ofTracked names).pod p = .ok usage → spec.Uses names usage ∧
        ∀ names' p' spec', (∀ n, n ∈ names' ↔ n ∈ names) → p'.spec = some spec' →
          spec'.all.Perm spec.all → (ofTracked names').pod p' = .ok usage := by
  refine ⟨by simp only [pod_fails_iff, mem_summed_ofTracked_iff], fun spec usage hspec hp hfits h =>
    ⟨uses_of_pod hspec hp hfits h, fun names' p' spec' hnames hspec' hperm => ?_⟩⟩
  obtain ⟨usage', h'⟩ := exists_pod_of_perm hnames hspec hspec' hperm h
  have hp' : p'.Nonneg := by
    intro s hs c hc
    obtain rfl := Option.some.inj (hspec'.symm.trans hs)
    exact hp spec hspec c (hperm.mem_iff.1 hc)
  have huses' := uses_of_pod hspec' hp' (hfits.of_rearranged hnames hperm) h'
  rw [h', (huses'.of_rearranged hnames hperm).unique (uses_of_pod hspec hp hfits h)]

/-! A name that is given twice counts once, and the empty name and one of a compute resource change
nothing. -/

private def twoContainers : PodSpec where
  containers := [⟨.ofList [("cpu", "500m"), ("gpu", "1"), ("", "x")], Table.empty⟩]
  initContainers := [⟨.ofList [("cpu", "1")], .ofList [("gpu", "2"), ("memory", "0")]⟩]

private def podOf (spec : PodSpec) : Pod := { metadata := .empty, phase := none, spec := some spec }

private def gpuTwice : List String := ["gpu", "", "cpu", "gpu"]

/-- What both containers state, and the same if the first comes last and the names are given in
another order. -/
theorem pod_isExact_gpuTwice : ∃ usage, (ofTracked gpuTwice).pod (podOf twoContainers) = .ok usage ∧
    usage = .ofList [(.pods, .one), (.objectCount "pods" "", .one),
      (.requests "cpu", .ofNanos 1500000000), (.requests "gpu", .one),
      (.limits "gpu", .ofUnits 2)] ∧
    twoContainers.Uses gpuTwice usage ∧
    (ofTracked ["", "cpu", "gpu"]).pod (podOf ⟨twoContainers.all.reverse, []⟩) = .ok usage := by
  have hnonneg : (podOf twoContainers).Nonneg := by decide +kernel
  have hfits : twoContainers.Fits gpuTwice := by
    have hall : ∀ resource ∈ computeResources ++ gpuTwice,
        twoContainers.requested resource < 2 ^ 127 ∧ twoContainers.limited resource < 2 ^ 127 := by
      decide +kernel
    exact fun resource hcounts => hall resource (List.mem_append.2 (hcounts.imp_right And.left))
  have hpod : (ofTracked gpuTwice).pod (podOf twoContainers) = .ok (.ofList [(.pods, .one),
      (.objectCount "pods" "", .one), (.requests "cpu", .ofNanos 1500000000),
      (.requests "gpu", .one), (.limits "gpu", .ofUnits 2)]) := by decide +kernel
  obtain ⟨huses, hrearranged⟩ :=
    (pod_isExact gpuTwice (podOf twoContainers)).2 twoContainers _ rfl hnonneg hfits hpod
  refine ⟨_, hpod, rfl, huses, hrearranged _ _ _ (fun n => ?_) rfl ?_⟩
  · simp only [gpuTwice, List.mem_cons, List.not_mem_nil, or_false]
    tauto
  · show (twoContainers.all.reverse ++ []).Perm _
    rw [List.append_nil]
    exact List.reverse_perm _

end Extractor

end SharedQuota
