import SharedQuota.Workload.Usage
import SharedQuota.Proofs.Except
import SharedQuota.Proofs.Resource.Amount

/-!
Which resources an object uses. They are ones that its kind is said to contribute to
(`ofPods_of_pod`, `ofClaims_of_claim`, `ofServices_of_service`), but for storage, which pods use
where it is tracked. When the usage of a pod is known, it is the list of what its containers state,
added up (`pod_eq_ok_iff`).
-/

namespace SharedQuota

namespace ResourceName

variable {r : ResourceName}

theorem startsWith_iff {p : String} : r.startsWith p = true ↔ p.toList <+: r.text.toList :=
  List.isPrefixOf_iff_prefix

theorem startsWith_append {p s : String} (h : r.text = p ++ s) : r.startsWith p = true := by
  rw [startsWith_iff, h, String.toList_append]
  exact List.prefix_append ..

theorem occursIn_append (p : List Char) (s t : List Char) : occursIn p (s ++ p ++ t) = true := by
  induction s with
  | nil =>
    cases p with
    | nil => cases t <;> simp [occursIn]
    | cons c p => simp [occursIn]
  | cons c s ih =>
    rw [List.cons_append, List.cons_append, occursIn, ih, Bool.or_true]

theorem ofPods_limits (resource : String) : (limits resource).ofPods = true := by
  simp [ofPods, startsWith_append (r := limits resource) rfl]

theorem ofPods_requests {resource : String} (h : requests resource ≠ storage) :
    (requests resource).ofPods = true := by
  simp [ofPods, startsWith_append (r := requests resource) rfl, h]

theorem requests_eq_storage_iff {resource : String} :
    requests resource = storage ↔ resource = "storage" := by
  constructor
  · intro h
    have htext : "requests." ++ resource = "requests." ++ "storage" := congrArg text h
    exact String.append_right_inj .. |>.1 htext
  · rintro rfl
    rfl

@[simp] theorem head?_requests (resource : String) :
    (requests resource).text.toList.head? = some 'r' := by
  simp [requests, String.toList_append]

@[simp] theorem head?_limits (resource : String) :
    (limits resource).text.toList.head? = some 'l' := by
  simp [limits, String.toList_append]

theorem ne_of_head?_ne {s : ResourceName} (h : r.text.toList.head? ≠ s.text.toList.head?) :
    r ≠ s := fun heq => h (congrArg (·.text.toList.head?) heq)

theorem requests_injective : Function.Injective requests := fun _ _ h =>
  (String.append_right_inj (s := "requests.") ..).1 (congrArg text h)

theorem limits_injective : Function.Injective limits := fun _ _ h =>
  (String.append_right_inj (s := "limits.") ..).1 (congrArg text h)

theorem ofClaims_storageClass (name resource : String) :
    (storageClass name resource).ofClaims = true := by
  have hmark :
      occursIn storageClassMark.toList (storageClass name resource).text.toList = true := by
    rw [storageClass, String.toList_append, String.toList_append]
    exact occursIn_append ..
  simp [ofClaims, hmark]

end ResourceName

/-! ### What containers state -/

namespace WrittenAmounts

/-- Something is written for a resource that cannot be read. -/
def IsUnreadable (w : WrittenAmounts) (resource : String) : Prop :=
  ∃ amount ∈ w.get? resource, ∃ e, Quantity.parse amount = .error e

/-- The amount that is written for a resource, if it can be read. -/
def read? (w : WrittenAmounts) (resource : String) : Option Quantity :=
  (w.get? resource).bind fun amount => (Quantity.parse amount).toOption

/-- What is written for a resource, as an entry under the name it counts as. -/
def entry (w : WrittenAmounts) (resource : String) (name : ResourceName) :
    List (ResourceName × Quantity) :=
  (w.read? resource).toList.map (name, ·)

theorem mem_entry_iff {w : WrittenAmounts} {resource : String} {name : ResourceName}
    {e : ResourceName × Quantity} :
    e ∈ w.entry resource name ↔ e.1 = name ∧ w.read? resource = some e.2 := by
  obtain ⟨n, q⟩ := e
  simp [entry, and_comm, eq_comm]

end WrittenAmounts

/-- A request or a limit of a resource is written that cannot be read. -/
def Container.IsUnreadable (c : Container) (resource : String) : Prop :=
  c.requests.IsUnreadable resource ∨ c.limits.IsUnreadable resource

/-- The requests and limits of some resources, in the order in which they are added. -/
def Container.entries (resources : List String) (c : Container) :
    List (ResourceName × Quantity) :=
  resources.flatMap fun r => c.requests.entry r (.requests r) ++ c.limits.entry r (.limits r)

/-- All containers of a pod, which count alike. -/
def PodSpec.all (spec : PodSpec) : List Container := spec.containers ++ spec.initContainers

def PodSpec.entries (resources : List String) (spec : PodSpec) : List (ResourceName × Quantity) :=
  spec.all.flatMap (·.entries resources)

theorem PodSpec.mem_entries_iff {resources : List String} {spec : PodSpec}
    {e : ResourceName × Quantity} : e ∈ spec.entries resources ↔
      ∃ c ∈ spec.all, ∃ r ∈ resources, (e.1 = .requests r ∧ c.requests.read? r = some e.2) ∨
        (e.1 = .limits r ∧ c.limits.read? r = some e.2) := by
  simp only [entries, Container.entries, List.mem_flatMap, List.mem_append,
    WrittenAmounts.mem_entry_iff]

namespace Extractor

variable {x : Extractor} {usage usage' : ResourceList} {r : ResourceName}

theorem mem_tracked_ofTracked {names : List String} {name : String} :
    name ∈ (ofTracked names).tracked ↔
      name ∈ names ∧ name.isEmpty = false ∧ name ∉ computeResources := by
  simp [ofTracked, KeySet.mem_toList_ofList, List.mem_filter]

/-! ### Pods -/

theorem addWritten_eq_ok_iff {written : WrittenAmounts} {resource : String} {name : ResourceName} :
    addWritten usage written resource name = .ok usage' ↔ ¬ written.IsUnreadable resource ∧
      (written.entry resource name).foldl (fun l e => l.add e.1 e.2) usage = usage' := by
  rw [addWritten, WrittenAmounts.IsUnreadable, WrittenAmounts.entry, WrittenAmounts.read?]
  cases written.get? resource with
  | none => simp
  | some amount =>
    cases hparse : Quantity.parse amount with
    | error e =>
      simp [readAmount, hparse, Except.mapError, bind, Except.bind, Except.toOption]
    | ok q =>
      simp [readAmount, hparse, Except.mapError, bind, Except.bind, Except.toOption, pure,
        Except.pure]

theorem addContainer_eq_ok_iff {c : Container} : x.addContainer usage c = .ok usage' ↔
    (∀ resource ∈ x.summed, ¬ c.IsUnreadable resource) ∧
      (c.entries x.summed).foldl (fun l e => l.add e.1 e.2) usage = usage' := by
  rw [Container.entries, List.foldl_flatMap]
  refine foldlM_eq_ok_iff fun usage resource usage' => ?_
  rw [List.foldl_append, Container.IsUnreadable, not_or]
  constructor
  · intro h
    obtain ⟨between, hrequests, hlimits⟩ := ok_of_bind h
    obtain ⟨hreads, rfl⟩ := addWritten_eq_ok_iff.1 hrequests
    obtain ⟨hreads', hvalue⟩ := addWritten_eq_ok_iff.1 hlimits
    exact ⟨⟨hreads, hreads'⟩, hvalue⟩
  · rintro ⟨⟨hreads, hreads'⟩, hvalue⟩
    rw [addWritten_eq_ok_iff.2 ⟨hreads, rfl⟩]
    exact addWritten_eq_ok_iff.2 ⟨hreads', hvalue⟩

/-- What a pod uses is what its containers state, without zeros, and the pod itself. -/
def podUsage (entries : List (ResourceName × Quantity)) : ResourceList :=
  ((ResourceList.ofPairs entries).nonZero.add .pods .one).add (.objectCount "pods" "") .one

/-- The usage of a pod is known if the pod has a spec and all that counts in it can be read. -/
theorem pod_eq_ok_iff {p : Pod} : x.pod p = .ok usage ↔ ∃ spec, p.spec = some spec ∧
    (∀ c ∈ spec.all, ∀ resource ∈ x.summed, ¬ c.IsUnreadable resource) ∧
      podUsage (spec.entries x.summed) = usage := by
  have hfold (spec : PodSpec) (summed : ResourceList) :
      spec.all.foldlM x.addContainer Table.empty = .ok summed ↔
        (∀ c ∈ spec.all, ∀ resource ∈ x.summed, ¬ c.IsUnreadable resource) ∧
          ResourceList.ofPairs (spec.entries x.summed) = summed := by
    rw [ResourceList.ofPairs, PodSpec.entries, List.foldl_flatMap]
    exact foldlM_eq_ok_iff (f := x.addContainer) fun _ _ _ => addContainer_eq_ok_iff
  rw [pod]
  cases p.spec with
  | none => simp [throw, throwThe, MonadExceptOf.throw]
  | some spec =>
    constructor
    · intro h
      obtain ⟨summed, hsummed, h⟩ := ok_of_bind h
      obtain ⟨hreads, rfl⟩ := (hfold spec summed).1 hsummed
      exact ⟨spec, rfl, hreads, Except.ok.inj h⟩
    · rintro ⟨spec, ⟨⟩, hreads, rfl⟩
      have hsummed := (hfold spec _).2 ⟨hreads, rfl⟩
      rw [PodSpec.all] at hsummed
      simp only [hsummed]
      rfl

/-- A container may state an amount of a resource under a name. -/
def IsStated (x : Extractor) (r : ResourceName) : Prop :=
  ∃ resource ∈ x.summed, r = .requests resource ∨ r = .limits resource

theorem IsStated.ofPods (h : x.IsStated r) :
    r.ofPods = true ∨ r = .storage ∧ "storage" ∈ x.tracked := by
  obtain ⟨resource, hresource, rfl | rfl⟩ := h
  · by_cases hstorage : ResourceName.requests resource = .storage
    · obtain rfl := ResourceName.requests_eq_storage_iff.1 hstorage
      rcases List.mem_append.1 hresource with hcompute | htracked
      · exact absurd hcompute (by decide)
      · exact .inr ⟨rfl, htracked⟩
    · exact .inl (ResourceName.ofPods_requests hstorage)
  · exact .inl (ResourceName.ofPods_limits resource)

theorem isStated_of_contains {spec : PodSpec}
    (h : (ResourceList.ofPairs (spec.entries x.summed)).contains r = true) : x.IsStated r := by
  obtain ⟨e, he, rfl⟩ := List.mem_map.1 ((ResourceList.contains_ofPairs ..).1 h)
  obtain ⟨c, -, resource, hresource, hname⟩ := PodSpec.mem_entries_iff.1 he
  exact ⟨resource, hresource, hname.imp And.left And.left⟩

/-- The containers of a pod add what they state, and the pod counts for itself. -/
theorem exists_of_pod {p : Pod} (h : x.pod p = .ok usage) : ∃ summed : ResourceList,
    (∀ r, summed.contains r = true → x.IsStated r) ∧
      usage = (summed.nonZero.add .pods .one).add (.objectCount "pods" "") .one := by
  obtain ⟨spec, -, -, rfl⟩ := pod_eq_ok_iff.1 h
  exact ⟨_, fun _ => isStated_of_contains, rfl⟩

theorem ofPods_of_pod {p : Pod} (h : x.pod p = .ok usage) (hr : usage.contains r = true) :
    r.ofPods = true ∨ r = .storage ∧ "storage" ∈ x.tracked := by
  obtain ⟨summed, hstated, rfl⟩ := exists_of_pod h
  rcases (ResourceList.contains_add ..).1 hr with rfl | hr
  · exact .inl (by decide)
  · rcases (ResourceList.contains_add ..).1 hr with rfl | hr
    · exact .inl (by decide)
    · have hne := (ResourceList.contains_nonZero ..).1 hr
      exact (hstated r (ResourceList.contains_of_amount_ne hne)).ofPods

/-! ### Claims and services -/

theorem exists_of_claim {o : Claim} (h : x.claim o = .ok usage) :
    ∃ (spec : ClaimSpec) (written : String) (storage : Quantity) (className : String),
      o.spec = some spec ∧ spec.requests.get? "storage" = some written ∧
      readAmount ResourceName.storage.text written = .ok storage ∧ usage = .ofPairs
      ([(.storage, storage), (.claims, .one), (.objectCount "persistentvolumeclaims" "", .one)] ++
        if className.isEmpty then [] else [(.storageClass className "requests.storage", storage),
          (.storageClass className "persistentvolumeclaims", .one)]) := by
  rw [claim] at h
  cases hspec : o.spec with
  | none => rw [hspec] at h; cases h
  | some spec =>
    rw [hspec] at h
    cases hwritten : spec.requests.get? "storage" with
    | none => simp only [hwritten] at h; cases h
    | some written =>
      simp only [hwritten] at h
      obtain ⟨storage, hread, h⟩ := ok_of_bind h
      refine ⟨spec, written, storage, spec.storageClass.getD "", rfl, hwritten,
        ok_of_mapError hread, ?_⟩
      rw [← Except.ok.inj h]
      cases spec.storageClass <;> rfl

theorem exists_of_service {o : Service} (h : x.service o = .ok usage) :
    ∃ balancers ports : List (ResourceName × Quantity),
      (∀ e ∈ balancers, e = (.loadBalancers, .one)) ∧
        (∀ e ∈ ports, ∃ n : Nat, e = (.nodePorts, .ofUnits n)) ∧
          usage = .ofPairs
            ([(.services, .one), (.objectCount "services" "", .one)] ++ balancers ++ ports) := by
  rw [service] at h
  cases hspec : o.spec with
  | none => rw [hspec] at h; cases h
  | some spec =>
    rw [hspec] at h
    refine ⟨_, _, fun e he => ?_, fun e he => ?_, (Except.ok.inj h).symm⟩
    · split at he
      · exact List.mem_singleton.1 he
      · cases he
    · split at he
      · cases he
      · exact ⟨_, List.mem_singleton.1 he⟩

theorem ofClaims_of_claim {o : Claim} (h : x.claim o = .ok usage)
    (hr : usage.contains r = true) : r.ofClaims = true := by
  obtain ⟨spec, written, storage, className, -, -, -, rfl⟩ := exists_of_claim h
  have hname := (ResourceList.contains_ofPairs ..).1 hr
  rw [List.map_append, List.mem_append] at hname
  rcases hname with hname | hname
  · simp only [List.map_cons, List.map_nil, List.mem_cons, List.not_mem_nil, or_false] at hname
    rcases hname with rfl | rfl | rfl <;> decide
  · split at hname
    · cases hname
    · simp only [List.map_cons, List.map_nil, List.mem_cons, List.not_mem_nil, or_false] at hname
      rcases hname with rfl | rfl <;> exact ResourceName.ofClaims_storageClass ..

theorem ofServices_of_service {o : Service} (h : x.service o = .ok usage)
    (hr : usage.contains r = true) : r.ofServices = true := by
  obtain ⟨balancers, ports, hbalancers, hports, rfl⟩ := exists_of_service h
  have hname := (ResourceList.contains_ofPairs ..).1 hr
  obtain ⟨e, he, rfl⟩ := List.mem_map.1 hname
  rw [List.mem_append, List.mem_append] at he
  rcases he with (he | he) | he
  · simp only [List.mem_cons, List.not_mem_nil, or_false] at he
    rcases he with rfl | rfl <;> decide
  · rw [hbalancers e he]
    decide
  · obtain ⟨n, rfl⟩ := hports e he
    exact (by decide : ResourceName.nodePorts.ofServices = true)

end Extractor

end SharedQuota
