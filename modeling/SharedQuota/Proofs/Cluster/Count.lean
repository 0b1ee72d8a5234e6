import SharedQuota.Proofs.Cluster.Sum
import SharedQuota.Proofs.ObjectCount

/-!
How often an object counts for the resource that counts its kind. Main statement
(`isCountedOnce_iff`): once, unless its kind is entered in the table of kinds that are counted
though its objects are listed themselves.
-/

namespace SharedQuota

namespace ObjectCountKind

variable {k : ObjectCountKind}

theorem countResource_ne {r : ResourceName} (h : r.text.toList.head? ≠ some 'c') :
    k.countResource ≠ r := by
  rintro rfl
  exact h (by rw [text_countResource]; rfl)

theorem countResource_ne_requests (resource : String) : k.countResource ≠ .requests resource :=
  countResource_ne (by rw [ResourceName.requests, String.toList_append]; simp)

theorem countResource_ne_limits (resource : String) : k.countResource ≠ .limits resource :=
  countResource_ne (by rw [ResourceName.limits, String.toList_append]; simp)

/-- The name of a count has one slash, which a class of storage would have to end with. -/
theorem countResource_ne_storageClass (hk : k.IsWritten) (className resource : String) :
    k.countResource ≠ .storageClass className resource := by
  intro h
  obtain ⟨-, hresource, hgroup⟩ := hk.chars
  obtain ⟨rest, hrest, hname⟩ : ∃ rest, '/' ∉ rest ∧
      k.countResource.text.toList = "count".toList ++ '/' :: rest :=
    ⟨_, by split <;> simp [hresource, hgroup], text_countResource k⟩
  obtain ⟨mark, hmark, hlong⟩ : ∃ mark, ResourceName.storageClassMark.toList = mark ++ ['/'] ∧
      "count".toList.length < mark.length :=
    ⟨".storageclass.storage.k8s.io".toList, by decide, by decide⟩
  have hclass : (ResourceName.storageClass className resource).text.toList =
      (className.toList ++ mark) ++ '/' :: resource.toList := by
    rw [ResourceName.storageClass, String.toList_append, String.toList_append, hmark]
    simp
  rw [h, hclass, eq_comm, List.append_cons_inj_of_notMem (by decide) hrest] at hname
  rw [hname.1, List.length_append] at hlong
  omega

end ObjectCountKind

namespace Extractor

variable {x : Extractor} {usage : ResourceList} {k : ObjectCountKind}

/-- Of a kind that is listed itself an object counts one for its own kind alone. -/
def CountsFor (resource : String) (k : ObjectCountKind) (usage : ResourceList) : Prop :=
  usage.amount k.countResource = if k.countResource = .objectCount resource "" then .one else 0

theorem countsFor_of_pod {p : Pod} (h : x.pod p = .ok usage) : CountsFor "pods" k usage := by
  obtain ⟨summed, hstated, rfl⟩ := exists_of_pod h
  have hnot : ¬ summed.contains k.countResource = true := fun hr => by
    obtain ⟨resource, -, heq | heq⟩ := hstated _ hr
    · exact ObjectCountKind.countResource_ne_requests resource heq
    · exact ObjectCountKind.countResource_ne_limits resource heq
  have hzero : (summed.nonZero.add .pods .one).amount k.countResource = 0 := by
    rw [ResourceList.amount_add, if_neg (ObjectCountKind.countResource_ne (by decide)),
      ResourceList.amount_nonZero, ResourceList.amount_of_not_contains hnot]
  rw [CountsFor, ResourceList.amount_add]
  split
  case isTrue heq => rw [← heq, hzero, Quantity.zero_add]
  case isFalse => exact hzero

theorem countsFor_of_claim {o : Claim} (hk : k.IsWritten) (h : x.claim o = .ok usage) :
    CountsFor "persistentvolumeclaims" k usage := by
  obtain ⟨spec, written, storage, className, -, -, -, rfl⟩ := exists_of_claim h
  have hstorage : ResourceName.storage ≠ k.countResource :=
    (ObjectCountKind.countResource_ne (by decide)).symm
  have hclaims : ResourceName.claims ≠ k.countResource :=
    (ObjectCountKind.countResource_ne (by decide)).symm
  have hclass (resource : String) :
      ResourceName.storageClass className resource ≠ k.countResource :=
    (ObjectCountKind.countResource_ne_storageClass hk className resource).symm
  have hpairs : ((if className.isEmpty then [] else
      [(ResourceName.storageClass className "requests.storage", storage),
        (ResourceName.storageClass className "persistentvolumeclaims", Quantity.one)]).filter
          (·.1 = k.countResource)) = [] := by
    split <;> simp [hclass]
  rw [CountsFor, ResourceList.ofPairs, ResourceList.amount_foldl_add, List.filter_append, hpairs,
    List.append_nil]
  by_cases hown : ResourceName.objectCount "persistentvolumeclaims" "" = k.countResource
  · simp [hstorage, hclaims, hown]
  · simp [hstorage, hclaims, hown, Ne.symm hown]

theorem countsFor_of_service {o : Service} (h : x.service o = .ok usage) :
    CountsFor "services" k usage := by
  obtain ⟨balancers, ports, hbalancers, hports, rfl⟩ := exists_of_service h
  have hservices : ResourceName.services ≠ k.countResource :=
    (ObjectCountKind.countResource_ne (by decide)).symm
  have hb : balancers.filter (·.1 = k.countResource) = [] := by
    rw [List.filter_eq_nil_iff]
    intro e he heq
    rw [hbalancers e he] at heq
    exact ObjectCountKind.countResource_ne (by decide) (of_decide_eq_true heq).symm
  have hp : ports.filter (·.1 = k.countResource) = [] := by
    rw [List.filter_eq_nil_iff]
    intro e he heq
    obtain ⟨n, rfl⟩ := hports e he
    have hports : ResourceName.nodePorts ≠ k.countResource :=
      (ObjectCountKind.countResource_ne (by decide)).symm
    exact hports (of_decide_eq_true heq)
  rw [CountsFor, ResourceList.ofPairs, ResourceList.amount_foldl_add, List.filter_append,
    List.filter_append, hb, hp, List.append_nil, List.append_nil]
  by_cases hown : ResourceName.objectCount "services" "" = k.countResource
  · simp [hservices, hown]
  · simp [hservices, hown, Ne.symm hown]

end Extractor

namespace Contents

/-- As many objects of each kind are in a namespace as `number` says. -/
structure HasNumbers (c : Contents) (number : GroupResource → Nat) : Prop where
  pods : c.pods.length = number ⟨"", "pods"⟩
  claims : c.claims.length = number ⟨"", "persistentvolumeclaims"⟩
  services : c.services.length = number ⟨"", "services"⟩
  counted : ∀ k, c.counted k = number k.groupResource

/-- Whatever is in a namespace and asked for, the count of a kind is at most the number of its
objects. -/
def IsCountedOnce (kinds : ObjectCountKinds) (k : ObjectCountKind) : Prop :=
  ∀ (c : Contents) (number : GroupResource → Nat) (x : Extractor)
    (resources : KeySet ResourceName), c.HasNumbers number →
    resources.contains k.countResource = true →
    ((c.usage x kinds resources).amount k.countResource).nanos ≤
      number k.groupResource * Quantity.nanosPerUnit

variable {c : Contents} {number : GroupResource → Nat} {x : Extractor} {kinds : ObjectCountKinds}
  {k : ObjectCountKind} {u : ResourceList}

/-- How often an object of a kind that is listed itself counts for another kind. -/
def unitFor (resource : String) (k : ObjectCountKind) : Int :=
  if k.groupResource = ⟨"", resource⟩ then Quantity.nanosPerUnit else 0

theorem unitFor_nonneg (resource : String) (k : ObjectCountKind) : 0 ≤ unitFor resource k := by
  rw [unitFor]
  split <;> decide

theorem number_mul_unitFor (number : GroupResource → Nat) (resource : String)
    (k : ObjectCountKind) : (number ⟨"", resource⟩ : Int) * unitFor resource k =
      if k.groupResource = ⟨"", resource⟩ then number k.groupResource * Quantity.nanosPerUnit
      else 0 := by
  rw [unitFor]
  split
  case isTrue hkind => rw [hkind]
  case isFalse => exact Int.mul_zero _

theorem nanos_of_countsFor {resource : String} (hresource : '.' ∉ resource.toList)
    (hk : k.IsWritten) (h : Extractor.CountsFor resource k u) :
    (u.amount k.countResource).nanos = unitFor resource k := by
  have hsame : k.countResource = .objectCount resource "" ↔ k.groupResource = ⟨"", resource⟩ := by
    constructor
    · exact @ObjectCountKind.groupResource_inj k ⟨"", "v1", resource⟩ hk.chars.1 hresource
    · intro hkind
      obtain ⟨hgroup, hname⟩ := GroupResource.mk.inj hkind
      rw [ObjectCountKind.countResource, hgroup, hname]
  rw [h, unitFor]
  simp only [hsame]
  split <;> decide

theorem nanos_of_podHeld (hk : k.IsWritten) {p : Pod} (h : x.podHeld p = .ok u) :
    (u.amount k.countResource).nanos = 0 ∨
      (u.amount k.countResource).nanos = unitFor "pods" k := by
  rw [Extractor.podHeld] at h
  split at h
  case isTrue =>
    cases h
    exact .inl rfl
  case isFalse => exact .inr (nanos_of_countsFor (by decide) hk (Extractor.countsFor_of_pod h))

theorem nanos_of_claim (hk : k.IsWritten) {o : Claim} (h : x.claim o = .ok u) :
    (u.amount k.countResource).nanos = unitFor "persistentvolumeclaims" k :=
  nanos_of_countsFor (by decide) hk (Extractor.countsFor_of_claim hk h)

theorem nanos_of_service (hk : k.IsWritten) {o : Service} (h : x.service o = .ok u) :
    (u.amount k.countResource).nanos = unitFor "services" k :=
  nanos_of_countsFor (by decide) hk (Extractor.countsFor_of_service h)

theorem nonneg_of_mem_parts (hk : k.IsWritten) (hu : u ∈ c.parts x) :
    0 ≤ (u.amount k.countResource).nanos := by
  have hobject := mem_readable_iff.1 hu
  rw [objects, List.mem_append, List.mem_append] at hobject
  rcases hobject with (hobject | hobject) | hobject
  · obtain ⟨p, -, hp⟩ := List.mem_map.1 hobject
    rcases nanos_of_podHeld hk hp with hzero | hunit
    · exact hzero.ge
    · exact hunit ▸ unitFor_nonneg ..
  · obtain ⟨o, -, ho⟩ := List.mem_map.1 hobject
    exact nanos_of_claim hk ho ▸ unitFor_nonneg ..
  · obtain ⟨o, -, ho⟩ := List.mem_map.1 hobject
    exact nanos_of_service hk ho ▸ unitFor_nonneg ..

theorem sum_readable_le {α : Type} (extract : α → Except UsageFault ResourceList) (as : List α)
    {r : ResourceName} {n : Int} (hn : 0 ≤ n)
    (h : ∀ a ∈ as, ∀ u, extract a = .ok u → (u.amount r).nanos ≤ n) :
    ((readable (as.map extract)).map fun u => (u.amount r).nanos).sum ≤ as.length * n := by
  induction as with
  | nil => simp [readable]
  | cons a rest ih =>
    obtain ⟨ha, hrest⟩ := List.forall_mem_cons.1 h
    have hsum := ih hrest
    rw [List.length_cons, Int.natCast_succ, Int.add_mul]
    rw [readable] at hsum ⊢
    cases hextract : extract a with
    | error fault =>
      simp only [List.map_cons, hextract, List.filterMap_cons, Except.toOption]
      omega
    | ok u =>
      have hu := ha u hextract
      simp only [List.map_cons, hextract, List.filterMap_cons, Except.toOption, List.sum_cons]
      omega

/-- What the objects that are listed themselves add to the count of a kind. -/
theorem sum_parts_le (hc : c.HasNumbers number) (hk : k.IsWritten) :
    ((c.parts x).map fun u => (u.amount k.countResource).nanos).sum ≤
      if k.groupResource ∈ coreKinds then number k.groupResource * Quantity.nanosPerUnit
      else 0 := by
  have hpods := sum_readable_le (r := k.countResource) x.podHeld c.pods
    (unitFor_nonneg "pods" k) fun p _ u hp => by
      have := unitFor_nonneg "pods" k
      rcases nanos_of_podHeld hk hp with hzero | hunit <;> omega
  have hclaims := sum_readable_le (r := k.countResource) x.claim c.claims
    (unitFor_nonneg "persistentvolumeclaims" k) fun o _ u ho => (nanos_of_claim hk ho).le
  have hservices := sum_readable_le (r := k.countResource) x.service c.services
    (unitFor_nonneg "services" k) fun o _ u ho => (nanos_of_service hk ho).le
  have hparts : ((c.parts x).map fun u => (u.amount k.countResource).nanos).sum =
      ((readable (c.pods.map x.podHeld)).map fun u => (u.amount k.countResource).nanos).sum +
        ((readable (c.claims.map x.claim)).map fun u => (u.amount k.countResource).nanos).sum +
        ((readable (c.services.map x.service)).map fun u =>
          (u.amount k.countResource).nanos).sum := by
    simp only [parts, objects, readable, List.filterMap_append, List.map_append, List.sum_append]
  rw [hc.pods, number_mul_unitFor] at hpods
  rw [hc.claims, number_mul_unitFor] at hclaims
  rw [hc.services, number_mul_unitFor] at hservices
  rw [hparts]
  -- of the three sums all but that of the kind itself are zero
  by_cases hcore : k.groupResource ∈ coreKinds
  · rw [if_pos hcore]
    simp only [coreKinds, List.mem_cons, List.not_mem_nil, or_false] at hcore
    rcases hcore with hkind | hkind | hkind <;>
    · simp [hkind] at hpods hclaims hservices
      rw [hkind]
      omega
  · rw [if_neg hcore]
    simp only [coreKinds, List.mem_cons, List.not_mem_nil, or_false, not_or] at hcore
    rw [if_neg hcore.1] at hpods
    rw [if_neg hcore.2.1] at hclaims
    rw [if_neg hcore.2.2] at hservices
    omega

theorem sum_kindsNamed (hkinds : kinds.IsKeyed) (hwritten : ∀ k ∈ kinds.values, k.IsWritten)
    (hk : k.IsWritten) (hc : c.HasNumbers number) :
    ((kindsNamed kinds k.countResource).map fun k' =>
      (c.counted k' : Int) * Quantity.nanosPerUnit).sum =
      if kinds.contains k.groupResource then number k.groupResource * Quantity.nanosPerUnit
      else 0 := by
  have hnamed : kindsNamed kinds k.countResource =
      kinds.values.filter (·.groupResource = k.groupResource) := by
    refine List.filter_congr fun k' hk' => decide_eq_decide.2 ⟨fun h => ?_, fun h => ?_⟩
    · exact ObjectCountKind.groupResource_inj (hwritten k' hk').chars.1 hk.chars.1 h
    · obtain ⟨hgroup, hname⟩ := GroupResource.mk.inj h
      rw [ObjectCountKind.countResource, hgroup, hname, ObjectCountKind.countResource]
  rw [hnamed]
  cases hget : kinds.get? k.groupResource with
  | none =>
    have hnone : kinds.values.filter (·.groupResource = k.groupResource) = [] := by
      rw [List.filter_eq_nil_iff]
      intro k' hk' h
      have hsome := hkinds.get? hk'
      rw [of_decide_eq_true h, hget] at hsome
      cases hsome
    simp [hnone, Table.contains, hget]
  | some k' =>
    have hsame := hkinds _ _ hget
    obtain ⟨before, after, hvalues, hothers⟩ := hkinds.exists_values (hsame ▸ hget)
    have hone : kinds.values.filter (·.groupResource = k.groupResource) = [k'] := by
      rw [hvalues, ← hsame, List.filter_append, List.filter_cons_of_pos (by simp)]
      have hnone (part : List ObjectCountKind) (hpart : part ⊆ before ++ after) :
          part.filter (·.groupResource = k'.groupResource) = [] := by
        rw [List.filter_eq_nil_iff]
        exact fun k'' hk'' h => hothers k'' (hpart hk'') (of_decide_eq_true h)
      rw [hnone before (List.subset_append_left ..), hnone after (List.subset_append_right ..)]
      rfl
    simp [hone, Table.contains, hget, hc.counted, hsame]

theorem nanos_count (hk : k.IsWritten) {resources : KeySet ResourceName}
    (hr : resources.contains k.countResource = true) :
    ((c.usage x kinds resources).amount k.countResource).nanos =
      min (c.total x kinds k.countResource) (2 ^ 127 - 1) := by
  have hstorage : k.countResource ≠ .storage := ObjectCountKind.countResource_ne (by decide)
  exact nanos_amount_usage hr (fun h => absurd h hstorage) fun u hu => nonneg_of_mem_parts hk hu

theorem isCountedOnce (hkinds : kinds.IsKeyed) (hwritten : ∀ k ∈ kinds.values, k.IsWritten)
    (hk : k.IsWritten)
    (hapart : ¬ (k.groupResource ∈ coreKinds ∧ kinds.contains k.groupResource = true)) :
    IsCountedOnce kinds k := by
  intro c number x resources hc hr
  have hparts := sum_parts_le (x := x) hc hk
  have hcounted := sum_kindsNamed hkinds hwritten hk hc
  have hnumber : 0 ≤ (number k.groupResource : Int) * Quantity.nanosPerUnit :=
    Int.mul_nonneg (Int.natCast_nonneg _) (by decide)
  rw [nanos_count hk hr, total, hcounted]
  split at hparts
  case isTrue hcore =>
    rw [if_neg fun hcontains => hapart ⟨hcore, hcontains⟩]
    omega
  case isFalse =>
    split <;> omega

/-! One object of each kind that is listed itself. -/

private def oneOfEach : Contents where
  pods := [⟨.empty, some ⟨[], []⟩, none⟩]
  claims := [⟨.empty, some ⟨Table.ofList [("storage", "1")], none⟩⟩]
  services := [⟨.empty, some ⟨none, 0, none⟩⟩]
  counted k := if k.groupResource ∈ coreKinds then 1 else 0

private def oneEach (g : GroupResource) : Nat := if g ∈ coreKinds then 1 else 0

private theorem hasNumbers_oneOfEach : oneOfEach.HasNumbers oneEach where
  pods := by decide
  claims := by decide
  services := by decide
  counted _ := rfl

private def noneTracked : Extractor := ⟨[]⟩

/-- Where a kind is counted and listed itself, one object of it counts twice. -/
theorem usage_oneOfEach (hkinds : kinds.IsKeyed) (hwritten : ∀ k ∈ kinds.values, k.IsWritten)
    (hk : k.IsWritten) (hcore : k.groupResource ∈ coreKinds)
    (hcontains : kinds.contains k.groupResource = true) :
    ((oneOfEach.usage noneTracked kinds (.ofList [k.countResource])).amount k.countResource).nanos =
      2 * Quantity.nanosPerUnit := by
  have hr : (KeySet.ofList [k.countResource]).contains k.countResource = true :=
    KeySet.contains_ofList.2 (List.mem_singleton_self _)
  have hcounted := sum_kindsNamed hkinds hwritten hk hasNumbers_oneOfEach
  rw [if_pos hcontains, oneEach, if_pos hcore] at hcounted
  have hparts : ((oneOfEach.parts noneTracked).map fun u => (u.amount k.countResource).nanos).sum =
      Quantity.nanosPerUnit := by
    rw [ObjectCountKind.countResource]
    simp only [coreKinds, List.mem_cons, List.not_mem_nil, or_false] at hcore
    rcases hcore with hkind | hkind | hkind <;>
    · obtain ⟨hgroup, hname⟩ := GroupResource.mk.inj hkind
      rw [hgroup, hname]
      decide +kernel
  rw [nanos_count hk hr, total, hparts, hcounted]
  decide

/-- No object counts twice exactly where the kind is not both counted and listed itself. -/
theorem isCountedOnce_iff {text : String} (hkinds : ObjectCountKinds.parse text = .ok kinds)
    (hk : k.IsWritten) : IsCountedOnce kinds k ↔
      ¬ (k.groupResource ∈ coreKinds ∧ kinds.contains k.groupResource = true) := by
  obtain ⟨hkeyed, hwritten⟩ := ObjectCountKinds.isWritten_of_parse hkinds
  refine ⟨fun h ⟨hcore, hcontains⟩ => ?_, isCountedOnce hkeyed hwritten hk⟩
  have hle := h oneOfEach oneEach noneTracked (.ofList [k.countResource]) hasNumbers_oneOfEach
    (KeySet.contains_ofList.2 (List.mem_singleton_self _))
  rw [usage_oneOfEach hkeyed hwritten hk hcore hcontains, oneEach, if_pos hcore] at hle
  exact absurd hle (by decide)

private def deployments : ObjectCountKind := ⟨"apps", "v1", "deployments"⟩

private def corePods : ObjectCountKind := ⟨"", "v1", "pods"⟩

theorem isCountedOnce_deployments : ∃ kinds,
    ObjectCountKinds.parse "deployments.apps, pods" = .ok kinds ∧
      IsCountedOnce kinds deployments := by
  have hkinds : ObjectCountKinds.parse "deployments.apps, pods" =
      .ok (.ofList [deployments, corePods]) := by
    decide +kernel
  have hwritten : deployments.IsWritten := ⟨"deployments.apps", by decide +kernel⟩
  exact ⟨_, hkinds, (isCountedOnce_iff hkinds hwritten).2 (by decide +kernel)⟩

theorem not_isCountedOnce_pods : ∃ kinds, ObjectCountKinds.parse "pods" = .ok kinds ∧
    oneOfEach.HasNumbers oneEach ∧ oneEach corePods.groupResource = 1 ∧
    (oneOfEach.usage noneTracked kinds (.ofList [corePods.countResource])).amount
      corePods.countResource = .ofUnits 2 := by
  have hkinds : ObjectCountKinds.parse "pods" = .ok (.ofList [corePods]) := by decide +kernel
  exact ⟨_, hkinds, hasNumbers_oneOfEach, rfl, by decide +kernel⟩

end Contents

end SharedQuota
