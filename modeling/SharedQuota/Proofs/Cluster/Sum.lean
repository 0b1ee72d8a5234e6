import SharedQuota.Cluster.Contents
import SharedQuota.Proofs.Resource.Restriction
import SharedQuota.Proofs.Workload.Contribution

/-!
What the usage of a namespace adds up to. Objects that are not looked at would not add to a resource
that is asked for anyway (`amount_usage`), so that the amounts are sums over all objects, and where
none is negative the true sums as long as they stay below the bound (`nanos_amount_usage`).
-/

namespace SharedQuota

/-- The kinds whose objects are listed themselves and not only counted. -/
def coreKinds : List GroupResource :=
  [⟨"", "pods"⟩, ⟨"", "persistentvolumeclaims"⟩, ⟨"", "services"⟩]

namespace Contents

variable (c : Contents) (x : Extractor) (kinds : ObjectCountKinds)

/-- The usage of the objects that can be told. -/
def readable (objects : List (Except UsageFault ResourceList)) : List ResourceList :=
  objects.filterMap Except.toOption

/-- What is told of the pods, claims and services of a namespace. -/
def objects : List (Except UsageFault ResourceList) :=
  c.pods.map x.podHeld ++ c.claims.map x.claim ++ c.services.map x.service

def parts : List ResourceList := readable (c.objects x)

def kindsNamed (r : ResourceName) : List ObjectCountKind :=
  kinds.values.filter (·.countResource = r)

/-- The sum of what the objects of a namespace use of a resource, in nano-units. -/
def total (r : ResourceName) : Int :=
  ((c.parts x).map fun u => (u.amount r).nanos).sum +
    ((kindsNamed kinds r).map fun k => c.counted k * Quantity.nanosPerUnit).sum

variable {c x kinds} {u l : ResourceList} {r : ResourceName} {resources : KeySet ResourceName}

theorem mem_readable_iff {objects : List (Except UsageFault ResourceList)} :
    u ∈ readable objects ↔ .ok u ∈ objects := by
  rw [readable, List.mem_filterMap]
  constructor
  · rintro ⟨o, ho, hu⟩
    cases o with
    | error fault => cases hu
    | ok u' =>
      cases hu
      exact ho
  · exact fun h => ⟨.ok u, h, rfl⟩

theorem readable_append (objects objects' : List (Except UsageFault ResourceList)) :
    readable (objects ++ objects') = readable objects ++ readable objects' :=
  List.filterMap_append

theorem addReadable_eq (l : ResourceList) (objects : List (Except UsageFault ResourceList)) :
    addReadable l objects = (readable objects).foldl ResourceList.addAll l := by
  induction objects generalizing l with
  | nil => rfl
  | cons o rest ih =>
    rw [addReadable, List.foldl_cons, ← addReadable, ih]
    cases o <;> rfl

theorem amount_addReadable (l : ResourceList) (objects : List (Except UsageFault ResourceList))
    (r : ResourceName) : (addReadable l objects).amount r =
      (readable objects).foldl (fun sum u => sum + u.amount r) (l.amount r) := by
  rw [addReadable_eq, ResourceList.amount_foldl_addAll fun u => u]

theorem foldl_add_zero {us : List ResourceList} (h : ∀ u ∈ us, u.amount r = 0) (q : Quantity) :
    us.foldl (fun sum u => sum + u.amount r) q = q := by
  induction us generalizing q with
  | nil => rfl
  | cons u rest ih =>
    obtain ⟨hu, hrest⟩ := List.forall_mem_cons.1 h
    rw [List.foldl_cons, hu, Quantity.add_zero, ih hrest]

theorem contains_addReadable (l : ResourceList) (objects : List (Except UsageFault ResourceList))
    (r : ResourceName) : (addReadable l objects).contains r = true ↔
      l.contains r = true ∨ ∃ u ∈ readable objects, u.contains r = true := by
  rw [addReadable_eq, ResourceList.contains_foldl_addAll fun u => u]

/-! ### Objects that are left out -/

section

variable {objects : List (Except UsageFault ResourceList)} {contributes : ResourceName → Bool}

/-- Objects are left out only if nothing that is asked for comes of them. -/
theorem amount_ofKind
    (h : ∀ u ∈ readable objects, u.contains r = true → resources.toList.any contributes = true) :
    (if resources.toList.any contributes then addReadable l objects else l).amount r =
      (readable objects).foldl (fun sum u => sum + u.amount r) (l.amount r) := by
  by_cases hany : resources.toList.any contributes = true
  · rw [if_pos hany, amount_addReadable]
  · rw [if_neg hany, foldl_add_zero fun u hu => ?_]
    exact ResourceList.amount_of_not_contains fun hcontains => hany (h u hu hcontains)

theorem contains_ofKind
    (h : ∀ u ∈ readable objects, u.contains r = true → resources.toList.any contributes = true) :
    (if resources.toList.any contributes then addReadable l objects else l).contains r = true ↔
      l.contains r = true ∨ ∃ u ∈ readable objects, u.contains r = true := by
  by_cases hany : resources.toList.any contributes = true
  · rw [if_pos hany, contains_addReadable]
  · rw [if_neg hany, or_iff_left]
    rintro ⟨u, hu, hcontains⟩
    exact hany (h u hu hcontains)

theorem any_contributes (hr : resources.contains r = true) (h : contributes r = true) :
    resources.toList.any contributes = true :=
  List.any_eq_true.2 ⟨r, (KeySet.mem_toList_iff _).2 hr, h⟩

end

theorem ofPods_of_podHeld {p : Pod} (h : x.podHeld p = .ok u) (hr : u.contains r = true) :
    r.ofPods = true ∨ r = .storage ∧ "storage" ∈ x.tracked := by
  rw [Extractor.podHeld] at h
  split at h
  case isTrue =>
    cases h
    cases hr
  case isFalse => exact Extractor.ofPods_of_pod h hr

/-- Pods are looked at if one of them has what is asked for. Storage that they use is told only
together with a resource of pods. -/
theorem any_ofPods (hr : resources.contains r = true)
    (hstorage : r = .storage → "storage" ∈ x.tracked →
      resources.toList.any ResourceName.ofPods = true ∨ c.pods = []) :
    ∀ u ∈ readable (c.pods.map x.podHeld), u.contains r = true →
      resources.toList.any ResourceName.ofPods = true := by
  intro u hu hcontains
  obtain ⟨p, hmem, hp⟩ := List.mem_map.1 (mem_readable_iff.1 hu)
  rcases ofPods_of_podHeld hp hcontains with hpods | ⟨rfl, htracked⟩
  · exact any_contributes hr hpods
  · refine (hstorage rfl htracked).resolve_right fun hnil => ?_
    rw [hnil] at hmem
    cases hmem

theorem any_ofClaims (hr : resources.contains r = true) :
    ∀ u ∈ readable (c.claims.map x.claim), u.contains r = true →
      resources.toList.any ResourceName.ofClaims = true := by
  intro u hu hcontains
  obtain ⟨o, -, ho⟩ := List.mem_map.1 (mem_readable_iff.1 hu)
  exact any_contributes hr (Extractor.ofClaims_of_claim ho hcontains)

theorem any_ofServices (hr : resources.contains r = true) :
    ∀ u ∈ readable (c.services.map x.service), u.contains r = true →
      resources.toList.any ResourceName.ofServices = true := by
  intro u hu hcontains
  obtain ⟨o, -, ho⟩ := List.mem_map.1 (mem_readable_iff.1 hu)
  exact any_contributes hr (Extractor.ofServices_of_service ho hcontains)

/-! ### Kinds that are only counted -/

/-- Of the kinds that are only counted, nothing but the number of objects matters. -/
theorem foldl_countedKinds_congr {c' : Contents}
    (h : ∀ k ∈ countedKinds kinds resources, c'.counted k = c.counted k) (l : ResourceList) :
    (countedKinds kinds resources).foldl
      (fun sum k => sum.add k.countResource (.ofUnits (c'.counted k))) l =
      (countedKinds kinds resources).foldl
        (fun sum k => sum.add k.countResource (.ofUnits (c.counted k))) l :=
  List.foldl_ext _ _ l fun _ k hk => by rw [h k hk]

theorem amount_foldl_countedKinds (hr : resources.contains r = true) (l : ResourceList) :
    ((countedKinds kinds resources).foldl
      (fun sum k => sum.add k.countResource (.ofUnits (c.counted k))) l).amount r =
      (kindsNamed kinds r).foldl (fun sum k => sum + .ofUnits (c.counted k)) (l.amount r) := by
  have hpairs := ResourceList.amount_foldl_add ((countedKinds kinds resources).map fun k =>
    (k.countResource, Quantity.ofUnits (c.counted k))) l r
  rw [List.foldl_map] at hpairs
  have hnamed : (countedKinds kinds resources).filter (·.countResource = r) =
      kindsNamed kinds r := by
    rw [countedKinds, List.filter_filter, kindsNamed]
    refine List.filter_congr fun k _ => ?_
    by_cases hk : k.countResource = r <;> simp [hk, hr]
  rw [hpairs, List.filter_map, List.map_map, List.foldl_map]
  exact congrArg (List.foldl _ _) hnamed

theorem contains_foldl_countedKinds (hr : resources.contains r = true) (l : ResourceList) :
    ((countedKinds kinds resources).foldl
      (fun sum k => sum.add k.countResource (.ofUnits (c.counted k))) l).contains r = true ↔
      l.contains r = true ∨ ∃ k ∈ kinds.values, k.countResource = r := by
  have hpairs := ResourceList.contains_foldl_add ((countedKinds kinds resources).map fun k =>
    (k.countResource, Quantity.ofUnits (c.counted k))) l r
  rw [List.foldl_map] at hpairs
  rw [hpairs, List.map_map, countedKinds]
  refine or_congr_right ?_
  simp only [List.mem_map, List.mem_filter, Function.comp_apply]
  constructor
  · rintro ⟨k, ⟨hk, -⟩, rfl⟩
    exact ⟨k, hk, rfl⟩
  · rintro ⟨k, hk, rfl⟩
    exact ⟨k, ⟨hk, hr⟩, rfl⟩

/-! ### The usage -/

/-- The amount of a resource that is asked for is the sum over all objects, whatever else is asked
for. -/
theorem amount_usage (hr : resources.contains r = true)
    (hstorage : r = .storage → "storage" ∈ x.tracked →
      resources.toList.any ResourceName.ofPods = true ∨ c.pods = []) :
    (c.usage x kinds resources).amount r =
      (kindsNamed kinds r).foldl (fun sum k => sum + .ofUnits (c.counted k))
        ((c.parts x).foldl (fun sum u => sum + u.amount r) 0) := by
  rw [usage, ResourceList.amount_restrict _ resources.toList_nodup,
    if_pos ((KeySet.mem_toList_iff _).2 hr), amount_foldl_countedKinds hr, parts, objects,
    readable_append, readable_append, List.foldl_append, List.foldl_append]
  congr 1
  rw [amount_ofKind (any_ofServices hr), amount_ofKind (any_ofClaims hr),
    amount_ofKind (any_ofPods hr hstorage)]
  rfl

/-- A resource that is asked for has an entry if some object has one for it, or if it counts the
objects of a kind. What objects are left does not matter for that. -/
theorem contains_usage (hr : resources.contains r = true)
    (hstorage : r = .storage → "storage" ∈ x.tracked →
      resources.toList.any ResourceName.ofPods = true ∨ c.pods = []) :
    (c.usage x kinds resources).contains r = true ↔
      (∃ u ∈ c.parts x, u.contains r = true) ∨ ∃ k ∈ kinds.values, k.countResource = r := by
  rw [usage, ResourceList.contains_restrict, and_iff_right ((KeySet.mem_toList_iff _).2 hr),
    contains_foldl_countedKinds hr, contains_ofKind (any_ofServices hr),
    contains_ofKind (any_ofClaims hr), contains_ofKind (any_ofPods hr hstorage), parts, objects,
    readable_append, readable_append, or_iff_right (Table.not_contains_empty r)]
  simp only [List.mem_append, or_and_right, exists_or]

theorem nanos_amount_usage (hr : resources.contains r = true)
    (hstorage : r = .storage → "storage" ∈ x.tracked →
      resources.toList.any ResourceName.ofPods = true ∨ c.pods = [])
    (hnonneg : ∀ u ∈ c.parts x, 0 ≤ (u.amount r).nanos) :
    ((c.usage x kinds resources).amount r).nanos = min (c.total x kinds r) (2 ^ 127 - 1) := by
  have hparts := Quantity.nanos_foldl_add (fun u => u.amount r) (c.parts x) hnonneg 0
  rw [Quantity.nanos_zero, Int.zero_add] at hparts
  rw [amount_usage hr hstorage, total]
  refine Quantity.nanos_foldl_add_of_min _ (fun k _ => ⟨?_, Quantity.nanos_ofUnits_natCast _⟩)
    (List.sum_nonneg fun n hn => ?_) hparts
  · exact Int.mul_nonneg (Int.natCast_nonneg _) (by decide)
  · obtain ⟨u, hu, rfl⟩ := List.mem_map.1 hn
    exact hnonneg u hu

end Contents

end SharedQuota
