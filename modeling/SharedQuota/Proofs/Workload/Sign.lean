import SharedQuota.Proofs.Workload.Contribution

/-!
Objects without negative amounts. What a service or a counted object uses is a number of things; a
pod or claim uses no negative amount if none is written in it (`nonneg_podHeld`, `nonneg_claim`).
-/

namespace SharedQuota

/-- None of the amounts, as far as they can be read, is negative. -/
def WrittenAmounts.Nonneg (w : WrittenAmounts) : Prop :=
  ∀ amount ∈ w.values, ∀ q ∈ (Quantity.parse amount).toOption, 0 ≤ q.nanos

instance (w : WrittenAmounts) : Decidable w.Nonneg :=
  inferInstanceAs
    (Decidable (∀ amount ∈ w.values, ∀ q ∈ (Quantity.parse amount).toOption, 0 ≤ q.nanos))

theorem WrittenAmounts.Nonneg.readAmount {w : WrittenAmounts} (h : w.Nonneg)
    {written resource amount : String} {q : Quantity} (hget : w.get? written = some amount)
    (hq : readAmount resource amount = .ok q) : 0 ≤ q.nanos := by
  refine h amount ((Table.mem_values_iff w).2 ⟨written, hget⟩) q ?_
  rw [ok_of_mapError hq]
  rfl

theorem WrittenAmounts.Nonneg.read? {w : WrittenAmounts} (h : w.Nonneg) {resource : String}
    {q : Quantity} (hq : w.read? resource = some q) : 0 ≤ q.nanos := by
  obtain ⟨amount, hget, hparse⟩ := Option.bind_eq_some_iff.1 hq
  exact h amount ((Table.mem_values_iff w).2 ⟨resource, hget⟩) q hparse

def Container.Nonneg (c : Container) : Prop := c.requests.Nonneg ∧ c.limits.Nonneg

instance (c : Container) : Decidable c.Nonneg :=
  inferInstanceAs (Decidable (c.requests.Nonneg ∧ c.limits.Nonneg))

def Pod.Nonneg (p : Pod) : Prop :=
  ∀ spec ∈ p.spec, ∀ c ∈ spec.containers ++ spec.initContainers, c.Nonneg

instance (p : Pod) : Decidable p.Nonneg :=
  inferInstanceAs
    (Decidable (∀ spec ∈ p.spec, ∀ c ∈ spec.containers ++ spec.initContainers, c.Nonneg))

theorem Pod.Nonneg.entries {p : Pod} (hp : p.Nonneg) {spec : PodSpec} (hspec : p.spec = some spec)
    (resources : List String) : ∀ e ∈ spec.entries resources, 0 ≤ e.2.nanos := by
  intro e he
  obtain ⟨c, hc, r, -, ⟨-, hq⟩ | ⟨-, hq⟩⟩ := PodSpec.mem_entries_iff.1 he
  · exact (hp spec hspec c hc).1.read? hq
  · exact (hp spec hspec c hc).2.read? hq

def Claim.Nonneg (o : Claim) : Prop := ∀ spec ∈ o.spec, spec.requests.Nonneg

instance (o : Claim) : Decidable o.Nonneg :=
  inferInstanceAs (Decidable (∀ spec ∈ o.spec, spec.requests.Nonneg))

namespace Extractor

variable {x : Extractor}

theorem nonneg_pod {p : Pod} {usage : ResourceList} (hp : p.Nonneg) (h : x.pod p = .ok usage) :
    usage.Nonneg := by
  have hone : 0 ≤ Quantity.one.nanos := by decide
  obtain ⟨spec, hspec, -, rfl⟩ := pod_eq_ok_iff.1 h
  exact ((ResourceList.nonneg_nonZero_iff.2
    (ResourceList.nonneg_ofPairs (hp.entries hspec _))).add _ hone).add _ hone

theorem nonneg_podHeld {p : Pod} {usage : ResourceList} (hp : p.Nonneg)
    (h : x.podHeld p = .ok usage) : usage.Nonneg := by
  rw [podHeld] at h
  split at h
  case isTrue =>
    cases h
    exact ResourceList.nonneg_empty
  case isFalse => exact nonneg_pod hp h

theorem nonneg_service {o : Service} {usage : ResourceList} (h : x.service o = .ok usage) :
    usage.Nonneg := by
  have hone : 0 ≤ Quantity.one.nanos := by decide
  have hports (n : Nat) : 0 ≤ (Quantity.ofUnits n).nanos :=
    Quantity.ofNanos_nonneg (Int.mul_nonneg (Int.natCast_nonneg n) (by decide))
  obtain ⟨balancers, ports, hbalancers, hcounts, rfl⟩ := exists_of_service h
  refine ResourceList.nonneg_ofPairs fun e he => ?_
  rw [List.mem_append, List.mem_append] at he
  rcases he with (he | he) | he
  · rcases List.mem_cons.1 he with rfl | he
    · exact hone
    · rw [List.mem_singleton.1 he]
      exact hone
  · rw [hbalancers e he]
    exact hone
  · obtain ⟨n, rfl⟩ := hcounts e he
    exact hports n

theorem nonneg_claim {o : Claim} {usage : ResourceList} (ho : o.Nonneg)
    (h : x.claim o = .ok usage) : usage.Nonneg := by
  have hone : 0 ≤ Quantity.one.nanos := by decide
  obtain ⟨spec, written, storage, className, hspec, hget, hread, rfl⟩ := exists_of_claim h
  have hstorage : 0 ≤ storage.nanos := (ho spec hspec).readAmount hget hread
  refine ResourceList.nonneg_ofPairs fun e he => ?_
  rcases List.mem_append.1 he with he | he
  · simp only [List.mem_cons, List.not_mem_nil, or_false] at he
    rcases he with rfl | rfl | rfl <;> assumption
  · split at he
    · cases he
    · simp only [List.mem_cons, List.not_mem_nil, or_false] at he
      rcases he with rfl | rfl <;> assumption

theorem nonneg_objectCount (x : Extractor) (kind : ObjectCountKind) :
    (x.objectCount kind).Nonneg := by
  refine ResourceList.nonneg_ofPairs fun e he => ?_
  rw [List.mem_singleton.1 he]
  exact (by decide : 0 ≤ Quantity.one.nanos)

end Extractor

end SharedQuota
