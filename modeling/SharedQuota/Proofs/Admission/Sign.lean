import SharedQuota.Admission
import SharedQuota.Proofs.Resource.Increase
import SharedQuota.Proofs.Workload.Sign

/-!
Of which requests the usage may have negative amounts. Main statement (`nonneg_or_creates`): only
of those that create a pod or a claim. What a service or a counted object adds is a number of
things, and an update adds only what grew.
-/

namespace SharedQuota

namespace Admission

variable {s : Settings} {r : ReviewRequest} {kind : Kind} {name : String} {delta : ResourceList}

/-- What a workload adds is what its object uses, or of an update what that has grown by. -/
theorem of_workload {α : Type} {decode : Json → Option α}
    {extract : α → Except UsageFault ResourceList} {work : Work}
    (h : workload r kind decode extract = .ok work) :
    ∃ name delta, work = .usage name delta ∧
      ((∃ a, extract a = .ok delta) ∧ r.operation ≠ .update ∨ delta.Nonneg) := by
  rw [workload] at h
  obtain ⟨new, hnew, h⟩ := ok_of_bind h
  obtain ⟨a, -, hextract⟩ := ok_of_bind hnew
  dsimp only at h
  split at h
  case h_1 =>
    obtain ⟨delta, hgrown, h⟩ := ok_of_bind h
    obtain ⟨name, -, h⟩ := ok_of_bind h
    obtain ⟨old, -, rfl⟩ := ok_of_map hgrown
    exact ⟨name, _, (Except.ok.inj h).symm, .inr (ResourceList.nonneg_increaseFrom new old)⟩
  case h_2 hoperation =>
    obtain ⟨delta, hsame, h⟩ := ok_of_bind h
    obtain ⟨name, -, h⟩ := ok_of_bind h
    cases hsame
    exact ⟨name, new, (Except.ok.inj h).symm, .inl ⟨⟨a, ok_of_mapError hextract⟩, hoperation⟩⟩

/-! ### The works of workloads -/

/-- Whether the usage of a kind is what its objects add. -/
def isWorkload : Kind → Bool
  | .namespaceKind | .quota => false
  | _ => true

/-- The work that the review of a workload leads to. -/
def workOf? (s : Settings) (r : ReviewRequest) : Option Work :=
  match Kind.ofRequest s.objectCounts r with
  | .ok kind => if isWorkload kind then (work? s kind r).toOption.join else none
  | .error _ => none

theorem ok_of_workOf? {work : Work} (h : workOf? s r = some work) :
    ∃ kind, Kind.ofRequest s.objectCounts r = .ok kind ∧ isWorkload kind = true ∧
      work? s kind r = .ok (some work) := by
  simp only [workOf?] at h
  split at h
  case h_2 => cases h
  case h_1 kind hkind =>
    split at h
    case isFalse => cases h
    case isTrue hworkload =>
      refine ⟨kind, hkind, hworkload, ?_⟩
      cases hwork : work? s kind r with
      | error denial => rw [hwork] at h; cases h
      | ok work =>
        rw [hwork] at h
        obtain rfl : work = some _ := h
        rfl

/-- The usage of a workload is not negative, unless a pod or a claim is created. -/
theorem nonneg_or_creates {work : Work} (h : workOf? s r = some work) :
    ∃ name delta, work = .usage name delta ∧ (delta.Nonneg ∨ r.operation = .create ∧
      (Kind.ofRequest s.objectCounts r = .ok .pod ∨
        Kind.ofRequest s.objectCounts r = .ok .claim)) := by
  obtain ⟨kind, hkind, hworkload, hwork⟩ := ok_of_workOf? h
  simp only [work?] at hwork
  split at hwork
  case isTrue => cases hwork
  case isFalse hwrites =>
    have hcreates (hoperation : r.operation ≠ .update) : r.operation = .create := by
      cases hop : r.operation <;> simp_all
    cases kind with
    | pod | claim =>
      obtain ⟨_, hwork, hsome⟩ := ok_of_bind hwork
      cases hsome
      obtain ⟨name, delta, hwork, ⟨-, hoperation⟩ | hnonneg⟩ := of_workload hwork
      · exact ⟨name, delta, hwork, .inr ⟨hcreates hoperation, by simp [hkind]⟩⟩
      · exact ⟨name, delta, hwork, .inl hnonneg⟩
    | service =>
      obtain ⟨_, hwork, hsome⟩ := ok_of_bind hwork
      cases hsome
      obtain ⟨name, delta, hwork, ⟨⟨o, ho⟩, -⟩ | hnonneg⟩ := of_workload hwork
      · exact ⟨name, delta, hwork, .inl (Extractor.nonneg_service ho)⟩
      · exact ⟨name, delta, hwork, .inl hnonneg⟩
    | objectCount k =>
      dsimp only at hwork
      split at hwork
      case isTrue => cases hwork
      case isFalse =>
        obtain ⟨name, -, hsome⟩ := ok_of_bind hwork
        cases hsome
        exact ⟨name, _, rfl, .inl (Extractor.nonneg_objectCount s.extractor k)⟩
    | namespaceKind | quota => cases hworkload

end Admission

end SharedQuota
