import SharedQuota.Decision
import SharedQuota.Proofs.Resource.Amount

/-!
When usage passes a quota, and which of the resources that do is answered (`check?_eq_some_iff`).
Main statement (`check?_isExact`): at every boundary as the true sums say, but for limits at the
bound of amounts.
-/

namespace SharedQuota

open Std (TransOrd)

/-- What is first in a list that ascends by a key is least by it. -/
theorem findSome?_eq_some_iff_least {α β κ : Type} [Ord κ] [TransOrd κ] {key : α → κ}
    {f : α → Option β} {l : List α} (h : l.Pairwise fun a b => compare (key a) (key b) = .lt)
    {e : β} : l.findSome? f = some e ↔
      ∃ a ∈ l, f a = some e ∧
        ∀ b ∈ l, (f b).isSome = true → a = b ∨ compare (key a) (key b) = .lt := by
  constructor
  · intro he
    obtain ⟨before, a, after, rfl, ha, hnone⟩ := List.findSome?_eq_some_iff.1 he
    refine ⟨a, by simp, ha, fun b hb hsome => ?_⟩
    obtain ⟨-, hafter, -⟩ := List.pairwise_append.1 h
    rcases List.mem_append.1 hb with hb | hb
    · rw [hnone b hb] at hsome
      cases hsome
    · exact (List.mem_cons.1 hb).imp Eq.symm fun hb => (List.pairwise_cons.1 hafter).1 b hb
  · rintro ⟨a, ha, he, hleast⟩
    obtain ⟨before, after, rfl⟩ := List.append_of_mem ha
    obtain ⟨-, -, hbefore⟩ := List.pairwise_append.1 h
    refine List.findSome?_eq_some_iff.2 ⟨before, a, after, rfl, he, fun b hb => ?_⟩
    have hlt := hbefore b hb a (List.mem_cons_self ..)
    by_contra hne
    rcases hleast b (List.mem_append_left _ hb) (Option.isSome_iff_ne_none.2 hne) with rfl | hgt
    · simp at hlt
    · have hself := Std.TransCmp.lt_trans hlt hgt
      simp at hself

namespace Exceeded

theorem check?_eq_none_iff (quota : String) (hard used requested : ResourceList) :
    check? quota hard used requested = none ↔
      ∀ r delta, requested.get? r = some delta → 0 < delta.nanos →
        ∀ limit, hard.get? r = some limit → used.amount r + delta ≤ limit := by
  simp only [check?, List.findSome?_eq_none_iff, Prod.forall, Table.mem_entries_iff]
  refine forall_congr' fun r => forall_congr' fun delta => imp_congr_right fun _ => ?_
  by_cases hgrows : delta ≤ 0
  · have hnot : ¬ 0 < delta.nanos := Int.not_lt.2 hgrows
    simp [hgrows, hnot]
  · have hpos : 0 < delta.nanos := Int.not_le.1 hgrows
    simp only [if_neg hgrows, hpos, true_imp_iff]
    cases hard.get? r with
    | none => simp
    | some limit =>
      by_cases hlimit : limit < used.amount r + delta
      · have hnot : ¬ used.amount r + delta ≤ limit := Int.not_le.2 hlimit
        simp [hlimit, hnot]
      · have hle : used.amount r + delta ≤ limit := Int.not_lt.1 hlimit
        simp [hlimit, hle]

/-- A resource that is requested passes its limit, together with what is used of it. -/
structure Passes (e : Exceeded) (quota : String) (hard : ResourceList)
    (used : ResourceName → Quantity) (requested : ResourceList) : Prop where
  quota_eq : e.quota = quota
  limited : hard.get? e.resource = some e.limit
  asked : requested.get? e.resource = some e.requested
  grows : 0 < e.requested
  used_eq : e.used = used e.resource
  passes : e.limit < e.used + e.requested

theorem Passes.eq_of_resource {e e' : Exceeded} {quota : String} {hard requested : ResourceList}
    {used : ResourceName → Quantity} (h : e.Passes quota hard used requested)
    (h' : e'.Passes quota hard used requested) (hr : e.resource = e'.resource) : e = e' := by
  obtain ⟨quota₁, r, used₁, requested₁, limit₁⟩ := e
  obtain ⟨quota₂, r', used₂, requested₂, limit₂⟩ := e'
  obtain rfl : r = r' := hr
  obtain rfl : quota₁ = quota₂ := h.quota_eq.trans h'.quota_eq.symm
  obtain rfl : limit₁ = limit₂ := Option.some.inj (h.limited.symm.trans h'.limited)
  obtain rfl : requested₁ = requested₂ := Option.some.inj (h.asked.symm.trans h'.asked)
  obtain rfl : used₁ = used₂ := h.used_eq.trans h'.used_eq.symm
  rfl

/-- A comparison answers the first of the resources that pass their limits, by name. -/
theorem check?_eq_some_iff {quota : String} {hard used requested : ResourceList} {e : Exceeded} :
    check? quota hard used requested = some e ↔
      e.Passes quota hard used.amount requested ∧
        ∀ e' : Exceeded, e'.Passes quota hard used.amount requested →
          e.resource = e'.resource ∨ compare e.resource e'.resource = .lt := by
  have hentry (r : ResourceName) (d : Quantity) (hmem : (r, d) ∈ requested.entries)
      (e : Exceeded) :
      (if d ≤ 0 then none
        else (hard.get? r).bind fun limit =>
          if limit < used.amount r + d then some ⟨quota, r, used.amount r, d, limit⟩ else none) =
        some e ↔ e.resource = r ∧ e.Passes quota hard used.amount requested := by
    have hget := (Table.mem_entries_iff requested).1 hmem
    by_cases hgrows : d ≤ 0
    · rw [if_pos hgrows]
      refine ⟨(nomatch ·), ?_⟩
      rintro ⟨rfl, hpasses⟩
      rw [hpasses.asked] at hget
      cases hget
      exact absurd hpasses.grows (Int.not_lt.2 hgrows)
    · have hpos : 0 < d := Int.not_le.1 hgrows
      rw [if_neg hgrows, Option.bind_eq_some_iff]
      constructor
      · rintro ⟨limit, hlimit, h⟩
        split at h
        case isFalse => cases h
        case isTrue hlt =>
          cases h
          exact ⟨rfl, rfl, hlimit, hget, hpos, rfl, hlt⟩
      · rintro ⟨rfl, hpasses⟩
        refine ⟨e.limit, hpasses.limited, ?_⟩
        obtain rfl : d = e.requested := Option.some.inj (hget.symm.trans hpasses.asked)
        rw [← hpasses.used_eq, if_pos hpasses.passes, ← hpasses.quota_eq]
  rw [check?, findSome?_eq_some_iff_least requested.ascending]
  constructor
  · rintro ⟨⟨r, d⟩, hmem, he, hleast⟩
    obtain ⟨rfl, hpasses⟩ := (hentry r d hmem e).1 he
    refine ⟨hpasses, fun e' he' => ?_⟩
    have hmem' := (Table.mem_entries_iff requested).2 he'.asked
    have hsome := (hentry _ _ hmem' e').2 ⟨rfl, he'⟩
    refine (hleast _ hmem' (Option.isSome_iff_exists.2 ⟨e', hsome⟩)).imp_left fun h => ?_
    exact (Prod.mk.inj h).1
  · rintro ⟨hpasses, hleast⟩
    have hmem := (Table.mem_entries_iff requested).2 hpasses.asked
    refine ⟨_, hmem, (hentry _ _ hmem e).2 ⟨rfl, hpasses⟩, fun ⟨r, d⟩ hmem' hsome => ?_⟩
    obtain ⟨e', he'⟩ := Option.isSome_iff_exists.1 hsome
    obtain ⟨rfl, hpasses'⟩ := (hentry r d hmem' e').1 he'
    refine (hleast e' hpasses').imp_left fun hr => ?_
    obtain rfl := hpasses.eq_of_resource hpasses' hr
    have hd : d = e.requested := Option.some.inj
      (((Table.mem_entries_iff requested).1 hmem').symm.trans hpasses.asked)
    rw [hd]

theorem isSome_check?_iff {quota : String} {hard used requested : ResourceList} :
    (check? quota hard used requested).isSome = true ↔
      ∃ e : Exceeded, e.Passes quota hard used.amount requested := by
  constructor
  · intro h
    obtain ⟨e, he⟩ := Option.isSome_iff_exists.1 h
    exact ⟨e, (check?_eq_some_iff.1 he).1⟩
  · rintro ⟨e, he⟩
    rw [Option.isSome_iff_ne_none]
    intro hnone
    have hle := (check?_eq_none_iff ..).1 hnone _ _ he.asked he.grows _ he.limited
    exact absurd (he.used_eq ▸ he.passes) (Int.not_lt.2 hle)

theorem check?_congr {quota : String} {hard used used' : ResourceList} (requested : ResourceList)
    (h : ∀ r, hard.contains r = true → used.amount r = used'.amount r) :
    check? quota hard used requested = check? quota hard used' requested := by
  refine congrArg (List.findSome? · requested.entries) (funext fun ⟨r, delta⟩ => ?_)
  cases hhard : hard.get? r with
  | none => simp [hhard]
  | some limit => simp only [h r ((Table.contains_iff _).2 ⟨limit, hhard⟩)]

/-- What a request adds to a resource is compared with the limit of the resource. -/
structure IsCompared (hard requested : ResourceList) (r : ResourceName) (delta limit : Quantity) :
    Prop where
  asked : requested.get? r = some delta
  limited : hard.get? r = some limit
  grows : 0 < delta

/-- A request is within the limits exactly if each sum that is compared is at most its limit. Below
the bound at which sums are held, that is so of the true sum. Otherwise the first resource is
answered, by name, whose limit is passed, with what is used, requested and allowed of it. -/
theorem check?_isExact (quota : String) (hard used requested : ResourceList) :
    (check? quota hard used requested = none ↔ ∀ r delta limit,
      IsCompared hard requested r delta limit → used.amount r + delta ≤ limit) ∧
    (∀ r delta limit, IsCompared hard requested r delta limit → limit.nanos < 2 ^ 127 - 1 →
      (used.amount r + delta ≤ limit ↔
        (used.amount r).nanos + delta.nanos ≤ limit.nanos)) ∧
    ∀ e, check? quota hard used requested = some e ↔
      e.Passes quota hard used.amount requested ∧
        ∀ e' : Exceeded, e'.Passes quota hard used.amount requested →
          e.resource = e'.resource ∨ compare e.resource e'.resource = .lt := by
  refine ⟨?_, fun r delta limit h hlimit => ?_, fun e => check?_eq_some_iff⟩
  · rw [check?_eq_none_iff]
    constructor
    · exact fun h r delta limit hc => h r delta hc.asked hc.grows limit hc.limited
    · exact fun h r delta hasked hgrows limit hlimited => h r delta limit ⟨hasked, hlimited, hgrows⟩
  · exact Quantity.add_le_iff (Int.le_of_lt h.grows) hlimit

end Exceeded

end SharedQuota
