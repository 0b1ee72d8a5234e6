import SharedQuota.Engine
import SharedQuota.Proofs.Resource.Restriction
import Mathlib.Data.List.Nodup

/-!
The quotas that a request is checked against, and what the request takes of them. Of quotas with
names of their own, one takes what the request adds of a resource that it limits (`share_sorted`).
-/

namespace SharedQuota

namespace Applicable

variable {delta hard : ResourceList} {q : Quota} {quotas : List Quota} {a : Applicable}
  {r : ResourceName}

theorem of_of? (h : of? delta q = some a) : a.quota = q ∧ q.hardLimits = .ok a.hard ∧
    ∀ r, a.resources.contains r = true ↔ delta.contains r = true ∧ a.hard.contains r = true := by
  simp only [of?] at h
  split at h
  case h_1 => cases h
  case h_2 hard hhard =>
    split at h
    case isTrue => cases h
    case isFalse =>
      cases h
      refine ⟨rfl, hhard, fun r => ?_⟩
      rw [KeySet.contains_ofList, List.mem_filter, Table.mem_keys_iff]

theorem of?_eq_some_iff : of? delta q = some a ↔ a.quota = q ∧ q.hardLimits = .ok a.hard ∧
    a.resources = KeySet.ofList (delta.keys.filter a.hard.contains) ∧
      ∃ r, a.resources.contains r = true := by
  simp only [of?]
  constructor
  · intro h
    split at h
    case h_1 => cases h
    case h_2 hard hhard =>
      split at h
      case isTrue => cases h
      case isFalse hsome =>
        cases h
        exact ⟨rfl, hhard, rfl, KeySet.exists_contains hsome⟩
  · rintro ⟨rfl, hhard, hresources, r, hr⟩
    obtain ⟨quota, hard, resources⟩ := a
    obtain rfl : resources = KeySet.ofList (delta.keys.filter hard.contains) := hresources
    dsimp only at hhard hr ⊢
    rw [hhard]
    refine if_neg fun hempty => ?_
    rw [Table.contains, Table.get?_of_isEmpty hempty] at hr
    cases hr

theorem exists_of? (hhard : q.hardLimits = .ok hard) (hr : hard.contains r = true)
    (hd : delta.contains r = true) : ∃ a, of? delta q = some a := by
  have hmem : (KeySet.ofList (delta.keys.filter hard.contains)).contains r = true :=
    KeySet.contains_ofList.2 (List.mem_filter.2 ⟨(Table.mem_keys_iff delta).2 hd, hr⟩)
  have hne : ¬ (KeySet.ofList (delta.keys.filter hard.contains)).isEmpty = true := fun hempty => by
    simp [Table.contains, Table.get?_of_isEmpty hempty] at hmem
  refine ⟨⟨q, hard, KeySet.ofList (delta.keys.filter hard.contains)⟩, ?_⟩
  simp only [of?, hhard, if_neg hne]

theorem sorted_perm (delta : ResourceList) (quotas : List Quota) :
    (sorted delta quotas).Perm (quotas.filterMap (of? delta)) :=
  List.mergeSort_perm ..

theorem mem_sorted_iff : a ∈ sorted delta quotas ↔ ∃ q ∈ quotas, of? delta q = some a := by
  rw [(sorted_perm delta quotas).mem_iff, List.mem_filterMap]

theorem names_sorted_nodup (h : (quotas.map (·.name)).Nodup) :
    ((sorted delta quotas).map (·.name)).Nodup := by
  rw [((sorted_perm delta quotas).map _).nodup_iff]
  refine List.Nodup.sublist ?_ h
  clear h
  induction quotas with
  | nil => exact .slnil
  | cons q rest ih =>
    cases ha : of? delta q with
    | none =>
      rw [List.filterMap_cons_none ha]
      exact ih.cons _
    | some a =>
      have hname : a.name = q.name := congrArg Quota.name (of_of? ha).1
      rw [List.filterMap_cons_some ha, List.map_cons, List.map_cons, hname]
      exact ih.cons_cons _

theorem pairwise_sorted (h : (quotas.map (·.name)).Nodup) :
    (sorted delta quotas).Pairwise fun a b => compare a.name b.name = .lt := by
  have hle : (sorted delta quotas).Pairwise fun a b => (compare a.name b.name != .gt) = true := by
    refine List.pairwise_mergeSort (fun a b c hab hbc => ?_) (fun a b => ?_) _
    · simp only [bne_iff_ne, ← Ordering.isLE_iff_ne_gt] at hab hbc ⊢
      exact Std.TransCmp.isLE_trans hab hbc
    · have hswap : compare b.name a.name = (compare a.name b.name).swap := Std.OrientedCmp.eq_swap
      rw [hswap]
      cases compare a.name b.name <;> rfl
  have hne : (sorted delta quotas).Pairwise fun a b => a.name ≠ b.name :=
    List.pairwise_map.1 (names_sorted_nodup h)
  refine (hle.and hne).imp fun {a b} hboth => ?_
  cases hcompare : compare a.name b.name with
  | lt => rfl
  | eq => exact absurd (Std.compare_eq_iff_eq.1 hcompare) hboth.2
  | gt => simp [hcompare] at hboth

/-! ### Shares -/

/-- What a request takes of a quota through those of the applicable quotas that have its name. -/
def share (delta : ResourceList) (quota : String) (r : ResourceName) (as : List Applicable) : Int :=
  ((as.filter (·.name == quota)).map fun a =>
    ((delta.restrict a.resources.toList).amount r).nanos).sum

@[simp] theorem share_nil (quota : String) (r : ResourceName) : share delta quota r [] = 0 := rfl

theorem share_cons (a : Applicable) (as : List Applicable) (quota : String) (r : ResourceName) :
    share delta quota r (a :: as) =
      (if a.name = quota then ((delta.restrict a.resources.toList).amount r).nanos else 0) +
        share delta quota r as := by
  by_cases h : a.name = quota <;> simp [share, h]

theorem share_append (as more : List Applicable) (quota : String) (r : ResourceName) :
    share delta quota r (as ++ more) = share delta quota r as + share delta quota r more := by
  simp [share]

theorem share_perm {as more : List Applicable} (h : as.Perm more) (quota : String)
    (r : ResourceName) : share delta quota r as = share delta quota r more :=
  ((h.filter _).map _).sum_eq

theorem share_nonneg (h : delta.Nonneg) (quota : String) (r : ResourceName)
    (as : List Applicable) : 0 ≤ share delta quota r as := by
  refine List.sum_nonneg fun n hn => ?_
  obtain ⟨a, -, rfl⟩ := List.mem_map.1 hn
  exact (h.restrict a.resources).amount r

theorem share_of_isEmpty (h : delta.isEmpty = true) (quota : String) (r : ResourceName)
    (as : List Applicable) : share delta quota r as = 0 := by
  refine List.sum_eq_zero fun n hn => ?_
  obtain ⟨a, -, rfl⟩ := List.mem_map.1 hn
  rw [ResourceList.amount_restrict _ a.resources.toList_nodup]
  simp [ResourceList.amount, Table.get?_of_isEmpty h]

theorem share_of_names_ne {as : List Applicable} {quota : String} (h : ∀ a ∈ as, a.name ≠ quota)
    (r : ResourceName) : share delta quota r as = 0 := by
  have hnone : as.filter (·.name == quota) = [] := by
    rw [List.filter_eq_nil_iff]
    exact fun a ha => by simpa using h a ha
  rw [share, hnone]
  rfl

theorem share_toList_of? (hhard : q.hardLimits = .ok hard) (hr : hard.contains r = true) :
    share delta q.name r (of? delta q).toList = (delta.amount r).nanos := by
  cases ha : of? delta q with
  | none =>
    have hnot : ¬ delta.contains r = true := fun hd => by
      obtain ⟨a, h⟩ := exists_of? hhard hr hd
      rw [ha] at h
      cases h
    rw [ResourceList.amount_of_not_contains hnot]
    rfl
  | some a =>
    obtain ⟨hq, hhard', hres⟩ := of_of? ha
    have hsame : a.hard = hard := by
      rw [hhard'] at hhard
      exact Except.ok.inj hhard
    have hname : a.name = q.name := congrArg Quota.name hq
    rw [Option.toList_some, share_cons, if_pos hname, share_nil, Int.add_zero,
      ResourceList.amount_restrict _ a.resources.toList_nodup]
    split
    case isTrue => rfl
    case isFalse hnot =>
      have hd : ¬ delta.contains r = true := fun hd =>
        hnot ((KeySet.mem_toList_iff _).2 ((hres r).2 ⟨hd, hsame ▸ hr⟩))
      rw [ResourceList.amount_of_not_contains hd]

theorem share_sorted (p : Quota → Bool) (hnames : (quotas.map (·.name)).Nodup) (hq : q ∈ quotas)
    (hhard : q.hardLimits = .ok hard) (hr : hard.contains r = true) :
    share delta q.name r (sorted delta (quotas.filter p)) =
      if p q then (delta.amount r).nanos else 0 := by
  obtain ⟨before, after, rfl⟩ := List.append_of_mem hq
  rw [List.map_append, List.map_cons, List.nodup_middle, List.nodup_cons] at hnames
  -- no other quota has this name
  have hothers (part : List Quota) (hsub : ∀ q' ∈ part, q'.name ≠ q.name) :
      share delta q.name r ((part.filter p).filterMap (of? delta)) = 0 := by
    refine share_of_names_ne (fun a ha => ?_) r
    obtain ⟨q', hq', ha⟩ := List.mem_filterMap.1 ha
    have hname : a.name = q'.name := congrArg Quota.name (of_of? ha).1
    exact hname ▸ hsub q' (List.mem_filter.1 hq').1
  have hbefore := hothers before fun q' hm hname =>
    hnames.1 (List.mem_append_left _ (List.mem_map.2 ⟨q', hm, hname⟩))
  have hafter := hothers after fun q' hm hname =>
    hnames.1 (List.mem_append_right _ (List.mem_map.2 ⟨q', hm, hname⟩))
  have hone : share delta q.name r (of? delta q).toList = (delta.amount r).nanos :=
    share_toList_of? hhard hr
  rw [share_perm (sorted_perm ..), List.filter_append, List.filterMap_append, share_append, hbefore,
    Int.zero_add]
  by_cases hp : p q = true
  · rw [List.filter_cons_of_pos hp, if_pos hp]
    have hcons : (q :: after.filter p).filterMap (of? delta) =
        (of? delta q).toList ++ (after.filter p).filterMap (of? delta) := by
      cases h : of? delta q <;> simp [h]
    rw [hcons, share_append, hafter, hone, Int.add_zero]
  · rw [List.filter_cons_of_neg hp, if_neg hp, hafter]

end Applicable

end SharedQuota
