import SharedQuota.Proofs.Engine.Applicable
import SharedQuota.Proofs.Engine.Path
import SharedQuota.Proofs.Except

/-!
Quotas whose shape is in order. The limits of a quota are read twice, in one way when the quota is
admitted and in another whenever usage is checked against it; of names that stand for one resource
the first refuses the second while the other takes the lower limit. Main statement
(`Quota.isEnforced`): what is admitted is enforced with the limits that were found at admission, and
exactly the quotas in order are admitted.
-/

namespace SharedQuota

/-! ### Limits as written -/

/-- A limit as written, and what it is read as. -/
def ReadsAs (e : String × String) (p : ResourceName × Quantity) : Prop :=
  p.1 = .ofText e.1 ∧ Quantity.parse e.2 = .ok p.2

theorem readAmount_eq_ok_iff {resource amount : String} {q : Quantity} :
    readAmount resource amount = .ok q ↔ Quantity.parse amount = .ok q := by
  rw [readAmount]
  cases Quantity.parse amount <;> simp [Except.mapError]

theorem map_fst_of_readsAs {es : List (String × String)} {ps : List (ResourceName × Quantity)}
    (h : List.Forall₂ ReadsAs es ps) : ps.map (·.1) = es.map fun e => .ofText e.1 := by
  rw [← List.forall₂_eq_eq_eq, List.forall₂_map_left_iff, List.forall₂_map_right_iff]
  exact h.flip.imp fun _ _ hread => hread.1

namespace WrittenAmounts

variable {w : WrittenAmounts} {ps : List (ResourceName × Quantity)}

theorem pairs_eq_ok_iff : w.pairs = .ok ps ↔ List.Forall₂ ReadsAs w.entries ps := by
  have hread (e : String × String) (p : ResourceName × Quantity) :
      (readAmount e.1 e.2).map (.ofText e.1, ·) = .ok p ↔ ReadsAs e p := by
    constructor
    · intro h
      obtain ⟨q, hq, rfl⟩ := ok_of_map h
      exact ⟨rfl, readAmount_eq_ok_iff.1 hq⟩
    · obtain ⟨r, q⟩ := p
      rintro ⟨rfl, hq⟩
      rw [readAmount_eq_ok_iff.2 hq]
      rfl
  rw [pairs, mapM_eq_ok_iff]
  simp only [hread]

/-- Where every resource has one limit that is the lowest. -/
theorem foldl_lowest {l : ResourceList} (hnodup : (ps.map (·.1)).Nodup)
    (hnew : ∀ p ∈ ps, l.get? p.1 = none) :
    ps.foldl (fun l (r, q) =>
      match l.get? r with
      | some old => if q < old then l.insert r q else l
      | none => l.insert r q) l = ps.foldl (fun l p => l.insert p.1 p.2) l := by
  induction ps generalizing l with
  | nil => rfl
  | cons p ps ih =>
    obtain ⟨hhead, hrest⟩ := List.nodup_cons.1 hnodup
    obtain ⟨hp, hps⟩ := List.forall_mem_cons.1 hnew
    obtain ⟨r, q⟩ := p
    dsimp only at hhead hp
    rw [List.foldl_cons, List.foldl_cons]
    dsimp only
    rw [hp]
    refine ih hrest fun p hmem => ?_
    have hne : p.1 ≠ r := fun hsame => hhead (List.mem_map.2 ⟨p, hmem, hsame⟩)
    rw [Table.get?_insert, if_neg hne, hps p hmem]

theorem lowest_eq_ok (h : w.pairs = .ok ps) (hnodup : (ps.map (·.1)).Nodup) :
    w.lowest = .ok (Table.ofList ps) := by
  rw [lowest, h, Table.ofList, ← foldl_lowest hnodup fun _ _ => Table.get?_empty _]
  rfl

end WrittenAmounts

/-! ### What is in order -/

/-- Operators that compare with values have some, and the others have none. -/
def Expression.IsFitting (e : Expression) : Prop :=
  match e.operator with
  | .oneOf | .noneOf => ∃ value, e.values.contains value = true
  | .present | .absent => ∀ value, e.values.contains value = false

/-- What a selector is made of fits, and has names and values that labels may have. -/
structure Selector.IsInOrder (s : Selector) : Prop where
  fitting : ∀ e ∈ s.expressions, e.IsFitting
  keys : ∀ key ∈ s.keys, Name.isQualified key = true
  values : ∀ value ∈ s.values, Name.isLabelValue value = true

/-- Each limit has a name that is one, for a resource that no other limit is for, and an amount that
is not negative. -/
structure QuotaSpec.IsInOrder (spec : QuotaSpec) : Prop where
  names : ∀ key ∈ spec.hard.keys, Name.isQualified key = true
  distinct : ∀ key ∈ spec.hard.keys, ∀ other ∈ spec.hard.keys,
    ResourceName.ofText key = ResourceName.ofText other → key = other
  amounts : ∀ key value, spec.hard.get? key = some value →
    ∃ limit, Quantity.parse value = .ok limit ∧ 0 ≤ limit.nanos
  selector : ∀ s, spec.selector = some s → s.IsInOrder

theorem Selector.fault?_eq_none_iff {e : Expression} : fault? e = none ↔ e.IsFitting := by
  have hempty : e.values.isEmpty = true ↔ ∀ value, e.values.contains value = false := by
    constructor
    · intro h value
      rw [Table.contains, Table.get?_of_isEmpty h]
      rfl
    · intro h
      by_contra hsome
      obtain ⟨value, hvalue⟩ := KeySet.exists_contains hsome
      rw [h value] at hvalue
      cases hvalue
  have hsome : e.values.isEmpty = false ↔ ∃ value, e.values.contains value = true := by
    rw [← Bool.not_eq_true, hempty]
    simp
  simp only [fault?, Expression.IsFitting]
  cases e.operator <;> simp [Operator.takesValues, ← hempty, ← hsome]

namespace QuotaSpec

theorem validateSelector_eq_ok_iff {s : Selector} : validateSelector s = .ok () ↔ s.IsInOrder := by
  have hiff : s.IsInOrder ↔ s.firstFault? = none ∧ s.keys.find? (!Name.isQualified ·) = none ∧
      s.values.find? (!Name.isLabelValue ·) = none := by
    simp only [Selector.firstFault?, List.findSome?_eq_none_iff, Selector.fault?_eq_none_iff,
      List.find?_eq_none, Bool.not_eq_true', Bool.not_eq_false]
    exact ⟨fun h => ⟨h.fitting, h.keys, h.values⟩, fun h => ⟨h.1, h.2.1, h.2.2⟩⟩
  rw [hiff, validateSelector]
  cases s.firstFault? with
  | some fault => exact ⟨nofun, nofun⟩
  | none =>
    cases s.keys.find? (!Name.isQualified ·) with
    | some key => exact ⟨nofun, nofun⟩
    | none =>
      cases s.values.find? (!Name.isLabelValue ·) with
      | some value => exact ⟨nofun, nofun⟩
      | none => exact iff_of_true rfl ⟨rfl, rfl, rfl⟩

variable {seen : Table ResourceName String} {limits out : ResourceList} {key value : String}
  {es : List (String × String)}

/-- One limit is entered if nothing is wrong with it. -/
theorem enterLimits_cons_eq_ok_iff :
    enterLimits seen limits ((key, value) :: es) = .ok out ↔
      Name.isQualified key = true ∧ seen.get? (.ofText key) = none ∧
        ∃ limit, Quantity.parse value = .ok limit ∧ 0 ≤ limit.nanos ∧
          enterLimits (seen.insert (.ofText key) key) (limits.insert (.ofText key) limit) es =
            .ok out := by
  rw [enterLimits]
  cases Name.isQualified key with
  | false => exact ⟨nofun, nofun⟩
  | true =>
    dsimp only
    cases seen.get? (.ofText key) with
    | some first => exact ⟨nofun, nofun⟩
    | none =>
      simp only [← @readAmount_eq_ok_iff key]
      cases readAmount key value with
      | error e => exact ⟨nofun, fun ⟨_, _, _, h, _⟩ => nomatch h⟩
      | ok limit =>
        by_cases hneg : limit.nanos < 0
        · have hnot : ¬ 0 ≤ limit.nanos := Int.not_le.2 hneg
          simp [Except.mapError, bind, Except.bind, Quantity.isNegative, hneg, hnot, throw,
            throwThe, MonadExceptOf.throw]
        · have hnonneg : 0 ≤ limit.nanos := Int.not_lt.1 hneg
          simp [Except.mapError, bind, Except.bind, Quantity.isNegative, hneg, hnonneg]

/-- The limits are entered as they are read, if no two are for one resource. -/
theorem enterLimits_eq_ok_iff : enterLimits seen limits es = .ok out ↔
    (∀ e ∈ es, Name.isQualified e.1 = true) ∧ ∃ ps, List.Forall₂ ReadsAs es ps ∧
      (∀ p ∈ ps, 0 ≤ p.2.nanos) ∧ (ps.map (·.1)).Nodup ∧ (∀ p ∈ ps, seen.get? p.1 = none) ∧
        out = ps.foldl (fun l p => l.insert p.1 p.2) limits := by
  induction es generalizing seen limits with
  | nil =>
    constructor
    · intro h
      cases h
      exact ⟨by simp, [], .nil, by simp, .nil, by simp, rfl⟩
    · rintro ⟨-, ps, hread, -, -, -, rfl⟩
      cases hread
      rfl
  | cons e es ih =>
    obtain ⟨key, value⟩ := e
    rw [enterLimits_cons_eq_ok_iff]
    simp only [ih, List.forall_mem_cons]
    constructor
    · rintro ⟨hkey, hnew, limit, hlimit, hnonneg, hkeys, ps, hread, hps, hnodup, hseen, rfl⟩
      refine ⟨⟨hkey, hkeys⟩, (.ofText key, limit) :: ps, .cons ⟨rfl, hlimit⟩ hread,
        List.forall_mem_cons.2 ⟨hnonneg, hps⟩, List.nodup_cons.2 ⟨fun hmem => ?_, hnodup⟩,
        List.forall_mem_cons.2 ⟨hnew, fun p hp => ?_⟩, rfl⟩
      · obtain ⟨p, hp, hsame⟩ := List.mem_map.1 hmem
        simpa [hsame] using hseen p hp
      · have hp := hseen p hp
        rw [Table.get?_insert] at hp
        split at hp
        case isTrue => cases hp
        case isFalse => exact hp
    · rintro ⟨⟨hkey, hkeys⟩, _, _ | ⟨⟨hname, hlimit⟩, hread⟩, hps, hnodup, hseen, rfl⟩
      rename_i p ps
      obtain ⟨r, limit⟩ := p
      obtain rfl : r = .ofText key := hname
      obtain ⟨hnonneg, hps⟩ := List.forall_mem_cons.1 hps
      obtain ⟨hnew, hseen⟩ := List.forall_mem_cons.1 hseen
      obtain ⟨hhead, hnodup⟩ := List.nodup_cons.1 hnodup
      refine ⟨hkey, hnew, limit, hlimit, hnonneg, hkeys, ps, hread, hps, hnodup, fun p hp => ?_,
        rfl⟩
      have hne : p.1 ≠ .ofText key := fun hsame => hhead (List.mem_map.2 ⟨p, hp, hsame⟩)
      rw [Table.get?_insert, if_neg hne, hseen p hp]

variable {spec : QuotaSpec}

theorem validate_eq_ok_iff : spec.validate = .ok limits ↔
    (∀ key ∈ spec.hard.keys, Name.isQualified key = true) ∧
      (∀ s, spec.selector = some s → s.IsInOrder) ∧
        ∃ ps, spec.hard.pairs = .ok ps ∧ (∀ p ∈ ps, 0 ≤ p.2.nanos) ∧ (ps.map (·.1)).Nodup ∧
          limits = Table.ofList ps := by
  have hselector : spec.validate = .ok limits ↔
      enterLimits Table.empty Table.empty spec.hard.entries = .ok limits ∧
        ∀ s, spec.selector = some s → s.IsInOrder := by
    simp only [← validateSelector_eq_ok_iff]
    rw [validate]
    cases enterLimits Table.empty Table.empty spec.hard.entries with
    | error fault => exact ⟨nofun, fun h => nomatch h.1⟩
    | ok entered =>
      cases spec.selector with
      | none => simp [bind, Except.bind, pure, Except.pure]
      | some s =>
        cases hs : validateSelector s with
        | error fault => simp [bind, Except.bind, hs]
        | ok => simp [bind, Except.bind, pure, Except.pure, hs]
  rw [hselector, enterLimits_eq_ok_iff]
  simp only [WrittenAmounts.pairs_eq_ok_iff, Table.get?_empty, implies_true, true_and, Table.keys,
    List.forall_mem_map, Table.ofList]
  constructor
  · rintro ⟨⟨hkeys, h⟩, hs⟩
    exact ⟨hkeys, hs, h⟩
  · rintro ⟨hkeys, hs, h⟩
    exact ⟨⟨hkeys, h⟩, hs⟩

/-- The quotas that are valid are those in order. -/
theorem exists_validate_iff : (∃ limits, spec.validate = .ok limits) ↔ spec.IsInOrder := by
  simp only [validate_eq_ok_iff, WrittenAmounts.pairs_eq_ok_iff]
  constructor
  · rintro ⟨limits, hnames, hselector, ps, hread, hnonneg, hnodup, -⟩
    rw [map_fst_of_readsAs hread] at hnodup
    refine ⟨hnames, ?_, fun key value hvalue => ?_, hselector⟩
    · intro key hkey other hother hsame
      obtain ⟨e, he, rfl⟩ := List.mem_map.1 hkey
      obtain ⟨e', he', rfl⟩ := List.mem_map.1 hother
      rw [List.inj_on_of_nodup_map hnodup he he' hsame]
    · obtain ⟨p, hp, -, hlimit⟩ :=
        exists_right_of_forall₂ hread _ ((Table.mem_entries_iff _).2 hvalue)
      exact ⟨p.2, hlimit, hnonneg p hp⟩
  · rintro ⟨hnames, hdistinct, hamounts, hselector⟩
    have heach : ∀ e ∈ spec.hard.entries, ∃ p, ReadsAs e p ∧ 0 ≤ p.2.nanos := by
      rintro ⟨key, value⟩ he
      obtain ⟨limit, hlimit, hnonneg⟩ := hamounts key value ((Table.mem_entries_iff _).1 he)
      exact ⟨(.ofText key, limit), ⟨rfl, hlimit⟩, hnonneg⟩
    obtain ⟨ps, hps⟩ := exists_forall₂ heach
    have hread : List.Forall₂ ReadsAs spec.hard.entries ps := hps.imp fun _ _ h => h.1
    refine ⟨_, hnames, hselector, ps, hread, fun p hp => ?_, ?_, rfl⟩
    · obtain ⟨e, -, -, hnonneg⟩ := exists_left_of_forall₂ hps p hp
      exact hnonneg
    · have hkeys : spec.hard.keys.map ResourceName.ofText = ps.map (·.1) := by
        rw [map_fst_of_readsAs hread, Table.keys, List.map_map]
        rfl
      rw [← hkeys]
      exact spec.hard.keys_nodup.map_on hdistinct

/-- The limits of a valid quota are one for each name under which it has a limit. -/
theorem keys_perm_of_validate (h : spec.validate = .ok limits) :
    limits.keys.Perm (spec.hard.keys.map .ofText) := by
  obtain ⟨-, -, ps, hread, -, hnodup, rfl⟩ := validate_eq_ok_iff.1 h
  rw [WrittenAmounts.pairs_eq_ok_iff] at hread
  rw [map_fst_of_readsAs hread] at hnodup
  rw [Table.keys, Table.keys, List.map_map]
  refine (List.perm_ext_iff_of_nodup (Table.ofList ps).keys_nodup hnodup).2 fun r => ?_
  rw [Table.mem_keys_iff, Table.contains_ofList, map_fst_of_readsAs hread]

theorem get?_of_validate (h : spec.validate = .ok limits) {key value : String}
    (hvalue : spec.hard.get? key = some value) :
    ∃ limit, Quantity.parse value = .ok limit ∧ limits.get? (.ofText key) = some limit := by
  obtain ⟨-, -, ps, hread, -, hnodup, rfl⟩ := validate_eq_ok_iff.1 h
  obtain ⟨⟨r, limit⟩, hp, rfl, hlimit⟩ := exists_right_of_forall₂
    (WrittenAmounts.pairs_eq_ok_iff.1 hread) _ ((Table.mem_entries_iff _).2 hvalue)
  exact ⟨limit, hlimit, Table.get?_ofList_of_mem hnodup hp⟩

theorem nonneg_of_validate (h : spec.validate = .ok limits) : limits.Nonneg := by
  obtain ⟨-, -, ps, -, hnonneg, -, rfl⟩ := validate_eq_ok_iff.1 h
  intro q hq
  obtain ⟨r, hr⟩ := (Table.mem_values_iff _).1 hq
  exact hnonneg (r, q) (Table.mem_of_get?_ofList hr)

end QuotaSpec

namespace Quota

variable {q : Quota} {limits : ResourceList}

theorem hardLimits_of_validate (h : q.spec.validate = .ok limits) : q.hardLimits = .ok limits := by
  obtain ⟨-, -, ps, hread, -, hnodup, rfl⟩ := QuotaSpec.validate_eq_ok_iff.1 h
  exact WrittenAmounts.lowest_eq_ok hread hnodup

/-- A quota that is refused for its shape is not admitted. -/
theorem validate_of_path {rules : Rules} {dryRun : Bool} {old : Option Quota}
    {moments : List Moment}
    (h : Path rules dryRun (Work.quota q old).start moments (.finished (.ok ()))) :
    ∃ limits, q.spec.validate = .ok limits := by
  cases hvalid : q.spec.validate with
  | ok limits => exact ⟨limits, rfl⟩
  | error fault =>
    have hfailed : (Work.quota q old).start.HasFailed := by
      rw [Work.start, hvalid]
      trivial
    exact absurd hfailed h.not_hasFailed

/-- A quota that is valid is compared with its limits as they were found valid, one for each name
and none negative, whatever is added that it limits. Of the quotas that are admitted all are valid,
and the valid ones are those in order. -/
theorem isEnforced (q : Quota) :
    (∀ limits, q.spec.validate = .ok limits →
      q.hardLimits = .ok limits ∧
      limits.keys.Perm (q.spec.hard.keys.map .ofText) ∧
      (∀ key value, q.spec.hard.get? key = some value →
        ∃ limit, Quantity.parse value = .ok limit ∧ limits.get? (.ofText key) = some limit) ∧
      limits.Nonneg ∧
      ∀ delta quotas, q ∈ quotas →
        (∃ r, delta.contains r = true ∧ limits.contains r = true) →
        ∃ a ∈ Applicable.sorted delta quotas, a.quota = q ∧ a.hard = limits) ∧
    (∀ rules dryRun old moments,
      Path rules dryRun (Work.quota q old).start moments (.finished (.ok ())) →
        ∃ limits, q.spec.validate = .ok limits) ∧
    ((∃ limits, q.spec.validate = .ok limits) ↔ q.spec.IsInOrder) := by
  refine ⟨fun limits hvalid => ⟨hardLimits_of_validate hvalid,
    QuotaSpec.keys_perm_of_validate hvalid, fun _ _ => QuotaSpec.get?_of_validate hvalid,
    QuotaSpec.nonneg_of_validate hvalid, ?_⟩, fun _ _ _ _ => validate_of_path,
    QuotaSpec.exists_validate_iff⟩
  rintro delta quotas hq ⟨r, hdelta, hlimited⟩
  have hhard := hardLimits_of_validate hvalid
  obtain ⟨a, ha⟩ := Applicable.exists_of? hhard hlimited hdelta
  obtain ⟨hquota, hlimits, -⟩ := Applicable.of_of? ha
  refine ⟨a, Applicable.mem_sorted_iff.2 ⟨q, hq, ha⟩, hquota, ?_⟩
  exact Except.ok.inj (hlimits.symm.trans hhard)

/-! Of two names for one resource the lower limit would apply, and the quota is refused. -/

private def twoNames : QuotaSpec := ⟨none, Table.ofList [("cpu", "2"), ("requests.cpu", "1")]⟩

example : twoNames.hard.lowest = .ok (.ofPairs [(.ofText "cpu", .one)]) ∧
    twoNames.validate = .error (.duplicate (.ofText "cpu") "cpu" "requests.cpu") := by
  decide +kernel

end Quota

end SharedQuota
