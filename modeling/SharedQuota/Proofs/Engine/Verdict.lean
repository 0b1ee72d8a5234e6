import SharedQuota.Proofs.Decision
import SharedQuota.Proofs.Engine.Alone
import SharedQuota.Proofs.Engine.Applicable

/-!
What becomes of a call that adds usage while no other runs. Main statement (`returns_iff`): it is
admitted exactly if every quota that governs the namespace has room for what it adds, and otherwise
it is denied for the first quota, by name, that it would exceed and the first such resource there.
-/

namespace SharedQuota

namespace Findings

variable (f : Findings) (rules : Rules) (l : Ledger) (name : String) (delta : ResourceList)

/-! ### The specification -/

/-- A quota whose limits can be read selects a namespace that is listed. -/
def Governs (q : Quota) (hard : ResourceList) : Prop :=
  ∃ ns, f.namespaces.find? (·.name == name) = some ns ∧ q ∈ f.quotas ∧
    rules.exclusions.selects q.spec.selector ns = true ∧ q.hardLimits = .ok hard

/-- What is read of the usage of a quota, with what is pending under it. -/
def used (q : Quota) (resources : KeySet ResourceName) (r : ResourceName) : Quantity :=
  let (now, s) := f.reading rules q resources
  s.total.amount r + (l.pending now.millis q.name s resources).1.amount r

/-- The resources of which something is added and that are limited. -/
def limited (delta hard : ResourceList) : KeySet ResourceName :=
  KeySet.ofList (delta.nonZero.keys.filter hard.contains)

def HasRoom : Prop :=
  ∀ q hard, f.Governs rules name q hard → ∀ r added limit, delta.get? r = some added → 0 < added →
    hard.get? r = some limit → f.used rules l q (limited delta hard) r + added ≤ limit

def IsExceeded (e : Exceeded) : Prop :=
  ∃ q hard, f.Governs rules name q hard ∧
    e.Passes q.name hard (f.used rules l q (limited delta hard)) delta

def IsFirst (e : Exceeded) : Prop :=
  f.IsExceeded rules l name delta e ∧
    ∀ e', f.IsExceeded rules l name delta e' → compare e.quota e'.quota = .lt ∨
      e.quota = e'.quota ∧ (e.resource = e'.resource ∨ compare e.resource e'.resource = .lt)

/-! ### The first quota that is exceeded -/

def charge : Charge where
  name
  delta := delta.nonZero
  listing := f.namespaces
  quotas := match f.namespaces.find? (·.name == name) with
    | none => []
    | some ns => Applicable.sorted delta.nonZero
        (f.quotas.filter (rules.exclusions.selects ·.spec.selector ns))

def first? : Option Exceeded :=
  (f.charge rules name delta).quotas.findSome? (f.exceeded? rules l (f.charge rules name delta))

variable {f rules l name delta} {a : Applicable} {e : Exceeded}

theorem passes_nonZero_iff {quota : String} {hard : ResourceList}
    {used : ResourceName → Quantity} :
    e.Passes quota hard used delta.nonZero ↔ e.Passes quota hard used delta := by
  have hget : 0 < e.requested →
      (delta.nonZero.get? e.resource = some e.requested ↔
        delta.get? e.resource = some e.requested) := fun hpos => by
    have hne : e.requested.isZero = false := by
      rw [Quantity.isZero, beq_eq_false_iff_ne]
      exact (Int.ne_of_lt hpos).symm
    rw [ResourceList.nonZero, Table.get?_filter, Option.filter_eq_some_iff]
    simp [hne]
  exact ⟨fun h => { h with asked := (hget h.grows).1 h.asked },
    fun h => { h with asked := (hget h.grows).2 h.asked }⟩

theorem exceeded?_eq (a : Applicable) : ∃ used : ResourceList,
    used.amount = f.used rules l a.quota a.resources ∧
      f.exceeded? rules l (f.charge rules name delta) a =
        Exceeded.check? a.name a.hard used delta.nonZero := by
  refine ⟨_, funext fun r => ?_, rfl⟩
  rw [ResourceList.amount_addAll]
  rfl

theorem exceeded?_eq_some_iff : f.exceeded? rules l (f.charge rules name delta) a = some e ↔
    e.Passes a.name a.hard (f.used rules l a.quota a.resources) delta ∧
      ∀ e' : Exceeded, e'.Passes a.name a.hard (f.used rules l a.quota a.resources) delta →
        e.resource = e'.resource ∨ compare e.resource e'.resource = .lt := by
  obtain ⟨used, hused, heq⟩ := exceeded?_eq (f := f) (l := l) a
  rw [heq, Exceeded.check?_eq_some_iff, hused]
  simp only [passes_nonZero_iff]

theorem isSome_exceeded?_iff :
    (f.exceeded? rules l (f.charge rules name delta) a).isSome = true ↔
      ∃ e : Exceeded, e.Passes a.name a.hard (f.used rules l a.quota a.resources) delta := by
  obtain ⟨used, hused, heq⟩ := exceeded?_eq (f := f) (l := l) a
  rw [heq, Exceeded.isSome_check?_iff, hused]
  simp only [passes_nonZero_iff]

/-- The quotas that a call is checked against are those that govern the namespace and limit some of
what it adds. -/
theorem mem_charge_quotas_iff : a ∈ (f.charge rules name delta).quotas ↔
    f.Governs rules name a.quota a.hard ∧ a.resources = limited delta a.hard ∧
      ∃ r, a.resources.contains r = true := by
  simp only [charge, Governs]
  cases f.namespaces.find? (·.name == name) with
  | none => simp
  | some ns =>
    simp only [Applicable.mem_sorted_iff, List.mem_filter, Applicable.of?_eq_some_iff,
      Option.some.injEq, exists_eq_left', limited]
    constructor
    · rintro ⟨q, ⟨hq, hselects⟩, rfl, hhard, hresources⟩
      exact ⟨⟨hq, hselects, hhard⟩, hresources⟩
    · rintro ⟨⟨hq, hselects, hhard⟩, hresources⟩
      exact ⟨a.quota, ⟨hq, hselects⟩, rfl, hhard, hresources⟩

theorem isExceeded_iff : f.IsExceeded rules l name delta e ↔
    ∃ a ∈ (f.charge rules name delta).quotas,
      e.Passes a.name a.hard (f.used rules l a.quota a.resources) delta := by
  constructor
  · rintro ⟨q, hard, hgoverns, hpasses⟩
    have hlimited : (limited delta hard).contains e.resource = true := by
      rw [limited, KeySet.contains_ofList, List.mem_filter, Table.mem_keys_iff]
      exact ⟨(Table.contains_iff _).2 ⟨_, (passes_nonZero_iff.2 hpasses).asked⟩,
        (Table.contains_iff _).2 ⟨_, hpasses.limited⟩⟩
    exact ⟨⟨q, hard, limited delta hard⟩,
      mem_charge_quotas_iff.2 ⟨hgoverns, rfl, e.resource, hlimited⟩, hpasses⟩
  · rintro ⟨a, ha, hpasses⟩
    obtain ⟨hgoverns, hresources, -⟩ := mem_charge_quotas_iff.1 ha
    exact ⟨a.quota, a.hard, hgoverns, hresources ▸ hpasses⟩

theorem pairwise_charge_quotas (hnames : (f.quotas.map (·.name)).Nodup) :
    (f.charge rules name delta).quotas.Pairwise fun a b => compare a.name b.name = .lt := by
  simp only [charge]
  cases f.namespaces.find? (·.name == name) with
  | none => exact .nil
  | some ns => exact Applicable.pairwise_sorted (hnames.sublist (List.filter_sublist.map _))

theorem names_charge_quotas_nodup (hnames : (f.quotas.map (·.name)).Nodup) :
    ((f.charge rules name delta).quotas.map (·.name)).Nodup :=
  List.pairwise_map.2 ((pairwise_charge_quotas hnames).imp Table.ne_of_compare_lt)

theorem first?_eq_some_iff (hnames : (f.quotas.map (·.name)).Nodup) :
    f.first? rules l name delta = some e ↔ f.IsFirst rules l name delta e := by
  have hascending : (f.charge rules name delta).quotas.Pairwise fun a b =>
      compare a.name b.name = .lt := pairwise_charge_quotas hnames
  rw [first?, findSome?_eq_some_iff_least hascending]
  constructor
  · rintro ⟨a, ha, he, hleast⟩
    obtain ⟨hpasses, hresource⟩ := exceeded?_eq_some_iff.1 he
    refine ⟨isExceeded_iff.2 ⟨a, ha, hpasses⟩, fun e' he' => ?_⟩
    obtain ⟨b, hb, hpasses'⟩ := isExceeded_iff.1 he'
    rw [hpasses.quota_eq, hpasses'.quota_eq]
    rcases hleast b hb (isSome_exceeded?_iff.2 ⟨e', hpasses'⟩) with rfl | hlt
    · exact .inr ⟨rfl, hresource e' hpasses'⟩
    · exact .inl hlt
  · rintro ⟨hexceeded, hfirst⟩
    obtain ⟨a, ha, hpasses⟩ := isExceeded_iff.1 hexceeded
    refine ⟨a, ha, exceeded?_eq_some_iff.2 ⟨hpasses, fun e' he' => ?_⟩, fun b hb hsome => ?_⟩
    · rcases hfirst e' (isExceeded_iff.2 ⟨a, ha, he'⟩) with hlt | ⟨-, hresource⟩
      · rw [hpasses.quota_eq, he'.quota_eq] at hlt
        simp at hlt
      · exact hresource
    · obtain ⟨e', he'⟩ := isSome_exceeded?_iff.1 hsome
      have horder := hfirst e' (isExceeded_iff.2 ⟨b, hb, he'⟩)
      rw [hpasses.quota_eq, he'.quota_eq] at horder
      refine horder.symm.imp_left fun hsame => ?_
      exact List.inj_on_of_nodup_map (names_charge_quotas_nodup hnames) ha hb hsame.1

theorem hasRoom_iff :
    f.HasRoom rules l name delta ↔ ∀ e, ¬ f.IsExceeded rules l name delta e := by
  constructor
  · rintro h e ⟨q, hard, hgoverns, hpasses⟩
    have hle := h q hard hgoverns _ _ _ hpasses.asked hpasses.grows hpasses.limited
    rw [← hpasses.used_eq] at hle
    exact absurd hpasses.passes (Int.not_lt.2 hle)
  · intro h q hard hgoverns r added limit hadded hpos hlimit
    by_contra hnot
    exact h ⟨q.name, r, f.used rules l q (limited delta hard) r, added, limit⟩
      ⟨q, hard, hgoverns, rfl, hlimit, hadded, hpos, rfl, Int.not_le.1 hnot⟩

theorem first?_eq_none_iff :
    f.first? rules l name delta = none ↔ f.HasRoom rules l name delta := by
  rw [first?, List.findSome?_eq_none_iff, hasRoom_iff]
  simp only [← Option.not_isSome_iff_eq_none, isSome_exceeded?_iff, isExceeded_iff]
  constructor
  · rintro h e ⟨a, ha, he⟩
    exact h a ha ⟨e, he⟩
  · rintro h a ha ⟨e, he⟩
    exact h e ⟨a, ha, he⟩

/-! ### The result -/

variable {dryRun : Bool} {shared : Shared}

theorem first?_of_quotas_nil (h : (f.charge rules name delta).quotas = []) :
    f.first? rules l name delta = none := by
  rw [first?, h]
  rfl

/-- What follows the listing: a call that is checked against no quota ends. -/
theorem charge_eq (f : Findings) (rules : Rules) (name : String) (delta : ResourceList) :
    Engine.charge rules.exclusions name delta.nonZero f.namespaces f.quotas =
      if (f.charge rules name delta).quotas.isEmpty then .finished (.ok ())
      else .locking (f.charge rules name delta) [] (f.charge rules name delta).quotas := by
  cases hfind : f.namespaces.find? (·.name == name) with
  | none => simp [Engine.charge, charge, hfind]
  | some ns => simp [Engine.charge, Charge.start, charge, hfind]

/-- What nothing is added of is not checked against any quota. -/
theorem quotas_eq_nil_of_isEmpty (h : delta.nonZero.isEmpty = true) :
    (f.charge rules name delta).quotas = [] := by
  refine List.eq_nil_iff_forall_not_mem.2 fun a ha => ?_
  obtain ⟨-, hresources, r, hr⟩ := mem_charge_quotas_iff.1 ha
  rw [hresources, limited, KeySet.contains_ofList, List.mem_filter, Table.mem_keys_iff,
    Table.contains, Table.get?_of_isEmpty h] at hr
  cases hr.1

theorem leads_charge (f : Findings) (rules : Rules) (dryRun : Bool) (name : String)
    (delta : ResourceList) (shared : Shared) :
    f.Leads rules dryRun (shared, (Work.usage name delta).start) (shared,
      if (f.charge rules name delta).quotas.isEmpty then .finished (.ok ())
      else .locking (f.charge rules name delta) [] (f.charge rules name delta).quotas) := by
  by_cases hnothing : delta.nonZero.isEmpty = true
  · have hstart : (Work.usage name delta).start = .finished (.ok ()) := if_pos hnothing
    rw [hstart, quotas_eq_nil_of_isEmpty hnothing]
    exact .refl
  · have hstart : (Work.usage name delta).start = .listing name delta.nonZero := if_neg hnothing
    have hlist : f.next? rules dryRun (shared, .listing name delta.nonZero) =
      some (shared, Engine.charge rules.exclusions name delta.nonZero f.namespaces f.quotas) := rfl
    rw [charge_eq] at hlist
    rw [hstart]
    exact .single hlist

theorem returns_resultOf_first? (hnames : (f.quotas.map (·.name)).Nodup)
    (hl : shared.locks.Sound) (hfree : shared.locks.handles = []) :
    f.Returns rules dryRun shared (.usage name delta)
      (resultOf (f.first? rules shared.ledger name delta)) := by
  have hstart := f.leads_charge rules dryRun name delta shared
  split at hstart
  case isTrue hempty =>
    rw [first?_of_quotas_nil (List.isEmpty_iff.1 hempty)]
    exact ⟨shared, hstart⟩
  case isFalse =>
    obtain ⟨shared', hends⟩ := @leads_locking_finished f rules dryRun shared
      (f.charge rules name delta) rfl (names_charge_quotas_nodup hnames) hl hfree
    exact ⟨shared', hstart.trans hends⟩

/-- Where there is room, a call that is no dry run comes to reserve in every quota that it is
checked against. -/
theorem leads_reserving_of_hasRoom (hnames : (f.quotas.map (·.name)).Nodup)
    (hl : shared.locks.Sound) (hfree : shared.locks.handles = [])
    (hroom : f.HasRoom rules shared.ledger name delta)
    (hsome : (f.charge rules name delta).quotas ≠ []) :
    ∃ shared' held checked, checked.map (·.1) = (f.charge rules name delta).quotas ∧
      (∀ quota, shared'.ledger.under quota ⊆ shared.ledger.under quota) ∧
      f.Leads rules false (shared, (Work.usage name delta).start)
        (shared', .reserving (f.charge rules name delta) held checked) := by
  have hstart := f.leads_charge rules false name delta shared
  rw [if_neg (List.isEmpty_iff.not.2 hsome)] at hstart
  obtain ⟨shared', held, hkept, hchecked⟩ := @leads_locking_checked f rules false shared
    (f.charge rules name delta) rfl (names_charge_quotas_nodup hnames) hl hfree
  have hfirst := first?_eq_none_iff.2 hroom
  rw [first?] at hfirst
  rw [hfirst] at hchecked
  obtain ⟨checked, hmap, hchecked⟩ := hchecked
  exact ⟨shared', held, checked, hmap, hkept, (hstart.trans hchecked).tail rfl⟩

private def quotaOf (name : String) (selector : Option Selector) (hard : List (String × String)) :
    Quota :=
  ⟨⟨some name, none, none, none, none, []⟩, ⟨selector, Table.ofList hard⟩, none⟩

private def fourQuotas : List Quota := [
  quotaOf "a" none [("pods", "none")],
  quotaOf "b" (some ⟨some (Table.ofList [("team", "other")]), none⟩) [("pods", "0")],
  quotaOf "c" none [("cpu", "3"), ("memory", "0"), ("pods", "1")],
  quotaOf "d" none [("cpu", "0")]]

private def corePod : ResourceList := .ofPairs [(.ofText "cpu", .one), (.pods, .one)]

private def inTwoNamespaces : Findings where
  namespaces := [⟨"ns", Table.empty⟩, ⟨"other", Table.empty⟩]
  quotas := fourQuotas
  asked _ := ⟨0, ⟨0, 0⟩⟩
  read _ := ⟨0, ⟨0, 0⟩⟩
  usage _ _ := .ofPairs [(.ofText "cpu", .one)]
  otherwise _ := ⟨0, ⟨0, 0⟩⟩

private def unlabelled : Rules := ⟨⟨none, []⟩, 15000, 30000⟩

private def onePending : Shared :=
  ⟨Ledger.put Table.empty "c" [⟨"other", corePod, .ofPairs [(.ofText "cpu", .ofUnits 2),
    (.pods, .one)], ⟨0, 0⟩, 30000⟩], .empty⟩

private def podsPassed : Exceeded := ⟨"c", .pods, .one, .one, .one⟩

end Findings

end SharedQuota
