import SharedQuota.Proofs.Decision
import SharedQuota.Proofs.Engine.Applicable
import SharedQuota.Proofs.Engine.Crowd
import SharedQuota.Proofs.Ledger.Amount
import SharedQuota.Proofs.Scope
import SharedQuota.Proofs.Snapshot

/-!
Calls that add usage, on a cluster that does not change. Nothing that they reserve becomes visible,
so that readings release nothing (`Books.under_pending`) and a comparison that passes leaves room
for what the call adds (`Books.clears`) until it is reserved (`Books.reserve`).
-/

namespace SharedQuota

/-- Whether usage is to be added, and none of it negative. -/
def Work.IsUsage : Work → Prop
  | .usage _ delta => delta.Nonneg
  | _ => False

instance : (w : Work) → Decidable w.IsUsage
  | .usage _ delta => inferInstanceAs (Decidable delta.Nonneg)
  | .relabel _ _ => inferInstanceAs (Decidable False)
  | .quota _ _ => inferInstanceAs (Decidable False)

structure Still where
  namespaces : List Namespace
  quotas : List Quota
  /-- What a namespace uses of all resources. -/
  usage : String → ResourceList

namespace Still

/-- Quotas have names of their own, none is synced, and no limit is at the bound of amounts. -/
structure IsProper (k : Still) : Prop where
  names_nodup : (k.quotas.map (·.name)).Nodup
  unsynced : ∀ q ∈ k.quotas, q.lastSync = none
  limited : ∀ q ∈ k.quotas, ∀ hard, q.hardLimits = .ok hard →
    ∀ limit ∈ hard.values, limit.nanos < 2 ^ 127 - 1
  usage_nonneg : ∀ name, (k.usage name).Nonneg

variable (k : Still) (x : Exclusions)

/-- What is in use of a resource in all namespaces of a quota. -/
def total (q : Quota) (r : ResourceName) : Int :=
  ((Scope.resolve x q k.namespaces).aggregated.toList.map fun name =>
    ((k.usage name).amount r).nanos).sum

def governs (name : String) (q : Quota) : Bool :=
  (k.namespaces.find? (·.name == name)).any (x.selects q.spec.selector)

def charge (name : String) (delta : ResourceList) : Charge :=
  ⟨name, delta, k.namespaces, Applicable.sorted delta (k.quotas.filter (k.governs x name))⟩

def charged : Work → Charge
  | .usage name delta => k.charge x name delta.nonZero
  | _ => ⟨"", Table.empty, k.namespaces, []⟩

/-- What a call is told. A reading finds what is in use in the namespaces that count. -/
inductive Answers : Stage → Answer → Prop
  | proceed {stage} : Answers stage .proceed
  | failed {stage denial} : Answers stage (.failed denial)
  | listed {stage} : Answers stage (.listed k.namespaces k.quotas)
  | measured {charge held checked a since next} :
    Answers (.reading charge held checked a since next)
      (.measured (Snapshot.measured (Scope.resolve x a.quota charge.listing).aggregated k.usage
        a.resources))

variable {k x} {name : String} {delta : ResourceList} {w : Work} {a : Applicable}

/-! ### Charges -/

theorem charge_cases (name : String) (delta : ResourceList) :
    (Engine.charge x name delta k.namespaces k.quotas = .finished (.ok ()) ∧
        (k.charge x name delta).quotas = []) ∨
      Engine.charge x name delta k.namespaces k.quotas =
        .locking (k.charge x name delta) [] (k.charge x name delta).quotas := by
  cases hfind : k.namespaces.find? (·.name == name) with
  | none =>
    have hnone : k.quotas.filter (k.governs x name) = [] :=
      List.filter_eq_nil_iff.2 fun q _ => by simp [governs, hfind]
    refine .inl ⟨by simp only [Engine.charge, hfind], ?_⟩
    simp [charge, hnone, Applicable.sorted]
  | some ns =>
    have hsome : k.governs x name = fun q => x.selects q.spec.selector ns := by
      funext q
      simp [governs, hfind]
    simp only [Engine.charge, hfind, Charge.start, charge, hsome]
    split
    case isTrue hempty => exact .inl ⟨rfl, List.isEmpty_iff.1 hempty⟩
    case isFalse => exact .inr rfl

theorem charged_eq (hw : w.IsUsage) :
    k.charged x w = k.charge x (k.charged x w).name (k.charged x w).delta := by
  cases w with
  | usage name delta => rfl
  | relabel old new => cases hw
  | quota new old => cases hw

theorem delta_nonneg (hw : w.IsUsage) : (k.charged x w).delta.Nonneg := by
  cases w with
  | usage name delta =>
    intro q hq
    obtain ⟨r, hr⟩ := (Table.mem_values_iff _).1 hq
    have hget : delta.nonZero.get? r = some q := hr
    have hamount : delta.amount r = q := by
      rw [← ResourceList.amount_nonZero, ResourceList.amount_of_get? hget]
    exact hamount ▸ ResourceList.Nonneg.amount hw r
  | relabel old new => cases hw
  | quota new old => cases hw

theorem delta_pos (hw : w.IsUsage) {r : ResourceName}
    (hr : (k.charged x w).delta.contains r = true) :
    0 < ((k.charged x w).delta.amount r).nanos := by
  have hle := (delta_nonneg (k := k) (x := x) hw).amount r
  cases w with
  | usage name delta =>
    have hne := (ResourceList.contains_nonZero delta r).1 hr
    rw [← ResourceList.amount_nonZero] at hne
    exact Int.lt_iff_le_and_ne.2 ⟨hle, Ne.symm hne⟩
  | relabel old new => cases hw
  | quota new old => cases hw

theorem of_mem_quotas (ha : a ∈ (k.charged x w).quotas) :
    a.quota ∈ k.quotas ∧ k.governs x (k.charged x w).name a.quota = true ∧
      a.quota.hardLimits = .ok a.hard ∧
      ∀ r, a.resources.contains r = true ↔
        (k.charged x w).delta.contains r = true ∧ a.hard.contains r = true := by
  cases w with
  | usage name delta =>
    obtain ⟨q, hq, ha⟩ := Applicable.mem_sorted_iff.1 ha
    obtain ⟨rfl, hhard, hres⟩ := Applicable.of_of? ha
    obtain ⟨hmem, hgoverns⟩ := List.mem_filter.1 hq
    exact ⟨hmem, hgoverns, hhard, hres⟩
  | relabel old new => cases ha
  | quota new old => cases ha

theorem names_quotas_nodup (hk : k.IsProper) (w : Work) :
    ((k.charged x w).quotas.map (·.name)).Nodup := by
  cases w with
  | usage name delta =>
    exact Applicable.names_sorted_nodup (hk.names_nodup.sublist (List.filter_sublist.map _))
  | relabel old new => exact List.nodup_nil
  | quota new old => exact List.nodup_nil

theorem total_nonneg (hk : k.IsProper) (q : Quota) (r : ResourceName) : 0 ≤ k.total x q r := by
  refine List.sum_nonneg fun n hn => ?_
  obtain ⟨other, -, rfl⟩ := List.mem_map.1 hn
  exact (hk.usage_nonneg other).amount r

/-- The namespace of a call counts for the quotas that the call is checked against. -/
theorem usage_le_total (hk : k.IsProper) {q : Quota} (h : k.governs x name q = true)
    (r : ResourceName) : ((k.usage name).amount r).nanos ≤ k.total x q r := by
  obtain ⟨ns, hfind, hselects⟩ := (Option.any_eq_true _ _).1 h
  have hname : ns.name = name := by simpa using List.find?_some hfind
  have hmem := Scope.contains_aggregated_of_selects (List.mem_of_find?_eq_some hfind) hselects
  rw [hname, ← KeySet.mem_toList_iff] at hmem
  refine List.single_le_sum (fun n hn => ?_) _ (List.mem_map.2 ⟨name, hmem, rfl⟩)
  obtain ⟨other, -, rfl⟩ := List.mem_map.1 hn
  exact (hk.usage_nonneg other).amount r

/-! ### Books -/

variable (k x) in
/-- What is reserved is not visible, and stays within the limits with what is in use. -/
structure Books (u : String → List Reservation) : Prop where
  nonneg : ∀ quota, ∀ y ∈ u quota, y.usage.Nonneg
  unseen : ∀ quota, ∀ y ∈ u quota, ∀ r, y.visibleAt.contains r = true →
    ((k.usage y.namespaceName).amount r).nanos < (y.visibleAt.amount r).nanos
  within : ∀ q ∈ k.quotas, ∀ hard, q.hardLimits = .ok hard → ∀ r limit, hard.get? r = some limit →
    0 < Ledger.held (u q.name) r → k.total x q r + Ledger.held (u q.name) r ≤ limit.nanos

variable (k x) in
/-- There is room for what a call adds in a quota that it was compared with, and what was read of
the namespace is what is in use. -/
structure Clears (u : String → List Reservation) (c : Charge) (e : Applicable × ResourceList) :
    Prop where
  observed : ∀ r, e.1.resources.contains r = true → e.2.amount r = (k.usage c.name).amount r
  within : ∀ r limit, e.1.resources.contains r = true → e.1.hard.get? r = some limit →
    k.total x e.1.quota r + Ledger.held (u e.1.name) r + (c.delta.amount r).nanos ≤ limit.nanos

theorem Clears.congr {u u' : String → List Reservation} {c : Charge} {e : Applicable × ResourceList}
    (h : k.Clears x u c e) (hu : u' e.1.name = u e.1.name) : k.Clears x u' c e :=
  ⟨h.observed, hu ▸ h.within⟩

theorem books_empty : k.Books x (Ledger.under Table.empty) where
  nonneg _ _ h := nomatch h
  unseen _ _ h := nomatch h
  within _ _ _ _ _ _ _ h := nomatch h

variable {l : Ledger} {now : Now} {names : KeySet String} {resources : KeySet ResourceName}

theorem Books.unseen_eq (h : k.Books x l.under) {quota : String}
    (hlive : ∀ y ∈ l.under quota, y.isLive now.millis = true) :
    l.unseen now.millis quota (.ofLive names k.usage resources) resources = l.under quota := by
  refine List.filter_eq_self.2 fun y hy => ?_
  have hnot : ¬ y.isObserved (.ofLive names k.usage resources) resources = true := by
    rw [Snapshot.ofLive, Reservation.isObserved_recompute, Reservation.isShown_iff]
    rintro ⟨used, hused, ⟨r, hr, hasked⟩, hall⟩
    have hget : (Snapshot.measured names k.usage resources).get? y.namespaceName = some used :=
      hused
    rw [Snapshot.get?_measured] at hget
    split at hget
    case isFalse => cases hget
    case isTrue =>
      have hle := hall r hr hasked
      rw [← Option.some.inj hget, Snapshot.amount_restrict_asked hasked] at hle
      exact absurd (h.unseen quota y hy r hr) (Int.not_lt.2 hle)
  simp [hlive y hy, hnot]

theorem Books.under_pending (h : k.Books x l.under)
    (hlive : ∀ quota, ∀ y ∈ l.under quota, y.isLive now.millis = true) (quota : String) :
    (l.apply (.pending now.millis quota (.ofLive names k.usage resources) resources)).under =
      l.under := by
  funext other
  rw [Ledger.apply, Ledger.under_pending]
  split
  case isTrue heq => rw [h.unseen_eq (hlive quota), heq]
  case isFalse => rfl

/-- A comparison that passes leaves room for what the call adds. -/
theorem Books.clears (hk : k.IsProper) (h : k.Books x l.under)
    (hlive : ∀ y ∈ l.under a.name, y.isLive now.millis = true) (hw : w.IsUsage)
    (ha : a ∈ (k.charged x w).quotas)
    (hcheck : (Engine.check now l (k.charged x w) a (.ofLive
      (Scope.resolve x a.quota k.namespaces).aggregated k.usage a.resources)).1 = none) :
    k.Clears x l.under (k.charged x w) (a, (Snapshot.ofLive
      (Scope.resolve x a.quota k.namespaces).aggregated k.usage a.resources).usedIn
        (k.charged x w).name) := by
  obtain ⟨hq, hgoverns, hhard, hres⟩ := of_mem_quotas ha
  refine ⟨fun r hr => ?_, fun r limit hr hlimit => ?_⟩
  · obtain ⟨ns, hfind, hselects⟩ := (Option.any_eq_true _ _).1 hgoverns
    have hname : ns.name = (k.charged x w).name := by simpa using List.find?_some hfind
    have hmem := Scope.contains_aggregated_of_selects (List.mem_of_find?_eq_some hfind) hselects
    exact Snapshot.amount_usedIn_ofLive _ _ hr (hname ▸ hmem)
  · obtain ⟨d, hd⟩ := (Table.contains_iff _).1 ((hres r).1 hr).1
    have hamount : (k.charged x w).delta.amount r = d := ResourceList.amount_of_get? hd
    have hpos := delta_pos hw ((hres r).1 hr).1
    have hnonneg : ∀ y ∈ l.under a.name, 0 ≤ (y.usage.amount r).nanos := fun y hy =>
      (h.nonneg a.name y hy).amount r
    have htotal := Snapshot.nanos_amount_total (Scope.resolve x a.quota k.namespaces).aggregated
      k.usage hk.usage_nonneg hr
    have hlt := hk.limited a.quota hq a.hard hhard limit ((Table.mem_values_iff _).2 ⟨r, hlimit⟩)
    simp only [Engine.check, Ledger.pending, h.unseen_eq hlive] at hcheck
    rw [hamount] at hpos ⊢
    have hle := (Exceeded.check?_eq_none_iff ..).1 hcheck r d hd hpos limit hlimit
    rw [ResourceList.amount_addAll] at hle
    exact Quantity.add_add_le_of_le htotal (Ledger.nanos_amount_total hr hnonneg)
      (total_nonneg hk a.quota r) (Ledger.held_nonneg hnonneg) hpos hlt hle

section

variable {rules : Rules} {c : Charge} {observed : ResourceList}

theorem under_reservation (hlive : ∀ quota, ∀ y ∈ l.under quota, y.isLive now.millis = true)
    (quota : String) :
    (l.apply (Engine.reservation rules now c a observed)).under quota =
      l.under quota ++
        if quota = a.name then
          (l.reserved? now.millis now.wall rules.reservationTtl a.name c.name
            (c.delta.restrict a.resources.toList) observed).toList
        else [] := by
  rw [Engine.reservation, Ledger.apply, Ledger.under_reserve, List.filter_eq_self.2 (hlive quota)]

theorem under_reservation_of_ne
    (hlive : ∀ quota, ∀ y ∈ l.under quota, y.isLive now.millis = true) {quota : String}
    (hne : quota ≠ a.name) :
    (l.apply (Engine.reservation rules now c a observed)).under quota = l.under quota := by
  rw [under_reservation hlive, if_neg hne, List.append_nil]

theorem held_reservation (hlive : ∀ quota, ∀ y ∈ l.under quota, y.isLive now.millis = true)
    (quota : String) (r : ResourceName) :
    Ledger.held ((l.apply (Engine.reservation rules now c a observed)).under quota) r =
      Ledger.held (l.under quota) r +
        if a.name = quota then ((c.delta.restrict a.resources.toList).amount r).nanos else 0 := by
  rw [under_reservation hlive, Ledger.held_append]
  by_cases hq : quota = a.name
  · rw [if_pos hq, if_pos hq.symm, Ledger.held_reserved?]
  · rw [if_neg hq, if_neg (Ne.symm hq), Ledger.held_nil]

end

/-- What a call reserves is not visible: it takes more than what is in use. -/
theorem Clears.unseen (hk : k.IsProper) (h : k.Books x l.under) (hw : w.IsUsage)
    {observed : ResourceList} (ha : a ∈ (k.charged x w).quotas)
    (hclear : k.Clears x l.under (k.charged x w) (a, observed)) {r : ResourceName}
    (hr : ((k.charged x w).delta.restrict a.resources.toList).contains r = true) :
    ((k.usage (k.charged x w).name).amount r).nanos <
      ((Ledger.visibleAt (l.under a.name) (k.charged x w).name
        ((k.charged x w).delta.restrict a.resources.toList) observed).amount r).nanos := by
  obtain ⟨hq, hgoverns, hhard, hres⟩ := of_mem_quotas ha
  have hasked := (KeySet.mem_toList_iff _).1 ((ResourceList.contains_restrict _ _ r).1 hr).1
  have hpos := delta_pos hw ((hres r).1 hasked).1
  obtain ⟨limit, hlimit⟩ := (Table.contains_iff _).1 ((hres r).1 hasked).2
  have hwithin := hclear.within r limit hasked hlimit
  have hlt := hk.limited a.quota hq a.hard hhard limit ((Table.mem_values_iff _).2 ⟨r, hlimit⟩)
  have hin := usage_le_total hk hgoverns r
  have hheld : 0 ≤ Ledger.held (l.under a.name) r :=
    Ledger.held_nonneg fun y hy => (h.nonneg a.name y hy).amount r
  have hinside : ∀ y ∈ Ledger.inside (l.under a.name) (k.charged x w).name,
      0 ≤ (y.usage.amount r).nanos := fun y hy =>
    (h.nonneg a.name y (Ledger.mem_inside.1 hy).1).amount r
  have hinside_held := Ledger.held_nonneg hinside
  have hrestrict := Snapshot.amount_restrict_asked hasked (k.charged x w).delta
  rw [Ledger.nanos_amount_visibleAt _ _ _ _ hr (hrestrict ▸ Int.le_of_lt hpos) hinside,
    hclear.observed r hasked, hrestrict]
  dsimp only at hwithin
  omega

/-- The books stay right when a call reserves in a quota that it was compared with. -/
theorem Books.reserve (hk : k.IsProper) (h : k.Books x l.under)
    (hlive : ∀ quota, ∀ y ∈ l.under quota, y.isLive now.millis = true) (hw : w.IsUsage)
    {rules : Rules} {observed : ResourceList} (ha : a ∈ (k.charged x w).quotas)
    (hclear : k.Clears x l.under (k.charged x w) (a, observed)) :
    k.Books x (l.apply (Engine.reservation rules now (k.charged x w) a observed)).under := by
  have hdelta := delta_nonneg (k := k) (x := x) hw
  -- what is new under a quota
  have hentry (quota : String) (y : Reservation)
      (hy : y ∈ (l.apply (Engine.reservation rules now (k.charged x w) a observed)).under quota) :
      y ∈ l.under quota ∨ l.reserved? now.millis now.wall rules.reservationTtl a.name
        (k.charged x w).name ((k.charged x w).delta.restrict a.resources.toList) observed =
          some y := by
    rw [under_reservation hlive, List.mem_append] at hy
    refine hy.imp_right fun hy => ?_
    split at hy
    case isTrue => exact Option.mem_toList.1 hy
    case isFalse => cases hy
  refine ⟨fun quota y hy => ?_, fun quota y hy r hr => ?_, fun q hq hard hhard r limit hlimit => ?_⟩
  · rcases hentry quota y hy with hy | hy
    · exact h.nonneg quota y hy
    · rw [Ledger.eq_of_reserved? l _ hy]
      exact hdelta.restrict a.resources
  · rcases hentry quota y hy with hy | hy
    · exact h.unseen quota y hy r hr
    · rw [Ledger.eq_of_reserved? l _ hy, List.filter_eq_self.2 (hlive a.name)] at hr ⊢
      exact hclear.unseen hk h hw ha ((Ledger.contains_visibleAt _ _ _ _ r).1 hr)
  · rw [held_reservation hlive]
    split
    case isFalse =>
      rw [Int.add_zero]
      exact h.within q hq hard hhard r limit hlimit
    case isTrue hname =>
      obtain ⟨hmem, -, hhard', -⟩ := of_mem_quotas ha
      obtain rfl : a.quota = q := List.inj_on_of_nodup_map hk.names_nodup hmem hq hname
      obtain rfl : a.hard = hard := Except.ok.inj (hhard'.symm.trans hhard)
      rw [ResourceList.amount_restrict _ a.resources.toList_nodup]
      split
      case isFalse =>
        rw [Quantity.nanos_zero, Int.add_zero]
        exact h.within a.quota hq a.hard hhard r limit hlimit
      case isTrue hasked =>
        have hroom := hclear.within r limit ((KeySet.mem_toList_iff _).1 hasked) hlimit
        intro _
        rw [← Int.add_assoc]
        exact hroom

end Still

end SharedQuota
