import SharedQuota.Options.Settings
import SharedQuota.Proofs.Admission.Sign
import SharedQuota.Proofs.Engine.Verdict
import SharedQuota.Proofs.Snapshot

/-!
Whether what is pending can lower the usage that requests are compared with. Main statement
(`pending_nonneg_iff`): it never does, exactly if no request creates a pod or a claim with a
negative amount. Nothing on the way of such an amount to the ledger stops it.
-/

namespace SharedQuota

namespace Stage

/-- A call comes so far that adds usage to a namespace. What is compared or reserved is not in a
namespace that is excluded by its name. -/
def Adds (x : Exclusions) (name : String) (delta : ResourceList) (dryRun : Bool) : Stage → Prop
  | .listing n d => n = name ∧ d = delta
  | .locking c _ _ | .waiting c _ _ _ _ | .checking c _ _ _ | .reading c _ _ _ _ _ =>
    (c.name = name ∧ c.delta = delta) ∧ name ∉ x.names
  | .reserving c _ _ => (c.name = name ∧ c.delta = delta) ∧ name ∉ x.names ∧ dryRun = false
  | .releasing _ _ | .finished _ => True
  | _ => False

variable {x : Exclusions} {name : String} {delta : ResourceList} {dryRun : Bool}

theorem adds_start (name : String) (delta : ResourceList) :
    (Work.usage name delta).start.Adds x name delta.nonZero dryRun := by
  simp only [Work.start]
  split
  case isTrue => trivial
  case isFalse => exact ⟨rfl, rfl⟩

theorem adds_charge (x : Exclusions) (name : String) (delta : ResourceList) (dryRun : Bool)
    (namespaces : List Namespace) (quotas : List Quota) :
    (Engine.charge x name delta namespaces quotas).Adds x name delta dryRun := by
  simp only [Engine.charge]
  split
  case h_1 => trivial
  case h_2 ns hfind =>
    have hname : ns.name = name := by simpa using List.find?_some hfind
    simp only [Charge.start]
    split
    case isTrue => trivial
    case isFalse hsome =>
      refine ⟨⟨rfl, rfl⟩, fun hexcluded => hsome ?_⟩
      -- no quota selects what is excluded
      have hselects (q : Quota) : x.selects q.spec.selector ns = false := by
        simp [Exclusions.selects, Exclusions.excludes, hname, hexcluded]
      simp [hselects, Applicable.sorted]

variable {rules : Rules} {now : Now} {shared shared' : Shared} {stage stage' : Stage}
  {answer : Answer}

theorem Adds.advance (h : stage.Adds rules.exclusions name delta dryRun)
    (hadvance : Engine.Advance rules now dryRun shared stage answer shared' stage') :
    stage'.Adds rules.exclusions name delta dryRun := by
  cases hadvance with
  | list =>
    obtain ⟨rfl, rfl⟩ := h
    exact adds_charge ..
  | clear hr he =>
    rcases Engine.stage_of_reading? hr with rfl | ⟨since, rfl⟩ <;> exact h
  | pass hdry => exact ⟨h.1, h.2, hdry⟩
  | fail | deny | passDry | reserved | release | finish => trivial
  | locked | ask | take | measure | reserve => exact h
  | _ => cases h

end Stage

namespace Reservation

/-- By some time a reservation holds no negative amount, or has expired. -/
def IsHarmless (now : Nat) (y : Reservation) : Prop := y.usage.Nonneg ∨ y.expires ≤ now

end Reservation

namespace Ledger

theorem nonneg_pending {l : Ledger} {now : Nat} {quota : String}
    (h : ∀ y ∈ l.under quota, y.IsHarmless now) (s : Snapshot) (resources : KeySet ResourceName) :
    (l.pending now quota s resources).1.Nonneg := by
  refine nonneg_total (fun y hy => ?_) resources
  obtain ⟨hmem, hstays⟩ := List.mem_filter.1 hy
  have hlive : now < y.expires := of_decide_eq_true (Bool.and_eq_true_iff.1 hstays).1
  exact (h y hmem).resolve_right (Nat.not_le.2 hlive)

end Ledger

namespace Engine

variable {rules : Rules} {now : Now} {dryRun : Bool} {shared shared' : Shared}
  {stage stage' : Stage} {answer : Answer} {name : String} {delta : ResourceList} {time : Nat}

/-- A step reserves no negative amounts, unless the call adds some and they do not expire at
once. -/
theorem Advance.isHarmless
    (h : Advance rules now dryRun shared stage answer shared' stage')
    (hstage : stage.Adds rules.exclusions name delta.nonZero dryRun)
    (hdelta : rules.reservationTtl = 0 ∨
      (dryRun = false → name ∉ rules.exclusions.names → delta.Nonneg))
    (htime : now.millis ≤ time)
    (hledger : ∀ quota, ∀ y ∈ shared.ledger.under quota, y.IsHarmless time) :
    ∀ quota, ∀ y ∈ shared'.ledger.under quota, y.IsHarmless time := by
  intro quota y hy
  cases h with
  | deny | clear =>
    exact hledger quota y ((Ledger.mem_under_apply _ hy).resolve_right (nomatch ·))
  | @reserve charge held a observed next =>
    obtain ⟨⟨rfl, hsame⟩, hname, hdry⟩ := hstage
    rcases Ledger.mem_under_apply _ hy with hy | hy
    · exact hledger quota y hy
    · rw [reservation, Ledger.Operation.enters?] at hy
      split at hy
      case isFalse => cases hy
      case isTrue =>
        rw [Ledger.eq_of_reserved? _ _ hy]
        refine hdelta.symm.imp (fun hdelta => ?_) fun httl => ?_
        · have hnonneg : charge.delta.Nonneg :=
            hsame ▸ ResourceList.nonneg_nonZero_iff.2 (hdelta hdry hname)
          exact hnonneg.restrict a.resources
        · rw [httl]
          exact htime
  | _ => exact hledger quota y hy

end Engine

namespace Crowd

/-- By some time nothing that is reserved lowers usage, and no call is to reserve what does. -/
structure IsHarmless (rules : Rules) (time : Nat) (s : Crowd) : Prop where
  callers : ∀ c ∈ s.callers, ∃ (name : String) (delta : ResourceList),
    c.stage.Adds rules.exclusions name delta.nonZero c.dryRun ∧ (rules.reservationTtl = 0 ∨
      (c.dryRun = false → name ∉ rules.exclusions.names → delta.Nonneg))
  ledger : ∀ quota, ∀ y ∈ s.shared.ledger.under quota, y.IsHarmless time

variable {rules : Rules} {time : Nat} {s t : Crowd} {m : Move} {ms : List Move}

theorem IsHarmless.step (hs : s.IsHarmless rules time) (hm : m.now.millis ≤ time)
    (h : s.step? rules m = some t) : t.IsHarmless rules time := by
  obtain ⟨before, c, after, shared, stage, hcallers, -, rfl, hadvance⟩ := of_step? h
  obtain ⟨name, delta, hadds, hdelta⟩ := hs.callers c (by simp [hcallers])
  refine ⟨forall_mem_split (fun c' hc' => ?_) ?_, ?_⟩
  · exact hs.callers c' (mem_callers_of_split hcallers hc')
  · exact ⟨name, delta, hadds.advance hadvance, hdelta⟩
  · exact hadvance.isHarmless hadds hdelta hm hs.ledger

theorem IsHarmless.run (hs : s.IsHarmless rules time) (hms : ∀ m ∈ ms, m.now.millis ≤ time)
    (h : s.run? rules ms = some t) : t.IsHarmless rules time :=
  of_run? (fun m hm _ _ hu hstep => hu.step (hms m hm) hstep) h hs

end Crowd

namespace Admission

/-- The calls that reviews of workloads lead to. -/
def calls (s : Settings) (rs : List ReviewRequest) : List (Work × Bool) :=
  rs.filterMap fun r => (workOf? s r).map (·, r.dryRun)

/-- A review that is no dry run creates a pod or a claim, of some resource of which there is less
than nothing. -/
def LowersUsage (s : Settings) (r : ReviewRequest) : Prop :=
  (r.operation = .create ∧ r.dryRun = false) ∧
    (Kind.ofRequest s.objectCounts r = .ok .pod ∨ Kind.ofRequest s.objectCounts r = .ok .claim) ∧
    ∃ name delta, workOf? s r = some (.usage name delta) ∧
      name ∉ s.rules.exclusions.names ∧ ¬ delta.Nonneg

variable {s : Settings} {rs : List ReviewRequest} {r : ReviewRequest}

theorem isHarmless_start (h : s.rules.reservationTtl = 0 ∨ ∀ r ∈ rs, ¬ LowersUsage s r)
    (time : Nat) : (Crowd.start (calls s rs)).IsHarmless s.rules time where
  ledger _ _ hy := nomatch hy
  callers c hc := by
    obtain ⟨call, hcall, rfl⟩ := List.mem_map.1 hc
    obtain ⟨r, hr, hcall⟩ := List.mem_filterMap.1 hcall
    obtain ⟨work, hwork, rfl⟩ := Option.map_eq_some_iff.1 hcall
    obtain ⟨name, delta, rfl, hsign⟩ := nonneg_or_creates hwork
    refine ⟨name, delta, Stage.adds_start name delta, h.imp_right fun h hdry hname => ?_⟩
    rcases hsign with hnonneg | ⟨hcreates, hkind⟩
    · exact hnonneg
    · by_contra hnot
      exact h r hr ⟨⟨hcreates, hdry⟩, hkind, name, delta, hwork, hname, hnot⟩

/-! ### A quota of nothing lets less than nothing pass -/

variable {name : String} {delta : ResourceList} {resource : ResourceName} {added : Quantity}

def atStart : Now := ⟨0, ⟨0, 0⟩⟩

/-- One quota allows nothing of a resource, of which nothing is in use. -/
def nothingAllowed (name : String) (resource : ResourceName) : Findings where
  namespaces := [⟨name, Table.empty⟩]
  quotas := [⟨.empty, ⟨none, Table.ofList [(resource.text, "0")]⟩, none⟩]
  asked _ := atStart
  read _ := atStart
  usage _ _ := Table.empty
  otherwise _ := atStart

theorem hardLimits_nothing (resource : ResourceName) :
    WrittenAmounts.lowest (Table.ofList [(resource.text, "0")]) =
      .ok (Table.empty.insert resource 0) := by
  have hzero : readAmount resource.text "0" = .ok 0 := by
    have hparse : Quantity.parse "0" = .ok 0 := by decide +kernel
    rw [readAmount, hparse]
    rfl
  have hpairs : WrittenAmounts.pairs (Table.ofList [(resource.text, "0")]) =
      .ok [(resource, 0)] := by
    have hentries : (Table.ofList [(resource.text, "0")]).entries = [(resource.text, "0")] := rfl
    simp [WrittenAmounts.pairs, hentries, hzero, Except.map, pure, Except.pure, bind, Except.bind]
  rw [WrittenAmounts.lowest, hpairs]
  rfl

theorem eq_of_governs {rules : Rules} {q : Quota} {hard : ResourceList}
    (h : (nothingAllowed name resource).Governs rules name q hard) :
    hard = Table.empty.insert resource 0 := by
  obtain ⟨-, -, hq, -, hhard⟩ := h
  rw [List.mem_singleton.1 hq, Quota.hardLimits, hardLimits_nothing] at hhard
  exact (Except.ok.inj hhard).symm

theorem governs_nothingAllowed {rules : Rules} (hname : name ∉ rules.exclusions.names)
    (resource : ResourceName) :
    ∃ q, (nothingAllowed name resource).Governs rules name q (Table.empty.insert resource 0) := by
  refine ⟨_, ⟨name, Table.empty⟩, ?_, List.mem_singleton_self _, ?_, hardLimits_nothing resource⟩
  · simp [nothingAllowed]
  · have hlabel : (Table.empty : Labels).contains = fun _ => false := rfl
    simp [Exclusions.selects, Exclusions.excludes, hname, hlabel]

theorem hasRoom_nothingAllowed (rules : Rules) (l : Ledger)
    (hget : delta.get? resource = some added) (hless : added.nanos < 0) :
    (nothingAllowed name resource).HasRoom rules l name delta := by
  intro q hard hgoverns r more limit hmore hpos hlimit
  rw [eq_of_governs hgoverns, Table.get?_insert] at hlimit
  split at hlimit
  case isFalse => cases hlimit
  case isTrue hr =>
    rw [hr, hget] at hmore
    cases hmore
    exact absurd hpos (Int.not_lt.2 (Int.le_of_lt hless))

theorem mem_charge_nothingAllowed {rules : Rules} {a : Applicable}
    (ha : a ∈ ((nothingAllowed name resource).charge rules name delta).quotas) :
    a.resources.contains resource = true := by
  obtain ⟨hgoverns, hresources, r, hr⟩ := Findings.mem_charge_quotas_iff.1 ha
  have hsame : r = resource := by
    rw [hresources, Findings.limited, KeySet.contains_ofList, List.mem_filter,
      eq_of_governs hgoverns, Table.contains, Table.get?_insert] at hr
    by_contra hne
    simp [hne] at hr
  exact hsame ▸ hr

theorem charge_nothingAllowed_ne_nil {rules : Rules} (hname : name ∉ rules.exclusions.names)
    (hget : delta.get? resource = some added) (hless : added.nanos < 0) :
    ((nothingAllowed name resource).charge rules name delta).quotas ≠ [] := by
  obtain ⟨q, hgoverns⟩ := governs_nothingAllowed hname resource
  have hmem : ⟨q, Table.empty.insert resource 0,
      Findings.limited delta (Table.empty.insert resource 0)⟩ ∈
        ((nothingAllowed name resource).charge rules name delta).quotas := by
    refine Findings.mem_charge_quotas_iff.2 ⟨hgoverns, rfl, resource, ?_⟩
    rw [Findings.limited, KeySet.contains_ofList, List.mem_filter, Table.mem_keys_iff,
      ResourceList.contains_nonZero, ResourceList.amount_of_get? hget]
    exact ⟨Int.ne_of_lt hless, by simp [Table.contains]⟩
  exact List.ne_nil_of_mem hmem

/-- What is reserved of less than nothing is pending as such. -/
theorem pending_neg {l : Ledger} {quota : String} {y : Reservation} (h : l.under quota = [y])
    (hlive : y.isLive 0 = true) (hless : (y.usage.amount resource).nanos < 0) :
    ¬ (l.pending 0 quota (.recompute Table.empty (KeySet.ofList [resource]))
      (KeySet.ofList [resource])).1.Nonneg := by
  have hnot (s : Snapshot) (hs : s = .recompute Table.empty (KeySet.ofList [resource])) :
      y.isObserved s (KeySet.ofList [resource]) = false := by
    subst hs
    rfl
  have hasked : (KeySet.ofList [resource]).contains resource = true :=
    KeySet.contains_ofList.2 (List.mem_singleton_self _)
  intro hnonneg
  have hamount := hnonneg.amount resource
  rw [Ledger.pending, Ledger.unseen, h, List.filter_singleton, hlive, hnot _ rfl] at hamount
  simp only [Ledger.total, Bool.not_false, Bool.and_true, cond_true, List.foldl_cons,
    List.foldl_nil, ResourceList.amount_addAll, ResourceList.amount_empty, Quantity.zero_add,
    Snapshot.amount_restrict_asked hasked] at hamount
  omega

/-- A call that adds less than nothing and reserves it leaves less than nothing pending. -/
theorem exists_pending_neg {rules : Rules} (httl : rules.reservationTtl ≠ 0)
    (hname : name ∉ rules.exclusions.names) (hget : delta.get? resource = some added)
    (hless : added.nanos < 0) : ∃ shared stage quota snapshot resources,
      (nothingAllowed name resource).Leads rules false
        (⟨Table.empty, .empty⟩, (Work.usage name delta).start) (shared, stage) ∧
      ¬ (shared.ledger.pending 0 quota snapshot resources).1.Nonneg := by
  have hsome : ((nothingAllowed name resource).charge rules name delta).quotas ≠ [] :=
    charge_nothingAllowed_ne_nil hname hget hless
  have hnames : ((nothingAllowed name resource).quotas.map (·.name)).Nodup :=
    List.nodup_singleton _
  have hroom : (nothingAllowed name resource).HasRoom rules Table.empty name delta :=
    hasRoom_nothingAllowed rules Table.empty hget hless
  obtain ⟨shared, held, checked, hquotas, hledger, hleads⟩ :=
    @Findings.leads_reserving_of_hasRoom (nothingAllowed name resource) rules name delta
      ⟨Table.empty, .empty⟩ hnames Locks.sound_empty rfl hroom hsome
  cases checked with
  | nil => exact absurd hquotas.symm hsome
  | cons entry rest =>
    obtain ⟨a, observed⟩ := entry
    have hmem : a ∈ ((nothingAllowed name resource).charge rules name delta).quotas := by
      rw [← hquotas]
      exact List.mem_cons_self ..
    have hasked := mem_charge_nothingAllowed hmem
    have hamount : ((delta.nonZero.restrict a.resources.toList).amount resource).nanos < 0 := by
      rw [Snapshot.amount_restrict_asked hasked, ResourceList.amount_nonZero,
        ResourceList.amount_of_get? hget]
      exact hless
    have hnext : (nothingAllowed name resource).next? rules false (shared, .reserving
        ((nothingAllowed name resource).charge rules name delta) held ((a, observed) :: rest)) =
          some (⟨shared.ledger.reserve 0 ⟨0, 0⟩ rules.reservationTtl a.name name
            (delta.nonZero.restrict a.resources.toList) observed, shared.locks⟩, .reserving
              ((nothingAllowed name resource).charge rules name delta) held rest) := rfl
    obtain ⟨y, hunder, husage, hexpires⟩ := Ledger.exists_under_reserve
      (List.eq_nil_of_subset_nil (hledger a.name)) (ResourceList.isEmpty_of_amount_ne hamount.ne)
      0 ⟨0, 0⟩ rules.reservationTtl name observed
    refine ⟨_, _, a.name, _, _, hleads.tail hnext, pending_neg hunder ?_ (husage ▸ hamount)⟩
    rw [Reservation.isLive, hexpires, Nat.zero_add]
    exact decide_eq_true (Nat.pos_of_ne_zero httl)

theorem mem_calls {work : Work} (hr : r ∈ rs) (hdry : r.dryRun = false)
    (hwork : workOf? s r = some work) : (work, false) ∈ calls s rs :=
  List.mem_filterMap.2 ⟨r, hr, by rw [hwork, hdry]; rfl⟩

theorem exists_run_pending_neg {rules : Rules} {works : List (Work × Bool)}
    (httl : rules.reservationTtl ≠ 0) (hwork : (.usage name delta, false) ∈ works)
    (hname : name ∉ rules.exclusions.names) (hneg : ¬ delta.Nonneg) :
    ∃ ms t, (Crowd.start works).run? rules ms = some t ∧ (∀ m ∈ ms, m.now.millis ≤ 0) ∧
      ∃ quota snapshot resources,
        ¬ (t.shared.ledger.pending 0 quota snapshot resources).1.Nonneg := by
  simp only [ResourceList.Nonneg, not_forall] at hneg
  obtain ⟨added, hadded, hless⟩ := hneg
  obtain ⟨resource, hget⟩ := (Table.mem_values_iff delta).1 hadded
  obtain ⟨shared, stage, quota, snapshot, resources, hleads, hpending⟩ :=
    exists_pending_neg httl hname hget (Int.not_le.1 hless)
  obtain ⟨place, hplace⟩ := List.mem_iff_getElem?.1 hwork
  have hcaller : (Crowd.start works).callers[place]? =
      some ⟨.usage name delta, false, (Work.usage name delta).start⟩ := by
    simp [Crowd.start, hplace]
  obtain ⟨ms, t, hrun, rfl, hnow⟩ := Findings.exists_run?_of_leads hleads hcaller rfl rfl rfl
  refine ⟨ms, t, hrun, fun m hm => ?_, quota, snapshot, resources, hpending⟩
  obtain ⟨stage, hstage⟩ := hnow m hm
  have hstart : (nothingAllowed name resource).now stage = atStart := by
    simp only [Findings.now]
    split <;> rfl
  rw [hstage, hstart]
  exact Nat.le_refl 0

/-- Whatever workloads are reviewed, what is pending never lowers the usage of a quota, exactly if
no review lowers usage or what is reserved expires at once. -/
theorem pending_nonneg_iff (s : Settings) (rs : List ReviewRequest) :
    (∀ ms t, (Crowd.start (calls s rs)).run? s.rules ms = some t →
      ∀ now, (∀ m ∈ ms, m.now.millis ≤ now) → ∀ quota snapshot resources,
        (t.shared.ledger.pending now quota snapshot resources).1.Nonneg) ↔
      s.rules.reservationTtl = 0 ∨ ∀ r ∈ rs, ¬ LowersUsage s r := by
  constructor
  · intro h
    by_contra hnot
    rw [not_or] at hnot
    obtain ⟨httl, hlowers⟩ := hnot
    push Not at hlowers
    obtain ⟨r, hr, ⟨-, hdry⟩, -, name, delta, hwork, hname, hneg⟩ := hlowers
    obtain ⟨ms, t, hrun, hclock, quota, snapshot, resources, hpending⟩ :=
      exists_run_pending_neg httl (mem_calls hr hdry hwork) hname hneg
    exact hpending (h ms t hrun 0 hclock quota snapshot resources)
  · intro h ms t hrun now hclock quota snapshot resources
    have hharmless := (isHarmless_start h now).run hclock hrun
    exact Ledger.nonneg_pending (hharmless.ledger quota) snapshot resources

/-! A pod is created that requests less than no processor time. -/

private def owingPod : ReviewRequest where
  uid := "1"
  kind := ⟨"", "v1", "Pod"⟩
  resource := ⟨"", "v1", "pods"⟩
  subResource := none
  name := "p1"
  namespaceName := some "ns"
  operation := .create
  dryRun := false
  object := some ⟨some ("v1", "Pod"), .empty, [("spec", .object [("containers", .array [
    .object [("name", .string "main"),
      ("resources", .object [("requests", .object [("cpu", .string "-5")])])]])])]⟩
  oldObject := none

private def usualSettings : Settings := ({} : Options).settings "controller"

private def fourCores : Quota :=
  ⟨⟨some "team", none, none, none, none, []⟩,
    ⟨none, Table.ofList [("cpu", "4"), ("pods", "10")]⟩, none⟩

private def untilReserved : List Move :=
  ⟨0, atStart, .listed [⟨"ns", Table.empty⟩] [fourCores]⟩ ::
    (List.replicate 4 ⟨0, atStart, .proceed⟩ ++
      ⟨0, atStart, .measured (Table.ofList [("ns", Table.empty)])⟩ ::
        List.replicate 2 ⟨0, atStart, .proceed⟩)

/-- What is pending while nothing in the namespace is in use. -/
private def pendingUnseen (t : Crowd) : ResourceList :=
  let resources := KeySet.ofList [.ofText "cpu", ResourceName.pods]
  (t.shared.ledger.pending atStart.millis "team"
    (.recompute (Table.ofList [("ns", Table.empty)]) resources) resources).1

/-- Until the pod is seen, its quota counts five cores less than are in use. -/
theorem pending_of_owingPod :
    ∃ t, (Crowd.start (calls usualSettings [owingPod])).run? usualSettings.rules untilReserved =
      some t ∧ pendingUnseen t = .ofPairs [(.ofText "cpu", .ofUnits (-5)), (.pods, .one)] ∧
      ¬ (pendingUnseen t).Nonneg := by
  have hrun : ((Crowd.start (calls usualSettings [owingPod])).run? usualSettings.rules
      untilReserved).any (fun t =>
        pendingUnseen t = .ofPairs [(.ofText "cpu", .ofUnits (-5)), (.pods, .one)]) = true := by
    decide +kernel
  obtain ⟨t, ht, hpending⟩ := (Option.any_eq_true _ _).1 hrun
  have hpending := of_decide_eq_true hpending
  refine ⟨t, ht, hpending, ?_⟩
  rw [hpending]
  decide +kernel

end Admission

end SharedQuota
