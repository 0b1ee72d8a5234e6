import SharedQuota.Proofs.Decision
import SharedQuota.Proofs.Engine.Applicable
import SharedQuota.Proofs.Engine.Path
import SharedQuota.Proofs.Scope

/-!
Namespaces that come to count for a quota by a change of their labels. Main statement
(`isChecked_iff`): unless nothing is limited, it is exactly where the status of the quota does not
record the namespace yet that the change is allowed only if the quota has room for what the
namespace uses. A namespace that was excluded may be recorded without counting, and then brings its
usage unseen.
-/

namespace SharedQuota

open Engine (reading?)

/-- A listing once it shows a namespace as changed. -/
def Namespace.shownIn (new : Namespace) (listing : List Namespace) : List Namespace :=
  listing.map fun ns => if ns.name = new.name then new else ns

/-- By a change of a namespace that is listed as it was, it comes to count for a quota. -/
structure Joins (x : Exclusions) (q : Quota) (listing : List Namespace) (old new : Namespace) :
    Prop where
  same_name : old.name = new.name
  listed : old ∈ listing
  only : ∀ ns ∈ listing, ns.name = new.name → ns = old
  outside : ¬ (Scope.resolve x q listing).aggregated.contains new.name = true
  inside : (Scope.resolve x q (new.shownIn listing)).aggregated.contains new.name = true

namespace Moment

/-- What a call is told of the usage that a namespace brings is what the namespace uses. -/
def Tells (name : String) (live : ResourceList) (t : Moment) : Prop :=
  ∀ listing joined resources usage, t.stage = .joining name listing joined resources →
    t.answer = .measured usage → ∀ r, resources.contains r = true →
      ((usage.get? name).getD Table.empty).amount r = live.amount r

/-- The usage of a quota is read for a listing. Together with what is pending, it leaves room. -/
def HasRoom (rules : Rules) (listing : List Namespace) (q : Quota) (r : ResourceName)
    (added limit : Quantity) (t : Moment) : Prop :=
  ∃ rd, reading? rules t.now t.stage t.answer = some rd ∧ rd.charge.listing = listing ∧
    rd.quota.quota = q ∧ rd.quota.resources.contains r = true ∧
      rd.snapshot.total.amount r +
        (t.ledger.pending t.now.millis q.name rd.snapshot rd.quota.resources).1.amount r +
          added ≤ limit

variable {rules : Rules} {c : Charge} {a : Applicable} {t : Moment} {r : ResourceName}
  {added limit : Quantity}

theorem Clears.hasRoom (h : t.Clears rules c a) {q : Quota}
    (ha : Applicable.of? c.delta q = some a) (hadded : c.delta.get? r = some added)
    (hpos : 0 < added) (hlimit : a.hard.get? r = some limit) :
    t.HasRoom rules c.listing q r added limit := by
  obtain ⟨rd, hrd, rfl, rfl, hnone⟩ := h
  obtain ⟨rfl, -, hresources⟩ := Applicable.of_of? ha
  have hle := (Exceeded.check?_eq_none_iff ..).1 hnone r added hadded hpos limit hlimit
  rw [ResourceList.amount_addAll] at hle
  exact ⟨rd, hrd, rfl, rfl, (hresources r).2 ⟨(Table.contains_iff _).2 ⟨added, hadded⟩,
    (Table.contains_iff _).2 ⟨limit, hlimit⟩⟩, hle⟩

end Moment

/-! ### The quotas that are joined -/

namespace Engine

variable {x : Exclusions} {q : Quota} {listing : List Namespace} {old new : Namespace}
  {quotas : List Quota} {hard : ResourceList} {r : ResourceName}

/-- Of the quotas that a namespace comes to count for, those are joined whose status does not record
it. -/
theorem joins_eq_true_iff (h : Joins x q listing old new) :
    joins x old new q = true ↔ new.name ∉ q.tracked := by
  have hout : ¬ x.selects q.spec.selector old = true := fun hs =>
    h.outside (Scope.contains_aggregated_iff.2 ⟨old, h.listed, h.same_name, .inl hs⟩)
  have hin : x.selects q.spec.selector new = true ∨ new.name ∈ q.tracked := by
    obtain ⟨ns, hns, hsame, hcounts⟩ := Scope.contains_aggregated_iff.1 h.inside
    obtain ⟨ns', -, rfl⟩ := List.mem_map.1 hns
    split at hcounts
    case isTrue => exact hcounts.imp_right And.left
    case isFalse hother => exact absurd hsame (by rwa [if_neg hother])
  simp only [joins, Bool.and_eq_true, Bool.not_eq_true', List.contains_eq_mem,
    decide_eq_false_iff_not, Bool.not_eq_true _ ▸ hout]
  tauto

theorem contains_limited (hq : q ∈ quotas) (hhard : q.hardLimits = .ok hard)
    (hr : hard.contains r = true) : (limited quotas).contains r = true := by
  rw [limited, KeySet.contains_ofList, List.mem_flatMap]
  exact ⟨q, hq, by rw [hhard]; exact (Table.mem_keys_iff hard).2 hr⟩

theorem relabel_of_joins (hq : q ∈ quotas) (hjoins : joins x old new q = true) :
    relabel x old new listing quotas = .joining new.name listing (quotas.filter (joins x old new))
      (limited (quotas.filter (joins x old new))) := by
  have hsome : ¬ (quotas.filter (joins x old new)).isEmpty = true := fun hempty =>
    List.filter_eq_nil_iff.1 (List.isEmpty_iff.1 hempty) q hq hjoins
  exact if_neg hsome

end Engine

theorem Charge.faces_start {name : String} {delta : ResourceList} {listing : List Namespace}
    {quotas : List Quota} {q : Quota} {a : Applicable} (hq : q ∈ quotas)
    (ha : Applicable.of? delta q = some a) : (Charge.start name delta listing quotas).Faces
      ⟨name, delta, listing, Applicable.sorted delta quotas⟩ a := by
  have hmem : a ∈ Applicable.sorted delta quotas := Applicable.mem_sorted_iff.2 ⟨q, hq, ha⟩
  have hsome : ¬ (Applicable.sorted delta quotas).isEmpty = true := fun hempty => by
    rw [List.isEmpty_iff.1 hempty] at hmem
    cases hmem
  rw [Charge.start, if_neg hsome]
  exact ⟨rfl, hmem⟩

/-! ### The way of the call -/

namespace Path

variable {rules : Rules} {dryRun : Bool} {moments : List Moment} {old new : Namespace}
  {listing : List Namespace} {quotas joined : List Quota} {name : String}
  {resources : KeySet ResourceName}

/-- A change that is allowed has been told the namespaces and the quotas. -/
theorem of_relabelling
    (h : Path rules dryRun (.relabelling old new) moments (.finished (.ok ())))
    (hfirst : moments.head?.map (·.answer) = some (.listed listing quotas)) :
    ∃ t rest, moments = t :: rest ∧
      Path rules dryRun (Engine.relabel rules.exclusions old new listing quotas) rest
        (.finished (.ok ())) := by
  cases h with
  | cons step rest =>
    cases step with
    | fail => cases hfirst
    | relist =>
      cases hfirst
      exact ⟨_, _, rfl, rest⟩
    | deny hr | clear hr =>
      rcases Engine.stage_of_reading? hr with hstage | ⟨since, hstage⟩ <;> cases hstage

/-- A change by which quotas are joined is allowed only after the usage was measured. -/
theorem of_joining
    (h : Path rules dryRun (.joining name listing joined resources) moments (.finished (.ok ()))) :
    ∃ t rest usage, moments = t :: rest ∧ t.stage = .joining name listing joined resources ∧
      t.answer = .measured usage ∧
        Path rules dryRun (Charge.start name ((usage.get? name).getD Table.empty) listing joined)
          rest (.finished (.ok ())) := by
  cases h with
  | cons step rest =>
    cases step with
    | fail => exact absurd trivial rest.not_hasFailed
    | join => exact ⟨_, _, _, rfl, rfl, rfl, rest⟩
    | deny hr | clear hr =>
      rcases Engine.stage_of_reading? hr with hstage | ⟨since, hstage⟩ <;> cases hstage

/-- A change by which a quota is joined is allowed only where there is room in it for what the
namespace uses. -/
theorem exists_hasRoom {q : Quota} {hard live : ResourceList} {r : ResourceName} {limit : Quantity}
    (h : Path rules dryRun (.relabelling old new) moments (.finished (.ok ())))
    (hfirst : moments.head?.map (·.answer) = some (.listed listing quotas)) (hq : q ∈ quotas)
    (hjoins : Engine.joins rules.exclusions old new q = true)
    (htells : ∀ t ∈ moments, t.Tells new.name live) (hhard : q.hardLimits = .ok hard)
    (hlimit : hard.get? r = some limit) (hpos : 0 < live.amount r) :
    ∃ t ∈ moments, t.HasRoom rules listing q r (live.amount r) limit := by
  obtain ⟨first, afterFirst, rfl, hpath⟩ := h.of_relabelling hfirst
  rw [Engine.relabel_of_joins hq hjoins] at hpath
  obtain ⟨t, rest, usage, rfl, hstage, hanswer, hpath⟩ := hpath.of_joining
  have hjoined : q ∈ quotas.filter (Engine.joins rules.exclusions old new) :=
    List.mem_filter.2 ⟨hq, hjoins⟩
  have hr : hard.contains r = true := (Table.contains_iff hard).2 ⟨limit, hlimit⟩
  -- what was measured is the usage of the namespace, so the charge has all of the resource
  set delta : ResourceList := (usage.get? new.name).getD Table.empty
  have hsame : delta.amount r = live.amount r :=
    htells t (List.mem_cons_of_mem _ (List.mem_cons_self ..)) _ _ _ _ hstage hanswer r
      (Engine.contains_limited hjoined hhard hr)
  have hadded : delta.get? r = some (live.amount r) := by
    cases hget : delta.get? r with
    | none =>
      rw [← hsame, ResourceList.amount, hget] at hpos
      cases hpos
    | some added => rw [← hsame, ResourceList.amount_of_get? hget]
  obtain ⟨a, ha⟩ := Applicable.exists_of? hhard hr ((Table.contains_iff delta).2 ⟨_, hadded⟩)
  obtain rfl : a.hard = hard := Except.ok.inj ((Applicable.of_of? ha).2.1.symm.trans hhard)
  obtain ⟨moment, hmoment, hclears⟩ := hpath.exists_clears (Charge.faces_start hjoined ha)
  exact ⟨moment, List.mem_cons_of_mem _ (List.mem_cons_of_mem _ hmoment),
    hclears.hasRoom ha hadded hpos hlimit⟩

end Path

namespace Crowd

/-- However calls interleave, and whatever a namespace uses: a change of it, by a call that is told
the listing and a quota, is allowed only if the quota was found to have room for each resource that
it limits and the namespace uses. -/
def IsChecked (rules : Rules) (listing : List Namespace) (old new : Namespace) (q : Quota)
    (hard : ResourceList) : Prop :=
  ∀ works ms t place dryRun quotas live, works[place]? = some (.relabel old new, dryRun) →
    (start works).run? rules ms = some t →
    t.callers[place]?.map (·.stage) = some (.finished (.ok ())) →
    (moments rules place (start works) ms).head?.map (·.answer) = some (.listed listing quotas) →
    q ∈ quotas → (∀ moment ∈ moments rules place (start works) ms, moment.Tells new.name live) →
    ∀ r limit, hard.get? r = some limit → 0 < live.amount r →
      ∃ moment ∈ moments rules place (start works) ms,
        moment.HasRoom rules listing q r (live.amount r) limit

variable {rules : Rules} {listing : List Namespace} {old new : Namespace} {q : Quota}
  {hard : ResourceList}

theorem isChecked_of_joins (hhard : q.hardLimits = .ok hard)
    (hjoins : Engine.joins rules.exclusions old new q = true) :
    IsChecked rules listing old new q hard := by
  intro works ms t place dryRun quotas live hwork hrun hend hfirst hq htells r limit hlimit hpos
  have hc : (start works).callers[place]? =
      some ⟨.relabel old new, dryRun, .relabelling old new⟩ := by
    simp [start, hwork, Work.start]
  obtain ⟨stage, hct, hpath⟩ := exists_path hrun hc
  rw [hct] at hend
  obtain rfl : stage = .finished (.ok ()) := Option.some.inj hend
  exact hpath.exists_hasRoom hfirst hq hjoins htells hhard hlimit hpos

private def noTimeYet : Now := ⟨0, ⟨0, 0⟩⟩

/-- A call is told the listing and the quota. -/
private def toldOnce (listing : List Namespace) (q : Quota) : List Move :=
  [⟨0, noTimeYet, .listed listing [q]⟩]

private theorem moments_toldOnce :
    moments rules 0 (start [(.relabel old new, false)]) (toldOnce listing q) =
      [⟨noTimeYet, Table.empty, .relabelling old new, .listed listing [q]⟩] := by
  simp [moments, toldOnce, start, Work.start, step?, Engine.step]

private theorem run?_toldOnce (hjoins : ¬ Engine.joins rules.exclusions old new q = true) :
    (start [(.relabel old new, false)]).run? rules (toldOnce listing q) =
      some ⟨⟨Table.empty, .empty⟩, [⟨.relabel old new, false, .finished (.ok ())⟩]⟩ := by
  have hnone : Engine.relabel rules.exclusions old new listing [q] = .finished (.ok ()) := by
    simp [Engine.relabel, hjoins]
  simp [run?, toldOnce, start, Work.start, step?, Engine.step, hnone]

/-- A change by which no quota is joined is allowed at once, before any usage is read. -/
theorem not_isChecked (hjoins : ¬ Engine.joins rules.exclusions old new q = true)
    {r : ResourceName} {limit : Quantity} (hlimit : hard.get? r = some limit) :
    ¬ IsChecked rules listing old new q hard := by
  intro h
  have hfirst : (moments rules 0 (start [(.relabel old new, false)])
      (toldOnce listing q)).head?.map (·.answer) = some (.listed listing [q]) := by
    rw [moments_toldOnce]
    rfl
  have htells : ∀ moment ∈ moments rules 0 (start [(.relabel old new, false)])
      (toldOnce listing q), moment.Tells new.name (.ofPairs [(r, .one)]) := by
    rw [moments_toldOnce]
    intro moment hmoment listing' joined resources usage hstage
    rw [List.mem_singleton.1 hmoment] at hstage
    cases hstage
  have hpos : 0 < (ResourceList.ofPairs [(r, .one)]).amount r := by
    rw [ResourceList.ofPairs, ResourceList.amount_foldl_add]
    simp only [decide_true, List.filter_cons_of_pos, List.filter_nil]
    exact (by decide : (0 : Quantity) < 0 + .one)
  obtain ⟨moment, hmoment, rd, hrd, -⟩ := h _ _ _ 0 false [q] _ rfl (run?_toldOnce hjoins) rfl
    hfirst (List.mem_singleton_self q) htells r limit hlimit hpos
  rw [moments_toldOnce, List.mem_singleton] at hmoment
  subst hmoment
  cases hrd

/-- Where a namespace comes to count for a quota, the change is checked exactly if the status of the
quota does not record the namespace, or nothing is limited. -/
theorem isChecked_iff (hhard : q.hardLimits = .ok hard)
    (h : Joins rules.exclusions q listing old new) :
    IsChecked rules listing old new q hard ↔ new.name ∉ q.tracked ∨ hard.isEmpty = true := by
  rw [← Engine.joins_eq_true_iff h]
  constructor
  · intro hchecked
    by_contra hnot
    obtain ⟨hjoins, hsome⟩ := not_or.1 hnot
    obtain ⟨r, limit, hlimit⟩ := Table.exists_get? hsome
    exact not_isChecked hjoins hlimit hchecked
  · rintro (hjoins | hempty)
    · exact isChecked_of_joins hhard hjoins
    · intro works ms t place dryRun quotas live _ _ _ _ _ _ r limit hlimit
      rw [Table.get?_of_isEmpty hempty] at hlimit
      cases hlimit

/-! Two namespaces of a team and a limit of four pods. One of them is labelled for the team only by
the change. Or it was labelled before and excluded by a label, which the change takes away; then the
status of the quota may record it. -/

private def teamLabel : Labels := Table.ofList [("team", "a")]

private def teamAndExcluded : Labels := Table.ofList [("excluded", ""), ("team", "a")]

private def teamRules : Rules := ⟨⟨some "excluded", []⟩, 15000, 30000⟩

private def fourPods (status : Option QuotaStatus) : Quota :=
  ⟨⟨some "team", none, none, none, none, []⟩,
    ⟨some ⟨some teamLabel, none⟩, Table.ofList [("pods", "4")]⟩, status⟩

private theorem hardLimits_fourPods (status : Option QuotaStatus) :
    (fourPods status).hardLimits = .ok (.ofPairs [(.pods, .ofUnits 4)]) := by
  change WrittenAmounts.lowest (Table.ofList [("pods", "4")]) = _
  decide +kernel

private def bothRecorded : QuotaStatus :=
  ⟨⟨Table.empty, Table.empty⟩, [⟨"one", Table.empty⟩, ⟨"two", Table.empty⟩], none⟩

theorem isChecked_of_label :
    Joins teamRules.exclusions (fourPods none) [⟨"one", teamLabel⟩, ⟨"two", Table.empty⟩]
      ⟨"two", Table.empty⟩ ⟨"two", teamLabel⟩ ∧
    IsChecked teamRules [⟨"one", teamLabel⟩, ⟨"two", Table.empty⟩]
      ⟨"two", Table.empty⟩ ⟨"two", teamLabel⟩ (fourPods none) (.ofPairs [(.pods, .ofUnits 4)]) := by
  have hjoins : Joins teamRules.exclusions (fourPods none)
      [⟨"one", teamLabel⟩, ⟨"two", Table.empty⟩] ⟨"two", Table.empty⟩ ⟨"two", teamLabel⟩ :=
    ⟨rfl, by decide +kernel, by decide +kernel, by decide +kernel, by decide +kernel⟩
  exact ⟨hjoins, (isChecked_iff (hardLimits_fourPods none) hjoins).2 (.inl (by decide +kernel))⟩

theorem not_isChecked_of_recorded :
    (fourPods bothRecorded).hardLimits = .ok (.ofPairs [(.pods, .ofUnits 4)]) ∧
    Joins teamRules.exclusions (fourPods bothRecorded)
      [⟨"one", teamLabel⟩, ⟨"two", teamAndExcluded⟩] ⟨"two", teamAndExcluded⟩ ⟨"two", teamLabel⟩ ∧
    ¬ IsChecked teamRules [⟨"one", teamLabel⟩, ⟨"two", teamAndExcluded⟩]
      ⟨"two", teamAndExcluded⟩ ⟨"two", teamLabel⟩ (fourPods bothRecorded)
      (.ofPairs [(.pods, .ofUnits 4)]) := by
  have hlimit : (ResourceList.ofPairs [(.pods, .ofUnits 4)]).get? .pods = some (.ofUnits 4) := by
    decide +kernel
  exact ⟨hardLimits_fourPods _,
    ⟨rfl, by decide +kernel, by decide +kernel, by decide +kernel, by decide +kernel⟩,
    not_isChecked (by decide +kernel) hlimit⟩

end Crowd

end SharedQuota
