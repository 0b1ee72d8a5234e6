import SharedQuota.Proofs.Engine.Applicable
import SharedQuota.Proofs.Scope

/-!
Calls that find the same namespaces and quotas in another order. They go through stages that differ
in nothing but the order of a listing (`step_alike`), and so no order is decisive. Some namespaces
may be hidden, if they are excluded wherever they are listed. Then no stage asks for their usage
(`Stage.Alike.not_hidden`).
-/

namespace SharedQuota

/-! ### Listings -/

/-- One listing is the other, or in another order what has no name twice. -/
structure Relisted {α : Type} (name : α → String) (l l' : List α) : Prop where
  perm : l.Perm l'
  named : l = l' ∨ (l.map name).Nodup

namespace Relisted

variable {α : Type} {name : α → String} {l l' : List α}

theorem refl (name : α → String) (l : List α) : Relisted name l l := ⟨.refl l, .inl rfl⟩

theorem filter (h : Relisted name l l') (p : α → Bool) :
    Relisted name (l.filter p) (l'.filter p) where
  perm := h.perm.filter p
  named := h.named.imp (congrArg (List.filter p)) fun hnodup =>
    hnodup.sublist (List.filter_sublist.map name)

theorem find?_name_eq_some_iff (hnodup : (l.map name).Nodup) {n : String} {a : α} :
    l.find? (fun a => name a == n) = some a ↔ a ∈ l ∧ name a = n := by
  have hname {b : α} (hb : l.find? (fun a => name a == n) = some b) : name b = n := by
    simpa using List.find?_some hb
  constructor
  · exact fun h => ⟨List.mem_of_find?_eq_some h, hname h⟩
  · rintro ⟨hmem, rfl⟩
    have hsome : (l.find? fun b => name b == name a).isSome :=
      List.find?_isSome.2 ⟨a, hmem, beq_self_eq_true _⟩
    obtain ⟨b, hb⟩ := Option.isSome_iff_exists.1 hsome
    rw [hb, List.inj_on_of_nodup_map hnodup (List.mem_of_find?_eq_some hb) hmem (hname hb)]

theorem find?_eq (h : Relisted name l l') (n : String) :
    l'.find? (fun a => name a == n) = l.find? (fun a => name a == n) := by
  rcases h.named with rfl | hnodup
  · rfl
  · have hnodup' : (l'.map name).Nodup := (h.perm.map name).nodup_iff.1 hnodup
    refine Option.ext fun a => ?_
    rw [find?_name_eq_some_iff hnodup, find?_name_eq_some_iff hnodup', h.perm.mem_iff]

end Relisted

theorem Scope.resolve_eq_of_perm {l l' : List Namespace} (h : l.Perm l') (x : Exclusions)
    (q : Quota) : resolve x q l' = resolve x q l := by
  have hselected : KeySet.ofList ((l'.filter (x.selects q.spec.selector)).map (·.name)) =
      KeySet.ofList ((l.filter (x.selects q.spec.selector)).map (·.name)) := by
    refine KeySet.ext_contains fun name => ?_
    rw [KeySet.contains_ofList, KeySet.contains_ofList, ((h.filter _).map _).mem_iff]
  simp only [resolve, hselected, Scope.mk.injEq, true_and]
  refine KeySet.ext_contains fun name => ?_
  rw [KeySet.contains_ofList, KeySet.contains_ofList, ((h.filter _).map _).mem_iff]

theorem Applicable.sorted_eq_of_relisted {quotas quotas' : List Quota}
    (h : Relisted Quota.name quotas quotas') (delta : ResourceList) :
    sorted delta quotas' = sorted delta quotas := by
  rcases h.named with rfl | hnodup
  · rfl
  · have hnodup' : (quotas'.map Quota.name).Nodup := (h.perm.map Quota.name).nodup_iff.1 hnodup
    have hperm : (sorted delta quotas').Perm (sorted delta quotas) :=
      (sorted_perm delta quotas').trans
        ((h.perm.symm.filterMap _).trans (sorted_perm delta quotas).symm)
    refine hperm.eq_of_pairwise (fun a b _ _ hab hba => ?_) (pairwise_sorted hnodup')
      (pairwise_sorted hnodup)
    have hself := Std.TransCmp.lt_trans hab hba
    simp at hself

theorem Engine.limited_eq_of_perm {quotas quotas' : List Quota} (h : quotas.Perm quotas') :
    limited quotas' = limited quotas := by
  refine KeySet.ext_contains fun r => ?_
  rw [limited, limited, KeySet.contains_ofList, KeySet.contains_ofList,
    (h.flatMap_right _).mem_iff]

/-! ### Stages -/

section

variable (x : Exclusions) (hidden : String → Prop)

/-- Two listings of the namespaces, in which those that are hidden are excluded. -/
structure Sees (l l' : List Namespace) : Prop where
  relisted : Relisted Namespace.name l l'
  excludes : ∀ ns ∈ l, hidden ns.name → x.excludes ns = true

structure Charge.Alike (c c' : Charge) : Prop where
  name : c'.name = c.name
  delta : c'.delta = c.delta
  listing : Sees x hidden c.listing c'.listing
  quotas : c'.quotas = c.quotas

/-- Stages that differ in the order of a listing at most, and ask for the usage of no namespace that
is hidden. -/
inductive Stage.Alike : Stage → Stage → Prop
  | listing {name delta} : Alike (.listing name delta) (.listing name delta)
  | relabelling {old new} (hnew : ¬ hidden new.name) :
    Alike (.relabelling old new) (.relabelling old new)
  | surveying {proposed limits} : Alike (.surveying proposed limits) (.surveying proposed limits)
  | comparing {names limits} (hnames : ∀ n ∈ names, ¬ hidden n) :
    Alike (.comparing names limits) (.comparing names limits)
  | joining {name listing listing' joined joined' resources} (hname : ¬ hidden name)
      (hlisting : Sees x hidden listing listing') (hjoined : Relisted Quota.name joined joined') :
    Alike (.joining name listing joined resources) (.joining name listing' joined' resources)
  | locking {c c' held next} (hcharge : Charge.Alike x hidden c c') :
    Alike (.locking c held next) (.locking c' held next)
  | waiting {c c' held handle a next} (hcharge : Charge.Alike x hidden c c') :
    Alike (.waiting c held handle a next) (.waiting c' held handle a next)
  | checking {c c' held checked next} (hcharge : Charge.Alike x hidden c c') :
    Alike (.checking c held checked next) (.checking c' held checked next)
  | reading {c c' held checked a since next} (hcharge : Charge.Alike x hidden c c') :
    Alike (.reading c held checked a since next) (.reading c' held checked a since next)
  | reserving {c c' held next} (hcharge : Charge.Alike x hidden c c') :
    Alike (.reserving c held next) (.reserving c' held next)
  | releasing {held result} : Alike (.releasing held result) (.releasing held result)
  | finished {result} : Alike (.finished result) (.finished result)

inductive Answer.Alike : Answer → Answer → Prop
  | proceed : Alike .proceed .proceed
  | listed {namespaces namespaces' quotas quotas'}
      (hnamespaces : Sees x hidden namespaces namespaces')
      (hquotas : Relisted Quota.name quotas quotas') :
    Alike (.listed namespaces quotas) (.listed namespaces' quotas')
  | surveyed {namespaces namespaces'} (hnamespaces : Sees x hidden namespaces namespaces') :
    Alike (.surveyed namespaces) (.surveyed namespaces')
  | measured {usage} : Alike (.measured usage) (.measured usage)
  | failed {denial} : Alike (.failed denial) (.failed denial)

end

variable {x : Exclusions} {hidden : String → Prop}

/-- No namespace counts for a quota that is hidden. -/
theorem Sees.not_hidden {l l' : List Namespace} (h : Sees x hidden l l') (q : Quota) :
    ∀ n ∈ (Scope.resolve x q l).aggregated.toList, ¬ hidden n := by
  intro n hn hhidden
  obtain ⟨ns, hns, rfl, hcounts⟩ :=
    Scope.contains_aggregated_iff.1 ((KeySet.mem_toList_iff _).1 hn)
  have hexcludes := h.excludes ns hns hhidden
  rcases hcounts with hselects | ⟨-, hnot⟩
  · rw [Exclusions.selects, hexcludes] at hselects
    cases hselects
  · rw [hexcludes] at hnot
    cases hnot

namespace Engine

variable {name : String} {delta : ResourceList} {listing listing' : List Namespace}
  {quotas quotas' : List Quota}

theorem start_alike (hlisting : Sees x hidden listing listing')
    (hquotas : Relisted Quota.name quotas quotas') :
    Stage.Alike x hidden (Charge.start name delta listing quotas)
      (Charge.start name delta listing' quotas') := by
  rw [Charge.start, Charge.start, Applicable.sorted_eq_of_relisted hquotas]
  split
  case isTrue => exact .finished
  case isFalse => exact .locking ⟨rfl, rfl, hlisting, rfl⟩

theorem charge_alike (hlisting : Sees x hidden listing listing')
    (hquotas : Relisted Quota.name quotas quotas') :
    Stage.Alike x hidden (charge x name delta listing quotas)
      (charge x name delta listing' quotas') := by
  rw [charge, charge, hlisting.relisted.find?_eq]
  cases listing.find? (·.name == name) with
  | none => exact .finished
  | some ns => exact start_alike hlisting (hquotas.filter _)

theorem relabel_alike {old new : Namespace} (hnew : ¬ hidden new.name)
    (hlisting : Sees x hidden listing listing') (hquotas : Relisted Quota.name quotas quotas') :
    Stage.Alike x hidden (relabel x old new listing quotas)
      (relabel x old new listing' quotas') := by
  have hjoined := hquotas.filter (joins x old new)
  simp only [relabel, limited_eq_of_perm hjoined.perm, hjoined.perm.isEmpty_eq]
  split
  case isTrue => exact .finished
  case isFalse => exact .joining hnew hlisting hjoined

/-- Two steps that leave the same behind, and stages that are alike. -/
inductive StepAlike (x : Exclusions) (hidden : String → Prop) (dryRun : Bool) :
    Option (Shared × Call × List Observation) → Option (Shared × Call × List Observation) → Prop
  | stops : StepAlike x hidden dryRun none none
  | goesOn {shared stage stage' reports} (hstage : Stage.Alike x hidden stage stage') :
    StepAlike x hidden dryRun (some (shared, ⟨dryRun, stage⟩, reports))
      (some (shared, ⟨dryRun, stage'⟩, reports))

variable {rules : Rules} {now : Now} {shared : Shared} {dryRun : Bool} {stage stage' : Stage}
  {answer answer' : Answer}

theorem decide_alike {c c' : Charge} (h : Charge.Alike x hidden c c') (held : List Nat)
    (checked : List (Applicable × ResourceList)) (a : Applicable) (next : List Applicable)
    (since : Nat) (s : Snapshot) :
    StepAlike x hidden dryRun
      (some (decide now shared ⟨dryRun, stage⟩ c held checked a next since s))
      (some (decide now shared ⟨dryRun, stage'⟩ c' held checked a next since s)) := by
  simp only [decide, check, h.delta, h.name]
  refine .goesOn ?_
  split
  case h_1 => exact .releasing
  case h_2 => exact .checking h

theorem step_alike (h : Stage.Alike rules.exclusions hidden stage stage')
    (hanswer : Answer.Alike rules.exclusions hidden answer answer') :
    StepAlike rules.exclusions hidden dryRun (step rules now shared ⟨dryRun, stage⟩ answer)
      (step rules now shared ⟨dryRun, stage'⟩ answer') := by
  cases hanswer with
  | failed =>
    cases h with
    | reserving | releasing | finished => exact .stops
    | _ => exact .goesOn .releasing
  | listed hnamespaces hquotas =>
    cases h with
    | listing => exact .goesOn (charge_alike hnamespaces hquotas)
    | relabelling hnew => exact .goesOn (relabel_alike hnew hnamespaces hquotas)
    | _ => exact .stops
  | surveyed hnamespaces =>
    cases h with
    | @surveying proposed limits =>
      simp only [step, Scope.resolve_eq_of_perm hnamespaces.relisted.perm]
      exact .goesOn (.comparing (hnamespaces.not_hidden proposed))
    | _ => exact .stops
  | measured =>
    cases h with
    | comparing => exact .goesOn .finished
    | joining hname hlisting hjoined => exact .goesOn (start_alike hlisting hjoined)
    | reading hcharge => exact decide_alike hcharge ..
    | _ => exact .stops
  | proceed =>
    cases h with
    | @locking c c' held next hcharge =>
      cases next with
      | nil =>
        simp only [step, hcharge.quotas]
        exact .goesOn (.checking hcharge)
      | cons a next => exact .goesOn (.waiting hcharge)
    | @waiting c c' held handle a next hcharge =>
      simp only [step]
      split
      case isTrue => exact .goesOn (.locking hcharge)
      case isFalse => exact .stops
    | @checking c c' held checked next hcharge =>
      cases next with
      | nil =>
        simp only [step]
        split
        case isTrue => exact .goesOn .releasing
        case isFalse => exact .goesOn (.reserving hcharge)
      | cons a next =>
        simp only [step, Scope.resolve_eq_of_perm hcharge.listing.relisted.perm]
        split
        case h_1 => exact decide_alike hcharge ..
        case h_2 => exact .goesOn (.reading hcharge)
    | @reserving c c' held next hcharge =>
      cases next with
      | nil => exact .goesOn .releasing
      | cons entry next =>
        simp only [step, hcharge.name, hcharge.delta]
        exact .goesOn (.reserving hcharge)
    | @releasing held result =>
      cases held with
      | nil => exact .goesOn .finished
      | cons handle held => exact .goesOn .releasing
    | _ => exact .stops

end Engine

end SharedQuota
