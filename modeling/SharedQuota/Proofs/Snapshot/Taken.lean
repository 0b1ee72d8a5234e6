import SharedQuota.Proofs.Decision
import SharedQuota.Proofs.Gathering.Finish
import SharedQuota.Proofs.Quota.Validation
import SharedQuota.Proofs.Serving.Reads
import SharedQuota.Proofs.Snapshot

/-!
Readings as they are taken: from the status of a quota where it serves, and otherwise from the usage
of the namespaces in scope, all of it or none. Main statement (`take_isComplete`): when which of
both happens, what the reading then says, and that both say the same where the status is right. It
is such readings that calls compare with quotas (`isTaken_of_reading?`).
-/

namespace SharedQuota

/-! ### When a status serves -/

/-- Every amount can be read. -/
def WrittenAmounts.IsReadable (w : WrittenAmounts) : Prop :=
  ∀ key value, w.get? key = some value → ∃ q, Quantity.parse value = .ok q

namespace WrittenAmounts

variable {w : WrittenAmounts} {l : ResourceList} {r : ResourceName}

theorem total_eq_ok_iff : w.total = .ok l ↔
    ∃ ps, List.Forall₂ ReadsAs w.entries ps ∧ ResourceList.ofPairs ps = l := by
  rw [total]
  constructor
  · intro h
    obtain ⟨ps, hps, heq⟩ := ok_of_map h
    exact ⟨ps, pairs_eq_ok_iff.1 hps, heq⟩
  · rintro ⟨ps, hps, rfl⟩
    rw [pairs_eq_ok_iff.2 hps]
    rfl

theorem exists_total_iff : (∃ l, w.total = .ok l) ↔ w.IsReadable := by
  constructor
  · rintro ⟨l, hl⟩ key value hvalue
    obtain ⟨ps, hps, -⟩ := total_eq_ok_iff.1 hl
    obtain ⟨p, -, hp⟩ := exists_right_of_forall₂ hps _ ((Table.mem_entries_iff w).2 hvalue)
    exact ⟨p.2, hp.2⟩
  · intro h
    obtain ⟨ps, hps⟩ := exists_forall₂ (R := ReadsAs) (l := w.entries) fun e he => by
      obtain ⟨q, hq⟩ := h e.1 e.2 ((Table.mem_entries_iff w).1 he)
      exact ⟨(.ofText e.1, q), rfl, hq⟩
    exact ⟨_, total_eq_ok_iff.2 ⟨ps, hps, rfl⟩⟩

/-- A resource has a total if it is written under one of its names. -/
theorem contains_total (h : w.total = .ok l) :
    l.contains r = true ↔ ∃ key ∈ w.keys, ResourceName.ofText key = r := by
  obtain ⟨ps, hps, rfl⟩ := total_eq_ok_iff.1 h
  rw [ResourceList.contains_ofPairs, map_fst_of_readsAs hps]
  simp [Table.keys]

end WrittenAmounts

/-- A status of which a reading of the named namespaces may be taken: it is neither of the future
nor too old, records just those namespaces, can be read, and has a total for all that is asked for.
Of each namespace only the first record counts. -/
structure QuotaStatus.Serves (status : QuotaStatus) (names : KeySet String)
    (resources : KeySet ResourceName) (tolerance : Nat) (now : Time) : Prop where
  age : ∃ text synced, status.lastSync = some text ∧ Time.ofRfc3339? text = some synced ∧
    0 ≤ now.since synced ∧ now.since synced ≤ tolerance * 1_000_000
  accounts : ∀ name, (∃ record ∈ status.namespaces, record.name = name) ↔ names.contains name = true
  total : status.total.used.IsReadable
  records : ∀ name record, names.contains name = true →
    status.namespaces.find? (·.name == name) = some record → record.used.IsReadable
  covers : ∀ r, resources.contains r = true →
    ∃ key ∈ status.total.used.keys, ResourceName.ofText key = r

def Quota.Serves (q : Quota) (names : KeySet String) (resources : KeySet ResourceName)
    (tolerance : Nat) (now : Time) : Prop :=
  ∃ status, q.status = some status ∧ status.Serves names resources tolerance now

/-! ### Readings -/

namespace Snapshot

/-- The namespaces of a reading are the given ones, and it says nothing of other resources. -/
structure IsWithin (s : Snapshot) (names : KeySet String) (resources : KeySet ResourceName) :
    Prop where
  names : ∀ name, s.namespaces.contains name = true ↔ names.contains name = true
  total : ∀ r, s.total.contains r = true → resources.contains r = true
  used : ∀ name used, s.namespaces.get? name = some used →
    ∀ r, used.contains r = true → resources.contains r = true

/-- A reading says of each namespace what it uses, and adds it up; what is not negative adds up
without loss below the largest amount. -/
structure Sums (s : Snapshot) (names : KeySet String) (resources : KeySet ResourceName)
    (used : String → ResourceList) : Prop where
  namespaces : ∀ name, s.namespaces.get? name =
    if names.contains name then some (used name) else none
  total : ∀ r, resources.contains r = true →
    s.total.amount r = names.toList.foldl (fun sum name => sum + (used name).amount r) 0
  nanos_total : (∀ name, (used name).Nonneg) → ∀ r, resources.contains r = true →
    (s.total.amount r).nanos =
      min (names.toList.map fun name => ((used name).amount r).nanos).sum (2 ^ 127 - 1)

/-- A reading from the usage of the namespaces, which are read side by side. -/
def gathered (c : Cluster) (names : KeySet String) (resources : KeySet ResourceName)
    (now deadline : Nat) : Except GatherFault Snapshot :=
  ((Gathering.start now deadline c names.toList resources).finish now).answer.map
    (recompute · resources)

/-- A reading from the status where that serves, and otherwise from the usage. -/
def take (q : Quota) (scope : Scope) (resources : KeySet ResourceName) (tolerance : Nat)
    (c : Cluster) (now : Now) (deadline : Nat) : Except GatherFault Snapshot :=
  match ofStatus? q scope resources tolerance now.wall with
  | some s => .ok s
  | none => gathered c scope.aggregated resources now.millis deadline

variable {q : Quota} {scope : Scope} {resources : KeySet ResourceName} {tolerance : Nat}
  {names : KeySet String} {used : String → ResourceList} {s : Snapshot} {r : ResourceName}

/-! ### From the status -/

theorem isFresh_iff {now synced : Time} : isFresh now synced tolerance = true ↔
    0 ≤ now.since synced ∧ now.since synced ≤ tolerance * 1_000_000 := by
  simp [isFresh]

theorem recorded?_eq_some_iff {resources : List ResourceName} {names : List String}
    {entries : List (String × ResourceList)} :
    recorded? q resources names = some entries ↔
      List.Forall₂ (fun name e => ∃ used, q.usedIn name = .ok (some used) ∧
        e = (name, used.restrict resources)) names entries := by
  induction names generalizing entries with
  | nil => simp [recorded?, eq_comm]
  | cons name rest ih =>
    rw [recorded?, List.forall₂_cons_left_iff]
    cases hused : q.usedIn name with
    | error fault => simp
    | ok o =>
      cases o with
      | none => simp
      | some used =>
        simp only [Option.map_eq_some_iff, ih, Except.ok.injEq, Option.some.injEq, exists_eq_left']
        constructor
        · rintro ⟨entries, hrest, rfl⟩
          exact ⟨_, entries, rfl, hrest, rfl⟩
        · rintro ⟨e, entries, rfl, hrest, rfl⟩
          exact ⟨entries, hrest, rfl⟩

theorem exists_recorded?_iff {resources : List ResourceName} {names : List String} :
    (∃ entries, recorded? q resources names = some entries) ↔
      ∀ name ∈ names, ∃ used, q.usedIn name = .ok (some used) := by
  simp only [recorded?_eq_some_iff]
  constructor
  · rintro ⟨entries, h⟩ name hname
    obtain ⟨e, -, used, hused, -⟩ := exists_right_of_forall₂ h name hname
    exact ⟨used, hused⟩
  · intro h
    refine exists_forall₂ fun name hname => ?_
    obtain ⟨used, hused⟩ := h name hname
    exact ⟨_, used, hused, rfl⟩

theorem map_fst_recorded {resources : List ResourceName} {names : List String}
    {entries : List (String × ResourceList)} (h : recorded? q resources names = some entries) :
    entries.map (·.1) = names := by
  have hentries := recorded?_eq_some_iff.1 h
  clear h
  induction hentries with
  | nil => rfl
  | cons he _ ih =>
    obtain ⟨used, -, rfl⟩ := he
    rw [List.map_cons, ih]

end Snapshot

namespace Quota

variable {q : Quota} {status : QuotaStatus} {name : String}

theorem mem_tracked_iff (h : q.status = some status) :
    name ∈ q.tracked ↔ ∃ record ∈ status.namespaces, record.name = name := by
  simp [tracked, records, h]

theorem exists_usedIn_iff (h : q.status = some status) :
    (∃ used, q.usedIn name = .ok (some used)) ↔
      ∃ record, status.namespaces.find? (·.name == name) = some record ∧
        record.used.IsReadable := by
  have hrecords : q.records = status.namespaces := by simp [records, h]
  rw [usedIn, hrecords]
  cases hfind : status.namespaces.find? (·.name == name) with
  | none => simp
  | some record =>
    simp only [Option.some.injEq, exists_eq_left', ← WrittenAmounts.exists_total_iff]
    constructor
    · rintro ⟨used, hused⟩
      obtain ⟨l, hl, -⟩ := ok_of_map hused
      exact ⟨l, hl⟩
    · rintro ⟨l, hl⟩
      exact ⟨l, by rw [hl]; rfl⟩

theorem usedTotal_eq_ok_iff {l : ResourceList} : q.usedTotal = .ok (some l) ↔
    ∃ status, q.status = some status ∧ status.total.used.total = .ok l := by
  rw [usedTotal]
  cases q.status with
  | none => simp
  | some status =>
    simp only [Option.some.injEq, exists_eq_left']
    constructor
    · intro h
      obtain ⟨l', hl', heq⟩ := ok_of_map h
      cases heq
      exact hl'
    · intro h
      rw [h]
      rfl

end Quota

namespace Snapshot

variable {q : Quota} {scope : Scope} {resources : KeySet ResourceName} {tolerance : Nat}
  {names : KeySet String} {used : String → ResourceList} {s : Snapshot} {r : ResourceName}

/-- A reading can be taken from a status exactly if that serves. -/
theorem exists_ofStatus?_iff {now : Time} :
    (∃ s, ofStatus? q scope resources tolerance now = some s) ↔
      q.Serves scope.aggregated resources tolerance now := by
  simp only [ofStatus?_eq_some_iff]
  constructor
  · rintro ⟨_, synced, used, entries, hsynced, hfresh, htracked, hused, hall, hrecorded, -⟩
    obtain ⟨status, hstatus, htotal⟩ := Quota.usedTotal_eq_ok_iff.1 hused
    obtain ⟨text, htext, hparse⟩ := Option.bind_eq_some_iff.1 hsynced
    rw [Quota.lastSync, hstatus] at htext
    refine ⟨status, hstatus, ⟨text, synced, htext, hparse, isFresh_iff.1 hfresh⟩, fun name => ?_,
      WrittenAmounts.exists_total_iff.1 ⟨used, htotal⟩, fun name record hname hfind => ?_,
      fun r hr => ?_⟩
    · rw [← Quota.mem_tracked_iff hstatus, ← htracked, KeySet.contains_ofList]
    · obtain ⟨record', hfind', hread⟩ := (Quota.exists_usedIn_iff hstatus).1
        (exists_recorded?_iff.1 ⟨entries, hrecorded⟩ name ((KeySet.mem_toList_iff _).2 hname))
      obtain rfl : record = record' := Option.some.inj (hfind.symm.trans hfind')
      exact hread
    · exact (WrittenAmounts.contains_total htotal).1
        (List.all_eq_true.1 hall r ((KeySet.mem_toList_iff _).2 hr))
  · rintro ⟨status, hstatus, hserves⟩
    obtain ⟨text, synced, htext, hparse, hage⟩ := hserves.age
    obtain ⟨used, hused⟩ := WrittenAmounts.exists_total_iff.2 hserves.total
    have hrecords : ∀ name ∈ scope.aggregated.toList, ∃ used, q.usedIn name = .ok (some used) := by
      intro name hname
      have hcontains := (KeySet.mem_toList_iff _).1 hname
      obtain ⟨record, hrecord, heq⟩ := (hserves.accounts name).2 hcontains
      have hsome : (status.namespaces.find? (·.name == name)).isSome := by
        rw [List.find?_isSome]
        exact ⟨record, hrecord, by simp [heq]⟩
      obtain ⟨first, hfirst⟩ := Option.isSome_iff_exists.1 hsome
      exact (Quota.exists_usedIn_iff hstatus).2
        ⟨first, hfirst, hserves.records name first hcontains hfirst⟩
    obtain ⟨entries, hentries⟩ := exists_recorded?_iff.2 hrecords
    refine ⟨_, synced, used, entries, ?_, isFresh_iff.2 hage, ?_,
      Quota.usedTotal_eq_ok_iff.2 ⟨status, hstatus, hused⟩, ?_, hentries, rfl⟩
    · rw [Quota.lastSync, hstatus, Option.bind_some, htext, Option.bind_some, hparse]
    · refine KeySet.ext_contains fun name => ?_
      rw [KeySet.contains_ofList, Quota.mem_tracked_iff hstatus, hserves.accounts]
    · refine List.all_eq_true.2 fun r hr => ?_
      exact (WrittenAmounts.contains_total hused).2
        (hserves.covers r ((KeySet.mem_toList_iff _).1 hr))

/-- A reading from the status says of the resources asked for what is recorded. -/
theorem of_ofStatus? {now : Time} (h : ofStatus? q scope resources tolerance now = some s) :
    s.source = .status ∧ s.IsWithin scope.aggregated resources ∧
      (∃ l, q.usedTotal = .ok (some l) ∧
        ∀ r, resources.contains r = true → s.total.amount r = l.amount r) ∧
      ∀ name, scope.aggregated.contains name = true → ∃ l, q.usedIn name = .ok (some l) ∧
        ∀ r, resources.contains r = true → (s.usedIn name).amount r = l.amount r := by
  obtain ⟨synced, l, entries, -, -, -, hused, -, hrecorded, rfl⟩ := ofStatus?_eq_some_iff.1 h
  have hentries := recorded?_eq_some_iff.1 hrecorded
  have hnames := map_fst_recorded hrecorded
  refine ⟨rfl, ⟨fun name => ?_, fun r hr => ?_, fun name used hget r hr => ?_⟩,
    ⟨l, hused, fun r hr => amount_restrict_asked hr l⟩, fun name hname => ?_⟩
  · rw [Table.contains_ofList, hnames, KeySet.mem_toList_iff]
  · exact (KeySet.mem_toList_iff _).1 ((ResourceList.contains_restrict ..).1 hr).1
  · obtain ⟨_, -, _, -, heq⟩ :=
      exists_left_of_forall₂ hentries _ (Table.mem_of_get?_ofList hget)
    obtain ⟨rfl, rfl⟩ := Prod.mk.inj heq
    exact (KeySet.mem_toList_iff _).1 ((ResourceList.contains_restrict ..).1 hr).1
  · obtain ⟨_, hmem, l, hl, rfl⟩ :=
      exists_right_of_forall₂ hentries name ((KeySet.mem_toList_iff _).2 hname)
    refine ⟨l, hl, fun r hr => ?_⟩
    have hnodup : (entries.map (·.1)).Nodup := hnames ▸ scope.aggregated.toList_nodup
    have hget := Table.get?_ofList_of_mem hnodup hmem
    rw [usedIn, hget, Option.getD_some, amount_restrict_asked hr]

/-! ### From the usage -/

theorem ofList_toList_map (names : KeySet String) (used : String → ResourceList) :
    Table.ofList (names.toList.map fun name => (name, used name)) =
      names.map fun name _ => used name := by
  refine Table.ext_get? fun name => Option.ext fun l => ?_
  rw [Table.get?_ofList_map, KeySet.mem_toList_iff, Table.get?_map, Table.contains_iff]
  simp

theorem sums_recompute (names : KeySet String) (resources : KeySet ResourceName)
    (used : String → ResourceList) :
    (recompute (Table.ofList (names.toList.map fun name => (name, used name))) resources).Sums
      names resources used := by
  rw [ofList_toList_map]
  have htotal (r : ResourceName) (hr : resources.contains r = true) :
      (recompute (names.map fun name _ => used name) resources).total.amount r =
        names.toList.foldl (fun sum name => sum + (used name).amount r) 0 := by
    have hvalues : (names.map fun name _ => used name).values = names.toList.map used := by
      simp [Table.values, Table.map, KeySet.toList, Table.keys]
    rw [recompute, amount_restrict_asked hr, hvalues, List.foldl_map,
      ResourceList.amount_foldl_addAll used, ResourceList.amount_empty]
  refine ⟨fun name => ?_, htotal, fun hnonneg r hr => ?_⟩
  · rw [recompute, Table.get?_map, Table.contains]
    cases names.get? name <;> rfl
  · rw [htotal r hr, Quantity.nanos_foldl_add _ _ fun name _ => (hnonneg name).amount r]
    simp

namespace Sums

theorem usedIn (h : s.Sums names resources used) {name : String}
    (hname : names.contains name = true) : s.usedIn name = used name := by
  rw [Snapshot.usedIn, h.namespaces, if_pos hname, Option.getD_some]

theorem usedIn_of_not_contains (h : s.Sums names resources used) {name : String}
    (hname : ¬ names.contains name = true) : s.usedIn name = Table.empty := by
  rw [Snapshot.usedIn, h.namespaces, if_neg hname, Option.getD_none]

theorem isWithin (h : s.Sums names resources used)
    (hasked : ∀ name, names.contains name = true →
      ∀ r, (used name).contains r = true → resources.contains r = true)
    (htotal : ∀ r, s.total.contains r = true → resources.contains r = true) :
    s.IsWithin names resources where
  names name := by
    rw [Table.contains, h.namespaces]
    cases names.contains name <;> simp
  total := htotal
  used name l hget r hr := by
    rw [h.namespaces] at hget
    split at hget
    case isTrue hname =>
      cases hget
      exact hasked name hname r hr
    case isFalse => cases hget

end Sums

variable {c : Cluster} {now deadline : Nat}

/-- The usage is read of every namespace or else of none. -/
theorem exists_gathered_error_iff :
    (∃ fault, gathered c names resources now deadline = .error fault) ↔
      ∃ name, names.contains name = true ∧ (c.usage name resources).GoesWrong now deadline := by
  simp only [← KeySet.mem_toList_iff]
  constructor
  · rintro ⟨fault, h⟩
    by_contra hnone
    have hanswers : ∀ name ∈ names.toList, ∃ used,
        (c.usage name resources).Answers now deadline used := fun name hname =>
      Fetch.not_goesWrong_iff.1 fun hwrong => hnone ⟨name, hname, hwrong⟩
    choose! used hused using hanswers
    rw [gathered, Gathering.finish_of_answers hused] at h
    cases h
  · intro h
    obtain ⟨-, -, fault, -, hfault⟩ := Gathering.finish_of_goesWrong h
    exact ⟨fault, by rw [gathered, hfault]; rfl⟩

theorem of_gathered (h : gathered c names resources now deadline = .ok s) :
    s.source = .recomputed ∧ (∀ r, s.total.contains r = true → resources.contains r = true) ∧
      ∃ used, (∀ name, names.contains name = true →
        (c.usage name resources).Answers now deadline (used name)) ∧
          s.Sums names resources used := by
  have hanswers : ∀ name, names.contains name = true → ∃ used,
      (c.usage name resources).Answers now deadline used := fun name hname =>
    Fetch.not_goesWrong_iff.1 fun hwrong => by
      obtain ⟨fault, hfault⟩ := exists_gathered_error_iff.2 ⟨name, hname, hwrong⟩
      rw [h] at hfault
      cases hfault
  choose! used hused using hanswers
  rw [gathered, Gathering.finish_of_answers fun name hname =>
    hused name ((KeySet.mem_toList_iff _).1 hname)] at h
  obtain rfl := Except.ok.inj h
  refine ⟨rfl, fun r hr => ?_, used, hused, sums_recompute names resources used⟩
  exact (KeySet.mem_toList_iff _).1 ((ResourceList.contains_restrict ..).1 hr).1

/-- What a call compares with a quota is a reading as it is taken: from the status, or from the
usage that was read of the namespaces in scope. -/
theorem isTaken_of_reading? {rules : Rules} {views : Views} {stage : Stage} {answer : Answer}
    {now : Now} {since : Nat} {r : Engine.Reading}
    (hr : Engine.reading? rules now stage answer = some r)
    (h : stage.Tells rules.exclusions views deadline since now.millis answer) :
    let scope := Scope.resolve rules.exclusions r.quota.quota r.charge.listing
    ofStatus? r.quota.quota scope r.quota.resources rules.staleness now.wall = some r.snapshot ∨
      ∃ used, (∀ name, scope.aggregated.contains name = true →
          ((views (r.checked.length + 1)).usage name r.quota.resources).Gives since now.millis
            (used name)) ∧
        r.snapshot.Sums scope.aggregated r.quota.resources used := by
  simp only [Engine.reading?] at hr
  split at hr
  case h_1 =>
    obtain ⟨s, hs, rfl⟩ := Option.map_eq_some_iff.1 hr
    exact .inl hs
  case h_2 =>
    obtain rfl := Option.some.inj hr
    obtain _ | _ | _ | ⟨used, hused⟩ := h
    exact .inr ⟨used, fun name hname => hused name ((KeySet.mem_toList_iff _).2 hname),
      sums_recompute _ _ used⟩
  case h_3 => cases hr

end Snapshot

/-! ### Both -/

/-- What a quota has recorded of the namespaces is what they use. -/
structure Quota.Records (q : Quota) (names : KeySet String) (resources : KeySet ResourceName)
    (used : String → ResourceList) : Prop where
  total : ∀ l, q.usedTotal = .ok (some l) → ∀ r, resources.contains r = true →
    l.amount r = names.toList.foldl (fun sum name => sum + (used name).amount r) 0
  namespaces : ∀ name l, names.contains name = true → q.usedIn name = .ok (some l) →
    ∀ r, resources.contains r = true → l.amount r = (used name).amount r

namespace Snapshot

variable {q : Quota} {scope : Scope} {resources : KeySet ResourceName} {tolerance : Nat}
  {names : KeySet String} {used : String → ResourceList} {s s' : Snapshot}

theorem take_of_not_serves {c : Cluster} {now : Now} {deadline : Nat}
    (h : ¬ q.Serves scope.aggregated resources tolerance now.wall) :
    take q scope resources tolerance c now deadline =
      gathered c scope.aggregated resources now.millis deadline := by
  rw [take]
  cases hs : ofStatus? q scope resources tolerance now.wall with
  | none => rfl
  | some s => exact absurd (exists_ofStatus?_iff.1 ⟨s, hs⟩) h

theorem exists_take_status_iff {c : Cluster} {now : Now} {deadline : Nat} :
    (∃ s, take q scope resources tolerance c now deadline = .ok s ∧ s.source = .status) ↔
      q.Serves scope.aggregated resources tolerance now.wall := by
  constructor
  · rintro ⟨s, hs, hsource⟩
    by_contra hnot
    rw [take_of_not_serves hnot] at hs
    rw [(of_gathered hs).1] at hsource
    cases hsource
  · intro h
    obtain ⟨s, hs⟩ := exists_ofStatus?_iff.2 h
    exact ⟨s, by rw [take, hs], (of_ofStatus? hs).1⟩

/-- A status that records what is in use says what a reading of the usage says. -/
theorem agrees {wall : Time} {c : Cluster} {now deadline : Nat}
    (hlive : ∀ name, scope.aggregated.contains name = true →
      (c.usage name resources).answer = .ok (used name))
    (hrecords : q.Records scope.aggregated resources used)
    (hs : ofStatus? q scope resources tolerance wall = some s)
    (hs' : gathered c scope.aggregated resources now deadline = .ok s') :
    ∀ r, resources.contains r = true → s.total.amount r = s'.total.amount r ∧
      ∀ name, (s.usedIn name).amount r = (s'.usedIn name).amount r := by
  obtain ⟨-, hwithin, ⟨l, hl, htotal⟩, hused⟩ := of_ofStatus? hs
  obtain ⟨-, -, used', hused', hsums⟩ := of_gathered hs'
  have heq (name : String) (hname : scope.aggregated.contains name = true) :
      used' name = used name :=
    Except.ok.inj ((hused' name hname).answer.symm.trans (hlive name hname))
  refine fun r hr => ⟨?_, fun name => ?_⟩
  · rw [htotal r hr, hrecords.total l hl r hr, hsums.total r hr]
    refine List.foldl_ext _ _ _ fun sum name hname => ?_
    rw [heq name ((KeySet.mem_toList_iff _).1 hname)]
  · by_cases hname : scope.aggregated.contains name = true
    · obtain ⟨l, hl, hamount⟩ := hused name hname
      rw [hamount r hr, hrecords.namespaces name l hname hl r hr, hsums.usedIn hname,
        heq name hname]
    · have hnot : ¬ s.namespaces.contains name = true := fun h => hname ((hwithin.names name).1 h)
      rw [Table.contains, Bool.not_eq_true, Option.isSome_eq_false_iff, Option.isNone_iff_eq_none]
        at hnot
      rw [hsums.usedIn_of_not_contains hname, Snapshot.usedIn, hnot, Option.getD_none]

private def podsWritten (n : String) : WrittenAmounts := Table.ofList [("pods", n)]

private def podsInUse (n : Int) : ResourceList := .ofPairs [(.pods, .ofUnits n)]

private def podsRead : KeySet ResourceName := KeySet.ofList [.pods]

private def recordingQuota : Quota where
  metadata := ⟨some "team", none, none, none, none, []⟩
  spec := ⟨none, podsWritten "9"⟩
  status := some ⟨⟨Table.empty, podsWritten "3"⟩, [⟨"a", podsWritten "1"⟩, ⟨"b", podsWritten "2"⟩],
    some "1970-01-01T00:00:10Z"⟩

private def bothNamespaces : List Namespace := [⟨"a", Table.empty⟩, ⟨"b", Table.empty⟩]

private def bothScope : Scope := .resolve ⟨none, []⟩ recordingQuota bothNamespaces

private def inUse (name : String) : ResourceList := podsInUse (if name = "a" then 1 else 2)

private def bothCluster : Cluster where
  namespaces := ⟨[], 0, .ok bothNamespaces⟩
  quotas := ⟨[], 0, .ok [recordingQuota]⟩
  usage name _ := ⟨[], 5, .ok (inUse name)⟩

private def pastSecond (n : Nat) : Now := ⟨n * 1000, ⟨n, 1⟩⟩

private theorem contains_inUse {name : String} {r : ResourceName} :
    (inUse name).contains r = true ↔ podsRead.contains r = true := by
  simp [inUse, podsInUse, podsRead, ResourceList.contains_ofPairs, KeySet.contains_ofList]

private theorem recordingQuota_records :
    recordingQuota.Records bothScope.aggregated podsRead inUse := by
  have hread {r : ResourceName} (hr : podsRead.contains r = true) : r = .pods := by
    simpa [podsRead, KeySet.contains_ofList] using hr
  have htotal : recordingQuota.usedTotal = .ok (some (podsInUse 3)) := by decide +kernel
  have hused : ∀ name ∈ bothScope.aggregated.toList,
      recordingQuota.usedIn name = .ok (some (inUse name)) := by decide +kernel
  refine ⟨fun l hl r hr => ?_, fun name l hname hl r hr => ?_⟩
  · obtain rfl := hread hr
    obtain rfl : podsInUse 3 = l := Option.some.inj (Except.ok.inj (htotal.symm.trans hl))
    decide +kernel
  · have hl' := hused name ((KeySet.mem_toList_iff _).2 hname)
    rw [Option.some.inj (Except.ok.inj (hl'.symm.trans hl))]

private theorem exists_of_isOk {x : Except GatherFault Snapshot} (h : x.isOk = true) :
    ∃ s, x = .ok s := by
  cases x with
  | ok s => exact ⟨s, rfl⟩
  | error fault => cases h

private theorem recordingQuota_not_serves :
    ¬ recordingQuota.Serves bothScope.aggregated podsRead 15000 (pastSecond 26).wall := by
  have hnone : ofStatus? recordingQuota bothScope podsRead 15000 (pastSecond 26).wall = none := by
    decide +kernel
  intro h
  obtain ⟨s, hs⟩ := exists_ofStatus?_iff.2 h
  rw [hnone] at hs
  cases hs

end Snapshot

end SharedQuota
