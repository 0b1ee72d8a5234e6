import SharedQuota.Proofs.Engine.Applicable
import SharedQuota.Proofs.Engine.Guard

/-!
What a call leaves behind when it ends, at whatever point that is. Main statement (`settled`): a
call that is admitted and no dry run has reserved in each quota that it was checked against what
that quota limits of its usage, any other call has reserved nothing, and neither holds a lock.
-/

namespace SharedQuota

open Engine (handles operation? reservation? Advance)

/-- The reservation that an operation makes, with the quota that it is under. -/
def Ledger.Operation.made? (l : Ledger) : Ledger.Operation → Option (String × Reservation)
  | .pending .. => none
  | .reserve now wall ttl quota name usage observed =>
    (l.reserved? now wall ttl quota name usage observed).map (quota, ·)

theorem Ledger.enters?_eq_made? (l : Ledger) (quota : String) (op : Ledger.Operation) :
    op.enters? l quota = ((op.made? l).filter (·.1 == quota)).map (·.2) := by
  cases op with
  | pending => rfl
  | reserve now wall ttl q name usage observed =>
    rw [Operation.enters?, Operation.made?]
    cases l.reserved? now wall ttl q name usage observed with
    | none => simp
    | some x => by_cases hq : q = quota <;> simp [hq, Option.filter]

namespace Engine

variable {rules : Rules} {now : Now} {stage : Stage} {answer : Answer}

/-- The reservation that a step makes, with the quota that it is under. -/
def made? (rules : Rules) (now : Now) (l : Ledger) (stage : Stage) (answer : Answer) :
    Option (String × Reservation) :=
  (operation? rules now stage answer).bind (·.made? l)

theorem made?_eq (rules : Rules) (now : Now) (l : Ledger) (stage : Stage) (answer : Answer) :
    made? rules now l stage answer =
      (reservation? rules now stage answer).bind (·.made? l) := by
  rw [made?, operation?]
  cases hr : reading? rules now stage answer with
  | none => rfl
  | some r =>
    -- what reads does not reserve
    rcases stage_of_reading? hr with rfl | ⟨since, rfl⟩ <;> cases answer <;> rfl

end Engine

/-! ### What a call is to reserve -/

/-- Usage that is reserved in a namespace for a quota. -/
structure Due where
  quota : String
  name : String
  usage : ResourceList
deriving DecidableEq

def Due.ofMade (made : String × Reservation) : Due :=
  ⟨made.1, made.2.namespaceName, made.2.usage⟩

namespace Charge

/-- For each quota that a call is checked against, what that limits of the usage. -/
def dues (c : Charge) : List Due :=
  c.quotas.map fun a => ⟨a.name, c.name, c.delta.filter fun r _ => a.hard.contains r⟩

/-- What a call is to have reserved when it ends with a result. -/
def duesOf (c : Charge) (dryRun : Bool) : Except Denial Unit → List Due
  | .ok () => if dryRun then [] else c.dues
  | .error _ => []

/-- The quotas are some that limit the usage. -/
def IsApplied (c : Charge) : Prop :=
  ∀ a ∈ c.quotas, ∃ q, Applicable.of? c.delta q = some a

theorem isApplied_sorted (name : String) (delta : ResourceList) (listing : List Namespace)
    (quotas : List Quota) : IsApplied ⟨name, delta, listing, Applicable.sorted delta quotas⟩ := by
  intro a ha
  obtain ⟨q, -, hq⟩ := Applicable.mem_sorted_iff.1 ha
  exact ⟨q, hq⟩

/-- What is reserved in a quota is what the quota limits, and is not nothing. -/
theorem IsApplied.made?_reservation {c : Charge} (h : c.IsApplied) {a : Applicable}
    (ha : a ∈ c.quotas) (rules : Rules) (now : Now) (l : Ledger) (observed : ResourceList) :
    ((Engine.reservation rules now c a observed).made? l).map Due.ofMade =
      some ⟨a.name, c.name, c.delta.filter fun r _ => a.hard.contains r⟩ := by
  obtain ⟨q, hq⟩ := h a ha
  obtain ⟨-, -, hresources⟩ := Applicable.of_of? hq
  have hmem (r : ResourceName) : r ∈ a.resources.toList ↔
      c.delta.contains r = true ∧ a.hard.contains r = true := by
    rw [KeySet.mem_toList_iff, hresources]
  have hrestrict := ResourceList.restrict_eq_filter a.resources.toList_nodup hmem
  obtain ⟨-, -, -, r, hr⟩ := Applicable.of?_eq_some_iff.1 hq
  have hsome : ¬ (c.delta.restrict a.resources.toList).isEmpty = true := fun hempty => by
    have hcontains := (ResourceList.contains_restrict c.delta _ r).2
      ⟨(KeySet.mem_toList_iff _).2 hr, ((hresources r).1 hr).1⟩
    rw [Table.contains, Table.get?_of_isEmpty hempty] at hcontains
    cases hcontains
  rw [Engine.reservation, Ledger.Operation.made?, Ledger.reserved?, if_neg hsome, hrestrict]
  rfl

end Charge

namespace Stage

/-- What a call that is checked as `c` has reserved when it has come so far. -/
def HasMade (c : Charge) (dryRun : Bool) (made : List Due) : Stage → Prop
  | .locking charge _ _ | .waiting charge _ _ _ _ => charge = c ∧ made = []
  | .checking charge _ checked next =>
    charge = c ∧ made = [] ∧ checked.map (·.1) ++ next = c.quotas
  | .reading charge _ checked a _ next =>
    charge = c ∧ made = [] ∧ checked.map (·.1) ++ a :: next = c.quotas
  | .reserving charge _ next => charge = c ∧ dryRun = false ∧
    ∃ done, c.quotas = done ++ next.map (·.1) ∧ made = ({ c with quotas := done } : Charge).dues
  | .releasing _ result | .finished result => made = c.duesOf dryRun result
  | _ => False

variable {c : Charge} {dryRun : Bool} {made : List Due} {stage stage' : Stage} {rules : Rules}
  {now : Now} {shared shared' : Shared} {answer : Answer}

theorem HasMade.eq_nil (h : stage.HasMade c dryRun made) (hfail : stage.canFail = true) :
    made = [] := by
  cases stage with
  | locking | waiting => exact h.2
  | checking | reading => exact h.2.1
  | reserving | releasing | finished => cases hfail
  | _ => cases h

theorem hasMade_start (name : String) (delta : ResourceList) (listing : List Namespace)
    (quotas : List Quota) (dryRun : Bool) :
    (Charge.start name delta listing quotas).HasMade
      ⟨name, delta, listing, Applicable.sorted delta quotas⟩ dryRun [] := by
  simp only [Charge.start]
  split
  case isTrue hempty =>
    simp [HasMade, Charge.duesOf, Charge.dues, List.isEmpty_iff.1 hempty]
  case isFalse => exact ⟨rfl, rfl⟩

/-- A step adds the reservation that it makes. -/
theorem HasMade.advance (hc : c.IsApplied) (h : stage.HasMade c dryRun made)
    (hadvance : Advance rules now dryRun shared stage answer shared' stage') :
    stage'.HasMade c dryRun
      (made ++ ((Engine.made? rules now shared.ledger stage answer).map Due.ofMade).toList) := by
  rw [Engine.made?_eq]
  cases hadvance with
  | fail hfail =>
    cases h.eq_nil hfail
    rfl
  | locked =>
    obtain ⟨rfl, rfl⟩ := h
    exact ⟨rfl, rfl, rfl⟩
  | ask | take =>
    obtain ⟨rfl, rfl⟩ := h
    exact ⟨rfl, rfl⟩
  | measure hr =>
    obtain ⟨rfl, rfl, hquotas⟩ := h
    exact ⟨rfl, rfl, hquotas⟩
  | deny hr he =>
    cases h.eq_nil (Engine.canFail_of_reading? hr)
    rcases Engine.stage_of_reading? hr with rfl | ⟨since, rfl⟩ <;> cases answer <;> rfl
  | clear hr he =>
    rcases Engine.stage_of_reading? hr with rfl | ⟨since, rfl⟩ <;>
    · obtain ⟨rfl, rfl, hquotas⟩ := h
      cases answer <;> exact ⟨rfl, rfl, by simpa using hquotas⟩
  | passDry hdry =>
    obtain ⟨-, rfl, -⟩ := h
    simp [HasMade, Charge.duesOf, hdry, reservation?]
  | pass hdry =>
    obtain ⟨rfl, rfl, hquotas⟩ := h
    exact ⟨rfl, hdry, [], by simpa using hquotas.symm, rfl⟩
  | @reserve charge held a observed next =>
    obtain ⟨rfl, hdry, done, hquotas, rfl⟩ := h
    refine ⟨rfl, hdry, done ++ [a], by simp [hquotas], ?_⟩
    have ha : a ∈ charge.quotas := by simp [hquotas]
    have hmade := hc.made?_reservation ha rules now shared.ledger observed
    simp only [reservation?, Option.bind_some, hmade]
    simp [Charge.dues]
  | reserved =>
    obtain ⟨rfl, hdry, done, hquotas, rfl⟩ := h
    simp only [List.map_nil, List.append_nil] at hquotas
    simp [HasMade, Charge.duesOf, hdry, reservation?, Charge.dues, hquotas]
  | release | finish => exact (List.append_nil made).trans h
  | _ => cases h

end Stage

namespace Crowd

/-- A reservation that was made, with the place of the call that made it and with what has been done
to the ledger since. -/
structure Entry where
  place : Nat
  quota : String
  reservation : Reservation
  later : List Ledger.Operation

def Entry.due (e : Entry) : Due := .ofMade (e.quota, e.reservation)

def made? (rules : Rules) (s : Crowd) (m : Move) : Option (String × Reservation) :=
  s.callers[m.place]?.bind fun c => Engine.made? rules m.now s.shared.ledger c.stage m.answer

def entries (rules : Rules) (s : Crowd) : List Move → List Entry
  | [] => []
  | m :: ms => ((s.step? rules m).map fun t =>
      ((s.made? rules m).map fun e => ⟨m.place, e.1, e.2, operations rules t ms⟩).toList ++
        entries rules t ms).getD []

def entriesUnder (rules : Rules) (s : Crowd) (ms : List Move) (quota : String) : List Entry :=
  (entries rules s ms).filter (·.quota == quota)

def entriesOf (rules : Rules) (s : Crowd) (ms : List Move) (place : Nat) : List Entry :=
  (entries rules s ms).filter (·.place == place)

variable {rules : Rules} {s t : Crowd} {m : Move} {ms : List Move} {place : Nat} {c : Caller}

theorem entries_cons (h : s.step? rules m = some t) (ms : List Move) :
    entries rules s (m :: ms) =
      ((s.made? rules m).map fun e => ⟨m.place, e.1, e.2, operations rules t ms⟩).toList ++
        entries rules t ms := by
  rw [entries, h]
  rfl

/-- In the order of the moves, the reservations under a quota are those entered there. -/
theorem entriesUnder_eq_entered (h : s.run? rules ms = some t) (quota : String) :
    (entriesUnder rules s ms quota).map (fun e => (e.reservation, e.later)) =
      Ledger.entered quota s.shared.ledger (operations rules s ms) := by
  induction ms generalizing s with
  | nil => rfl
  | cons m ms ih =>
    obtain ⟨u, hu, ht⟩ := Option.bind_eq_some_iff.1 h
    obtain ⟨before, c, after, shared, stage, hcallers, hlength, rfl, hadvance⟩ := of_step? hu
    have hc : s.callers[m.place]? = some c := by simp [hcallers, ← hlength]
    have hrest := ih ht
    rw [entriesUnder] at hrest ⊢
    rw [entries_cons hu, List.filter_append, List.map_append, hrest, operations, hu, hc]
    simp only [made?, hc, Option.bind_some, Engine.made?, Option.map_some, Option.getD_some,
      hadvance.ledger_eq]
    cases operation? rules m.now c.stage m.answer with
    | none => rfl
    | some op =>
      simp only [Option.toList_some, List.singleton_append, Ledger.entered, Option.elim_some,
        Ledger.enters?_eq_made?, Option.bind_some]
      congr 1
      cases hmade : op.made? s.shared.ledger with
      | none => rfl
      | some e => by_cases hq : e.1 = quota <;> simp [hq, Option.filter]

theorem entriesOf_cons_self (h : s.step? rules m = some t) (ms : List Move)
    (hc : s.callers[m.place]? = some c) :
    (entriesOf rules s (m :: ms) m.place).map (·.due) =
      ((Engine.made? rules m.now s.shared.ledger c.stage m.answer).map Due.ofMade).toList ++
        (entriesOf rules t ms m.place).map (·.due) := by
  rw [entriesOf, entries_cons h, List.filter_append, List.map_append, made?, hc, Option.bind_some]
  congr 1
  cases Engine.made? rules m.now s.shared.ledger c.stage m.answer <;> simp [Entry.due]

theorem entriesOf_cons_of_ne (h : s.step? rules m = some t) (ms : List Move)
    (hplace : m.place ≠ place) :
    entriesOf rules s (m :: ms) place = entriesOf rules t ms place := by
  rw [entriesOf, entries_cons h, List.filter_append, entriesOf]
  cases s.made? rules m <;> simp [hplace]

/-- What a call has made so far is what it makes in the moves, beside what others do. -/
theorem hasMade_of_run? {charge : Charge} (hcharge : charge.IsApplied) {made : List Due}
    (h : s.run? rules ms = some t) (hc : s.callers[place]? = some c)
    (hmade : c.stage.HasMade charge c.dryRun made) :
    ∃ stage, t.callers[place]? = some { c with stage } ∧
      stage.HasMade charge c.dryRun (made ++ (entriesOf rules s ms place).map (·.due)) := by
  induction ms generalizing s c made with
  | nil =>
    cases h
    exact ⟨c.stage, hc, by simpa [entriesOf, entries] using hmade⟩
  | cons m ms ih =>
    obtain ⟨u, hu, ht⟩ := Option.bind_eq_some_iff.1 h
    rcases caller_of_step? hu hc with ⟨rfl, stage, hcu, hadvance⟩ | ⟨hplace, hcu⟩
    · rw [entriesOf_cons_self hu ms hc, ← List.append_assoc]
      obtain ⟨stage', hct, hmade'⟩ := ih ht hcu (hmade.advance hcharge hadvance)
      exact ⟨stage', hct, hmade'⟩
    · rw [entriesOf_cons_of_ne hu ms hplace]
      exact ih ht hcu hmade

theorem IsGuarded.run (hs : s.IsGuarded) (h : s.run? rules ms = some t) : t.IsGuarded :=
  of_run? (fun _ _ _ _ hu hstep => hu.step hstep) h hs

/-- A call that has ended owns none of the live handles. -/
theorem IsGuarded.exists_owner (hs : s.IsGuarded) (hc : s.callers[place]? = some c)
    (hnone : handles c.stage = []) {handle : Handle} (h : handle ∈ s.shared.locks.handles) :
    ∃ other c', other ≠ place ∧ s.callers[other]? = some c' ∧ handle.id ∈ handles c'.stage := by
  have hid : handle.id ∈ s.callers.flatMap fun c => handles c.stage :=
    hs.owned.symm.subset (List.mem_map.2 ⟨handle, h, rfl⟩)
  obtain ⟨c', hc', hmem⟩ := List.mem_flatMap.1 hid
  obtain ⟨other, hother⟩ := List.mem_iff_getElem?.1 hc'
  refine ⟨other, c', ?_, hother, hmem⟩
  rintro rfl
  obtain rfl : c = c' := Option.some.inj (hc.symm.trans hother)
  rw [hnone] at hmem
  cases hmem

/-- How the moves from `s` to `t` leave what is shared, when the call at a place has made the
reservations `dues` in them. -/
structure Settles (rules : Rules) (s t : Crowd) (ms : List Move) (place : Nat) (dues : List Due) :
    Prop where
  made : (entriesOf rules s ms place).map (·.due) = dues
  /-- Under a quota there is nothing but what was there and what calls have made. -/
  only : ∀ quota, (t.shared.ledger.under quota).Sublist
    (s.shared.ledger.under quota ++ (entriesUnder rules s ms quota).map (·.reservation))
  /-- What is removed has expired, or a later reading accounts for it. -/
  live : ∀ now, (∀ m ∈ ms, m.now.millis ≤ now) → ∀ quota,
    (t.shared.ledger.under quota).filter (·.isLive now) =
      ((s.shared.ledger.under quota).filter fun r =>
        r.isLive now && !Ledger.isReleased quota r (operations rules s ms)) ++
      ((entriesUnder rules s ms quota).filter fun e =>
        e.reservation.isLive now && !Ledger.isReleased quota e.reservation e.later).map
          (·.reservation)
  /-- Every lock that is held or waited for is another call's. -/
  unlocked : ∀ handle ∈ t.shared.locks.handles, ∃ other c, other ≠ place ∧
    t.callers[other]? = some c ∧ handle.id ∈ handles c.stage

/-- However a call ends that is checked against quotas, and whatever others do meanwhile: it has
made all its reservations if it is admitted and no dry run, and none otherwise. -/
theorem settled {works : List (Work × Bool)} {before : List Move} {name : String}
    {delta : ResourceList} {listing : List Namespace} {quotas : List Quota}
    {result : Except Denial Unit} {c' : Caller} (hbefore : (start works).run? rules before = some s)
    (hrun : s.run? rules ms = some t) (hc : s.callers[place]? = some c)
    (hstart : c.stage = Charge.start name delta listing quotas)
    (hc' : t.callers[place]? = some c') (hend : c'.stage = .finished result) :
    Settles rules s t ms place
      (Charge.duesOf ⟨name, delta, listing, Applicable.sorted delta quotas⟩ c.dryRun result) where
  made := by
    have hnothing := Stage.hasMade_start name delta listing quotas c.dryRun
    rw [← hstart] at hnothing
    obtain ⟨stage, hct, hmade⟩ :=
      hasMade_of_run? (Charge.isApplied_sorted name delta listing quotas) hrun hc hnothing
    obtain rfl : c' = { c with stage } := Option.some.inj (hc'.symm.trans hct)
    obtain rfl : stage = .finished result := hend
    exact hmade
  only quota := by
    have hunder := Ledger.under_run_sublist s.shared.ledger quota (operations rules s ms)
    rw [← ledger_of_run? hrun, ← entriesUnder_eq_entered hrun, List.map_map] at hunder
    exact hunder
  live now hclock quota := by
    have htimes : ∀ op ∈ operations rules s ms, op.time ≤ now := fun op hop => by
      obtain ⟨m, hm, htime⟩ := exists_move_of_mem_operations hop
      exact htime ▸ hclock m hm
    rw [ledger_of_run? hrun, Ledger.filter_isLive_under_run _ now htimes,
      ← entriesUnder_eq_entered hrun, List.filter_map, List.map_map]
    rfl
  unlocked handle hhandle :=
    (((isGuarded_start works).run hbefore).run hrun).exists_owner hc' (by rw [hend]; rfl) hhandle

/-! Two calls for a pod that two quotas limit. The second waits for a lock of the first until it is
late. -/

private def limitedTo (name : String) (hard : List (String × String)) : Quota :=
  ⟨⟨some name, none, none, none, none, []⟩, ⟨none, Table.ofList hard⟩, none⟩

private def twoQuotas : List Quota :=
  [limitedTo "both" [("cpu", "4"), ("memory", "1"), ("pods", "2")],
    limitedTo "pods" [("pods", "2")]]

private def cpuPod : ResourceList := .ofPairs [(.ofText "cpu", .one), (.pods, .one)]

private def oneListed : List Namespace := [⟨"ns", Table.empty⟩]

private def noExclusions : Rules := ⟨⟨none, []⟩, 15000, 30000⟩

private def bothCharge : Charge :=
  ⟨"ns", cpuPod.nonZero, oneListed, twoQuotas.filterMap (Applicable.of? cpuPod.nonZero)⟩

private theorem sorted_twoQuotas :
    Applicable.sorted cpuPod.nonZero twoQuotas = bothCharge.quotas :=
  List.mergeSort_of_pairwise (by decide +kernel)

private theorem start_twoQuotas : Charge.start "ns" cpuPod.nonZero oneListed twoQuotas =
    .locking bothCharge [] bothCharge.quotas := by
  rw [Charge.start, sorted_twoQuotas, if_neg (by decide +kernel)]
  rfl

private def twoCalls : List (Work × Bool) := List.replicate 2 (.usage "ns" cpuPod, false)

private def noTime : Now := ⟨0, ⟨0, 0⟩⟩

private def twoListings : List Move := [⟨0, noTime, .listed oneListed twoQuotas⟩,
  ⟨1, noTime, .listed oneListed twoQuotas⟩]

private def twoListed : Crowd :=
  ⟨⟨Table.empty, .empty⟩, List.replicate 2
    ⟨.usage "ns" cpuPod, false, .locking bothCharge [] bothCharge.quotas⟩⟩

private theorem run?_twoListings : (start twoCalls).run? noExclusions twoListings =
    some twoListed := by
  have hsome : cpuPod.nonZero.isEmpty = false := by decide +kernel
  have hfind : oneListed.find? (·.name == "ns") = some ⟨"ns", Table.empty⟩ := by decide +kernel
  have hselected : twoQuotas.filter (noExclusions.exclusions.selects ·.spec.selector
      ⟨"ns", Table.empty⟩) = twoQuotas := by
    rw [List.filter_eq_self]
    decide +kernel
  simp [run?, step?, twoCalls, start, twoListings, twoListed, Work.start, hsome, Engine.step,
    Engine.charge, hfind, hselected, start_twoQuotas]

private def toTheEnd : List Move :=
  let goOn (place times : Nat) : List Move := List.replicate times ⟨place, noTime, .proceed⟩
  let measure : Move := ⟨0, noTime, .measured (Table.ofList [("ns", Table.empty)])⟩
  goOn 0 2 ++ goOn 1 1 ++ goOn 0 4 ++ measure :: goOn 0 1 ++
    ⟨1, noTime, .failed (.unavailable "late")⟩ :: measure :: goOn 0 7 ++ goOn 1 2

private def allowed? : Stage → Option Bool
  | .finished (.ok _) => some true
  | .finished (.error _) => some false
  | _ => none

private theorem of_allowed? {stage : Stage} {allowed : Bool} (h : allowed? stage = some allowed) :
    ∃ result, stage = .finished result ∧ (allowed = true → result = .ok ()) ∧
      (allowed = false → ∃ denial, result = .error denial) := by
  cases stage with
  | finished result => cases result <;> cases h <;> simp
  | _ => cases h

theorem settled_besideLate : ∃ t, twoListed.run? noExclusions toTheEnd = some t ∧
    Settles noExclusions twoListed t toTheEnd 0 [⟨"both", "ns", cpuPod⟩,
      ⟨"pods", "ns", .ofPairs [(.pods, .one)]⟩] ∧
    Settles noExclusions twoListed t toTheEnd 1 [] := by
  have hends : ((twoListed.run? noExclusions toTheEnd).any fun t =>
      (t.callers[0]?.any fun c => allowed? c.stage == some true) &&
        t.callers[1]?.any fun c => allowed? c.stage == some false) = true := by
    decide +kernel
  have hdues : Charge.duesOf bothCharge false (.ok ()) =
      [⟨"both", "ns", cpuPod⟩, ⟨"pods", "ns", .ofPairs [(.pods, .one)]⟩] := by
    decide +kernel
  have hcharge : bothCharge = ⟨"ns", cpuPod.nonZero, oneListed,
      Applicable.sorted cpuPod.nonZero twoQuotas⟩ := by
    rw [sorted_twoQuotas]
    rfl
  obtain ⟨t, ht, hboth⟩ := (Option.any_eq_true _ _).1 hends
  obtain ⟨hfirst, hsecond⟩ := Bool.and_eq_true_iff.1 hboth
  obtain ⟨c, hc, hallowed⟩ := (Option.any_eq_true _ _).1 hfirst
  obtain ⟨c', hc', hdenied⟩ := (Option.any_eq_true _ _).1 hsecond
  obtain ⟨result, hend, hok, -⟩ := of_allowed? (beq_iff_eq.1 hallowed)
  obtain ⟨result', hend', -, herror⟩ := of_allowed? (beq_iff_eq.1 hdenied)
  obtain rfl := hok rfl
  obtain ⟨denial, rfl⟩ := herror rfl
  refine ⟨t, ht, ?_, ?_⟩
  · rw [← hdues, hcharge]
    exact settled run?_twoListings ht rfl start_twoQuotas.symm hc hend
  · exact settled run?_twoListings ht rfl start_twoQuotas.symm hc' hend'

end Crowd

end SharedQuota
