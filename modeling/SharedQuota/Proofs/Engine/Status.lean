import SharedQuota.Proofs.Engine.Crowd
import SharedQuota.Proofs.Ledger.Amount

/-!
Decisions from the status of a quota. What was reserved since a status was computed and is not in it
still has to be counted. Main statement (`newer_counted_iff`): it is, exactly if no earlier reading
of the quota released it; a reading may be newer than a status that a later decision is made from.
-/

namespace SharedQuota

/-- Not expired, made at the time of the status or after it, and not shown by it. -/
def Reservation.isNewer (x : Reservation) (now : Nat) (s : Snapshot)
    (resources : KeySet ResourceName) : Bool :=
  x.isLive now && !s.synced.any x.reservedAt.before && !x.isShown s resources

namespace Ledger

theorem unseen_run_status {ops : List Operation} {now : Nat} (h : ∀ op ∈ ops, op.time ≤ now)
    {s : Snapshot} (hs : s.source = .status) (quota : String) (resources : KeySet ResourceName) :
    (run Table.empty ops).unseen now quota s resources =
      ((entered quota Table.empty ops).filter fun e =>
        e.1.isNewer now s resources && !isReleased quota e.1 e.2).map (·.1) := by
  rw [unseen_eq, filter_isLive_under_run Table.empty now h, under_empty, List.filter_nil,
    List.nil_append, List.filter_map, List.filter_filter]
  congr 1
  refine List.filter_congr fun e _ => ?_
  simp only [Function.comp_apply, Reservation.isNewer, Reservation.isObserved_eq, hs,
    beq_self_eq_true, Bool.true_and, Bool.not_or]
  cases e.1.isLive now <;> simp [Bool.and_comm]

end Ledger

/-- Selecting by one more condition keeps all that was selected only if all satisfies it. -/
theorem filter_subperm_iff {α β : Type} (f : α → β) (p q : α → Bool) (l : List α) :
    ((l.filter p).map f).Subperm ((l.filter fun a => p a && q a).map f) ↔
      ∀ a ∈ l, p a = true → q a = true := by
  rw [filter_and]
  constructor
  · intro h a ha hp
    have hle := h.length_le
    rw [List.length_map, List.length_map] at hle
    have heq := Nat.le_antisymm (List.length_filter_le q (l.filter p)) hle
    exact List.length_filter_eq_length_iff.1 heq a (List.mem_filter.2 ⟨ha, hp⟩)
  · intro h
    have hall : (l.filter p).filter q = l.filter p :=
      List.filter_eq_self.2 fun a ha => h a (List.mem_filter.1 ha).1 (List.mem_filter.1 ha).2
    rw [hall]

namespace Crowd

open Engine (Reading reading?)

def counted (s : Crowd) (now : Now) (r : Reading) : List Reservation :=
  s.shared.ledger.unseen now.millis r.quota.name r.snapshot r.quota.resources

/-- A call is about to compare a reading that was made from the status of a quota. -/
structure ComparesStatus (rules : Rules) (s : Crowd) (now : Now) (r : Reading) : Prop where
  caller : ∃ c ∈ s.callers, reading? rules now c.stage .proceed = some r
  status : r.snapshot.source = .status

/-- The reservations of a quota in some moves, each with the operations that came after it. -/
def reserved (rules : Rules) (s : Crowd) (ms : List Move) (quota : String) :
    List (Reservation × List Ledger.Operation) :=
  Ledger.entered quota s.shared.ledger (operations rules s ms)

variable {rules : Rules} {works : List (Work × Bool)} {ms : List Move} {s : Crowd} {now : Now}
  {r : Reading}

/-- Whatever calls there were: a decision from a status counts all newer reservations of the quota
exactly if no reading since has released one of them. -/
theorem newer_counted_iff (hrun : (start works).run? rules ms = some s)
    (hclock : ∀ m ∈ ms, m.now.millis ≤ now.millis) (h : s.ComparesStatus rules now r) :
    (((reserved rules (start works) ms r.quota.name).filter fun e =>
        e.1.isNewer now.millis r.snapshot r.quota.resources).map (·.1)).Subperm (s.counted now r) ↔
      ∀ e ∈ reserved rules (start works) ms r.quota.name,
        e.1.isNewer now.millis r.snapshot r.quota.resources = true →
          Ledger.isReleased r.quota.name e.1 e.2 = false := by
  have htimes : ∀ op ∈ operations rules (start works) ms, op.time ≤ now.millis := fun op hop => by
    obtain ⟨m, hm, htime⟩ := exists_move_of_mem_operations hop
    exact htime ▸ hclock m hm
  have hstart : (start works).shared.ledger = Table.empty := rfl
  rw [counted, reserved, ledger_of_run? hrun, hstart, Ledger.unseen_run_status htimes h.status,
    filter_subperm_iff]
  simp only [Bool.not_eq_true']

/-! Three pods of which the second is a dry run that asks for processor time, which the status of
the quota does not record. -/

private def podsText (n : String) : WrittenAmounts := Table.ofList [("pods", n)]

private def teamQuota : Quota where
  metadata := ⟨some "team", none, none, none, none, []⟩
  spec := ⟨none, Table.ofList [("cpu", "4"), ("pods", "1")]⟩
  status := some ⟨⟨Table.empty, podsText "0"⟩, [⟨"ns", podsText "0"⟩], some "1970-01-01T00:00:10Z"⟩

private def usualRules : Rules := ⟨⟨none, []⟩, 15000, 30000⟩

private def podOf (cpu : Int) : ResourceList :=
  .ofPairs [(.ofText "cpu", .ofUnits cpu), (.pods, .one)]

private def threePods : Crowd :=
  start [(.usage "ns" (podOf 0), false), (.usage "ns" (podOf 1), true),
    (.usage "ns" (podOf 0), false)]

private def atSecond (n : Nat) : Now := ⟨n * 1000, ⟨n, 0⟩⟩

private def goesOn (place second times : Nat) : List Move :=
  List.replicate times ⟨place, atSecond second, .proceed⟩

/-- All calls list the cluster, and the first is admitted. -/
private def firstAdmitted : List Move :=
  (List.range 3).map (⟨·, atSecond 11, .listed [⟨"ns", Table.empty⟩] [teamQuota]⟩) ++ goesOn 0 11 9

/-- The second finds what the first added, and the third takes its lock. -/
private def measuredBetween : List Move :=
  firstAdmitted ++ goesOn 1 12 4 ++
    ⟨1, atSecond 12, .measured (Table.ofList [("ns", podOf 0)])⟩ :: (goesOn 1 12 2 ++ goesOn 2 13 3)

private def thirdReading? (s : Crowd) : Option Reading :=
  s.callers[2]?.bind fun c => reading? usualRules (atSecond 13) c.stage .proceed

private theorem comparesStatus_of_thirdReading? (hr : thirdReading? s = some r)
    (hsource : (r.snapshot.source == .status) = true) :
    s.ComparesStatus usualRules (atSecond 13) r := by
  obtain ⟨c, hc, hr⟩ := Option.bind_eq_some_iff.1 hr
  exact ⟨⟨c, List.mem_of_getElem? hc, hr⟩, beq_iff_eq.1 hsource⟩

/-- Unless the second call measures, the third counts what the first added. -/
theorem newer_counted_of_admitted : ∃ s r,
    threePods.run? usualRules (firstAdmitted ++ goesOn 2 13 3) = some s ∧
      s.ComparesStatus usualRules (atSecond 13) r ∧
      (((reserved usualRules threePods (firstAdmitted ++ goesOn 2 13 3) r.quota.name).filter
          fun e => e.1.isNewer (atSecond 13).millis r.snapshot r.quota.resources).map
            (·.1)).Subperm (s.counted (atSecond 13) r) := by
  have hrun : ((threePods.run? usualRules (firstAdmitted ++ goesOn 2 13 3)).any fun s =>
      (thirdReading? s).any fun r => r.snapshot.source == .status &&
        (reserved usualRules threePods (firstAdmitted ++ goesOn 2 13 3) r.quota.name).all fun e =>
          !Ledger.isReleased r.quota.name e.1 e.2) = true := by
    decide +kernel
  obtain ⟨s, hs, hrest⟩ := (Option.any_eq_true _ _).1 hrun
  obtain ⟨r, hr, hrest⟩ := (Option.any_eq_true _ _).1 hrest
  obtain ⟨hsource, hnot⟩ := Bool.and_eq_true_iff.1 hrest
  have hcompares := comparesStatus_of_thirdReading? hr hsource
  refine ⟨s, r, hs, hcompares, (newer_counted_iff hs (by decide) hcompares).2 fun e he _ => ?_⟩
  simpa using List.all_eq_true.1 hnot e he

/-- The reading of the second releases what the first added, and the third, which is compared with
the status from before both, does not count it. -/
theorem not_counted_of_measured : ∃ s r, threePods.run? usualRules measuredBetween = some s ∧
    (∀ m ∈ measuredBetween, m.now.millis ≤ (atSecond 13).millis) ∧
    s.ComparesStatus usualRules (atSecond 13) r ∧
    ∃ e ∈ reserved usualRules threePods measuredBetween r.quota.name,
      e.1.isNewer (atSecond 13).millis r.snapshot r.quota.resources = true ∧
        e.1 ∉ s.counted (atSecond 13) r := by
  have hrun : ((threePods.run? usualRules measuredBetween).any fun s =>
      (thirdReading? s).any fun r => r.snapshot.source == .status &&
        (reserved usualRules threePods measuredBetween r.quota.name).any fun e =>
          e.1.isNewer (atSecond 13).millis r.snapshot r.quota.resources &&
            !(s.counted (atSecond 13) r).contains e.1) = true := by
    decide +kernel
  obtain ⟨s, hs, hrest⟩ := (Option.any_eq_true _ _).1 hrun
  obtain ⟨r, hr, hrest⟩ := (Option.any_eq_true _ _).1 hrest
  obtain ⟨hsource, hnewer⟩ := Bool.and_eq_true_iff.1 hrest
  obtain ⟨e, he, hboth⟩ := List.any_eq_true.1 hnewer
  obtain ⟨hlive, hnot⟩ := Bool.and_eq_true_iff.1 hboth
  refine ⟨s, r, hs, by decide, comparesStatus_of_thirdReading? hr hsource, e, he, hlive, ?_⟩
  simpa using hnot

end Crowd

end SharedQuota
