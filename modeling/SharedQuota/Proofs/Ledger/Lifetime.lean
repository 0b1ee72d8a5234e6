import SharedQuota.Options.Settings
import SharedQuota.Proofs.Ledger.History
import SharedQuota.Proofs.Snapshot
import SharedQuota.Proofs.Time
import SharedQuota.Serving

/-!
Reservations beside statuses that may lack them. Main statement (`isLive_iff_of_fresh`): under
options that are accepted, a reservation that was made at the time of a status or after it lives as
long as the status is fresh, except where both last equally long and the status is as late as it can
be.
-/

namespace SharedQuota

namespace Options

theorem staleness_le_reservation {o : Options} (h : o.conflict? = none) :
    o.stalenessSeconds ≤ o.reservationSeconds := by
  simp only [conflict?] at h
  split at h
  case isTrue => cases h
  case isFalse hle => exact Nat.not_lt.1 hle

/-- A reservation made at `made` has ended after so many milliseconds, and a status of the time
`synced` need not be older than it may be: reservations last no longer than statuses, and no time
has passed between the two, or a leap second, which the clock did not count. -/
def Lapses (o : Options) (made synced : Time) (ms : Nat) : Prop :=
  o.reservationSeconds = o.stalenessSeconds ∧ (synced = made ∨ synced.isLeap = true) ∧
    o.reservationSeconds * millisPerSecond ≤ ms

instance (o : Options) (made synced : Time) (ms : Nat) : Decidable (o.Lapses made synced ms) :=
  inferInstanceAs (Decidable (_ ∧ _ ∧ _))

end Options

namespace Time

/-- How long a status may be fresh after a time that is not before it. -/
theorem bounds_of_fresh {start synced : Time} {made ms tolerance : Nat}
    (hnano : synced.nano < 2_000_000_000) (hle : ¬ (start.plusMillis made).before synced = true)
    (hfresh : Snapshot.isFresh (start.plusMillis (made + ms)) synced tolerance = true) :
    ms < tolerance + 1000 ∧
      (tolerance ≤ ms → synced = start.plusMillis made ∨ synced.isLeap = true) := by
  have hlater := nano_plusMillis_lt start (made + ms)
  have hcount := nanos_plusMillis start (made + ms)
  have hcount' := nanos_plusMillis start made
  have horder := le_of_not_before hle
  simp only [Snapshot.isFresh, Bool.and_eq_true, decide_eq_true_eq] at hfresh
  -- the distance in time is not less than the one that is counted
  have hage : (start.plusMillis (made + ms)).nanos - synced.nanos ≤
      (start.plusMillis (made + ms)).since synced := by
    rcases since_cases hlater with h | ⟨-, h⟩
    · exact le_of_eq h.symm
    · have hsecond : nanosPerSecond = 1_000_000_000 := rfl
      omega
  have hgap : (start.plusMillis made).nanos - synced.nanos + ms * 1_000_000 ≤
      tolerance * 1_000_000 := by omega
  constructor
  · simp only [nanos, nanosPerSecond] at hgap
    omega
  · intro hms
    cases hleap : synced.isLeap with
    | true => exact .inr rfl
    | false =>
      refine .inl ?_
      have hshort : synced.nano < 1_000_000_000 := by simpa [isLeap] using hleap
      have hshort' := nano_plusMillis_lt start made
      generalize start.plusMillis made = t at *
      obtain ⟨second, nano⟩ := synced
      obtain ⟨second', nano'⟩ := t
      simp only [nanos, nanosPerSecond] at hgap horder hshort hshort'
      obtain rfl : second = second' := by omega
      obtain rfl : nano = nano' := by omega
      rfl

end Time

namespace Server

open Serving (now)

variable {o : Options} {host : String} {p : Server} {l : Ledger} {quota name : String}
  {usage observed : ResourceList} {x : Reservation} {q : Quota} {scope : Scope}
  {resources : KeySet ResourceName} {ms : Nat} {s : Snapshot} {synced : Time}

/-- A reservation that was made at the time of a status or later lives while the status is accepted,
and the reading keeps it unless the status shows it, exactly if it does not lapse. -/
theorem isLive_iff_of_fresh (ho : o.conflict? = none) (hp : p.settings = o.settings host)
    (hx : l.reserved? (now p).millis (now p).wall p.settings.rules.reservationTtl quota name usage
      observed = some x)
    (hs : Snapshot.ofStatus? q scope resources p.settings.rules.staleness (now (p.pass ms)).wall =
      some s)
    (hsynced : s.synced = some synced) (hle : ¬ (now p).wall.before synced = true) :
    (x.isLive (now (p.pass ms)).millis = true ↔ ¬ o.Lapses (now p).wall synced ms) ∧
      ∀ l' : Ledger, x ∈ l'.under quota →
        (x ∈ (l'.pending (now (p.pass ms)).millis quota s resources).2.under quota ↔
          ¬ o.Lapses (now p).wall synced ms ∧ x.isShown s resources = false) := by
  have hlive : x.isLive (now (p.pass ms)).millis = true ↔ ¬ o.Lapses (now p).wall synced ms := by
    obtain ⟨synced', used, namespaces, hparse, hfresh, -, -, -, -, rfl⟩ :=
      Snapshot.ofStatus?_eq_some_iff.1 hs
    obtain rfl : synced' = synced := Option.some.inj hsynced
    obtain ⟨text, -, hread⟩ := Option.bind_eq_some_iff.1 hparse
    have hlasting := Options.staleness_le_reservation ho
    rw [hp] at hfresh hx
    obtain ⟨hbound, hequal⟩ := Time.bounds_of_fresh (Time.nano_ofRfc3339?_lt hread) hle hfresh
    have hend : x.isLive (now (p.pass ms)).millis = true ↔
        ms < o.reservationSeconds * millisPerSecond := by
      rw [Ledger.eq_of_reserved? l _ hx, Reservation.isLive, decide_eq_true_iff]
      exact Nat.add_lt_add_iff_left
    rw [hend]
    simp only [Options.settings, Options.Lapses, millisPerSecond] at hbound hequal ⊢
    constructor
    · rintro hlt ⟨-, -, hms⟩
      omega
    · intro hnot
      by_contra hended
      have hsame : o.reservationSeconds = o.stalenessSeconds := by omega
      exact hnot ⟨hsame, hequal (by omega), by omega⟩
  refine ⟨hlive, fun l' hmem => ?_⟩
  have hnotBefore : s.synced.any x.reservedAt.before = false := by
    rw [hsynced, Ledger.eq_of_reserved? l _ hx]
    simpa using hle
  rw [Ledger.under_pending, if_pos rfl, Ledger.unseen, List.mem_filter, Bool.and_eq_true, hlive,
    Reservation.isObserved_eq, hnotBefore]
  simp [hmem]

/-! A pod is admitted at the very time at which the status of the quota was computed. Statuses and
reservations last equally long. -/

private def equalTimes : Options := { stalenessSeconds := 15, reservationSeconds := 15 }

private def onStart : Server := .start (equalTimes.settings "controller") ⟨10, 0⟩

private def podCount (n : String) : WrittenAmounts := Table.ofList [("pods", n)]

private def syncedQuota : Quota where
  metadata := ⟨some "team", none, none, none, none, []⟩
  spec := ⟨none, podCount "1"⟩
  status := some ⟨⟨podCount "1", podCount "0"⟩, [⟨"ns", podCount "0"⟩],
    some "1970-01-01T00:00:10Z"⟩

private def oneNamespace : Scope :=
  Scope.resolve (equalTimes.settings "controller").rules.exclusions syncedQuota
    [⟨"ns", Table.empty⟩]

private def podsOnly : KeySet ResourceName := KeySet.ofList [.pods]

private def amountOfPods (n : Int) : ResourceList := .ofPairs [(.pods, .ofUnits n)]

private def beforePod : Snapshot :=
  ⟨.status, amountOfPods 0, Table.ofList [("ns", amountOfPods 0)], some ⟨10, 0⟩⟩

private def podOnStart : Reservation := ⟨"ns", amountOfPods 1, amountOfPods 1, ⟨10, 0⟩, 15000⟩

private def reservedOnStart : Ledger := Ledger.put Table.empty "team" [podOnStart]

private theorem reserved?_onStart :
    Ledger.reserved? Table.empty (now onStart).millis (now onStart).wall
      onStart.settings.rules.reservationTtl "team" "ns" (amountOfPods 1) (amountOfPods 0) =
        some podOnStart := by
  decide +kernel

theorem isLive_iff_of_fresh_lastMillisecond :
    podOnStart.isLive (now (onStart.pass 14999)).millis = true ∧
      podOnStart ∈ (reservedOnStart.pending (now (onStart.pass 14999)).millis "team" beforePod
        podsOnly).2.under "team" := by
  have hoptions : equalTimes.conflict? = none := by decide +kernel
  have hsettings : onStart.settings = equalTimes.settings "controller" := rfl
  have hread : Snapshot.ofStatus? syncedQuota oneNamespace podsOnly
      onStart.settings.rules.staleness (now (onStart.pass 14999)).wall = some beforePod := by
    decide +kernel
  have hlives : ¬ equalTimes.Lapses (now onStart).wall ⟨10, 0⟩ 14999 := by decide +kernel
  obtain ⟨hlive, hkept⟩ := isLive_iff_of_fresh hoptions hsettings reserved?_onStart hread rfl
    (by decide +kernel)
  exact ⟨hlive.2 hlives, (hkept reservedOnStart (by decide +kernel)).2
    ⟨hlives, by decide +kernel⟩⟩

/-- A millisecond later the status is still accepted, and the reading drops the reservation. -/
theorem dropped_of_equal_times :
    equalTimes.conflict? = none ∧ onStart.settings = equalTimes.settings "controller" ∧
      Ledger.reserved? Table.empty (now onStart).millis (now onStart).wall
        onStart.settings.rules.reservationTtl "team" "ns" (amountOfPods 1) (amountOfPods 0) =
          some podOnStart ∧
      Snapshot.ofStatus? syncedQuota oneNamespace podsOnly onStart.settings.rules.staleness
        (now (onStart.pass 15000)).wall = some beforePod ∧
      podOnStart.isLive (now (onStart.pass 15000)).millis = false ∧
      (reservedOnStart.pending (now (onStart.pass 15000)).millis "team" beforePod podsOnly).2.under
        "team" = [] := by
  refine ⟨by decide +kernel, rfl, reserved?_onStart, ?_⟩
  decide +kernel

end Server

end SharedQuota
