import SharedQuota.Gathering
import SharedQuota.Proofs.Cluster.Flight
import SharedQuota.Proofs.List
import Mathlib.Data.List.Perm.Subperm

/-!
A turn of a gathering as the turns of its reads, one after the other (`Polls`). The reads stay those
that were asked for (`Polls.isFor`), the units taken are made up for (`Polls.spends`), and while the
round stays calm each read that has its turn is found to wait for a time that is to come
(`Polls.calm`). Main statement (`turns_giveTurns`): the turns of a gathering are those.
-/

namespace SharedQuota

open Round (Spends IsCalm)

namespace Member

def flight? : Member → Option (Flight ResourceList)
  | .running flight _ _ => some flight
  | _ => none

def need (m : Member) : Nat := (m.flight?.map Flight.need).getD 0

/-- What is entered for a read after a turn of it. -/
inductive Follows (round : Round) (name : String) : Turn ResourceList → Member → Prop
  | waits {flight wake timedAt}
      (hwake : wake = Wake.time ↔ round.units ≠ 0 ∧ flight.requests = []) :
    Follows round name (.waits flight) (.running flight wake timedAt)
  | done {usage} : Follows round name (.ready (.ok usage)) (.done usage)
  | failed {why} :
    Follows round name (.ready (.error (.failed why))) (.broken (.failed name why))
  | late : Follows round name .late (.broken (.late name))

/-- If the read runs, it waits for a time that is to come, and its deadline is to come too. -/
def Rests (deadline now : Nat) (m : Member) : Prop :=
  ∀ flight wake timedAt, m = .running flight wake timedAt →
    wake = .time ∧ now < flight.wakeAt now ∧ now < deadline

/-- What shows of a read that has not answered: its fault, if it has one. -/
def shown : Member → Option (Option GatherFault)
  | .running _ _ _ => some none
  | .done _ => none
  | .broken fault => some (some fault)

/-- The read is one that was sent out at an instant, or what has come of it. -/
inductive IsFor (fetch : Fetch ResourceList) (deadline since now : Nat) : Member → Prop
  | running {flight wake timedAt} (isFor : flight.IsFor fetch since)
      (sleeps : wake = Wake.time → flight.Sleeps) :
    IsFor fetch deadline since now (.running flight wake timedAt)
  | done {usage} (gives : fetch.Gives since now usage) :
    IsFor fetch deadline since now (.done usage)
  | broken {fault} (cause : deadline ≤ now ∨ fetch.Fails since now) :
    IsFor fetch deadline since now (.broken fault)

variable {round r : Round} {name : String} {flight : Flight ResourceList} {deadline since now : Nat}
  {turn : Turn ResourceList} {m : Member} {fetch : Fetch ResourceList}

theorem IsFor.mono (h : m.IsFor fetch deadline since now) {later : Nat} (hle : now ≤ later) :
    m.IsFor fetch deadline since later := by
  cases h with
  | running isFor sleeps => exact .running isFor sleeps
  | done gives => exact .done (gives.mono hle)
  | broken cause => exact .broken (cause.imp (Nat.le_trans · hle) (·.mono hle))

namespace Follows

theorem spends (h : m.Follows round name turn) (hturned : flight.Turned r deadline round turn) :
    r.Spends round flight.need m.need := by
  cases hturned with
  | waits keeps spends => cases h with | waits => exact spends
  | ready due spends =>
    generalize flight.answer = answer at h
    cases h <;> exact spends
  | late late spends => cases h with | late => exact spends

theorem calm (h : m.Follows round name turn) (hturned : flight.Turned r deadline round turn)
    (hcalm : r.IsCalm round) :
    round = r ∧ m.Rests deadline r.millis ∧ (flight.Sleeps → m.flight? = some flight) := by
  cases hturned with
  | waits keeps spends sleeps calm =>
    cases h with
    | waits wake =>
      obtain ⟨hround, rfl, hlt, hdeadline⟩ := calm hcalm
      refine ⟨hround, fun f w t hm => ?_, fun _ => rfl⟩
      cases hm
      refine ⟨wake.2 ⟨?_, (Flight.sleeps_of_lt_wakeAt hlt).1⟩, hlt, hdeadline⟩
      have := hcalm.1
      have := hcalm.2
      omega
  | ready due spends calm =>
    obtain ⟨hround, hawake⟩ := calm hcalm
    generalize flight.answer = answer at h
    cases h <;> exact ⟨hround, (fun _ _ _ hm => by cases hm), fun hsleeps => absurd hsleeps hawake⟩
  | late late spends taken => exact absurd hcalm.2 (by omega)

theorem isFor (h : m.Follows round name turn) (hturned : flight.Turned r deadline round turn)
    (hflight : flight.IsFor fetch since) (hsince : since ≤ r.millis) :
    m.IsFor fetch deadline since r.millis := by
  cases hturned with
  | waits keeps spends sleeps =>
    cases h with
    | waits wake =>
      refine .running (hflight.keeps keeps) fun htime => ?_
      have hrequests := (wake.1 htime).2
      exact ⟨hrequests, sleeps hrequests⟩
  | ready due =>
    have hwait := hflight.wait_le hsince due
    have hanswer := hflight.answer
    generalize flight.answer = answer at h hanswer
    cases h with
    | done => exact .done ⟨hanswer.symm, hwait⟩
    | failed => exact .broken (.inr ⟨⟨_, hanswer.symm⟩, hwait⟩)
  | late late => cases h with | late => exact .broken (.inl late)

end Follows

end Member

namespace Gathering

/-- The read of a number, as long as it runs. -/
def flightAt (g : Gathering) (i : Nat) : Option (Flight ResourceList) :=
  g.members[i]?.bind (·.2.flight?)

def need (g : Gathering) : Nat := (g.members.map (·.2.need)).sum

/-- A turn of the read of one number that does not end the gathering. -/
inductive Poll (r : Round) (g : Gathering) (i : Nat) (r' : Round) : Gathering → Prop
  | intro {name flight wake timedAt turn member turns}
      (running : g.members[i]? = some (name, .running flight wake timedAt))
      (turned : flight.Turned r g.deadline r' turn) (follows : member.Follows r' name turn) :
    Poll r g i r' { g with members := g.members.set i (name, member), turns }

/-- Turns of the reads of some numbers, in order. What does not run has none. -/
inductive Polls : List Nat → Round → Gathering → Round → Gathering → Prop
  | nil {r g} : Polls [] r g r g
  | skip {i rest r g r' g'} (idle : g.flightAt i = none) (polls : Polls rest r g r' g') :
    Polls (i :: rest) r g r' g'
  | cons {i rest r g r₁ g₁ r' g'} (poll : Poll r g i r₁ g₁) (polls : Polls rest r₁ g₁ r' g') :
    Polls (i :: rest) r g r' g'

/-- The reads are those of the usage of some namespaces, sent out at an instant. -/
structure IsFor (c : Cluster) (names : List String) (resources : KeySet ResourceName)
    (deadline since now : Nat) (g : Gathering) : Prop where
  deadline_eq : g.deadline = deadline
  names_eq : g.members.map (·.1) = names
  members : ∀ m ∈ g.members, m.2.IsFor (c.usage m.1 resources) deadline since now

variable {r r' : Round} {g g' : Gathering} {i j : Nat} {order : List Nat}

/-! ### One read -/

namespace Poll

theorem getElem?_of_ne (h : Poll r g i r' g') (hne : j ≠ i) : g'.members[j]? = g.members[j]? := by
  cases h
  exact List.getElem?_set_ne hne.symm

theorem length_eq (h : Poll r g i r' g') : g'.members.length = g.members.length := by
  cases h
  exact List.length_set

theorem isMany_eq (h : Poll r g i r' g') : g'.isMany = g.isMany := by
  rw [isMany, isMany, h.length_eq]

theorem deadline_eq (h : Poll r g i r' g') : g'.deadline = g.deadline := by
  cases h
  rfl

theorem spends (h : Poll r g i r' g') : r.Spends r' g.need g'.need := by
  cases h with
  | @intro name flight wake timedAt turn member turns running turned follows =>
    have hspends := follows.spends turned
    have hcovered := hspends.covered
    have hneed : ((g.members.set i (name, member)).map (·.2.need)).sum + flight.need =
        (g.members.map (·.2.need)).sum + member.need := sum_map_set running
    refine ⟨hspends.millis, hspends.units_le, ?_⟩
    simp only [need]
    omega

theorem calm (h : Poll r g i r' g') (hcalm : r.IsCalm r') :
    r' = r ∧ (∀ m, g'.members[i]? = some m → m.2.Rests g.deadline r.millis) ∧
      ((∀ flight, g.flightAt i = some flight → flight.Sleeps) → g'.flightAt i = g.flightAt i) := by
  cases h with
  | @intro name flight wake timedAt turn member turns running turned follows =>
    obtain ⟨hround, hrests, hsame⟩ := follows.calm turned hcalm
    have hset : (g.members.set i (name, member))[i]? = some (name, member) :=
      List.getElem?_set_self (List.getElem?_eq_some_iff.1 running).1
    refine ⟨hround, fun m hm => ?_, fun hsleeps => ?_⟩
    · rw [hset] at hm
      exact Option.some.inj hm ▸ hrests
    · have hflight : g.flightAt i = some flight := by rw [flightAt, running]; rfl
      rw [hflight]
      simp only [flightAt, hset]
      exact hsame (hsleeps flight hflight)

theorem isFor {c : Cluster} {names : List String} {resources : KeySet ResourceName}
    {deadline since : Nat} (h : Poll r g i r' g')
    (hg : g.IsFor c names resources deadline since r.millis) (hsince : since ≤ r.millis) :
    g'.IsFor c names resources deadline since r.millis := by
  cases h with
  | @intro name flight wake timedAt turn member turns running turned follows =>
    have hmember := hg.members _ (List.mem_of_getElem? running)
    refine ⟨hg.deadline_eq, ?_, fun m hm => ?_⟩
    · rw [← hg.names_eq, List.map_set]
      obtain ⟨hi, hname⟩ := List.getElem?_eq_some_iff.1 running
      refine List.ext_getElem? fun k => ?_
      by_cases hk : i = k
      · subst hk
        simp [hi, hname]
      · rw [List.getElem?_set_ne hk]
    · rcases List.mem_or_eq_of_mem_set hm with hm | rfl
      · exact hg.members m hm
      · cases hmember with
        | running isFor => exact follows.isFor (hg.deadline_eq ▸ turned) isFor hsince

end Poll

/-! ### One after the other -/

namespace Polls

theorem spends (h : Polls order r g r' g') : r.Spends r' g.need g'.need := by
  induction h with
  | nil => exact .refl ..
  | skip _ _ ih => exact ih
  | cons poll _ ih => exact poll.spends.trans ih

theorem isFor {c : Cluster} {names : List String} {resources : KeySet ResourceName}
    {deadline since : Nat} (h : Polls order r g r' g')
    (hg : g.IsFor c names resources deadline since r.millis) (hsince : since ≤ r.millis) :
    g'.IsFor c names resources deadline since r.millis := by
  induction h with
  | nil => exact hg
  | skip _ _ ih => exact ih hg hsince
  | cons poll _ ih =>
    rw [← poll.spends.millis] at hsince ⊢
    exact ih (poll.spends.millis ▸ poll.isFor hg (poll.spends.millis ▸ hsince)) hsince

theorem getElem?_of_not_mem (h : Polls order r g r' g') (hi : i ∉ order) :
    g'.members[i]? = g.members[i]? := by
  induction h with
  | nil => rfl
  | skip _ _ ih => exact ih fun hmem => hi (List.mem_cons_of_mem _ hmem)
  | cons poll _ ih =>
    obtain ⟨hne, hrest⟩ := List.ne_and_not_mem_of_not_mem_cons hi
    rw [ih hrest, poll.getElem?_of_ne hne]

theorem length_eq (h : Polls order r g r' g') : g'.members.length = g.members.length := by
  induction h with
  | nil => rfl
  | skip _ _ ih => exact ih
  | cons poll _ ih =>
    rw [ih, poll.length_eq]

theorem deadline_eq (h : Polls order r g r' g') : g'.deadline = g.deadline := by
  induction h with
  | nil => rfl
  | skip _ _ ih => exact ih
  | cons poll _ ih => rw [ih, poll.deadline_eq]

theorem calm (h : Polls order r g r' g') (hnodup : order.Nodup) (hcalm : r.IsCalm r') :
    r' = r ∧ (∀ i ∈ order, ∀ m, g'.members[i]? = some m → m.2.Rests g.deadline r.millis) ∧
      ∀ i, (∀ flight, g.flightAt i = some flight → flight.Sleeps) →
        g'.flightAt i = g.flightAt i := by
  induction h with
  | nil => exact ⟨rfl, by simp, fun _ _ => rfl⟩
  | @skip i rest r g r' g' idle polls ih =>
    obtain ⟨hi, hrest⟩ := List.nodup_cons.1 hnodup
    obtain ⟨hround, hrests, hsame⟩ := ih hrest hcalm
    refine ⟨hround, List.forall_mem_cons.2 ⟨fun m hm => ?_, hrests⟩, hsame⟩
    rw [polls.getElem?_of_not_mem hi] at hm
    intro flight wake timedAt hrunning
    simp [flightAt, hm, hrunning, Member.flight?] at idle
  | @cons i rest r g r₁ g₁ r' g' poll polls ih =>
    obtain ⟨hi, hrest⟩ := List.nodup_cons.1 hnodup
    have hle := poll.spends.units_le
    have hle' := polls.spends.units_le
    obtain ⟨rfl, hfirst, hsameFirst⟩ := poll.calm (hcalm.left hle hle')
    obtain ⟨rfl, hrests, hsame⟩ := ih hrest (hcalm.right hle hle')
    rw [poll.deadline_eq] at hrests
    refine ⟨rfl, List.forall_mem_cons.2 ⟨fun m hm => ?_, hrests⟩, fun j hsleeps => ?_⟩
    · rw [polls.getElem?_of_not_mem hi] at hm
      exact hfirst m hm
    · have hstays : g₁.flightAt j = g.flightAt j := by
        by_cases hj : j = i
        · exact hj ▸ hsameFirst (hj ▸ hsleeps)
        · rw [flightAt, poll.getElem?_of_ne hj, flightAt]
      rw [hsame j fun flight hflight => hsleeps flight (hstays ▸ hflight), hstays]

end Polls

/-! ### Which reads run -/

def isRunningAt (g : Gathering) (i : Nat) : Bool := (g.flightAt i).isSome

theorem isRunning_eq (m : Member) : m.isRunning = m.flight?.isSome := by
  cases m <;> rfl

theorem running_eq (g : Gathering) :
    g.running = ((List.range g.members.length).filter g.isRunningAt).length := by
  rw [running, countP_eq_length_filter_range]
  congr 2
  funext i
  simp only [isRunningAt, flightAt, isRunning_eq]
  cases g.members[i]? <;> rfl

theorem length_filter_le_running (g : Gathering) (hnodup : order.Nodup) :
    (order.filter g.isRunningAt).length ≤ g.running := by
  rw [running_eq]
  refine (List.subperm_of_subset (hnodup.filter _) fun i hi => ?_).length_le
  obtain ⟨-, hrunning⟩ := List.mem_filter.1 hi
  refine List.mem_filter.2 ⟨List.mem_range.2 ?_, hrunning⟩
  simp only [isRunningAt, flightAt] at hrunning
  obtain ⟨flight, hflight⟩ := Option.isSome_iff_exists.1 hrunning
  obtain ⟨m, hm, -⟩ := Option.bind_eq_some_iff.1 hflight
  exact (List.getElem?_eq_some_iff.1 hm).1

theorem polls_of_none_runs (h : order.filter g.isRunningAt = []) : Polls order r g r g := by
  induction order with
  | nil => exact .nil
  | cons i rest ih =>
    rw [List.filter_cons] at h
    split at h
    case isTrue => cases h
    case isFalse hidle => exact .skip (by simpa [isRunningAt] using hidle) (ih h)

/-! ### Faults -/

/-- A fault of one of the reads has come. -/
inductive IsFaulty (r : Round) (g : Gathering) : GatherFault → Prop
  | broken {name fault} (h : (name, Member.broken fault) ∈ g.members) : IsFaulty r g fault
  | panicked {name flight wake timedAt r'}
      (h : (name, Member.running flight wake timedAt) ∈ g.members)
      (turned : flight.Turned r g.deadline r' (.ready (.error .panicked))) :
    IsFaulty r g .panicked

theorem exists_broken_of_fault? {fault : GatherFault} (h : g.fault? = some fault) :
    ∃ name, (name, Member.broken fault) ∈ g.members := by
  simp only [fault?] at h
  split at h
  case isTrue =>
    obtain ⟨⟨name, m⟩, hm, hfault⟩ := Option.bind_eq_some_iff.1 h
    cases m with
    | broken fault =>
      cases hfault
      exact ⟨name, List.mem_of_find?_eq_some hm⟩
    | _ => cases hfault
  case isFalse =>
    obtain ⟨⟨name, m⟩, hm, hfault⟩ := List.exists_of_findSome?_eq_some h
    cases m with
    | broken fault =>
      cases hfault
      exact ⟨name, hm⟩
    | _ => cases hfault

/-- Of many reads the first shows that has not answered, of few any with a fault. -/
theorem fault?_eq (g : Gathering) : g.fault? =
    if g.isMany then (g.members.findSome? (·.2.shown)).join
    else g.members.findSome? (·.2.shown.join) := by
  rw [fault?]
  split
  case isTrue =>
    induction g.members with
    | nil => rfl
    | cons m rest ih =>
      obtain ⟨name, m⟩ := m
      cases m with
      | done => exact ih
      | _ => rfl
  case isFalse =>
    congr 1
    funext ⟨name, m⟩
    cases m <;> rfl

/-- A fault shows when no read runs any more. -/
theorem exists_fault?_of_idle {name : String} {fault : GatherFault}
    (hm : (name, Member.broken fault) ∈ g.members) (hidle : ∀ m ∈ g.members, m.2.flight? = none) :
    ∃ fault, g.fault? = some fault := by
  rw [fault?_eq]
  split
  case isTrue =>
    obtain ⟨shown, hfirst⟩ := Option.isSome_iff_exists.1
      (List.findSome?_isSome_iff.2 ⟨_, hm, rfl⟩ : (g.members.findSome? (·.2.shown)).isSome)
    rw [hfirst]
    obtain ⟨⟨first, m⟩, hmem, hshown⟩ := List.exists_of_findSome?_eq_some hfirst
    cases m with
    | running => cases hidle _ hmem
    | done => cases hshown
    | broken fault' =>
      cases hshown
      exact ⟨fault', rfl⟩
  case isFalse =>
    exact Option.isSome_iff_exists.1 (List.findSome?_isSome_iff.2 ⟨_, hm, rfl⟩)

theorem fault?_waits {name : String} {flight flight' : Flight ResourceList} {wake wake' : Wake}
    {timedAt timedAt' : Option Nat} {turns : Nat}
    (h : g.members[i]? = some (name, .running flight wake timedAt)) :
    Gathering.fault?
      { g with members := g.members.set i (name, .running flight' wake' timedAt'), turns } =
        g.fault? := by
  have hmany : Gathering.isMany
      { g with members := g.members.set i (name, .running flight' wake' timedAt'), turns } =
        g.isMany := by
    rw [isMany, isMany, List.length_set]
  rw [fault?_eq, fault?_eq, hmany]
  congr 1
  · exact congrArg Option.join (findSome?_set h rfl)
  · exact findSome?_set h rfl

/-- What turns of a gathering come to: all that were to be given are, or a fault ends them. Of many
reads, those that run may all have been found waiting, and then another round is asked for. -/
inductive Turns (order : List Nat) (r : Round) (g : Gathering) (p : Progress) : Prop
  | through {r₁} (polls : Polls order r g r₁ p.gathering) (fault : p.fault = none)
      (round : p.round = r₁ ∨ g.isMany = true ∧ order ≠ [] ∧ p.round = r₁.retry)
      (quiet : g.fault? = none → p.gathering.fault? = none)
  | faulty {given r₁ g₁ fault} (polls : Polls given r g r₁ g₁) (millis : p.round.millis = r₁.millis)
      (faulty : g₁.IsFaulty r₁ fault) (fault_eq : p.fault = some fault)

namespace Turns

variable {p : Progress} {rest : List Nat}

theorem skip (hidle : g.flightAt i = none) (h : Turns rest r g p) : Turns (i :: rest) r g p := by
  cases h with
  | through polls fault round quiet =>
    refine .through (.skip hidle polls) fault (round.imp_right ?_) quiet
    exact fun ⟨hmany, _, hround⟩ => ⟨hmany, by simp, hround⟩
  | faulty polls millis faulty fault_eq => exact .faulty polls millis faulty fault_eq

theorem cons (poll : Poll r g i r' g') (hquiet : g.fault? = none → g'.fault? = none)
    (h : Turns rest r' g' p) : Turns (i :: rest) r g p := by
  cases h with
  | through polls fault round quiet =>
    refine .through (.cons poll polls) fault (round.imp_right ?_) fun h => quiet (hquiet h)
    exact fun ⟨hmany, _, hround⟩ => ⟨poll.isMany_eq ▸ hmany, by simp, hround⟩
  | faulty polls millis faulty fault_eq => exact .faulty (.cons poll polls) millis faulty fault_eq

theorem shows {fault : GatherFault} (poll : Poll r g i r' g') (hshows : g'.fault? = some fault)
    (hround : p.round = r') (hfault : p.fault = some fault) : Turns (i :: rest) r g p := by
  obtain ⟨name, hbroken⟩ := exists_broken_of_fault? hshows
  exact .faulty (.cons poll .nil) (hround ▸ rfl) (.broken hbroken) hfault

/-- When as many reads run as were found waiting, none of those that are left does. -/
theorem exits (poll : Poll r g i r' g') (hidle : (rest.filter g'.isRunningAt).length = 0)
    (hmany : g'.isMany = true) (hgathering : p.gathering = g') (hround : p.round = r'.retry)
    (hfault : p.fault = none) (hquiet : g.fault? = none → g'.fault? = none) :
    Turns (i :: rest) r g p := by
  have hrest := polls_of_none_runs (r := r') (List.length_eq_zero_iff.1 hidle)
  exact .through (hgathering ▸ .cons poll hrest) hfault
    (.inr ⟨poll.isMany_eq ▸ hmany, by simp, hround⟩) (hgathering ▸ hquiet)

/-- A read has come to its end: the others have their turns unless its failure shows. -/
theorem settles (poll : Poll r g i p.round p.gathering)
    (h : Turns rest p.round p.gathering (giveTurns rest 0 p)) :
    Turns (i :: rest) r g (match p.gathering.fault? with
      | some fault => { p with fault := some fault }
      | none => giveTurns rest 0 p) := by
  split
  case h_1 hshows => exact .shows poll hshows rfl rfl
  case h_2 hquiet => exact .cons poll (fun _ => hquiet) h

end Turns

theorem flightAt_eq_none (h : ∀ name flight wake timedAt,
    g.members[i]? ≠ some (name, .running flight wake timedAt)) : g.flightAt i = none := by
  simp only [flightAt]
  cases hm : g.members[i]? with
  | none => rfl
  | some entry =>
    obtain ⟨name, m⟩ := entry
    cases m with
    | running flight wake timedAt => exact absurd hm (h name flight wake timedAt)
    | _ => rfl

theorem waiting_wake (turn : Nat) (before after : Round) (flight : Flight ResourceList)
    (timedAt : Option Nat) : ∃ wake timedAt',
      Member.waiting turn before after flight timedAt = .running flight wake timedAt' ∧
        (wake = Wake.time ↔ after.units ≠ 0 ∧ flight.requests = []) := by
  refine ⟨_, _, rfl, ?_⟩
  by_cases hunits : after.units = 0
  · simp [hunits]
  · by_cases hrequests : flight.requests = [] <;> simp [hunits, hrequests]

theorem isRunningAt_waits {name : String} {flight flight' : Flight ResourceList} {wake wake' : Wake}
    {timedAt timedAt' : Option Nat} {turns : Nat}
    (h : g.members[i]? = some (name, .running flight wake timedAt)) :
    Gathering.isRunningAt
      { g with members := g.members.set i (name, .running flight' wake' timedAt'), turns } =
        g.isRunningAt := by
  funext j
  by_cases hj : j = i
  · subst hj
    have hlt := (List.getElem?_eq_some_iff.1 h).1
    simp [isRunningAt, flightAt, h, List.getElem?_set_self hlt, Member.flight?]
  · simp [isRunningAt, flightAt, List.getElem?_set_ne (Ne.symm hj)]

theorem Poll.counts {waiting : Nat} {rest : List Nat} (poll : Poll r g i r' g')
    (hruns : g.isRunningAt i = true) (hsame : g'.isRunningAt = g.isRunningAt)
    (hwaiting : waiting + ((i :: rest).filter g.isRunningAt).length ≤ g.running) :
    waiting + 1 + (rest.filter g'.isRunningAt).length ≤ g'.running := by
  have hrunning : g'.running = g.running := by rw [running_eq, running_eq, hsame, poll.length_eq]
  rw [List.filter_cons_of_pos hruns, List.length_cons] at hwaiting
  rw [hsame, hrunning]
  omega

theorem turns_giveTurns (order : List Nat) (waiting : Nat) (p : Progress) (hnodup : order.Nodup)
    (hwaiting : waiting + (order.filter p.gathering.isRunningAt).length ≤ p.gathering.running)
    (hfault : p.fault = none) :
    Turns order p.round p.gathering (giveTurns order waiting p) := by
  induction order generalizing waiting p with
  | nil => exact .through .nil hfault (.inl rfl) id
  | cons i rest ih =>
    obtain ⟨hi, hrest⟩ := List.nodup_cons.1 hnodup
    have hreset (g : Gathering) : 0 + (rest.filter g.isRunningAt).length ≤ g.running := by
      simpa using g.length_filter_le_running hrest
    rw [giveTurns]
    split
    case h_1 name flight wake timedAt hm =>
      dsimp only
      have hturned := Flight.turned p.round p.gathering.deadline flight
      generalize flight.turnBy p.round p.gathering.deadline = out at hturned ⊢
      obtain ⟨r₁, requests, turn⟩ := out
      dsimp only at hturned ⊢
      have hpoll {m : Member} (hfollows : m.Follows r₁ name turn) :
          Poll p.round p.gathering i r₁ { p.gathering with
            members := p.gathering.members.set i (name, m), turns := p.gathering.turns + 1 } :=
        .intro hm hturned hfollows
      split
      case h_1 flight' =>
        obtain ⟨wake', timedAt', hwaits, hwake⟩ :=
          waiting_wake (p.gathering.turns + 1) p.round r₁ flight' timedAt
        have hruns : p.gathering.isRunningAt i = true := by
          simp [isRunningAt, flightAt, hm, Member.flight?]
        rw [hwaits]
        generalize hq : Progress.put _ i name (.running flight' wake' timedAt') = q
        have hround : q.round = r₁ := hq ▸ rfl
        have hgathering : q.gathering = { p.gathering with
            members := p.gathering.members.set i (name, .running flight' wake' timedAt')
            turns := p.gathering.turns + 1 } := hq ▸ rfl
        have hpoll : Poll p.round p.gathering i q.round q.gathering :=
          hround ▸ hgathering ▸ hpoll (.waits hwake)
        have hsame := hgathering ▸ isRunningAt_waits hm
        have hcounts := hpoll.counts hruns hsame hwaiting
        have hquiet : p.gathering.fault? = none → q.gathering.fault? = none := by
          rw [hgathering, fault?_waits hm]
          exact id
        split
        case isTrue hall =>
          simp only [Bool.and_eq_true, decide_eq_true_eq] at hall
          exact .exits hpoll (by omega) hall.1 rfl rfl (hq ▸ hfault) hquiet
        case isFalse => exact .cons hpoll hquiet (ih _ q hrest hcounts (hq ▸ hfault))
      case h_2 =>
        simp only [Progress.put]
        refine .settles (p := ⟨r₁, _, _, _, _⟩) ?_ ?_
        · exact hpoll .done
        · exact ih 0 _ hrest (hreset _) hfault
      case h_3 =>
        exact .faulty .nil hturned.millis_eq (.panicked (List.mem_of_getElem? hm) hturned) rfl
      case h_4 =>
        refine .settles ?_ ?_
        · exact hpoll .failed
        · exact ih 0 _ hrest (hreset _) hfault
      case h_5 =>
        refine .settles ?_ ?_
        · exact hpoll .late
        · exact ih 0 _ hrest (hreset _) hfault
    case h_2 hidle =>
      have hnone := flightAt_eq_none hidle
      rw [List.filter_cons_of_neg (by simp [isRunningAt, hnone])] at hwaiting
      exact .skip hnone (ih waiting p hrest hwaiting hfault)

end Gathering

end SharedQuota
