import SharedQuota.Proofs.Gathering.Turn

/-!
A gathering that nothing else runs beside, from its start to its end. A read is late if it is not
ready when its deadline is looked at. Main statements: if every read answers and none is late, the
gathering ends with their answers (`finish_of_answers`), and if some read fails or is late it ends
with the fault of one that does (`finish_of_goesWrong`). There are rounds enough for either
(`HasRounds.run`).
-/

namespace SharedQuota

namespace Fetch

variable {α : Type} {f : Fetch α} {since deadline : Nat}

/-- The read is not ready when its deadline is looked at. What has come is taken even then, but what
makes requests takes its first answer only behind a look at the deadline. -/
def IsLate (f : Fetch α) (since deadline : Nat) : Prop :=
  if f.requests = [] then f.delay ≠ 0 ∧ deadline < since + f.delay else deadline ≤ since

def GoesWrong (f : Fetch α) (since deadline : Nat) : Prop :=
  (∃ fault, f.answer = .error fault) ∨ f.IsLate since deadline

structure Answers (f : Fetch α) (since deadline : Nat) (a : α) : Prop where
  answer : f.answer = .ok a
  inTime : ¬ f.IsLate since deadline

theorem not_goesWrong_iff : ¬ f.GoesWrong since deadline ↔ ∃ a, f.Answers since deadline a := by
  constructor
  · intro h
    obtain ⟨hanswer, hlate⟩ := not_or.1 h
    cases hf : f.answer with
    | error fault => exact absurd ⟨fault, hf⟩ hanswer
    | ok a => exact ⟨a, hf, hlate⟩
  · rintro ⟨a, hanswer, hlate⟩ (⟨fault, hfault⟩ | h)
    · rw [hanswer] at hfault
      cases hfault
    · exact hlate h

/-- The fault that a gathering has of the read for a namespace. -/
inductive HasFault (f : Fetch ResourceList) (name : String) (since deadline : Nat) :
    GatherFault → Prop
  | failed {why} (h : f.answer = .error (.failed why)) :
    HasFault f name since deadline (.failed name why)
  | panicked (h : f.answer = .error .panicked) : HasFault f name since deadline .panicked
  | late (h : f.IsLate since deadline) : HasFault f name since deadline (.late name)

theorem HasFault.goesWrong {f : Fetch ResourceList} {name : String} {fault : GatherFault}
    (h : f.HasFault name since deadline fault) : f.GoesWrong since deadline := by
  cases h with
  | failed h => exact .inl ⟨_, h⟩
  | panicked h => exact .inl ⟨_, h⟩
  | late h => exact .inr h

end Fetch

/-- A read that runs while time stands still, if it has requests to make, and sends them before its
deadline only; and what has come of it without fault or with one. -/
structure Member.IsPrompt (fetch : Fetch ResourceList) (name : String)
    (deadline since now : Nat) (m : Member) : Prop where
  running : ∀ flight, m.flight? = some flight →
    (flight.requests ≠ [] → now = since) ∧ (flight.sent = true → since < deadline)
  done : ∀ usage, m = .done usage → fetch.requests ≠ [] → since < deadline
  broken : ∀ fault, m = .broken fault → fetch.HasFault name since deadline fault

namespace Member

variable {round r : Round} {name : String} {flight : Flight ResourceList} {deadline since now : Nat}
  {turn : Turn ResourceList} {m : Member} {fetch : Fetch ResourceList}

theorem Follows.isPrompt (h : m.Follows round name turn)
    (hturned : flight.Turned r deadline round turn) (hflight : flight.IsFor fetch since)
    (hsince : since ≤ r.millis) (hstill : flight.requests ≠ [] → r.millis = since)
    (hsent : flight.sent = true → since < deadline) :
    m.IsPrompt fetch name deadline since r.millis := by
  have hrequests : flight.requests = [] ↔ fetch.requests = [] := hflight.requests
  cases hturned with
  | waits keeps _ _ _ sent =>
    cases h with
    | waits =>
      refine ⟨fun f hf => ?_, by simp, by simp⟩
      cases hf
      refine ⟨fun hne => hstill fun hnil => hne (keeps.requests.2 hnil), fun hnow => ?_⟩
      rcases sent hnow with hbefore | hlt
      · exact hsent hbefore
      · omega
  | ready _ _ _ sent =>
    have hanswer := hflight.answer
    generalize flight.answer = answer at h hanswer
    cases h with
    | done =>
      refine ⟨by simp [flight?], fun _ _ hne => hsent (sent fun hnil => hne (hrequests.1 hnil)), ?_⟩
      simp
    | failed =>
      refine ⟨by simp [flight?], by simp, fun _ hfault => ?_⟩
      cases hfault
      exact .failed hanswer.symm
  | late late _ _ ahead =>
    cases h with
    | late =>
      refine ⟨by simp [flight?], by simp, fun _ hfault => ?_⟩
      cases hfault
      refine .late ?_
      rw [Fetch.IsLate]
      split
      case isTrue hnil =>
        obtain ⟨d, hd, hlt⟩ := ahead (hrequests.2 hnil)
        have hdueAt := hflight.dueAt
        rw [hd, Flight.start] at hdueAt
        split at hdueAt
        case isTrue => cases hdueAt
        case isFalse hdelay =>
          cases hdueAt
          exact ⟨hdelay, by omega⟩
      case isFalse hne =>
        have := hstill fun hnil => hne (hrequests.1 hnil)
        omega

end Member

namespace Gathering

variable {c : Cluster} {names : List String} {resources : KeySet ResourceName}
  {deadline since now : Nat} {r r' : Round} {g g' : Gathering} {order : List Nat} {i : Nat}

/-- Reads that were sent out at an instant and had all their turns since, with time passing only
when each of them waits for it. -/
structure IsPrompt (c : Cluster) (names : List String) (resources : KeySet ResourceName)
    (deadline since now : Nat) (g : Gathering) : Prop where
  isFor : g.IsFor c names resources deadline since now
  ahead : since ≤ now
  inTime : now ≤ max since deadline
  members : ∀ m ∈ g.members, m.2.IsPrompt (c.usage m.1 resources) m.1 deadline since now
  quiet : g.fault? = none

/-! ### Turns -/

/-- What holds of the reads after a turn of one of them. -/
theorem Poll.isPrompt_members (h : Poll r g i r' g')
    (hg : g.IsFor c names resources deadline since r.millis) (hahead : since ≤ r.millis)
    (hmembers : ∀ m ∈ g.members,
      m.2.IsPrompt (c.usage m.1 resources) m.1 deadline since r.millis) :
    ∀ m ∈ g'.members, m.2.IsPrompt (c.usage m.1 resources) m.1 deadline since r.millis := by
  cases h with
  | @intro name flight wake timedAt turn member turns running turned follows =>
    intro m hm
    rcases List.mem_or_eq_of_mem_set hm with hm | rfl
    · exact hmembers m hm
    · have hmem := List.mem_of_getElem? running
      obtain ⟨hstill, hsent⟩ := (hmembers _ hmem).running flight rfl
      cases hg.members _ hmem with
      | running isFor =>
        exact follows.isPrompt (hg.deadline_eq ▸ turned) isFor hahead hstill hsent

theorem Polls.isPrompt_members (h : Polls order r g r' g')
    (hg : g.IsFor c names resources deadline since r.millis) (hahead : since ≤ r.millis)
    (hmembers : ∀ m ∈ g.members,
      m.2.IsPrompt (c.usage m.1 resources) m.1 deadline since r.millis) :
    ∀ m ∈ g'.members, m.2.IsPrompt (c.usage m.1 resources) m.1 deadline since r.millis := by
  induction h with
  | nil => exact hmembers
  | skip _ _ ih => exact ih hg hahead hmembers
  | cons poll _ ih =>
    have hmillis := poll.spends.millis
    rw [← hmillis]
    exact ih (hmillis ▸ poll.isFor hg hahead) (hmillis ▸ hahead)
      (hmillis ▸ poll.isPrompt_members hg hahead hmembers)

theorem IsFor.mem_names (hg : g.IsFor c names resources deadline since now) {name : String}
    {m : Member} (hm : (name, m) ∈ g.members) : name ∈ names :=
  hg.names_eq ▸ List.mem_map.2 ⟨_, hm, rfl⟩

/-- A fault that comes of the reads is that of one of them. -/
theorem IsFor.hasFault {fault : GatherFault}
    (hg : g.IsFor c names resources deadline since r.millis)
    (hmembers : ∀ m ∈ g.members,
      m.2.IsPrompt (c.usage m.1 resources) m.1 deadline since r.millis)
    (h : g.IsFaulty r fault) :
    ∃ n ∈ names, (c.usage n resources).HasFault n since deadline fault := by
  cases h with
  | broken hm => exact ⟨_, hg.mem_names hm, (hmembers _ hm).broken _ rfl⟩
  | @panicked name flight wake timedAt r' hm turned =>
    refine ⟨name, hg.mem_names hm, .panicked ?_⟩
    cases hg.members _ hm with
    | running isFor =>
      have hanswer := isFor.answer
      generalize hturn : Turn.ready (.error .panicked) = turn at turned
      cases turned with
      | ready => rw [← Turn.ready.inj hturn] at hanswer; exact hanswer.symm
      | _ => cases hturn

theorem IsPrompt.turn (hg : g.IsPrompt c names resources deadline since r.millis)
    (hfault : (g.turn r).fault = none) :
    (g.turn r).gathering.IsPrompt c names resources deadline since r.millis := by
  refine ⟨hg.isFor.turn hg.ahead hfault, hg.ahead, hg.inTime, ?_, fault?_turn hg.quiet hfault⟩
  cases g.turns_turn r with
  | through polls => exact polls.isPrompt_members hg.isFor hg.ahead hg.members
  | faulty _ _ _ fault_eq => simp [hfault] at fault_eq

/-- A fault that ends the gathering is that of one of the reads. -/
theorem IsPrompt.hasFault {fault : GatherFault}
    (hg : g.IsPrompt c names resources deadline since r.millis)
    (hfault : (g.turn r).fault = some fault) :
    ∃ n ∈ names, (c.usage n resources).HasFault n since deadline fault := by
  cases g.turns_turn r with
  | through _ fault => simp [hfault] at fault
  | @faulty _ r₁ g₁ _ polls _ faulty fault_eq =>
    have hmillis := polls.spends.millis
    obtain rfl := Option.some.inj (fault_eq.symm.trans hfault)
    exact (hmillis ▸ polls.isFor hg.isFor hg.ahead : g₁.IsFor _ _ _ _ _ r₁.millis).hasFault
      (hmillis ▸ polls.isPrompt_members hg.isFor hg.ahead hg.members) faulty

/-! ### Time -/

theorem wakeAt_le_deadline (now : Nat) (g : Gathering) : g.wakeAt now ≤ g.deadline := by
  rw [wakeAt_eq]
  by_contra h
  exact absurd (lt_foldl_min_iff.1 (Nat.lt_of_not_le h)).1 (Nat.lt_irrefl _)

/-- Time passes to what the reads wait for, at most to their deadline, and not while one of them has
requests to make. -/
theorem IsPrompt.passes (hg : g.IsPrompt c names resources deadline since now) :
    g.IsPrompt c names resources deadline since (max now (g.wakeAt now)) := by
  have hle := g.wakeAt_le_deadline now
  rw [hg.isFor.deadline_eq] at hle
  have hahead := hg.ahead
  have hinTime := hg.inTime
  refine ⟨hg.isFor.mono (Nat.le_max_left ..), by omega, by omega, fun m hm => ?_, hg.quiet⟩
  obtain ⟨hrunning, hdone, hbroken⟩ := hg.members m hm
  refine ⟨fun flight hflight => ⟨fun hne => ?_, (hrunning flight hflight).2⟩, hdone, hbroken⟩
  have hnow := (hrunning flight hflight).1 hne
  have hstill : ¬ now < g.wakeAt now := fun hlt => by
    have hwake := (lt_wakeAt_iff.1 hlt).2 m hm flight hflight
    simp [Flight.wakeAt, hne] at hwake
  omega

theorem IsPrompt.start (c : Cluster) (names : List String) (resources : KeySet ResourceName)
    (deadline now : Nat) :
    (start now deadline c names resources).IsPrompt c names resources deadline now now := by
  refine ⟨isFor_start .., Nat.le_refl _, Nat.le_max_left .., fun m hm => ?_, ?_⟩
  · obtain ⟨n, -, rfl⟩ := List.mem_map.1 hm
    refine ⟨fun flight hflight => ?_, by simp, by simp⟩
    cases hflight
    exact ⟨fun _ => rfl, by simp [Flight.start]⟩
  · by_contra hfault
    obtain ⟨fault, hfault⟩ := Option.ne_none_iff_exists'.1 hfault
    obtain ⟨name, hbroken⟩ := exists_broken_of_fault? hfault
    obtain ⟨n, -, hn⟩ := List.mem_map.1 hbroken
    cases hn

/-! ### The answer -/

/-- When all have answered, none was late. -/
theorem IsPrompt.answers (hg : g.IsPrompt c names resources deadline since now)
    {usage : Table String ResourceList} (h : g.answer? = some usage) :
    ∀ n ∈ names, ∃ a, (c.usage n resources).Answers since deadline a := by
  obtain ⟨used, hgives, -⟩ := hg.isFor.answer h
  obtain ⟨entries, hentries, -⟩ := Option.map_eq_some_iff.1 h
  have hmap := map_eq_of_mapM hentries
  intro n hn
  refine ⟨used n, (hgives n hn).1, ?_⟩
  have hwait := (hgives n hn).2
  have hinTime := hg.inTime
  rw [Fetch.IsLate]
  split
  case isTrue hnil =>
    simp only [Fetch.wait, hnil, List.isEmpty_nil, if_true] at hwait
    omega
  case isFalse hne =>
    rw [← hg.isFor.names_eq] at hn
    obtain ⟨m, hm, rfl⟩ := List.mem_map.1 hn
    obtain ⟨e, -, he⟩ := List.mem_map.1 (hmap ▸ List.mem_map.2 ⟨m, hm, rfl⟩)
    have hprompt := hg.members m hm
    obtain ⟨name, m⟩ := m
    cases m with
    | done usage => exact Nat.not_le.2 (hprompt.done usage rfl hne)
    | _ => cases he

/-- However many rounds are given, a gathering that ends with an answer has it of all reads. -/
theorem IsPrompt.run {usage : Table String ResourceList} (fuel : Nat)
    (hg : g.IsPrompt c names resources deadline since now)
    (h : (run fuel now g).answer = .ok usage) :
    ∀ n ∈ names, ∃ a, (c.usage n resources).Answers since deadline a := by
  induction fuel generalizing now g with
  | zero => cases h
  | succ fuel ih =>
    have hturn := hg.turn (r := .start now)
    rw [Gathering.run] at h
    dsimp only at h
    cases hfault : (g.turn (.start now)).fault with
    | some fault => rw [hfault] at h; cases h
    | none =>
      rw [hfault] at h
      cases hanswer : (g.turn (.start now)).gathering.answer? with
      | some usage' => exact (hturn hfault).answers hanswer
      | none =>
        rw [hanswer] at h
        dsimp only at h
        split at h
        · exact ih (hturn hfault) h
        · exact ih (hturn hfault).passes h

/-! ### Enough rounds -/

/-- There are rounds enough until the gathering ends. -/
inductive HasRounds (now : Nat) (g : Gathering) : Nat → Prop
  | fresh {rounds} (enough : 3 * g.need + 2 ≤ rounds) : HasRounds now g rounds
  | resting {rounds} (enough : 3 * g.need + 1 ≤ rounds)
      (rests : ∀ m ∈ g.members, m.2.Rests g.deadline now) : HasRounds now g rounds
  | woken {rounds} (enough : 3 * g.need ≤ rounds) (runs : 0 < g.need) (sleeps : g.Sleeps)
      (wakes : g.wakeAt now ≤ now) : HasRounds now g rounds

theorem HasRounds.pos {rounds : Nat} (h : HasRounds now g rounds) : 0 < rounds := by
  cases h <;> omega

theorem need_pos_of_running {m : String × Member} (hm : m ∈ g.members)
    {flight : Flight ResourceList} (hflight : m.2.flight? = some flight) : 0 < g.need := by
  obtain ⟨before, after, hsplit⟩ := List.append_of_mem hm
  have hpos := flight.need_pos
  have hneed : m.2.need = flight.need := by simp [Member.need, hflight]
  rw [need, hsplit]
  simp only [List.map_append, List.map_cons, List.sum_append, List.sum_cons]
  omega

/-- While no fault shows, a read is still running until all have answered. -/
theorem exists_running (hquiet : g.fault? = none) (hanswer : g.answer? = none) :
    ∃ m ∈ g.members, ∃ flight, m.2.flight? = some flight := by
  by_contra hidle
  rw [answer?, Option.map_eq_none_iff] at hanswer
  refine absurd (isSome_mapM ?_) (by rw [hanswer]; decide)
  rintro ⟨name, m⟩ hm
  cases m with
  | running flight wake timedAt => exact absurd ⟨_, hm, flight, rfl⟩ hidle
  | done usage => rfl
  | broken fault =>
    obtain ⟨fault, hfault⟩ := exists_fault?_of_idle hm fun m hm =>
      Option.eq_none_iff_forall_ne_some.2 fun flight hflight => hidle ⟨m, hm, flight, hflight⟩
    rw [hquiet] at hfault
    cases hfault

/-- While all that runs waits for a time to come, that time is to come. -/
theorem lt_wakeAt (hrests : ∀ m ∈ g.members, m.2.Rests g.deadline now)
    (hruns : ∃ m ∈ g.members, ∃ flight, m.2.flight? = some flight) : now < g.wakeAt now := by
  have hlater : ∀ m ∈ g.members, ∀ flight, m.2.flight? = some flight →
      now < flight.wakeAt now ∧ now < g.deadline := by
    rintro ⟨name, m⟩ hm flight hflight
    cases m with
    | running =>
      cases hflight
      exact (hrests _ hm _ _ _ rfl).2
    | _ => cases hflight
  obtain ⟨m, hm, flight, hflight⟩ := hruns
  exact lt_wakeAt_iff.2 ⟨(hlater m hm flight hflight).2, fun m hm flight hflight =>
    (hlater m hm flight hflight).1⟩

/-- After a round that does not end the gathering there are still rounds enough, one less. -/
theorem HasRounds.next {fuel : Nat} (h : HasRounds now g (fuel + 1)) (hquiet : g.fault? = none)
    (hfault : (g.turn (.start now)).fault = none)
    (hanswer : (g.turn (.start now)).gathering.answer? = none) :
    HasRounds (if (g.turn (.start now)).round.again then now
      else max now ((g.turn (.start now)).gathering.wakeAt now))
      (g.turn (.start now)).gathering fuel := by
  have hspends := spends_turn hfault
  have hruns := exists_running (fault?_turn hquiet hfault) hanswer
  have hpos : 0 < (g.turn (.start now)).gathering.need := by
    obtain ⟨m, hm, flight, hflight⟩ := hruns
    exact need_pos_of_running hm hflight
  have hunits : (Round.start now).units = Round.maxUnits := rfl
  have hcovered := hspends.covered
  have hle := hspends.units_le
  by_cases hcalm : (Round.start now).IsCalm (g.turn (.start now)).round
  case neg =>
    have hfewer : (g.turn (.start now)).gathering.need < g.need := by
      have : (g.turn (.start now)).round.units ≠ (Round.start now).units := fun heq =>
        hcalm ⟨by rw [hunits]; decide, heq⟩
      omega
    cases h <;> exact .fresh (by omega)
  case pos =>
    have hnow : (Round.start now).millis = now := rfl
    obtain ⟨hrests, hsame⟩ := turn_calm hfault hcalm
    rw [hnow, ← deadline_turn hfault] at hrests
    rw [hnow] at hsame
    have hlt := lt_wakeAt hrests hruns
    have hneed : (g.turn (.start now)).gathering.need ≤ g.need := by have := hcalm.2; omega
    have hsleeps : (g.turn (.start now)).gathering.Sleeps := fun m hm flight wake timedAt hm' =>
      ⟨(hrests m hm _ _ _ hm').1, Flight.sleeps_of_lt_wakeAt (hrests m hm _ _ _ hm').2.1⟩
    -- Unless another round follows at once, time passes to the first of what is waited for.
    have hwoken (hagain : (g.turn (.start now)).round.again = false) {left : Nat}
        (henough : 3 * (g.turn (.start now)).gathering.need ≤ left) :
        HasRounds (if (g.turn (.start now)).round.again then now
          else max now ((g.turn (.start now)).gathering.wakeAt now))
          (g.turn (.start now)).gathering left := by
      rw [if_neg (by simp [hagain])]
      exact .woken henough hpos hsleeps (by rw [hsleeps.wakeAt_eq now]; omega)
    cases h with
    | fresh enough =>
      cases hagain : (g.turn (.start now)).round.again with
      | false => rw [← hagain]; exact hwoken hagain (by omega)
      | true => exact .resting (by omega) (by simpa using hrests)
    | resting enough rests =>
      have hasleep : g.Sleeps := fun m hm flight wake timedAt hm' =>
        ⟨(rests m hm _ _ _ hm').1, Flight.sleeps_of_lt_wakeAt (rests m hm _ _ _ hm').2.1⟩
      obtain ⟨hwake, hround⟩ := hsame hasleep
      refine hwoken ?_ (by omega)
      rw [hround (hwake ▸ hlt)]
      rfl
    | woken enough runs sleeps wakes =>
      have hwake := (hsame sleeps).1
      omega

/-- With rounds enough a gathering ends with the answers of all reads, or with the fault of one. -/
theorem HasRounds.run {fuel : Nat} (h : HasRounds now g fuel)
    (hg : g.IsPrompt c names resources deadline since now) :
    (∃ used : String → ResourceList,
      (∀ n ∈ names, (c.usage n resources).answer = .ok (used n)) ∧
        (run fuel now g).answer = .ok (Table.ofList (names.map fun n => (n, used n)))) ∨
    ∃ n ∈ names, ∃ fault, (c.usage n resources).HasFault n since deadline fault ∧
      (run fuel now g).answer = .error fault := by
  induction fuel generalizing now g with
  | zero => exact absurd h.pos (Nat.lt_irrefl _)
  | succ fuel ih =>
    rw [Gathering.run]
    dsimp only
    cases hfault : (g.turn (.start now)).fault with
    | some fault =>
      obtain ⟨n, hn, hhas⟩ := hg.hasFault (r := .start now) hfault
      exact .inr ⟨n, hn, fault, hhas, rfl⟩
    | none =>
      have hturn := hg.turn (r := .start now) hfault
      dsimp only
      cases hanswer : (g.turn (.start now)).gathering.answer? with
      | some usage =>
        obtain ⟨used, hgives, rfl⟩ := hturn.isFor.answer hanswer
        exact .inl ⟨used, fun n hn => (hgives n hn).1, rfl⟩
      | none =>
        have hnext := h.next hg.quiet hfault hanswer
        dsimp only
        split at hnext
        case isTrue hagain =>
          rw [if_pos hagain]
          exact ih hnext hturn
        case isFalse hagain =>
          rw [if_neg hagain]
          exact ih hnext hturn.passes

/-! ### The end -/

/-- A gathering has rounds enough. -/
theorem finish_cases (c : Cluster) (names : List String) (resources : KeySet ResourceName)
    (deadline now : Nat) :
    (∃ used : String → ResourceList,
      (∀ n ∈ names, (c.usage n resources).answer = .ok (used n)) ∧
        ((start now deadline c names resources).finish now).answer =
          .ok (Table.ofList (names.map fun n => (n, used n)))) ∨
    ∃ n ∈ names, ∃ fault, (c.usage n resources).HasFault n now deadline fault ∧
      ((start now deadline c names resources).finish now).answer = .error fault := by
  have hrounds : HasRounds now (start now deadline c names resources)
      (4 * (start now deadline c names resources).unitsLeft + 4) := by
    have := (start now deadline c names resources).need_le_unitsLeft
    exact .fresh (by omega)
  exact hrounds.run (.start c names resources deadline now)

/-- A gathering of which every read answers in time ends with their answers. -/
theorem finish_of_answers {used : String → ResourceList}
    (h : ∀ n ∈ names, (c.usage n resources).Answers now deadline (used n)) :
    ((start now deadline c names resources).finish now).answer =
      .ok (Table.ofList (names.map fun n => (n, used n))) := by
  obtain ⟨used', hused', hrun⟩ | ⟨n, hn, fault, hfault, -⟩ :=
    finish_cases c names resources deadline now
  · have heq : (names.map fun n => (n, used' n)) = names.map fun n => (n, used n) :=
      List.map_congr_left fun n hn => by
        rw [Except.ok.inj ((hused' n hn).symm.trans (h n hn).answer)]
    rw [hrun, heq]
  · exact absurd hfault.goesWrong (Fetch.not_goesWrong_iff.2 ⟨_, h n hn⟩)

/-- A gathering of which some read fails or is late ends with the fault of one that does. -/
theorem finish_of_goesWrong (h : ∃ n ∈ names, (c.usage n resources).GoesWrong now deadline) :
    ∃ n ∈ names, ∃ fault, (c.usage n resources).HasFault n now deadline fault ∧
      ((start now deadline c names resources).finish now).answer = .error fault := by
  refine (finish_cases c names resources deadline now).resolve_left ?_
  rintro ⟨used, -, hanswer⟩
  obtain ⟨n, hn, hwrong⟩ := h
  have hanswers := (IsPrompt.start c names resources deadline now).run _ hanswer n hn
  exact absurd hwrong (Fetch.not_goesWrong_iff.2 hanswers)

end Gathering

end SharedQuota
