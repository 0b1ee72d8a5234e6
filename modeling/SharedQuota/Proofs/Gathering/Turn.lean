import SharedQuota.Proofs.Gathering.Polls

/-!
A turn of a whole gathering. Main statements: what is left are reads of the same (`IsFor.turn`), an
answer is made up of what each namespace uses (`IsFor.answer`), a fault has a cause
(`IsFor.fault`), and after a turn in which the round stays calm all that is left waits for times to
come (`turn_calm`).
-/

namespace SharedQuota

namespace Gathering

variable {r r' : Round} {g g' : Gathering} {i : Nat}

/-! ### A turn of all -/

theorem nodup_order (now : Nat) (g : Gathering) : (g.order now).Nodup := by
  simp only [order]
  split
  case isFalse => exact List.nodup_range
  case isTrue =>
    have hzip : (g.members.zipIdx.map (·.2)).Nodup := by
      rw [List.zipIdx_map_snd]
      exact List.nodup_range'
    refine ((List.mergeSort_perm ..).map _).nodup_iff.2 (hzip.sublist ?_)
    rw [List.map_filterMap]
    refine filterMap_sublist_map (fun e i hi => ?_) _
    simp only [Option.map_map, Option.map_eq_some_iff] at hi
    obtain ⟨-, -, rfl⟩ := hi
    rfl

theorem rests_of_not_mem_order {now : Nat} (hi : i ∉ g.order now) {m : String × Member}
    (hm : g.members[i]? = some m) : m.2.Rests g.deadline now := by
  have hlt := (List.getElem?_eq_some_iff.1 hm).1
  simp only [order] at hi
  split at hi
  case isFalse => exact absurd (List.mem_range.2 hlt) hi
  case isTrue =>
    intro flight wake timedAt hrunning
    have hrank : m.2.rank? now g.deadline = none := by
      cases hrank : m.2.rank? now g.deadline with
      | none => rfl
      | some rank =>
        refine absurd (List.mem_map.2 ⟨(rank, i), (List.mergeSort_perm ..).mem_iff.2 ?_, rfl⟩) hi
        refine List.mem_filterMap.2 ⟨(m, i), List.mk_mem_zipIdx_iff_getElem?.2 hm, ?_⟩
        simp [hrank]
    rw [hrunning] at hrank
    cases wake with
    | time =>
      simp only [Member.rank?] at hrank
      split at hrank
      case isTrue => cases hrank
      case isFalse hlater =>
        simp only [Bool.or_eq_true, decide_eq_true_eq, not_or, Nat.not_le] at hlater
        exact ⟨rfl, hlater⟩
    | _ => cases hrank

/-- Every read that runs waits for a time, and for nothing else. -/
def Sleeps (g : Gathering) : Prop :=
  ∀ m ∈ g.members, ∀ flight wake timedAt, m.2 = .running flight wake timedAt →
    wake = Wake.time ∧ flight.Sleeps

theorem wakeAt_eq (now : Nat) (g : Gathering) : g.wakeAt now =
    ((g.members.map (·.2.flight?)).filterMap fun f => f.map (·.wakeAt now)).foldl min
      g.deadline := by
  rw [wakeAt, List.filterMap_map]
  congr 2
  funext m
  obtain ⟨name, m⟩ := m
  cases m <;> rfl

theorem lt_wakeAt_iff {now : Nat} : now < g.wakeAt now ↔
    now < g.deadline ∧ ∀ m ∈ g.members, ∀ flight, m.2.flight? = some flight →
      now < flight.wakeAt now := by
  rw [wakeAt_eq, lt_foldl_min_iff]
  refine and_congr_right fun _ => ?_
  simp only [List.mem_filterMap, List.mem_map, Option.map_eq_some_iff]
  constructor
  · intro h m hm flight hflight
    exact h _ ⟨_, ⟨m, hm, rfl⟩, flight, hflight, rfl⟩
  · rintro h _ ⟨_, ⟨m, hm, rfl⟩, flight, hflight, rfl⟩
    exact h m hm flight hflight

theorem map_flight?_eq (hlength : g'.members.length = g.members.length)
    (h : ∀ i, g'.flightAt i = g.flightAt i) :
    g'.members.map (·.2.flight?) = g.members.map (·.2.flight?) := by
  refine List.ext_getElem (by simpa using hlength) fun i hi' hi => ?_
  have hflight := h i
  simp only [List.length_map] at hi hi'
  simpa [flightAt, hi, hi'] using hflight

theorem Sleeps.wakeAt_eq (h : g.Sleeps) (now later : Nat) : g.wakeAt later = g.wakeAt now := by
  rw [Gathering.wakeAt_eq, Gathering.wakeAt_eq, List.filterMap_map, List.filterMap_map]
  congr 1
  refine List.filterMap_congr fun m hm => ?_
  obtain ⟨name, m⟩ := m
  cases m with
  | running flight wake timedAt =>
    have hflight := (h _ hm _ _ _ rfl).2
    simp [Member.flight?, hflight.wakeAt_eq now later]
  | _ => rfl

/-- When its reads wait for times that are to come, a gathering of many gives no turns. -/
theorem order_eq_nil {now : Nat} (hmany : g.isMany = true) (hsleeps : g.Sleeps)
    (hlt : now < g.wakeAt now) : g.order now = [] := by
  obtain ⟨hdeadline, hwakes⟩ := lt_wakeAt_iff.1 hlt
  simp only [order, hmany, if_true]
  rw [List.map_eq_nil_iff, List.eq_nil_iff_forall_not_mem]
  intro e he
  obtain ⟨⟨⟨name, m⟩, i⟩, hm, hrank⟩ := List.mem_filterMap.1 ((List.mergeSort_perm ..).mem_iff.1 he)
  have hmem : (name, m) ∈ g.members := (List.mem_zipIdx' hm).2 ▸ List.getElem_mem _
  cases m with
  | running flight wake timedAt =>
    obtain ⟨rfl, -⟩ := hsleeps _ hmem _ _ _ rfl
    have := hwakes _ hmem _ rfl
    have hnot : ¬ (flight.wakeAt now ≤ now ∨ g.deadline ≤ now) := by omega
    simp [Member.rank?, hnot] at hrank
  | _ => simp [Member.rank?] at hrank

theorem turns_turn (r : Round) (g : Gathering) : Turns (g.order r.millis) r g (g.turn r) := by
  have hnodup := g.nodup_order r.millis
  refine turns_giveTurns _ 0 ⟨r, g, [], [], none⟩ hnodup ?_ rfl
  simpa using g.length_filter_le_running hnodup

section

variable {c : Cluster} {names : List String} {resources : KeySet ResourceName}
  {deadline since : Nat}

theorem isFor_start (c : Cluster) (names : List String) (resources : KeySet ResourceName)
    (deadline now : Nat) : (Gathering.start now deadline c names resources).IsFor c names resources
      deadline now now := by
  refine ⟨rfl, ?_, fun m hm => ?_⟩
  · simp [Gathering.start, Function.comp_def]
  · obtain ⟨n, -, rfl⟩ := List.mem_map.1 hm
    exact .running (Flight.isFor_start ..) (by simp)

theorem IsFor.mono {now later : Nat} (hg : g.IsFor c names resources deadline since now)
    (hle : now ≤ later) : g.IsFor c names resources deadline since later :=
  ⟨hg.deadline_eq, hg.names_eq, fun m hm => (hg.members m hm).mono hle⟩

/-- The answer is made up of what each namespace uses. -/
theorem IsFor.answer {now : Nat} {usage : Table String ResourceList}
    (hg : g.IsFor c names resources deadline since now) (h : g.answer? = some usage) :
    ∃ used : String → ResourceList,
      (∀ n ∈ names, (c.usage n resources).Gives since now (used n)) ∧
        usage = Table.ofList (names.map fun n => (n, used n)) := by
  obtain ⟨entries, hentries, rfl⟩ := Option.map_eq_some_iff.1 h
  have hmap := map_eq_of_mapM hentries
  let used (n : String) : ResourceList := ((c.usage n resources).answer.toOption).getD Table.empty
  have hdone : ∀ m ∈ g.members,
      (c.usage m.1 resources).Gives since now (used m.1) ∧ m.2 = .done (used m.1) := by
    intro m hm
    obtain ⟨e, -, he⟩ := List.mem_map.1 (hmap ▸ List.mem_map.2 ⟨m, hm, rfl⟩)
    have hmember := hg.members m hm
    obtain ⟨n, m⟩ := m
    cases hmember with
    | @done u gives =>
      have hused : used n = u := by simp [used, gives.1, Except.toOption]
      exact ⟨hused ▸ gives, by rw [hused]⟩
    | _ => cases he
  refine ⟨used, fun n hn => ?_, ?_⟩
  · rw [← hg.names_eq] at hn
    obtain ⟨m, hm, rfl⟩ := List.mem_map.1 hn
    exact (hdone m hm).1
  · rw [← hg.names_eq, List.map_map]
    congr 1
    refine List.map_injective_iff.2 (fun _ _ => Option.some.inj) ?_
    rw [← hmap, List.map_map]
    exact List.map_congr_left fun m hm => by simp [(hdone m hm).2]

theorem IsFor.cause {fault : GatherFault} (hg : g.IsFor c names resources deadline since r.millis)
    (h : g.IsFaulty r fault) (hsince : since ≤ r.millis) :
    deadline ≤ r.millis ∨ ∃ n ∈ names, (c.usage n resources).Fails since r.millis := by
  have hname {name : String} {m : Member} (hm : (name, m) ∈ g.members) : name ∈ names :=
    hg.names_eq ▸ List.mem_map.2 ⟨_, hm, rfl⟩
  cases h with
  | @broken name fault hm =>
    cases hg.members _ hm with
    | broken cause => exact cause.imp_right fun hfails => ⟨name, hname hm, hfails⟩
  | @panicked name flight wake timedAt r' hm turned =>
    cases hg.members _ hm with
    | running isFor =>
      have hanswer := isFor.answer
      generalize hturn : Turn.ready (.error .panicked) = turn at turned
      cases turned with
      | ready due =>
        rw [← Turn.ready.inj hturn] at hanswer
        exact .inr ⟨name, hname hm, ⟨_, hanswer.symm⟩, isFor.wait_le hsince due⟩
      | _ => cases hturn

/-- A turn that no fault ends leaves reads of the same. -/
theorem IsFor.turn (hg : g.IsFor c names resources deadline since r.millis)
    (hsince : since ≤ r.millis) (hfault : (g.turn r).fault = none) :
    (g.turn r).gathering.IsFor c names resources deadline since r.millis := by
  cases g.turns_turn r with
  | through polls => exact polls.isFor hg hsince
  | faulty _ _ _ fault_eq => simp [hfault] at fault_eq

/-- Of the reads that are left after such a turn none shows a fault. -/
theorem fault?_turn (hquiet : g.fault? = none) (hfault : (g.turn r).fault = none) :
    (g.turn r).gathering.fault? = none := by
  cases g.turns_turn r with
  | through _ _ _ quiet => exact quiet hquiet
  | faulty _ _ _ fault_eq => simp [hfault] at fault_eq

theorem IsFor.fault (hg : g.IsFor c names resources deadline since r.millis)
    (hsince : since ≤ r.millis) (hfault : (g.turn r).fault.isSome) :
    (g.turn r).round.millis = r.millis ∧
      (deadline ≤ r.millis ∨ ∃ n ∈ names, (c.usage n resources).Fails since r.millis) := by
  cases g.turns_turn r with
  | through _ fault => simp [fault] at hfault
  | @faulty _ r₁ g₁ _ polls millis faulty =>
    have hmillis := polls.spends.millis
    have hg₁ := polls.isFor hg hsince
    rw [← hmillis] at hg₁ hsince
    exact ⟨millis.trans hmillis, hmillis ▸ hg₁.cause faulty hsince⟩

end

theorem deadline_turn (hfault : (g.turn r).fault = none) :
    (g.turn r).gathering.deadline = g.deadline := by
  cases g.turns_turn r with
  | through polls => exact polls.deadline_eq
  | faulty _ _ _ fault_eq => simp [hfault] at fault_eq

theorem spends_turn (hfault : (g.turn r).fault = none) :
    r.Spends (g.turn r).round g.need (g.turn r).gathering.need := by
  cases g.turns_turn r with
  | through polls _ round =>
    rcases round with hround | ⟨-, -, hround⟩ <;> rw [hround]
    · exact polls.spends
    · exact polls.spends.retry
  | faulty _ _ _ fault_eq => simp [hfault] at fault_eq

/-- After a turn in which the round stays calm, the reads that are left wait for times to come. -/
theorem turn_calm (hfault : (g.turn r).fault = none) (hcalm : r.IsCalm (g.turn r).round) :
    (∀ m ∈ (g.turn r).gathering.members, m.2.Rests g.deadline r.millis) ∧
      (g.Sleeps → (g.turn r).gathering.wakeAt r.millis = g.wakeAt r.millis ∧
        (r.millis < g.wakeAt r.millis → (g.turn r).round = r)) := by
  cases g.turns_turn r with
  | faulty _ _ _ fault_eq => simp [hfault] at fault_eq
  | @through r₁ polls _ round =>
    have hcalm₁ : r.IsCalm r₁ := by
      rcases round with hround | ⟨-, -, hround⟩ <;> rw [hround] at hcalm
      · exact hcalm
      · exact hcalm
    obtain ⟨hround, hrests, hsame⟩ := polls.calm (g.nodup_order _) hcalm₁
    refine ⟨fun m hm => ?_, fun hsleeps => ⟨?_, fun hlt => ?_⟩⟩
    · obtain ⟨i, hi⟩ := List.mem_iff_getElem?.1 hm
      by_cases hmem : i ∈ g.order r.millis
      · exact hrests i hmem m hi
      · exact rests_of_not_mem_order hmem (polls.getElem?_of_not_mem hmem ▸ hi)
    · rw [wakeAt_eq, wakeAt_eq, polls.deadline_eq, map_flight?_eq polls.length_eq fun i => ?_]
      refine hsame i fun flight hflight => ?_
      obtain ⟨⟨name, m⟩, hm, hflight⟩ := Option.bind_eq_some_iff.1 hflight
      cases m with
      | running flight' wake timedAt =>
        exact Option.some.inj hflight ▸ (hsleeps _ (List.mem_of_getElem? hm) _ _ _ rfl).2
      | _ => cases hflight
    · rcases round with hround' | ⟨hmany, hne, -⟩
      · exact hround'.trans hround
      · exact absurd (order_eq_nil hmany hsleeps hlt) hne

theorem need_le_unitsLeft (g : Gathering) : g.need ≤ g.unitsLeft := by
  rw [← Nat.zero_add g.need]
  refine add_sum_le_foldl (fun units m => ?_) 0 g.members
  obtain ⟨name, m⟩ := m
  cases m with
  | running flight wake timedAt =>
    have := flight.need_le_unitsLeft
    simp only [Member.need, Member.flight?, Option.map_some, Option.getD_some]
    omega
  | _ => exact Nat.le_refl _

end Gathering

end SharedQuota
