import SharedQuota.Proofs.Serving.Tasks

/-!
All rounds, one after the other. Main statement (`Server.serves`): serving comes to an end with all
reviews answered, each by the steps that were taken for it, whatever the cluster does; what is
bounded is never what ends it.

A round in which no review takes a step takes units, which lessens what is still needed, or finds
everything waiting for times to come. Then time passes to the first of them, and the round after
that takes units (`HasRounds`).
-/

namespace SharedQuota

open Round (Spends IsCalm)
open Serving

/-! ### Time that passes -/

theorem Listing.Sleeps.wakeAt_eq {α : Type} {l : Listing α} (h : l.Sleeps)
    (deadline now later : Nat) : l.wakeAt later deadline = l.wakeAt now deadline := by
  cases l with
  | running flight => exact Flight.Sleeps.wakeAt_eq h now later
  | come => rfl

theorem Reads.Sleeps.wakeAt_eq {reads : Reads} (h : reads.Sleeps) (deadline now later : Nat) :
    reads.wakeAt later deadline = reads.wakeAt now deadline := by
  cases reads with
  | none => cases h
  | listings ns qs turns =>
    simp only [wakeAt, h.1.wakeAt_eq deadline now later, h.2.wakeAt_eq deadline now later]
  | survey ns => exact Listing.Sleeps.wakeAt_eq h deadline now later
  | gathering g => exact Gathering.Sleeps.wakeAt_eq h now later

namespace Running

variable {r : Running} {shared : Shared} {now : Nat}

theorem wakeAt_of_rests (hsleeps : r.Sleeps) (h : now < wakeAt shared now r) (later : Nat) :
    wakeAt shared later r = wakeAt shared now r := by
  by_cases hwaiting : ∃ charge held handle a next,
      r.call.stage = .waiting charge held handle a next
  · obtain ⟨charge, held, handle, a, next, hstage⟩ := hwaiting
    simp only [wakeAt, hstage] at h ⊢
    split at h
    case isTrue => omega
    case isFalse hholds => simp [hholds]
  · have hnot charge held handle a next :
        r.call.stage ≠ .waiting charge held handle a next :=
      fun hstage => hwaiting ⟨charge, held, handle, a, next, hstage⟩
    rw [wakeAt_eq_min shared later hnot, wakeAt_eq_min shared now hnot,
      ((sleeps_iff hnot).1 hsleeps).wakeAt_eq r.deadline now later]

theorem wakeAt_le (h : now ≤ r.deadline) : wakeAt shared now r ≤ r.deadline := by
  simp only [wakeAt]
  split
  · split
    · exact h
    · exact Nat.le_refl _
  · exact Nat.min_le_left ..

theorem IsFor.mono {s : Settings} {review : Review} {views : Views} {started since later : Nat}
    {moments : List Moment} (h : r.IsFor s review views started moments since now)
    (hlater : now ≤ later) (hle : later ≤ r.deadline) :
    r.IsFor s review views started moments since later :=
  { h with
    ahead := Nat.le_trans h.ahead hlater
    inTime := hle
    reads := h.reads.mono hlater }

end Running

namespace Task

variable {s : Settings} {e : Slot} {t : Task} {shared : Shared} {now later : Nat}

theorem Rests.wake_eq (h : t.Rests shared now) (later : Nat) :
    taskWake? shared later t = taskWake? shared now t := by
  cases t with
  | answered => rfl
  | due instant body views =>
    cases instant with
    | none => cases h.sleeps
    | some d => rfl
  | running r => exact congrArg some (Running.wakeAt_of_rests h.sleeps (h.lt_wake _ rfl) later)

/-- Time passes no further than to what a task waits for. -/
theorem IsFor.mono (h : t.IsFor s now e) (hlater : now ≤ later)
    (hwake : ∀ wake, taskWake? shared now t = some wake → later ≤ max now wake) :
    t.IsFor s later e := by
  cases h with
  | @due body views start instant start_eq ahead =>
    have hle := hwake _ rfl
    rw [start_eq, Nat.max_eq_right ahead] at hle
    refine .due ?_ hle
    cases instant with
    | none =>
      have hnow : now = start := start_eq
      exact Nat.le_antisymm hle (hnow ▸ hlater)
    | some d => exact start_eq
  | running hbody isFor canFail =>
    have hle := hwake _ rfl
    have hwake : wakeAt shared now _ ≤ _ := Running.wakeAt_le isFor.inTime
    have := isFor.inTime
    exact .running hbody (isFor.mono hlater (by omega)) canFail
  | answered came => exact .answered came

end Task

namespace Serving

variable {scene : Scene} {tasks : List Task}

theorem le_nextInstant (scene : Scene) (tasks : List Task) :
    scene.round.millis ≤ nextInstant scene tasks := by
  simp only [nextInstant]
  split
  · exact Nat.le_refl _
  · exact Nat.le_max_left ..

theorem nextInstant_le {t : Task} {wake : Nat} (ht : t ∈ tasks)
    (hwake : taskWake? scene.shared scene.round.millis t = some wake) :
    nextInstant scene tasks ≤ max scene.round.millis wake := by
  simp only [nextInstant]
  split
  · exact Nat.le_max_left ..
  · have hmem : wake ∈ tasks.filterMap (taskWake? scene.shared scene.round.millis) :=
      List.mem_filterMap.2 ⟨t, ht, hwake⟩
    cases hmin : (tasks.filterMap (taskWake? scene.shared scene.round.millis)).min? with
    | none => simp [List.min?_eq_none_iff.1 hmin] at hmem
    | some first =>
      have := (List.min?_eq_some_iff.1 hmin).2 wake hmem
      simp only [Option.getD_some]
      omega

/-- Time passes to the first of what is waited for. -/
theorem exists_wake_eq_nextInstant (hagain : scene.round.again = false)
    (hrests : ∀ t ∈ tasks, t.Rests scene.shared scene.round.millis)
    (hopen : ∃ t ∈ tasks, t.isAnswered = false) :
    ∃ t ∈ tasks, taskWake? scene.shared scene.round.millis t = some (nextInstant scene tasks) := by
  obtain ⟨t, ht, hwaits⟩ := hopen
  obtain ⟨wake, hwake⟩ : ∃ wake, taskWake? scene.shared scene.round.millis t = some wake := by
    cases t with
    | answered => cases hwaits
    | due | running => exact ⟨_, rfl⟩
  have hmem : wake ∈ tasks.filterMap (taskWake? scene.shared scene.round.millis) :=
    List.mem_filterMap.2 ⟨t, ht, hwake⟩
  cases hmin : (tasks.filterMap (taskWake? scene.shared scene.round.millis)).min? with
  | none => simp [List.min?_eq_none_iff.1 hmin] at hmem
  | some first =>
    obtain ⟨t, ht, hfirst⟩ := List.mem_filterMap.1 (List.min?_eq_some_iff.1 hmin).1
    have hlt := (hrests t ht).lt_wake _ hfirst
    refine ⟨t, ht, ?_⟩
    simp only [nextInstant, hagain, hmin, Option.getD_some]
    rw [hfirst]
    congr 1
    simp only [Bool.false_eq_true, if_false]
    omega

/-! ### Enough rounds -/

/-- There are rounds enough until some task takes a step. -/
inductive HasRounds (shared : Shared) (now : Nat) (tasks : List Task) : Nat → Prop
  | fresh {rounds} (enough : 3 * Tasks.need tasks + 2 ≤ rounds) : HasRounds shared now tasks rounds
  | resting {rounds} (enough : 3 * Tasks.need tasks + 1 ≤ rounds)
      (rests : ∀ t ∈ tasks, t.Rests shared now) : HasRounds shared now tasks rounds
  | woken {rounds} (enough : 3 * Tasks.need tasks ≤ rounds)
      (wakes : ∃ t ∈ tasks, t.Sleeps ∧ ∃ wake, taskWake? shared now t = some wake ∧ wake ≤ now) :
    HasRounds shared now tasks rounds

theorem hasRounds_roundBound (shared : Shared) (now : Nat) (tasks : List Task) :
    HasRounds shared now tasks (roundBound tasks) := by
  have hunits (t : Task) : t.need ≤ unitsLeft t := by
    cases t with
    | due | answered => exact Nat.zero_le _
    | running r => exact Nat.le_trans r.reads.need_le_unitsLeft (Nat.le_add_right ..)
  have hneed : 0 + Tasks.need tasks ≤ (tasks.map unitsLeft).foldl (· + ·) 0 := by
    rw [List.foldl_map]
    exact add_sum_le_foldl (fun n t => Nat.add_le_add_left (hunits t) n) 0 tasks
  refine .fresh ?_
  rw [roundBound]
  omega

variable {shared : Shared} {now rounds : Nat} {scene' : Scene} {tasks' : List Task}

/-- After a round in which no task takes a step there are still rounds enough, one less. -/
theorem HasRounds.next (h : HasRounds shared now tasks rounds) (hscene : scene.shared = shared)
    (hround : scene.round = .start now) (hrested : Tasks.Rested now scene tasks scene' tasks')
    (hopen : ∃ t ∈ tasks', t.isAnswered = false) :
    ∃ left, rounds = left + 1 ∧
      HasRounds scene'.shared (nextInstant scene' tasks') tasks' left := by
  have hnow : scene.round.millis = now := hround ▸ rfl
  have hmillis : scene'.round.millis = now := hrested.spends.millis.trans hnow
  have hunits : scene.round.units = Round.maxUnits := hround ▸ rfl
  have hcovered := hrested.spends.covered
  have hle := hrested.spends.units_le
  by_cases hcalm : scene.round.IsCalm scene'.round
  case neg =>
    have hfewer : Tasks.need tasks' < Tasks.need tasks := by
      have : scene'.round.units ≠ scene.round.units := fun heq =>
        hcalm ⟨by rw [hunits]; decide, heq⟩
      omega
    cases h with
    | fresh enough | resting enough | woken enough =>
      exact ⟨rounds - 1, by omega, .fresh (by omega)⟩
  case pos =>
    have hneed : Tasks.need tasks' ≤ Tasks.need tasks := by omega
    have hsettles := hrested.calm hcalm
    have hrests : ∀ t ∈ tasks', t.Rests scene'.shared scene'.round.millis := by
      intro t' ht'
      obtain ⟨t, -, hsettled⟩ := exists_left_of_forall₂ hsettles t' ht'
      rw [hrested.shared, hmillis]
      exact hsettled.rests
    -- Unless another round follows at once, time passes to the first of what is waited for.
    have hwoken (hagain : scene'.round.again = false) {left : Nat}
        (henough : 3 * Tasks.need tasks' ≤ left) :
        HasRounds scene'.shared (nextInstant scene' tasks') tasks' left := by
      obtain ⟨t, ht, hwake⟩ := exists_wake_eq_nextInstant hagain hrests hopen
      refine .woken henough ⟨t, ht, (hrests t ht).sleeps, _, ?_, Nat.le_refl _⟩
      rw [(hrests t ht).wake_eq, hwake]
    cases h with
    | fresh enough =>
      refine ⟨rounds - 1, by omega, ?_⟩
      cases hagain : scene'.round.again with
      | false => exact hwoken hagain (by omega)
      | true =>
        refine .resting (by omega) ?_
        simpa [nextInstant, hagain] using hrests
    | resting enough rests =>
      have hsame := hrested.same hcalm (hscene ▸ rests)
      exact ⟨rounds - 1, by omega, hwoken (by rw [hsame, hround]; rfl) (by omega)⟩
    | woken enough wakes =>
      obtain ⟨t, ht, hsleeps, wake, hwake, hdue⟩ := wakes
      obtain ⟨t', ht', hsettled⟩ := exists_right_of_forall₂ hsettles t ht
      rw [← hscene, ← hsettled.wake_eq hsleeps] at hwake
      exact absurd (hsettled.rests.lt_wake wake hwake) (by omega)

/-! ### All rounds -/

/-- What serving texts has come to so far, each from an instant on, by the steps of some rounds and
in the order in which they were answered. -/
structure Underway (s : Settings) (startedAt : Time) (given : List (Option Json × Views × Nat))
    (now : Nat) (tasks : List Task) (log : Log) (taken : List (List (List Step)))
    (slots : List Slot) (order : List Served) : Prop where
  given : slots.map Slot.given = given
  moments : ∀ (k : Nat) (e : Slot), slots[k]? = some e → e.moments = momentsAt taken k
  isFor : List.Forall₂ (fun t e => t.IsFor s now e) tasks slots
  served : (slots.filterMap (·.served)).Perm order
  log : Log.empty.Adds s startedAt log order

variable {s : Settings} {startedAt : Time} {given : List (Option Json × Views × Nat)} {log : Log}
  {taken : List (List (List Step))} {slots : List Slot} {order : List Served} {p : Server}

theorem Underway.turned {stepped : Bool}
    (h : Underway p.settings p.startedAt given p.millis tasks log taken slots order)
    (hgive : giveTurns p.settings (Serving.now p) tasks ⟨.start p.millis, p.shared, log⟩ =
      (stepped, scene', tasks')) :
    ∃ slots' news, Tasks.Turned p.settings p.startedAt p.millis slots
      ⟨.start p.millis, p.shared, log⟩ tasks stepped scene' tasks'
      (roundSteps p.settings (Serving.now p) tasks ⟨.start p.millis, p.shared, log⟩) slots'
      news := by
  let now := Serving.now p
  have hwall : now.wall = p.startedAt.plusMillis now.millis := rfl
  have hround : (Scene.mk (.start p.millis) p.shared log).round.millis = now.millis := rfl
  have hturned := turned_giveTurns h.isFor hwall hround
  rwa [hgive] at hturned

/-- What a round leaves behind. -/
theorem Underway.next {round : List (List Step)} {slots' : List Slot} {news : List Served}
    {stepped : Bool} (h : Underway s startedAt given now tasks scene.log taken slots order)
    (hturned : Tasks.Turned s startedAt now slots scene tasks stepped scene' tasks' round slots'
      news) :
    Underway s startedAt given now tasks' scene'.log (taken ++ [round]) slots' (order ++ news) where
  given := hturned.given.trans h.given
  moments k e he := by
    have hmoments : (slots'.map (·.moments))[k]? = some e.moments := by simp [he]
    rw [hturned.moments] at hmoments
    obtain ⟨e', steps, he', hsteps, heq⟩ := List.getElem?_zipWith_eq_some.1 hmoments
    rw [momentsAt_append, ← heq, h.moments k e' he', momentsAt, momentsAt, List.flatMap_singleton,
      hsteps, Option.getD_some]
  isFor := hturned.isFor
  served := hturned.served.trans (h.served.append_right _)
  log := h.log.trans hturned.log

/-- Time passes after a round. -/
theorem Underway.passes (h : Underway s startedAt given now tasks log taken slots order)
    (hround : scene.round.millis = now) :
    Underway s startedAt given (nextInstant scene tasks) tasks log taken slots order := by
  subst hround
  have hwake : ∀ t ∈ tasks, ∀ wake, taskWake? scene.shared scene.round.millis t = some wake →
      nextInstant scene tasks ≤ max scene.round.millis wake := fun t ht _ => nextInstant_le ht
  have hboth := (List.forall₂_and_left _ _).2 ⟨hwake, h.isFor⟩
  exact { h with isFor := hboth.imp fun t e ht => ht.2.mono (le_nextInstant ..) ht.1 }

/-- Tasks that are all answered are those of what was served, by moments. -/
theorem exists_served (h : List.Forall₂ (fun t e => t.IsFor s now e) tasks slots)
    (hanswered : tasks.all Task.isAnswered = true) :
    ∃ ways : List (Served × List Moment),
      tasks = ((ways.map (·.1)).map (·.response)).map Task.answered ∧
      slots = ways.map (fun w => ⟨w.1.body, w.1.views, w.1.started, some w.1, w.2⟩) ∧
      ∀ w ∈ ways, w.1.Came s w.2 := by
  induction h with
  | nil => exact ⟨[], rfl, rfl, by simp⟩
  | cons isFor _ ih =>
    rw [List.all_cons, Bool.and_eq_true] at hanswered
    obtain ⟨hfirst, hrest⟩ := hanswered
    obtain ⟨ways, rfl, rfl, hcame⟩ := ih hrest
    cases isFor with
    | @answered v moments came =>
      exact ⟨(v, moments) :: ways, rfl, rfl, List.forall_mem_cons.2 ⟨came, hcame⟩⟩
    | due | running => cases hfirst

theorem Underway.ends (h : Underway s startedAt given now tasks log taken slots order)
    (hanswered : tasks.all Task.isAnswered = true) :
    ∃ served, tasks = (served.map (·.response)).map Task.answered ∧
      Served.Batch s startedAt given served order log ∧
      ∀ (k : Nat) (v : Served), served[k]? = some v → v.Came s (momentsAt taken k) := by
  obtain ⟨ways, htasks, rfl, hcame⟩ := exists_served h.isFor hanswered
  refine ⟨ways.map (·.1), htasks, ⟨?_, fun v hv => ?_, ?_, h.log⟩, fun k v hv => ?_⟩
  · rw [← h.given, List.map_map, List.map_map]
    rfl
  · obtain ⟨w, hw, rfl⟩ := List.mem_map.1 hv
    exact (hcame w hw).isOutcome
  · have hserved := h.served
    rw [List.filterMap_map] at hserved
    rw [← List.filterMap_eq_map]
    exact hserved.symm
  · rw [List.getElem?_map, Option.map_eq_some_iff] at hv
    obtain ⟨w, hw, rfl⟩ := hv
    rw [← h.moments k ⟨w.1.body, w.1.views, w.1.started, some w.1, w.2⟩ (by simp [hw])]
    exact hcame w (List.mem_of_getElem? hw)

theorem exists_open (h : ¬ tasks.all Task.isAnswered = true) :
    ∃ t ∈ tasks, t.isAnswered = false := by
  simpa using h

/-- The rounds come to an end with all tasks answered. -/
theorem loop_ends (steps rounds : Nat)
    (h : Underway p.settings p.startedAt given p.millis tasks log taken slots order)
    (hsteps : Tasks.stepsLeft tasks ≤ steps)
    (hrounds : HasRounds p.shared p.millis tasks rounds) :
    ∃ p' log' served order, loop steps rounds p tasks log =
        (p', (served.map (·.response)).map Task.answered, log') ∧
      Served.Batch p.settings p.startedAt given served order log' ∧
      ∀ (k : Nat) (v : Served), served[k]? = some v →
        v.Came p.settings (momentsAt (taken ++ loopSteps steps rounds p tasks log) k) := by
  fun_induction loop steps rounds p tasks log generalizing taken slots order with
  | case1 steps rounds p tasks log stepped scene tasks' hgive hanswered =>
    obtain ⟨slots', news, hturned⟩ := h.turned hgive
    obtain ⟨served, rfl, hbatch, hcame⟩ := (h.next hturned).ends hanswered
    rw [loopSteps]
    simp only [hgive, hanswered, if_true]
    exact ⟨_, _, served, _, rfl, hbatch, hcame⟩
  | case2 rounds p tasks log scene tasks' _ hopen _ steps =>
    rename_i hgive ih
    obtain ⟨slots', news, hturned⟩ := h.turned hgive
    have hfewer := hturned.fewer rfl
    rw [loopSteps]
    simp only [hgive, hopen, Bool.false_eq_true, if_false]
    rw [List.append_cons]
    refine ih ((h.next hturned).passes hturned.millis) ?_ (hasRounds_roundBound ..)
    omega
  | case3 p tasks log scene tasks' _ hopen _ steps rounds =>
    rename_i hgive ih
    obtain ⟨slots', news, hturned⟩ := h.turned hgive
    have hrested := hturned.rested rfl
    obtain ⟨left, heq, hleft⟩ := hrounds.next rfl rfl hrested (exists_open hopen)
    obtain rfl := Nat.succ.inj heq
    rw [loopSteps]
    simp only [hgive, hopen, Bool.false_eq_true, if_false]
    rw [List.append_cons]
    exact ih ((h.next hturned).passes hturned.millis) (hrested.steps ▸ hsteps) hleft
  | case4 steps rounds p tasks log stepped scene tasks' =>
    rename_i hgive hopen hnosteps hnorounds
    obtain ⟨slots', news, hturned⟩ := h.turned hgive
    cases stepped with
    | true =>
      have hfewer := hturned.fewer rfl
      exact absurd (Nat.exists_eq_succ_of_ne_zero (by omega)) (fun ⟨n, hn⟩ => hnosteps n rfl hn)
    | false =>
      obtain ⟨left, heq, -⟩ := hrounds.next rfl rfl (hturned.rested rfl) (exists_open hopen)
      exact (hnorounds left rfl heq).elim

/-- A round in which all tasks are answered is the last. -/
theorem loop_of_answered (steps rounds : Nat) (p : Server) (tasks : List Task) (log : Log)
    (h : (giveTurns p.settings (Serving.now p) tasks
      ⟨.start p.millis, p.shared, log⟩).2.2.all Task.isAnswered = true) :
    ∃ p', loop steps rounds p tasks log = (p',
      (giveTurns p.settings (Serving.now p) tasks ⟨.start p.millis, p.shared, log⟩).2.2,
      (giveTurns p.settings (Serving.now p) tasks ⟨.start p.millis, p.shared, log⟩).2.1.log) := by
  rw [loop]
  simp only [h, if_true]
  exact ⟨_, rfl⟩

theorem concludeAll_answered (p : Server) (responses : List Response) (log : Log) :
    concludeAll p (responses.map Task.answered) log = (responses, log) := by
  induction responses with
  | nil => rfl
  | cons response responses ih => simp only [List.map_cons, concludeAll, conclude, ih]

end Serving

/-- Before the first round. -/
theorem Server.underway (p : Server) (arrivals : List Arrival) :
    Underway p.settings p.startedAt (arrivals.map fun a => (a.body, a.views, p.millis + a.delay))
      p.millis
      (arrivals.map fun a =>
        Task.due (if a.delay = 0 then none else some (p.millis + a.delay)) a.body a.views)
      Log.empty [] (arrivals.map fun a => ⟨a.body, a.views, p.millis + a.delay, none, []⟩) [] where
  given := by
    rw [List.map_map]
    rfl
  moments k e he := by
    rw [List.getElem?_map, Option.map_eq_some_iff] at he
    obtain ⟨a, -, rfl⟩ := he
    rfl
  isFor := by
    rw [List.forall₂_map_left_iff, List.forall₂_map_right_iff, List.forall₂_same]
    intro a _
    refine .due ?_ (Nat.le_add_right ..)
    split <;> simp [*]
  served := by simp [List.filterMap_map]
  log := Log.Keeps.adds (.refl _)

theorem Serving.stepsLeft_due (arrivals : List Arrival) (instant : Arrival → Option Nat) :
    Tasks.stepsLeft (arrivals.map fun a => Task.due (instant a) a.body a.views) =
      stepsBound (arrivals.map (·.views)) := by
  rw [Tasks.stepsLeft, stepsBound, ← List.sum_eq_foldl, List.map_map, List.map_map]
  rfl

/-- Serving answers every text, in the order in which they were given, and by the steps that are
taken for it. -/
theorem Server.serves (p : Server) (arrivals : List Arrival) :
    ∃ served order, (p.serveAll arrivals).2.1 = served.map (·.response) ∧
      Served.Batch p.settings p.startedAt
        (arrivals.map fun a => (a.body, a.views, p.millis + a.delay)) served order
        (p.serveAll arrivals).2.2 ∧
      ∀ (k : Nat) (v : Served), served[k]? = some v →
        v.Came p.settings (momentsAt (p.rounds arrivals) k) := by
  obtain ⟨p', log', served, order, hloop, hbatch, hcame⟩ := loop_ends _ _ (p.underway arrivals)
    (Nat.le_of_eq (stepsLeft_due arrivals _)) (hasRounds_roundBound ..)
  have hserve : p.serveAll arrivals = (p', served.map (·.response), log') := by
    simp only [serveAll]
    rw [hloop]
    simp only [concludeAll_answered]
  rw [hserve]
  exact ⟨served, order, rfl, hbatch, hcame⟩

end SharedQuota
