import SharedQuota.Proofs.Serving.Turn

/-!
One round of all reviews. Main statement (`Serving.turned_giveTurns`): in a round some review comes
closer to its answer, or units of the round are taken, or all that is left waits for times to come.
-/

namespace SharedQuota

open Round (Spends IsCalm)
open Serving

/-- A text that is to be served from an instant on, with what has come of it, and by which moments
of its call. -/
structure Slot where
  body : Option Json
  views : Views
  start : Nat
  served : Option Served
  moments : List Moment

def Slot.given (e : Slot) : Option Json × Views × Nat := (e.body, e.views, e.start)

namespace Task

/-- The task is that of a text. -/
inductive IsFor (s : Settings) (now : Nat) : Slot → Task → Prop
  | due {body views start instant} (start_eq : instant.getD now = start) (ahead : now ≤ start) :
    IsFor s now ⟨body, views, start, none, []⟩ (.due instant body views)
  | running {body views review start moments since r}
      (hbody : body.bind Review.ofJson? = some review)
      (isFor : r.IsFor s review views start moments since now)
      (canFail : r.call.stage.canFail = true) :
    IsFor s now ⟨body, views, start, none, moments⟩ (.running r)
  | answered {v moments} (came : v.Came s moments) :
    IsFor s now ⟨v.body, v.views, v.started, some v, moments⟩ (.answered v.response)

/-- A bound on the steps that a task still takes. -/
def stepsLeft : Task → Nat
  | .due _ _ views => stepBound views + 1
  | .running r => r.stepsLeft
  | .answered _ => 0

def need : Task → Nat
  | .running r => r.reads.need
  | _ => 0

/-- If the task is not answered, it waits for a lock, or for times. -/
def Sleeps : Task → Prop
  | .due instant _ _ => instant.isSome
  | .running r => r.Sleeps
  | .answered _ => True

/-- The task waits for what is to come. -/
structure Rests (shared : Shared) (now : Nat) (t : Task) : Prop where
  sleeps : t.Sleeps
  lt_wake : ∀ wake, taskWake? shared now t = some wake → now < wake

/-- After a turn in which the round stays calm. -/
structure Settles (shared : Shared) (now : Nat) (t t' : Task) : Prop where
  rests : t'.Rests shared now
  wake_eq : t.Sleeps → taskWake? shared now t' = taskWake? shared now t

/-- What a turn of a task can come to by the steps that are taken, which adds to the log what some
reviews leave behind. -/
inductive Turned (s : Settings) (startedAt : Time) (now : Nat) (scene : Scene) (e : Slot)
    (t : Task) : Bool × Scene × Task → List Step → Slot → List Served → Prop
  | rests {scene' t'} (isFor : t'.IsFor s now e) (shared : scene'.shared = scene.shared)
      (log : scene.log.Keeps scene'.log) (steps : t'.stepsLeft = t.stepsLeft)
      (spends : scene.round.Spends scene'.round t.need t'.need)
      (calm : scene.round.IsCalm scene'.round → t.Settles scene.shared now t')
      (same : scene.round.IsCalm scene'.round → t.Rests scene.shared now →
        scene'.round = scene.round) :
    Turned s startedAt now scene e t (false, scene', t') [] e []
  | steps {scene' t' taken e' news} (given : e'.given = e.given)
      (moments : e'.moments = e.moments ++ taken.map Step.moment) (isFor : t'.IsFor s now e')
      (millis : scene'.round.millis = now) (fewer : t'.stepsLeft < t.stepsLeft)
      (served : e'.served.toList = e.served.toList ++ news)
      (log : scene.log.Adds s startedAt scene'.log news) :
    Turned s startedAt now scene e t (true, scene', t') taken e' news

namespace Turned

variable {s : Settings} {startedAt : Time} {now : Nat} {scene : Scene} {e e' : Slot} {t : Task}
  {out : Bool × Scene × Task} {taken : List Step} {news : List Served}

theorem millis_eq (h : Turned s startedAt now scene e t out taken e' news)
    (hmillis : scene.round.millis = now) : out.2.1.round.millis = now := by
  cases h with
  | rests _ _ _ _ spends => exact spends.millis.trans hmillis
  | steps _ _ _ millis => exact millis

theorem moments_eq (h : Turned s startedAt now scene e t out taken e' news) :
    e'.moments = e.moments ++ taken.map Step.moment := by
  cases h with
  | rests => exact (List.append_nil _).symm
  | steps _ moments => exact moments

end Turned

end Task

/-! ### All tasks -/

namespace Tasks

def stepsLeft (tasks : List Task) : Nat := (tasks.map (·.stepsLeft)).sum

def need (tasks : List Task) : Nat := (tasks.map (·.need)).sum

/-- After a round in which no task takes a step. -/
structure Rested (now : Nat) (scene : Scene) (tasks : List Task) (scene' : Scene)
    (tasks' : List Task) : Prop where
  steps : stepsLeft tasks' = stepsLeft tasks
  shared : scene'.shared = scene.shared
  spends : scene.round.Spends scene'.round (need tasks) (need tasks')
  calm : scene.round.IsCalm scene'.round →
    List.Forall₂ (Task.Settles scene.shared now) tasks tasks'
  same : scene.round.IsCalm scene'.round → (∀ t ∈ tasks, t.Rests scene.shared now) →
    scene'.round = scene.round

/-- What a round can come to by the steps that are taken, task by task, which adds to the log what
some reviews leave behind. -/
structure Turned (s : Settings) (startedAt : Time) (now : Nat) (slots : List Slot)
    (scene : Scene) (tasks : List Task) (stepped : Bool) (scene' : Scene) (tasks' : List Task)
    (taken : List (List Step)) (slots' : List Slot) (news : List Served) : Prop where
  given : slots'.map Slot.given = slots.map Slot.given
  moments : slots'.map (·.moments) =
    List.zipWith (fun e steps => e.moments ++ steps.map Step.moment) slots taken
  isFor : List.Forall₂ (fun t e => t.IsFor s now e) tasks' slots'
  millis : scene'.round.millis = now
  served : (slots'.filterMap (·.served)).Perm (slots.filterMap (·.served) ++ news)
  log : scene.log.Adds s startedAt scene'.log news
  fewer : stepped = true → stepsLeft tasks' < stepsLeft tasks
  rested : stepped = false → Rested now scene tasks scene' tasks'

variable {s : Settings} {startedAt : Time} {now : Nat} {slots slots' : List Slot}
  {scene scene' scene'' : Scene} {tasks tasks' : List Task} {stepped others : Bool} {e e' : Slot}
  {t t' : Task} {steps : List Step} {taken : List (List Step)} {first news : List Served}

theorem Turned.steps_le (h : Turned s startedAt now slots scene tasks stepped scene' tasks' taken
    slots' news) : stepsLeft tasks' ≤ stepsLeft tasks := by
  cases stepped with
  | true => exact Nat.le_of_lt (h.fewer rfl)
  | false => exact Nat.le_of_eq (h.rested rfl).steps

theorem Turned.nil (hmillis : scene.round.millis = now) :
    Turned s startedAt now [] scene [] false scene [] [] [] [] where
  given := rfl
  moments := rfl
  isFor := .nil
  millis := hmillis
  served := .refl _
  log := Log.Keeps.adds (.refl _)
  fewer := nofun
  rested _ := ⟨rfl, rfl, .refl .., fun _ => .nil, fun _ _ => rfl⟩

/-- The first task has its turn, and then the others. -/
theorem Turned.cons (h : Task.Turned s startedAt now scene e t (stepped, scene', t') steps e' first)
    (hrest : Turned s startedAt now slots scene' tasks others scene'' tasks' taken slots' news) :
    Turned s startedAt now (e :: slots) scene (t :: tasks) (stepped || others) scene''
      (t' :: tasks') (steps :: taken) (e' :: slots') (first ++ news) := by
  have hserved (h : e'.served.toList = e.served.toList ++ first) :
      ((e' :: slots').filterMap (·.served)).Perm
        ((e :: slots).filterMap (·.served) ++ (first ++ news)) := by
    have hcons (e : Slot) (slots : List Slot) : (e :: slots).filterMap (·.served) =
        e.served.toList ++ slots.filterMap (·.served) := by
      cases hserved : e.served <;> simp [hserved]
    rw [hcons, hcons, h, List.append_assoc, List.append_assoc]
    refine .append_left _ ((List.Perm.append_left _ hrest.served).trans ?_)
    exact List.perm_append_comm_assoc ..
  have hmoments : (e' :: slots').map (·.moments) = List.zipWith
      (fun e steps => e.moments ++ steps.map Step.moment) (e :: slots) (steps :: taken) := by
    rw [List.map_cons, List.zipWith_cons_cons, h.moments_eq, hrest.moments]
  have hsteps := hrest.steps_le
  cases h with
  | rests isFor shared log steps spends calm same =>
    refine ⟨by rw [List.map_cons, List.map_cons, hrest.given], hmoments, .cons isFor hrest.isFor,
      hrest.millis, hserved (List.append_nil _).symm, log.adds.trans hrest.log, fun h => ?_,
      fun h => ?_⟩
    · have := hrest.fewer h
      simp only [stepsLeft, List.map_cons, List.sum_cons] at this ⊢
      omega
    · have hrested := hrest.rested h
      have hunits := hrested.spends.units_le
      refine ⟨?_, hrested.shared.trans shared, ?_, fun hcalm => ?_, fun hcalm hrests => ?_⟩
      · have := hrested.steps
        simp only [stepsLeft, List.map_cons, List.sum_cons] at this ⊢
        omega
      · exact (spends.add _).trans (hrested.spends.add_left _)
      · exact .cons (calm (hcalm.left spends.units_le hunits))
          (shared ▸ hrested.calm (hcalm.right spends.units_le hunits))
      · obtain ⟨hfirst, hothers⟩ := List.forall_mem_cons.1 hrests
        have hsame := same (hcalm.left spends.units_le hunits) hfirst
        rw [hrested.same (hcalm.right spends.units_le hunits) (shared ▸ hothers), hsame]
  | steps given _ isFor millis fewer served log =>
    refine ⟨by rw [List.map_cons, List.map_cons, given, hrest.given], hmoments,
      .cons isFor hrest.isFor, hrest.millis, hserved served, log.trans hrest.log, fun _ => ?_,
      nofun⟩
    simp only [stepsLeft, List.map_cons, List.sum_cons] at hsteps ⊢
    omega

end Tasks

namespace Serving

variable {s : Settings} {startedAt : Time} {now : Now} {scene : Scene} {e : Slot} {t : Task}
  {body : Option Json} {views : Views} {review : Review}

/-! ### One task -/

theorem stepsLeft_pos {stage : Stage} (h : stage.canFail = true) (listed : Nat) :
    0 < stage.stepsLeft listed := by
  cases stage with
  | reserving | releasing | finished => cases h
  | _ => simp [Stage.stepsLeft]

theorem stepsLeft_entry_le (s : Settings) (views : Views) (review : Review) :
    (review.entry s).2.stepsLeft (listedQuotas views) ≤ stepBound views := by
  have hwork (work : Work) : work.start.stepsLeft (listedQuotas views) ≤ stepBound views := by
    simp only [stepBound]
    cases work with
    | usage name delta =>
      simp only [Work.start]
      split <;> simp only [Stage.stepsLeft] <;> omega
    | relabel old new =>
      simp only [Work.start, Stage.stepsLeft]
      omega
    | quota new old =>
      simp only [Work.start]
      split
      case h_1 => exact Nat.zero_le _
      case h_2 =>
        split
        case h_1 => exact Nat.zero_le _
        case h_2 => split <;> simp only [Stage.stepsLeft] <;> omega
  simp only [Review.entry, Admission.start]
  split
  case h_1 => exact Nat.zero_le _
  case h_2 =>
    dsimp only
    split
    case h_1 | h_2 => exact Nat.zero_le _
    case h_3 => exact hwork _

/-- The call of a review, when it starts. -/
def entering (s : Settings) (views : Views) (now : Nat) (review : Review) : Running where
  review := review
  views := views
  kindText := (review.entry s).1
  started := now
  deadline := now + s.timeout
  call := ⟨review.request.dryRun, (review.entry s).2⟩
  reads := Reads.ofStage views s.rules.exclusions now (now + s.timeout) (review.entry s).2

theorem isFor_entering (s : Settings) (views : Views) (now : Nat) (review : Review) :
    (entering s views now review).IsFor s review views now [] now now where
  review_eq := rfl
  views_eq := rfl
  kindText_eq := rfl
  started_eq := rfl
  deadline_eq := rfl
  dryRun_eq := rfl
  ahead := Nat.le_refl _
  inTime := Nat.le_add_right ..
  short := stepsLeft_entry_le s views review
  journey := .nil
  reads := Reads.isFor_ofStage ..

/-- A due task whose text is a review starts its call, and that has its turn. -/
theorem taskTurn_due {instant : Option Nat} {round : Round}
    (hover : scene.round.isOver instant = (round, true))
    (hbody : body.bind Review.ofJson? = some review) :
    taskTurn s now scene (.due instant body views) =
      (true, (runningTurn s now { scene with round } (entering s views now.millis review)).2) := by
  simp only [taskTurn, hover, begin, hbody, entering, Review.entry]
  cases Kind.ofRequest s.objectCounts review.request <;> rfl

theorem taskSteps_due {instant : Option Nat} {round : Round}
    (hover : scene.round.isOver instant = (round, true))
    (hbody : body.bind Review.ofJson? = some review) :
    taskSteps s now scene (.due instant body views) =
      runningSteps s now { scene with round } (entering s views now.millis review) := by
  simp only [taskSteps, hover, begin, hbody, entering, Review.entry]
  cases Kind.ofRequest s.objectCounts review.request <;> rfl

/-- A text that is no review is answered as soon as it is due. -/
theorem turned_refused {instant : Option Nat} {round : Round}
    (hover : scene.round.isOver instant = (round, true)) (hround : round.millis = now.millis)
    (hbody : body.bind Review.ofJson? = none) :
    ∃ e' news, Task.Turned s startedAt now.millis scene ⟨body, views, now.millis, none, []⟩
      (.due instant body views) (taskTurn s now scene (.due instant body views))
      (taskSteps s now scene (.due instant body views)) e' news := by
  let v : Served := ⟨body, views, now.millis, now.millis,
    .error (.undecodable "the text is not an admission review")⟩
  have hreview : v.review? = none := hbody
  have hresponse : v.response = ⟨Response.plainVersion, Response.plainKind,
      Review.salvagedUid body, v.decision⟩ := by
    simp only [Served.response, hreview]
    rfl
  have hturn : taskTurn s now scene (.due instant body views) = (true, { scene with
      round
      log := { scene.log with
        observations := scene.log.observations ++ v.reports s } }, .answered v.response) := by
    simp only [taskTurn, hover, begin, hbody, hresponse, Served.reports, hreview]
    rfl
  have hsteps : taskSteps s now scene (.due instant body views) = [] := by
    simp only [taskSteps, hover, begin, hbody]
  have hcame : v.Came s [] := by
    simp only [Served.Came, hreview]
    exact ⟨trivial, rfl, _, rfl⟩
  have hreports : ∀ o ∈ v.reports s, o.isDecision = true := by
    simp only [Served.reports, hreview]
    exact Admission.isDecision_of_mem_reports _ _ _ _
  refine ⟨⟨body, views, now.millis, some v, []⟩, [v], ?_⟩
  rw [hturn, hsteps]
  refine .steps rfl rfl (.answered (v := v) hcame) hround (Nat.succ_pos _) rfl ⟨?_, ?_⟩
  · simp [Log.decisions, List.filter_eq_self.2 hreports]
  · simp [Served.recording?, hreview]

/-- A review enters its first stage as soon as it is due. -/
theorem turned_entering {instant : Option Nat} {round : Round}
    (hover : scene.round.isOver instant = (round, true)) (hround : round.millis = now.millis)
    (hwall : now.wall = startedAt.plusMillis now.millis)
    (hbody : body.bind Review.ofJson? = some review) :
    ∃ e' news, Task.Turned s startedAt now.millis scene ⟨body, views, now.millis, none, []⟩
      (.due instant body views) (taskTurn s now scene (.due instant body views))
      (taskSteps s now scene (.due instant body views)) e' news := by
  have hturned : RunningTurned s startedAt body review views now.millis [] now.millis now
      { scene with round } (entering s views now.millis review)
      (runningTurn s now { scene with round } (entering s views now.millis review))
      (runningSteps s now { scene with round } (entering s views now.millis review)) :=
    turned_running hbody hwall (isFor_entering s views now.millis review) hround fun _ _ => rfl
  have hshort := stepsLeft_entry_le s views review
  rw [taskTurn_due hover hbody, taskSteps_due hover hbody]
  generalize runningTurn s now { scene with round } (entering s views now.millis review) = out
    at hturned ⊢
  generalize runningSteps s now { scene with round } (entering s views now.millis review) = taken
    at hturned ⊢
  cases hturned with
  | waits isFor canFail _ log spends =>
    exact ⟨⟨body, views, now.millis, none, []⟩, [], .steps rfl rfl (.running hbody isFor canFail)
      (spends.millis.trans hround) (Nat.lt_succ_of_le hshort) rfl log.adds⟩
  | steps isFor canFail millis log fewer =>
    exact ⟨⟨body, views, now.millis, none, taken.map Step.moment⟩, [],
      .steps rfl rfl (.running hbody isFor canFail) millis
        (Nat.lt_succ_of_lt (Nat.lt_of_lt_of_le fewer hshort)) rfl log.adds⟩
  | answers v given came millis log =>
    exact ⟨⟨v.body, v.views, v.started, some v, _⟩, [v], .steps given rfl (.answered came) millis
      (Nat.succ_pos _) rfl log⟩

theorem turned_due {instant : Option Nat} (h : Task.IsFor s now.millis e (.due instant body views))
    (hwall : now.wall = startedAt.plusMillis now.millis)
    (hround : scene.round.millis = now.millis) :
    ∃ e' news, Task.Turned s startedAt now.millis scene e (.due instant body views)
      (taskTurn s now scene (.due instant body views))
      (taskSteps s now scene (.due instant body views)) e' news := by
  cases h with
  | @due _ _ start _ start_eq ahead =>
    have hstarts (round : Round) (hover : scene.round.isOver instant = (round, true))
        (hmillis : round.millis = now.millis) (hstart : start = now.millis) :
        ∃ e' news, Task.Turned s startedAt now.millis scene ⟨body, views, start, none, []⟩
          (.due instant body views) (taskTurn s now scene (.due instant body views))
          (taskSteps s now scene (.due instant body views)) e' news := by
      subst hstart
      cases hbody : body.bind Review.ofJson? with
      | none => exact turned_refused hover hmillis hbody
      | some review => exact turned_entering hover hmillis hwall hbody
    rcases scene.round.isOver_cases instant with ⟨rfl, heq⟩ | ⟨d, spent, rfl, hle, hs, heq⟩ |
      ⟨d, rfl, hlt, heq⟩ | ⟨d, rfl, hzero, heq⟩
    · exact hstarts _ heq hround start_eq.symm
    · obtain ⟨-, hmillis, -, -⟩ := Round.spend?_eq_some hs
      have hd : d = start := start_eq
      exact hstarts _ heq (hmillis.trans hround) (by omega)
    · refine ⟨⟨body, views, start, none, []⟩, [], ?_⟩
      simp only [taskTurn, taskSteps, heq]
      refine .rests (.due start_eq ahead) rfl (.refl _) rfl (.refl ..) (fun _ => ?_) fun _ _ => rfl
      exact ⟨⟨rfl, fun wake hwake => Option.some.inj hwake ▸ hround ▸ hlt⟩, fun _ => rfl⟩
    · refine ⟨⟨body, views, start, none, []⟩, [], ?_⟩
      simp only [taskTurn, taskSteps, heq]
      have hnot (r : Round) : ¬ scene.round.IsCalm r := fun hcalm => absurd hcalm.1 (by omega)
      exact .rests (.due start_eq ahead) rfl (.refl _) rfl (Spends.refl ..).retry
        (fun hcalm => absurd hcalm (hnot _)) fun hcalm => absurd hcalm (hnot _)

/-- What the turn of a task can come to. -/
theorem turned_taskTurn (h : t.IsFor s now.millis e)
    (hwall : now.wall = startedAt.plusMillis now.millis)
    (hround : scene.round.millis = now.millis) :
    ∃ e' news, Task.Turned s startedAt now.millis scene e t (taskTurn s now scene t)
      (taskSteps s now scene t) e' news := by
  cases h with
  | due start_eq ahead => exact turned_due (.due start_eq ahead) hwall hround
  | answered came =>
    refine ⟨_, [], .rests (.answered came) rfl (.refl _) rfl (.refl ..) (fun _ => ?_) ?_⟩
    · exact ⟨⟨trivial, fun _ h => by cases h⟩, fun _ => rfl⟩
    · exact fun _ _ => rfl
  | @running body views review start moments since r hbody isFor canFail =>
    obtain rfl := isFor.views_eq
    have hturned : RunningTurned s startedAt body review r.views start moments since now scene r
        (runningTurn s now scene r) (runningSteps s now scene r) := by
      refine turned_running hbody hwall isFor hround fun result hresult => ?_
      rw [hresult] at canFail
      cases canFail
    simp only [taskTurn, taskSteps]
    generalize runningTurn s now scene r = out at hturned ⊢
    generalize runningSteps s now scene r = taken at hturned ⊢
    cases hturned with
    | @waits scene' reads isFor' _ shared log spends calm =>
      refine ⟨_, [], .rests (.running hbody isFor' canFail) shared log rfl spends
        (fun hcalm => ?_) fun hcalm hrests => ?_⟩
      · have hsettles := calm hcalm
        rw [← hround]
        refine ⟨⟨hsettles.sleeps, fun wake hwake => ?_⟩, fun hsleeps => ?_⟩
        · exact Option.some.inj hwake ▸ hsettles.rests
        · exact congrArg some (hsettles.wakeAt_eq hsleeps)
      · rw [← hround] at hrests
        exact (calm hcalm).round_eq hrests.sleeps (hrests.lt_wake _ rfl)
    | steps isFor' canFail' millis log fewer =>
      exact ⟨⟨body, r.views, start, none, moments ++ taken.map Step.moment⟩, [],
        .steps rfl rfl (.running hbody isFor' canFail') millis fewer rfl log.adds⟩
    | answers v given came millis log =>
      exact ⟨⟨v.body, v.views, v.started, some v, _⟩, [v], .steps given rfl (.answered came) millis
        (stepsLeft_pos canFail _) rfl log⟩

/-- What a round can come to. -/
theorem turned_giveTurns {slots : List Slot} {tasks : List Task}
    (h : List.Forall₂ (fun t e => t.IsFor s now.millis e) tasks slots)
    (hwall : now.wall = startedAt.plusMillis now.millis)
    (hround : scene.round.millis = now.millis) :
    ∃ slots' news, Tasks.Turned s startedAt now.millis slots scene tasks
      (giveTurns s now tasks scene).1 (giveTurns s now tasks scene).2.1
      (giveTurns s now tasks scene).2.2 (roundSteps s now tasks scene) slots' news := by
  induction h generalizing scene with
  | nil => exact ⟨[], [], .nil hround⟩
  | @cons t e tasks slots isFor _ ih =>
    obtain ⟨e', first, hfirst⟩ := turned_taskTurn isFor hwall hround
    obtain ⟨slots', news, hrest⟩ := ih (hfirst.millis_eq hround)
    exact ⟨e' :: slots', first ++ news, .cons hfirst hrest⟩

end Serving

end SharedQuota
