import SharedQuota.Proofs.Serving.Journey
import SharedQuota.Serving

/-!
The steps that calls take while they are served, read off the run itself: what is shared before each
of them, how far its call has come, and what the call is told. `Server.rounds` has them by round and
by review. Main statement (`Server.course`): each of them is taken on what the one before it has
left, from what is shared before the reviews are served to what is shared after it, and at the wall
clock of its instant.
-/

namespace SharedQuota

open Serving

/-- The review when its call has taken a step. -/
def Running.goOn (s : Settings) (now : Now) (r : Running) (call : Call) : Running :=
  { r with
    call
    reads := Reads.ofStage r.views s.rules.exclusions now.millis r.deadline call.stage }

namespace Serving

/-- A step of a call, as it is taken. -/
structure Step where
  now : Now
  shared : Shared
  call : Call
  answer : Answer

def Step.moment (e : Step) : Moment := ⟨e.now, e.shared.ledger, e.call.stage, e.answer⟩

/-- The call has the lock that it has waited for. -/
def Step.HasLock (e : Step) : Prop :=
  ∀ charge held handle a next, e.call.stage = .waiting charge held handle a next →
    e.shared.locks.holds handle = true

/-! ### Steps of a run -/

/-- The steps of a call that goes on until it waits. -/
def stepsAhead (s : Settings) (now : Now) : Nat → Scene → Running → List Step
  | 0, _, _ => []
  | fuel + 1, scene, r =>
    match (nextAnswer scene r).result, advance s now 1 scene r with
    | .ok answer, (true, scene', r') =>
      ⟨now, scene.shared, r.call, answer⟩ :: stepsAhead s now fuel scene' r'
    | _, _ => []

/-- What a call does that may go on by one step and then by others: it waits, or it takes a step. -/
inductive Ahead (s : Settings) (now : Now) (fuel : Nat) (scene : Scene) (r : Running) :
    List Step → Bool × Scene × Running → Prop
  | waits {scene' reads} (result : (nextAnswer scene r).result = .error reads)
      (round : scene'.round = (nextAnswer scene r).round) (shared : scene'.shared = scene.shared)
      (observations : scene'.log.observations = scene.log.observations)
      (recordings : scene'.log.recordings = scene.log.recordings) :
    Ahead s now fuel scene r [] (false, scene', { r with reads })
  | stops {scene' answer} (result : (nextAnswer scene r).result = .ok answer)
      (step : Engine.step s.rules now scene.shared r.call answer = none)
      (round : scene'.round = (nextAnswer scene r).round) (shared : scene'.shared = scene.shared)
      (observations : scene'.log.observations = scene.log.observations)
      (recordings : scene'.log.recordings = scene.log.recordings) :
    Ahead s now fuel scene r [] (false, scene', r)
  | steps {scene' answer call reports} (result : (nextAnswer scene r).result = .ok answer)
      (step : Engine.step s.rules now scene.shared r.call answer =
        some (scene'.shared, call, reports))
      (millis : scene'.round.millis = (nextAnswer scene r).round.millis)
      (observations : scene'.log.observations = scene.log.observations ++ reports)
      (recordings : scene'.log.recordings = scene.log.recordings) :
    Ahead s now fuel scene r
      (⟨now, scene.shared, r.call, answer⟩ :: stepsAhead s now fuel scene' (r.goOn s now call))
      (true, (advance s now fuel scene' (r.goOn s now call)).2)

theorem ahead (s : Settings) (now : Now) (fuel : Nat) (scene : Scene) (r : Running) :
    Ahead s now fuel scene r (stepsAhead s now (fuel + 1) scene r)
      (advance s now (fuel + 1) scene r) := by
  simp only [stepsAhead, advance]
  cases hresult : (nextAnswer scene r).result with
  | error reads => exact .waits hresult rfl rfl rfl rfl
  | ok answer =>
    dsimp only
    cases hstep : Engine.step s.rules now scene.shared r.call answer with
    | none => exact .stops hresult hstep rfl rfl rfl rfl
    | some out =>
      obtain ⟨shared, call, reports⟩ := out
      refine .steps hresult hstep ?_ rfl rfl
      dsimp only
      split <;> rfl

/-- The steps of a call that is ended because it is late as a whole. -/
def cutOffSteps (s : Settings) (now : Now) (scene : Scene) (r : Running) : List Step :=
  match Engine.step s.rules now scene.shared r.call (.failed (tooLate s)) with
  | none => []
  | some (shared, call, _) =>
    ⟨now, scene.shared, r.call, .failed (tooLate s)⟩ ::
      stepsAhead s now (stepBound r.views) { scene with shared } { r with call, reads := .none }

def runningSteps (s : Settings) (now : Now) (scene : Scene) (r : Running) : List Step :=
  let (_, scene', r') := advance s now (stepBound r.views) scene r
  stepsAhead s now (stepBound r.views) scene r ++
    match r'.call.stage with
    | .finished _ => []
    | _ =>
      match scene'.round.isLate scene.round.units r'.deadline with
      | (_, false) => []
      | (round, true) => cutOffSteps s now { scene' with round } r'

/-- How the turn of a review ends after it has gone on: its call has finished, or waits, or is
ended. -/
inductive Ran (s : Settings) (now : Now) (scene : Scene) (r : Running) :
    List Step → Bool × Scene × Task → Prop
  | finished {stepped scene' r' result}
      (advance_eq : advance s now (stepBound r.views) scene r = (stepped, scene', r'))
      (finished : r'.call.stage = .finished result) :
    Ran s now scene r (stepsAhead s now (stepBound r.views) scene r)
      (true, settle s now scene' r')
  | waits {stepped scene' r' round}
      (advance_eq : advance s now (stepBound r.views) scene r = (stepped, scene', r'))
      (unfinished : ∀ result, r'.call.stage ≠ .finished result)
      (isLate_eq : scene'.round.isLate scene.round.units r'.deadline = (round, false)) :
    Ran s now scene r (stepsAhead s now (stepBound r.views) scene r)
      (stepped, { scene' with round }, .running r')
  | ended {stepped scene' r' round}
      (advance_eq : advance s now (stepBound r.views) scene r = (stepped, scene', r'))
      (unfinished : ∀ result, r'.call.stage ≠ .finished result)
      (isLate_eq : scene'.round.isLate scene.round.units r'.deadline = (round, true)) :
    Ran s now scene r
      (stepsAhead s now (stepBound r.views) scene r ++ cutOffSteps s now { scene' with round } r')
      (true, settle s now (cutOff s now { scene' with round } r').1
        (cutOff s now { scene' with round } r').2)

theorem ran (s : Settings) (now : Now) (scene : Scene) (r : Running) :
    Ran s now scene r (runningSteps s now scene r) (runningTurn s now scene r) := by
  obtain ⟨stepped, scene', r', hadvance⟩ : ∃ stepped scene' r',
      advance s now (stepBound r.views) scene r = (stepped, scene', r') := ⟨_, _, _, rfl⟩
  obtain ⟨round, late, hlate⟩ : ∃ round late,
      scene'.round.isLate scene.round.units r'.deadline = (round, late) := ⟨_, _, rfl⟩
  simp only [runningSteps, runningTurn, hadvance, hlate]
  cases hstage : r'.call.stage with
  | finished result =>
    rw [List.append_nil]
    exact .finished hadvance hstage
  | _ =>
    have hopen (result : Except Denial Unit) : r'.call.stage ≠ .finished result := by simp [hstage]
    cases late with
    | false =>
      rw [List.append_nil]
      exact .waits hadvance hopen hlate
    | true => exact .ended hadvance hopen hlate

def taskSteps (s : Settings) (now : Now) (scene : Scene) : Task → List Step
  | .answered _ => []
  | .running r => runningSteps s now scene r
  | .due instant body views =>
    match scene.round.isOver instant with
    | (_, false) => []
    | (round, true) =>
      match begin s now body views scene.log with
      | (.inr _, _) => []
      | (.inl r, log) =>
        let reads := Reads.ofStage views s.rules.exclusions now.millis r.deadline r.call.stage
        runningSteps s now { scene with round, log } { r with reads }

/-- The steps of a round, task by task. -/
def roundSteps (s : Settings) (now : Now) : List Task → Scene → List (List Step)
  | [], _ => []
  | task :: rest, scene =>
    taskSteps s now scene task :: roundSteps s now rest (taskTurn s now scene task).2.1

/-- The steps of all rounds. -/
def loopSteps (steps rounds : Nat) (p : Server) (tasks : List Task) (log : Log) :
    List (List (List Step)) :=
  let taken := roundSteps p.settings (now p) tasks ⟨.start p.millis, p.shared, log⟩
  let (stepped, scene, tasks) :=
    giveTurns p.settings (now p) tasks ⟨.start p.millis, p.shared, log⟩
  taken ::
    if tasks.all Task.isAnswered then []
    else
      let p := { p with shared := scene.shared, millis := nextInstant scene tasks }
      match stepped, steps, rounds with
      | true, steps + 1, _ => loopSteps steps (roundBound tasks) p tasks scene.log
      | false, steps, rounds + 1 => loopSteps steps rounds p tasks scene.log
      | _, _, _ => []
termination_by (steps, rounds)

/-- The moments of the task at a place. -/
def momentsAt (taken : List (List (List Step))) (i : Nat) : List Moment :=
  taken.flatMap fun round => (round[i]?.getD []).map Step.moment

theorem momentsAt_append (taken more : List (List (List Step))) (i : Nat) :
    momentsAt (taken ++ more) i = momentsAt taken i ++ momentsAt more i :=
  List.flatMap_append

end Serving

namespace Server

/-- The steps that are taken while texts are served: in each round, those of each review. -/
def rounds (p : Server) (arrivals : List Arrival) : List (List (List Serving.Step)) :=
  let tasks := arrivals.map fun a =>
    Task.due (if a.delay = 0 then none else some (p.millis + a.delay)) a.body a.views
  loopSteps (stepsBound (arrivals.map (·.views))) (roundBound tasks) p tasks Log.empty

/-- All steps, in the order in which they are taken. -/
def steps (p : Server) (arrivals : List Arrival) : List Serving.Step :=
  (p.rounds arrivals).flatten.flatten

/-- The steps of one review. -/
def stepsOf (p : Server) (arrivals : List Arrival) (i : Nat) : List Serving.Step :=
  (p.rounds arrivals).flatMap fun round => round[i]?.getD []

theorem stepsOf_sublist (p : Server) (arrivals : List Arrival) (i : Nat) :
    (p.stepsOf arrivals i).Sublist (p.steps arrivals) := by
  rw [stepsOf, steps]
  induction p.rounds arrivals with
  | nil => exact .refl _
  | cons round rounds ih =>
    rw [List.flatMap_cons, List.flatten_cons, List.flatten_append]
    refine .append ?_ ih
    cases htaken : round[i]? with
    | none => exact List.nil_sublist _
    | some taken => exact List.sublist_flatten_of_mem (List.mem_of_getElem? htaken)

theorem map_moment_stepsOf (p : Server) (arrivals : List Arrival) (i : Nat) :
    (p.stepsOf arrivals i).map Step.moment = momentsAt (p.rounds arrivals) i := by
  rw [stepsOf, momentsAt, List.map_flatMap]

end Server

namespace Serving

/-- Steps that are taken one after the other, from what is shared before the first to what is shared
after the last, each at the wall clock of its instant. -/
inductive Course (rules : Rules) (startedAt : Time) : Shared → List Step → Shared → Prop
  | nil {shared} : Course rules startedAt shared [] shared
  | cons {now shared call answer shared' call' reports steps last}
      (clock : now.wall = startedAt.plusMillis now.millis)
      (step : Engine.step rules now shared call answer = some (shared', call', reports))
      (rest : Course rules startedAt shared' steps last) :
    Course rules startedAt shared (⟨now, shared, call, answer⟩ :: steps) last

namespace Course

variable {rules : Rules} {startedAt : Time} {shared between last : Shared} {steps more : List Step}
  {e : Step}

theorem append (h : Course rules startedAt shared steps between)
    (hmore : Course rules startedAt between more last) :
    Course rules startedAt shared (steps ++ more) last := by
  induction h with
  | nil => exact hmore
  | cons clock step _ ih => exact .cons clock step (ih hmore)

theorem clock_eq (h : Course rules startedAt shared steps last) (he : e ∈ steps) :
    e.now.wall = startedAt.plusMillis e.now.millis := by
  induction h with
  | nil => cases he
  | cons clock _ _ ih => exact (List.mem_cons.1 he).elim (fun h => h ▸ clock) ih

/-- A call goes on from waiting for a lock only with the lock, or to fail. -/
theorem hasLock (h : Course rules startedAt shared steps last) (he : e ∈ steps)
    (hanswer : ¬ e.moment.IsFailure) : e.HasLock := by
  induction h with
  | nil => cases he
  | @cons _ _ call _ _ call' _ _ _ _ step _ ih =>
    rcases List.mem_cons.1 he with rfl | he
    · obtain ⟨dryRun, stage⟩ := call
      obtain ⟨_, stage'⟩ := call'
      rintro charge held handle a next rfl
      cases (Engine.Advance.of_step step).1 with
      | fail => exact absurd ⟨_, rfl⟩ hanswer
      | take hholds => exact hholds
      | deny hr | clear hr =>
        rcases Engine.stage_of_reading? hr with h | ⟨_, h⟩ <;> cases h
    · exact ih he

end Course

variable {s : Settings} {startedAt : Time} {now : Now}

theorem course_stepsAhead (hwall : now.wall = startedAt.plusMillis now.millis) (fuel : Nat)
    (scene : Scene) (r : Running) :
    Course s.rules startedAt scene.shared (stepsAhead s now fuel scene r)
      (advance s now fuel scene r).2.1.shared := by
  induction fuel generalizing scene r with
  | zero => exact .nil
  | succ fuel ih =>
    have hahead := ahead s now fuel scene r
    generalize stepsAhead s now (fuel + 1) scene r = taken at hahead ⊢
    generalize advance s now (fuel + 1) scene r = out at hahead ⊢
    cases hahead with
    | waits _ _ shared | stops _ _ _ shared =>
      rw [shared]
      exact .nil
    | steps _ step => exact .cons hwall step (ih _ _)

theorem course_cutOffSteps (hwall : now.wall = startedAt.plusMillis now.millis) (scene : Scene)
    (r : Running) :
    Course s.rules startedAt scene.shared (cutOffSteps s now scene r)
      (cutOff s now scene r).1.shared := by
  simp only [cutOffSteps, cutOff]
  cases hstep : Engine.step s.rules now scene.shared r.call (.failed (tooLate s)) with
  | none => exact .nil
  | some out =>
    obtain ⟨shared, call, reports⟩ := out
    dsimp only
    exact .cons hwall hstep (course_stepsAhead hwall _ { scene with shared } _)

theorem shared_settle (s : Settings) (now : Now) (scene : Scene) (r : Running) :
    (settle s now scene r).1.shared = scene.shared := by
  rw [settle]
  split <;> rfl

theorem course_runningSteps (hwall : now.wall = startedAt.plusMillis now.millis) (scene : Scene)
    (r : Running) :
    Course s.rules startedAt scene.shared (runningSteps s now scene r)
      (runningTurn s now scene r).2.1.shared := by
  have hahead := course_stepsAhead (s := s) hwall (stepBound r.views) scene r
  have hran := ran s now scene r
  generalize runningSteps s now scene r = taken at hran ⊢
  generalize runningTurn s now scene r = out at hran ⊢
  cases hran with
  | finished advance_eq =>
    rw [advance_eq] at hahead
    rw [shared_settle]
    exact hahead
  | waits advance_eq =>
    rw [advance_eq] at hahead
    exact hahead
  | @ended _ scene' r' round advance_eq =>
    rw [advance_eq] at hahead
    rw [shared_settle]
    exact hahead.append (course_cutOffSteps hwall { scene' with round } r')

theorem course_taskSteps (hwall : now.wall = startedAt.plusMillis now.millis) (scene : Scene)
    (task : Task) :
    Course s.rules startedAt scene.shared (taskSteps s now scene task)
      (taskTurn s now scene task).2.1.shared := by
  cases task with
  | answered => exact .nil
  | running r => exact course_runningSteps hwall scene r
  | due instant body views =>
    simp only [taskSteps, taskTurn]
    generalize scene.round.isOver instant = look
    obtain ⟨round, isOver⟩ := look
    cases isOver with
    | false => exact .nil
    | true =>
      dsimp only
      generalize begin s now body views scene.log = begun
      obtain ⟨r | response, log⟩ := begun
      · exact course_runningSteps hwall { scene with round, log } _
      · exact .nil

theorem course_roundSteps (hwall : now.wall = startedAt.plusMillis now.millis) (tasks : List Task)
    (scene : Scene) :
    Course s.rules startedAt scene.shared (roundSteps s now tasks scene).flatten
      (giveTurns s now tasks scene).2.1.shared := by
  induction tasks generalizing scene with
  | nil => exact .nil
  | cons task rest ih =>
    rw [roundSteps, List.flatten_cons]
    exact (course_taskSteps hwall scene task).append (ih _)

theorem course_round {p : Server} {tasks tasks' : List Task} {log : Log} {stepped : Bool}
    {scene : Scene}
    (hgive : giveTurns p.settings (Serving.now p) tasks ⟨.start p.millis, p.shared, log⟩ =
      (stepped, scene, tasks')) :
    Course p.settings.rules p.startedAt p.shared
      (roundSteps p.settings (Serving.now p) tasks ⟨.start p.millis, p.shared, log⟩).flatten
      scene.shared := by
  have hround := @course_roundSteps p.settings p.startedAt (Serving.now p) rfl tasks
    ⟨.start p.millis, p.shared, log⟩
  rwa [hgive] at hround

theorem course_loopSteps (steps rounds : Nat) (p : Server) (tasks : List Task) (log : Log) :
    Course p.settings.rules p.startedAt p.shared
      (loopSteps steps rounds p tasks log).flatten.flatten
      (loop steps rounds p tasks log).1.shared := by
  induction steps, rounds, p, tasks, log using loop.induct with
  | case1 steps rounds p tasks log stepped scene tasks' hgive hanswered =>
    rw [loopSteps, loop]
    simp only [hgive, hanswered, if_true, List.flatten_cons, List.flatten_nil, List.append_nil]
    exact course_round hgive
  | case2 rounds p tasks log scene tasks' p' hopen p'' steps hgive ih =>
    rw [loopSteps, loop]
    simp only [hgive, hopen, Bool.false_eq_true, if_false, List.flatten_cons, List.flatten_append]
    exact (course_round hgive).append ih
  | case3 p tasks log scene tasks' p' hopen p'' steps rounds hgive ih =>
    rw [loopSteps, loop]
    simp only [hgive, hopen, Bool.false_eq_true, if_false, List.flatten_cons, List.flatten_append]
    exact (course_round hgive).append ih
  | case4 steps rounds p tasks log stepped scene tasks' hgive hopen hnosteps hnorounds =>
    rw [loopSteps, loop]
    simp only [hgive, hopen, Bool.false_eq_true, if_false, List.flatten_cons, List.flatten_nil,
      List.append_nil]
    exact course_round hgive

end Serving

/-- The steps that are taken while texts are served follow each other. -/
theorem Server.course (p : Server) (arrivals : List Arrival) :
    Course p.settings.rules p.startedAt p.shared (p.steps arrivals)
      (p.serveAll arrivals).1.shared :=
  course_loopSteps ..

end SharedQuota
