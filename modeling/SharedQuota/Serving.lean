import SharedQuota.Admission
import SharedQuota.Serving.Reads

/-!
Reviews served side by side on one thread, in rounds: in each round every review that is not yet
answered gets a turn, in the order in which they were given, and goes on until it waits. When
nothing asks for another round at once, time passes to the next moment at which some review can go
on.
-/

namespace SharedQuota

structure Server where
  settings : Settings
  shared : Shared
  /-- The wall clock when the process started. -/
  startedAt : Time
  millis : Nat

/-- What serving leaves behind besides the responses. The requests that record denials come last. -/
structure Log where
  observations : List Observation
  reads : List String
  requests : List ApiRequest
  recordings : List ApiRequest

namespace Log

def empty : Log := ⟨[], [], [], []⟩

def allRequests (l : Log) : List ApiRequest := l.requests ++ l.recordings

end Log

structure Running where
  review : Review
  views : Views
  kindText : String
  started : Nat
  deadline : Nat
  call : Call
  reads : Reads

inductive Task
  /-- Starts at once or at an instant, with what was read of its text. -/
  | due (instant : Option Nat) (body : Option Json) (views : Views)
  | running (r : Running)
  | answered (r : Response)

def Task.isAnswered : Task → Bool
  | .answered _ => true
  | _ => false

/-- A text that is served after a delay, with what its review finds of the cluster. -/
structure Arrival where
  delay : Nat
  body : Option Json
  views : Views

structure Scene where
  round : Round
  shared : Shared
  log : Log

namespace Serving

def now (p : Server) : Now := ⟨p.millis, p.startedAt.plusMillis p.millis⟩

/-! ### Denials -/

def lateLock (quota : String) : Denial :=
  .unavailable ("timed out waiting to admit against quota " ++ quota)

def tooLate (s : Settings) : Denial :=
  .unavailable ("admission did not complete within " ++ Decimal.text s.timeout ++ "ms")

/-! ### Calls -/

/-- What a call is told at its turn: that it may go on, what its reads answer, or that its time is
up. A lock is only asked for while there are units to take it with. -/
def nextAnswer (scene : Scene) (r : Running) : Reads.Outcome :=
  match r.call.stage with
  | .locking _ _ (_ :: _) =>
    if scene.round.units = 0 then ⟨scene.round.retry, [], [], .error .none⟩
    else ⟨scene.round, [], [], .ok .proceed⟩
  | .waiting _ _ handle a _ =>
    match scene.round.spend? with
    | none => ⟨scene.round.retry, [], [], .error .none⟩
    | some spent =>
      if scene.shared.locks.holds handle then ⟨spent, [], [], .ok .proceed⟩
      else match scene.round.isLate scene.round.units r.deadline with
        | (round, true) => ⟨round, [], [], .ok (.failed (lateLock a.name))⟩
        | (round, false) => ⟨round, [], [], .error .none⟩
  | _ => r.reads.turn scene.round r.deadline

/-- Whether the next step of a call hands a lock to another, which then gets a round at once. -/
def wakesOther (shared : Shared) : Stage → Bool
  | .releasing (handle :: _) _ => shared.locks.passesOn handle
  | _ => false

/-- Lets a call go on until it waits, and tells whether it took a step. -/
def advance (s : Settings) (now : Now) :
    Nat → Scene → Running → Bool × Scene × Running
  | 0, scene, r => (false, scene, r)
  | fuel + 1, scene, r =>
    let outcome := nextAnswer scene r
    let scene := { scene with
      round := outcome.round
      log := { scene.log with
        requests := scene.log.requests ++ outcome.requests
        reads := scene.log.reads ++ outcome.reads } }
    match outcome.result with
    | .error reads => (false, scene, { r with reads })
    | .ok answer =>
      match Engine.step s.rules now scene.shared r.call answer with
      | none => (false, scene, r)
      | some (shared, call, observations) =>
        let reads := Reads.ofStage r.views s.rules.exclusions now.millis r.deadline call.stage
        let scene : Scene := {
          round := if wakesOther scene.shared r.call.stage then scene.round.retry else scene.round
          shared
          log := { scene.log with observations := scene.log.observations ++ observations } }
        (true, (advance s now fuel scene { r with call, reads }).2)

def listedQuotas (views : Views) : Nat :=
  match (views 0).quotas.answer with
  | .ok qs => qs.length
  | .error _ => 0

/-- A bound on the steps of a call: each quota takes seven at most, and the rest takes nine. -/
def stepBound (views : Views) : Nat := 7 * listedQuotas views + 9

/-- Ends a call that is late as a whole. -/
def cutOff (s : Settings) (now : Now) (scene : Scene) (r : Running) : Scene × Running :=
  match Engine.step s.rules now scene.shared r.call (.failed (tooLate s)) with
  | none => (scene, r)
  | some (shared, call, _) =>
    (advance s now (stepBound r.views) { scene with shared } { r with call, reads := .none }).2

/-! ### Reviews -/

/-- The request that records a denial, if the namespace makes up a target. -/
def recording? (instanceName : String) (wall : Time) (d : Event.Denied) : Option ApiRequest := do
  let path ← Http.pathOfTarget? ("/api/v1/namespaces/" ++ d.namespaceName ++ "/events")
  some ⟨"POST", path, none, some (d.toJson instanceName wall)⟩

def answer (s : Settings) (now : Now) (r : Running) (result : Except Denial Unit) (log : Log) :
    Response × Log :=
  let d := Decision.ofResult result
  let request := r.review.request
  let reports :=
    Admission.reports r.kindText request.operation.text d (now.millis - r.started)
  let recordings := (do
    let instanceName ← s.recorder
    let denied ← Admission.denied? request d
    recording? instanceName now.wall denied).toList
  (⟨r.review.apiVersion, r.review.kind, request.uid, d⟩,
    { log with
      observations := log.observations ++ reports
      recordings := log.recordings ++ recordings })

/-- Starts a review; one that does not decode, or whose kind is none that is admitted, is answered
at once. -/
def begin (s : Settings) (now : Now) (body : Option Json) (views : Views) (log : Log) :
    (Running ⊕ Response) × Log :=
  match body.bind Review.ofJson? with
  | none =>
    let d := Decision.ofResult (.error (.undecodable "the text is not an admission review"))
    (.inr ⟨Response.plainVersion, Response.plainKind, Review.salvagedUid body, d⟩,
      { log with observations := log.observations ++
          Admission.reports Kind.unknownText Kind.unknownText d 0 })
  | some review =>
    let run (kindText : String) (stage : Stage) : Running :=
      { review, views, kindText
        started := now.millis
        deadline := now.millis + s.timeout
        call := ⟨review.request.dryRun, stage⟩
        reads := .none }
    match Kind.ofRequest s.objectCounts review.request with
    | .error denial => (.inl (run Kind.unknownText (.finished (.error denial))), log)
    | .ok kind => (.inl (run kind.text (Admission.start s kind review.request)), log)

/-! ### Turns -/

/-- The task of a review behind a turn: answered, once its call has finished. -/
def settle (s : Settings) (now : Now) (scene : Scene) (r : Running) : Scene × Task :=
  match r.call.stage with
  | .finished result =>
    let (response, log) := answer s now r result scene.log
    ({ scene with log }, .answered response)
  | _ => (scene, .running r)

/-- Gives a running review its turn. If its call then still waits, the deadline of the whole review
is looked at. -/
def runningTurn (s : Settings) (now : Now) (scene : Scene) (r : Running) :
    Bool × Scene × Task :=
  let before := scene.round.units
  let (stepped, scene, r) := advance s now (stepBound r.views) scene r
  match r.call.stage with
  | .finished _ => (true, settle s now scene r)
  | _ =>
    match scene.round.isLate before r.deadline with
    | (round, false) => (stepped, { scene with round }, .running r)
    | (round, true) =>
      let (scene, r) := cutOff s now { scene with round } r
      (true, settle s now scene r)

/-- Gives a task its turn, and tells whether it took a step ahead. -/
def taskTurn (s : Settings) (now : Now) (scene : Scene) : Task → Bool × Scene × Task
  | .answered r => (false, scene, .answered r)
  | .running r => runningTurn s now scene r
  | .due instant body views =>
    match scene.round.isOver instant with
    | (round, false) => (false, { scene with round }, .due instant body views)
    | (round, true) =>
      match begin s now body views scene.log with
      | (.inr response, log) => (true, { scene with round, log }, .answered response)
      | (.inl r, log) =>
        let reads := Reads.ofStage views s.rules.exclusions now.millis r.deadline r.call.stage
        (true, (runningTurn s now { scene with round, log } { r with reads }).2)

def giveTurns (s : Settings) (now : Now) : List Task → Scene → Bool × Scene × List Task
  | [], scene => (false, scene, [])
  | task :: rest, scene =>
    let (stepped, scene, task) := taskTurn s now scene task
    let (others, scene, rest) := giveTurns s now rest scene
    (stepped || others, scene, task :: rest)

/-! ### Rounds -/

def wakeAt (shared : Shared) (millis : Nat) (r : Running) : Nat :=
  match r.call.stage with
  | .waiting _ _ handle _ _ => if shared.locks.holds handle then millis else r.deadline
  | _ => min r.deadline (r.reads.wakeAt millis r.deadline)

def taskWake? (shared : Shared) (millis : Nat) : Task → Option Nat
  | .answered _ => none
  | .due instant _ _ => some (instant.getD millis)
  | .running r => some (wakeAt shared millis r)

def nextInstant (scene : Scene) (tasks : List Task) : Nat :=
  let millis := scene.round.millis
  if scene.round.again then millis
  else max millis (((tasks.filterMap (taskWake? scene.shared millis)).min?).getD millis)

/-- A bound on the units that a task takes before it takes a step. -/
def unitsLeft : Task → Nat
  | .answered _ => 0
  | .due _ _ _ => 1
  | .running r => r.reads.unitsLeft + 2

/-- A bound on the rounds before some task takes a step. In each of them a unit is taken, or time
passes and then one is. -/
def roundBound (tasks : List Task) : Nat := 4 * (tasks.map unitsLeft).foldl (· + ·) 0 + 4

/-- Gives rounds until every task is answered. `steps` bounds the rounds in which some task takes a
step, and `rounds` those before the next of them. -/
def loop (steps rounds : Nat) (p : Server) (tasks : List Task) (log : Log) :
    Server × List Task × Log :=
  let (stepped, scene, tasks) :=
    giveTurns p.settings (now p) tasks ⟨.start p.millis, p.shared, log⟩
  let p := { p with shared := scene.shared }
  if tasks.all Task.isAnswered then (p, tasks, scene.log)
  else
    let p := { p with millis := nextInstant scene tasks }
    match stepped, steps, rounds with
    | true, steps + 1, _ => loop steps (roundBound tasks) p tasks scene.log
    | false, steps, rounds + 1 => loop steps rounds p tasks scene.log
    | _, _, _ => (p, tasks, scene.log)
termination_by (steps, rounds)

/-- Every text starts once and takes no more steps than its call. -/
def stepsBound (views : List Views) : Nat :=
  (views.map fun v => stepBound v + 1).foldl (· + ·) 0

/-- The response to a task. One that the rounds have left open is denied. -/
def conclude (p : Server) (log : Log) : Task → Response × Log
  | .answered response => (response, log)
  | .running r => answer p.settings (now p) r (.error (tooLate p.settings)) log
  | .due _ body views =>
    match begin p.settings (now p) body views log with
    | (.inr response, log) => (response, log)
    | (.inl r, log) => answer p.settings (now p) r (.error (tooLate p.settings)) log

def concludeAll (p : Server) : List Task → Log → List Response × Log
  | [], log => ([], log)
  | task :: rest, log =>
    let (response, log) := conclude p log task
    let (responses, log) := concludeAll p rest log
    (response :: responses, log)

end Serving

namespace Server

def start (settings : Settings) (wall : Time) : Server :=
  ⟨settings, ⟨Table.empty, Locks.empty⟩, wall, 0⟩

def pass (p : Server) (millis : Nat) : Server := { p with millis := p.millis + millis }

/-- Serves the texts of reviews side by side, each started so many milliseconds from now, and each
with what it finds of the cluster. -/
def serveAll (p : Server) (arrivals : List Arrival) : Server × List Response × Log :=
  let tasks := arrivals.map fun a =>
    Task.due (if a.delay = 0 then none else some (p.millis + a.delay)) a.body a.views
  let (p, tasks, log) := Serving.loop (Serving.stepsBound (arrivals.map (·.views)))
    (Serving.roundBound tasks) p tasks Log.empty
  let (responses, log) := Serving.concludeAll p tasks log
  (p, responses, log)

/-- Serves reviews side by side that all find the cluster the same. -/
def serve (p : Server) (c : Cluster) (bodies : List (Nat × Option Json)) :
    Server × List Response × Log :=
  p.serveAll (bodies.map fun (delay, body) => ⟨delay, body, fun _ => c⟩)

end Server

end SharedQuota
