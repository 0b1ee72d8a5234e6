import SharedQuota.Proofs.Serving.Rounds

/-!
One review served in two ways that stay alike. What has to be told of a single step is a `Mirror`:
states that are alike are told the same up to the difference between them, and step to states that
are alike again. From it the whole service is mirrored, its answer and what it logs included (main
statement `Mirror.serveAll`).

The states may have to be alike only on the way to some end. `Leads` then tells what leads there; it
is inherited from the end backwards.
-/

namespace SharedQuota

namespace Serving

/-- What serving sees of a running review apart from the steps of its call. -/
structure LooksLike (r r' : Running) : Prop where
  review : r'.review = r.review
  kindText : r'.kindText = r.kindText
  started : r'.started = r.started
  deadline : r'.deadline = r.deadline
  stepBound : stepBound r'.views = stepBound r.views
  unitsLeft : r'.reads.unitsLeft = r.reads.unitsLeft
  finished : ∀ result, r'.call.stage = .finished result ↔ r.call.stage = .finished result

section

variable (s : Settings) (Like : Shared → Running → Shared → Running → Prop)
  (Leads : Shared → Call → Prop) (now : Now) (shared : Shared) (r : Running) (shared' : Shared)
  (r' : Running)

/-- Both calls step on their answers, or none does. -/
inductive StepsAlike (answer answer' : Answer) : Prop
  | stops (h : Engine.step s.rules now shared r.call answer = none)
      (h' : Engine.step s.rules now shared' r'.call answer' = none) : StepsAlike answer answer'
  | goesOn {next call next' call' reports}
      (step : Engine.step s.rules now shared r.call answer = some (next, call, reports))
      (step' : Engine.step s.rules now shared' r'.call answer' = some (next', call', reports))
      (wakes : wakesOther shared' r'.call.stage = wakesOther shared r.call.stage)
      (like : Leads next call → Like next (r.goOn s now call) next' (r'.goOn s now call')) :
    StepsAlike answer answer'

/-- What two calls are told at their turn. -/
inductive ToldAlike : Reads.Outcome → Reads.Outcome → Prop
  | waits {round requests reads left left'}
      (like : Like shared { r with reads := left } shared' { r' with reads := left' }) :
    ToldAlike ⟨round, requests, reads, .error left⟩ ⟨round, requests, reads, .error left'⟩
  | answers {round requests reads answer answer'}
      (steps : StepsAlike s Like Leads now shared r shared' r' answer answer') :
    ToldAlike ⟨round, requests, reads, .ok answer⟩ ⟨round, requests, reads, .ok answer'⟩

variable {s Like Leads now shared r shared' r'}

/-- Calls may be told the same. -/
theorem ToldAlike.same
    (hwaits : ∀ reads, Like shared { r with reads } shared' { r' with reads })
    (hsteps : ∀ answer, StepsAlike s Like Leads now shared r shared' r' answer answer)
    (outcome : Reads.Outcome) : ToldAlike s Like Leads now shared r shared' r' outcome outcome := by
  obtain ⟨round, requests, texts, result⟩ := outcome
  cases result with
  | error reads => exact .waits (hwaits reads)
  | ok answer => exact .answers (hsteps answer)

end

structure Mirror (s : Settings) where
  Like : Shared → Running → Shared → Running → Prop
  Leads : Shared → Call → Prop
  leads {now : Now} {shared next : Shared} {c call : Call} {answer : Answer}
      {reports : List Observation} (step : Engine.step s.rules now shared c answer =
        some (next, call, reports)) (h : Leads next call) : Leads shared c
  looks {shared r shared' r'} (like : Like shared r shared' r') : LooksLike r r'
  wakeAt {shared r shared' r'} (like : Like shared r shared' r') (millis : Nat) :
    wakeAt shared' millis r' = wakeAt shared millis r
  told {shared r shared' r'} (like : Like shared r shared' r') (now : Now) (round : Round)
      (log : Log) : ToldAlike s Like Leads now shared r shared' r'
    (nextAnswer ⟨round, shared, log⟩ r) (nextAnswer ⟨round, shared', log⟩ r')
  cut {shared r shared' r'} (like : Like shared r shared' r') (now : Now) :
    StepsAlike s Like Leads now shared r shared' r' (.failed (tooLate s)) (.failed (tooLate s))

namespace Mirror

variable {s : Settings} (m : Mirror s) {now : Now} {round : Round} {log : Log}
  {shared shared' : Shared} {r r' : Running}

/-! ### What leads to an end -/

theorem leads_advance (fuel : Nat) (scene : Scene) (r : Running)
    (h : m.Leads (advance s now fuel scene r).2.1.shared (advance s now fuel scene r).2.2.call) :
    m.Leads scene.shared r.call := by
  induction fuel generalizing scene r with
  | zero => exact h
  | succ fuel ih =>
    rw [advance] at h
    dsimp only at h
    split at h
    case h_1 => exact h
    case h_2 answer hanswer =>
      split at h
      case h_1 => exact h
      case h_2 hstep => exact m.leads hstep (ih _ _ h)

theorem leads_cutOff (scene : Scene)
    (h : m.Leads (cutOff s now scene r).1.shared (cutOff s now scene r).2.call) :
    m.Leads scene.shared r.call := by
  rw [cutOff] at h
  split at h
  case h_1 => exact h
  case h_2 hstep => exact m.leads hstep (m.leads_advance _ _ _ h)

/-- What leads to an end where a review is served: one that was not begun is no way from it. -/
def TaskLeads (shared : Shared) : Task → Prop
  | .due _ _ _ => True
  | .running r => m.Leads shared r.call
  | .answered _ => ∀ c result, c.stage = .finished result → m.Leads shared c

theorem leads_settle {scene : Scene}
    (h : m.TaskLeads (settle s now scene r).1.shared (settle s now scene r).2) :
    m.Leads scene.shared r.call := by
  rw [settle] at h
  split at h
  case h_1 result hstage => exact h _ result hstage
  case h_2 => exact h

/-- What comes behind the steps of a turn: the deadline of the review is looked at. -/
def behind (s : Settings) (now : Now) (units : Nat) (o : Bool × Scene × Running) :
    Bool × Scene × Task :=
  match o.2.2.call.stage with
  | .finished _ => (true, settle s now o.2.1 o.2.2)
  | _ =>
    match o.2.1.round.isLate units o.2.2.deadline with
    | (round, false) => (o.1, { o.2.1 with round }, .running o.2.2)
    | (round, true) =>
      let (scene, r) := cutOff s now { o.2.1 with round } o.2.2
      (true, settle s now scene r)

theorem behind_of_open {units : Nat} {o : Bool × Scene × Running}
    (h : ∀ result, o.2.2.call.stage ≠ .finished result) :
    behind s now units o = match o.2.1.round.isLate units o.2.2.deadline with
      | (round, false) => (o.1, { o.2.1 with round }, .running o.2.2)
      | (round, true) =>
        let (scene, r) := cutOff s now { o.2.1 with round } o.2.2
        (true, settle s now scene r) := by
  rw [behind]
  split
  case h_1 result hresult => exact absurd hresult (h result)
  case h_2 => rfl

theorem runningTurn_eq (scene : Scene) (r : Running) : runningTurn s now scene r =
    behind s now scene.round.units (advance s now (stepBound r.views) scene r) := rfl

theorem leads_behind {units : Nat} {o : Bool × Scene × Running}
    (h : m.TaskLeads (behind s now units o).2.1.shared (behind s now units o).2.2) :
    m.Leads o.2.1.shared o.2.2.call := by
  rw [behind] at h
  split at h
  case h_1 => exact m.leads_settle h
  case h_2 =>
    split at h
    case h_1 => exact h
    case h_2 round _ => exact m.leads_cutOff { o.2.1 with round } (m.leads_settle h)

theorem leads_runningTurn {scene : Scene}
    (h : m.TaskLeads (runningTurn s now scene r).2.1.shared (runningTurn s now scene r).2.2) :
    m.Leads scene.shared r.call :=
  m.leads_advance (stepBound r.views) scene r (m.leads_behind h)

theorem leads_taskTurn {scene : Scene} {t : Task}
    (h : m.TaskLeads (taskTurn s now scene t).2.1.shared (taskTurn s now scene t).2.2) :
    m.TaskLeads scene.shared t := by
  cases t with
  | due instant body views => trivial
  | running r => exact m.leads_runningTurn h
  | answered response => exact h

/-! ### Turns -/

/-- Two turns that look the same and leave calls that are alike. -/
structure Same (o o' : Bool × Scene × Running) : Prop where
  stepped : o'.1 = o.1
  round : o'.2.1.round = o.2.1.round
  log : o'.2.1.log = o.2.1.log
  like : m.Like o.2.1.shared o.2.2 o'.2.1.shared o'.2.2

theorem same_advance (fuel : Nat) (round : Round) (log : Log) (h : m.Like shared r shared' r')
    (hleads : m.Leads (advance s now fuel ⟨round, shared, log⟩ r).2.1.shared
      (advance s now fuel ⟨round, shared, log⟩ r).2.2.call) :
    m.Same (advance s now fuel ⟨round, shared, log⟩ r)
      (advance s now fuel ⟨round, shared', log⟩ r') := by
  induction fuel generalizing round log shared r shared' r' with
  | zero => exact ⟨rfl, rfl, rfl, h⟩
  | succ fuel ih =>
    have htold := m.told h now round log
    rw [advance] at hleads
    rw [advance, advance]
    dsimp only at hleads ⊢
    generalize nextAnswer ⟨round, shared, log⟩ r = outcome at hleads htold ⊢
    generalize nextAnswer ⟨round, shared', log⟩ r' = outcome' at htold ⊢
    cases htold with
    | waits like => exact ⟨rfl, rfl, rfl, like⟩
    | answers steps =>
      cases steps with
      | stops hstop hstop' =>
        simp only [hstop, hstop']
        exact ⟨rfl, rfl, rfl, h⟩
      | goesOn step step' wakes like =>
        simp only [step] at hleads
        simp only [step, step', wakes]
        have hnext := ih _ _ (like (m.leads_advance fuel _ _ hleads)) hleads
        exact ⟨rfl, hnext.round, hnext.log, hnext.like⟩

/-- A call that is cut off waits for nothing any more. -/
theorem goOn_of_failed {denial : Denial} {next : Shared} {call : Call} {reports : List Observation}
    (h : Engine.step s.rules now shared r.call (.failed denial) = some (next, call, reports)) :
    r.goOn s now call = { r with call, reads := .none } := by
  have hstage := stage_of_failed (Engine.Advance.of_step h).1
  rw [Running.goOn, hstage]
  rfl

theorem same_cutOff (h : m.Like shared r shared' r')
    (hleads : m.Leads (cutOff s now ⟨round, shared, log⟩ r).1.shared
      (cutOff s now ⟨round, shared, log⟩ r).2.call) :
    m.Same (true, cutOff s now ⟨round, shared, log⟩ r)
      (true, cutOff s now ⟨round, shared', log⟩ r') := by
  have hbound := (m.looks h).stepBound
  rw [cutOff] at hleads
  rw [cutOff, cutOff]
  cases m.cut h now with
  | stops hstop hstop' =>
    simp only [hstop, hstop']
    exact ⟨rfl, rfl, rfl, h⟩
  | goesOn step step' wakes like =>
    simp only [step] at hleads
    simp only [step, step', hbound]
    rw [goOn_of_failed step, goOn_of_failed step'] at like
    have hnext := m.same_advance _ round log (like (m.leads_advance _ _ _ hleads)) hleads
    exact ⟨rfl, hnext.round, hnext.log, hnext.like⟩

/-! ### Tasks -/

/-- One review served in two ways, from its start in `start` and `start'` to its answer. -/
inductive TaskLike (start start' : Shared) (body : Option Json) (views views' : Views) :
    Shared → Task → Shared → Task → Prop
  | due {instant} : TaskLike start start' body views views' start (.due instant body views) start'
      (.due instant body views')
  | running {shared shared' : Shared} {r r' : Running} (like : m.Like shared r shared' r') :
    TaskLike start start' body views views' shared (.running r) shared' (.running r')
  | answered {shared shared' : Shared} {response}
      (ended : (shared = start ∧ shared' = start') ∨ ∃ r r' result,
        r.call.stage = .finished result ∧ m.Like shared r shared' r') :
    TaskLike start start' body views views' shared (.answered response) shared'
      (.answered response)

/-- Two turns of a task that look the same and leave tasks that are alike. -/
structure SameTask (start start' : Shared) (body : Option Json) (views views' : Views)
    (o o' : Bool × Scene × Task) : Prop where
  stepped : o'.1 = o.1
  round : o'.2.1.round = o.2.1.round
  log : o'.2.1.log = o.2.1.log
  like : m.TaskLike start start' body views views' o.2.1.shared o.2.2 o'.2.1.shared o'.2.2

variable {start start' : Shared} {body : Option Json} {views views' : Views}

theorem settle_of_open {scene : Scene} (h : ∀ result, r.call.stage ≠ .finished result) :
    settle s now scene r = (scene, .running r) := by
  rw [settle]
  split
  case h_1 result hresult => exact absurd hresult (h result)
  case h_2 => rfl

theorem answer_eq (h : LooksLike r r') (result : Except Denial Unit) (log : Log) :
    answer s now r' result log = answer s now r result log := by
  simp only [answer, h.review, h.kindText, h.started]

theorem same_settle (stepped : Bool) (h : m.Like shared r shared' r') :
    m.SameTask start start' body views views' (stepped, settle s now ⟨round, shared, log⟩ r)
      (stepped, settle s now ⟨round, shared', log⟩ r') := by
  have hlooks := m.looks h
  by_cases hfinished : ∃ result, r.call.stage = .finished result
  · obtain ⟨result, hstage⟩ := hfinished
    have hstage' := (hlooks.finished result).2 hstage
    simp only [settle, hstage, hstage', answer_eq hlooks]
    exact ⟨rfl, rfl, rfl, .answered (.inr ⟨r, r', result, hstage, h⟩)⟩
  · have hopen (result) : r.call.stage ≠ .finished result := fun h => hfinished ⟨result, h⟩
    have hopen' (result) : r'.call.stage ≠ .finished result :=
      mt (hlooks.finished result).1 (hopen result)
    rw [settle_of_open hopen, settle_of_open hopen']
    exact ⟨rfl, rfl, rfl, .running h⟩

theorem same_behind {units : Nat} {o o' : Bool × Scene × Running} (h : m.Same o o')
    (hleads : m.TaskLeads (behind s now units o).2.1.shared (behind s now units o).2.2) :
    m.SameTask start start' body views views' (behind s now units o) (behind s now units o') := by
  obtain ⟨stepped, ⟨round, shared, log⟩, r⟩ := o
  obtain ⟨stepped', ⟨round', shared', log'⟩, r'⟩ := o'
  obtain ⟨rfl, rfl, rfl, hlike⟩ := h
  dsimp only at hlike hleads ⊢
  have hlooks := m.looks hlike
  by_cases hfinished : ∃ result, r.call.stage = .finished result
  · obtain ⟨result, hstage⟩ := hfinished
    simp only [behind, hstage, (hlooks.finished result).2 hstage]
    exact m.same_settle true hlike
  · have hopen (result) : r.call.stage ≠ .finished result := fun h => hfinished ⟨result, h⟩
    have hopen' (result) : r'.call.stage ≠ .finished result :=
      mt (hlooks.finished result).1 (hopen result)
    rw [behind_of_open hopen] at hleads
    rw [behind_of_open hopen, behind_of_open hopen', hlooks.deadline]
    dsimp only at hleads ⊢
    split at hleads
    case h_1 hlate =>
      exact ⟨rfl, rfl, rfl, .running hlike⟩
    case h_2 round' hlate =>
      obtain ⟨-, hround, hlog, hcut⟩ := m.same_cutOff hlike (m.leads_settle hleads)
      generalize cutOff s now ⟨round', shared, log'⟩ r = o at hround hlog hcut ⊢
      generalize cutOff s now ⟨round', shared', log'⟩ r' = o' at hround hlog hcut ⊢
      obtain ⟨⟨round₁, next, log₁⟩, r₁⟩ := o
      obtain ⟨⟨round₁', next', log₁'⟩, r₁'⟩ := o'
      obtain rfl : round₁' = round₁ := hround
      obtain rfl : log₁' = log₁ := hlog
      exact m.same_settle true hcut

theorem same_runningTurn (h : m.Like shared r shared' r')
    (hleads : m.TaskLeads (runningTurn s now ⟨round, shared, log⟩ r).2.1.shared
      (runningTurn s now ⟨round, shared, log⟩ r).2.2) :
    m.SameTask start start' body views views' (runningTurn s now ⟨round, shared, log⟩ r)
      (runningTurn s now ⟨round, shared', log⟩ r') := by
  rw [runningTurn_eq] at hleads
  rw [runningTurn_eq, runningTurn_eq, (m.looks h).stepBound]
  exact m.same_behind (m.same_advance _ round log h (m.leads_behind hleads)) hleads

theorem same_taskTurn (now : Now) (round : Round) (log : Log) {t t' : Task}
    (hstart : ∀ review, body.bind Review.ofJson? = some review → ∀ millis,
      m.Like start (entering s views millis review) start' (entering s views' millis review))
    (h : m.TaskLike start start' body views views' shared t shared' t')
    (hleads : m.TaskLeads (taskTurn s now ⟨round, shared, log⟩ t).2.1.shared
      (taskTurn s now ⟨round, shared, log⟩ t).2.2) :
    m.SameTask start start' body views views' (taskTurn s now ⟨round, shared, log⟩ t)
      (taskTurn s now ⟨round, shared', log⟩ t') := by
  cases h with
  | @due instant =>
    rcases hover : round.isOver instant with ⟨after, _ | _⟩
    · simp only [taskTurn, hover]
      exact ⟨rfl, rfl, rfl, .due⟩
    · cases hbody : body.bind Review.ofJson? with
      | none =>
        simp only [taskTurn, hover, begin, hbody]
        exact ⟨rfl, rfl, rfl, .answered (.inl ⟨rfl, rfl⟩)⟩
      | some review =>
        rw [taskTurn_due hover hbody] at hleads
        rw [taskTurn_due hover hbody, taskTurn_due hover hbody]
        exact { m.same_runningTurn (hstart review hbody now.millis) hleads with stepped := rfl }
  | running like => exact m.same_runningTurn like hleads
  | answered ended => exact ⟨rfl, rfl, rfl, .answered ended⟩

theorem TaskLike.isAnswered_eq {t t' : Task}
    (h : m.TaskLike start start' body views views' shared t shared' t') :
    t'.isAnswered = t.isAnswered := by
  cases h <;> rfl

theorem TaskLike.of_answered {response : Response} {t' : Task}
    (h : m.TaskLike start start' body views views' shared (.answered response) shared' t') :
    t' = .answered response ∧ ((shared = start ∧ shared' = start') ∨ ∃ r r' result,
      r.call.stage = .finished result ∧ m.Like shared r shared' r') := by
  cases h with
  | answered ended => exact ⟨rfl, ended⟩

theorem TaskLike.taskWake?_eq {t t' : Task}
    (h : m.TaskLike start start' body views views' shared t shared' t') (millis : Nat) :
    taskWake? shared' millis t' = taskWake? shared millis t := by
  cases h with
  | running like => exact congrArg some (m.wakeAt like millis)
  | _ => rfl

theorem TaskLike.roundBound_eq {t t' : Task}
    (h : m.TaskLike start start' body views views' shared t shared' t') :
    roundBound [t'] = roundBound [t] := by
  cases h with
  | running like =>
    simp only [roundBound, List.map_cons, List.map_nil, unitsLeft, (m.looks like).unitsLeft]
  | _ => rfl

/-! ### Rounds -/

/-- A round with one task: whether it took a step, and what is left behind at the next instant. -/
def roundOf (p : Server) (t : Task) (log : Log) : Bool × Server × Task × Log :=
  let (stepped, scene, t) :=
    taskTurn p.settings (Serving.now p) ⟨.start p.millis, p.shared, log⟩ t
  (stepped, { p with
    shared := scene.shared
    millis := if t.isAnswered then p.millis else nextInstant scene [t] }, t, scene.log)

/-- The bounds for the rounds behind one, if there is another. -/
def boundsLeft (stepped : Bool) (t : Task) (steps rounds : Nat) : Option (Nat × Nat) :=
  if t.isAnswered then none
  else match stepped, steps, rounds with
    | true, steps + 1, _ => some (steps, roundBound [t])
    | false, steps, rounds + 1 => some (steps, rounds)
    | _, _, _ => none

theorem loop_singleton (steps rounds : Nat) (p : Server) (t : Task) (log : Log) :
    loop steps rounds p [t] log =
      let (stepped, p, t, log) := roundOf p t log
      match boundsLeft stepped t steps rounds with
      | none => (p, [t], log)
      | some (steps, rounds) => loop steps rounds p [t] log := by
  rw [loop]
  simp only [giveTurns, roundOf, boundsLeft, List.all_cons, List.all_nil, Bool.and_true,
    Bool.or_false]
  obtain ⟨⟨stepped, scene, t'⟩, hturn⟩ : ∃ turn, taskTurn p.settings (Serving.now p)
      ⟨.start p.millis, p.shared, log⟩ t = turn := ⟨_, rfl⟩
  simp only [hturn]
  cases t'.isAnswered with
  | true => rfl
  | false =>
    cases stepped with
    | true => cases steps <;> rfl
    | false => cases rounds <;> rfl

theorem boundsLeft_lt {stepped : Bool} {t : Task} {steps rounds steps' rounds' : Nat}
    (h : boundsLeft stepped t steps rounds = some (steps', rounds')) :
    Prod.Lex (· < ·) (· < ·) (steps', rounds') (steps, rounds) := by
  unfold boundsLeft at h
  split at h
  case isTrue => cases h
  case isFalse =>
    cases stepped with
    | true =>
      cases steps with
      | zero => cases h
      | succ steps =>
        cases h
        exact .left _ _ (Nat.lt_succ_self _)
    | false =>
      cases rounds with
      | zero => cases h
      | succ rounds =>
        cases h
        exact .right _ (Nat.lt_succ_self _)

theorem TaskLike.boundsLeft_eq {t t' : Task}
    (h : m.TaskLike start start' body views views' shared t shared' t') (stepped : Bool)
    (steps rounds : Nat) :
    boundsLeft stepped t' steps rounds = boundsLeft stepped t steps rounds := by
  unfold boundsLeft
  rw [h.isAnswered_eq, h.roundBound_eq]

/-- What passes from behind a round to before it holds of all rounds. -/
theorem rounds_induction {motive : Nat → Nat → Server → Task → Log → Prop}
    (step : ∀ steps rounds p t log, (∀ steps' rounds',
        boundsLeft (roundOf p t log).1 (roundOf p t log).2.2.1 steps rounds =
          some (steps', rounds') →
        motive steps' rounds' (roundOf p t log).2.1 (roundOf p t log).2.2.1
          (roundOf p t log).2.2.2) → motive steps rounds p t log)
    (steps rounds : Nat) (p : Server) (t : Task) (log : Log) : motive steps rounds p t log :=
  step steps rounds p t log fun steps' rounds' _ => rounds_induction step steps' rounds' _ _ _
termination_by (steps, rounds)
decreasing_by exact boundsLeft_lt ‹_›

theorem leads_round {p : Server} (hp : p.settings = s) {t : Task} (log : Log)
    (h : m.TaskLeads (roundOf p t log).2.1.shared (roundOf p t log).2.2.1) :
    m.TaskLeads p.shared t := by
  subst hp
  exact m.leads_taskTurn h

theorem leads_loop (steps rounds : Nat) (p : Server) (hp : p.settings = s) (t : Task) (log : Log)
    (h : ∀ t' ∈ (loop steps rounds p [t] log).2.1,
      m.TaskLeads (loop steps rounds p [t] log).1.shared t') : m.TaskLeads p.shared t := by
  induction steps, rounds, p, t, log using rounds_induction with
  | step steps rounds p t log ih =>
    refine m.leads_round hp log ?_
    rw [loop_singleton] at h
    dsimp only at h
    split at h
    case h_1 => exact h _ (List.mem_singleton_self _)
    case h_2 steps' rounds' hbounds => exact ih steps' rounds' hbounds hp h

theorem SameTask.millis_eq {o o' : Bool × Scene × Task}
    (h : m.SameTask start start' body views views' o o') (millis : Nat) :
    (if o'.2.2.isAnswered then millis else nextInstant o'.2.1 [o'.2.2]) =
      if o.2.2.isAnswered then millis else nextInstant o.2.1 [o.2.2] := by
  have hwake := h.like.taskWake?_eq m o.2.1.round.millis
  simp only [h.like.isAnswered_eq, nextInstant, h.round, List.filterMap_cons, List.filterMap_nil,
    hwake]

/-- Two servers that look the same, each with a task, and their tasks are alike. -/
structure SameServer (start start' : Shared) (body : Option Json) (views views' : Views)
    (p : Server) (t : Task) (p' : Server) (t' : Task) : Prop where
  settings : p.settings = s
  settings_eq : p'.settings = p.settings
  startedAt : p'.startedAt = p.startedAt
  millis : p'.millis = p.millis
  like : m.TaskLike start start' body views views' p.shared t p'.shared t'

theorem SameServer.exists_shared {p p' : Server} {t t' : Task}
    (h : m.SameServer start start' body views views' p t p' t') :
    ∃ shared', p' = { p with shared := shared' } := by
  obtain ⟨-, hsettings, hstartedAt, hmillis, -⟩ := h
  obtain ⟨settings, shared', startedAt, millis⟩ := p'
  exact ⟨shared', by rw [← hsettings, ← hstartedAt, ← hmillis]⟩

theorem same_round {p p' : Server} {t t' : Task} (log : Log)
    (hstart : ∀ review, body.bind Review.ofJson? = some review → ∀ millis,
      m.Like start (entering s views millis review) start' (entering s views' millis review))
    (h : m.SameServer start start' body views views' p t p' t')
    (hleads : m.TaskLeads (roundOf p t log).2.1.shared (roundOf p t log).2.2.1) :
    (roundOf p' t' log).1 = (roundOf p t log).1 ∧
      (roundOf p' t' log).2.2.2 = (roundOf p t log).2.2.2 ∧
      m.SameServer start start' body views views' (roundOf p t log).2.1 (roundOf p t log).2.2.1
        (roundOf p' t' log).2.1 (roundOf p' t' log).2.2.1 := by
  obtain ⟨shared', rfl⟩ := h.exists_shared
  obtain ⟨rfl, -, -, -, hlike⟩ := h
  have hturn := m.same_taskTurn (Serving.now p) (.start p.millis) log hstart hlike hleads
  exact ⟨hturn.stepped, hturn.log, rfl, rfl, rfl, hturn.millis_eq m p.millis, hturn.like⟩

theorem same_loop (steps rounds : Nat) {p p' : Server} {t t' : Task} {log : Log}
    (hstart : ∀ review, body.bind Review.ofJson? = some review → ∀ millis,
      m.Like start (entering s views millis review) start' (entering s views' millis review))
    (h : m.SameServer start start' body views views' p t p' t')
    (hleads : ∀ t₁ ∈ (loop steps rounds p [t] log).2.1,
      m.TaskLeads (loop steps rounds p [t] log).1.shared t₁) :
    ∃ q q' t₁ t₁' log₁, loop steps rounds p [t] log = (q, [t₁], log₁) ∧
      loop steps rounds p' [t'] log = (q', [t₁'], log₁) ∧
      m.SameServer start start' body views views' q t₁ q' t₁' := by
  induction steps, rounds, p, t, log using rounds_induction generalizing p' t' with
  | step steps rounds p t log ih =>
    rw [loop_singleton] at hleads
    rw [loop_singleton, loop_singleton]
    dsimp only at hleads ⊢
    have hround (hleads) := m.same_round log hstart h hleads
    split at hleads
    case h_1 hbounds =>
      obtain ⟨hstepped, hlog, hserver⟩ := hround (hleads _ (List.mem_singleton_self _))
      simp only [hserver.like.boundsLeft_eq, hstepped, hlog, hbounds]
      exact ⟨_, _, _, _, _, rfl, rfl, hserver⟩
    case h_2 steps' rounds' hbounds =>
      obtain ⟨hstepped, hlog, hserver⟩ := hround
        (m.leads_loop steps' rounds' (roundOf p t log).2.1 h.settings _ _ hleads)
      simp only [hserver.like.boundsLeft_eq, hstepped, hlog, hbounds]
      exact ih steps' rounds' hbounds hserver hleads

end Mirror

end Serving

open Serving

/-- One review served alone: the rounds end with its answer. -/
theorem Server.serveAll_singleton (p : Server) (delay : Nat) (body : Option Json) (views : Views) :
    ∃ response, loop (stepsBound [views]) (roundBound [.due none none views]) p
        [.due (if delay = 0 then none else some (p.millis + delay)) body views] Log.empty =
          ((p.serveAll [⟨delay, body, views⟩]).1, [.answered response],
            (p.serveAll [⟨delay, body, views⟩]).2.2) ∧
      (p.serveAll [⟨delay, body, views⟩]).2.1 = [response] := by
  obtain ⟨q, log, served, order, hloop, hbatch, -⟩ := loop_ends _ _
    (p.underway [⟨delay, body, views⟩]) (Nat.le_of_eq (stepsLeft_due [⟨delay, body, views⟩] _))
    (hasRounds_roundBound ..)
  have hlength := congrArg List.length hbatch.given
  rw [List.length_map, List.length_map, List.length_singleton] at hlength
  obtain ⟨v, rfl⟩ := List.length_eq_one_iff.1 hlength
  have hserve : p.serveAll [⟨delay, body, views⟩] = (q, [v.response], log) := by
    simp only [serveAll]
    rw [hloop]
    rfl
  rw [hserve]
  exact ⟨v.response, hloop, rfl⟩

/-- A review that is served in two ways that a mirror makes alike is answered the same, at the same
time and with the same log. What it leaves behind is alike, unless it was no review. -/
theorem Serving.Mirror.serveAll (p : Server) (m : Mirror p.settings) (start' : Shared)
    (delay : Nat) (body : Option Json) (views views' : Views)
    (hbound : stepBound views' = stepBound views)
    (hstart : ∀ review, body.bind Review.ofJson? = some review → ∀ millis,
      m.Like p.shared (entering p.settings views millis review) start'
        (entering p.settings views' millis review))
    (hleads : ∀ c result, c.stage = .finished result →
      m.Leads (p.serveAll [⟨delay, body, views⟩]).1.shared c) :
    ∃ shared', { p with shared := start' }.serveAll [⟨delay, body, views'⟩] =
        ({ (p.serveAll [⟨delay, body, views⟩]).1 with shared := shared' },
          (p.serveAll [⟨delay, body, views⟩]).2) ∧
      (((p.serveAll [⟨delay, body, views⟩]).1.shared = p.shared ∧ shared' = start') ∨
        ∃ r r' result, r.call.stage = .finished result ∧
          m.Like (p.serveAll [⟨delay, body, views⟩]).1.shared r shared' r') := by
  obtain ⟨response, hloop, hresponse⟩ := p.serveAll_singleton delay body views
  obtain ⟨response', hloop', hresponse'⟩ :=
    { p with shared := start' }.serveAll_singleton delay body views'
  generalize hout : p.serveAll [⟨delay, body, views⟩] = out at *
  generalize hout' : { p with shared := start' }.serveAll [⟨delay, body, views'⟩] = out' at *
  obtain ⟨q, responses, log⟩ := out
  obtain ⟨q', responses', log'⟩ := out'
  obtain rfl : responses = [response] := hresponse
  obtain rfl : responses' = [response'] := hresponse'
  let instant := if delay = 0 then none else some (p.millis + delay)
  have hsame : m.SameServer p.shared start' body views views' p (.due instant body views)
      { p with shared := start' } (.due instant body views') := ⟨rfl, rfl, rfl, rfl, .due⟩
  obtain ⟨q₁, q₁', t, t', log₁, hrun, hrun', hserver⟩ := m.same_loop (stepsBound [views])
    (roundBound [.due none none views]) hstart hsame (by
      rw [hloop]
      intro t ht
      obtain rfl := List.mem_singleton.1 ht
      exact hleads)
  have hsteps : stepsBound [views'] = stepsBound [views] := by
    simp only [stepsBound, List.map_cons, List.map_nil, hbound]
  have hrun' := (hsteps ▸ hloop').symm.trans hrun'
  simp only [Prod.mk.injEq, List.cons.injEq, and_true] at hrun'
  have hrun := hloop.symm.trans hrun
  simp only [Prod.mk.injEq, List.cons.injEq, and_true] at hrun
  obtain ⟨rfl, rfl, rfl⟩ := hrun
  obtain ⟨rfl, rfl, rfl⟩ := hrun'
  obtain ⟨shared', rfl⟩ := hserver.exists_shared
  obtain ⟨hresponse, hended⟩ := hserver.like.of_answered
  cases hresponse
  exact ⟨shared', rfl, hended⟩

end SharedQuota
