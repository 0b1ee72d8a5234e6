import SharedQuota.Proofs.Serving.Served
import SharedQuota.Proofs.Serving.Steps

/-!
The turn of one review. Main statement (`Serving.turned_running`): a review goes on along the way of
its call until it is answered, and otherwise waits for what it has asked for; when it waits although
the round stays calm, it waits for a time that is to come.
-/

namespace SharedQuota

open Round (Spends IsCalm)
open Engine (Advance)
open Serving

/-! ### What is waited for -/

namespace Running

/-- The review waits for a lock, or for times. -/
def Sleeps (r : Running) : Prop :=
  match r.call.stage with
  | .waiting _ _ _ _ _ => True
  | _ => r.reads.Sleeps

/-- After a turn in which the review waits although the round stays calm. -/
structure Settles (shared : Shared) (before after : Round) (r r' : Running) : Prop where
  sleeps : r'.Sleeps
  rests : before.millis < wakeAt shared before.millis r'
  wakeAt_eq : r.Sleeps → wakeAt shared before.millis r' = wakeAt shared before.millis r
  round_eq : r.Sleeps → before.millis < wakeAt shared before.millis r → after = before

/-- A bound on the steps that the call of the review still takes. -/
def stepsLeft (r : Running) : Nat := r.call.stage.stepsLeft (listedQuotas r.views)

/-- A review on its way that was started at an instant, and that has come by these moments to ask
for what it waits for since another. -/
structure IsFor (s : Settings) (review : Review) (views : Views) (started : Nat)
    (moments : List Moment) (since now : Nat) (r : Running) : Prop where
  review_eq : r.review = review
  views_eq : r.views = views
  kindText_eq : r.kindText = (review.entry s).1
  started_eq : r.started = started
  deadline_eq : r.deadline = started + s.timeout
  dryRun_eq : r.call.dryRun = review.request.dryRun
  ahead : since ≤ now
  inTime : now ≤ r.deadline
  short : r.stepsLeft ≤ stepBound views
  journey : Journey s.rules views review.request.dryRun (started + s.timeout) started
    (review.entry s).2 moments since r.call.stage
  reads : r.reads.IsFor (views r.call.stage.view) r.deadline since now
    (r.call.stage.asked s.rules.exclusions)

end Running

namespace Serving

variable {s : Settings} {views : Views} {now : Now} {scene : Scene} {r : Running}
  {review : Review} {started since : Nat} {moments : List Moment}

theorem canFail_of_asked {x : Exclusions} {stage : Stage} (h : stage.asked x ≠ .nothing) :
    stage.canFail = true := by
  cases stage with
  | reserving | releasing | finished => exact absurd rfl h
  | _ => rfl

/-- What the next answer to a review can be. -/
inductive Answered (s : Settings) (views : Views) (since : Nat) (now : Now) (scene : Scene)
    (r : Running) : Round → Except Reads Answer → Prop
  | told {round answer} (millis : round.millis = scene.round.millis)
      (tells : r.call.stage.Tells s.rules.exclusions views r.deadline since now.millis answer)
      (steps : (∀ result, r.call.stage ≠ .finished result) →
        (Engine.step s.rules now scene.shared r.call answer).isSome)
      (ends : ∀ result, r.call.stage = .finished result → round = scene.round) :
    Answered s views since now scene r round (.ok answer)
  | waits {round reads}
      (isFor : reads.IsFor (views r.call.stage.view) r.deadline since now.millis
        (r.call.stage.asked s.rules.exclusions))
      (canFail : r.call.stage.canFail = true)
      (spends : scene.round.Spends round r.reads.need reads.need)
      (calm : scene.round.IsCalm round → scene.round.millis < r.deadline →
        r.Settles scene.shared scene.round round { r with reads }) :
    Answered s views since now scene r round (.error reads)

theorem wakeAt_eq_min (shared : Shared) (millis : Nat)
    (h : ∀ charge held handle a next, r.call.stage ≠ .waiting charge held handle a next) :
    wakeAt shared millis r = min r.deadline (r.reads.wakeAt millis r.deadline) := by
  simp only [wakeAt]

theorem sleeps_iff
    (h : ∀ charge held handle a next, r.call.stage ≠ .waiting charge held handle a next) :
    r.Sleeps ↔ r.reads.Sleeps := by
  simp only [Running.Sleeps]

theorem settles_of_reads {shared : Shared} {before after : Round} {reads : Reads}
    (hnot : ∀ charge held handle a next, r.call.stage ≠ .waiting charge held handle a next)
    (hsettles : r.reads.Settles before after r.deadline reads)
    (hlt : before.millis < r.deadline) : r.Settles shared before after { r with reads } := by
  have hwake : wakeAt shared before.millis { r with reads } =
      min r.deadline (reads.wakeAt before.millis r.deadline) := wakeAt_eq_min _ _ hnot
  have hwake' := wakeAt_eq_min shared before.millis hnot
  have hsleeps := sleeps_iff hnot
  refine ⟨(sleeps_iff (r := { r with reads }) hnot).2 hsettles.sleeps, ?_, fun h => ?_,
    fun h hrests => ?_⟩
  · rw [hwake]
    exact Nat.lt_min.2 ⟨hlt, hsettles.rests⟩
  · rw [hwake, hwake', hsettles.wakeAt_eq (hsleeps.1 h)]
  · rw [hwake'] at hrests
    exact hsettles.round_eq (hsleeps.1 h) (Nat.lt_min.1 hrests).2

/-- The reads of a stage have their turn. -/
theorem answered_reads (h : r.IsFor s review views started moments since now.millis)
    (hround : scene.round.millis = now.millis)
    (hnot : ∀ charge held handle a next, r.call.stage ≠ .waiting charge held handle a next) :
    Answered s views since now scene r (r.reads.turn scene.round r.deadline).round
      (r.reads.turn scene.round r.deadline).result := by
  have hsteps {answer : Answer}
      (htells : r.call.stage.Tells s.rules.exclusions views r.deadline since now.millis answer)
      (hfails : ∀ denial, answer = .failed denial → r.call.stage.canFail = true)
      (hopen : ∀ result, r.call.stage ≠ .finished result) :
      (Engine.step s.rules now scene.shared r.call answer).isSome :=
    Engine.isSome_step htells hfails
      (fun charge held handle a next hstage => absurd hstage (hnot _ _ _ _ _)) hopen
  have hreads := h.reads
  by_cases hasked : r.call.stage.asked s.rules.exclusions = .nothing
  · have htells : r.call.stage.Tells s.rules.exclusions views r.deadline since now.millis
        .proceed := by
      rw [Stage.Tells, hasked]
      exact .proceed
    rw [hasked] at hreads
    rw [hreads.eq_none]
    exact .told rfl htells (hsteps htells fun _ h => by cases h) fun _ _ => rfl
  · have hcanFail := canFail_of_asked hasked
    have hturned := Reads.IsFor.turned (hround ▸ hreads) (hround ▸ h.ahead)
    generalize r.reads.turn scene.round r.deadline = outcome at hturned ⊢
    obtain ⟨round, requests, names, result⟩ := outcome
    dsimp only at hturned ⊢
    cases hturned with
    | told millis tells =>
      rw [hround] at tells
      refine .told millis tells (hsteps tells fun _ _ => hcanFail) fun result hresult => ?_
      rw [hresult] at hasked
      exact absurd rfl hasked
    | waits isFor spends calm =>
      refine .waits (hround ▸ isFor) hcanFail spends fun hcalm hlt => ?_
      exact settles_of_reads hnot (calm hcalm hlt) hlt

/-- Another lock is to be waited for. -/
theorem answered_locking {charge : Charge} {held : List Nat} {a : Applicable}
    {next : List Applicable} (h : r.IsFor s review views started moments since now.millis)
    (hstage : r.call.stage = .locking charge held (a :: next)) :
    Answered s views since now scene r (nextAnswer scene r).round (nextAnswer scene r).result := by
  have hreads := h.reads
  rw [hstage] at hreads
  have hnone := hreads.eq_none
  simp only [nextAnswer, hstage]
  split
  case isTrue hzero =>
    refine .waits (hstage ▸ .nothing) (hstage ▸ rfl) ?_ fun hcalm => ?_
    · exact hnone ▸ (Spends.refl scene.round _).retry
    · exact absurd hcalm.1 (by omega)
  case isFalse =>
    have htells : r.call.stage.Tells s.rules.exclusions views r.deadline since now.millis
        .proceed := by
      rw [hstage]
      exact .proceed
    refine .told rfl htells (Engine.isSome_step htells (fun _ h => by cases h) ?_) fun _ _ => rfl
    exact fun _ _ _ _ _ hwaiting => by rw [hstage] at hwaiting; cases hwaiting

section waiting

variable {charge : Charge} {held : List Nat} {handle : Nat} {a : Applicable}
  {next : List Applicable}

/-- A lock is taken, or waiting for it is given up. -/
theorem told_waiting (hstage : r.call.stage = .waiting charge held handle a next)
    {round : Round} {answer : Answer} (hmillis : round.millis = scene.round.millis)
    (htells : r.call.stage.Tells s.rules.exclusions views r.deadline since now.millis answer)
    (hholds : answer = .proceed → scene.shared.locks.holds handle = true) :
    Answered s views since now scene r round (.ok answer) := by
  refine .told hmillis htells (fun hopen => ?_) fun result hresult => ?_
  · refine Engine.isSome_step htells (fun _ _ => hstage ▸ rfl) ?_ hopen
    intro _ _ _ _ _ hwaiting hanswer
    rw [hstage] at hwaiting
    cases hwaiting
    exact hholds hanswer
  · rw [hstage] at hresult
    cases hresult

theorem settles_waiting {shared : Shared} {round : Round}
    (hstage : r.call.stage = .waiting charge held handle a next)
    (hholds : ¬ shared.locks.holds handle = true) (hlt : round.millis < r.deadline) :
    r.Settles shared round round { r with reads := .none } := by
  have hwake (r' : Running) (hstage' : r'.call.stage = r.call.stage)
      (hdeadline : r'.deadline = r.deadline) : wakeAt shared round.millis r' = r.deadline := by
    simp [wakeAt, hstage', hstage, hholds, hdeadline]
  refine ⟨by simp [Running.Sleeps, hstage], ?_, fun _ => ?_, fun _ _ => rfl⟩
  · rw [hwake { r with reads := .none } rfl rfl]
    exact hlt
  · rw [hwake { r with reads := .none } rfl rfl, hwake r rfl rfl]

/-- A lock is waited for. -/
theorem answered_waiting (h : r.IsFor s review views started moments since now.millis)
    (hround : scene.round.millis = now.millis)
    (hstage : r.call.stage = .waiting charge held handle a next) :
    Answered s views since now scene r (nextAnswer scene r).round (nextAnswer scene r).result := by
  have hreads := h.reads
  rw [hstage] at hreads
  have hnone := hreads.eq_none
  have hneed (r' : Round) (h : scene.round.Spends r' 0 0) :
      scene.round.Spends r' r.reads.need Reads.none.need := by
    rw [hnone]
    exact h
  have hisFor : Reads.none.IsFor (views r.call.stage.view) r.deadline since now.millis
      (r.call.stage.asked s.rules.exclusions) := by
    rw [hstage]
    exact .nothing
  simp only [nextAnswer, hstage]
  cases hspend : scene.round.spend? with
  | none =>
    have hzero := Round.spend?_eq_none.1 hspend
    refine .waits hisFor (hstage ▸ rfl) (hneed _ (Spends.refl ..).retry) fun hcalm => ?_
    exact absurd hcalm.1 (by omega)
  | some spent =>
    obtain ⟨hpos, hmillis, -, -⟩ := Round.spend?_eq_some hspend
    dsimp only
    split
    case isTrue hholds =>
      refine told_waiting hstage hmillis ?_ fun _ => hholds
      rw [hstage]
      exact .proceed
    case isFalse hholds =>
      rcases scene.round.isLate_cases scene.round.units r.deadline with
        ⟨spent', hle, hspent', heq⟩ | ⟨-, hzero, -, -⟩ | ⟨hlt, heq⟩ | ⟨hzero, -⟩
      · rw [heq]
        obtain ⟨-, hmillis', -, -⟩ := Round.spend?_eq_some hspent'
        exact told_waiting hstage hmillis' (.failed rfl (.inl (hround ▸ hle))) fun h => by cases h
      · omega
      · rw [heq]
        exact .waits hisFor (hstage ▸ rfl) (hneed _ (.refl ..)) fun _ _ =>
          settles_waiting hstage hholds hlt
      · omega

end waiting

theorem answered_nextAnswer (h : r.IsFor s review views started moments since now.millis)
    (hround : scene.round.millis = now.millis) :
    Answered s views since now scene r (nextAnswer scene r).round (nextAnswer scene r).result := by
  cases hstage : r.call.stage with
  | locking charge held next =>
    cases next with
    | cons a next => exact answered_locking h hstage
    | nil =>
      have hturned := answered_reads h hround fun _ _ _ _ _ hwaiting => by
        rw [hstage] at hwaiting
        cases hwaiting
      simpa only [nextAnswer, hstage] using hturned
  | waiting charge held handle a next => exact answered_waiting h hround hstage
  | _ =>
    have hturned := answered_reads h hround fun _ _ _ _ _ hwaiting => by
      rw [hstage] at hwaiting
      cases hwaiting
    simpa only [nextAnswer, hstage] using hturned

/-! ### Going on -/

/-- What a review that is let go on can come to by the steps that it takes. -/
inductive Advanced (s : Settings) (review : Review) (views : Views) (started : Nat)
    (moments : List Moment) (since : Nat) (now : Now) (scene : Scene) (r : Running) :
    Bool × Scene × Running → List Step → Prop
  | waits {scene' reads}
      (isFor : Running.IsFor s review views started moments since now.millis { r with reads })
      (canFail : r.call.stage.canFail = true) (shared : scene'.shared = scene.shared)
      (log : scene.log.Keeps scene'.log)
      (spends : scene.round.Spends scene'.round r.reads.need reads.need)
      (calm : scene.round.IsCalm scene'.round → scene.round.millis < r.deadline →
        r.Settles scene.shared scene.round scene'.round { r with reads }) :
    Advanced s review views started moments since now scene r (false, scene', { r with reads }) []
  | finished {scene' result} (finished : r.call.stage = .finished result)
      (millis : scene'.round.millis = now.millis) (log : scene.log.Keeps scene'.log) :
    Advanced s review views started moments since now scene r (false, scene', r) []
  | steps {scene' r' taken}
      (isFor : Running.IsFor s review views started (moments ++ taken.map Step.moment) now.millis
        now.millis r')
      (millis : scene'.round.millis = now.millis) (log : scene.log.Keeps scene'.log)
      (fewer : r'.stepsLeft < r.stepsLeft)
      (stops : r'.call.stage.canFail = true ∨ ∃ result, r'.call.stage = .finished result)
      (ends : r.call.stage.canFail = false → r'.call.stage.canFail = false) :
    Advanced s review views started moments since now scene r (true, scene', r') taken

theorem canFail_of_advance {rules : Rules} {dryRun : Bool} {shared shared' : Shared}
    {stage stage' : Stage} {answer : Answer} (h : stage.canFail = false)
    (hadvance : Advance rules now dryRun shared stage answer shared' stage') :
    stage'.canFail = false := by
  cases hadvance with
  | fail => rfl
  | reserve | reserved | release | finish => rfl
  | deny hr | clear hr => simp [Engine.canFail_of_reading? hr] at h
  | _ => cases h

theorem length_le_listedQuotas {x : Exclusions} {deadline : Nat} {stage : Stage} {answer : Answer}
    (h : stage.Tells x views deadline since now.millis answer) (namespaces : List Namespace)
    (quotas : List Quota) (hanswer : answer = .listed namespaces quotas) :
    quotas.length ≤ listedQuotas views := by
  subst hanswer
  rw [Stage.Tells] at h
  generalize hasked : stage.asked x = asked at h
  cases h with
  | listed _ hquotas =>
    have hview : stage.view = 0 := by
      cases stage with
      | reading => cases hasked
      | _ => rfl
    rw [hview] at hquotas
    simp [listedQuotas, hquotas.1]

/-- A review takes a step on what it is told. -/
theorem isFor_step {answer : Answer} {shared shared' : Shared} {call : Call}
    {reports : List Observation} (h : r.IsFor s review views started moments since now.millis)
    (htells : r.call.stage.Tells s.rules.exclusions views r.deadline since now.millis answer)
    (hstep : Engine.step s.rules now shared r.call answer = some (shared', call, reports)) :
    (r.goOn s now call).IsFor s review views started
        (moments ++ [⟨now, shared.ledger, r.call.stage, answer⟩]) now.millis now.millis ∧
      (r.goOn s now call).stepsLeft < r.stepsLeft ∧
      (r.call.stage.canFail = false → call.stage.canFail = false) := by
  obtain rfl := h.views_eq
  obtain ⟨hadvance, hdry⟩ := Engine.Advance.of_step hstep
  have hfewer := hadvance.stepsLeft_lt (length_le_listedQuotas htells)
  refine ⟨⟨h.review_eq, rfl, h.kindText_eq, h.started_eq, h.deadline_eq, hdry.trans h.dryRun_eq,
    Nat.le_refl _, h.inTime, Nat.le_trans (Nat.le_of_lt hfewer) h.short, ?_,
    Reads.isFor_ofStage ..⟩, hfewer, fun hcannot => canFail_of_advance hcannot hadvance⟩
  rw [h.dryRun_eq] at hadvance
  rw [h.deadline_eq] at htells
  exact h.journey.trans (.cons h.ahead (h.deadline_eq ▸ h.inTime) htells hadvance .nil)

theorem advanced (fuel : Nat) (scene : Scene) (r : Running) (moments : List Moment) (since : Nat)
    (h : r.IsFor s review views started moments since now.millis)
    (hround : scene.round.millis = now.millis)
    (hfuel : r.stepsLeft ≤ fuel) :
    Advanced s review views started moments since now scene r (advance s now fuel scene r)
      (stepsAhead s now fuel scene r) := by
  induction fuel generalizing scene r moments since with
  | zero =>
    cases hstage : r.call.stage with
    | finished result => exact .finished hstage hround (.refl _)
    | _ =>
      rw [Running.stepsLeft, hstage] at hfuel
      simp [Stage.stepsLeft] at hfuel
  | succ fuel ih =>
    have hanswered := answered_nextAnswer h hround
    have hahead := ahead s now fuel scene r
    generalize stepsAhead s now (fuel + 1) scene r = taken at hahead ⊢
    generalize advance s now (fuel + 1) scene r = out at hahead ⊢
    cases hahead with
    | waits result round shared observations recordings =>
      rw [result] at hanswered
      cases hanswered with
      | waits isFor canFail spends calm =>
        refine .waits { h with reads := isFor } canFail shared ?_ (round ▸ spends) (round ▸ calm)
        exact ⟨congrArg (List.filter _) observations, recordings⟩
    | stops result step round shared observations recordings =>
      rw [result] at hanswered
      cases hanswered with
      | told millis tells steps ends =>
        have hfinished : ∃ result, r.call.stage = .finished result := by
          by_contra hopen
          have := steps fun result hresult => hopen ⟨result, hresult⟩
          simp [step] at this
        obtain ⟨result, hresult⟩ := hfinished
        refine .finished hresult (round ▸ millis.trans hround) ?_
        exact ⟨congrArg (List.filter _) observations, recordings⟩
    | @steps scene' answer call reports result step millis' observations recordings =>
      rw [result] at hanswered
      cases hanswered with
      | told millis tells steps ends =>
        obtain ⟨hisFor, hfewer, hcannot⟩ := isFor_step h tells step
        have hlog : scene.log.Keeps scene'.log :=
          .of_reports observations recordings (Engine.reports_of_step step)
        have hmillis : scene'.round.millis = now.millis := millis'.trans (millis.trans hround)
        have hadvanced := ih scene' (r.goOn s now call) _ now.millis hisFor hmillis (by omega)
        generalize advance s now fuel scene' (r.goOn s now call) = out at hadvanced ⊢
        generalize stepsAhead s now fuel scene' (r.goOn s now call) = taken at hadvanced ⊢
        have hmoments (more : List Step) :
            moments ++ [⟨now, scene.shared.ledger, r.call.stage, answer⟩] ++
                more.map Step.moment =
              moments ++ ((⟨now, scene.shared, r.call, answer⟩ : Step) :: more).map
                Step.moment := by
          rw [List.append_assoc]
          rfl
        cases hadvanced with
        | waits isFor canFail shared log spends =>
          refine .steps isFor ?_ (hlog.trans log) hfewer (.inl canFail) hcannot
          exact spends.millis.trans hmillis
        | finished finished millis log =>
          exact .steps hisFor millis (hlog.trans log) hfewer (.inr ⟨_, finished⟩) hcannot
        | steps isFor millis log fewer stops ends =>
          rw [hmoments] at isFor
          exact .steps isFor millis (hlog.trans log) (Nat.lt_trans fewer hfewer) stops
            fun h => ends (hcannot h)

theorem stage_of_failed {rules : Rules} {dryRun : Bool} {shared shared' : Shared}
    {stage stage' : Stage} {denial : Denial}
    (h : Advance rules now dryRun shared stage (.failed denial) shared' stage') :
    stage' = .releasing (Engine.handles stage) (.error denial) := by
  cases h with
  | fail => rfl
  | deny hr | clear hr => simp [Engine.reading?] at hr

/-- A review that is late as a whole comes to its end. -/
theorem cutOff_finishes (h : r.IsFor s review views started moments since now.millis)
    (hround : scene.round.millis = now.millis) (hcanFail : r.call.stage.canFail = true)
    (hlate : r.deadline ≤ now.millis) :
    ∃ result, (cutOff s now scene r).2.call.stage = .finished result ∧
      (cutOff s now scene r).2.IsFor s review views started
        (moments ++ (cutOffSteps s now scene r).map Step.moment) now.millis now.millis ∧
      (cutOff s now scene r).1.round.millis = now.millis ∧
      scene.log.Keeps (cutOff s now scene r).1.log := by
  obtain rfl := h.views_eq
  have htells : r.call.stage.Tells s.rules.exclusions r.views r.deadline since now.millis
      (.failed (tooLate s)) := .failed rfl (.inl hlate)
  have hsome : (Engine.step s.rules now scene.shared r.call (.failed (tooLate s))).isSome := by
    refine Engine.isSome_step htells (fun _ _ => hcanFail) (fun _ _ _ _ _ _ h => by cases h) ?_
    intro result hresult
    rw [hresult] at hcanFail
    cases hcanFail
  obtain ⟨⟨shared, call, reports⟩, hstep⟩ := Option.isSome_iff_exists.1 hsome
  obtain ⟨hisFor, -, -⟩ := isFor_step h htells hstep
  have hstage := stage_of_failed (Engine.Advance.of_step hstep).1
  have hreads : r.goOn s now call = { r with call, reads := .none } := by
    rw [Running.goOn, hstage]
    rfl
  rw [hreads] at hisFor
  have hadvanced := advanced (stepBound r.views) { scene with shared } _ _ now.millis hisFor hround
    hisFor.short
  simp only [cutOff, cutOffSteps, hstep]
  generalize advance s now (stepBound r.views) { scene with shared }
    { r with call, reads := .none } = out at hadvanced ⊢
  generalize stepsAhead s now (stepBound r.views) { scene with shared }
    { r with call, reads := .none } = taken at hadvanced ⊢
  cases hadvanced with
  | waits _ canFail => simp [hstage, Stage.canFail] at canFail
  | finished finished => simp [hstage] at finished
  | steps isFor millis log _ stops ends =>
    have hcannot := ends (by simp [hstage, Stage.canFail])
    rcases stops with hcan | ⟨result, hresult⟩
    · simp [hcannot] at hcan
    · rw [List.append_assoc] at isFor
      exact ⟨result, hresult, isFor, millis, log⟩

/-! ### The whole turn -/

/-- What the turn of a review can come to by the steps that it takes, that was started at an instant
with what was read of its text. -/
inductive RunningTurned (s : Settings) (startedAt : Time) (body : Option Json) (review : Review)
    (views : Views) (started : Nat) (moments : List Moment) (since : Nat) (now : Now)
    (scene : Scene) (r : Running) : Bool × Scene × Task → List Step → Prop
  | waits {scene' reads}
      (isFor : Running.IsFor s review views started moments since now.millis { r with reads })
      (canFail : r.call.stage.canFail = true) (shared : scene'.shared = scene.shared)
      (log : scene.log.Keeps scene'.log)
      (spends : scene.round.Spends scene'.round r.reads.need reads.need)
      (calm : scene.round.IsCalm scene'.round →
        r.Settles scene.shared scene.round scene'.round { r with reads }) :
    RunningTurned s startedAt body review views started moments since now scene r
      (false, scene', .running { r with reads }) []
  | steps {scene' r' taken}
      (isFor : Running.IsFor s review views started (moments ++ taken.map Step.moment) now.millis
        now.millis r')
      (canFail : r'.call.stage.canFail = true) (millis : scene'.round.millis = now.millis)
      (log : scene.log.Keeps scene'.log)
      (fewer : r'.stepsLeft < r.stepsLeft) :
    RunningTurned s startedAt body review views started moments since now scene r
      (true, scene', .running r') taken
  | answers {scene' taken} (v : Served) (given : v.given = (body, views, started))
      (came : v.Came s (moments ++ taken.map Step.moment))
      (millis : scene'.round.millis = now.millis)
      (log : scene.log.Adds s startedAt scene'.log [v]) :
    RunningTurned s startedAt body review views started moments since now scene r
      (true, scene', .answered v.response) taken

variable {startedAt : Time} {body : Option Json}

/-- A review whose call has finished is answered. -/
theorem turned_settle {r' : Running} {scene' : Scene} {taken : List Step}
    {result : Except Denial Unit} (hbody : body.bind Review.ofJson? = some review)
    (hwall : now.wall = startedAt.plusMillis now.millis)
    (h : r'.IsFor s review views started (moments ++ taken.map Step.moment) now.millis now.millis)
    (hresult : r'.call.stage = .finished result) (hmillis : scene'.round.millis = now.millis)
    (hlog : scene.log.Keeps scene'.log) :
    RunningTurned s startedAt body review views started moments since now scene r
      (true, settle s now scene' r') taken := by
  let v : Served := ⟨body, views, started, now.millis, result⟩
  have hreview : v.review? = some review := hbody
  have hadds : scene'.log.Adds s startedAt (answer s now r' result scene'.log).2 [v] := by
    refine ⟨?_, ?_⟩
    · have hreports := Admission.isDecision_of_mem_reports r'.kindText
        review.request.operation.text (Decision.ofResult result) (now.millis - started)
      rw [List.flatMap_singleton]
      simp only [answer, Log.decisions, Served.reports, hreview, List.filter_append, h.review_eq,
        h.started_eq, List.filter_eq_self.2 hreports]
      rw [h.kindText_eq]
      rfl
    · have hsingle : [v].filterMap (·.recording? s startedAt) =
          (v.recording? s startedAt).toList := by
        simp only [List.filterMap_cons, List.filterMap_nil]
        cases v.recording? s startedAt <;> rfl
      have hrecording : v.recording? s startedAt = (do
          let instanceName ← s.recorder
          let denied ← Admission.denied? review.request v.decision
          Serving.recording? instanceName now.wall denied) := by
        rw [hwall, Served.recording?, hreview]
        rfl
      rw [hsingle, hrecording]
      simp only [answer, h.review_eq]
      rfl
  have hresponse : (answer s now r' result scene'.log).1 = v.response := by
    simp [answer, Served.response, hreview, h.review_eq, v, Served.decision]
  simp only [settle, hresult]
  rw [hresponse]
  refine .answers v rfl ?_ hmillis (hlog.adds.trans hadds)
  have hjourney := h.journey
  rw [hresult] at hjourney
  simp only [Served.Came, hreview]
  exact hjourney

/-- A review that is late as a whole is answered. -/
theorem turned_cutOff {r' : Running} {scene' : Scene} {taken : List Step} {since' : Nat}
    (hbody : body.bind Review.ofJson? = some review)
    (hwall : now.wall = startedAt.plusMillis now.millis)
    (h : r'.IsFor s review views started (moments ++ taken.map Step.moment) since' now.millis)
    (hcanFail : r'.call.stage.canFail = true) (hlate : r'.deadline ≤ now.millis)
    (hmillis : scene'.round.millis = now.millis)
    (hlog : scene.log.Keeps scene'.log) :
    RunningTurned s startedAt body review views started moments since now scene r
      (true, settle s now (cutOff s now scene' r').1 (cutOff s now scene' r').2)
      (taken ++ cutOffSteps s now scene' r') := by
  obtain ⟨result, hresult, hisFor, hmillis', hlog'⟩ := cutOff_finishes h hmillis hcanFail hlate
  rw [List.append_assoc, ← List.map_append] at hisFor
  exact turned_settle hbody hwall hisFor hresult hmillis' (hlog.trans hlog')

theorem turned_running (hbody : body.bind Review.ofJson? = some review)
    (hwall : now.wall = startedAt.plusMillis now.millis)
    (h : r.IsFor s review views started moments since now.millis)
    (hround : scene.round.millis = now.millis)
    (hclosed : ∀ result, r.call.stage = .finished result → since = now.millis) :
    RunningTurned s startedAt body review views started moments since now scene r
      (runningTurn s now scene r) (runningSteps s now scene r) := by
  obtain rfl := h.views_eq
  have hadvanced := advanced (stepBound r.views) scene r moments since h hround h.short
  have hran := ran s now scene r
  generalize runningSteps s now scene r = taken at hran ⊢
  generalize runningTurn s now scene r = out at hran ⊢
  cases hran with
  | finished advance_eq finished =>
    rw [advance_eq] at hadvanced
    generalize stepsAhead s now (stepBound r.views) scene r = ahead at hadvanced ⊢
    cases hadvanced with
    | waits _ canFail =>
      rw [finished] at canFail
      cases canFail
    | finished _ millis log =>
      obtain rfl := hclosed _ finished
      rw [← List.append_nil moments] at h
      exact turned_settle hbody hwall h finished millis log
    | steps isFor millis log => exact turned_settle hbody hwall isFor finished millis log
  | waits advance_eq unfinished isLate_eq =>
    rw [advance_eq] at hadvanced
    generalize stepsAhead s now (stepBound r.views) scene r = ahead at hadvanced ⊢
    cases hadvanced with
    | waits isFor canFail shared log spends calm =>
      rcases Round.of_isLate_eq_false isLate_eq with ⟨hlt, rfl⟩ | ⟨hzero, rfl⟩
      · exact .waits isFor canFail shared log spends fun hcalm => calm hcalm (spends.millis ▸ hlt)
      · exact .waits isFor canFail shared log spends.retry fun hcalm => absurd hcalm.1 (by omega)
    | finished finished => exact absurd finished (unfinished _)
    | steps isFor millis log fewer stops =>
      have canFail := stops.resolve_right fun ⟨result, hresult⟩ => unfinished result hresult
      refine .steps isFor canFail ?_ log fewer
      rcases Round.of_isLate_eq_false isLate_eq with ⟨-, rfl⟩ | ⟨-, rfl⟩ <;> exact millis
  | ended advance_eq unfinished isLate_eq =>
    obtain ⟨hlate, hmillis⟩ := Round.of_isLate_eq_true isLate_eq
    rw [advance_eq] at hadvanced
    generalize stepsAhead s now (stepBound r.views) scene r = ahead at hadvanced ⊢
    cases hadvanced with
    | waits isFor canFail _ log spends =>
      have hround' := spends.millis.trans hround
      rw [← List.append_nil moments] at isFor
      exact turned_cutOff hbody hwall isFor canFail (hround' ▸ hlate) (hmillis.trans hround') log
    | finished finished => exact absurd finished (unfinished _)
    | steps isFor millis log _ stops =>
      have canFail := stops.resolve_right fun ⟨result, hresult⟩ => unfinished result hresult
      exact turned_cutOff hbody hwall isFor canFail (millis ▸ hlate) (hmillis.trans millis) log

end Serving

end SharedQuota
