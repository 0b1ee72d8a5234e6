import SharedQuota.Proofs.Engine.Guard
import SharedQuota.Proofs.Engine.Path
import SharedQuota.Proofs.Serving.Reads

/-!
The way of one call from its start to its decision, with the time of each step (`Journey`). Each
step leaves fewer to come (`Engine.Advance.stepsLeft_lt`), and what the call is told in a stage is
always something that the stage goes on from (`Engine.isSome_step`). Main statement
(`Journey.succeeds`): a call that is told of no failure has had every answer it asked for in time.
-/

namespace SharedQuota

open Engine (Advance handles step)

/-! ### The steps that are left -/

/-- A bound on the steps that a call still takes, when so many quotas are listed. -/
def Stage.stepsLeft (listed : Nat) : Stage → Nat
  | .listing _ _ => 6 * listed + 5
  | .relabelling _ _ => 6 * listed + 6
  | .surveying _ _ => 3
  | .comparing _ _ => 2
  | .joining _ _ joined _ => 6 * joined.length + 5
  | .locking charge held next => 3 * charge.quotas.length + 3 * next.length + held.length + 4
  | .waiting charge held _ _ next => 3 * charge.quotas.length + 3 * next.length + held.length + 6
  | .checking _ held checked next => 3 * next.length + checked.length + held.length + 3
  | .reading _ held checked _ _ next => 3 * next.length + checked.length + held.length + 5
  | .reserving _ held next => next.length + held.length + 2
  | .releasing held _ => held.length + 1
  | .finished _ => 0

/-- The reports of how a review was decided. -/
def Observation.isDecision : Observation → Bool
  | .admission _ _ _ _ | .error _ => true
  | _ => false

namespace Engine

variable {rules : Rules} {now : Now} {dryRun : Bool} {shared shared' : Shared}
  {stage stage' : Stage} {answer : Answer} {listed : Nat}

theorem length_sorted_le (delta : ResourceList) (quotas : List Quota) :
    (Applicable.sorted delta quotas).length ≤ quotas.length := by
  rw [Applicable.sorted, List.length_mergeSort]
  exact List.length_filterMap_le ..

theorem stepsLeft_start_le (listed : Nat) (name : String) (delta : ResourceList)
    (listing : List Namespace) (quotas : List Quota) :
    (Charge.start name delta listing quotas).stepsLeft listed ≤ 6 * quotas.length + 4 := by
  have hlength := length_sorted_le delta quotas
  rcases start_cases name delta listing quotas with h | h <;> rw [h] <;>
    simp only [Stage.stepsLeft, List.length_nil] <;> omega

theorem stepsLeft_releasing_handles (hfail : stage.canFail = true) (result : Except Denial Unit) :
    (Stage.releasing (handles stage) result).stepsLeft listed < stage.stepsLeft listed := by
  cases stage with
  | reserving | releasing | finished => cases hfail
  | _ =>
    simp only [handles, Stage.stepsLeft, List.length_append, List.length_nil, List.length_cons]
    omega

/-- Each step leaves fewer to come. -/
theorem Advance.stepsLeft_lt (h : Advance rules now dryRun shared stage answer shared' stage')
    (hlisted : ∀ namespaces quotas, answer = .listed namespaces quotas → quotas.length ≤ listed) :
    stage'.stepsLeft listed < stage.stepsLeft listed := by
  cases h with
  | fail h => exact stepsLeft_releasing_handles h _
  | @list name delta namespaces quotas =>
    have := hlisted namespaces quotas rfl
    simp only [Engine.charge]
    split
    case h_1 => simp [Stage.stepsLeft]
    case h_2 ns _ =>
      have := stepsLeft_start_le listed name delta namespaces
        (quotas.filter (rules.exclusions.selects ·.spec.selector ns))
      have := List.length_filter_le (rules.exclusions.selects ·.spec.selector ns) quotas
      have hleft : (Stage.listing name delta).stepsLeft listed = 6 * listed + 5 := rfl
      omega
  | @relist old new namespaces quotas =>
    have := hlisted namespaces quotas rfl
    have := List.length_filter_le (joins rules.exclusions old new) quotas
    simp only [relabel]
    split
    case isTrue => simp [Stage.stepsLeft]
    case isFalse =>
      simp only [Stage.stepsLeft]
      omega
  | join =>
    refine Nat.lt_of_le_of_lt (stepsLeft_start_le ..) ?_
    simp only [Stage.stepsLeft]
    omega
  | deny hr | clear hr =>
    rcases stage_of_reading? hr with rfl | ⟨since, rfl⟩ <;>
      simp only [Stage.stepsLeft, List.length_append, List.length_cons, List.length_nil] <;> omega
  | _ =>
    simp only [Stage.stepsLeft, List.length_append, List.length_cons, List.length_nil]
    omega

/-- A call goes on from whatever it is told in a stage. -/
theorem isSome_step {views : Views} {deadline since : Nat}
    (htells : stage.Tells rules.exclusions views deadline since now.millis answer)
    (hfails : ∀ denial, answer = .failed denial → stage.canFail = true)
    (hholds : ∀ charge held handle a next, stage = .waiting charge held handle a next →
      answer = .proceed → shared.locks.holds handle = true)
    (hopen : ∀ result, stage ≠ .finished result) :
    (step rules now shared ⟨dryRun, stage⟩ answer).isSome := by
  rw [Stage.Tells] at htells
  generalize hasked : stage.asked rules.exclusions = asked at htells
  cases htells with
  | proceed =>
    cases stage with
    | locking charge held next => cases next <;> rfl
    | waiting charge held handle a next => simp [step, hholds _ _ _ _ _ rfl rfl]
    | checking charge held checked next =>
      cases next with
      | nil =>
        simp only [step]
        split <;> rfl
      | cons a next =>
        simp only [step]
        split <;> rfl
    | reserving charge held next => cases next <;> rfl
    | releasing held result => cases held <;> rfl
    | finished result => exact absurd rfl (hopen result)
    | _ => cases hasked
  | listed =>
    cases stage with
    | listing | relabelling => rfl
    | _ => cases hasked
  | surveyed =>
    cases stage with
    | surveying => rfl
    | _ => cases hasked
  | measured =>
    cases stage with
    | comparing | joining | reading => rfl
    | _ => cases hasked
  | failed =>
    have hcanFail := hfails _ rfl
    cases stage with
    | reserving | releasing | finished => cases hcanFail
    | _ => rfl

theorem reports_of_decide {c c' : Call} {charge : Charge} {held : List Nat}
    {checked : List (Applicable × ResourceList)} {a : Applicable} {next : List Applicable}
    {since : Nat} {s : Snapshot} {reports : List Observation}
    (h : decide now shared c charge held checked a next since s = (shared', c', reports)) :
    ∀ o ∈ reports, o.isDecision = false := by
  simp only [decide, Prod.mk.injEq] at h
  obtain ⟨-, -, rfl⟩ := h
  intro o ho
  simp only [readingReports, List.mem_cons, List.mem_map] at ho
  rcases ho with rfl | rfl | ⟨entry, -, rfl⟩ <;> rfl

/-- What a step reports is of readings of usage, never of a decision. -/
theorem reports_of_step {c c' : Call} {reports : List Observation}
    (h : step rules now shared c answer = some (shared', c', reports)) :
    ∀ o ∈ reports, o.isDecision = false := by
  simp only [step] at h
  split at h
  case h_12 | h_13 => split at h <;> cases h <;> simp
  case h_14 =>
    split at h
    · exact reports_of_decide (Option.some.inj h)
    · cases h
      simp
  case h_15 => exact reports_of_decide (Option.some.inj h)
  all_goals
    cases h
  all_goals simp

end Engine

/-! ### The way with its times -/

/-- The way of a call under a deadline, from an instant to an instant: the call is told in each
stage what comes of what it has asked for since it entered the stage, and no later than the
deadline. -/
inductive Journey (rules : Rules) (views : Views) (dryRun : Bool) (deadline : Nat) :
    Nat → Stage → List Moment → Nat → Stage → Prop
  | nil {since stage} : Journey rules views dryRun deadline since stage [] since stage
  | cons {since now answer shared shared' stage stage' moments ended last}
      (ahead : since ≤ now.millis) (inTime : now.millis ≤ deadline)
      (tells : stage.Tells rules.exclusions views deadline since now.millis answer)
      (step : Advance rules now dryRun shared stage answer shared' stage')
      (rest : Journey rules views dryRun deadline now.millis stage' moments ended last) :
    Journey rules views dryRun deadline since stage
      (⟨now, shared.ledger, stage, answer⟩ :: moments) ended last

/-- What a call asks for in a stage: since when, and of which view of the cluster. -/
structure Inquiry where
  since : Nat
  view : Nat
  asked : Asked

/-- All that is asked for answers in time. -/
def Inquiry.Succeeds (views : Views) (deadline : Nat) (q : Inquiry) : Prop :=
  q.asked.Succeeds (views q.view) q.since deadline

/-- What a call has asked for on its way. -/
def inquiries (x : Exclusions) : Nat → List Moment → List Inquiry
  | _, [] => []
  | since, t :: moments =>
    ⟨since, t.stage.view, t.stage.asked x⟩ :: inquiries x t.now.millis moments

/-- The call is told at this moment that it has failed. -/
def Moment.IsFailure (t : Moment) : Prop := ∃ denial, t.answer = .failed denial

/-- The call ends, or has ended, for a failure. -/
def Stage.IsUnavailable : Stage → Prop
  | .releasing _ result | .finished result =>
    (Decision.ofResult result).reason = .serviceUnavailable
  | _ => False

namespace Stage

variable {rules : Rules} {now : Now} {dryRun : Bool} {shared shared' : Shared}
  {stage stage' : Stage} {answer : Answer} {views : Views} {deadline since : Nat}

theorem not_isUnavailable_start (name : String) (delta : ResourceList) (listing : List Namespace)
    (quotas : List Quota) : ¬ (Charge.start name delta listing quotas).IsUnavailable := by
  rcases Engine.start_cases name delta listing quotas with h | h <;>
    simp [h, IsUnavailable, Decision.ofResult]

/-- A step ends a call for a failure only if the call is told of one. -/
theorem isUnavailable_advance_iff
    (htells : stage.Tells rules.exclusions views deadline since now.millis answer)
    (h : Advance rules now dryRun shared stage answer shared' stage') :
    stage'.IsUnavailable ↔ stage.IsUnavailable ∨ ∃ denial, answer = .failed denial := by
  cases h with
  | fail h => simp [IsUnavailable, Decision.ofResult, Asked.Tells.reason htells]
  | list =>
    simp only [Engine.charge]
    split
    case h_1 => simp [IsUnavailable, Decision.ofResult]
    case h_2 => exact iff_of_false (not_isUnavailable_start _ _ _ _) (by simp [IsUnavailable])
  | relist =>
    simp only [Engine.relabel]
    split <;> simp [IsUnavailable, Decision.ofResult]
  | join => exact iff_of_false (not_isUnavailable_start _ _ _ _) (by simp [IsUnavailable])
  | compare =>
    simp only [Engine.compared]
    split <;> simp [IsUnavailable, Decision.ofResult, Denial.reason]
  | deny hr | clear hr =>
    have hanswer : ∀ denial, answer ≠ .failed denial := by
      rintro denial rfl
      simp [Engine.reading?] at hr
    rcases Engine.stage_of_reading? hr with rfl | ⟨since, rfl⟩ <;>
      simp [IsUnavailable, hanswer, Decision.ofResult, Denial.reason]
  | _ => simp [IsUnavailable, Decision.ofResult]

end Stage

namespace Journey

variable {rules : Rules} {views : Views} {dryRun : Bool} {deadline since between ended : Nat}
  {stage stage' last : Stage} {moments moments' : List Moment} {result : Except Denial Unit}

theorem trans (h : Journey rules views dryRun deadline since stage moments between stage')
    (h' : Journey rules views dryRun deadline between stage' moments' ended last) :
    Journey rules views dryRun deadline since stage (moments ++ moments') ended last := by
  induction h with
  | nil => exact h'
  | cons ahead inTime tells step _ ih => exact .cons ahead inTime tells step (ih h')

theorem le_deadline (h : Journey rules views dryRun deadline since stage moments ended last)
    (hsince : since ≤ deadline) : ended ≤ deadline := by
  induction h with
  | nil => exact hsince
  | cons _ inTime _ _ _ ih => exact ih inTime

/-- A call that has finished stays so. -/
theorem eq_of_finished
    (h : Journey rules views dryRun deadline since (.finished result) moments ended last) :
    moments = [] ∧ ended = since ∧ last = .finished result := by
  cases h with
  | nil => exact ⟨rfl, rfl, rfl⟩
  | cons _ _ _ step =>
    cases step with
    | fail hcan => cases hcan
    | deny hr | clear hr => cases Engine.canFail_of_reading? hr

/-- A call is denied for a failure exactly if it was told of one on its way. -/
theorem isUnavailable_iff (h : Journey rules views dryRun deadline since stage moments ended last) :
    last.IsUnavailable ↔ stage.IsUnavailable ∨ ∃ t ∈ moments, t.IsFailure := by
  induction h with
  | nil => simp
  | cons _ _ tells step _ ih =>
    rw [ih, Stage.isUnavailable_advance_iff tells step, or_assoc]
    simp [Moment.IsFailure]

/-- If a call is told of no failure, all that it has asked for has answered in time. -/
theorem succeeds (h : Journey rules views dryRun deadline since stage moments ended last)
    (hnone : ∀ t ∈ moments, ¬ t.IsFailure) :
    ∀ q ∈ inquiries rules.exclusions since moments, q.Succeeds views deadline := by
  induction h with
  | nil => simp [inquiries]
  | cons _ inTime tells _ _ ih =>
    obtain ⟨hfirst, hrest⟩ := List.forall_mem_cons.1 hnone
    refine List.forall_mem_cons.2 ⟨?_, ih hrest⟩
    exact Asked.Tells.succeeds tells inTime fun denial hdenial => hfirst ⟨denial, hdenial⟩

end Journey

end SharedQuota
