import SharedQuota.Proofs.Engine.Crowd

/-!
The way of one call through its stages, with what it has before it at each step, whatever other
calls do in between. Main statement (`Path.exists_clears`): a call that is admitted has read the
usage of each quota that was ahead of it and did not exceed it.
-/

namespace SharedQuota

open Engine (Advance reading?)

/-- What a call takes a step on. -/
structure Moment where
  now : Now
  ledger : Ledger
  stage : Stage
  answer : Answer

/-- The usage of a quota is read, and the charge does not exceed the quota. -/
def Moment.Clears (rules : Rules) (c : Charge) (a : Applicable) (t : Moment) : Prop :=
  ∃ r, reading? rules t.now t.stage t.answer = some r ∧ r.charge = c ∧ r.quota = a ∧
    (Engine.check t.now t.ledger c a r.snapshot).1 = none

/-- The moments in which a call comes from one stage to another. -/
inductive Path (rules : Rules) (dryRun : Bool) : Stage → List Moment → Stage → Prop
  | nil {stage} : Path rules dryRun stage [] stage
  | cons {now answer shared shared' stage stage' last moments}
      (step : Advance rules now dryRun shared stage answer shared' stage')
      (rest : Path rules dryRun stage' moments last) :
    Path rules dryRun stage (⟨now, shared.ledger, stage, answer⟩ :: moments) last

namespace Stage

/-- A quota that a call is still to be compared with. -/
def Faces (c : Charge) (a : Applicable) : Stage → Prop
  | .locking charge _ _ | .waiting charge _ _ _ _ => charge = c ∧ a ∈ c.quotas
  | .checking charge _ _ next => charge = c ∧ a ∈ next
  | .reading charge _ _ quota _ next => charge = c ∧ a ∈ quota :: next
  | _ => False

def HasFailed : Stage → Prop
  | .releasing _ (.error _) | .finished (.error _) => True
  | _ => False

variable {rules : Rules} {now : Now} {dryRun : Bool} {shared shared' : Shared}
  {stage stage' : Stage} {answer : Answer} {c : Charge} {a : Applicable}

theorem HasFailed.advance (h : stage.HasFailed)
    (hadvance : Advance rules now dryRun shared stage answer shared' stage') :
    stage'.HasFailed := by
  cases hadvance with
  | fail => trivial
  | deny hr | clear hr =>
    rcases Engine.stage_of_reading? hr with rfl | ⟨since, rfl⟩ <;> cases h
  | @release _ _ result | @finish result => cases result <;> exact h
  | _ => cases h

/-- A quota stays ahead of a call until the call has cleared it or has failed. -/
theorem Faces.advance (h : stage.Faces c a)
    (hadvance : Advance rules now dryRun shared stage answer shared' stage') :
    stage'.Faces c a ∨ stage'.HasFailed ∨
      Moment.Clears rules c a ⟨now, shared.ledger, stage, answer⟩ := by
  cases hadvance with
  | fail | deny => exact .inr (.inl trivial)
  | locked =>
    obtain ⟨rfl, ha⟩ := h
    exact .inl ⟨rfl, ha⟩
  | ask | take | measure => exact .inl h
  | @clear _ _ r hr he =>
    have hfaces : r.charge = c ∧ a ∈ r.quota :: r.next := by
      rcases Engine.stage_of_reading? hr with rfl | ⟨since, rfl⟩ <;> exact h
    obtain ⟨rfl, ha⟩ := hfaces
    rcases List.mem_cons.1 ha with rfl | ha
    · exact .inr (.inr ⟨_, hr, rfl, rfl, he⟩)
    · exact .inl ⟨rfl, ha⟩
  | passDry | pass => exact absurd h.2 List.not_mem_nil
  | _ => cases h

end Stage

namespace Path

variable {rules : Rules} {dryRun : Bool} {stage : Stage} {moments : List Moment} {c : Charge}
  {a : Applicable}

theorem not_hasFailed (h : Path rules dryRun stage moments (.finished (.ok ()))) :
    ¬ stage.HasFailed := by
  generalize hlast : Stage.finished (.ok ()) = last at h
  induction h with
  | nil =>
    subst hlast
    exact id
  | cons step rest ih => exact fun hfailed => ih hlast (hfailed.advance step)

theorem exists_clears (h : Path rules dryRun stage moments (.finished (.ok ())))
    (hfaces : stage.Faces c a) : ∃ t ∈ moments, t.Clears rules c a := by
  generalize hlast : Stage.finished (.ok ()) = last at h
  induction h with
  | nil =>
    subst hlast
    cases hfaces
  | cons step rest ih =>
    rcases hfaces.advance step with hfaces | hfailed | hclears
    · obtain ⟨t, ht, hclears⟩ := ih hfaces hlast
      exact ⟨t, List.mem_cons_of_mem _ ht, hclears⟩
    · subst hlast
      exact absurd hfailed rest.not_hasFailed
    · exact ⟨_, List.mem_cons_self .., hclears⟩

end Path

namespace Crowd

/-- What the call at a place takes its steps on in a run of moves. -/
def moments (rules : Rules) (place : Nat) (s : Crowd) : List Move → List Moment
  | [] => []
  | m :: ms =>
    (if m.place = place then
      (s.callers[place]?.map fun c => ⟨m.now, s.shared.ledger, c.stage, m.answer⟩).toList
    else []) ++ ((s.step? rules m).map (moments rules place · ms)).getD []

variable {rules : Rules} {s t : Crowd} {ms : List Move} {place : Nat} {c : Caller}

/-- In a run of moves each call goes its own way. -/
theorem exists_path (h : s.run? rules ms = some t) (hc : s.callers[place]? = some c) :
    ∃ stage, t.callers[place]? = some { c with stage } ∧
      Path rules c.dryRun c.stage (moments rules place s ms) stage := by
  -- a move of another call leaves this one where it is, so the induction is for any crowd and stage
  induction ms generalizing s c with
  | nil =>
    cases h
    exact ⟨c.stage, hc, .nil⟩
  | cons m ms ih =>
    obtain ⟨u, hu, ht⟩ := Option.bind_eq_some_iff.1 h
    rcases caller_of_step? hu hc with ⟨hplace, stage, hcu, hadvance⟩ | ⟨hplace, hcu⟩
    · obtain ⟨stage', hct, hpath⟩ := ih ht hcu
      refine ⟨stage', hct, ?_⟩
      rw [moments, if_pos hplace, hc, hu]
      exact .cons hadvance hpath
    · rw [moments, if_neg hplace, hu]
      exact ih ht hcu

end Crowd

end SharedQuota
