import SharedQuota.Proofs.Locks.Renumbering
import SharedQuota.Proofs.Serving.Mirror

/-!
One review served alone, from locks that are at rest. Main statement (`Server.serveAll_of_atRest`):
whatever numbers the locks and handles will get and whatever names the map still has, the review is
answered the same, and it leaves the locks at rest.
-/

namespace SharedQuota

open Engine (handles OwnsAll)

/-- The stage when the numbers of handles are greater by `k`. -/
def Stage.renumber (k : Nat) : Stage → Stage
  | .locking charge held next => .locking charge (held.map (· + k)) next
  | .waiting charge held handle a next => .waiting charge (held.map (· + k)) (handle + k) a next
  | .checking charge held checked next => .checking charge (held.map (· + k)) checked next
  | .reading charge held checked a since next =>
    .reading charge (held.map (· + k)) checked a since next
  | .reserving charge held next => .reserving charge (held.map (· + k)) next
  | .releasing held result => .releasing (held.map (· + k)) result
  | stage => stage

namespace Engine

variable {k : Nat} {rules : Rules} {now : Now} {dryRun : Bool} {shared : Shared} {locks : Locks}

theorem handles_renumber (k : Nat) (stage : Stage) :
    handles (stage.renumber k) = (handles stage).map (· + k) := by
  cases stage <;> simp [handles, Stage.renumber]

theorem renumber_of_handles {stage : Stage} (h : handles stage = []) :
    stage.renumber k = stage := by
  cases stage <;> simp_all [handles, Stage.renumber]

/-- Two steps that leave the same behind, but for the numbers of handles. -/
inductive StepRenumbered (k : Nat) (dryRun : Bool) :
    Option (Shared × Call × List Observation) → Option (Shared × Call × List Observation) → Prop
  | stops : StepRenumbered k dryRun none none
  | goesOn {shared locks stage reports} (hlocks : shared.locks.Renumbered k locks) :
    StepRenumbered k dryRun (some (shared, ⟨dryRun, stage⟩, reports))
      (some ({ shared with locks }, ⟨dryRun, stage.renumber k⟩, reports))

theorem decide_renumbered (hl : shared.locks.Renumbered k locks) {stage : Stage} (charge : Charge)
    (held : List Nat) (checked : List (Applicable × ResourceList)) (a : Applicable)
    (next : List Applicable) (since : Nat) (s : Snapshot) :
    StepRenumbered k dryRun
      (some (decide now shared ⟨dryRun, stage⟩ charge held checked a next since s))
      (some (decide now { shared with locks } ⟨dryRun, stage.renumber k⟩ charge
        (held.map (· + k)) checked a next since s)) := by
  simp only [decide]
  cases (check now shared.ledger charge a s).1 with
  | none => exact .goesOn hl
  | some e => exact .goesOn hl

theorem step_renumbered (hl : shared.locks.Renumbered k locks) (stage : Stage) (answer : Answer) :
    StepRenumbered k dryRun (step rules now shared ⟨dryRun, stage⟩ answer)
      (step rules now { shared with locks } ⟨dryRun, stage.renumber k⟩ answer) := by
  -- a stage without handles is entered under the same numbers
  have henter {stage : Stage} (h : handles stage = []) :
      StepRenumbered k dryRun (some (shared, ⟨dryRun, stage⟩, []))
        (some ({ shared with locks }, ⟨dryRun, stage⟩, [])) := by
    have hgoes : StepRenumbered k dryRun (some (shared, ⟨dryRun, stage⟩, []))
      (some ({ shared with locks }, ⟨dryRun, stage.renumber k⟩, [])) := .goesOn hl
    rwa [renumber_of_handles h] at hgoes
  cases answer with
  | failed denial =>
    have hfails : StepRenumbered k dryRun
        (some (shared, ⟨dryRun, .releasing (handles stage) (.error denial)⟩, []))
        (some ({ shared with locks },
          ⟨dryRun, .releasing (handles (stage.renumber k)) (.error denial)⟩, [])) := by
      rw [handles_renumber]
      exact .goesOn hl
    cases stage with
    | reserving | releasing | finished => exact .stops
    | _ => exact hfails
  | listed namespaces quotas =>
    cases stage with
    | listing => exact henter (isUnheld_charge ..).1
    | relabelling => exact henter (isUnheld_relabel ..).1
    | _ => exact .stops
  | surveyed namespaces =>
    cases stage with
    | surveying => exact .goesOn hl
    | _ => exact .stops
  | measured usage =>
    cases stage with
    | comparing => exact .goesOn hl
    | joining => exact henter (isUnheld_start ..).1
    | reading => exact decide_renumbered hl ..
    | _ => exact .stops
  | proceed =>
    cases stage with
    | locking charge held next =>
      cases next with
      | nil => exact .goesOn hl
      | cons a next =>
        obtain ⟨hid, hget⟩ := hl.get a.name
        simp only [step, Stage.renumber, hid]
        exact .goesOn (hget.wait _)
    | waiting charge held handle a next =>
      simp only [step, Stage.renumber, hl.holds]
      split
      case isTrue =>
        have hgoes : StepRenumbered k dryRun
          (some (shared, ⟨dryRun, .locking charge (held ++ [handle]) next⟩, [])) _ := .goesOn hl
        simpa only [Stage.renumber, List.map_append, List.map_cons, List.map_nil] using hgoes
      case isFalse => exact .stops
    | checking charge held checked next =>
      cases next with
      | nil =>
        simp only [step, Stage.renumber]
        split
        case isTrue => exact .goesOn hl
        case isFalse => exact .goesOn hl
      | cons a next =>
        simp only [step, Stage.renumber]
        split
        case h_1 => exact decide_renumbered hl ..
        case h_2 => exact .goesOn hl
    | reserving charge held next =>
      cases next with
      | nil => exact .goesOn hl
      | cons entry next => exact .goesOn hl
    | releasing held result =>
      cases held with
      | nil => exact .goesOn hl
      | cons handle held => exact .goesOn (hl.drop handle)
    | _ => exact .stops

end Engine

/-! ### Serving -/

theorem Stage.renumber_eq_finished_iff {k : Nat} {stage : Stage} {result : Except Denial Unit} :
    stage.renumber k = .finished result ↔ stage = .finished result := by
  cases stage <;> simp [renumber]

theorem Reads.ofStage_renumber (views : Views) (x : Exclusions) (now deadline k : Nat)
    (stage : Stage) :
    ofStage views x now deadline (stage.renumber k) = ofStage views x now deadline stage := by
  cases stage <;> rfl

namespace Serving

def renumber (k : Nat) (r : Running) : Running :=
  { r with call := { r.call with stage := r.call.stage.renumber k } }

variable {k : Nat} {s : Settings} {shared shared' : Shared} {r r' : Running}

/-- Two ways to serve one review on its own that differ in the numbers of handles. -/
structure LikeRenumbered (k : Nat) (shared : Shared) (r : Running) (shared' : Shared)
    (r' : Running) : Prop where
  locks : shared.locks.Renumbered k shared'.locks
  ledger : shared'.ledger = shared.ledger
  owns : OwnsAll shared.locks r.call.stage
  running : r' = renumber k r

namespace LikeRenumbered

theorem shared_eq (h : LikeRenumbered k shared r shared' r') :
    shared' = { shared with locks := shared'.locks } := by
  rw [← h.ledger]

theorem nextAnswer_eq (h : LikeRenumbered k shared r shared' r') (round : Round) (log : Log) :
    nextAnswer ⟨round, shared', log⟩ r' = nextAnswer ⟨round, shared, log⟩ r := by
  obtain ⟨review, views, kindText, started, deadline, ⟨dryRun, stage⟩, reads⟩ := r
  rw [h.running]
  cases stage with
  | locking charge held next => cases next <;> rfl
  | waiting charge held handle a next =>
    simp only [nextAnswer, renumber, Stage.renumber, h.locks.holds]
  | _ => rfl

theorem wakeAt_eq (h : LikeRenumbered k shared r shared' r') (millis : Nat) :
    wakeAt shared' millis r' = wakeAt shared millis r := by
  obtain ⟨review, views, kindText, started, deadline, ⟨dryRun, stage⟩, reads⟩ := r
  rw [h.running]
  cases stage with
  | waiting charge held handle a next =>
    simp only [wakeAt, renumber, Stage.renumber, h.locks.holds]
  | _ => rfl

theorem withReads (h : LikeRenumbered k shared r shared' r') (reads : Reads) :
    LikeRenumbered k shared { r with reads } shared' { r' with reads } :=
  ⟨h.locks, h.ledger, h.owns, by rw [h.running]; rfl⟩

theorem goOn (h : LikeRenumbered k shared r shared' r') {next : Shared} {locks : Locks}
    {stage : Stage} (hlocks : next.locks.Renumbered k locks)
    (howns : OwnsAll next.locks stage) (now : Now) :
    LikeRenumbered k next (r.goOn s now ⟨r.call.dryRun, stage⟩) { next with locks }
      (r'.goOn s now ⟨r.call.dryRun, stage.renumber k⟩) := by
  refine ⟨hlocks, rfl, howns, ?_⟩
  rw [h.running]
  simp only [Running.goOn, renumber, Reads.ofStage_renumber]

theorem stepsAlike (h : LikeRenumbered k shared r shared' r') (now : Now) (answer : Answer) :
    StepsAlike s (LikeRenumbered k) (fun _ _ => True) now shared r shared' r' answer answer := by
  have hsteps : Engine.StepRenumbered k r.call.dryRun
      (Engine.step s.rules now shared ⟨r.call.dryRun, r.call.stage⟩ answer)
      (Engine.step s.rules now { shared with locks := shared'.locks }
        ⟨r.call.dryRun, r.call.stage.renumber k⟩ answer) :=
    Engine.step_renumbered h.locks r.call.stage answer
  have hcall' : r'.call = ⟨r.call.dryRun, r.call.stage.renumber k⟩ := by
    rw [h.running]
    rfl
  have hwakes : wakesOther shared' r'.call.stage = wakesOther shared r.call.stage := by
    rw [hcall']
    cases hstage : r.call.stage with
    | releasing held result =>
      cases held with
      | nil => rfl
      | cons handle held => exact h.locks.passesOn handle
    | _ => rfl
  rw [← hcall', ← h.shared_eq] at hsteps
  generalize hstep : Engine.step s.rules now shared ⟨r.call.dryRun, r.call.stage⟩ answer = o
    at hsteps
  generalize hstep' : Engine.step s.rules now shared' r'.call answer = o' at hsteps
  cases hsteps with
  | stops => exact .stops hstep hstep'
  | goesOn hlocks =>
    refine .goesOn hstep hstep' hwakes fun _ => h.goOn hlocks ?_ now
    exact h.owns.advance (Engine.Advance.of_step hstep).1

end LikeRenumbered

/-- Nothing tells the numbers of handles. -/
def renumbering (s : Settings) (k : Nat) : Mirror s where
  Like := LikeRenumbered k
  Leads _ _ := True
  leads _ _ := trivial
  looks like := by
    rw [like.running]
    exact ⟨rfl, rfl, rfl, rfl, rfl, rfl, fun _ => Stage.renumber_eq_finished_iff⟩
  wakeAt like millis := like.wakeAt_eq millis
  told like now round log := by
    rw [like.nextAnswer_eq]
    exact .same like.withReads (like.stepsAlike now) _
  cut like now := like.stepsAlike now _

end Serving

theorem Serving.ownsAll_entering (s : Settings) (views : Views) (now : Nat) (review : Review) :
    OwnsAll .empty (entering s views now review).call.stage := by
  have hunheld : Engine.IsUnheld (review.entry s).2 := by
    rcases review.entry_cases s with ⟨result, h⟩ | ⟨work, h⟩ <;> rw [h]
    · exact ⟨rfl, fun _ => trivial⟩
    · exact Engine.isUnheld_work work
  refine ⟨Locks.sound_empty, ?_, hunheld.2 _⟩
  simp only [entering, hunheld.1]
  exact .refl _

/-- A review on its own is answered from any locks that are at rest as from new ones, with the same
reservations, and it leaves them at rest. -/
theorem Server.serveAll_of_atRest (p : Server) (h : p.shared.locks.AtRest) (delay : Nat)
    (body : Option Json) (views : Views) :
    let fresh := { p with shared := ⟨p.shared.ledger, .empty⟩ }.serveAll [⟨delay, body, views⟩]
    ∃ shared : Shared, shared.locks.AtRest ∧ shared.ledger = fresh.1.shared.ledger ∧
      p.serveAll [⟨delay, body, views⟩] = ({ fresh.1 with shared }, fresh.2) := by
  intro fresh
  have hstart : ∀ review, body.bind Review.ofJson? = some review → ∀ millis,
      Serving.LikeRenumbered p.shared.locks.nextHandle ⟨p.shared.ledger, .empty⟩
        (Serving.entering p.settings views millis review) p.shared
        (Serving.entering p.settings views millis review) := fun review _ millis => by
    have howns := Serving.ownsAll_entering p.settings views millis review
    have hnone : handles (review.entry p.settings).2 = [] := List.perm_nil.1 howns.owned
    refine ⟨h.renumbered, rfl, howns, ?_⟩
    simp only [Serving.renumber, Serving.entering, Engine.renumber_of_handles hnone]
  obtain ⟨shared', hserve, hended⟩ := (Serving.renumbering p.settings _).serveAll
    { p with shared := ⟨p.shared.ledger, .empty⟩ } p.shared delay body views views rfl hstart
    fun _ _ _ => trivial
  rcases hended with ⟨hleft, rfl⟩ | ⟨r, r', result, hfinished, hlike⟩
  · exact ⟨p.shared, h, (congrArg Shared.ledger hleft).symm, hserve⟩
  · have howns := hlike.owns
    rw [hfinished] at howns
    exact ⟨shared', hlike.locks.atRest howns.handles_nil, hlike.ledger, hserve⟩

end SharedQuota
