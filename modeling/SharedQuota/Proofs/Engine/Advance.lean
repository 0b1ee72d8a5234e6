import SharedQuota.Engine
import SharedQuota.Proofs.Ledger.History

/-!
What one step of a call can do. `Advance` has a case for each kind of step, and every step is one of
them (`Advance.of_step`). What the step does to the ledger is one operation or none (`ledger_eq`).
-/

namespace SharedQuota

/-- Whether a call that has come so far may still fail. -/
def Stage.canFail : Stage → Bool
  | .reserving .. | .releasing .. | .finished _ => false
  | _ => true

namespace Engine

structure Reading where
  charge : Charge
  held : List Nat
  checked : List (Applicable × ResourceList)
  quota : Applicable
  next : List Applicable
  snapshot : Snapshot

/-- What a call comes to compare with an answer: a status that is fresh, or what was measured. -/
def reading? (rules : Rules) (now : Now) (stage : Stage) (answer : Answer) : Option Reading :=
  match answer, stage with
  | .proceed, .checking charge held checked (a :: next) =>
    let scope := Scope.resolve rules.exclusions a.quota charge.listing
    (Snapshot.ofStatus? a.quota scope a.resources rules.staleness now.wall).map
      (⟨charge, held, checked, a, next, ·⟩)
  | .measured usage, .reading charge held checked a _ next =>
    some ⟨charge, held, checked, a, next, .recompute usage a.resources⟩
  | _, _ => none

def reservation (rules : Rules) (now : Now) (charge : Charge) (a : Applicable)
    (observed : ResourceList) : Ledger.Operation :=
  .reserve now.millis now.wall rules.reservationTtl a.name charge.name
    (charge.delta.restrict a.resources.toList) observed

def Reading.operation (now : Now) (r : Reading) : Ledger.Operation :=
  .pending now.millis r.quota.name r.snapshot r.quota.resources

def reservation? (rules : Rules) (now : Now) (stage : Stage) (answer : Answer) :
    Option Ledger.Operation :=
  match answer, stage with
  | .proceed, .reserving charge _ ((a, observed) :: _) =>
    some (reservation rules now charge a observed)
  | _, _ => none

def operation? (rules : Rules) (now : Now) (stage : Stage) (answer : Answer) :
    Option Ledger.Operation :=
  ((reading? rules now stage answer).map (·.operation now)).or
    (reservation? rules now stage answer)

/-- The steps of a call, from what is shared and its stage, with an answer, to both after it. -/
inductive Advance (rules : Rules) (now : Now) (dryRun : Bool) :
    Shared → Stage → Answer → Shared → Stage → Prop
  | fail {shared stage denial} (h : stage.canFail = true) :
    Advance rules now dryRun shared stage (.failed denial)
      shared (.releasing (handles stage) (.error denial))
  | list {shared name delta namespaces quotas} :
    Advance rules now dryRun shared (.listing name delta) (.listed namespaces quotas)
      shared (Engine.charge rules.exclusions name delta namespaces quotas)
  | relist {shared old new namespaces quotas} :
    Advance rules now dryRun shared (.relabelling old new) (.listed namespaces quotas)
      shared (relabel rules.exclusions old new namespaces quotas)
  | survey {shared proposed limits namespaces} :
    Advance rules now dryRun shared (.surveying proposed limits) (.surveyed namespaces)
      shared (.comparing
        (Scope.resolve rules.exclusions proposed namespaces).aggregated.toList limits)
  | compare {shared names limits usage} :
    Advance rules now dryRun shared (.comparing names limits) (.measured usage)
      shared (.finished (compared usage limits))
  | join {shared name listing joined resources usage} :
    Advance rules now dryRun shared (.joining name listing joined resources) (.measured usage)
      shared (Charge.start name ((usage.get? name).getD Table.empty) listing joined)
  | locked {shared charge held} :
    Advance rules now dryRun shared (.locking charge held []) .proceed
      shared (.checking charge held [] charge.quotas)
  | ask {shared charge held a next} :
    Advance rules now dryRun shared (.locking charge held (a :: next)) .proceed
      { shared with locks := (shared.locks.get a.name).2.wait (shared.locks.get a.name).1 }
      (.waiting charge held (shared.locks.get a.name).1 a next)
  | take {shared charge held handle a next} (h : shared.locks.holds handle = true) :
    Advance rules now dryRun shared (.waiting charge held handle a next) .proceed
      shared (.locking charge (held ++ [handle]) next)
  | measure {shared charge held checked a next}
      (h : reading? rules now (.checking charge held checked (a :: next)) .proceed = none) :
    Advance rules now dryRun shared (.checking charge held checked (a :: next)) .proceed
      shared (.reading charge held checked a now.millis next)
  | deny {shared stage answer r e} (hr : reading? rules now stage answer = some r)
      (he : (check now shared.ledger r.charge r.quota r.snapshot).1 = some e) :
    Advance rules now dryRun shared stage answer
      { shared with ledger := shared.ledger.apply (r.operation now) }
      (.releasing r.held (.error (.exceeded e)))
  | clear {shared stage answer r} (hr : reading? rules now stage answer = some r)
      (he : (check now shared.ledger r.charge r.quota r.snapshot).1 = none) :
    Advance rules now dryRun shared stage answer
      { shared with ledger := shared.ledger.apply (r.operation now) }
      (.checking r.charge r.held (r.checked ++ [(r.quota, r.snapshot.usedIn r.charge.name)]) r.next)
  | passDry {shared charge held checked} (h : dryRun = true) :
    Advance rules now dryRun shared (.checking charge held checked []) .proceed
      shared (.releasing held (.ok ()))
  | pass {shared charge held checked} (h : dryRun = false) :
    Advance rules now dryRun shared (.checking charge held checked []) .proceed
      shared (.reserving charge held checked)
  | reserve {shared charge held a observed next} :
    Advance rules now dryRun shared (.reserving charge held ((a, observed) :: next)) .proceed
      { shared with ledger := shared.ledger.apply (reservation rules now charge a observed) }
      (.reserving charge held next)
  | reserved {shared charge held} :
    Advance rules now dryRun shared (.reserving charge held []) .proceed
      shared (.releasing held (.ok ()))
  | release {shared handle held result} :
    Advance rules now dryRun shared (.releasing (handle :: held) result) .proceed
      { shared with locks := shared.locks.drop handle } (.releasing held result)
  | finish {shared result} :
    Advance rules now dryRun shared (.releasing [] result) .proceed shared (.finished result)

variable {rules : Rules} {now : Now} {dryRun : Bool} {shared shared' : Shared}
  {stage stage' : Stage} {answer : Answer}

theorem stage_of_reading? {r : Reading} (hr : reading? rules now stage answer = some r) :
    stage = .checking r.charge r.held r.checked (r.quota :: r.next) ∨
      ∃ since, stage = .reading r.charge r.held r.checked r.quota since r.next := by
  simp only [reading?] at hr
  split at hr
  case h_1 =>
    obtain ⟨s, -, rfl⟩ := Option.map_eq_some_iff.1 hr
    exact .inl rfl
  case h_2 =>
    cases hr
    exact .inr ⟨_, rfl⟩
  case h_3 => cases hr

theorem canFail_of_reading? {r : Reading} (hr : reading? rules now stage answer = some r) :
    stage.canFail = true := by
  rcases stage_of_reading? hr with rfl | ⟨since, rfl⟩ <;> rfl

theorem handles_of_reading? {r : Reading} (hr : reading? rules now stage answer = some r) :
    handles stage = r.held := by
  rcases stage_of_reading? hr with rfl | ⟨since, rfl⟩ <;> rfl

theorem Advance.of_decide {r : Reading} (hr : reading? rules now stage answer = some r)
    {since : Nat} {c : Call} {reports : List Observation}
    (h : decide now shared ⟨dryRun, stage⟩ r.charge r.held r.checked r.quota r.next since
      r.snapshot = (shared', c, reports)) :
    Advance rules now dryRun shared stage answer shared' c.stage ∧ c.dryRun = dryRun := by
  simp only [decide, Prod.mk.injEq] at h
  obtain ⟨rfl, rfl, -⟩ := h
  have hledger : (check now shared.ledger r.charge r.quota r.snapshot).2 =
      shared.ledger.apply (r.operation now) := rfl
  refine ⟨?_, rfl⟩
  rw [hledger]
  cases he : (check now shared.ledger r.charge r.quota r.snapshot).1 with
  | none => exact .clear hr he
  | some e => exact .deny hr he

/-- Every step of a call is one of the steps above. -/
theorem Advance.of_step {c : Call} {reports : List Observation}
    (h : step rules now shared ⟨dryRun, stage⟩ answer = some (shared', c, reports)) :
    Advance rules now dryRun shared stage answer shared' c.stage ∧ c.dryRun = dryRun := by
  cases answer with
  | failed denial =>
    -- a call does not fail once it makes reservations
    cases stage with
    | reserving charge held next => cases h
    | releasing held result => cases h
    | finished result => cases h
    | _ =>
      cases h
      exact ⟨.fail rfl, rfl⟩
  | listed namespaces quotas =>
    cases stage with
    | listing name delta =>
      cases h
      exact ⟨.list, rfl⟩
    | relabelling old new =>
      cases h
      exact ⟨.relist, rfl⟩
    | _ => cases h
  | surveyed namespaces =>
    cases stage with
    | surveying proposed limits =>
      cases h
      exact ⟨.survey, rfl⟩
    | _ => cases h
  | measured usage =>
    cases stage with
    | comparing names limits =>
      cases h
      exact ⟨.compare, rfl⟩
    | joining name listing joined resources =>
      cases h
      exact ⟨.join, rfl⟩
    | reading charge held checked a since next =>
      exact Advance.of_decide
        (r := ⟨charge, held, checked, a, next, .recompute usage a.resources⟩) rfl
        (Option.some.inj h)
    | _ => cases h
  | proceed =>
    cases stage with
    | locking charge held next =>
      cases next with
      | nil =>
        cases h
        exact ⟨.locked, rfl⟩
      | cons a next =>
        cases h
        exact ⟨.ask, rfl⟩
    | waiting charge held handle a next =>
      simp only [step] at h
      split at h
      case isTrue hholds =>
        cases h
        exact ⟨.take hholds, rfl⟩
      case isFalse => cases h
    | checking charge held checked next =>
      cases next with
      | nil =>
        simp only [step] at h
        split at h
        case isTrue hdry =>
          cases h
          exact ⟨.passDry hdry, rfl⟩
        case isFalse hdry =>
          cases h
          exact ⟨.pass (Bool.not_eq_true _ ▸ hdry), rfl⟩
      | cons a next =>
        simp only [step] at h
        split at h
        case h_1 s hs =>
          exact Advance.of_decide (r := ⟨charge, held, checked, a, next, s⟩)
            (by simp [reading?, hs]) (Option.some.inj h)
        case h_2 hs =>
          cases h
          exact ⟨.measure (by simp [reading?, hs]), rfl⟩
    | reserving charge held next =>
      cases next with
      | nil =>
        cases h
        exact ⟨.reserved, rfl⟩
      | cons entry next =>
        cases h
        exact ⟨.reserve, rfl⟩
    | releasing held result =>
      cases held with
      | nil =>
        cases h
        exact ⟨.finish, rfl⟩
      | cons handle held =>
        cases h
        exact ⟨.release, rfl⟩
    | _ => cases h

theorem Advance.ledger_eq (h : Advance rules now dryRun shared stage answer shared' stage') :
    shared'.ledger =
      (operation? rules now stage answer).elim shared.ledger shared.ledger.apply := by
  cases h with
  | deny hr he => simp [operation?, hr]
  | clear hr he => simp [operation?, hr]
  | measure hr => simp [operation?, hr, reservation?]
  | _ => rfl

theorem time_of_operation? {op : Ledger.Operation}
    (h : operation? rules now stage answer = some op) : op.time = now.millis := by
  rw [operation?, Option.or_eq_some_iff, Option.map_eq_some_iff] at h
  rcases h with ⟨r, -, rfl⟩ | ⟨-, h⟩
  · rfl
  · simp only [reservation?] at h
    split at h
    case h_1 => exact Option.some.inj h ▸ rfl
    case h_2 => cases h

end Engine

end SharedQuota
