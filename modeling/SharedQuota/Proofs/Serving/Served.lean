import SharedQuota.Proofs.Serving.Journey
import SharedQuota.Serving

/-!
What serving a review leaves behind: one response, the reports of how it was decided, and a record
of its denial (`Served`).
-/

namespace SharedQuota

/-- The name under which a review is reported, and the stage in which its call starts. -/
def Review.entry (s : Settings) (review : Review) : String × Stage :=
  match Kind.ofRequest s.objectCounts review.request with
  | .error denial => (Kind.unknownText, .finished (.error denial))
  | .ok kind => (kind.text, Admission.start s kind review.request)

theorem Review.entry_cases (s : Settings) (review : Review) :
    (∃ result, (review.entry s).2 = .finished result) ∨
      ∃ work : Work, (review.entry s).2 = work.start := by
  simp only [entry, Admission.start]
  split
  case h_1 => exact .inl ⟨_, rfl⟩
  case h_2 =>
    dsimp only
    split
    case h_1 | h_2 => exact .inl ⟨_, rfl⟩
    case h_3 work _ => exact .inr ⟨work, rfl⟩

namespace Log

def decisions (l : Log) : List Observation := l.observations.filter (·.isDecision)

/-- The same, but for what is read and reported of usage. -/
structure Keeps (l l' : Log) : Prop where
  decisions : l'.decisions = l.decisions
  recordings : l'.recordings = l.recordings

theorem Keeps.refl (l : Log) : l.Keeps l := ⟨rfl, rfl⟩

theorem Keeps.of_reports {l l' : Log} {reports : List Observation}
    (hobservations : l'.observations = l.observations ++ reports)
    (hrecordings : l'.recordings = l.recordings) (h : ∀ o ∈ reports, o.isDecision = false) :
    l.Keeps l' := by
  refine ⟨?_, hrecordings⟩
  have hnone : reports.filter (·.isDecision) = [] :=
    List.filter_eq_nil_iff.2 fun o ho => by simp [h o ho]
  simp [Log.decisions, hobservations, hnone]

theorem Keeps.trans {l l' l'' : Log} (h : l.Keeps l') (h' : l'.Keeps l'') : l.Keeps l'' :=
  ⟨h'.decisions.trans h.decisions, h'.recordings.trans h.recordings⟩

end Log

/-- A review that was served: the text it came in, what it found of the cluster, when it was started
and ended, and its result. -/
structure Served where
  body : Option Json
  views : Views
  started : Nat
  ended : Nat
  result : Except Denial Unit

namespace Served

def given (v : Served) : Option Json × Views × Nat := (v.body, v.views, v.started)

def review? (v : Served) : Option Review := v.body.bind Review.ofJson?

def decision (v : Served) : Decision := Decision.ofResult v.result

def response (v : Served) : Response :=
  match v.review? with
  | none =>
    ⟨Response.plainVersion, Response.plainKind, Review.salvagedUid v.body, v.decision⟩
  | some review => ⟨review.apiVersion, review.kind, review.request.uid, v.decision⟩

def reports (s : Settings) (v : Served) : List Observation :=
  match v.review? with
  | none => Admission.reports Kind.unknownText Kind.unknownText v.decision 0
  | some review =>
    Admission.reports (review.entry s).1 review.request.operation.text v.decision
      (v.ended - v.started)

/-- The record of the denial of a review, if there is to be one; the process started at a time. -/
def recording? (s : Settings) (startedAt : Time) (v : Served) : Option ApiRequest := do
  let review ← v.review?
  let instanceName ← s.recorder
  let denied ← Admission.denied? review.request v.decision
  Serving.recording? instanceName (startedAt.plusMillis v.ended) denied

/-- A text that is no review is answered at once. Any other review goes its way, from the stage in
which its call starts to its result. -/
def IsOutcome (s : Settings) (v : Served) : Prop :=
  match v.review? with
  | none => v.ended = v.started ∧ ∃ why, v.result = .error (.undecodable why)
  | some review => ∃ moments, Journey s.rules v.views review.request.dryRun (v.started + s.timeout)
      v.started (review.entry s).2 moments v.ended (.finished v.result)

/-- The moments at which the call of a review was told what it went on from, until its result. -/
def Came (s : Settings) (v : Served) (moments : List Moment) : Prop :=
  match v.review? with
  | none => moments = [] ∧ v.ended = v.started ∧ ∃ why, v.result = .error (.undecodable why)
  | some review => Journey s.rules v.views review.request.dryRun (v.started + s.timeout)
      v.started (review.entry s).2 moments v.ended (.finished v.result)

theorem Came.isOutcome {s : Settings} {v : Served} {moments : List Moment}
    (h : v.Came s moments) : v.IsOutcome s := by
  rw [Came] at h
  rw [IsOutcome]
  split
  case h_1 hnone =>
    simp only [hnone] at h
    exact h.2
  case h_2 review hsome =>
    simp only [hsome] at h
    exact ⟨moments, h⟩

end Served

/-- The log goes on with what reviews leave behind that were served in an order. -/
structure Log.Adds (s : Settings) (startedAt : Time) (l l' : Log) (order : List Served) : Prop where
  decisions : l'.decisions = l.decisions ++ order.flatMap (·.reports s)
  recordings : l'.recordings = l.recordings ++ order.filterMap (·.recording? s startedAt)

namespace Log

variable {s : Settings} {startedAt : Time} {l l' l'' : Log} {order order' : List Served}

theorem Keeps.adds (h : l.Keeps l') : l.Adds s startedAt l' [] :=
  ⟨by simp [h.decisions], by simp [h.recordings]⟩

theorem Adds.trans (h : l.Adds s startedAt l' order) (h' : l'.Adds s startedAt l'' order') :
    l.Adds s startedAt l'' (order ++ order') :=
  ⟨by simp [h'.decisions, h.decisions], by simp [h'.recordings, h.recordings]⟩

end Log

/-- What serving texts has come to, each from an instant on, in the order in which they were given
and in that in which they were answered. -/
structure Served.Batch (s : Settings) (startedAt : Time) (given : List (Option Json × Views × Nat))
    (served order : List Served) (log : Log) : Prop where
  given : served.map Served.given = given
  isOutcome : ∀ v ∈ served, v.IsOutcome s
  perm : order.Perm served
  log : Log.empty.Adds s startedAt log order

/-- What there is of each of the texts. -/
theorem Served.Batch.exists_served {s : Settings} {startedAt : Time}
    {given : List (Option Json × Views × Nat)} {served order : List Served} {log : Log}
    (h : Served.Batch s startedAt given served order log) {i : Nat} {g : Option Json × Views × Nat}
    (hg : given[i]? = some g) :
    ∃ v, served[i]? = some v ∧ v.given = g ∧ v.IsOutcome s ∧
      ∀ o ∈ v.reports s, o ∈ log.observations := by
  rw [← h.given, List.getElem?_map, Option.map_eq_some_iff] at hg
  obtain ⟨v, hv, rfl⟩ := hg
  have hmem := List.mem_of_getElem? hv
  refine ⟨v, hv, rfl, h.isOutcome v hmem, fun o ho => ?_⟩
  have hdecisions : o ∈ log.decisions := by
    rw [h.log.decisions]
    exact List.mem_append_right _ (List.mem_flatMap.2 ⟨v, h.perm.mem_iff.2 hmem, ho⟩)
  exact (List.mem_filter.1 hdecisions).1

theorem Admission.isDecision_of_mem_reports (kind operation : String) (d : Decision)
    (elapsed : Nat) : ∀ o ∈ Admission.reports kind operation d elapsed, o.isDecision = true := by
  intro o ho
  simp only [Admission.reports] at ho
  split at ho <;> simp at ho
  · exact ho ▸ rfl
  · rcases ho with rfl | rfl <;> rfl

end SharedQuota
