import SharedQuota.Cluster.Inventory
import SharedQuota.Options.Settings
import SharedQuota.Proofs.Serving.Rounds

/-!
What becomes of each text that is served. Main statement (`Server.answersAll`): each has one
response, one report of its admission, and a record of its denial where there is to be one and the
namespace makes up a target for it.
-/

namespace SharedQuota

/-- The value at a path of keys. -/
def Json.at? : List String → Json → Option Json
  | [], j => some j
  | key :: path, j => do at? path (← get? key (← j.members?))

/-- What is written of a decision. -/
structure Response.IsWritten (j : Json) (uid : String) (d : Decision) : Prop where
  uid : j.at? ["response", "uid"] = some (.string uid)
  allowed : j.at? ["response", "allowed"] = some (.bool d.isAllowed)
  success : d.isAllowed = true → j.at? ["response", "status"] = some (.object [])
  failure : d.isAllowed = false →
    j.at? ["response", "status", "status"] = some (.string "Failure") ∧
      j.at? ["response", "status", "code"] = some (.int d.reason.code) ∧
      j.at? ["response", "status", "reason"] = some (.string d.reason.status) ∧
      j.at? ["response", "status", "message"] = some (.string d.message)

theorem Response.isWritten_toJson (r : Response) : IsWritten r.toJson r.uid r.decision := by
  refine ⟨rfl, rfl, fun h => ?_, fun h => ?_⟩
  · simp [toJson, h, Json.at?, Json.get?, Json.under, Json.members?]
  · simp [toJson, h, Json.at?, Json.get?, Json.under, Json.members?]

theorem Kind.code_of_ofRequest {counts : ObjectCountKinds} {r : ReviewRequest} {denial : Denial}
    (h : Kind.ofRequest counts r = .error denial) : denial.reason.code = 400 := by
  simp only [Kind.ofRequest] at h
  split at h
  case h_1 => cases h
  case h_2 =>
    split at h
    case h_1 => cases h
    case h_2 =>
      cases h
      rfl

theorem Admission.of_denied? {r : ReviewRequest} {d : Decision} {denied : Event.Denied}
    (h : denied? r d = some denied) : d.reason = .quotaExceeded ∧ r.dryRun = false ∧
      r.namespaceName = some denied.namespaceName ∧ denied.message = d.message := by
  obtain ⟨name, hname, h⟩ := Option.bind_eq_some_iff.1 h
  by_cases hskip : (decide (d.reason ≠ .quotaExceeded) || r.dryRun) = true
  · rw [if_pos hskip] at h
    cases h
  · rw [if_neg hskip] at h
    cases h
    simp only [Bool.or_eq_true, decide_eq_true_eq, not_or, not_not, Bool.not_eq_true] at hskip
    exact ⟨hskip.1, hskip.2, hname, rfl⟩

theorem Admission.exists_denied? {r : ReviewRequest} {d : Decision} {name : String}
    (hname : r.namespaceName = some name) (hreason : d.reason = .quotaExceeded)
    (hdry : r.dryRun = false) :
    ∃ denied, denied? r d = some denied ∧ denied.namespaceName = name := by
  simp [denied?, hname, hreason, hdry]

namespace Served

/-- The uid of a response: that of the request, or, if the text is no review, the text at the place
of the uid in what can be read of it, or none. -/
inductive HasUid (body : Option Json) : String → Prop
  | review {review} (h : body.bind Review.ofJson? = some review) :
    HasUid body review.request.uid
  | salvaged {j uid} (h : body.bind Review.ofJson? = none) (hbody : body = some j)
      (hread : j.readableWithin Json.maxDepth = true)
      (huid : j.at? ["request", "uid"] = some (.string uid)) : HasUid body uid
  | nothing (h : body.bind Review.ofJson? = none)
      (hnone : ∀ j uid, body = some j → j.readableWithin Json.maxDepth = true →
        j.at? ["request", "uid"] ≠ some (.string uid)) : HasUid body ""

theorem hasUid_salvagedUid {body : Option Json} (h : body.bind Review.ofJson? = none) :
    HasUid body (Review.salvagedUid body) := by
  cases body with
  | none => exact .nothing h fun _ _ hbody => by cases hbody
  | some j =>
    have hsalvaged : Review.salvagedUid (some j) =
        if j.readableWithin Json.maxDepth then ((j.at? ["request", "uid"]).bind (·.string?)).getD ""
        else "" := by
      cases hread : j.readableWithin Json.maxDepth <;>
        simp [Review.salvagedUid, hread, Json.at?, Option.bind_assoc]
    rw [hsalvaged]
    split
    case isFalse hread => exact .nothing h fun _ _ hbody hread' => by cases hbody; contradiction
    case isTrue hread =>
      cases huid : (j.at? ["request", "uid"]).bind (·.string?) with
      | some uid =>
        obtain ⟨value, hvalue, htext⟩ := Option.bind_eq_some_iff.1 huid
        cases value with
        | string => exact .salvaged h rfl hread (Option.some.inj htext ▸ hvalue)
        | _ => cases htext
      | none =>
        refine .nothing h fun j' uid hbody _ hat => ?_
        cases hbody
        rw [hat] at huid
        cases huid

/-- The text is no review, or its request is of no kind that is admitted. -/
def IsRefused (s : Settings) (v : Served) : Prop :=
  ∀ review, v.review? = some review →
    ∃ denial, Kind.ofRequest s.objectCounts review.request = .error denial

/-- The denial of the review is recorded: there is a recorder, the review exceeds a quota, is no dry
run, and names a namespace whose events have a target. -/
def IsRecorded (s : Settings) (v : Served) : Prop :=
  s.recorder.isSome = true ∧ v.decision.reason = .quotaExceeded ∧
    ∃ review name, v.review? = some review ∧ review.request.dryRun = false ∧
      review.request.namespaceName = some name ∧
      (Http.pathOfTarget? ("/api/v1/namespaces/" ++ name ++ "/events")).isSome = true

/-- What a text that was served is answered. -/
structure IsAnswered (s : Settings) (v : Served) : Prop where
  uid : HasUid v.body v.response.uid
  decision_eq : v.response.decision = v.decision
  written : Response.IsWritten v.response.toJson v.response.uid v.decision
  refused : v.IsRefused s → v.decision.isAllowed = false ∧ v.decision.reason.code = 400

theorem IsOutcome.refused {s : Settings} {v : Served} (h : v.IsOutcome s)
    (hrefused : v.IsRefused s) : v.decision.isAllowed = false ∧ v.decision.reason.code = 400 := by
  have hreason : ∃ denial, v.result = .error denial ∧ denial.reason.code = 400 := by
    rw [IsOutcome] at h
    cases hreview : v.review? with
    | none =>
      simp only [hreview] at h
      obtain ⟨-, why, hresult⟩ := h
      exact ⟨_, hresult, rfl⟩
    | some review =>
      simp only [hreview] at h
      obtain ⟨moments, hjourney⟩ := h
      obtain ⟨denial, hkind⟩ := hrefused review hreview
      simp only [Review.entry, hkind] at hjourney
      exact ⟨denial, Stage.finished.inj hjourney.eq_of_finished.2.2, Kind.code_of_ofRequest hkind⟩
  obtain ⟨denial, hresult, hcode⟩ := hreason
  rw [decision, hresult]
  refine ⟨?_, hcode⟩
  cases denial <;> rfl

theorem IsOutcome.isAnswered {s : Settings} {v : Served} (h : v.IsOutcome s) : v.IsAnswered s := by
  have hdecision : v.response.decision = v.decision := by
    rw [response]
    split <;> rfl
  refine ⟨?_, hdecision, hdecision ▸ Response.isWritten_toJson _, h.refused⟩
  rw [response]
  split
  case h_1 hreview => exact hasUid_salvagedUid hreview
  case h_2 review hreview => exact .review hreview

/-- What is recorded of a review: it is posted to the events of the namespace that it names, and it
says why the review is denied. -/
theorem of_recording? {s : Settings} {startedAt : Time} {v : Served} {r : ApiRequest}
    (h : v.recording? s startedAt = some r) :
    v.IsRecorded s ∧ r.method = "POST" ∧
      (r.body.bind (·.at? ["message"])) = some (.string v.decision.message) := by
  obtain ⟨review, hreview, h⟩ := Option.bind_eq_some_iff.1 h
  obtain ⟨instanceName, hrecorder, h⟩ := Option.bind_eq_some_iff.1 h
  obtain ⟨denied, hdenied, h⟩ := Option.bind_eq_some_iff.1 h
  obtain ⟨path, hpath, h⟩ := Option.bind_eq_some_iff.1 h
  obtain ⟨hreason, hdry, hname, hmessage⟩ := Admission.of_denied? hdenied
  obtain rfl := Option.some.inj h
  refine ⟨⟨by rw [hrecorder]; rfl, hreason, review, denied.namespaceName, hreview, hdry, hname,
    by rw [hpath]; rfl⟩, rfl, ?_⟩
  rw [← hmessage]
  rfl

theorem isSome_recording?_iff (s : Settings) (startedAt : Time) (v : Served) :
    (v.recording? s startedAt).isSome = true ↔ v.IsRecorded s := by
  constructor
  · intro h
    obtain ⟨r, hr⟩ := Option.isSome_iff_exists.1 h
    exact (of_recording? hr).1
  · rintro ⟨hrecorder, hreason, review, name, hreview, hdry, hname, hpath⟩
    obtain ⟨instanceName, hinstance⟩ := Option.isSome_iff_exists.1 hrecorder
    obtain ⟨denied, hdenied, rfl⟩ := Admission.exists_denied? hname hreason hdry
    obtain ⟨path, hpath⟩ := Option.isSome_iff_exists.1 hpath
    simp [recording?, hreview, hinstance, hdenied, Serving.recording?, hpath]

/-- Of what kind a review is reported, of which operation, and how long it took. -/
def label (s : Settings) (v : Served) : String × String × Nat :=
  match v.review? with
  | none => (Kind.unknownText, Kind.unknownText, 0)
  | some review => ((review.entry s).1, review.request.operation.text, v.ended - v.started)

theorem reports_eq (s : Settings) (v : Served) : v.reports s =
    .admission (v.label s).1 (v.label s).2.1 v.decision.reason.outcome (v.label s).2.2 ::
      if v.decision.isAllowed then [] else [.error v.decision.reason] := by
  rw [reports, label]
  cases v.review? <;> rfl

end Served

namespace Server

/-- Every text that is served has one response, which says what was decided, and one report of its
admission, with one of an error where it is denied. A denial is recorded exactly where it is to
be. -/
theorem answersAll (p : Server) (arrivals : List Arrival) : ∃ served order : List Served,
    served.map Served.given = (arrivals.map fun a => (a.body, a.views, p.millis + a.delay)) ∧
      order.Perm served ∧ (p.serveAll arrivals).2.1 = served.map (·.response) ∧
      (∀ v ∈ served, v.IsOutcome p.settings ∧ v.IsAnswered p.settings) ∧
      ((p.serveAll arrivals).2.2.observations.filter (·.isDecision) = order.flatMap fun v =>
        .admission (v.label p.settings).1 (v.label p.settings).2.1 v.decision.reason.outcome
            (v.label p.settings).2.2 ::
          if v.decision.isAllowed then [] else [.error v.decision.reason]) ∧
      ∃ record? : Served → Option ApiRequest,
        (p.serveAll arrivals).2.2.recordings = order.filterMap record? ∧
          (∀ v, (record? v).isSome = true ↔ v.IsRecorded p.settings) ∧
          ∀ v r, record? v = some r → r.method = "POST" ∧
            (r.body.bind (·.at? ["message"])) = some (.string v.decision.message) := by
  obtain ⟨served, order, hresponses, hbatch, -⟩ := p.serves arrivals
  refine ⟨served, order, hbatch.given, hbatch.perm, hresponses, fun v hv =>
    ⟨hbatch.isOutcome v hv, (hbatch.isOutcome v hv).isAnswered⟩, ?_,
    (·.recording? p.settings p.startedAt), hbatch.log.recordings,
    Served.isSome_recording?_iff p.settings p.startedAt,
    fun v r hr => (Served.of_recording? hr).2⟩
  have hdecisions : (p.serveAll arrivals).2.2.decisions =
      Log.empty.decisions ++ order.flatMap (·.reports p.settings) := hbatch.log.decisions
  rw [funext (Served.reports_eq p.settings)] at hdecisions
  exact hdecisions

/-! A config map is created in a namespace with a blank in its name, where none is allowed. -/

private def blankText : Json := .object [
  ("apiVersion", .string "admission.k8s.io/v1"),
  ("kind", .string "AdmissionReview"),
  ("request", .object [
    ("uid", .string "u"),
    ("kind", .object [("group", .string ""), ("version", .string "v1"),
      ("kind", .string "ConfigMap")]),
    ("resource", .object [("group", .string ""), ("version", .string "v1"),
      ("resource", .string "configmaps")]),
    ("name", .string "p"),
    ("namespace", .string "ns a"),
    ("operation", .string "CREATE"),
    ("userInfo", .object [])])]

private def noConfigMaps : Quota :=
  ⟨⟨some "q", none, none, none, none, []⟩, ⟨none, Table.ofList [("count/configmaps", "0")]⟩, none⟩

private def withBlank : Views := fun _ => Inventory.cluster {
  namespaces := [⟨"ns a", Table.empty⟩]
  quotas := [noConfigMaps]
  usage := Table.empty
  persisted := Table.empty
  manners := fun _ => .plain }

private def recorder : Server :=
  start (({ recordDenials := true } : Options).settings "webhook-0") ⟨0, 0⟩

private def firstRound : Bool × Scene × List Task :=
  Serving.giveTurns recorder.settings (Serving.now recorder)
    [.due none (some blankText) withBlank] ⟨.start 0, recorder.shared, Log.empty⟩

private def onlyAnswer? : List Task → Option Response
  | [.answered response] => some response
  | _ => none

private theorem of_onlyAnswer? {tasks : List Task} {response : Response}
    (h : onlyAnswer? tasks = some response) : tasks = [.answered response] := by
  simp only [onlyAnswer?] at h
  split at h <;> cases h
  rfl

/-- Where the namespace makes up no target, a denial for an excess is not recorded. -/
theorem not_recorded_withBlank :
    ∃ review p' response log, recorder.settings.recorder = some "webhook-0" ∧
      Review.ofJson? blankText = some review ∧ review.request.dryRun = false ∧
      review.request.namespaceName = some "ns a" ∧
      recorder.serveAll [⟨0, some blankText, withBlank⟩] = (p', [response], log) ∧
      response.decision.reason = .quotaExceeded ∧ log.allRequests = [] := by
  have hanswered : (onlyAnswer? firstRound.2.2).any
      (·.decision.reason = .quotaExceeded) = true := by
    decide +kernel
  have hrequests : firstRound.2.1.log.allRequests.isEmpty = true := by decide +kernel
  obtain ⟨response, honly, hreason⟩ := (Option.any_eq_true _ _).1 hanswered
  have htasks := of_onlyAnswer? honly
  have hround : firstRound.2.2.all Task.isAnswered = true := by rw [htasks]; rfl
  obtain ⟨p', hloop⟩ := Serving.loop_of_answered (Serving.stepsBound [withBlank])
    (Serving.roundBound [.due none (some blankText) withBlank]) recorder
    [.due none (some blankText) withBlank] Log.empty hround
  have hserve : recorder.serveAll [⟨0, some blankText, withBlank⟩] =
      (p', [response], firstRound.2.1.log) := by
    simp only [serveAll, List.map_cons, List.map_nil, if_true, hloop]
    change (p', Serving.concludeAll p' firstRound.2.2 firstRound.2.1.log) = _
    rw [htasks]
    rfl
  exact ⟨_, p', response, _, rfl, rfl, rfl, rfl, hserve, of_decide_eq_true hreason,
    List.isEmpty_iff.1 hrequests⟩

end Server

end SharedQuota
