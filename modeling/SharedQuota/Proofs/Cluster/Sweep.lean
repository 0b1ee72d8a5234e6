import SharedQuota.Proofs.Cluster.Answer
import SharedQuota.Proofs.Event

/-!
Sweeps of the events that reported denials. Main statement (`Sweep.run_isExact`): of the events
that are listed the old ones are deleted in order, up to the first that cannot be, and no sweep
depends on how another one ended.
-/

namespace SharedQuota

namespace ApiServer

variable {α β : Type} {q : Query α} {f : α → Query β} {a : α} {answer : Except ReadFault β}
  {fault : ReadFault} {asked asked' : List ApiRequest}

/-- A query ends with this answer, and has then made these requests behind those before it. -/
def Ends (q : Query α) (answer : Except ReadFault α) (asked : List ApiRequest) : Prop :=
  ∀ log, q.run.run log = (answer, log ++ asked)

theorem ends_pure (a : α) : Ends (pure a) (.ok a) [] := fun log => by rw [List.append_nil]; rfl

theorem ends_throw (fault : ReadFault) : Ends (throw fault : Query α) (.error fault) [] :=
  fun log => by rw [List.append_nil]; rfl

theorem Ends.bind (h : Ends q (.ok a) asked) (hf : Ends (f a) answer asked') :
    Ends (q >>= f) answer (asked ++ asked') := fun log => by
  rw [run_bind, h log]
  exact (hf _).trans (by rw [List.append_assoc])

theorem Ends.bind_error (h : Ends q (.error fault) asked) : Ends (q >>= f) (.error fault) asked :=
  fun log => by rw [run_bind, h log]

theorem Ends.fetch {answer : Except ReadFault α} (h : Ends q answer asked) :
    fetch q = ⟨asked, 0, answer⟩ := by
  rw [ApiServer.fetch, h []]
  rfl

/-! ### Lists of events -/

/-- The request for all events that carry the label of a source. -/
def listRequest : Event.Source → ApiRequest
  | .controller => ⟨"GET", "/api/v1/events", some "clusterquota.io/event-source=controller", none⟩
  | .webhook => ⟨"GET", "/api/v1/events", some "clusterquota.io/event-source=webhook", none⟩

theorem listRequest_eq (source : Event.Source) :
    listRequest source = ⟨"GET", eventsPath, some source.selector, none⟩ := by
  have hcontroller : Event.Source.controller.selector =
      "clusterquota.io/event-source=controller" := by decide
  have hwebhook : Event.Source.webhook.selector = "clusterquota.io/event-source=webhook" := by
    decide
  cases source with
  | controller => rw [hcontroller]; rfl
  | webhook => rw [hwebhook]; rfl

/-- The server answers with these events. -/
structure IsListed (s : ApiServer) (source : Event.Source) (es : List Event) : Prop where
  answered : s.failing.get? (listRequest source).text = none
  decoded : ((s.lists.get? (eventsPath ++ "?" ++ source.selector)).getD []).mapM Event.ofJson? =
    some es

theorem pathOfTarget?_eventsPath : Http.pathOfTarget? eventsPath = some eventsPath := by
  decide +kernel

variable {s : ApiServer} {source : Event.Source} {es : List Event}

theorem ends_request (s : ApiServer) (method : String) (selector : Option String)
    {target path : String} (h : Http.pathOfTarget? target = some path) :
    Ends (s.request method target selector)
      (.ok (path, s.failing.get? (ApiRequest.text ⟨method, path, selector, none⟩)))
      [⟨method, path, selector, none⟩] := fun log => by
  rw [request, h]
  rfl

theorem ends_request_error (s : ApiServer) (method : String) (selector : Option String)
    {target : String} (h : Http.pathOfTarget? target = none) :
    Ends (s.request method target selector) (.error (badTarget target)) [] := fun log => by
  rw [request, h, List.append_nil]
  rfl

theorem ends_get {target path : String} {selector : Option String}
    (hpath : Http.pathOfTarget? target = some path)
    (hcode : s.failing.get? (ApiRequest.text ⟨"GET", path, selector, none⟩) = none) :
    Ends (s.get target selector) (.ok path) [⟨"GET", path, selector, none⟩] := by
  have hrequest := ends_request s "GET" selector hpath
  rw [hcode] at hrequest
  exact hrequest.bind (ends_pure path)

theorem ends_get_error {target path : String} {selector : Option String} {code : Nat}
    (hpath : Http.pathOfTarget? target = some path)
    (hcode : s.failing.get? (ApiRequest.text ⟨"GET", path, selector, none⟩) = some code) :
    Ends (s.get target selector) (.error (requestFault code))
      [⟨"GET", path, selector, none⟩] := by
  have hrequest := ends_request s "GET" selector hpath
  rw [hcode] at hrequest
  exact hrequest.bind (ends_throw _)

theorem IsListed.ends_events (h : s.IsListed source es) :
    Ends (s.events source) (.ok es) [listRequest source] := by
  have hanswered := h.answered
  rw [listRequest_eq] at hanswered ⊢
  refine (ends_get pathOfTarget?_eventsPath hanswered).bind ?_
  rw [entered, h.decoded]
  exact ends_pure es

theorem exists_ends_events (h : ∀ es, ¬ s.IsListed source es) :
    ∃ fault, Ends (s.events source) (.error fault) [listRequest source] := by
  cases hcode : s.failing.get? (listRequest source).text with
  | some code =>
    rw [listRequest_eq] at hcode ⊢
    exact ⟨_, (ends_get_error pathOfTarget?_eventsPath hcode).bind_error⟩
  | none =>
    have hentered : Ends (s.entered (eventsPath ++ "?" ++ source.selector) Event.ofJson?)
        (.error (undecodable (eventsPath ++ "?" ++ source.selector))) [] := by
      rw [entered]
      cases hdecoded : ((s.lists.get? (eventsPath ++ "?" ++ source.selector)).getD []).mapM
          Event.ofJson? with
      | some es => exact absurd ⟨hcode, hdecoded⟩ (h es)
      | none => exact ends_throw _
    rw [listRequest_eq] at hcode ⊢
    exact ⟨_, (ends_get pathOfTarget?_eventsPath hcode).bind hentered⟩

theorem eventPath_eq (name event : String) :
    eventPath name event = "/api/v1/namespaces/" ++ name ++ "/events/" ++ event := by
  have hcore : "".isEmpty = true := by decide
  have hprefix : "/api/" ++ "v1" ++ "/namespaces/" = "/api/v1/namespaces/" := by decide
  have hmiddle : "/" ++ ("events" ++ ("/" ++ event)) = "/events/" ++ event := by
    rw [← String.append_assoc, ← String.append_assoc]
    exact congrArg (· ++ event) (by decide)
  rw [eventPath, corePath, objectsPath, if_pos hcore, hprefix]
  simp only [String.append_assoc, hmiddle]

end ApiServer

/-! ### Deletions -/

namespace Event

/-- Where an event is found. -/
def target (e : Event) : String :=
  "/api/v1/namespaces/" ++ e.metadata.namespaceName.getD "" ++ "/events/" ++ e.metadata.anyName

theorem target_eq (e : Event) : e.target =
    ApiServer.eventPath (e.metadata.namespaceName.getD "") e.metadata.anyName := by
  unfold target
  exact (ApiServer.eventPath_eq ..).symm

/-- The request that deletes an event, unless there is none. -/
def deletion? (e : Event) : Option ApiRequest :=
  if e.metadata.anyName.isEmpty then none
  else (Http.pathOfTarget? e.target).map fun path => ⟨"DELETE", path, none, none⟩

end Event

/-- What becomes of an attempt to delete an event. -/
inductive Deletion
  | done
  | missing
  | failed (fault : ReadFault)
deriving DecidableEq

namespace Deletion

def fault? : Deletion → Option ReadFault
  | failed fault => some fault
  | _ => none

/-- What a server makes of the request, told by the code of its answer if it has one of its own. Of
the codes of failures one says only that there is no such event; a number that is no code is no
answer. -/
def ofAnswer : Option Nat → Deletion
  | none => done
  | some code =>
    if code = 404 then missing
    else if (400 ≤ code ∧ code < 600) ∨ code < 100 ∨ 999 < code then
      failed (ApiServer.requestFault code)
    else done

/-- Whether there was an event to delete. -/
def answer : Deletion → Except ReadFault Bool
  | done => .ok true
  | missing => .ok false
  | failed fault => .error fault

variable {d : Deletion} {fault : ReadFault} {found : Bool}

theorem eq_failed_of_answer (h : d.answer = .error fault) : d = failed fault := by
  cases d <;> cases h
  rfl

theorem fault?_of_answer (h : d.answer = .ok found) : d.fault? = none := by
  cases d <;> cases h <;> rfl

theorem toNat_of_answer (h : d.answer = .ok found) :
    (if d = done then 1 else 0) = found.toNat := by
  cases d <;> cases h <;> rfl

end Deletion

namespace ApiServer

/-- What becomes of an event that is to be deleted. -/
def deletion (s : ApiServer) (e : Event) : Deletion :=
  match e.deletion? with
  | some r => .ofAnswer (s.failing.get? r.text)
  | none =>
    if e.metadata.anyName.isEmpty then .failed (.failed "a name is required")
    else .failed (badTarget e.target)

theorem isFailure_iff {code : Nat} :
    isFailure code = true ↔ (400 ≤ code ∧ code < 600) ∨ code < 100 ∨ 999 < code := by
  simp [isFailure, or_assoc]

theorem ends_deleteEvent (s : ApiServer) (e : Event) :
    Ends (s.deleteEvent (e.metadata.namespaceName.getD "") e.metadata.anyName)
      (s.deletion e).answer e.deletion?.toList := by
  rw [deleteEvent, deletion, Event.deletion?, ← Event.target_eq]
  split
  case isTrue hempty => exact (ends_throw _).bind_error
  case isFalse hname =>
    cases hpath : Http.pathOfTarget? e.target with
    | none => exact (ends_request_error s "DELETE" none hpath).bind_error
    | some path =>
      have hrequest := ends_request s "DELETE" none hpath
      show Ends _
        (Deletion.ofAnswer (s.failing.get? (ApiRequest.text ⟨"DELETE", path, none, none⟩))).answer
        [⟨"DELETE", path, none, none⟩]
      cases hcode : s.failing.get? (ApiRequest.text ⟨"DELETE", path, none, none⟩) with
      | none =>
        rw [hcode] at hrequest
        exact hrequest.bind (ends_pure true)
      | some code =>
        rw [hcode] at hrequest
        refine hrequest.bind ?_
        show Ends (if code = 404 then pure false else if isFailure code = true then
          throw (requestFault code) >>= fun _ : Unit => pure true else pure true) _ []
        by_cases hmissing : code = 404
        · rw [if_pos hmissing, Deletion.ofAnswer, if_pos hmissing]
          exact ends_pure false
        · rw [if_neg hmissing, Deletion.ofAnswer, if_neg hmissing]
          by_cases hfailure : isFailure code = true
          · rw [if_pos hfailure, if_pos (isFailure_iff.1 hfailure)]
            exact (ends_throw _).bind_error
          · rw [if_neg hfailure, if_neg (mt isFailure_iff.2 hfailure)]
            exact ends_pure true

end ApiServer

namespace Sweep

/-- What becomes of events that are deleted one after the other, each at the next server. -/
def outcomes (server : Nat → ApiServer) (es : List Event) : List Deletion :=
  es.mapIdx fun i e => (server i).deletion e

/-- Of the events that are to be deleted, those that are tried, and the answer: all of them and how
many were deleted, or those up to the first that fails and how it failed. -/
inductive IsSwept (server : Nat → ApiServer) : List Event → List Event → Except ReadFault Nat → Prop
  | all (es : List Event) (hdone : ∀ d ∈ outcomes server es, d.fault? = none) :
    IsSwept server es es (.ok ((outcomes server es).count .done))
  | stopped (before after : List Event) (last : Event) (fault : ReadFault)
    (hdone : ∀ d ∈ outcomes server before, d.fault? = none)
    (hfailed : (server before.length).deletion last = .failed fault) :
    IsSwept server (before ++ last :: after) (before ++ [last]) (.error fault)

variable {server : Nat → ApiServer} {e : Event} {es attempted : List Event}
  {answer : Except ReadFault Nat}

theorem outcomes_cons (server : Nat → ApiServer) (e : Event) (es : List Event) :
    outcomes server (e :: es) = (server 0).deletion e :: outcomes (fun i => server (i + 1)) es :=
  List.mapIdx_cons

theorem IsSwept.cons (h : IsSwept (fun i => server (i + 1)) es attempted answer)
    (hfirst : ((server 0).deletion e).fault? = none) :
    IsSwept server (e :: es) (e :: attempted)
      (answer.map (· + if (server 0).deletion e = .done then 1 else 0)) := by
  have hcons {rest : List Event}
      (hrest : ∀ d ∈ outcomes (fun i => server (i + 1)) rest, d.fault? = none) :
      ∀ d ∈ outcomes server (e :: rest), d.fault? = none := by
    rw [outcomes_cons]
    exact List.forall_mem_cons.2 ⟨hfirst, hrest⟩
  cases h with
  | all _ hdone =>
    have hall := IsSwept.all (e :: es) (hcons hdone)
    rw [outcomes_cons, List.count_cons] at hall
    simp only [beq_iff_eq] at hall
    exact hall
  | stopped before after last fault hdone hfailed =>
    exact .stopped (e :: before) after last fault (hcons hdone) hfailed

theorem isSwept_of_failed {fault : ReadFault} (es : List Event)
    (h : (server 0).deletion e = .failed fault) : IsSwept server (e :: es) [e] (.error fault) :=
  .stopped [] es e fault (fun _ hd => nomatch hd) h

theorem IsSwept.mem (h : IsSwept server es attempted answer) (he : e ∈ attempted) : e ∈ es := by
  cases h with
  | all => exact he
  | stopped before after last =>
    rw [List.mem_append, List.mem_singleton] at he
    rw [List.mem_append, List.mem_cons]
    exact he.imp_right .inl

theorem requests_cons (e : Event) (es : List Event) :
    (e :: es).filterMap Event.deletion? = e.deletion?.toList ++ es.filterMap Event.deletion? := by
  cases h : e.deletion? with
  | none => rw [List.filterMap_cons_none h]; rfl
  | some r => rw [List.filterMap_cons_some h]; rfl

theorem map_add_toNat (answer : Except ReadFault Nat) (deleted : Nat) (found : Bool) :
    (answer.map (· + found.toNat)).map (deleted + ·) =
      answer.map ((if found then deleted + 1 else deleted) + ·) := by
  cases answer with
  | error fault => rfl
  | ok n =>
    refine congrArg Except.ok ?_
    cases found with
    | false => rfl
    | true =>
      show deleted + (n + 1) = deleted + 1 + n
      omega

/-- The events are deleted up to the first that fails, with those counted before. -/
theorem exists_ends_deleteAll (es : List Event) : ∀ (server : Nat → ApiServer) (deleted : Nat),
    ∃ attempted answer, IsSwept server es attempted answer ∧
      ApiServer.Ends (deleteAll server es deleted) (answer.map (deleted + ·))
        (attempted.filterMap Event.deletion?) := by
  induction es with
  | nil =>
    intro server deleted
    exact ⟨[], .ok 0, .all [] (fun _ hd => nomatch hd), ApiServer.ends_pure deleted⟩
  | cons e es ih =>
    intro server deleted
    have hfirst := (server 0).ends_deleteEvent e
    cases hanswer : ((server 0).deletion e).answer with
    | error fault =>
      rw [hanswer] at hfirst
      refine ⟨[e], .error fault,
        isSwept_of_failed es (Deletion.eq_failed_of_answer hanswer), ?_⟩
      rw [requests_cons, List.filterMap_nil, List.append_nil]
      exact hfirst.bind_error
    | ok found =>
      -- an event that is deleted or missing lets the rest go on, with or without one more counted
      obtain ⟨attempted, answer, hswept, hrest⟩ :=
        ih (fun i => server (i + 1)) (if found then deleted + 1 else deleted)
      rw [hanswer] at hfirst
      have hall := hfirst.bind
        (f := fun found => deleteAll (fun i => server (i + 1)) es
          (if found then deleted + 1 else deleted)) hrest
      refine ⟨e :: attempted, _, hswept.cons (Deletion.fault?_of_answer hanswer), ?_⟩
      rw [requests_cons, Deletion.toNat_of_answer hanswer, map_add_toNat]
      exact hall

/-! ### Sweeps -/

variable {w : Sweep} {source : Event.Source}

theorem ends_run (retention : Nat) (h : (w.server 0).IsListed source es) :
    ∃ attempted answer, IsSwept (fun i => w.server (i + 1)) (Event.expired w.now retention es)
        attempted answer ∧
      ApiServer.Ends (w.run source retention) answer
        (ApiServer.listRequest source :: attempted.filterMap Event.deletion?) := by
  obtain ⟨attempted, answer, hswept, hends⟩ :=
    exists_ends_deleteAll (Event.expired w.now retention es) (fun i => w.server (i + 1)) 0
  refine ⟨attempted, answer, hswept, ?_⟩
  have hrun := h.ends_events.bind
    (f := fun es => deleteAll (fun i => w.server (i + 1)) (Event.expired w.now retention es) 0)
    hends
  cases answer with
  | error fault => exact hrun
  | ok n =>
    rw [Except.map, Nat.zero_add] at hrun
    exact hrun

theorem ends_run_of_not_listed (retention : Nat)
    (h : ∀ es, ¬ (w.server 0).IsListed source es) :
    ∃ fault, ApiServer.Ends (w.run source retention) (.error fault)
      [ApiServer.listRequest source] := by
  obtain ⟨fault, hfault⟩ := ApiServer.exists_ends_events h
  exact ⟨fault, hfault.bind_error⟩

theorem exists_ends_run (w : Sweep) (source : Event.Source) (retention : Nat) :
    ∃ answer asked, ApiServer.Ends (w.run source retention) answer asked := by
  by_cases h : ∃ es, (w.server 0).IsListed source es
  · obtain ⟨es, hes⟩ := h
    obtain ⟨attempted, answer, -, hends⟩ := ends_run retention hes
    exact ⟨answer, _, hends⟩
  · obtain ⟨fault, hends⟩ := ends_run_of_not_listed retention (not_exists.1 h)
    exact ⟨.error fault, _, hends⟩

/-- Queries one after the other, however each of them ends. -/
theorem run_mapM_of_ends {α β : Type} {f : α → ApiServer.Query β}
    (h : ∀ a, ∃ answer asked, ApiServer.Ends (f a) answer asked) (l : List α) :
    ∀ log, (l.mapM fun a => (f a).run).run log =
      (l.map fun a => (ApiServer.fetch (f a)).answer,
        log ++ l.flatMap fun a => (ApiServer.fetch (f a)).requests) := by
  induction l with
  | nil => intro log; rw [List.flatMap_nil, List.append_nil]; rfl
  | cons a l ih =>
    intro log
    obtain ⟨answer, asked, ha⟩ := h a
    rw [List.mapM_cons, StateT.run_bind, ha log, List.map_cons, List.flatMap_cons, ha.fetch]
    show StateT.run (l.mapM (fun a => (f a).run) >>= fun answers => pure (answer :: answers))
      (log ++ asked) = _
    rw [StateT.run_bind, ih, List.append_assoc]
    rfl

/-- A tick sweeps what the controller has reported and then what the webhook has. -/
theorem tick_eq (sweeps : Event.Source → Sweep) (retention : Nat) :
    tick sweeps retention =
      ⟨[(ApiServer.fetch ((sweeps .controller).run .controller retention)).answer,
          (ApiServer.fetch ((sweeps .webhook).run .webhook retention)).answer],
        (ApiServer.fetch ((sweeps .controller).run .controller retention)).requests ++
          (ApiServer.fetch ((sweeps .webhook).run .webhook retention)).requests⟩ := by
  rw [tick, run_mapM_of_ends (fun source => exists_ends_run (sweeps source) source retention)]
  simp only [Event.Source.all, List.map_cons, List.map_nil, List.flatMap_cons, List.flatMap_nil,
    List.append_nil, List.nil_append]

/-- What a sweep comes to: without a list it fails and deletes nothing, and of the events that are
listed it deletes the old ones, in their order, up to the first that fails. -/
structure IsExact (w : Sweep) (source : Event.Source) (retention : Nat) (result : Fetch Nat) :
    Prop where
  unlisted : (∀ es, ¬ (w.server 0).IsListed source es) →
    (∃ fault, result.answer = .error fault) ∧ result.requests = [ApiServer.listRequest source]
  listed : ∀ es, (w.server 0).IsListed source es → ∃ isOld attempted,
    (∀ e ∈ es, isOld e = true ↔ Event.IsOld w.now retention e) ∧
      IsSwept (fun i => w.server (i + 1)) (es.filter isOld) attempted result.answer ∧
      result.requests = ApiServer.listRequest source :: attempted.filterMap Event.deletion? ∧
      ∀ e ∈ attempted, Event.IsPast w.now retention e

theorem isProper_of_isListed {s : ApiServer} (h : s.IsListed source es) (he : e ∈ es) :
    e.IsProper := by
  have hsome : some e ∈ es.map some := List.mem_map_of_mem he
  rw [← map_eq_of_mapM h.decoded] at hsome
  obtain ⟨j, -, hj⟩ := List.mem_map.1 hsome
  exact Event.isProper_of_ofJson? hj

/-- A sweep attempts to delete the events that are old, in the order of the list, up to the first
that fails otherwise than by not being there, and each tick sweeps the controller's and then the
webhook's, however the other sweeps of the run have ended. -/
theorem run_isExact :
    (∀ (w : Sweep) (source : Event.Source) (retention : Nat),
      w.IsExact source retention (ApiServer.fetch (w.run source retention))) ∧
    ∀ (sweeps : Nat → Event.Source → Sweep) (retention count : Nat),
      ticks sweeps retention count = (List.range count).map fun i =>
        ⟨[(ApiServer.fetch ((sweeps i .controller).run .controller retention)).answer,
            (ApiServer.fetch ((sweeps i .webhook).run .webhook retention)).answer],
          (ApiServer.fetch ((sweeps i .controller).run .controller retention)).requests ++
            (ApiServer.fetch ((sweeps i .webhook).run .webhook retention)).requests⟩ := by
  refine ⟨fun w source retention => ⟨fun hunlisted => ?_, fun es hes => ?_⟩,
    fun sweeps retention count => List.map_congr_left fun i _ => tick_eq (sweeps i) retention⟩
  · obtain ⟨fault, hends⟩ := ends_run_of_not_listed retention hunlisted
    rw [hends.fetch]
    exact ⟨⟨fault, rfl⟩, rfl⟩
  · obtain ⟨attempted, answer, hswept, hends⟩ := ends_run retention hes
    have hold : ∀ e ∈ es, Event.isExpired w.now retention e = true ↔
        Event.IsOld w.now retention e := fun e he => (isProper_of_isListed hes he).isExpired_iff
    rw [hends.fetch]
    refine ⟨Event.isExpired w.now retention, attempted, hold, hswept, rfl, fun e he => ?_⟩
    obtain ⟨hmem, hexpired⟩ := List.mem_filter.1 (hswept.mem he)
    exact ((hold e hmem).1 hexpired).isPast (isProper_of_isListed hes hmem) w.isLeap_now

/-- Of two events the one that is old is deleted, and that without a time is left. -/
theorem run_isExact_oneOld : ∃ (w : Sweep) (es : List Event) (result : Fetch Nat),
    (w.server 0).IsListed .controller es ∧ es.length = 2 ∧
      result = ApiServer.fetch (w.run .controller 3_600_000) ∧ result.answer = .ok 1 ∧
      result.requests.map ApiRequest.text =
        ["GET /api/v1/events", "DELETE /api/v1/namespaces/team/events/first"] ∧
      w.IsExact .controller 3_600_000 result := by
  let old : Event :=
    ⟨⟨some "first", none, some "team", none, none, []⟩, some ⟨1714557600, 0⟩, none, none⟩
  let undated : Event := ⟨⟨some "second", none, some "team", none, none, []⟩, none, none, none⟩
  have htime : Time.ofStamp? (Time.secondText ⟨1714557600, 0⟩) = some ⟨1714557600, 0⟩ := by
    have hdate : Time.date ⟨1714557600, 0⟩ = ⟨2024, 5, 1⟩ := by decide +kernel
    simp only [Time.secondText, Time.textWith, hdate]
    simp [Time.yearText, Time.padded, Decimal.digits, Time.secondsPerDay]
    decide +kernel
  obtain ⟨j, hj⟩ : ∃ j, Event.ofJson? j =
      some ⟨old.metadata, Time.ofStamp? (Time.secondText ⟨1714557600, 0⟩), none, none⟩ :=
    ⟨.object [("metadata", .object [("namespace", .string "team"), ("name", .string "first")]),
      ("involvedObject", .object []), ("lastTimestamp", .string "2024-05-01T10:00:00Z")], rfl⟩
  rw [htime] at hj
  obtain ⟨j', hj'⟩ : ∃ j, Event.ofJson? j = some undated :=
    ⟨.object [("metadata", .object [("namespace", .string "team"), ("name", .string "second")]),
      ("involvedObject", .object [])], rfl⟩
  let s : ApiServer := ⟨.ofList [(ApiServer.eventsPath ++ "?" ++ Event.Source.controller.selector,
    [j, j'])], .empty⟩
  let w : Sweep := ⟨fun _ => s, ⟨1714564800, 0⟩, rfl⟩
  have hlisted : (w.server 0).IsListed .controller [old, undated] := by
    have hentered : (w.server 0).lists.get?
        (ApiServer.eventsPath ++ "?" ++ Event.Source.controller.selector) = some [j, j'] :=
      Table.get?_ofList_eq_some_iff.2 ⟨[], [], rfl, fun _ he => (List.not_mem_nil he).elim⟩
    refine ⟨rfl, ?_⟩
    rw [hentered, Option.getD_some, List.mapM_cons, List.mapM_cons, hj, hj']
    rfl
  have hpath : Http.pathOfTarget? (ApiServer.eventPath "team" "first") =
      some "/api/v1/namespaces/team/events/first" := by decide +kernel
  have hrequest : old.deletion? =
      some ⟨"DELETE", "/api/v1/namespaces/team/events/first", none, none⟩ :=
    congrArg (Option.map (ApiRequest.mk "DELETE" · none none)) hpath
  have hdone : s.deletion old = .done := by rw [ApiServer.deletion, hrequest]; rfl
  have hdelete := s.ends_deleteEvent old
  rw [hrequest, hdone] at hdelete
  have hrun := hlisted.ends_events.bind
    (f := fun es => deleteAll (fun _ => s) (Event.expired w.now 3_600_000 es) 0)
    (hdelete.bind (ApiServer.ends_pure 1))
  have hfetch : ApiServer.fetch (w.run .controller 3_600_000) = _ := hrun.fetch
  exact ⟨w, _, _, hlisted, rfl, hfetch.symm, rfl, by decide +kernel,
    hfetch ▸ run_isExact.1 w .controller 3_600_000⟩

end Sweep

end SharedQuota
