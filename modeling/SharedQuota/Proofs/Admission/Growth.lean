import SharedQuota.Cluster.Inventory
import SharedQuota.Options.Settings
import SharedQuota.Proofs.Admission.Sign
import SharedQuota.Proofs.Serving.Mirror

/-!
Updates of pods, claims and services.

Main statement (`Server.update_isExact`): what an update is checked for is exactly what each
resource of the new object has more than the old one. One that does not grow is allowed as soon as
it has its turn, whatever is reserved, locked and in use, and nothing is read for it.
-/

namespace SharedQuota

/-! ### What an update grows by -/

/-- An object of a review decodes, and its usage is known. -/
def ReviewedObject.ReadsAs {α : Type} (decode : Json → Option α)
    (extract : α → Except UsageFault ResourceList) (o : Option ReviewedObject)
    (usage : ResourceList) : Prop :=
  ∃ object ∈ o, ∃ a ∈ decode object.toJson, extract a = .ok usage

instance {α : Type} (decode : Json → Option α) (extract : α → Except UsageFault ResourceList)
    (o : Option ReviewedObject) (usage : ResourceList) :
    Decidable (ReviewedObject.ReadsAs decode extract o usage) :=
  decidable_of_iff ((o.bind fun object => (decode object.toJson).map extract) = some (.ok usage))
    (by simp [ReviewedObject.ReadsAs, Option.bind_eq_some_iff, Option.map_eq_some_iff])

/-- The usage of an object whose kind is that of pods, claims or services. -/
def Extractor.Gives (x : Extractor) (kind : Kind) (o : Option ReviewedObject)
    (usage : ResourceList) : Prop :=
  match kind with
  | .pod => ReviewedObject.ReadsAs Pod.ofJson? x.pod o usage
  | .claim => ReviewedObject.ReadsAs Claim.ofJson? x.claim o usage
  | .service => ReviewedObject.ReadsAs Service.ofJson? x.service o usage
  | .namespaceKind | .quota | .objectCount _ => False

instance (x : Extractor) (kind : Kind) (o : Option ReviewedObject) (usage : ResourceList) :
    Decidable (x.Gives kind o usage) :=
  match kind with
  | .pod => inferInstanceAs (Decidable (ReviewedObject.ReadsAs Pod.ofJson? x.pod o usage))
  | .claim => inferInstanceAs (Decidable (ReviewedObject.ReadsAs Claim.ofJson? x.claim o usage))
  | .service =>
    inferInstanceAs (Decidable (ReviewedObject.ReadsAs Service.ofJson? x.service o usage))
  | .namespaceKind | .quota | .objectCount _ => inferInstanceAs (Decidable False)

/-- An update of a pod, a claim or a service in a namespace, both states of which can be read. -/
structure ReviewRequest.Updates (s : Settings) (r : ReviewRequest) (kind : Kind) (name : String)
    (new old : ResourceList) : Prop where
  operation_eq : r.operation = .update
  subResource_eq : r.subResource = none
  ofKind : Kind.ofRequest s.objectCounts r = .ok kind
  inNamespace : Admission.namespaceOf r = .ok name
  gives : s.extractor.Gives kind r.object new
  gave : s.extractor.Gives kind r.oldObject old

namespace Admission

variable {s : Settings} {r : ReviewRequest} {kind : Kind} {name : String} {new old : ResourceList}

theorem workload_of_readsAs {α : Type} {decode : Json → Option α}
    {extract : α → Except UsageFault ResourceList} (hupdate : r.operation = .update)
    (hname : namespaceOf r = .ok name) (hnew : ReviewedObject.ReadsAs decode extract r.object new)
    (hold : ReviewedObject.ReadsAs decode extract r.oldObject old) :
    workload r kind decode extract = .ok (.usage name (new.increaseFrom old)) := by
  have hread {o : Option ReviewedObject} {usage : ResourceList}
      (h : ReviewedObject.ReadsAs decode extract o usage) :
      (object kind decode o >>= fun a => (extract a).mapError (unreadable kind)) = .ok usage := by
    obtain ⟨object, rfl, a, ha, hextract⟩ := h
    have hobject : Admission.object kind decode (some object) = .ok a := by
      rw [Admission.object, Option.mem_def.1 ha]
    rw [hobject]
    change (extract a).mapError _ = _
    rw [hextract]
    rfl
  simp only [workload, hupdate, hread hnew, hread hold, hname]
  rfl

theorem work?_of_updates (h : r.Updates s kind name new old) :
    work? s kind r = .ok (some (.usage name (new.increaseFrom old))) := by
  obtain ⟨hupdate, hwhole, -, hname, hnew, hold⟩ := h
  have hgoes : (r.subResource.isSome || r.operation = .delete || r.operation = .connect) =
      false := by
    simp [hwhole, hupdate]
  rw [work?, hgoes]
  cases kind with
  | pod | claim | service =>
    simp only [Bool.false_eq_true, if_false, workload_of_readsAs hupdate hname hnew hold]
    rfl
  | namespaceKind | quota | objectCount => cases hnew

end Admission

/-- A request is checked for what it grows by, if it grows. -/
theorem Review.entry_of_updates {s : Settings} {review : Review} {kind : Kind} {name : String}
    {new old : ResourceList} (h : review.request.Updates s kind name new old) :
    review.entry s = (kind.text,
      if (new.increaseFrom old).isEmpty then .finished (.ok ())
      else .listing name (new.increaseFrom old)) := by
  simp only [entry, h.ofKind, Admission.start, Admission.work?_of_updates h, Work.start,
    ResourceList.nonZero_increaseFrom]

/-! ### What is allowed at once -/

/-- The response that allows a review. -/
def Review.allowance (review : Review) : Response :=
  ⟨review.apiVersion, review.kind, review.request.uid, .ofResult (.ok ())⟩

namespace Serving

open Mirror (roundOf)

variable {s : Settings} {now : Now} {scene : Scene} {review : Review} {kindText : String}
  {body : Option Json} {views : Views}

/-- A call that has finished is settled at its turn. -/
theorem runningTurn_of_finished {r : Running} {result : Except Denial Unit}
    (hstage : r.call.stage = .finished result) (hreads : r.reads = .none) :
    runningTurn s now scene r = (true, settle s now scene r) := by
  have hadvance : advance s now (stepBound r.views) scene r = (false, scene, r) := by
    obtain ⟨fuel, hfuel⟩ : ∃ fuel, stepBound r.views = fuel + 1 := ⟨_, rfl⟩
    simp only [hfuel, advance, nextAnswer, hstage, hreads, Reads.turn, Engine.step,
      List.append_nil]
  simp only [runningTurn, hadvance, hstage]

/-- A review that needs no work is allowed at its turn, and nothing else is touched. -/
theorem taskTurn_of_allowed {instant : Option Nat} {round : Round}
    (hentry : review.entry s = (kindText, .finished (.ok ())))
    (hover : scene.round.isOver instant = (round, true))
    (hbody : body.bind Review.ofJson? = some review) :
    taskTurn s now scene (.due instant body views) = (true, { scene with
      round
      log := { scene.log with
        observations := scene.log.observations ++
          [.admission kindText review.request.operation.text .allowed 0] } },
      .answered review.allowance) := by
  have hstage : (entering s views now.millis review).call.stage = .finished (.ok ()) := by
    simp only [entering, hentry]
  have hreads : (entering s views now.millis review).reads = .none := by
    simp only [entering, hentry]
    rfl
  rw [taskTurn_due hover hbody, runningTurn_of_finished hstage hreads]
  simp only [settle, answer, entering, hentry, Nat.sub_self, Decision.ofResult]
  cases s.recorder <;> simp [Admission.denied?, Admission.reports, Decision.isAllowed,
    Review.allowance, Decision.ofResult, Reason.outcome]

/-- It is the only round in which the review is there that ends with its answer. -/
theorem roundOf_of_allowed {p : Server} {instant : Option Nat} {round : Round}
    (hentry : review.entry p.settings = (kindText, .finished (.ok ())))
    (hover : (Round.start p.millis).isOver instant = (round, true))
    (hbody : body.bind Review.ofJson? = some review) (log : Log) :
    roundOf p (.due instant body views) log = (true, p, .answered review.allowance, { log with
      observations := log.observations ++
        [.admission kindText review.request.operation.text .allowed 0] }) := by
  have hturn : taskTurn p.settings (Serving.now p) ⟨.start p.millis, p.shared, log⟩
      (.due instant body views) = _ := taskTurn_of_allowed hentry hover hbody
  simp only [roundOf, hturn]
  rfl

/-- Before a review is due time passes to when it is. -/
theorem roundOf_before {p : Server} {delay : Nat} (hdelay : delay ≠ 0) (log : Log) :
    roundOf p (.due (some (p.millis + delay)) body views) log =
      (false, p.pass delay, .due (some (p.millis + delay)) body views, log) := by
  have hover : (Round.start p.millis).isOver (some (p.millis + delay)) =
      (.start p.millis, false) := by
    have hlate : ¬ p.millis + delay ≤ p.millis := by omega
    simp only [Round.isOver, Round.spend?, Round.start, Round.maxUnits, hlate]
    rfl
  have hturn : taskTurn p.settings (Serving.now p) ⟨.start p.millis, p.shared, log⟩
      (.due (some (p.millis + delay)) body views) =
        (false, ⟨.start p.millis, p.shared, log⟩, .due (some (p.millis + delay)) body views) := by
    simp only [taskTurn, hover]
  have hnext : nextInstant ⟨.start p.millis, p.shared, log⟩
      [.due (some (p.millis + delay)) body views] = p.millis + delay := by
    change max p.millis (p.millis + delay) = _
    omega
  simp only [roundOf, hturn, hnext]
  rfl

end Serving

open Serving
open Serving.Mirror (boundsLeft loop_singleton)

/-- A review that needs no work leaves no trace but the report of it. -/
theorem Server.serveAll_of_allowed (p : Server) {review : Review} {kindText : String}
    {body : Option Json} (hentry : review.entry p.settings = (kindText, .finished (.ok ())))
    (hbody : body.bind Review.ofJson? = some review) (delay : Nat) (views : Views) :
    p.serveAll [⟨delay, body, views⟩] = (p.pass delay, [review.allowance],
      ⟨[.admission kindText review.request.operation.text .allowed 0], [], [], []⟩) := by
  have hloop : loop (stepsBound [views]) (roundBound [.due none none views]) p
      [.due (if delay = 0 then none else some (p.millis + delay)) body views] Log.empty =
        (p.pass delay, [.answered review.allowance],
          ⟨[.admission kindText review.request.operation.text .allowed 0], [], [], []⟩) := by
    by_cases hdelay : delay = 0
    · subst hdelay
      rw [if_pos rfl, loop_singleton, roundOf_of_allowed hentry rfl hbody]
      rfl
    · have hover : (Round.start (p.millis + delay)).isOver (some (p.millis + delay)) =
          (⟨p.millis + delay, Round.maxUnits - 1, false⟩, true) := by
        simp [Round.isOver, Round.spend?, Round.start, Round.maxUnits]
      rw [if_neg hdelay, loop_singleton, roundOf_before hdelay]
      dsimp only
      have hbounds : boundsLeft false (.due (some (p.millis + delay)) body views)
          (stepsBound [views]) (roundBound [.due none none views]) =
            some (stepsBound [views], 7) := rfl
      rw [hbounds]
      dsimp only
      rw [loop_singleton, roundOf_of_allowed (p := p.pass delay) hentry hover hbody]
      rfl
  obtain ⟨response, hserved, hresponses⟩ := p.serveAll_singleton delay body views
  obtain ⟨hserver, hrest⟩ := Prod.mk.inj (hloop.symm.trans hserved)
  obtain ⟨hanswered, hlog⟩ := Prod.mk.inj hrest
  cases hanswered
  rw [hserver, hlog, ← hresponses]

/-- So it is among any other texts that are served side by side with it. -/
theorem Server.allowance_of_serveAll (p : Server) {review : Review} {kindText : String}
    (hentry : review.entry p.settings = (kindText, .finished (.ok ()))) {arrivals : List Arrival}
    {i : Nat} {a : Arrival} (ha : arrivals[i]? = some a)
    (hbody : a.body.bind Review.ofJson? = some review) :
    (p.serveAll arrivals).2.1[i]? = some review.allowance ∧
      .admission kindText review.request.operation.text .allowed 0 ∈
        (p.serveAll arrivals).2.2.observations := by
  obtain ⟨served, order, hresponses, hbatch, -⟩ := p.serves arrivals
  obtain ⟨v, hv, hgiven, houtcome, hreports⟩ := hbatch.exists_served
    (g := (a.body, a.views, p.millis + a.delay)) (by rw [List.getElem?_map, ha]; rfl)
  have hreview : v.review? = some review := by
    rw [Served.review?, ← hbody]
    exact congrArg (·.1.bind Review.ofJson?) hgiven
  simp only [Served.IsOutcome, hreview, hentry] at houtcome
  obtain ⟨moments, hjourney⟩ := houtcome
  obtain ⟨-, hended, hresult⟩ := hjourney.eq_of_finished
  have hallowed : v.decision = .ofResult (.ok ()) := by
    rw [Served.decision, Stage.finished.inj hresult]
  constructor
  · rw [hresponses, List.getElem?_map, hv, Option.map_some, Served.response, hreview, hallowed]
    rfl
  · refine hreports _ ?_
    simp only [Served.reports, hreview, hentry, hallowed, hended, Nat.sub_self]
    exact List.mem_cons_self

/-! ### Updates -/

/-- An update is checked for what each resource of the new object has more than the old one, and
for nothing else. If that is nothing, it is allowed at its turn, which touches neither locks nor
reservations and reads nothing, whatever the cluster would answer. -/
theorem Server.update_isExact (p : Server) {review : Review} {kind : Kind} {name : String}
    {new old : ResourceList} (h : review.request.Updates p.settings kind name new old) :
    ((∀ r, new.amount r ≤ old.amount r) → ∀ body, body.bind Review.ofJson? = some review →
      let report := .admission kind.text "UPDATE" .allowed 0
      (∀ now scene instant round views, scene.round.isOver instant = (round, true) →
        taskTurn p.settings now scene (.due instant body views) = (true, { scene with
          round
          log := { scene.log with observations := scene.log.observations ++ [report] } },
          .answered review.allowance)) ∧
      (∀ delay views, p.serveAll [⟨delay, body, views⟩] =
        (p.pass delay, [review.allowance], ⟨[report], [], [], []⟩)) ∧
      ∀ (arrivals : List Arrival) (i : Nat) (a : Arrival), arrivals[i]? = some a → a.body = body →
        (p.serveAll arrivals).2.1[i]? = some review.allowance ∧
          report ∈ (p.serveAll arrivals).2.2.observations) ∧
    ∃ delta, Admission.work? p.settings kind review.request = .ok (some (.usage name delta)) ∧
      (review.entry p.settings).2 =
        (if delta.isEmpty then .finished (.ok ()) else .listing name delta) ∧
      ∀ r, (delta.get? r).map (·.nanos) =
        if new.contains r = true ∧ old.amount r < new.amount r then
          some (min ((new.amount r).nanos - (old.amount r).nanos) (2 ^ 127 - 1))
        else none := by
  have hentry := Review.entry_of_updates h
  refine ⟨fun hgrew body hbody => ?_, _, Admission.work?_of_updates h, by rw [hentry],
    ResourceList.map_nanos_get?_increaseFrom new old⟩
  rw [ResourceList.increaseFrom_eq_empty hgrew] at hentry
  have htext : review.request.operation.text = "UPDATE" := by rw [h.operation_eq]; rfl
  refine ⟨fun now scene instant round views hover => ?_, fun delay views => ?_,
    fun arrivals i a ha hab => ?_⟩
  · rw [taskTurn_of_allowed hentry hover hbody, htext]
  · rw [p.serveAll_of_allowed hentry hbody, htext]
  · subst hab
    exact htext ▸ p.allowance_of_serveAll hentry ha hbody

namespace Server

/-! A pod comes to request less memory and no cores any more while no list of the cluster can be
read. -/

private def podText (requests : List (String × Json)) : Json := .object [
  ("apiVersion", .string "v1"),
  ("kind", .string "Pod"),
  ("spec", .object [("containers", .array [
    .object [("resources", .object [("requests", .object requests)])]])])]

private def podShrinksText : Json := .object [
  ("apiVersion", .string "admission.k8s.io/v1"),
  ("kind", .string "AdmissionReview"),
  ("request", .object [
    ("uid", .string "u-1"),
    ("kind", .object [("group", .string ""), ("version", .string "v1"), ("kind", .string "Pod")]),
    ("resource", .object [("group", .string ""), ("version", .string "v1"),
      ("resource", .string "pods")]),
    ("name", .string "p"),
    ("namespace", .string "ns"),
    ("operation", .string "UPDATE"),
    ("userInfo", .object []),
    ("object", podText [("memory", .string "1Gi")]),
    ("oldObject", podText [("cpu", .string "2"), ("memory", .string "2Gi")])])]

private def podReviewed (requests : List (String × Json)) : ReviewedObject where
  type := some ("v1", "Pod")
  metadata := .empty
  data := [("spec", .object [("containers", .array [
    .object [("resources", .object [("requests", .object requests)])]])])]

private def podShrinks : Review where
  apiVersion := "admission.k8s.io/v1"
  kind := "AdmissionReview"
  request := {
    uid := "u-1"
    kind := ⟨"", "v1", "Pod"⟩
    resource := ⟨"", "v1", "pods"⟩
    subResource := none
    name := "p"
    namespaceName := some "ns"
    operation := .update
    dryRun := false
    object := some (podReviewed [("memory", .string "1Gi")])
    oldObject := some (podReviewed [("cpu", .string "2"), ("memory", .string "2Gi")]) }

private def podRequesting (requests : List (String × Int)) : ResourceList :=
  .ofPairs ([(.pods, .one), (.objectCount "pods" "", .one)] ++
    requests.map fun (r, units) => (.requests r, .ofUnits units))

private def usualQuotaServer : Server := start (({} : Options).settings "controller") ⟨0, 0⟩

private def panicsAlways : Views := fun _ => Inventory.cluster {
  namespaces := []
  quotas := []
  usage := Table.empty
  persisted := Table.empty
  manners := fun _ => ⟨0, true, none⟩ }

theorem update_isExact_podShrinks :
    usualQuotaServer.serveAll [⟨0, some podShrinksText, panicsAlways⟩] =
      (usualQuotaServer, [podShrinks.allowance],
        ⟨[.admission "pod" "UPDATE" .allowed 0], [], [], []⟩) := by
  let new := podRequesting [("memory", 1 <<< 30)]
  let old := podRequesting [("cpu", 2), ("memory", 1 <<< 31)]
  have hupdates : podShrinks.request.Updates usualQuotaServer.settings .pod "ns" new old :=
    ⟨rfl, rfl, rfl, rfl, by decide +kernel, by decide +kernel⟩
  have hless : ∀ r, new.amount r ≤ old.amount r :=
    ResourceList.le_of_increaseFrom_isEmpty (by decide +kernel) (by decide +kernel)
  have hbody : (some podShrinksText).bind Review.ofJson? = some podShrinks := rfl
  exact ((update_isExact usualQuotaServer hupdates).1 hless _ hbody).2.1 0 panicsAlways

end Server

end SharedQuota
