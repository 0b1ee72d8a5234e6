import SharedQuota.Cluster.Inventory
import SharedQuota.Options.Settings
import SharedQuota.Proofs.Admission.Sign
import SharedQuota.Proofs.Engine.Applicable
import SharedQuota.Proofs.Serving.Rounds
import SharedQuota.Proofs.Snapshot
import SharedQuota.Proofs.Time.Latest

/-!
Reviews under their deadline. Main statement (`Server.failsClosed`): a review that adds usage is
answered by its deadline, and it is denied if anything that it has read, or a lock that it has
waited for, fails or is late. What it has read and waited for is read off the steps that are taken
for it while the reviews are served.
-/

namespace SharedQuota

open Engine (Advance)
open Serving

theorem Reason.code_eq_500_iff {r : Reason} : r.code = 500 ↔ r = .serviceUnavailable := by
  cases r <;> simp [Reason.code]

/-- The call adds usage: it is still on its way, or it has been allowed, denied for an excess, or
denied for a failure. -/
def Stage.AddsUsage : Stage → Prop
  | .relabelling _ _ | .surveying _ _ | .comparing _ _ | .joining _ _ _ _ => False
  | .releasing _ result | .finished result =>
    (Decision.ofResult result).reason ∈ [.allowed, .quotaExceeded, .serviceUnavailable]
  | _ => True

namespace Stage

variable {rules : Rules} {now : Now} {dryRun : Bool} {shared shared' : Shared}
  {stage stage' : Stage} {answer : Answer} {views : Views} {deadline since : Nat}

theorem addsUsage_charge (x : Exclusions) (name : String) (delta : ResourceList)
    (namespaces : List Namespace) (quotas : List Quota) :
    (Engine.charge x name delta namespaces quotas).AddsUsage := by
  simp only [Engine.charge]
  split
  case h_1 => exact List.mem_cons_self
  case h_2 =>
    rcases Engine.start_cases name delta namespaces _ with h | h <;> rw [h]
    · exact List.mem_cons_self
    · trivial

theorem AddsUsage.advance (h : stage.AddsUsage)
    (htells : stage.Tells rules.exclusions views deadline since now.millis answer)
    (hadvance : Advance rules now dryRun shared stage answer shared' stage') :
    stage'.AddsUsage := by
  cases hadvance with
  | fail =>
    have hreason := Asked.Tells.reason htells
    simp [AddsUsage, Decision.ofResult, hreason]
  | list => exact addsUsage_charge ..
  | deny => simp [AddsUsage, Decision.ofResult, Denial.reason]
  | passDry | reserved => simp [AddsUsage, Decision.ofResult]
  | release | finish => exact h
  | relist | survey | compare | join => exact h.elim
  | _ => trivial

end Stage

theorem Journey.addsUsage {rules : Rules} {views : Views} {dryRun : Bool}
    {deadline since ended : Nat} {stage last : Stage} {moments : List Moment}
    (h : Journey rules views dryRun deadline since stage moments ended last)
    (hstage : stage.AddsUsage) : last.AddsUsage := by
  induction h with
  | nil => exact hstage
  | cons _ _ tells step _ ih => exact ih (hstage.advance tells step)

/-- The stage in which a review starts that adds usage. -/
theorem Review.entry_of_workOf? {s : Settings} {review : Review} {name : String}
    {delta : ResourceList} (hwork : Admission.workOf? s review.request = some (.usage name delta))
    (hdelta : delta.nonZero.isEmpty = false) :
    (review.entry s).2 = .listing name delta.nonZero := by
  obtain ⟨kind, hkind, -, hwork⟩ := Admission.ok_of_workOf? hwork
  simp [Review.entry, hkind, Admission.start, hwork, Work.start, hdelta]

/-! ### Past a quota -/

section

variable {rules : Rules} {now : Now} {dryRun : Bool} {shared shared' : Shared}
  {stage stage' : Stage} {answer : Answer} {views : Views} {deadline since ended : Nat}
  {listing : List Namespace} {a : Applicable}

/-- The call has not come past a quota yet. -/
def Stage.IsBefore (listing : List Namespace) (a : Applicable) : Stage → Prop
  | .locking charge _ _ | .waiting charge _ _ _ _ =>
    charge.listing = listing ∧ charge.quotas.head? = some a
  | .checking charge _ _ next => charge.listing = listing ∧ next.head? = some a
  | .reading charge _ _ b _ _ => charge.listing = listing ∧ b = a
  | _ => False

/-- No reading of the quota can be taken from its status. -/
def Applicable.IsUnrecorded (rules : Rules) (listing : List Namespace) (now : Now)
    (a : Applicable) : Prop :=
  Snapshot.ofStatus? a.quota (Scope.resolve rules.exclusions a.quota listing) a.resources
    rules.staleness now.wall = none

/-- Not all of the usage in the scope of the quota can be read in time, whenever it is asked for and
in whichever view. -/
def Applicable.IsUnread (rules : Rules) (listing : List Namespace) (views : Views) (deadline : Nat)
    (a : Applicable) : Prop :=
  ∀ view since, ¬ (Asked.usage (Scope.resolve rules.exclusions a.quota listing).aggregated.toList
    a.resources).Succeeds (views view) since deadline

theorem Stage.IsBefore.advance (h : stage.IsBefore listing a)
    (hstatus : a.IsUnrecorded rules listing now) (hreads : a.IsUnread rules listing views deadline)
    (htells : stage.Tells rules.exclusions views deadline since now.millis answer)
    (hle : now.millis ≤ deadline) (hnot : ∀ denial, answer ≠ .failed denial)
    (hadvance : Advance rules now dryRun shared stage answer shared' stage') :
    stage'.IsBefore listing a := by
  cases hadvance with
  | fail => exact absurd rfl (hnot _)
  | locked | ask | take => exact h
  | measure => exact ⟨h.1, Option.some.inj h.2⟩
  | deny hr | clear hr =>
    rcases Engine.stage_of_reading? hr with rfl | ⟨began, rfl⟩
    · -- compared with the status
      obtain ⟨rfl, hhead⟩ := h
      obtain rfl := Option.some.inj hhead
      rw [Applicable.IsUnrecorded] at hstatus
      cases answer <;> simp [Engine.reading?, hstatus] at hr
    · -- compared with what was read
      obtain ⟨rfl, rfl⟩ := h
      exact absurd (Asked.Tells.succeeds htells hle hnot) (hreads _ _)
  | passDry | pass => cases h.2
  | _ => exact h.elim

/-- Where the status of a quota is of no use, no call comes past the quota without its usage. -/
theorem Journey.exists_failure {moments : List Moment} {result : Except Denial Unit}
    (h : Journey rules views dryRun deadline since stage moments ended (.finished result))
    (hstage : stage.IsBefore listing a)
    (hstatus : ∀ t ∈ moments, a.IsUnrecorded rules listing t.now)
    (hreads : a.IsUnread rules listing views deadline) : ∃ t ∈ moments, t.IsFailure := by
  generalize hlast : Stage.finished result = last at h
  induction h with
  | nil => exact (hlast ▸ hstage).elim
  | @cons _ now answer _ _ _ _ moments _ _ _ inTime tells step _ ih =>
    obtain ⟨hfirst, hrest⟩ := List.forall_mem_cons.1 hstatus
    -- The call stays before the quota for as long as it is told of no failure.
    by_cases hnot : ∀ denial, answer ≠ .failed denial
    · obtain ⟨t, ht, hfails⟩ := ih
        (hstage.advance hfirst hreads tells inTime hnot step) hrest hlast
      exact ⟨t, List.mem_cons_of_mem _ ht, hfails⟩
    · push Not at hnot
      exact ⟨_, List.mem_cons_self, hnot⟩

theorem Journey.exists_failure_of_listing {name : String} {delta : ResourceList}
    {quotas : List Quota} {moments : List Moment} {result : Except Denial Unit}
    (h : Journey rules views dryRun deadline since (.listing name delta) moments ended
      (.finished result))
    (hlisting : (views 0).namespaces.answer = .ok listing)
    (hquotas : (views 0).quotas.answer = .ok quotas)
    (hcharge : (Engine.charge rules.exclusions name delta listing quotas).IsBefore listing a)
    (hstatus : ∀ t ∈ moments, a.IsUnrecorded rules listing t.now)
    (hreads : a.IsUnread rules listing views deadline) : ∃ t ∈ moments, t.IsFailure := by
  cases h with
  | cons _ _ tells step rest =>
    cases step with
    | fail => exact ⟨_, List.mem_cons_self, _, rfl⟩
    | deny hr | clear hr =>
      rcases Engine.stage_of_reading? hr with hstage | ⟨_, hstage⟩ <;> cases hstage
    | list =>
      cases tells with
      | listed hgives hgivesQuotas =>
        obtain rfl := Except.ok.inj (hlisting.symm.trans hgives.1)
        obtain rfl := Except.ok.inj (hquotas.symm.trans hgivesQuotas.1)
        obtain ⟨t, ht, hfails⟩ := rest.exists_failure hcharge
          (fun t ht => hstatus t (List.mem_cons_of_mem _ ht)) hreads
        exact ⟨t, List.mem_cons_of_mem _ ht, hfails⟩

end

namespace Server

/-- A review that adds usage is answered by its deadline. Of all steps, which are taken one after
the other, those that are taken for it are the way of its call to its result. It is answered with
the code of a failure exactly if its call is told of one at one of them, and otherwise all that it
has asked for has answered in time, and it has got each lock that it has waited for. -/
theorem failsClosed (p : Server) {arrivals : List Arrival} {i : Nat} {a : Arrival} {review : Review}
    {name : String} {delta : ResourceList} (ha : arrivals[i]? = some a)
    (hbody : a.body.bind Review.ofJson? = some review)
    (hwork : Admission.workOf? p.settings review.request = some (.usage name delta))
    (hdelta : delta.nonZero.isEmpty = false) :
    ∃ result ended,
      let start := p.millis + a.delay
      let deadline := start + p.settings.timeout
      let decision := Decision.ofResult result
      let steps := p.stepsOf arrivals i
      let moments := steps.map Step.moment
      let asked := inquiries p.settings.rules.exclusions start moments
      (p.serveAll arrivals).2.1[i]? =
        some ⟨review.apiVersion, review.kind, review.request.uid, decision⟩ ∧
      Course p.settings.rules p.startedAt p.shared (p.steps arrivals)
        (p.serveAll arrivals).1.shared ∧
      steps.Sublist (p.steps arrivals) ∧
      Journey p.settings.rules a.views review.request.dryRun deadline start
        (.listing name delta.nonZero) moments ended (.finished result) ∧
      ended ≤ deadline ∧
      .admission (review.entry p.settings).1 review.request.operation.text decision.reason.outcome
        (ended - start) ∈ (p.serveAll arrivals).2.2.observations ∧
      (decision.reason.code = 500 ↔ ∃ t ∈ moments, t.IsFailure) ∧
      (decision.reason.code ≠ 500 → (∀ q ∈ asked, q.Succeeds a.views deadline) ∧
        (∀ e ∈ steps, e.HasLock) ∧
        (decision.isAllowed = true ∨ decision.reason.code = 403)) := by
  obtain ⟨served, order, hresponses, hbatch, hways⟩ := p.serves arrivals
  have hgiven : (arrivals.map fun a => (a.body, a.views, p.millis + a.delay))[i]? =
      some (a.body, a.views, p.millis + a.delay) := by
    rw [List.getElem?_map, ha]
    rfl
  obtain ⟨v, hv, hvgiven, -, hreports⟩ := hbatch.exists_served hgiven
  obtain ⟨hvbody, hviews, hstarted⟩ :
      v.body = a.body ∧ v.views = a.views ∧ v.started = p.millis + a.delay := by
    simpa [Served.given] using hvgiven
  have hreview : v.review? = some review := by rw [Served.review?, hvbody, hbody]
  have hjourney := hways i v hv
  simp only [Served.Came, hreview, hviews, hstarted] at hjourney
  rw [Review.entry_of_workOf? hwork hdelta, ← map_moment_stepsOf] at hjourney
  have hfailure : (Decision.ofResult v.result).reason.code = 500 ↔
      ∃ t ∈ (p.stepsOf arrivals i).map Step.moment, t.IsFailure := by
    rw [Reason.code_eq_500_iff]
    exact hjourney.isUnavailable_iff.trans (or_iff_right id)
  have hadds : (Decision.ofResult v.result).reason ∈
      [.allowed, .quotaExceeded, .serviceUnavailable] :=
    hjourney.addsUsage trivial
  refine ⟨v.result, v.ended, ?_, p.course arrivals, p.stepsOf_sublist arrivals i, hjourney,
    hjourney.le_deadline (Nat.le_add_right ..), ?_, hfailure, fun hcode => ⟨?_, ?_, ?_⟩⟩
  · rw [hresponses, List.getElem?_map, hv]
    simp [Served.response, hreview, Served.decision]
  · refine hreports _ ?_
    simp only [Served.reports, hreview, hstarted]
    exact List.mem_cons_self
  · exact hjourney.succeeds fun t ht hfails => hcode (hfailure.2 ⟨t, ht, hfails⟩)
  · intro e he
    refine (p.course arrivals).hasLock ((p.stepsOf_sublist arrivals i).subset he) fun hfails => ?_
    exact hcode (hfailure.2 ⟨e.moment, List.mem_map_of_mem he, hfails⟩)
  · simp only [List.mem_cons, List.not_mem_nil, or_false] at hadds
    rcases hadds with h | h | h
    · exact .inl (by simp [Decision.isAllowed, h])
    · exact .inr (by rw [h]; rfl)
    · exact absurd (by rw [h]; rfl) hcode

/-! A config map is created under a quota whose status is older than it may be, while reading usage
panics. -/

private def configMapText : Json := .object [
  ("apiVersion", .string "admission.k8s.io/v1"),
  ("kind", .string "AdmissionReview"),
  ("request", .object [
    ("uid", .string "u-1"),
    ("kind", .object [("group", .string ""), ("version", .string "v1"),
      ("kind", .string "ConfigMap")]),
    ("resource", .object [("group", .string ""), ("version", .string "v1"),
      ("resource", .string "configmaps")]),
    ("name", .string "c1"),
    ("namespace", .string "ns"),
    ("operation", .string "CREATE"),
    ("userInfo", .object [])])]

private def configMapRequest : ReviewRequest where
  uid := "u-1"
  kind := ⟨"", "v1", "ConfigMap"⟩
  resource := ⟨"", "v1", "configmaps"⟩
  subResource := none
  name := "c1"
  namespaceName := some "ns"
  operation := .create
  dryRun := false
  object := none
  oldObject := none

private def oneConfigMap : ResourceList :=
  .ofPairs [(.objectCount "configmaps" "", .one)]

private def onlyNamespace : List Namespace := [⟨"ns", Table.empty⟩]

private def writtenMaps (n : String) : WrittenAmounts := Table.ofList [("count/configmaps", n)]

private def staleQuota : Quota where
  metadata := { Metadata.empty with name := some "team" }
  spec := ⟨none, writtenMaps "10"⟩
  status := some ⟨⟨writtenMaps "10", writtenMaps "1"⟩, [⟨"ns", writtenMaps "1"⟩],
    some "1970-01-01T00:00:00Z"⟩

private def panicsOnUsage : Views := fun _ => Inventory.cluster {
  namespaces := onlyNamespace
  quotas := [staleQuota]
  usage := Table.empty
  persisted := Table.empty
  manners := fun read => if read = .usage "ns" then ⟨0, true, none⟩ else .plain }

private def usualServer : Server := start (({} : Options).settings "controller") ⟨90, 0⟩

private def configMapArrives : Arrival := ⟨0, some configMapText, panicsOnUsage⟩

private theorem isUnrecorded_staleQuota {a : Applicable} (ha : a.quota = staleQuota)
    {listing : List Namespace} {now : Now} {ms : Nat}
    (hwall : now.wall = usualServer.startedAt.plusMillis ms) :
    a.IsUnrecorded usualServer.settings.rules listing now := by
  refine Option.eq_none_iff_forall_ne_some.2 fun s h => ?_
  rw [ha, hwall] at h
  obtain ⟨synced, -, -, hsynced, hfresh, -⟩ := Snapshot.ofStatus?_eq_some_iff.1 h
  have hwritten : staleQuota.lastSync.bind Time.ofRfc3339? = some ⟨0, 0⟩ := by decide +kernel
  obtain rfl := Option.some.inj (hwritten.symm.trans hsynced)
  have hage := Time.since_of_not_isLeap (Time.isLeap_plusMillis usualServer.startedAt ms)
    (rfl : Time.isLeap ⟨0, 0⟩ = false)
  rw [Time.nanos_plusMillis] at hage
  have hstarted : usualServer.startedAt.nanos = 90_000_000_000 := rfl
  have hzero : Time.nanos ⟨0, 0⟩ = 0 := rfl
  have hstaleness : usualServer.settings.rules.staleness = 15_000 := rfl
  simp only [Snapshot.isFresh, Bool.and_eq_true, decide_eq_true_eq, hstaleness] at hfresh
  omega

private theorem isUnread_staleQuota {a : Applicable} (ha : a.quota = staleQuota) {deadline : Nat} :
    a.IsUnread usualServer.settings.rules onlyNamespace panicsOnUsage deadline := by
  intro view since hsucceeds
  rw [ha] at hsucceeds
  obtain ⟨_, hanswer, -⟩ := hsucceeds "ns" (by decide +kernel)
  cases hanswer

private theorem charge_staleQuota : ∃ a : Applicable, a.quota = staleQuota ∧
    (Engine.charge usualServer.settings.rules.exclusions "ns" oneConfigMap.nonZero onlyNamespace
      [staleQuota]).IsBefore onlyNamespace a := by
  obtain ⟨a, ha⟩ : ∃ a, Applicable.of? oneConfigMap.nonZero staleQuota = some a :=
    Option.isSome_iff_exists.1 (by decide +kernel)
  have hfind : onlyNamespace.find? (·.name == "ns") = some ⟨"ns", Table.empty⟩ := rfl
  have hselected : [staleQuota].filter
      (usualServer.settings.rules.exclusions.selects ·.spec.selector ⟨"ns", Table.empty⟩) =
        [staleQuota] := List.filter_cons_of_pos (by decide +kernel)
  refine ⟨a, (Applicable.of_of? ha).1, ?_⟩
  simp [Engine.charge, hfind, hselected, Charge.start, Applicable.sorted, ha, Stage.IsBefore]

theorem failsClosed_staleStatus :
    ∃ message, (usualServer.serveAll [configMapArrives]).2.1[0]? =
      some ⟨"admission.k8s.io/v1", "AdmissionReview", "u-1", ⟨.serviceUnavailable, message⟩⟩ := by
  have hbody : configMapArrives.body.bind Review.ofJson? =
      some ⟨"admission.k8s.io/v1", "AdmissionReview", configMapRequest⟩ := rfl
  have hwork : Admission.workOf? usualServer.settings configMapRequest =
      some (.usage "ns" oneConfigMap) := rfl
  obtain ⟨result, ended, hresponse, hcourse, hsublist, hjourney, -, -, hfailure, -⟩ :=
    @failsClosed usualServer [configMapArrives] 0 configMapArrives _ "ns" oneConfigMap rfl hbody
      hwork (by decide +kernel)
  obtain ⟨a, hquota, hcharge⟩ := charge_staleQuota
  have hstatus : ∀ t ∈ (usualServer.stepsOf [configMapArrives] 0).map Step.moment,
      a.IsUnrecorded usualServer.settings.rules onlyNamespace t.now := fun t ht => by
    obtain ⟨e, he, rfl⟩ := List.mem_map.1 ht
    exact isUnrecorded_staleQuota hquota (hcourse.clock_eq (hsublist.subset he))
  have hfails := hjourney.exists_failure_of_listing rfl rfl hcharge hstatus
    (isUnread_staleQuota hquota)
  refine ⟨(Decision.ofResult result).message, ?_⟩
  rw [hresponse, ← Reason.code_eq_500_iff.1 (hfailure.2 hfails)]
  rfl

end Server

end SharedQuota
