import SharedQuota.Cluster.Inventory
import SharedQuota.Options.Settings
import SharedQuota.Proofs.Serving.Rest

/-!
Dry runs that are repeated. The first may release reservations, of one quota after the other, until
one of them denies it. Main statement (`Server.serveAll_dryRun_twice`): the second at the same
instant is answered the same, and it releases nothing.
-/

namespace SharedQuota

open Engine (Advance OwnsAll Reading reading?)

/-! ### Releasing again -/

/-- What a reading has released is not there to be released again. -/
theorem Ledger.pending_again (l m : Ledger) (now : Nat) (quota : String) (s : Snapshot)
    (resources : KeySet ResourceName)
    (h : m.get? quota = (l.pending now quota s resources).2.get? quota) :
    m.pending now quota s resources = ((l.pending now quota s resources).1, m) := by
  have hget : m.get? quota = if (l.unseen now quota s resources).isEmpty then none
      else some (l.unseen now quota s resources) := by
    rw [h, pending, get?_put, if_pos rfl]
  have hunder : m.under quota = l.unseen now quota s resources := by
    rw [under, hget]
    cases l.unseen now quota s resources <;> rfl
  have hunseen : m.unseen now quota s resources = l.unseen now quota s resources := by
    rw [unseen, hunder, unseen, List.filter_filter]
    exact List.filter_congr fun r _ => Bool.and_self _
  have hput : m.put quota (l.unseen now quota s resources) = m :=
    Table.ext_get? fun k => by
      rw [get?_put]
      split
      case isTrue hk => rw [hk, hget]
      case isFalse => rfl
  simp only [pending, hunseen, hput]

/-! ### Stages of a dry run -/

/-- The quotas of which a dry run may still release reservations. -/
def Stage.MayRelease (quota : String) : Stage → Prop
  | .locking charge _ _ | .waiting charge _ _ _ _ => quota ∈ charge.quotas.map (·.name)
  | .checking _ _ _ next => quota ∈ next.map (·.name)
  | .reading _ _ _ a _ next => quota ∈ (a :: next).map (·.name)
  | .surveying _ _ | .comparing _ _ | .releasing _ _ | .finished _ => False
  | _ => True

/-- It reserves nothing, and compares the quotas of its charge in their order. -/
def Stage.IsDry : Stage → Prop
  | .checking charge _ _ next => next <:+ charge.quotas
  | .reading charge _ _ a _ next => a :: next <:+ charge.quotas
  | .reserving _ _ _ => False
  | _ => True

namespace Engine

variable {rules : Rules} {now : Now} {shared shared' : Shared} {ledger : Ledger}
  {stage stage' : Stage} {answer : Answer} {c : Call} {quota : String}

/-- The same comparison when the quota has been compared before. -/
theorem decide_again (r : Reading) (since : Nat) (c : Call)
    (h : ledger.get? r.quota.name = (decide now shared c r.charge r.held r.checked r.quota r.next
      since r.snapshot).1.ledger.get? r.quota.name) :
    decide now { shared with ledger } c r.charge r.held r.checked r.quota r.next since r.snapshot =
      ({ (decide now shared c r.charge r.held r.checked r.quota r.next since r.snapshot).1 with
        ledger },
        (decide now shared c r.charge r.held r.checked r.quota r.next since r.snapshot).2) := by
  have hcheck : check now ledger r.charge r.quota r.snapshot =
      ((check now shared.ledger r.charge r.quota r.snapshot).1, ledger) := by
    simp only [check, Ledger.pending_again shared.ledger ledger now.millis r.quota.name r.snapshot
      r.quota.resources h]
  simp only [decide, hcheck]

theorem isDry_start (name : String) (delta : ResourceList) (listing : List Namespace)
    (quotas : List Quota) : (Charge.start name delta listing quotas).IsDry := by
  rcases start_cases name delta listing quotas with h | h <;> rw [h] <;> trivial

theorem Advance.isDry (h : Advance rules now true shared stage answer shared' stage')
    (hs : stage.IsDry) : stage'.IsDry := by
  cases h with
  | list =>
    simp only [charge]
    split
    case h_1 => trivial
    case h_2 => exact isDry_start ..
  | relist =>
    simp only [relabel]
    split <;> trivial
  | join => exact isDry_start ..
  | locked => exact List.suffix_refl _
  | measure => exact hs
  | clear hr =>
    rcases stage_of_reading? hr with rfl | ⟨since, rfl⟩ <;>
      exact (List.suffix_cons _ _).trans hs
  | pass hdry => cases hdry
  | reserve => exact hs
  | _ => trivial

/-- What may be released later may be so now. -/
theorem Advance.mayRelease (h : Advance rules now true shared stage answer shared' stage')
    (hq : stage'.MayRelease quota) : stage.MayRelease quota := by
  cases h with
  | list | relist | join | reserve | reserved => trivial
  | locked | ask | take | measure => exact hq
  | clear hr =>
    rcases stage_of_reading? hr with rfl | ⟨since, rfl⟩ <;> exact List.mem_cons_of_mem _ hq
  | pass hdry => cases hdry
  | _ => cases hq

theorem Advance.get?_ledger (h : Advance rules now true shared stage answer shared' stage')
    (hq : ¬ stage.MayRelease quota) : shared'.ledger.get? quota = shared.ledger.get? quota := by
  cases h with
  | deny hr | clear hr =>
    have hne : quota ≠ _ := fun heq => hq (by
      rcases stage_of_reading? hr with rfl | ⟨since, rfl⟩ <;>
        exact heq ▸ List.mem_cons_self)
    exact (Ledger.get?_put ..).trans (if_neg hne)
  | reserve => exact absurd trivial hq
  | _ => rfl

/-- Unless usage is compared, a step does not look at the ledger. -/
theorem step_withLedger (hr : reading? rules now c.stage answer = none) (hs : c.stage.IsDry)
    (shared : Shared) (ledger : Ledger) :
    step rules now { shared with ledger } c answer =
      (step rules now shared c answer).map fun r => ({ r.1 with ledger }, r.2) := by
  obtain ⟨dryRun, stage⟩ := c
  cases answer with
  | failed | listed | surveyed => cases stage <;> rfl
  | measured usage =>
    cases stage with
    | reading => cases hr
    | _ => rfl
  | proceed =>
    cases stage with
    | locking charge held next => cases next <;> rfl
    | waiting =>
      simp only [step]
      split <;> rfl
    | checking charge held checked next =>
      cases next with
      | nil =>
        simp only [step]
        split <;> rfl
      | cons a next =>
        simp only [reading?, Option.map_eq_none_iff] at hr
        simp only [step, hr]
        rfl
    | reserving => exact hs.elim
    | releasing held result => cases held <;> rfl
    | _ => rfl

theorem step_of_reading? {r : Reading} (hr : reading? rules now c.stage answer = some r) :
    ∃ since, ∀ shared, step rules now shared c answer =
      some (decide now shared c r.charge r.held r.checked r.quota r.next since r.snapshot) := by
  obtain ⟨dryRun, stage⟩ := c
  simp only [reading?] at hr
  split at hr
  case h_1 =>
    obtain ⟨s, hs, rfl⟩ := Option.map_eq_some_iff.1 hr
    exact ⟨now.millis, fun shared => by simp only [step, hs]⟩
  case h_2 since _ =>
    cases hr
    exact ⟨since, fun shared => rfl⟩
  case h_3 => cases hr

/-- A call that is on its own compares itself with the quota of a name once only. -/
theorem not_mayRelease_decide {locks : Locks} {r : Reading} (since : Nat)
    (hr : reading? rules now c.stage answer = some r) (howns : OwnsAll locks c.stage)
    (hs : c.stage.IsDry) :
    ¬ (decide now shared c r.charge r.held r.checked r.quota r.next since
      r.snapshot).2.1.stage.MayRelease r.quota.name := by
  have hcall : r.quota :: r.next <:+ r.charge.quotas ∧
      Stage.HoldAll locks r.held r.charge.quotas := by
    have hguarded := howns.guarded
    rcases stage_of_reading? hr with hstage | ⟨_, hstage⟩ <;> rw [hstage] at hs hguarded <;>
      exact ⟨hs, hguarded⟩
  have hheld : r.held.Nodup := by
    rw [← handles_of_reading? hr]
    exact howns.owned.nodup_iff.2 howns.sound.ids_nodup
  have hnames := hcall.2.names_nodup howns.sound hheld
  have hfirst := (List.nodup_cons.1 (hnames.sublist (hcall.1.sublist.map _))).1
  simp only [decide]
  split
  case h_1 => exact id
  case h_2 => exact hfirst

/-- A comparison is made again with the same outcome when the ledger has what the first has left of
the quota. The call does not come back to that. -/
theorem compares_again {r : Reading} (hr : reading? rules now c.stage answer = some r)
    (howns : OwnsAll shared.locks c.stage) (hs : c.stage.IsDry) (ledger : Ledger) :
    ∃ next call next' call' reports, step rules now shared c answer = some (next, call, reports) ∧
      step rules now { shared with ledger } c answer = some (next', call', reports) ∧
      ¬ call.stage.MayRelease r.quota.name ∧
      (ledger.get? r.quota.name = next.ledger.get? r.quota.name →
        next' = { next with ledger } ∧ call' = call) := by
  obtain ⟨since, hdecide⟩ := step_of_reading? hr
  refine ⟨_, _, _, _, _, hdecide shared, hdecide _, not_mayRelease_decide since hr howns hs,
    fun hget => ?_⟩
  have hagain := decide_again r since c hget
  exact ⟨congrArg Prod.fst hagain, congrArg (·.2.1) hagain⟩

end Engine

/-! ### Serving -/

namespace Serving

variable {s : Settings} {final : Ledger} {shared shared' : Shared} {r r' : Running}

/-- Where nothing is released any more, the ledger is the final one. -/
def LeadsTo (final : Ledger) (shared : Shared) (c : Call) : Prop :=
  c.dryRun = true → ∀ quota, ¬ c.stage.MayRelease quota →
    final.get? quota = shared.ledger.get? quota

/-- A dry run on its own, and the same one when the ledger is the final one already. -/
structure LikeAgain (final : Ledger) (shared : Shared) (r : Running) (shared' : Shared)
    (r' : Running) : Prop where
  shared_eq : shared' = { shared with ledger := final }
  running_eq : r' = r
  dryRun : r.call.dryRun = true
  isDry : r.call.stage.IsDry
  owns : OwnsAll shared.locks r.call.stage

theorem stepsAlike_again (h : LikeAgain final shared r shared' r') (now : Now)
    (answer : Answer) :
    StepsAlike s (LikeAgain final) (LeadsTo final) now shared r shared' r' answer answer := by
  obtain ⟨rfl, hrunning, hdryRun, hdry, howns⟩ := h
  obtain rfl : r = r' := hrunning.symm
  have hlike {next : Shared} {call : Call} {reports : List Observation}
      (hstep : Engine.step s.rules now shared r.call answer = some (next, call, reports)) :
      LikeAgain final next (r.goOn s now call) { next with ledger := final }
        (r.goOn s now call) := by
    obtain ⟨hadvance, hsame⟩ := Advance.of_step hstep
    rw [hdryRun] at hadvance
    exact ⟨rfl, rfl, hsame.trans hdryRun, hadvance.isDry hdry, howns.advance hadvance⟩
  cases hr : reading? s.rules now r.call.stage answer with
  | none =>
    have hstep' := Engine.step_withLedger hr hdry shared final
    cases hstep : Engine.step s.rules now shared r.call answer with
    | none =>
      rw [hstep] at hstep'
      exact .stops hstep hstep'
    | some o =>
      rw [hstep] at hstep'
      exact .goesOn hstep hstep' rfl fun _ => hlike hstep
  | some reading =>
    obtain ⟨next, call, next', call', reports, hstep, hstep', hnot, hagain⟩ :=
      Engine.compares_again hr howns hdry final
    refine .goesOn hstep hstep' rfl fun hleads => ?_
    -- what the comparison leaves of the quota stays to the end, and so it is there the second time
    have hcall := (Advance.of_step hstep).2.trans hdryRun
    obtain ⟨rfl, rfl⟩ := hagain (hleads hcall reading.quota.name hnot)
    exact hlike hstep

/-- Nothing tells the dry run that is made again from the first. -/
def again (s : Settings) (final : Ledger) : Mirror s where
  Like := LikeAgain final
  Leads := LeadsTo final
  leads step h hdry quota hquota := by
    obtain ⟨hadvance, hsame⟩ := Advance.of_step step
    rw [hdry] at hadvance
    rw [h (hsame.trans hdry) quota (mt hadvance.mayRelease hquota), hadvance.get?_ledger hquota]
  looks like := by
    rw [like.running_eq]
    exact ⟨rfl, rfl, rfl, rfl, rfl, rfl, fun _ => Iff.rfl⟩
  wakeAt like millis := by
    rw [like.shared_eq, like.running_eq]
    rfl
  told {shared r shared' r'} like now round log := by
    have hanswer : nextAnswer ⟨round, shared', log⟩ r' = nextAnswer ⟨round, shared, log⟩ r := by
      rw [like.shared_eq, like.running_eq]
      rfl
    rw [hanswer]
    refine .same (fun reads => ?_) (stepsAlike_again like now) _
    exact ⟨like.shared_eq, by rw [like.running_eq], like.dryRun, like.isDry, like.owns⟩
  cut like now := stepsAlike_again like now _

end Serving

theorem Review.isDry_entry (s : Settings) (review : Review) : (review.entry s).2.IsDry := by
  rcases review.entry_cases s with ⟨_, h⟩ | ⟨work, h⟩
  · rw [h]
    trivial
  · rcases work.start_cases with ⟨_, hstart⟩ | ⟨_, _, hstart⟩ | ⟨_, _, hstart⟩ | ⟨_, _, hstart⟩ <;>
      rw [h, hstart] <;> trivial

/-- A dry run that is made again at the same instant, with the same reads, has the same response and
leaves the ledger as it is. -/
theorem Server.serveAll_dryRun_twice (p : Server) (h : p.shared.locks.AtRest) (delay : Nat)
    (body : Option Json) (views : Views)
    (hdry : ∀ review, body.bind Review.ofJson? = some review → review.request.dryRun = true) :
    let first := p.serveAll [⟨delay, body, views⟩]
    let second := { p with shared := first.1.shared }.serveAll [⟨delay, body, views⟩]
    second.2 = first.2 ∧ second.1.shared.ledger = first.1.shared.ledger ∧
      first.1.shared.locks.AtRest := by
  intro first second
  obtain ⟨shared, hrest, hledger, hfirst⟩ := p.serveAll_of_atRest h delay body views
  obtain ⟨shared', -, hledger', hsecond⟩ :=
    { p with shared := shared }.serveAll_of_atRest hrest delay body views
  have hstart : ∀ review, body.bind Review.ofJson? = some review → ∀ millis,
      Serving.LikeAgain shared.ledger ⟨p.shared.ledger, .empty⟩
        (Serving.entering p.settings views millis review) ⟨shared.ledger, .empty⟩
        (Serving.entering p.settings views millis review) := fun review hbody millis =>
    ⟨rfl, rfl, hdry review hbody, review.isDry_entry p.settings,
      Serving.ownsAll_entering p.settings views millis review⟩
  obtain ⟨shared'', hagain, hended⟩ := (Serving.again p.settings shared.ledger).serveAll
    { p with shared := ⟨p.shared.ledger, .empty⟩ } ⟨shared.ledger, .empty⟩ delay body views views
    rfl hstart fun _ _ _ _ _ _ => by rw [hledger]
  have hfinal : shared''.ledger = shared.ledger := by
    rcases hended with ⟨-, rfl⟩ | ⟨r, r', result, -, hlike⟩
    · rfl
    · rw [hlike.shared_eq]
  have hleft : first.1.shared = shared := congrArg (·.1.shared) hfirst
  have hfrom : second = { p with shared := shared }.serveAll [⟨delay, body, views⟩] := by
    rw [← hleft]
  rw [hfrom, hsecond, hleft]
  refine ⟨?_, ?_, hrest⟩
  · exact (congrArg Prod.snd hagain).trans (congrArg Prod.snd hfirst).symm
  · exact hledger'.trans ((congrArg (·.1.shared.ledger) hagain).trans hfinal)

/-! A dry run of the creation of a config map, while the first of two quotas has a reservation that
has expired and the second has no room. -/

private def dryRunText : Json := .object [
  ("apiVersion", .string "admission.k8s.io/v1"),
  ("kind", .string "AdmissionReview"),
  ("request", .object [
    ("uid", .string "u-4"),
    ("kind", .object [("group", .string ""), ("version", .string "v1"),
      ("kind", .string "ConfigMap")]),
    ("resource", .object [("group", .string ""), ("version", .string "v1"),
      ("resource", .string "configmaps")]),
    ("name", .string "c1"),
    ("namespace", .string "ns"),
    ("operation", .string "CREATE"),
    ("userInfo", .object []),
    ("dryRun", .bool true)])]

private def mapsLimited (name limit : String) : Quota where
  metadata := ⟨some name, none, none, none, none, []⟩
  spec := ⟨none, Table.ofList [("count/configmaps", limit)]⟩
  status := none

private def firstHasRoom : Views := fun _ => Inventory.cluster {
  namespaces := [⟨"ns", Table.empty⟩]
  quotas := [mapsLimited "q1" "5", mapsLimited "q2" "0"]
  usage := Table.empty
  persisted := Table.empty
  manners := fun _ => .plain }

private def oneMapReserved : Reservation where
  namespaceName := "ns"
  usage := .ofPairs [(.objectCount "configmaps" "", .one)]
  visibleAt := .ofPairs [(.objectCount "configmaps" "", .one)]
  reservedAt := ⟨0, 0⟩
  expires := 10

private def reservingServer : Server :=
  { Server.start (({} : Options).settings "controller") ⟨0, 0⟩ with
    shared := ⟨Table.ofList [("q1", [oneMapReserved])], .empty⟩, millis := 20 }

theorem Server.serveAll_dryRun_twice_firstHasRoom :
    let first := reservingServer.serveAll [⟨0, some dryRunText, firstHasRoom⟩]
    let second := { reservingServer with shared := first.1.shared }.serveAll
      [⟨0, some dryRunText, firstHasRoom⟩]
    ((some dryRunText).bind Review.ofJson?).map (·.request.dryRun) = some true ∧
      second.2.1 = first.2.1 ∧ second.1.shared.ledger = first.1.shared.ledger := by
  have hread : ((some dryRunText).bind Review.ofJson?).map (·.request.dryRun) = some true := by
    decide +kernel
  obtain ⟨hsame, hledger, -⟩ := reservingServer.serveAll_dryRun_twice Locks.atRest_empty 0
    (some dryRunText) firstHasRoom fun review hbody => by
      rw [hbody] at hread
      exact Option.some.inj hread
  exact ⟨hread, congrArg Prod.fst hsame, hledger⟩

end SharedQuota
