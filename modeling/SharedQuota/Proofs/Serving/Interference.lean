import SharedQuota.Cluster.Inventory
import SharedQuota.Options.Settings
import SharedQuota.Proofs.Admission.Sign
import SharedQuota.Proofs.Except
import SharedQuota.Proofs.Serving.Alike

/-!
Namespaces that are excluded do not interfere. Main statement (`Server.excluded_not_read`): what
they use changes nothing in the answer to a review, in what it reserves and in what is read for it,
and whatever the quotas select or record, nothing on its way asks for their usage.
-/

namespace SharedQuota

open Engine (Advance)

/-! ### What a call asks for -/

section

variable {x : Exclusions} {hidden : String → Prop} {views : Views} {stage stage' last : Stage}
  {names : List String} {resources : KeySet ResourceName}

/-- The stage reads the usage of a namespace. -/
def Stage.AsksFor (x : Exclusions) (stage : Stage) (name : String) : Prop :=
  ∃ names resources, stage.asked x = .usage names resources ∧ name ∈ names

theorem Stage.Alike.not_asksFor {name : String} (h : stage.Alike x hidden stage')
    (hname : hidden name) : ¬ stage.AsksFor x name := by
  rintro ⟨names, resources, hasked, hmem⟩
  cases h with
  | comparing hnames =>
    cases hasked
    exact hnames name hmem hname
  | joining hread =>
    cases hasked
    rw [List.mem_singleton.1 hmem] at hname
    exact hread hname
  | @reading c c' held checked a since next hcharge =>
    cases hasked
    exact hcharge.listing.not_hidden a.quota name hmem hname
  | _ => cases hasked

theorem ReadAlike.of_ok {α : Type} {R : α → α → Prop} {f : Fetch α} {since now : Nat} {a : α}
    (h : ReadAlike R f.answer f.answer) (hgives : f.Gives since now a) : R a a := by
  rw [hgives.1] at h
  cases h with
  | ok h => exact h

/-- What a call is told in views that are like themselves leads to a stage that is so. -/
theorem Stage.Alike.advance {rules : Rules} {now : Now} {dryRun : Bool} {shared shared' : Shared}
    {answer : Answer} {deadline since : Nat} (hviews : views.Alike rules.exclusions hidden views)
    (h : stage.Alike rules.exclusions hidden stage)
    (htells : stage.Tells rules.exclusions views deadline since now.millis answer)
    (hadvance : Advance rules now dryRun shared stage answer shared' stage') :
    stage'.Alike rules.exclusions hidden stage' := by
  cases hadvance with
  | fail | passDry | reserved | release | deny => exact .releasing
  | finish | compare => exact .finished
  | list =>
    obtain _ | ⟨hnamespaces, hquotas⟩ := htells
    exact Engine.charge_alike (hviews.namespaces.answer.of_ok hnamespaces)
      (hviews.quotas.answer.of_ok hquotas)
  | relist =>
    obtain _ | ⟨hnamespaces, hquotas⟩ := htells
    cases h with
    | relabelling hnew =>
      exact Engine.relabel_alike hnew (hviews.namespaces.answer.of_ok hnamespaces)
        (hviews.quotas.answer.of_ok hquotas)
  | @survey proposed limits namespaces =>
    obtain _ | _ | hnamespaces := htells
    exact .comparing ((hviews.namespaces.answer.of_ok hnamespaces).not_hidden proposed)
  | join =>
    cases h with
    | joining hname hlisting hjoined => exact Engine.start_alike hlisting hjoined
  | locked => cases h with | locking hcharge => exact .checking hcharge
  | ask => cases h with | locking hcharge => exact .waiting hcharge
  | take => cases h with | waiting hcharge => exact .locking hcharge
  | measure => cases h with | checking hcharge => exact .reading hcharge
  | clear hr =>
    rcases Engine.stage_of_reading? hr with rfl | ⟨_, rfl⟩
    · cases h with | checking hcharge => exact .checking hcharge
    · cases h with | reading hcharge => exact .checking hcharge
  | pass => cases h with | checking hcharge => exact .reserving hcharge
  | reserve => cases h with | reserving hcharge => exact .reserving hcharge

/-- On the whole way of a call nothing hidden is read. -/
theorem Journey.not_asksFor {rules : Rules} {dryRun : Bool} {deadline since ended : Nat}
    {moments : List Moment} (hviews : views.Alike rules.exclusions hidden views)
    (h : Journey rules views dryRun deadline since stage moments ended last)
    (hstage : stage.Alike rules.exclusions hidden stage) :
    ∀ passed ∈ moments.map Moment.stage ++ [last], ∀ name, hidden name →
      ¬ passed.AsksFor rules.exclusions name := by
  induction h with
  | nil =>
    intro passed hpassed name hname
    rw [List.mem_singleton.1 hpassed]
    exact hstage.not_asksFor hname
  | cons _ _ tells step _ ih =>
    intro passed hpassed name hname
    rcases List.mem_cons.1 hpassed with rfl | hpassed
    · exact hstage.not_asksFor hname
    · exact ih (hstage.advance hviews tells step) passed hpassed name hname

end

/-! ### Excluded namespaces -/

/-- A namespace that is excluded in the listing that a review finds. -/
def Views.Excludes (x : Exclusions) (views : Views) (name : String) : Prop :=
  ∃ listing, (views 0).namespaces.answer = .ok listing ∧
    ∃ ns ∈ listing, ns.name = name ∧ x.excludes ns = true

/-- Views with the same listings, in which what is not excluded uses the same. -/
structure Views.DifferWithin (x : Exclusions) (views views' : Views) : Prop where
  namespaces : ∀ i, (views' i).namespaces = (views i).namespaces
  quotas : ∀ i, (views' i).quotas = (views i).quotas
  usage : ∀ i name resources, ¬ views.Excludes x name →
    (views' i).usage name resources = (views i).usage name resources

/-- A review is that of an update of the named namespace. -/
def Review.Relabels (s : Settings) (review : Review) (name : String) : Prop :=
  Kind.ofRequest s.objectCounts review.request = .ok .namespaceKind ∧
    review.request.operation = .update ∧
    ∃ m, Admission.object .namespaceKind namespaceOfJson? review.request.object = .ok m ∧
      (Namespace.ofMetadata m).name = name

theorem Views.DifferWithin.alike {x : Exclusions} {views views' : Views}
    (h : views.DifferWithin x views')
    (hnames : ∀ listing, (views 0).namespaces.answer = .ok listing →
      (listing.map Namespace.name).Nodup) :
    views.Alike x (views.Excludes x) views' where
  namespaces := by
    rw [h.namespaces]
    refine (Fetch.Alike.refl (R := Eq) (fun _ => rfl) _).imp fun listing _ hlisting hsame => ?_
    obtain rfl := hsame
    refine ⟨.refl _ _, fun ns hns hexcludes => ?_⟩
    obtain ⟨listing', hlisting', ns', hns', hname, hexcluded⟩ := hexcludes
    obtain rfl := Except.ok.inj (hlisting.symm.trans hlisting')
    rwa [← List.inj_on_of_nodup_map (hnames _ hlisting) hns' hns hname]
  quotas := by
    rw [h.quotas]
    exact .refl (Relisted.refl _) _
  usage := h.usage

theorem Work.eq_relabel_of_start {work : Work} {old new : Namespace}
    (h : work.start = .relabelling old new) : work = .relabel old new := by
  cases work with
  | usage name delta =>
    simp only [start] at h
    split at h <;> cases h
  | relabel => cases h; rfl
  | quota new old =>
    simp only [start] at h
    split at h
    case h_1 => cases h
    case h_2 =>
      cases old with
      | none => cases h
      | some old =>
        dsimp only at h
        split at h <;> cases h

/-- Only a review of the update of a namespace relabels one. -/
theorem Admission.of_work?_relabel {s : Settings} {kind : Kind} {r : ReviewRequest}
    {old new : Namespace} (h : work? s kind r = .ok (some (.relabel old new))) :
    kind = .namespaceKind ∧ r.operation = .update ∧
      ∃ m, object .namespaceKind namespaceOfJson? r.object = .ok m ∧ .ofMetadata m = new := by
  simp only [work?] at h
  split at h
  case isTrue => cases h
  case isFalse =>
    have hworkload {x : Except Denial Work} (h : (x >>= fun w => pure (some w)) =
        Except.ok (some (.relabel old new))) : x = .ok (.relabel old new) := by
      obtain ⟨work, hwork, hsome⟩ := ok_of_bind h
      cases hsome
      exact hwork
    cases kind with
    | pod | claim | service =>
      obtain ⟨name, delta, hwork, -⟩ := of_workload (hworkload h)
      cases hwork
    | objectCount k =>
      dsimp only at h
      split at h
      case isTrue => cases h
      case isFalse =>
        obtain ⟨name, -, hsome⟩ := ok_of_bind h
        cases hsome
    | quota =>
      obtain ⟨_, -, h⟩ := ok_of_bind h
      split at h <;>
      · obtain ⟨_, -, hsome⟩ := ok_of_bind h
        cases hsome
    | namespaceKind =>
      dsimp only at h
      split at h
      case isTrue => cases h
      case isFalse hupdate =>
        obtain ⟨m, hm, h⟩ := ok_of_bind h
        obtain ⟨_, -, hsome⟩ := ok_of_bind h
        cases hsome
        exact ⟨rfl, by simpa using hupdate, m, hm, rfl⟩

theorem Review.relabels_of_entry {s : Settings} {review : Review} {old new : Namespace}
    (h : (review.entry s).2 = .relabelling old new) : review.Relabels s new.name := by
  simp only [entry] at h
  split at h
  case h_1 => cases h
  case h_2 kind hkind =>
    simp only [Admission.start] at h
    split at h
    case h_1 | h_2 => cases h
    case h_3 work hwork =>
      obtain rfl := Work.eq_relabel_of_start h
      obtain ⟨rfl, hupdate, m, hm, rfl⟩ := Admission.of_work?_relabel hwork
      exact ⟨hkind, hupdate, m, hm, rfl⟩

namespace Server

/-- What excluded namespaces use, and whether it can be read, is not seen. -/
theorem excluded_not_read (p : Server) (delay : Nat) (body : Option Json) {views views' : Views}
    (h : views.DifferWithin p.settings.rules.exclusions views')
    (hnames : ∀ listing, (views 0).namespaces.answer = .ok listing →
      (listing.map Namespace.name).Nodup)
    (hreview : ∀ review name, body.bind Review.ofJson? = some review →
      review.Relabels p.settings name → ¬ views.Excludes p.settings.rules.exclusions name) :
    p.serveAll [⟨delay, body, views'⟩] = p.serveAll [⟨delay, body, views⟩] ∧
      ∀ review, body.bind Review.ofJson? = some review →
        ∀ deadline started moments ended last,
          Journey p.settings.rules views review.request.dryRun deadline started
            (review.entry p.settings).2 moments ended last →
          ∀ passed ∈ moments.map Moment.stage ++ [last], ∀ name,
            views.Excludes p.settings.rules.exclusions name →
              ¬ passed.AsksFor p.settings.rules.exclusions name := by
  have hentry : ∀ review old new, body.bind Review.ofJson? = some review →
      (review.entry p.settings).2 = .relabelling old new →
        ¬ views.Excludes p.settings.rules.exclusions new.name :=
    fun review old new hbody hrelabelling =>
      hreview review new.name hbody (Review.relabels_of_entry hrelabelling)
  refine ⟨p.serveAll_eq_of_alike delay body (h.alike hnames) hentry, ?_⟩
  intro review hbody deadline started moments ended last hjourney
  have hself : views.DifferWithin p.settings.rules.exclusions views :=
    ⟨fun _ => rfl, fun _ => rfl, fun _ _ _ _ => rfl⟩
  exact hjourney.not_asksFor (hself.alike hnames)
    (Review.entry_alike (fun old new => hentry review old new hbody) _)

/-! A config map is created in a cluster whose only quota covers and has recorded every namespace.
Reading an excluded one would end in a panic. -/

private def mapCreated : Json := .object [
  ("apiVersion", .string "admission.k8s.io/v1"),
  ("kind", .string "AdmissionReview"),
  ("request", .object [
    ("uid", .string "u-2"),
    ("kind", .object [("group", .string ""), ("version", .string "v1"),
      ("kind", .string "ConfigMap")]),
    ("resource", .object [("group", .string ""), ("version", .string "v1"),
      ("resource", .string "configmaps")]),
    ("name", .string "c1"),
    ("namespace", .string "web"),
    ("operation", .string "CREATE"),
    ("userInfo", .object [])])]

private def mapsWritten (n : String) : WrittenAmounts := Table.ofList [("count/configmaps", n)]

private def coversAll : Quota where
  metadata := ⟨some "all", none, none, none, none, []⟩
  spec := ⟨none, mapsWritten "2"⟩
  status := some ⟨⟨Table.empty, mapsWritten "5"⟩,
    [⟨"web", mapsWritten "1"⟩, ⟨"kube-system", mapsWritten "4"⟩], some "1970-01-01T00:00:00Z"⟩

private def webAndSystem : List Namespace :=
  [⟨"web", Table.empty⟩, ⟨"kube-system", Table.empty⟩]

private def systemReads (m : Manner) : Views := fun _ => Inventory.cluster {
  namespaces := webAndSystem
  quotas := [coversAll]
  usage := Table.empty
  persisted := Table.empty
  manners := fun read => if read = .usage "kube-system" then m else .plain }

private def excludingServer : Server := start (({} : Options).settings "controller") ⟨0, 0⟩

theorem excluded_not_read_kubeSystem :
    (systemReads ⟨0, true, none⟩ 1).usage "kube-system" (KeySet.ofList []) ≠
      (systemReads .plain 1).usage "kube-system" (KeySet.ofList []) ∧
    (systemReads .plain).Excludes excludingServer.settings.rules.exclusions "kube-system" ∧
    excludingServer.serveAll [⟨0, some mapCreated, systemReads ⟨0, true, none⟩⟩] =
      excludingServer.serveAll [⟨0, some mapCreated, systemReads .plain⟩] := by
  have hlisted : ∀ listing, (systemReads .plain 0).namespaces.answer = .ok listing →
      listing = webAndSystem := fun listing h => (Except.ok.inj h).symm
  have hexcludes :
      (systemReads .plain).Excludes excludingServer.settings.rules.exclusions "kube-system" :=
    ⟨webAndSystem, rfl, ⟨"kube-system", Table.empty⟩, by decide +kernel, rfl, by decide +kernel⟩
  have hdiffer : (systemReads .plain).DifferWithin excludingServer.settings.rules.exclusions
      (systemReads ⟨0, true, none⟩) := by
    refine ⟨fun _ => rfl, fun _ => rfl, fun i name resources hname => ?_⟩
    have hother : name ≠ "kube-system" := fun h => hname (h ▸ hexcludes)
    simp [systemReads, Inventory.cluster, Inventory.usedIn, hother]
  refine ⟨fun h => ?_, hexcludes, (excluded_not_read excludingServer 0 (some mapCreated) hdiffer
    (fun listing h => ?_) (fun review name hbody hrelabels => ?_)).1⟩
  · have hanswer := congrArg Fetch.answer h
    cases hanswer
  · rw [hlisted listing h]
    decide +kernel
  · have hcreates : ((some mapCreated).bind Review.ofJson?).map (·.request.operation) =
        some .create := by decide +kernel
    obtain ⟨-, hupdate, -⟩ := hrelabels
    rw [hbody, Option.map_some, hupdate] at hcreates
    cases hcreates

end Server

end SharedQuota
