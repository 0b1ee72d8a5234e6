import SharedQuota.Options.Settings
import SharedQuota.Proofs.Admission.Sign
import SharedQuota.Proofs.Cluster.Answer
import SharedQuota.Proofs.Serving.Alike

/-!
The order in which the API server lists objects. Main statement (`Server.serveAll_eq_of_reordered`):
where no namespace and no quota has the name of another, and no amount is negative, it changes
nothing in the answer to a review, in what it reserves and in what is read for it.
-/

namespace SharedQuota

/-! ### Sums of usage -/

namespace Contents

variable {x : Extractor} {kinds : ObjectCountKinds} {c c' : Contents}

/-- Sums saturate, but those of amounts that are not negative are the same in any order. -/
theorem addReadable_eq_of_perm {objects objects' : List (Except UsageFault ResourceList)}
    (h : objects.Perm objects') (hnonneg : ∀ u, .ok u ∈ objects → u.Nonneg) (l : ResourceList) :
    addReadable l objects' = addReadable l objects := by
  have hperm : (readable objects).Perm (readable objects') := h.filterMap _
  rw [addReadable_eq, addReadable_eq]
  refine ResourceList.ext_amount (fun r => ?_) fun r => ?_
  · rw [ResourceList.contains_foldl_addAll fun u => u,
      ResourceList.contains_foldl_addAll fun u => u]
    simp only [hperm.mem_iff]
  · have hamount : ∀ u ∈ readable objects, 0 ≤ (u.amount r).nanos := fun u hu =>
      (hnonneg u (mem_readable_iff.1 hu)).amount r
    have hamount' : ∀ u ∈ readable objects', 0 ≤ (u.amount r).nanos := fun u hu =>
      hamount u (hperm.mem_iff.2 hu)
    rw [ResourceList.amount_foldl_addAll fun u => u, ResourceList.amount_foldl_addAll fun u => u]
    refine Quantity.ext ?_
    rw [Quantity.nanos_foldl_add _ _ hamount, Quantity.nanos_foldl_add _ _ hamount',
      (hperm.map _).sum_eq]

/-- The same objects in any order, none of them with a negative amount. -/
structure Reordered (c c' : Contents) : Prop where
  pods : c.pods.Perm c'.pods
  claims : c.claims.Perm c'.claims
  services : c.services.Perm c'.services
  counted : c'.counted = c.counted
  nonneg_pods : ∀ p ∈ c.pods, p.Nonneg
  nonneg_claims : ∀ o ∈ c.claims, o.Nonneg

theorem Reordered.usage (h : c.Reordered c') (resources : KeySet ResourceName) :
    c'.usage x kinds resources = c.usage x kinds resources := by
  have hpods := addReadable_eq_of_perm (h.pods.map x.podHeld) fun u hu => by
    obtain ⟨p, hp, hread⟩ := List.mem_map.1 hu
    exact Extractor.nonneg_podHeld (h.nonneg_pods p hp) hread
  have hclaims := addReadable_eq_of_perm (h.claims.map x.claim) fun u hu => by
    obtain ⟨o, ho, hread⟩ := List.mem_map.1 hu
    exact Extractor.nonneg_claim (h.nonneg_claims o ho) hread
  have hservices := addReadable_eq_of_perm (h.services.map x.service) fun u hu => by
    obtain ⟨o, -, hread⟩ := List.mem_map.1 hu
    exact Extractor.nonneg_service hread
  simp only [Contents.usage, hpods, hclaims, hservices, h.counted]

end Contents

/-! ### Queries -/

namespace ApiServer

section

variable {α β : Type} {R : α → α → Prop} {S : β → β → Prop} {q q' : Query α}
  {f f' : α → Query β}

/-- Two queries make the same requests, and their answers are alike. -/
def AskAlike (R : α → α → Prop) (q q' : Query α) : Prop :=
  ∀ log, (q'.run.run log).2 = (q.run.run log).2 ∧
    ReadAlike R (q.run.run log).1 (q'.run.run log).1

theorem AskAlike.fetch (h : AskAlike R q q') : (fetch q).Alike R (fetch q') :=
  ⟨(h []).1, rfl, (h []).2⟩

theorem AskAlike.refl (h : ∀ a, R a a) (q : Query α) : AskAlike R q q := by
  intro log
  refine ⟨rfl, ?_⟩
  cases (q.run.run log).1 with
  | ok a => exact .ok (h a)
  | error fault => exact .error

theorem AskAlike.bind (h : AskAlike R q q') (hf : ∀ a a', R a a' → AskAlike S (f a) (f' a')) :
    AskAlike S (q >>= f) (q' >>= f') := by
  intro log
  rw [run_bind, run_bind]
  obtain ⟨hlog, hanswer⟩ := h log
  generalize q.run.run log = o at *
  generalize q'.run.run log = o' at *
  obtain ⟨answer, after⟩ := o
  obtain ⟨answer', after'⟩ := o'
  obtain rfl : after' = after := hlog
  cases hanswer with
  | ok h => exact hf _ _ h after'
  | error => exact ⟨rfl, .error⟩

theorem askAlike_pure {a a' : α} (h : R a a') : AskAlike R (pure a) (pure a') :=
  fun _ => ⟨rfl, .ok h⟩

theorem AskAlike.eq (h : AskAlike Eq q q') : q' = q := by
  funext log
  obtain ⟨hlog, hanswer⟩ := h log
  refine Prod.ext ?_ hlog
  change (q'.run.run log).1 = (q.run.run log).1
  generalize (q.run.run log).1 = answer at *
  generalize (q'.run.run log).1 = answer' at *
  cases hanswer with
  | ok h => rw [h]
  | error => rfl

/-- What is known of the answer of a query is known of answers that are alike. -/
theorem AskAlike.and (h : AskAlike R q q') (hq : IsSteady q) {P : α → Prop}
    (hp : ∀ a, (ApiServer.fetch q).answer = .ok a → P a) :
    AskAlike (fun a a' => R a a' ∧ P a) q q' := by
  intro log
  refine ⟨(h log).1, ?_⟩
  have hanswer := (h log).2
  have hsteady : ∀ a, (q.run.run log).1 = .ok a → P a := fun a ha => hp a ((hq [] log).trans ha)
  generalize (q.run.run log).1 = answer at *
  generalize (q'.run.run log).1 = answer' at *
  cases hanswer with
  | ok h => exact .ok ⟨h, hsteady _ rfl⟩
  | error => exact .error

end

/-! ### Lists -/

/-- What is listed under a path. What was never entered is empty. -/
def listed (s : ApiServer) (path : String) : List Json := (s.lists.get? path).getD []

/-- The same lists, each in any order. -/
structure Reordered (s s' : ApiServer) : Prop where
  failing : s'.failing = s.failing
  listed : ∀ path, (s.listed path).Perm (s'.listed path)

/-- No amount that a pod or a claim states is negative. -/
structure Nonneg (s : ApiServer) : Prop where
  pods : ∀ name pods, (fetch (s.list (corePath "pods" name) Pod.ofJson?)).answer = .ok pods →
    ∀ p ∈ pods, p.Nonneg
  claims : ∀ name claims,
    (fetch (s.list (corePath "persistentvolumeclaims" name) Claim.ofJson?)).answer = .ok claims →
      ∀ o ∈ claims, o.Nonneg

variable {s s' : ApiServer}

namespace Reordered

theorem get (h : s.Reordered s') (target : String) (selector : Option String) :
    s'.get target selector = s.get target selector := by
  simp only [ApiServer.get, request, h.failing]

theorem list {α : Type} (h : s.Reordered s') (target : String) (decode : Json → Option α) :
    AskAlike List.Perm (s.list target decode) (s'.list target decode) := by
  simp only [ApiServer.list, h.get]
  refine (AskAlike.refl (fun _ => rfl) _).bind fun path _ hpath => ?_
  obtain rfl : path = _ := hpath
  have hread := rel_mapM_of_perm (f := decode) (h.listed path)
  simp only [ApiServer.listed] at hread
  simp only [entered]
  generalize List.mapM decode ((s.lists.get? path).getD []) = objects at *
  generalize List.mapM decode ((s'.lists.get? path).getD []) = objects' at *
  cases hread with
  | none => exact .refl .refl _
  | some h => exact askAlike_pure h

theorem listIf {α : Type} (h : s.Reordered s') (p : Bool) (target : String)
    (decode : Json → Option α) {P : List α → Prop} (hnil : P [])
    (hp : ∀ objects, (fetch (s.list target decode)).answer = .ok objects → P objects) :
    AskAlike (fun l l' => l.Perm l' ∧ P l) (if p then s.list target decode else return [])
      (if p then s'.list target decode else return []) := by
  cases p with
  | false => exact askAlike_pure ⟨.refl [], hnil⟩
  | true => exact (h.list target decode).and (isSteady_list s target decode) hp

variable {kinds : ObjectCountKinds}

theorem contents (h : s.Reordered s') (hnonneg : s.Nonneg) (name : String)
    (resources : KeySet ResourceName) :
    AskAlike Contents.Reordered (s.contents kinds name resources)
      (s'.contents kinds name resources) := by
  have hcount (k : ObjectCountKind) :
      (do
        let objects ← s'.list (objectsPath k.group k.version k.resource name) metadataOnly?
        return (k, objects.length)) =
      (do
        let objects ← s.list (objectsPath k.group k.version k.resource name) metadataOnly?
        return (k, objects.length)) :=
    AskAlike.eq ((h.list _ metadataOnly?).bind fun objects objects' hperm =>
      askAlike_pure (by rw [hperm.length_eq]))
  simp only [ApiServer.contents, hcount]
  refine (h.listIf _ _ Pod.ofJson? (P := fun pods => ∀ p ∈ pods, p.Nonneg) nofun
    (hnonneg.pods name)).bind fun pods pods' hpods => ?_
  refine (h.listIf _ _ Claim.ofJson? (P := fun claims => ∀ o ∈ claims, o.Nonneg) nofun
    (hnonneg.claims name)).bind fun claims claims' hclaims => ?_
  refine (h.listIf _ _ Service.ofJson? (P := fun _ => True) trivial
    fun _ _ => trivial).bind fun services services' hservices => ?_
  refine (AskAlike.refl (fun _ => rfl) _).bind fun counts counts' hcounts => ?_
  exact askAlike_pure ⟨hpods.1, hclaims.1, hservices.1, by rw [hcounts], hpods.2, hclaims.2⟩

variable {x : Extractor}

theorem usage (h : s.Reordered s') (hnonneg : s.Nonneg) (name : String)
    (resources : KeySet ResourceName) :
    (s'.cluster x kinds).usage name resources = (s.cluster x kinds).usage name resources := by
  have hquery : s'.usage x kinds name resources = s.usage x kinds name resources :=
    AskAlike.eq ((h.contents hnonneg name resources).bind fun c c' hc =>
      askAlike_pure (hc.usage resources).symm)
  exact congrArg fetch hquery

theorem namespaces (h : s.Reordered s') :
    (s.cluster x kinds).namespaces.Alike List.Perm (s'.cluster x kinds).namespaces :=
  ((h.list namespacesPath namespaceOfJson?).bind fun _ _ hperm =>
    askAlike_pure (hperm.map Namespace.ofMetadata)).fetch

theorem quotas (h : s.Reordered s') :
    (s.cluster x kinds).quotas.Alike List.Perm (s'.cluster x kinds).quotas :=
  (h.list quotasPath Quota.ofJson?).fetch

end Reordered

end ApiServer

/-! ### Reviews -/

/-- The order in which namespaces, quotas and objects are listed is irrelevant. -/
theorem Server.serveAll_eq_of_reordered (p : Server) (delay : Nat) (body : Option Json)
    (x : Extractor) (kinds : ObjectCountKinds) {cluster cluster' : Nat → ApiServer}
    (h : ∀ i, (cluster i).Reordered (cluster' i))
    (hnamespaces : ∀ listing, ((cluster 0).cluster x kinds).namespaces.answer = .ok listing →
      (listing.map Namespace.name).Nodup)
    (hquotas : ∀ quotas, ((cluster 0).cluster x kinds).quotas.answer = .ok quotas →
      (quotas.map Quota.name).Nodup)
    (hnonneg : ∀ i, (cluster i).Nonneg) :
    p.serveAll [⟨delay, body, fun i => (cluster' i).cluster x kinds⟩] =
      p.serveAll [⟨delay, body, fun i => (cluster i).cluster x kinds⟩] := by
  have halike : Views.Alike p.settings.rules.exclusions (fun _ => False)
      (fun i => (cluster i).cluster x kinds) fun i => (cluster' i).cluster x kinds := by
    refine ⟨?_, ?_, ?_⟩
    · exact (h 0).namespaces.imp fun listing _ hlisting hperm =>
        ⟨⟨hperm, .inr (hnamespaces listing hlisting)⟩, fun _ _ => False.elim⟩
    · exact (h 0).quotas.imp fun quotas _ hlisted hperm =>
        ⟨hperm, .inr (hquotas quotas hlisted)⟩
    · exact fun i name resources _ => (h i).usage (hnonneg i) name resources
  exact p.serveAll_eq_of_alike delay body halike fun _ _ _ _ _ => id

/-! A pod is created where two quotas are exceeded, and all lists are told backwards. -/

namespace ApiServer

def backwards (s : ApiServer) : ApiServer := { s with lists := s.lists.map fun _ => List.reverse }

variable {s : ApiServer}

theorem reordered_backwards (s : ApiServer) : s.Reordered s.backwards where
  failing := rfl
  listed path := by
    rw [listed, listed, backwards, Table.get?_map]
    cases s.lists.get? path with
    | none => exact .refl []
    | some l => exact (List.reverse_perm l).symm

theorem exists_listed_of_answer {α : Type} {target : String} {decode : Json → Option α}
    {objects : List α} (h : (fetch (s.list target decode)).answer = .ok objects) :
    ∃ path, (s.listed path).mapM decode = some objects := by
  simp only [fetch, ApiServer.list] at h
  rw [run_bind] at h
  generalize (s.get target none).run.run [] = o at h
  obtain ⟨answer, log⟩ := o
  cases answer with
  | error fault => cases h
  | ok path =>
    refine ⟨path, ?_⟩
    simp only [entered] at h
    rw [listed]
    cases hread : ((s.lists.get? path).getD []).mapM decode with
    | none => simp only [hread] at h; cases h
    | some read =>
      simp only [hread] at h
      cases h
      rfl

theorem mem_of_answer {α : Type} {target : String} {decode : Json → Option α} {objects : List α}
    (h : (fetch (s.list target decode)).answer = .ok objects) {a : α} (ha : a ∈ objects) :
    ∃ l ∈ s.lists.values, ∃ j ∈ l, decode j = some a := by
  obtain ⟨path, hread⟩ := exists_listed_of_answer h
  have hmem := List.mem_map_of_mem (f := some) ha
  rw [← map_eq_of_mapM hread, List.mem_map] at hmem
  obtain ⟨j, hj, hdecoded⟩ := hmem
  rw [listed] at hj
  cases hget : s.lists.get? path with
  | none => rw [hget] at hj; cases hj
  | some l =>
    rw [hget] at hj
    exact ⟨l, (Table.mem_values_iff _).2 ⟨path, hget⟩, j, hj, hdecoded⟩

/-- It is enough to look at all that is listed. -/
theorem nonneg_of_values
    (hpods : ∀ l ∈ s.lists.values, ∀ j ∈ l, ∀ p ∈ Pod.ofJson? j, p.Nonneg)
    (hclaims : ∀ l ∈ s.lists.values, ∀ j ∈ l, ∀ o ∈ Claim.ofJson? j, o.Nonneg) : s.Nonneg where
  pods _ _ h p hp := by
    obtain ⟨l, hl, j, hj, hdecoded⟩ := mem_of_answer h hp
    exact hpods l hl j hj p hdecoded
  claims _ _ h o ho := by
    obtain ⟨l, hl, j, hj, hdecoded⟩ := mem_of_answer h ho
    exact hclaims l hl j hj o hdecoded

end ApiServer

private def named (name : String) (members : List (String × Json)) : Json :=
  .object (("metadata", .object [("name", .string name)]) :: members)

private def podUsing (name cpu : String) : Json := named name [("spec", .object [
  ("containers", .array [.object [("name", .string "c"), ("resources", .object [
    ("requests", .object [("cpu", .string cpu)])])]])])]

private def cpuLimited (name : String) : Json := named name [("spec", .object [
  ("hard", .object [("requests.cpu", .string "2")])])]

private def podCreated : Json := .object [
  ("apiVersion", .string "admission.k8s.io/v1"),
  ("kind", .string "AdmissionReview"),
  ("request", .object [
    ("uid", .string "u-3"),
    ("kind", .object [("group", .string ""), ("version", .string "v1"), ("kind", .string "Pod")]),
    ("resource", .object [("group", .string ""), ("version", .string "v1"),
      ("resource", .string "pods")]),
    ("name", .string "p3"),
    ("namespace", .string "web"),
    ("operation", .string "CREATE"),
    ("userInfo", .object []),
    ("object", podUsing "p3" "1")])]

private def twoPods : ApiServer where
  lists := Table.ofList [
    (ApiServer.namespacesPath, [named "db" [], named "web" []]),
    (ApiServer.quotasPath, [cpuLimited "q1", cpuLimited "q2"]),
    ("/api/v1/namespaces/web/pods", [podUsing "p1" "1", podUsing "p2" "500m"])]
  failing := Table.empty

private def orderServer : Server := .start (({} : Options).settings "controller") ⟨0, 0⟩

private def onTwoPods (api : ApiServer) : Cluster :=
  api.cluster orderServer.settings.extractor orderServer.settings.objectCounts

theorem serveAll_eq_of_reordered_backwards :
    (onTwoPods twoPods.backwards).quotas.answer.toOption.map (·.map Quota.name) =
        some ["q2", "q1"] ∧
      orderServer.serveAll [⟨0, some podCreated, fun _ => onTwoPods twoPods.backwards⟩] =
        orderServer.serveAll [⟨0, some podCreated, fun _ => onTwoPods twoPods⟩] := by
  have hnames {α : Type} {name : α → String} {read : Except ReadFault (List α)}
      (h : ∀ l ∈ read.toOption, (l.map name).Nodup) (l : List α) (hl : read = .ok l) :
      (l.map name).Nodup := h l (by rw [hl]; rfl)
  exact ⟨by decide +kernel, Server.serveAll_eq_of_reordered orderServer 0 (some podCreated) _ _
    (fun _ => twoPods.reordered_backwards) (hnames (by decide +kernel)) (hnames (by decide +kernel))
    fun _ => ApiServer.nonneg_of_values (by decide +kernel) (by decide +kernel)⟩

end SharedQuota
