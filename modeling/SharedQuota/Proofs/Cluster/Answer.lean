import SharedQuota.Cluster.Api
import SharedQuota.Proofs.Cluster.Sum

/-!
What the API server answers. Main statement (`Shows.answer_usage`): where all lists of a namespace
succeed, a query for its usage gives the usage of what they show, though it asks only for some of
them.
-/

namespace SharedQuota

namespace ApiServer

variable {α β : Type} {s : ApiServer} {q : Query α} {f : α → Query β} {a : α} {b : β}

/-! ### Queries -/

theorem run_bind (q : Query α) (f : α → Query β) (log : List ApiRequest) :
    (q >>= f).run.run log = match q.run.run log with
      | (.ok a, after) => (f a).run.run after
      | (.error fault, after) => (.error fault, after) := by
  rw [ExceptT.run_bind, StateT.run_bind]
  generalize q.run.run log = o
  obtain ⟨answer, after⟩ := o
  cases answer <;> rfl

/-- What was requested before changes nothing of how a query ends. -/
def IsSteady (q : Query α) : Prop := ∀ log log', (q.run.run log).1 = (q.run.run log').1

/-- A query ends with some answer, whatever was requested before. -/
def Gives (q : Query α) (a : α) : Prop := ∀ log, (q.run.run log).1 = .ok a

theorem IsSteady.gives (h : IsSteady q) (ha : (fetch q).answer = .ok a) : Gives q a :=
  fun log => (h log []).trans ha

theorem isSteady_pure (a : α) : IsSteady (pure a) := fun _ _ => rfl

theorem isSteady_throw (e : ReadFault) : IsSteady (throw e : Query α) := fun _ _ => rfl

theorem IsSteady.bind (h : IsSteady q) (hf : ∀ a, IsSteady (f a)) : IsSteady (q >>= f) := by
  intro log log'
  rw [run_bind, run_bind]
  -- the requests before may differ, the answers do not, and with them what is asked next
  have hsame := h log log'
  generalize StateT.run (ExceptT.run q) log = p at hsame ⊢
  generalize StateT.run (ExceptT.run q) log' = p' at hsame ⊢
  obtain ⟨answer, after⟩ := p
  obtain ⟨answer', after'⟩ := p'
  obtain rfl : answer = answer' := hsame
  cases answer with
  | error e => rfl
  | ok a => exact hf a after after'

theorem Gives.bind (h : Gives q a) (hf : Gives (f a) b) : Gives (q >>= f) b := by
  intro log
  rw [run_bind]
  have hq := h log
  generalize StateT.run (ExceptT.run q) log = p at hq ⊢
  obtain ⟨answer, after⟩ := p
  obtain rfl : answer = .ok a := hq
  exact hf after

theorem gives_pure (a : α) : Gives (pure a) a := fun _ => rfl

theorem gives_mapM {f : α → Query β} {g : α → β} {as : List α} (h : ∀ a ∈ as, Gives (f a) (g a)) :
    Gives (as.mapM f) (as.map g) := by
  induction as with
  | nil => exact gives_pure []
  | cons a rest ih =>
    obtain ⟨ha, hrest⟩ := List.forall_mem_cons.1 h
    rw [List.mapM_cons]
    exact ha.bind ((ih hrest).bind (gives_pure _))

/-! ### Lists -/

theorem isSteady_get (s : ApiServer) (target : String) (selector : Option String) :
    IsSteady (s.get target selector) := by
  refine IsSteady.bind ?_ fun answer => ?_
  · rw [request]
    cases Http.pathOfTarget? target with
    | none => exact isSteady_throw _
    | some path => exact IsSteady.bind (fun _ _ => rfl) fun _ => isSteady_pure _
  · obtain ⟨path, code⟩ := answer
    cases code with
    | none => exact isSteady_pure _
    | some code => exact isSteady_throw _

theorem isSteady_list (s : ApiServer) (target : String) (decode : Json → Option α) :
    IsSteady (s.list target decode) := by
  refine IsSteady.bind (isSteady_get s target none) fun path => ?_
  rw [entered]
  cases ((s.lists.get? path).getD []).mapM decode with
  | none => exact isSteady_throw _
  | some objects => exact isSteady_pure _

theorem answer_list {target path : String} {decode : Json → Option α} {objects : List α}
    (hpath : Http.pathOfTarget? target = some path)
    (hcode : s.failing.get? (ApiRequest.text ⟨"GET", path, none, none⟩) = none)
    (hobjects : ((s.lists.get? path).getD []).mapM decode = some objects) :
    (fetch (s.list target decode)).answer = .ok objects := by
  have hrequest : Gives (s.request "GET" target none) (path, none) := by
    rw [request, hpath]
    exact Gives.bind (a := ()) (fun _ => rfl) (hcode ▸ gives_pure _)
  have hget : Gives (s.get target none) path := hrequest.bind (gives_pure path)
  have hentered : Gives (s.entered path decode) objects := by
    rw [entered, hobjects]
    exact gives_pure objects
  exact hget.bind hentered []

/-! ### Contents -/

/-- All lists of a namespace succeed, and show its contents. -/
structure Shows (s : ApiServer) (kinds : ObjectCountKinds) (name : String) (c : Contents) :
    Prop where
  pods : (fetch (s.list (corePath "pods" name) Pod.ofJson?)).answer = .ok c.pods
  claims :
    (fetch (s.list (corePath "persistentvolumeclaims" name) Claim.ofJson?)).answer = .ok c.claims
  services : (fetch (s.list (corePath "services" name) Service.ofJson?)).answer = .ok c.services
  counted : ∀ k ∈ kinds.values, ∃ objects,
    (fetch (s.list (objectsPath k.group k.version k.resource name) metadataOnly?)).answer =
      .ok objects ∧ c.counted k = objects.length

variable {kinds : ObjectCountKinds} {name : String} {c : Contents} {x : Extractor}
  {resources : KeySet ResourceName}

/-- Of a namespace, what some resources need. -/
def needed (c : Contents) (kinds : ObjectCountKinds) (resources : KeySet ResourceName) :
    Contents where
  pods := if resources.toList.any ResourceName.ofPods then c.pods else []
  claims := if resources.toList.any ResourceName.ofClaims then c.claims else []
  services := if resources.toList.any ResourceName.ofServices then c.services else []
  counted k :=
    (((Contents.countedKinds kinds resources).map fun k => (k, c.counted k)).lookup k).getD 0

theorem gives_listIf {p : Bool} {target : String} {decode : Json → Option α} {objects : List α}
    (h : (fetch (s.list target decode)).answer = .ok objects) :
    Gives (if p then s.list target decode else return []) (if p then objects else []) := by
  cases p with
  | false => exact gives_pure []
  | true => exact (isSteady_list s target decode).gives h

theorem Shows.gives_contents (h : s.Shows kinds name c) (resources : KeySet ResourceName) :
    Gives (s.contents kinds name resources) (needed c kinds resources) := by
  refine Gives.bind (gives_listIf h.pods) (Gives.bind (gives_listIf h.claims)
    (Gives.bind (gives_listIf h.services) (Gives.bind (gives_mapM fun k hk => ?_) (gives_pure _))))
  obtain ⟨objects, hobjects, hlength⟩ := h.counted k (List.mem_filter.1 hk).1
  rw [hlength]
  exact ((isSteady_list s _ metadataOnly?).gives hobjects).bind (gives_pure _)

theorem lookup_map_of_mem {f : ObjectCountKind → Nat} {k : ObjectCountKind}
    {ks : List ObjectCountKind} (h : k ∈ ks) :
    (ks.map fun k => (k, f k)).lookup k = some (f k) := by
  induction ks with
  | nil => cases h
  | cons k' rest ih =>
    rw [List.map_cons, List.lookup_cons]
    by_cases hk : k = k'
    · simp [hk]
    · rw [beq_false_of_ne hk]
      exact ih ((List.mem_cons.1 h).resolve_left hk)

theorem usage_needed (c : Contents) (x : Extractor) (kinds : ObjectCountKinds)
    (resources : KeySet ResourceName) :
    (needed c kinds resources).usage x kinds resources = c.usage x kinds resources := by
  have hobjects {α : Type} (p : Bool) (as : List α)
      (extract : α → Except UsageFault ResourceList) (sum : ResourceList) :
      (if p then Contents.addReadable sum ((if p then as else []).map extract) else sum) =
        if p then Contents.addReadable sum (as.map extract) else sum := by
    cases p <;> rfl
  have hcounted (k) (hk : k ∈ Contents.countedKinds kinds resources) :
      (needed c kinds resources).counted k = c.counted k :=
    congrArg (·.getD 0) (lookup_map_of_mem hk)
  simp only [Contents.usage, Contents.foldl_countedKinds_congr hcounted]
  simp only [needed, hobjects]

theorem Shows.answer_usage (h : s.Shows kinds name c) (x : Extractor)
    (resources : KeySet ResourceName) :
    ((s.cluster x kinds).usage name resources).answer = .ok (c.usage x kinds resources) := by
  have hgives : Gives (s.usage x kinds name resources)
      ((needed c kinds resources).usage x kinds resources) :=
    (h.gives_contents resources).bind (gives_pure _)
  rw [usage_needed] at hgives
  exact hgives []

end ApiServer

end SharedQuota
