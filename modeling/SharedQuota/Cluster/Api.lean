import SharedQuota.Cluster
import SharedQuota.Cluster.Contents
import SharedQuota.Event
import SharedQuota.Http.Target

/-!
Reading the cluster from its API server: lists of objects under their paths. A list whose items do
not all decode fails as a whole.
-/

namespace SharedQuota

/-- The answers of an API server: the lists by path, and the requests that fail, with their code. -/
structure ApiServer where
  lists : Table String (List Json)
  failing : Table String Nat

namespace ApiServer

/-- A sequence of requests, which ends with the first that fails. -/
abbrev Query := ExceptT ReadFault (StateM (List ApiRequest))

def requestFault (code : Nat) : ReadFault :=
  .failed ("the API server answered with status " ++ Decimal.text code)

def undecodable (path : String) : ReadFault := .failed ("cannot decode the list of " ++ path)

def badTarget (target : String) : ReadFault := .failed ("cannot make a request for " ++ target)

/-- Makes a request for a target, unless that is none, and gives its path with the code of the
answer, if one is set. -/
def request (s : ApiServer) (method target : String) (selector : Option String) :
    Query (String × Option Nat) := do
  match Http.pathOfTarget? target with
  | none => throw (badTarget target)
  | some path =>
    let r : ApiRequest := ⟨method, path, selector, none⟩
    modify (· ++ [r])
    return (path, s.failing.get? r.text)

/-- The objects entered under a key. What was never entered is empty. -/
def entered {α : Type} (s : ApiServer) (key : String) (decode : Json → Option α) :
    Query (List α) :=
  match ((s.lists.get? key).getD []).mapM decode with
  | some objects => return objects
  | none => throw (undecodable key)

/-- Asks for a list; an answer with a code of its own is none. -/
def get (s : ApiServer) (target : String) (selector : Option String) : Query String := do
  match ← s.request "GET" target selector with
  | (path, none) => return path
  | (_, some code) => throw (requestFault code)

def list {α : Type} (s : ApiServer) (target : String) (decode : Json → Option α) :
    Query (List α) := do
  s.entered (← s.get target none) decode

def metadataOnly? (j : Json) : Option Metadata := do
  let members ← j.members?
  match Json.get? "metadata" members with
  | none => some .empty
  | some m => Metadata.ofJson? m

def namespacesPath : String := "/api/v1/namespaces"

def quotasPath : String := "/apis/clusterquota.io/v1alpha1/clusterresourcequotas"

def objectsPath (group version resource name : String) : String :=
  (if group.isEmpty then "/api/" ++ version else "/apis/" ++ group ++ "/" ++ version) ++
    "/namespaces/" ++ name ++ "/" ++ resource

def corePath (resource name : String) : String := objectsPath "" "v1" resource name

def namespaces (s : ApiServer) : Query (List Namespace) := do
  return (← s.list namespacesPath namespaceOfJson?).map Namespace.ofMetadata

def quotas (s : ApiServer) : Query (List Quota) := s.list quotasPath Quota.ofJson?

/-- The objects of a namespace that the resources asked for need. -/
def contents (s : ApiServer) (kinds : ObjectCountKinds) (name : String)
    (resources : KeySet ResourceName) : Query Contents := do
  let asked := resources.toList
  let listIf {α : Type} (contributes : ResourceName → Bool) (resource : String)
      (decode : Json → Option α) : Query (List α) :=
    if asked.any contributes then s.list (corePath resource name) decode else return []
  let pods ← listIf ResourceName.ofPods "pods" Pod.ofJson?
  let claims ← listIf ResourceName.ofClaims "persistentvolumeclaims" Claim.ofJson?
  let services ← listIf ResourceName.ofServices "services" Service.ofJson?
  let counts ← (Contents.countedKinds kinds resources).mapM fun k => do
    let objects ← s.list (objectsPath k.group k.version k.resource name) metadataOnly?
    return (k, objects.length)
  return { pods, claims, services, counted := fun k => (counts.lookup k).getD 0 }

def usage (s : ApiServer) (x : Extractor) (kinds : ObjectCountKinds) (name : String)
    (resources : KeySet ResourceName) : Query ResourceList := do
  return (← s.contents kinds name resources).usage x kinds resources

def fetch {α : Type} (q : Query α) : Fetch α :=
  let (answer, requests) := q.run.run []
  ⟨requests, 0, answer⟩

def cluster (s : ApiServer) (x : Extractor) (kinds : ObjectCountKinds) : Cluster where
  namespaces := fetch s.namespaces
  quotas := fetch s.quotas
  usage name resources := fetch (s.usage x kinds name resources)

/-! ### Events -/

def eventsPath : String := "/api/v1/events"

def eventPath (name event : String) : String := corePath "events" name ++ "/" ++ event

/-- The events of a source. Their list is entered under the path with the selector. -/
def events (s : ApiServer) (source : Event.Source) : Query (List Event) := do
  let path ← s.get eventsPath (some source.selector)
  s.entered (path ++ "?" ++ source.selector) Event.ofJson?

/-- Whether a deletion that is answered with a code has failed: a code that says so, or none that an
answer can have. -/
def isFailure (code : Nat) : Bool := (400 ≤ code && code < 600) || code < 100 || 999 < code

def notFound : Nat := 404

/-- Deletes an event: whether there was one to delete. -/
def deleteEvent (s : ApiServer) (name event : String) : Query Bool := do
  if event.isEmpty then throw (.failed "a name is required")
  match ← s.request "DELETE" (eventPath name event) none with
  | (_, none) => return true
  | (_, some code) =>
    if code = notFound then return false
    if isFailure code then throw (requestFault code)
    return true

end ApiServer

/-- A sweep as it comes about: the API server at each of its requests, the list first, which may
change from one to the next, and the time at which the events have been listed. The clock that tells
it shows no leap seconds. -/
structure Sweep where
  server : Nat → ApiServer
  now : Time
  isLeap_now : now.isLeap = false

namespace Sweep

/-- Deletes events one after the other, each before the next server, and counts those that were
still there. -/
def deleteAll (server : Nat → ApiServer) : List Event → Nat → ApiServer.Query Nat
  | [], deleted => return deleted
  | e :: es, deleted => do
    let found ← (server 0).deleteEvent (e.metadata.namespaceName.getD "") e.metadata.anyName
    deleteAll (fun i => server (i + 1)) es (if found then deleted + 1 else deleted)

/-- Deletes the expired events of a source, in the order listed, and counts them. -/
def run (w : Sweep) (source : Event.Source) (retention : Nat) : ApiServer.Query Nat := do
  let es ← (w.server 0).events source
  deleteAll (fun i => w.server (i + 1)) (Event.expired w.now retention es) 0

/-- What a tick of the sweeper came to: how each of its sweeps ended, and the requests made. -/
structure Tick where
  answers : List (Except ReadFault Nat)
  requests : List ApiRequest

/-- One tick: each source is swept whatever becomes of the other. -/
def tick (sweeps : Event.Source → Sweep) (retention : Nat) : Tick :=
  let (answers, requests) := (Event.Source.all.mapM fun source =>
    ((sweeps source).run source retention).run).run []
  ⟨answers, requests⟩

def ticks (sweeps : Nat → Event.Source → Sweep) (retention count : Nat) : List Tick :=
  (List.range count).map fun i => tick (sweeps i) retention

end Sweep

namespace ApiServer

/-- A sweep before a server that does not change, by a clock that has run for no time. -/
def sweep (s : ApiServer) (source : Event.Source) (start : Time) (retention : Nat) : Query Nat :=
  (Sweep.mk (fun _ => s) (start.plusMillis 0) (by simp)).run source retention

/-- The requests of each tick of the sweeper, the first at once and then one per interval. -/
def ticks (s : ApiServer) (start : Time) (interval retention count : Nat) :
    List (List ApiRequest) :=
  (Sweep.ticks (fun i _ => ⟨fun _ => s, start.plusMillis (i * interval), by simp⟩) retention
    count).map Sweep.Tick.requests

end ApiServer

end SharedQuota
