import SharedQuota.Engine
import SharedQuota.Review
import SharedQuota.Workload.Usage
import SharedQuota.Event
import SharedQuota.Http.Target

/-!
From a review to the work of the engine, and from a decision to the response. Reviews of what never
changes usage are allowed without any work.
-/

namespace SharedQuota

inductive Kind
  | pod
  | claim
  | service
  | namespaceKind
  | quota
  | objectCount (kind : ObjectCountKind)
deriving DecidableEq

namespace Kind

def text : Kind → String
  | pod => "pod"
  | claim => "persistentvolumeclaim"
  | service => "service"
  | namespaceKind => "namespace"
  | quota => "clusterresourcequota"
  | objectCount _ => "objectcount"

def unknownText : String := "unknown"

def named : List (Kind × String × String) := [
  (pod, "", "Pod"),
  (claim, "", "PersistentVolumeClaim"),
  (service, "", "Service"),
  (namespaceKind, "", "Namespace"),
  (quota, "clusterquota.io", "ClusterResourceQuota")]

/-- The kind of a request: one known by name, whatever the case of the letters, or else one that is
counted. -/
def ofRequest (counts : ObjectCountKinds) (r : ReviewRequest) : Except Denial Kind :=
  match named.find? fun (_, group, name) =>
      Text.sameLetters r.kind.group group && Text.sameLetters r.kind.kind name with
  | some (kind, _, _) => .ok kind
  | none =>
    match counts.find? r.resource.group r.resource.resource with
    | some k => .ok (.objectCount k)
    | none => .error (.unsupported (r.kind.group ++ "." ++ r.kind.version ++ "." ++ r.kind.kind))

end Kind

/-- How admission is set up. Times are in milliseconds. -/
structure Settings where
  rules : Rules
  extractor : Extractor
  objectCounts : ObjectCountKinds
  timeout : Nat
  /-- Under which name denials are recorded, if they are. -/
  recorder : Option String

namespace Admission

def object (kind : Kind) (decode : Json → Option α) (o : Option ReviewedObject) : Except Denial α :=
  match o with
  | none => .error (.undecodable ("admission request missing " ++ kind.text ++ " object"))
  | some o =>
    match decode o.toJson with
    | some a => .ok a
    | none => .error (.unreadable kind.text "the object does not decode")

/-- The namespace of a request, or else of its object. -/
def namespaceOf (r : ReviewRequest) : Except Denial String :=
  match (r.namespaceName <|> r.object.bind (·.metadata.namespaceName)).filter (!·.isEmpty) with
  | some name => .ok name
  | none => .error (.undecodable "admission request missing 'namespace'")

/-- How a request ends whose object is at fault. Where reading an amount breaks off the decision does
too. -/
def unreadable (kind : Kind) : UsageFault → Denial
  | .amount ⟨_, .brokenOff⟩ => panicked
  | fault => .unreadable kind.text fault.message

/-- The usage that a workload adds; an update adds only what grew. -/
def workload {α : Type} (r : ReviewRequest) (kind : Kind) (decode : Json → Option α)
    (extract : α → Except UsageFault ResourceList) : Except Denial Work := do
  let read (o : Option ReviewedObject) : Except Denial ResourceList := do
    let a ← object kind decode o
    (extract a).mapError (unreadable kind)
  let new ← read r.object
  let delta ← match r.operation with
    | .update => (read r.oldObject).map new.increaseFrom
    | _ => .ok new
  return .usage (← namespaceOf r) delta

/-- The work that a request needs, or none if it cannot change usage: a write to a subresource, a
deletion, a connection, a new namespace, an update of what is only counted. -/
def work? (s : Settings) (kind : Kind) (r : ReviewRequest) : Except Denial (Option Work) :=
  if r.subResource.isSome || r.operation = .delete || r.operation = .connect then .ok none
  else
    let update := r.operation = .update
    match kind with
    | .pod => return some (← workload r kind Pod.ofJson? s.extractor.pod)
    | .claim => return some (← workload r kind Claim.ofJson? s.extractor.claim)
    | .service => return some (← workload r kind Service.ofJson? s.extractor.service)
    | .objectCount k =>
      if update then .ok none
      else do return some (.usage (← namespaceOf r) (s.extractor.objectCount k))
    | .namespaceKind =>
      if !update then .ok none
      else do
        let new ← object kind namespaceOfJson? r.object
        let old ← object kind namespaceOfJson? r.oldObject
        return some (.relabel (.ofMetadata old) (.ofMetadata new))
    | .quota => do
      let new ← object kind Quota.ofJson? r.object
      let old ← if update then some <$> object kind Quota.ofJson? r.oldObject else .ok none
      return some (.quota new old)

def start (s : Settings) (kind : Kind) (r : ReviewRequest) : Stage :=
  match work? s kind r with
  | .error denial => .finished (.error denial)
  | .ok none => .finished (.ok ())
  | .ok (some work) => work.start

/-- What the denial of a request is recorded as. Only the excess of a quota is recorded, of a
request that is not a dry run and names a namespace. -/
def denied? (r : ReviewRequest) (d : Decision) : Option Event.Denied := do
  let namespaceName ← r.namespaceName
  if d.reason ≠ .quotaExceeded || r.dryRun then none
  some {
    apiVersion :=
      if r.kind.group.isEmpty then r.kind.version else r.kind.group ++ "/" ++ r.kind.version
    kind := r.kind.kind
    namespaceName
    name :=
      if r.name.isEmpty then (r.object.bind (·.metadata.generateName)).getD "" else r.name
    message := d.message }

def reports (kind operation : String) (d : Decision) (elapsed : Nat) : List Observation :=
  .admission kind operation d.reason.outcome elapsed ::
    if d.isAllowed then [] else [.error d.reason]

end Admission

structure Response where
  apiVersion : String
  kind : String
  uid : String
  decision : Decision

namespace Response

def toJson (r : Response) : Json :=
  let d := r.decision
  let status : List (String × Json) :=
    if d.isAllowed then []
    else [("code", .int d.reason.code), ("message", .string d.message),
      ("reason", .string d.reason.status), ("status", .string "Failure")]
  .object [
    ("apiVersion", .string r.apiVersion),
    ("kind", .string r.kind),
    ("response", .object [
      ("allowed", .bool d.isAllowed),
      ("status", .object status),
      ("uid", .string r.uid)])]

/-- The version of a response to what is no review. -/
def plainVersion : String := "admission.k8s.io/v1beta1"

def plainKind : String := "AdmissionReview"

end Response

/-! ### Serving over HTTP -/

/-- The paths that reviews may be posted to. The path says nothing about the review. -/
def reviewPaths : List String :=
  ["/", "/pods", "/persistentvolumeclaims", "/services", "/namespaces", "/clusterresourcequotas",
    "/objectcount"]

inductive Route
  | malformed
  | targetTooLong
  | unknown
  | review
deriving DecidableEq

def Route.status : Route → Nat
  | malformed => 400
  | targetTooLong => 414
  | unknown => 404
  | review => 200

def Route.of (method target : String) : Route :=
  match Http.Head.of method target with
  | .malformed => malformed
  | .targetTooLong => targetTooLong
  | .path path => if method == "POST" && reviewPaths.contains path then review else unknown

end SharedQuota
