import SharedQuota.Json.Parser
import SharedQuota.Review.Answered
import SharedQuota.Workload

/-!
Admission reviews: what the API server sends, and what is read of it. Fields that are not read may
be anything that fits the grammar; the parts of an object that are not its metadata are kept for the
reader of the object's kind.
-/

namespace SharedQuota

structure GroupVersionKind where
  group : String
  version : String
  kind : String
deriving DecidableEq

structure GroupVersionResource where
  group : String
  version : String
  resource : String
deriving DecidableEq

inductive Operation
  | create
  | update
  | delete
  | connect
deriving DecidableEq

namespace Operation

def text : Operation → String
  | create => "CREATE"
  | update => "UPDATE"
  | delete => "DELETE"
  | connect => "CONNECT"

def ofText? : String → Option Operation
  | "CREATE" => some create
  | "UPDATE" => some update
  | "DELETE" => some delete
  | "CONNECT" => some connect
  | _ => none

end Operation

/-- The object of a request: what it declares itself to be, its metadata, and all else. -/
structure ReviewedObject where
  type : Option (String × String)
  metadata : Metadata
  data : List (String × Json)

structure ReviewRequest where
  uid : String
  kind : GroupVersionKind
  resource : GroupVersionResource
  subResource : Option String
  name : String
  namespaceName : Option String
  operation : Operation
  dryRun : Bool
  object : Option ReviewedObject
  oldObject : Option ReviewedObject

structure Review where
  apiVersion : String
  kind : String
  request : ReviewRequest

/-! ### Decoding -/

namespace GroupVersionKind

def ofJson? (j : Json) : Option GroupVersionKind := do
  let [group, version, kind] ← Json.textRecord? ["group", "version", "kind"] j | none
  some ⟨group, version, kind⟩

end GroupVersionKind

namespace GroupVersionResource

def ofJson? (j : Json) : Option GroupVersionResource := do
  let [group, version, resource] ← Json.textRecord? ["group", "version", "resource"] j | none
  some ⟨group, version, resource⟩

end GroupVersionResource

namespace ReviewedObject

/-- What an object declares itself to be, and the members that are left. The declaration is read in
the order of the members and ends at the first part of it that is no text or is given twice; what
was read of a declaration that is not complete is dropped. -/
def takeType (version kind : Option String) :
    List (String × Json) → Option (String × String) × List (String × Json)
  | [] =>
    (match version, kind with
      | some v, some k => some (v, k)
      | _, _ => none, [])
  | (key, j) :: rest =>
    if key = "apiVersion" then
      match version, j with
      | none, .string s => takeType (some s) kind rest
      | _, _ => (none, rest)
    else if key = "kind" then
      match kind, j with
      | none, .string s => takeType version (some s) rest
      | _, _ => (none, rest)
    else
      let (type, rest) := takeType version kind rest
      (type, (key, j) :: rest)

def maxDepth : Nat := Json.maxDepth - 3

def ofJson? (j : Json) : Option ReviewedObject := do
  let members ← j.members?
  let metadata ← match ← Json.once? "metadata" members with
    | none => some .empty
    | some m => Metadata.ofJsonWithin? maxDepth m
  let others := members.filter (·.1 != "metadata")
  let (type, data) := takeType none none others
  if others.all fun m => m.2.readableWithin maxDepth then some ⟨type, metadata, data⟩ else none

/-- The object as its kind reads it. -/
def toJson (o : ReviewedObject) : Json :=
  .object (
    (o.type.map fun (v, k) => [("apiVersion", Json.string v), ("kind", .string k)]).getD [] ++
    [("metadata", o.metadata.toJson)] ++ o.data)

end ReviewedObject

namespace ReviewRequest

def userInfo : Schema := .ofFields <|
  Schema.fields .text ["uid", "username"] ++
  [("extra", .table Schema.texts), ("groups", Schema.texts)]

/-- The fields in the order in which an array gives them. -/
def keys : List String :=
  ["uid", "kind", "resource", "subResource", "requestKind", "requestResource",
    "requestSubResource", "name", "namespace", "operation", "userInfo", "object", "oldObject",
    "dryRun", "options"]

def maxDepth : Nat := Json.maxDepth - 2

def ofJson? (j : Json) : Option ReviewRequest := do
  let [uid, kind, resource, subResource, requestKind, requestResource, requestSubResource, name,
    namespaceName, operation, user, object, oldObject, dryRun, options] ← j.strictRecord? 13 keys
    | none
  let _ ← Json.optional? GroupVersionKind.ofJson? requestKind
  let _ ← Json.optional? GroupVersionResource.ofJson? requestResource
  let _ ← Json.optional? Json.string? requestSubResource
  let _ ← Json.required? (userInfo.read? maxDepth) user
  let _ ← Json.optional? (Schema.any.read? maxDepth) options
  some {
    uid := ← Json.required? Json.string? uid
    kind := ← Json.required? GroupVersionKind.ofJson? kind
    resource := ← Json.required? GroupVersionResource.ofJson? resource
    subResource := ← Json.optional? Json.string? subResource
    name := ← Json.defaulted? "" Json.string? name
    namespaceName := ← Json.optional? Json.string? namespaceName
    operation := ← Json.required? (Json.word? Operation.ofText?) operation
    dryRun := ← Json.defaulted? false Json.bool? dryRun
    object := ← Json.optional? ReviewedObject.ofJson? object
    oldObject := ← Json.optional? ReviewedObject.ofJson? oldObject }

end ReviewRequest

namespace Review

def ofJson? (j : Json) : Option Review := do
  let members ← j.members?
  let text (key : String) : Option String := do (← Json.once? key members).bind Json.string?
  let others := members.filter fun m => m.1 != "request" && m.1 != "response"
  if !others.all fun m => m.2.readableWithin (Json.maxDepth - 1) then none
  let _ ← Json.optional? answered? (← Json.once? "response" members)
  some {
    apiVersion := ← text "apiVersion"
    kind := ← text "kind"
    request := ← ReviewRequest.ofJson? (← (← Json.once? "request" members)) }

/-- The uid of a request that is in no good order, as far as the text can be read at all. -/
def salvagedUid (j : Option Json) : String :=
  (do
    let j ← j
    if !j.readableWithin Json.maxDepth then none
    let request ← Json.get? "request" (← j.members?)
    let uid ← Json.get? "uid" (← request.members?)
    uid.string?).getD ""

end Review

end SharedQuota
