import SharedQuota.Json.Record

/-!
The response that a review may carry along with its request. Nothing is taken from it, but a review
whose response is in no good order is refused.
-/

namespace SharedQuota.Review

def cause? (j : Json) : Option Unit := do
  let fields ← j.strictRecord? 0 ["reason", "message", "field"]
  let _ ← fields.mapM (Json.defaulted? "" Json.string?)

def details? (j : Json) : Option Unit := do
  let [name, group, kind, uid, causes, retryAfter] ←
    j.strictRecord? 0 ["name", "group", "kind", "uid", "causes", "retryAfterSeconds"] | none
  let _ ← [name, group, kind, uid].mapM (Json.defaulted? "" Json.string?)
  let _ ← Json.defaulted? [] (Json.list? cause?) causes
  let _ ← Json.defaulted? 0 (Json.natBelow? (1 <<< 32)) retryAfter

def oneOf? (words : List String) : Json → Option String :=
  Json.word? fun w => if words.contains w then some w else none

def status? (j : Json) : Option Unit := do
  let [status, code, message, reason, details] ←
    j.strictRecord? 0 ["status", "code", "message", "reason", "details"] | none
  let _ ← Json.optional? (oneOf? ["Success", "Failure"]) status
  let _ ← Json.defaulted? 0 (Json.natBelow? (1 <<< 16)) code
  let _ ← [message, reason].mapM (Json.defaulted? "" Json.string?)
  let _ ← Json.optional? details? details

/-- A response; as an array it gives every field. -/
def answered? (j : Json) : Option Unit := do
  let [uid, allowed, status, patch, patchType, annotations, warnings] ← j.strictRecord? 7
    ["uid", "allowed", "status", "patch", "patchType", "auditAnnotations", "warnings"] | none
  let _ ← Json.required? Json.string? uid
  let _ ← Json.required? Json.bool? allowed
  let _ ← Json.required? status? status
  let _ ← Json.optional? (Json.list? (Json.natBelow? (1 <<< 8))) patch
  let _ ← Json.optional? (oneOf? ["JSONPatch"]) patchType
  let _ ← Json.defaulted? Table.empty (Json.table? Json.string?) annotations
  let _ ← Json.optional? (Json.list? Json.string?) warnings

end SharedQuota.Review
