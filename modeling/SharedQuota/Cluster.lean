import SharedQuota.Json
import SharedQuota.Scope

/-!
What the process reads of the cluster. A read is described by the requests it makes, the time it
takes and how it ends.
-/

namespace SharedQuota

structure ApiRequest where
  method : String
  path : String
  selector : Option String
  body : Option Json

namespace ApiRequest

def text (r : ApiRequest) : String := r.method ++ " " ++ r.path

end ApiRequest

inductive ReadFault
  | failed (why : String)
  | panicked
deriving DecidableEq

/-- A read: its requests, made one after the other, the milliseconds it waits, and its answer. -/
structure Fetch (α : Type) where
  requests : List ApiRequest
  delay : Nat
  answer : Except ReadFault α

structure Cluster where
  namespaces : Fetch (List Namespace)
  quotas : Fetch (List Quota)
  usage : String → KeySet ResourceName → Fetch ResourceList

end SharedQuota
