import SharedQuota.Quota.Json
import SharedQuota.Schema.Namespace
import SharedQuota.Schema.Pod
import SharedQuota.Schema.Service

/-!
The objects whose creation adds usage: pods, persistent volume claims and services, with the parts
of them that usage is read from. An object is first read by its schema as a whole; of what that
gives the parts are then taken.
-/

namespace SharedQuota

/-- What a container requests and what it is limited to. -/
structure Container where
  requests : WrittenAmounts
  limits : WrittenAmounts
deriving DecidableEq

structure PodSpec where
  containers : List Container
  initContainers : List Container
deriving DecidableEq

structure Pod where
  metadata : Metadata
  spec : Option PodSpec
  phase : Option String

structure ClaimSpec where
  requests : WrittenAmounts
  storageClass : Option String
deriving DecidableEq

structure Claim where
  metadata : Metadata
  spec : Option ClaimSpec

/-- `ports` is the number of ports. -/
structure ServiceSpec where
  type : Option String
  ports : Nat
  allocateNodePorts : Option Bool
deriving DecidableEq

structure Service where
  metadata : Metadata
  spec : Option ServiceSpec

/-! ### Reading -/

namespace Json

def textAt (key : String) (members : List (String × Json)) : Option String :=
  (get? key members).bind string?

/-- The members of the object under a key. -/
def membersAt (key : String) (members : List (String × Json)) : Option (List (String × Json)) :=
  (get? key members).bind members?

/-- The members of each object of the array under a key. -/
def objectsAt (key : String) (members : List (String × Json)) : List (List (String × Json)) :=
  (((get? key members).bind items?).getD []).filterMap members?

def amountsAt (key : String) (members : List (String × Json)) : WrittenAmounts :=
  ((get? key members).bind WrittenAmounts.ofJson?).getD Table.empty

def metadataAt (members : List (String × Json)) : Metadata :=
  ((membersAt "metadata" members).map Metadata.ofMembers).getD .empty

end Json

namespace Container

def ofMembers (members : List (String × Json)) : Container :=
  let resources := (Json.membersAt "resources" members).getD []
  ⟨Json.amountsAt "requests" resources, Json.amountsAt "limits" resources⟩

end Container

namespace Pod

def specOfMembers (members : List (String × Json)) : PodSpec where
  containers := (Json.objectsAt "containers" members).map Container.ofMembers
  initContainers := (Json.objectsAt "initContainers" members).map Container.ofMembers

def ofJson? (j : Json) : Option Pod := do
  let members ← Schema.object? "Pod" Schema.podFields j
  some {
    metadata := Json.metadataAt members
    spec := (Json.membersAt "spec" members).map specOfMembers
    phase := (Json.membersAt "status" members).bind (Json.textAt "phase") }

end Pod

namespace Claim

def specOfMembers (members : List (String × Json)) : ClaimSpec where
  requests := Json.amountsAt "requests" ((Json.membersAt "resources" members).getD [])
  storageClass := Json.textAt "storageClassName" members

def ofJson? (j : Json) : Option Claim := do
  let members ← Schema.object? "PersistentVolumeClaim" Schema.claimFields j
  some {
    metadata := Json.metadataAt members
    spec := (Json.membersAt "spec" members).map specOfMembers }

end Claim

namespace Service

def specOfMembers (members : List (String × Json)) : ServiceSpec where
  type := Json.textAt "type" members
  ports := (Json.objectsAt "ports" members).length
  allocateNodePorts := (Json.get? "allocateLoadBalancerNodePorts" members).bind Json.bool?

def ofJson? (j : Json) : Option Service := do
  let members ← Schema.object? "Service" Schema.serviceFields j
  some {
    metadata := Json.metadataAt members
    spec := (Json.membersAt "spec" members).map specOfMembers }

end Service

def namespaceOfJson? (j : Json) : Option Metadata := do
  some (Json.metadataAt (← Schema.object? "Namespace" Schema.namespaceFields j))

end SharedQuota
