import SharedQuota.ObjectCount
import SharedQuota.Workload

/-!
The resources that one object uses. A container adds what it states and nothing is inferred from its
limits; regular and init containers count alike.
-/

namespace SharedQuota

inductive UsageFault
  | missingSpec
  | missingStorageRequest
  | amount (e : InvalidAmount)
deriving DecidableEq

def UsageFault.message : UsageFault → String
  | .missingSpec => "object has no spec"
  | .missingStorageRequest => "persistent volume claim does not request storage"
  | .amount e => e.message

def computeResources : List String := ["cpu", "memory", "ephemeral-storage"]

/-- Which resources of containers are summed. -/
structure Extractor where
  tracked : List String
deriving DecidableEq

namespace Extractor

/-- An extractor that sums the named resources too, each once and in order. -/
def ofTracked (names : List String) : Extractor :=
  let extended := names.filter fun r => !r.isEmpty && !computeResources.contains r
  ⟨(KeySet.ofList extended).toList⟩

def summed (x : Extractor) : List String := computeResources ++ x.tracked

/-- Adds one written amount under the name it counts as. -/
def addWritten (usage : ResourceList) (written : WrittenAmounts) (resource : String)
    (name : ResourceName) : Except UsageFault ResourceList :=
  match written.get? resource with
  | none => .ok usage
  | some amount => do
    let q ← (readAmount resource amount).mapError .amount
    return usage.add name q

def addContainer (x : Extractor) (usage : ResourceList) (c : Container) :
    Except UsageFault ResourceList :=
  x.summed.foldlM (fun usage r => do
    let usage ← addWritten usage c.requests r (.requests r)
    addWritten usage c.limits r (.limits r)) usage

def pod (x : Extractor) (p : Pod) : Except UsageFault ResourceList := do
  let some spec := p.spec | throw .missingSpec
  let summed ← (spec.containers ++ spec.initContainers).foldlM x.addContainer Table.empty
  return (summed.nonZero.add .pods .one).add (.objectCount "pods" "") .one

def terminalPhases : List String := ["Succeeded", "Failed"]

/-- What a pod holds; one that has ended holds nothing. -/
def podHeld (x : Extractor) (p : Pod) : Except UsageFault ResourceList :=
  if p.phase.any terminalPhases.contains then .ok Table.empty else x.pod p

def claim (_ : Extractor) (c : Claim) : Except UsageFault ResourceList := do
  let some spec := c.spec | throw .missingSpec
  let some written := spec.requests.get? "storage" | throw .missingStorageRequest
  let storage ← (readAmount ResourceName.storage.text written).mapError .amount
  let base : List (ResourceName × Quantity) :=
    [(.storage, storage), (.claims, .one), (.objectCount "persistentvolumeclaims" "", .one)]
  let ofClass (name : String) : List (ResourceName × Quantity) :=
    if name.isEmpty then []
    else [(.storageClass name "requests.storage", storage),
      (.storageClass name "persistentvolumeclaims", .one)]
  return .ofPairs (base ++ (spec.storageClass.map ofClass).getD [])

def nodePorts (s : ServiceSpec) : Nat :=
  if s.type = some "NodePort" then s.ports
  else if s.type = some "LoadBalancer" ∧ s.allocateNodePorts ≠ some false then s.ports
  else 0

def service (_ : Extractor) (s : Service) : Except UsageFault ResourceList := do
  let some spec := s.spec | throw .missingSpec
  let balancer : List (ResourceName × Quantity) :=
    if spec.type = some "LoadBalancer" then [(.loadBalancers, .one)] else []
  let ports : List (ResourceName × Quantity) :=
    if nodePorts spec = 0 then [] else [(.nodePorts, .ofUnits (nodePorts spec))]
  return .ofPairs ([(.services, .one), (.objectCount "services" "", .one)] ++ balancer ++ ports)

def objectCount (_ : Extractor) (kind : ObjectCountKind) : ResourceList :=
  .ofPairs [(kind.countResource, .one)]

end Extractor

end SharedQuota
