import SharedQuota.Workload.Usage

/-!
The objects of a namespace and the usage they add up to.
-/

namespace SharedQuota

/-- The objects of one namespace; of the counted kinds only their number. -/
structure Contents where
  pods : List Pod
  claims : List Claim
  services : List Service
  counted : ObjectCountKind → Nat

namespace Contents

def empty : Contents := ⟨[], [], [], fun _ => 0⟩

/-- Adds what can be told of each object; an object whose usage cannot be told adds nothing. -/
def addReadable (usage : ResourceList) (objects : List (Except UsageFault ResourceList)) :
    ResourceList :=
  objects.foldl (fun sum o => match o with
    | .ok used => sum.addAll used
    | .error _ => sum) usage

def countedKinds (kinds : ObjectCountKinds) (resources : KeySet ResourceName) :
    List ObjectCountKind :=
  kinds.values.filter fun k => resources.contains k.countResource

/-- The usage of the resources asked for. Objects of a kind are looked at only if some resource
asked for is one that the kind contributes to. -/
def usage (c : Contents) (x : Extractor) (kinds : ObjectCountKinds)
    (resources : KeySet ResourceName) : ResourceList :=
  let asked := resources.toList
  let ofKind {α : Type} (contributes : ResourceName → Bool) (objects : List α)
      (extract : α → Except UsageFault ResourceList) (sum : ResourceList) : ResourceList :=
    if asked.any contributes then addReadable sum (objects.map extract) else sum
  let sum := ofKind ResourceName.ofPods c.pods x.podHeld Table.empty
  let sum := ofKind ResourceName.ofClaims c.claims x.claim sum
  let sum := ofKind ResourceName.ofServices c.services x.service sum
  let sum := (countedKinds kinds resources).foldl
    (fun sum k => sum.add k.countResource (.ofUnits (c.counted k))) sum
  sum.restrict asked

end Contents

end SharedQuota
