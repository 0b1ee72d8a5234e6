import SharedQuota.Schema

/-!
What objects of every kind share: their metadata, and the parts by which they refer to one another.
-/

namespace SharedQuota.Schema

/-- Who wrote which fields of an object last. -/
def managedFields : Schema := ofFields <|
  fields text ["apiVersion", "fieldsType", "manager", "operation", "subresource"] ++
  [("fieldsV1", any), ("time", time)]

def ownerReference : Schema := record ["apiVersion", "kind", "name", "uid"] <|
  fields flag ["blockOwnerDeletion", "controller"]

def metadata : Schema := ofFields <|
  fields text
    ["generateName", "name", "namespace", "resourceVersion", "selfLink", "uid"] ++
  fields (table text) ["annotations", "labels"] ++
  fields time ["creationTimestamp", "deletionTimestamp"] ++
  fields int64 ["deletionGracePeriodSeconds", "generation"] ++
  [("finalizers", texts),
    ("managedFields", list managedFields),
    ("ownerReferences", list ownerReference)]

/-- A selector over labels, as it stands in workloads. -/
def labelSelector : Schema := ofFields [
  ("matchExpressions",
    list (ofFields (fields text ["key", "operator"] ++ [("values", texts)]))),
  ("matchLabels", table text)]

def localReference : Schema := ofTexts ["name"]

def objectReference : Schema :=
  ofTexts ["apiVersion", "fieldPath", "kind", "name", "namespace", "resourceVersion", "uid"]

/-- A condition with the times and the fields that a kind adds to it. -/
def condition (more : List (String × Schema)) : Schema := ofFields <|
  fields text ["message", "reason", "status", "type"] ++ [("lastTransitionTime", time)] ++ more

end SharedQuota.Schema
