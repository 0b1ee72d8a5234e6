import SharedQuota.Schema.Metadata

/-!
Claims of persistent volumes.
-/

namespace SharedQuota.Schema

/-- What a claim requests and what it is limited to. -/
def storage : Schema := ofFields (fields amounts ["limits", "requests"])

def claimSpec : Schema := ofFields <|
  fields text ["storageClassName", "volumeAttributesClassName", "volumeMode", "volumeName"] ++
  [("accessModes", texts),
    ("dataSource", ofTexts ["apiGroup", "kind", "name"]),
    ("dataSourceRef", ofTexts ["apiGroup", "kind", "name", "namespace"]),
    ("resources", storage),
    ("selector", labelSelector)]

def claimStatus : Schema := ofFields <|
  fields text ["currentVolumeAttributesClassName", "phase"] ++
  fields amounts ["allocatedResources", "capacity"] ++
  [("accessModes", texts),
    ("allocatedResourceStatuses", table text),
    ("conditions", list (condition [("lastProbeTime", time)])),
    ("modifyVolumeStatus", ofTexts ["status", "targetVolumeAttributesClassName"])]

def claimFields : List (String × Schema) :=
  [("metadata", metadata), ("spec", claimSpec), ("status", claimStatus)]

end SharedQuota.Schema
