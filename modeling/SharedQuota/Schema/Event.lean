import SharedQuota.Schema.Metadata

/-!
Events of the cluster.
-/

namespace SharedQuota.Schema

def eventFields : List (String × Schema) :=
  fields text ["action", "message", "reason", "reportingComponent", "reportingInstance", "type"] ++
  fields time ["firstTimestamp", "lastTimestamp"] ++
  fields objectReference ["involvedObject", "related"] ++
  [("count", int32),
    ("eventTime", preciseTime),
    ("metadata", metadata),
    ("series", ofFields [("count", int32), ("lastObservedTime", preciseTime)]),
    ("source", ofTexts ["component", "host"])]

end SharedQuota.Schema
