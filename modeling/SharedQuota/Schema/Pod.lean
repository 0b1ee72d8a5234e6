import SharedQuota.Schema.Volume

/-!
Pods.
-/

namespace SharedQuota.Schema

/-! ### Where a pod may run -/

def nodeRequirement : Schema := ofFields <| fields text ["key", "operator"] ++ [("values", texts)]

def nodeTerm : Schema :=
  ofFields (fields (list nodeRequirement) ["matchExpressions", "matchFields"])

def nodeAffinity : Schema := ofFields [
  ("preferredDuringSchedulingIgnoredDuringExecution",
    list (ofFields [("preference", nodeTerm), ("weight", int32)])),
  ("requiredDuringSchedulingIgnoredDuringExecution",
    ofFields [("nodeSelectorTerms", list nodeTerm)])]

def podTerm : Schema := ofFields <|
  fields labelSelector ["labelSelector", "namespaceSelector"] ++
  fields texts ["matchLabelKeys", "mismatchLabelKeys", "namespaces"] ++
  [("topologyKey", text)]

/-- What a pod is to be near to, or away from. -/
def podAffinity : Schema := ofFields [
  ("preferredDuringSchedulingIgnoredDuringExecution",
    list (ofFields [("podAffinityTerm", podTerm), ("weight", int32)])),
  ("requiredDuringSchedulingIgnoredDuringExecution", list podTerm)]

def affinity : Schema := ofFields <|
  ("nodeAffinity", nodeAffinity) :: fields podAffinity ["podAffinity", "podAntiAffinity"]

def toleration : Schema := ofFields <|
  fields text ["effect", "key", "operator", "value"] ++ [("tolerationSeconds", int64)]

def spreadConstraint : Schema := ofFields <|
  fields text ["nodeAffinityPolicy", "nodeTaintsPolicy", "topologyKey", "whenUnsatisfiable"] ++
  fields int32 ["maxSkew", "minDomains"] ++
  [("labelSelector", labelSelector), ("matchLabelKeys", texts)]

/-! ### Spec -/

def podRights : Schema := ofFields <|
  sharedRights ++
  fields text ["fsGroupChangePolicy", "seLinuxChangePolicy", "supplementalGroupsPolicy"] ++
  [("fsGroup", int64),
    ("supplementalGroups", list int64),
    ("sysctls", list (ofTexts ["name", "value"]))]

def nameLookup : Schema := ofFields <|
  fields texts ["nameservers", "searches"] ++ [("options", list (ofTexts ["name", "value"]))]

def podSpec : Schema := ofFields <|
  fields text ["dnsPolicy", "hostname", "nodeName", "preemptionPolicy", "priorityClassName",
    "restartPolicy", "runtimeClassName", "schedulerName", "serviceAccount", "serviceAccountName",
    "subdomain"] ++
  fields flag ["automountServiceAccountToken", "enableServiceLinks", "hostIPC", "hostNetwork",
    "hostPID", "hostUsers", "setHostnameAsFQDN", "shareProcessNamespace"] ++
  fields int64 ["activeDeadlineSeconds", "terminationGracePeriodSeconds"] ++
  fields (list container) ["containers", "initContainers"] ++
  [("affinity", affinity),
    ("dnsConfig", nameLookup),
    ("ephemeralContainers", list ephemeralContainer),
    ("hostAliases", list (ofFields [("hostnames", texts), ("ip", text)])),
    ("imagePullSecrets", list localReference),
    ("nodeSelector", table text),
    ("os", ofTexts ["name"]),
    ("overhead", amounts),
    ("priority", int32),
    ("readinessGates", list (ofTexts ["conditionType"])),
    ("resourceClaims",
      list (ofTexts ["name", "resourceClaimName", "resourceClaimTemplateName"])),
    ("resources", resources),
    ("schedulingGates", list (ofTexts ["name"])),
    ("securityContext", podRights),
    ("tolerations", list toleration),
    ("topologySpreadConstraints", list spreadConstraint),
    ("volumes", list volume)]

/-! ### Status -/

def podStatus : Schema := ofFields <|
  fields text ["hostIP", "message", "nominatedNodeName", "phase", "podIP", "qosClass", "reason",
    "resize"] ++
  fields (list (ofTexts ["ip"])) ["hostIPs", "podIPs"] ++
  fields (list containerStatus)
    ["containerStatuses", "ephemeralContainerStatuses", "initContainerStatuses"] ++
  [("conditions", list (condition [("lastProbeTime", time), ("observedGeneration", int64)])),
    ("observedGeneration", int64),
    ("resourceClaimStatuses", list (ofTexts ["name", "resourceClaimName"])),
    ("startTime", time)]

def podFields : List (String × Schema) :=
  [("metadata", metadata), ("spec", podSpec), ("status", podStatus)]

end SharedQuota.Schema
