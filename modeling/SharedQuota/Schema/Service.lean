import SharedQuota.Schema.Metadata

/-!
Services.
-/

namespace SharedQuota.Schema

def servicePort : Schema := ofFields <|
  fields text ["appProtocol", "name", "protocol"] ++ fields int32 ["nodePort", "port"] ++
  [("targetPort", numberOrText)]

def serviceSpec : Schema := ofFields <|
  fields text ["clusterIP", "externalName", "externalTrafficPolicy", "internalTrafficPolicy",
    "ipFamilyPolicy", "loadBalancerClass", "loadBalancerIP", "sessionAffinity",
    "trafficDistribution", "type"] ++
  fields texts ["clusterIPs", "externalIPs", "ipFamilies", "loadBalancerSourceRanges"] ++
  fields flag ["allocateLoadBalancerNodePorts", "publishNotReadyAddresses"] ++
  [("healthCheckNodePort", int32),
    ("ports", list servicePort),
    ("selector", table text),
    ("sessionAffinityConfig",
      ofFields [("clientIP", ofFields [("timeoutSeconds", int32)])])]

def balancerIngress : Schema := ofFields <|
  fields text ["hostname", "ip", "ipMode"] ++
  [("ports", list (ofFields (fields text ["error", "protocol"] ++ [("port", int32)])))]

def serviceStatus : Schema := ofFields [
  ("conditions", list (condition [("observedGeneration", int64)])),
  ("loadBalancer", ofFields [("ingress", list balancerIngress)])]

def serviceFields : List (String × Schema) :=
  [("metadata", metadata), ("spec", serviceSpec), ("status", serviceStatus)]

end SharedQuota.Schema
