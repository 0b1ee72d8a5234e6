import SharedQuota.Schema.Claim
import SharedQuota.Schema.Container

/-!
Volumes of pods, one field for each source that a volume can come from.
-/

namespace SharedQuota.Schema

def projectedKey : Schema := ofFields <| fields text ["key", "path"] ++ [("mode", int32)]

/-- A field of the pod that is projected to a path. -/
def projectedField : Schema := ofFields [
  ("fieldRef", ownField), ("mode", int32), ("path", text), ("resourceFieldRef", ownResource)]

/-- Keys of a map or of a secret with the texts that name it. -/
def projectedKeys (names : List String) (more : List (String × Schema)) : Schema := ofFields <|
  fields text names ++ [("items", list projectedKey), ("optional", flag)] ++ more

def projection : Schema := ofFields [
  ("clusterTrustBundle", ofFields <|
    fields text ["name", "path", "signerName"] ++
    [("labelSelector", labelSelector), ("optional", flag)]),
  ("configMap", projectedKeys ["name"] []),
  ("downwardAPI", ofFields [("items", list projectedField)]),
  ("secret", projectedKeys ["name"] []),
  ("serviceAccountToken", ofFields <|
    fields text ["audience", "path"] ++ [("expirationSeconds", int64)])]

/-- A device or a share that may be read only, described by texts. -/
def share (names : List String) (more : List (String × Schema)) : Schema := ofFields <|
  fields text names ++ [("readOnly", flag)] ++ more

/-- A share that a secret opens. -/
def securedShare (names : List String) (more : List (String × Schema)) : Schema :=
  share names (("secretRef", localReference) :: more)

def networkSources : List (String × Schema) := [
  ("cephfs", securedShare ["path", "secretFile", "user"] [("monitors", texts)]),
  ("cinder", securedShare ["fsType", "volumeID"] []),
  ("csi", share ["driver", "fsType"]
    [("nodePublishSecretRef", localReference), ("volumeAttributes", table text)]),
  ("fc", share ["fsType"]
    [("lun", int32), ("targetWWNs", texts), ("wwids", texts)]),
  ("flexVolume", securedShare ["driver", "fsType"] [("options", table text)]),
  ("flocker", ofTexts ["datasetName", "datasetUUID"]),
  ("glusterfs", share ["endpoints", "path"] []),
  ("iscsi", securedShare ["fsType", "initiatorName", "iqn", "iscsiInterface", "targetPortal"] <|
    fields flag ["chapAuthDiscovery", "chapAuthSession"] ++
    [("lun", int32), ("portals", texts)]),
  ("nfs", share ["path", "server"] []),
  ("quobyte", share ["group", "registry", "tenant", "user", "volume"] []),
  ("rbd", securedShare ["fsType", "image", "keyring", "pool", "user"] [("monitors", texts)]),
  ("scaleIO", securedShare
    ["fsType", "gateway", "protectionDomain", "storageMode", "storagePool", "system", "volumeName"]
    [("sslEnabled", flag)]),
  ("storageos", securedShare ["fsType", "volumeName", "volumeNamespace"] [])]

def providerSources : List (String × Schema) := [
  ("awsElasticBlockStore", share ["fsType", "volumeID"] [("partition", int32)]),
  ("azureDisk", share ["cachingMode", "diskName", "diskURI", "fsType", "kind"] []),
  ("azureFile", share ["secretName", "shareName"] []),
  ("gcePersistentDisk", share ["fsType", "pdName"] [("partition", int32)]),
  ("photonPersistentDisk", ofTexts ["fsType", "pdID"]),
  ("portworxVolume", share ["fsType", "volumeID"] []),
  ("vsphereVolume", ofTexts ["fsType", "storagePolicyID", "storagePolicyName", "volumePath"])]

def clusterSources : List (String × Schema) := [
  ("configMap", projectedKeys ["name"] [("defaultMode", int32)]),
  ("downwardAPI", ofFields [("defaultMode", int32), ("items", list projectedField)]),
  ("emptyDir", ofTexts ["medium", "sizeLimit"]),
  ("ephemeral", ofFields [
    ("volumeClaimTemplate", ofFields [("metadata", metadata), ("spec", claimSpec)])]),
  ("gitRepo", ofTexts ["directory", "repository", "revision"]),
  ("hostPath", ofTexts ["path", "type"]),
  ("image", ofTexts ["pullPolicy", "reference"]),
  ("persistentVolumeClaim", share ["claimName"] []),
  ("projected", ofFields [("defaultMode", int32), ("sources", list projection)]),
  ("secret", projectedKeys ["secretName"] [("defaultMode", int32)])]

def volume : Schema :=
  ofFields ([("name", text)] ++ clusterSources ++ networkSources ++ providerSources)

end SharedQuota.Schema
