import SharedQuota.Schema.Metadata

/-!
Containers of pods: what they run, how they are watched, what they may use, and what is known of
them while they run.
-/

namespace SharedQuota.Schema

/-! ### Environment -/

def keyReference : Schema := ofFields <| fields text ["key", "name"] ++ [("optional", flag)]

def ownField : Schema := ofTexts ["apiVersion", "fieldPath"]

def ownResource : Schema := ofTexts ["containerName", "divisor", "resource"]

def environmentVariable : Schema := ofFields <|
  fields text ["name", "value"] ++
  [("valueFrom", ofFields [
    ("configMapKeyRef", keyReference),
    ("fieldRef", ownField),
    ("resourceFieldRef", ownResource),
    ("secretKeyRef", keyReference)])]

def environmentSource : Schema :=
  let whole := ofFields [("name", text), ("optional", flag)]
  ofFields [("configMapRef", whole), ("prefix", text), ("secretRef", whole)]

/-! ### Probes -/

def command : Schema := ofFields [("command", texts)]

def httpRequest : Schema := ofFields <|
  fields text ["host", "path", "scheme"] ++
  [("httpHeaders", list (ofTexts ["name", "value"])), ("port", numberOrText)]

def connection : Schema := ofFields [("host", text), ("port", numberOrText)]

def probe : Schema := ofFields <|
  fields int32 ["failureThreshold", "initialDelaySeconds", "periodSeconds", "successThreshold",
    "timeoutSeconds"] ++
  [("exec", command),
    ("grpc", ofFields [("port", int32), ("service", text)]),
    ("httpGet", httpRequest),
    ("tcpSocket", connection),
    ("terminationGracePeriodSeconds", int64)]

def hook : Schema := ofFields [
  ("exec", command),
  ("httpGet", httpRequest),
  ("sleep", ofFields [("seconds", int64)]),
  ("tcpSocket", connection)]

def lifecycle : Schema := ofFields <| fields hook ["postStart", "preStop"] ++ [("stopSignal", text)]

/-! ### Resources and rights -/

def resources : Schema := ofFields <|
  [("claims", list (ofTexts ["name", "request"]))] ++ fields amounts ["limits", "requests"]

def profile : Schema := ofTexts ["localhostProfile", "type"]

def securityLabel : Schema := ofTexts ["level", "role", "type", "user"]

def windowsRights : Schema := ofFields <|
  fields text ["gmsaCredentialSpec", "gmsaCredentialSpecName", "runAsUserName"] ++
  [("hostProcess", flag)]

def sharedRights : List (String × Schema) :=
  fields profile ["appArmorProfile", "seccompProfile"] ++
  fields int64 ["runAsGroup", "runAsUser"] ++
  [("runAsNonRoot", flag), ("seLinuxOptions", securityLabel), ("windowsOptions", windowsRights)]

def rights : Schema := ofFields <|
  sharedRights ++
  fields flag ["allowPrivilegeEscalation", "privileged", "readOnlyRootFilesystem"] ++
  [("capabilities", ofFields (fields texts ["add", "drop"])), ("procMount", text)]

/-! ### Containers -/

def containerPort : Schema := ofFields <|
  fields int32 ["containerPort", "hostPort"] ++ fields text ["hostIP", "name", "protocol"]

def mount : Schema := ofFields <|
  fields text ["mountPath", "mountPropagation", "name", "recursiveReadOnly", "subPath",
    "subPathExpr"] ++
  [("readOnly", flag)]

def containerFields : List (String × Schema) :=
  fields text ["image", "imagePullPolicy", "name", "restartPolicy", "terminationMessagePath",
    "terminationMessagePolicy", "workingDir"] ++
  fields flag ["stdin", "stdinOnce", "tty"] ++
  fields texts ["args", "command"] ++
  fields probe ["livenessProbe", "readinessProbe", "startupProbe"] ++
  [("env", list environmentVariable),
    ("envFrom", list environmentSource),
    ("lifecycle", lifecycle),
    ("ports", list containerPort),
    ("resizePolicy", list (ofTexts ["resourceName", "restartPolicy"])),
    ("resources", resources),
    ("securityContext", rights),
    ("volumeDevices", list (ofTexts ["devicePath", "name"])),
    ("volumeMounts", list mount)]

def container : Schema := ofFields containerFields

def ephemeralContainer : Schema := ofFields (containerFields ++ [("targetContainerName", text)])

/-! ### Status -/

def containerState : Schema := ofFields [
  ("running", ofFields [("startedAt", time)]),
  ("terminated", ofFields <|
    fields text ["containerID", "message", "reason"] ++ fields int32 ["exitCode", "signal"] ++
    fields time ["finishedAt", "startedAt"]),
  ("waiting", ofTexts ["message", "reason"])]

def deviceHealth : Schema := ofFields [
  ("name", text),
  ("resources", list (ofTexts ["health", "resourceID"]))]

def containerStatus : Schema := ofFields <|
  fields text ["containerID", "image", "imageID", "name", "stopSignal"] ++
  fields flag ["ready", "started"] ++
  fields containerState ["lastState", "state"] ++
  [("allocatedResources", amounts),
    ("allocatedResourcesStatus", list deviceHealth),
    ("resources", resources),
    ("restartCount", int32),
    ("user", ofFields [("linux", ofFields <|
      fields int64 ["gid", "uid"] ++ [("supplementalGroups", list int64)])]),
    ("volumeMounts", list (ofFields <|
      fields text ["mountPath", "name", "recursiveReadOnly"] ++ [("readOnly", flag)]))]

end SharedQuota.Schema
