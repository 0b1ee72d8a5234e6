import SharedQuota.Resource.List

/-!
What becomes of a request: it is allowed, or denied for one of six causes. `Exceeded.check?` is the
comparison of a request with a quota's limits.
-/

namespace SharedQuota

structure Exceeded where
  quota : String
  resource : ResourceName
  used : Quantity
  requested : Quantity
  limit : Quantity
deriving DecidableEq

namespace Exceeded

def message (e : Exceeded) : String :=
  let amount (q : Quantity) := e.resource.text ++ "=" ++ q.text
  "exceeded quota: " ++ e.quota ++ ", requested: " ++ amount e.requested ++
    ", used: " ++ amount e.used ++ ", limited: " ++ amount e.limit

/-- The first resource, in name order, that is limited, grows, and would pass its limit. A sum that
equals the limit is within it. -/
def check? (quota : String) (hard used requested : ResourceList) : Option Exceeded :=
  requested.entries.findSome? fun (r, delta) =>
    if delta ≤ 0 then none
    else (hard.get? r).bind fun limit =>
      let current := used.amount r
      if limit < current + delta then some ⟨quota, r, current, delta, limit⟩ else none

end Exceeded

/-- Every way a request can end other than being allowed. -/
inductive Denial
  | undecodable (why : String)
  | unreadable (kind why : String)
  | unavailable (why : String)
  | exceeded (e : Exceeded)
  | invalidQuota (why : String)
  | unsupported (what : String)
deriving DecidableEq

def Denial.message : Denial → String
  | .undecodable why => "failed to decode admission review: " ++ why
  | .unreadable kind why => "failed to read " ++ kind ++ ": " ++ why
  | .unavailable why => "service unavailable: " ++ why
  | .exceeded e => e.message
  | .invalidQuota why => "invalid ClusterResourceQuota: " ++ why
  | .unsupported what => "unsupported resource type: " ++ what

/-- How a request ends whose decision broke off. -/
def panicked : Denial := .unavailable "internal error while admitting request"

inductive Outcome
  | allowed
  | denied
  | errored
deriving DecidableEq

def Outcome.text : Outcome → String
  | .allowed => "allowed"
  | .denied => "denied"
  | .errored => "errored"

inductive Reason
  | allowed
  | quotaExceeded
  | invalidQuotaObject
  | decode
  | extraction
  | unsupportedKind
  | serviceUnavailable
deriving DecidableEq

namespace Reason

def text : Reason → String
  | allowed => "allowed"
  | quotaExceeded => "quota_exceeded"
  | invalidQuotaObject => "invalid_quota_object"
  | decode => "decode"
  | extraction => "extraction"
  | unsupportedKind => "unsupported_kind"
  | serviceUnavailable => "service_unavailable"

def code : Reason → Nat
  | allowed => 200
  | quotaExceeded => 403
  | invalidQuotaObject => 422
  | decode | extraction | unsupportedKind => 400
  | serviceUnavailable => 500

def status : Reason → String
  | allowed => ""
  | quotaExceeded => "Forbidden"
  | invalidQuotaObject => "Invalid"
  | decode | extraction | unsupportedKind => "BadRequest"
  | serviceUnavailable => "InternalError"

def outcome : Reason → Outcome
  | allowed => .allowed
  | quotaExceeded | invalidQuotaObject => .denied
  | decode | extraction | unsupportedKind | serviceUnavailable => .errored

end Reason

def Denial.reason : Denial → Reason
  | .undecodable _ => .decode
  | .unreadable _ _ => .extraction
  | .unavailable _ => .serviceUnavailable
  | .exceeded _ => .quotaExceeded
  | .invalidQuota _ => .invalidQuotaObject
  | .unsupported _ => .unsupportedKind

structure Decision where
  reason : Reason
  message : String
deriving DecidableEq

namespace Decision

def isAllowed (d : Decision) : Bool := d.reason == .allowed

def ofResult : Except Denial Unit → Decision
  | .ok () => ⟨.allowed, ""⟩
  | .error d => ⟨d.reason, d.message⟩

end Decision

end SharedQuota
