import SharedQuota.Name
import SharedQuota.Quota

/-!
The shape a quota must have: every limit under a name of its own that is a qualified name, not
negative, and a selector whose parts are in order.
-/

namespace SharedQuota

inductive QuotaFault
  | resourceName (name : String)
  | amount (e : InvalidAmount)
  | negative (resource value : String)
  | duplicate (resource : ResourceName) (first second : String)
  | selector (fault : Selector.Fault)
  | labelKey (key : String)
  | labelValue (value : String)
deriving DecidableEq

def QuotaFault.message : QuotaFault → String
  | .resourceName name => "resource name " ++ Text.quoted name ++ " is not a valid qualified name"
  | .amount e => e.message
  | .negative resource value => "hard limit for " ++ resource ++ " must not be negative: " ++ value
  | .duplicate resource first second =>
    "hard limits " ++ Text.quoted first ++ " and " ++ Text.quoted second ++ " both name " ++
      resource.text
  | .selector fault => "invalid namespace selector: " ++ fault.message
  | .labelKey key =>
    "namespace selector label key " ++ Text.quoted key ++ " is not a valid qualified name"
  | .labelValue value => "namespace selector label value " ++ Text.quoted value ++ " is invalid"

namespace QuotaSpec

/-- The limits entered in order. `seen` holds the spelling under which each resource was met. -/
def enterLimits (seen : Table ResourceName String) (limits : ResourceList) :
    List (String × String) → Except QuotaFault ResourceList
  | [] => .ok limits
  | (key, value) :: rest => do
    if !Name.isQualified key then throw (.resourceName key)
    let name := ResourceName.ofText key
    if let some first := seen.get? name then throw (.duplicate name first key)
    let limit ← (readAmount key value).mapError .amount
    if limit.isNegative then throw (.negative key value)
    enterLimits (seen.insert name key) (limits.insert name limit) rest

def validateSelector (s : Selector) : Except QuotaFault Unit := do
  if let some fault := s.firstFault? then throw (.selector fault)
  if let some key := s.keys.find? (!Name.isQualified ·) then throw (.labelKey key)
  if let some value := s.values.find? (!Name.isLabelValue ·) then throw (.labelValue value)

/-- The limits of a quota in order. -/
def validate (spec : QuotaSpec) : Except QuotaFault ResourceList := do
  let limits ← enterLimits Table.empty Table.empty spec.hard.entries
  if let some s := spec.selector then validateSelector s
  return limits

end QuotaSpec

end SharedQuota
