import SharedQuota.Metadata
import SharedQuota.Quantity.Notation
import SharedQuota.Resource.List

/-!
Quotas that limit the usage of a set of namespaces together, with the usage last recorded of them.
Amounts are kept as written and read when they are needed.
-/

namespace SharedQuota

abbrev WrittenAmounts := Table String String

structure InvalidAmount where
  resource : String
  cause : Quantity.ParseError
deriving DecidableEq

def InvalidAmount.message (e : InvalidAmount) : String :=
  "invalid quantity for " ++ e.resource ++ ": " ++ e.cause.message

def readAmount (resource amount : String) : Except InvalidAmount Quantity :=
  (Quantity.parse amount).mapError (⟨resource, ·⟩)

namespace WrittenAmounts

/-- The amounts by canonical name, in the order of the names as written. -/
def pairs (w : WrittenAmounts) : Except InvalidAmount (List (ResourceName × Quantity)) :=
  w.entries.mapM fun (name, amount) => (readAmount name amount).map (.ofText name, ·)

/-- Amounts for one resource are added. -/
def total (w : WrittenAmounts) : Except InvalidAmount ResourceList :=
  (pairs w).map ResourceList.ofPairs

/-- Of limits for one resource the lowest applies. -/
def lowest (w : WrittenAmounts) : Except InvalidAmount ResourceList :=
  (pairs w).map fun ps => ps.foldl (fun l (r, q) =>
    match l.get? r with
    | some old => if q < old then l.insert r q else l
    | none => l.insert r q) Table.empty

end WrittenAmounts

structure UsageRecord where
  hard : WrittenAmounts
  used : WrittenAmounts
deriving DecidableEq

structure NamespaceUsage where
  name : String
  used : WrittenAmounts
deriving DecidableEq

/-- Usage as last aggregated. -/
structure QuotaStatus where
  total : UsageRecord
  namespaces : List NamespaceUsage
  lastSync : Option String
deriving DecidableEq

structure QuotaSpec where
  selector : Option Selector
  hard : WrittenAmounts
deriving DecidableEq

structure Quota where
  metadata : Metadata
  spec : QuotaSpec
  status : Option QuotaStatus

namespace Quota

def name (q : Quota) : String := q.metadata.anyName

def hardLimits (q : Quota) : Except InvalidAmount ResourceList := q.spec.hard.lowest

def records (q : Quota) : List NamespaceUsage := (q.status.map (·.namespaces)).getD []

/-- The namespaces the status accounts for. -/
def tracked (q : Quota) : List String := q.records.map (·.name)

def lastSync (q : Quota) : Option String := q.status.bind (·.lastSync)

def usedTotal (q : Quota) : Except InvalidAmount (Option ResourceList) :=
  match q.status with
  | none => .ok none
  | some s => s.total.used.total.map some

/-- What the first record of a namespace says. -/
def usedIn (q : Quota) (name : String) : Except InvalidAmount (Option ResourceList) :=
  match q.records.find? (·.name == name) with
  | none => .ok none
  | some r => r.used.total.map some

end Quota

end SharedQuota
