import SharedQuota.Table
import SharedQuota.Text.Quoted

/-!
Labels and the selectors that choose by them. A selector holds of labels when all of its label pairs
and all of its expressions do; one without either holds of everything.
-/

namespace SharedQuota

abbrev Labels := Table String String

inductive Operator
  | oneOf
  | noneOf
  | present
  | absent
deriving DecidableEq

namespace Operator

def text : Operator → String
  | oneOf => "In"
  | noneOf => "NotIn"
  | present => "Exists"
  | absent => "DoesNotExist"

def ofText? : String → Option Operator
  | "In" => some oneOf
  | "NotIn" => some noneOf
  | "Exists" => some present
  | "DoesNotExist" => some absent
  | _ => none

@[simp] theorem ofText?_text (o : Operator) : ofText? o.text = some o := by
  cases o <;> decide

/-- Whether the operator compares with values. -/
def takesValues : Operator → Bool
  | oneOf | noneOf => true
  | present | absent => false

end Operator

/-- A condition on the value of one label. -/
structure Expression where
  key : String
  operator : Operator
  values : KeySet String
deriving DecidableEq

namespace Expression

def holds (e : Expression) (labels : Labels) : Bool :=
  match e.operator with
  | .oneOf => (labels.get? e.key).any e.values.contains
  | .noneOf => (labels.get? e.key).all fun v => !e.values.contains v
  | .present => labels.contains e.key
  | .absent => !labels.contains e.key

end Expression

structure Selector where
  matchLabels : Option Labels
  matchExpressions : Option (List Expression)
deriving DecidableEq

namespace Selector

def pairs (s : Selector) : List (String × String) := (s.matchLabels.map (·.entries)).getD []

def expressions (s : Selector) : List Expression := s.matchExpressions.getD []

def selects (s : Selector) (labels : Labels) : Bool :=
  s.expressions.all (·.holds labels) && s.pairs.all fun (k, v) => labels.get? k == some v

def keys (s : Selector) : List String := s.pairs.map (·.1) ++ s.expressions.map (·.key)

def values (s : Selector) : List String :=
  s.pairs.map (·.2) ++ s.expressions.flatMap (·.values.toList)

/-- An expression whose values do not fit its operator. -/
inductive Fault
  | missingValues (key : String) (operator : Operator)
  | unexpectedValues (key : String) (operator : Operator)
deriving DecidableEq

def Fault.message : Fault → String
  | .missingValues key o =>
    "operator " ++ o.text ++ " on key " ++ Text.quoted key ++ " requires at least one value"
  | .unexpectedValues key o =>
    "operator " ++ o.text ++ " on key " ++ Text.quoted key ++ " must not have values"

def fault? (e : Expression) : Option Fault :=
  if e.operator.takesValues && e.values.isEmpty then some (.missingValues e.key e.operator)
  else if !e.operator.takesValues && !e.values.isEmpty then
    some (.unexpectedValues e.key e.operator)
  else none

def firstFault? (s : Selector) : Option Fault := s.expressions.findSome? fault?

end Selector

end SharedQuota
