/-!
JSON values. An object keeps its members in the order written, a key given twice included.
-/

namespace SharedQuota

/-- A number: a whole number written in plain digits, or `coefficient * 10 ^ exponent`. -/
inductive Json.Number
  | integer (value : Int)
  | decimal (coefficient exponent : Int)
deriving DecidableEq

/-- A value. `unreadable` stands for a text that has the form of a value but denotes none: a number
beyond the doubles, or a string or key with half of a surrogate pair. -/
inductive Json
  | null
  | bool (b : Bool)
  | number (n : Json.Number)
  | string (s : String)
  | array (items : List Json)
  | object (members : List (String × Json))
  | unreadable

namespace Json

instance : Inhabited Json := ⟨.null⟩

def int (n : Int) : Json := .number (.integer n)

mutual

def depth : Json → Nat
  | .array items => depthItems items + 1
  | .object members => depthMembers members + 1
  | _ => 0

def depthItems : List Json → Nat
  | [] => 0
  | j :: rest => max (depth j) (depthItems rest)

def depthMembers : List (String × Json) → Nat
  | [] => 0
  | (_, j) :: rest => max (depth j) (depthMembers rest)

end

mutual

def readable : Json → Bool
  | .unreadable => false
  | .array items => readableItems items
  | .object members => readableMembers members
  | _ => true

def readableItems : List Json → Bool
  | [] => true
  | j :: rest => readable j && readableItems rest

def readableMembers : List (String × Json) → Bool
  | [] => true
  | (_, j) :: rest => readable j && readableMembers rest

end

def maxDepth : Nat := 127

/-- Whether a value denotes one throughout and is nested no deeper than `depth`. -/
def readableWithin (depth : Nat) (j : Json) : Bool := j.readable && j.depth ≤ depth

/-! ### Parts of a value -/

def string? : Json → Option String
  | .string s => some s
  | _ => none

def bool? : Json → Option Bool
  | .bool b => some b
  | _ => none

def integer? : Json → Option Int
  | .number (.integer n) => some n
  | _ => none

def items? : Json → Option (List Json)
  | .array items => some items
  | _ => none

def members? : Json → Option (List (String × Json))
  | .object members => some members
  | _ => none

def under (key : String) (members : List (String × Json)) : List Json :=
  (members.filter (·.1 == key)).map (·.2)

/-- The value under a key; of several the last stands. -/
def get? (key : String) (members : List (String × Json)) : Option Json :=
  (under key members).getLast?

end Json

end SharedQuota
