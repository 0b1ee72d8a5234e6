import SharedQuota.Json
import SharedQuota.Table

/-!
Reading records and tables out of JSON values, and writing records back. A record is an object with
named fields, or an array that gives the fields in their order.
-/

namespace SharedQuota.Json

/-- The fields of a record, each absent or given. An array must give the first `required`. -/
def record? (required : Nat) (keys : List String) : Json → Option (List (Option Json))
  | .object members => some (keys.map (get? · members))
  | .array items =>
    if required ≤ items.length && items.length ≤ keys.length then
      some ((List.range keys.length).map (items[·]?))
    else none
  | _ => none

/-- The value under a key, which must not be given twice. -/
def once? (key : String) (members : List (String × Json)) : Option (Option Json) :=
  match under key members with
  | [] => some none
  | [j] => some (some j)
  | _ => none

/-- The fields of a record, as `record?`, but none of them may be given twice. -/
def strictRecord? (required : Nat) (keys : List String) : Json → Option (List (Option Json))
  | .object members => keys.mapM (once? · members)
  | j => record? required keys j

section

variable {α : Type}

/-- A field that may be absent or `null`. -/
def optional? (decode : Json → Option α) : Option Json → Option (Option α)
  | none => some none
  | some .null => some none
  | some j => (decode j).map some

/-- A field that stands for `default` when it is absent. -/
def defaulted? (default : α) (decode : Json → Option α) : Option Json → Option α
  | none => some default
  | some j => decode j

def required? (decode : Json → Option α) : Option Json → Option α
  | none => none
  | some j => decode j

def list? (decode : Json → Option α) : Json → Option (List α)
  | .array items => items.mapM decode
  | _ => none

def table? (decode : Json → Option α) : Json → Option (Table String α)
  | .object members => (members.mapM fun m => (decode m.2).map fun a => (m.1, a)).map Table.ofList
  | _ => none

/-- A set, given as an array in any order. -/
def set? : Json → Option (KeySet String)
  | .array items => (items.mapM string?).map KeySet.ofList
  | _ => none

/-- One of a few words: the word itself, or an object that gives `null` under it. -/
def word? (ofText? : String → Option α) : Json → Option α
  | .string s => ofText? s
  | .object [(s, .null)] => ofText? s
  | _ => none

def textRecord? (keys : List String) (j : Json) : Option (List String) := do
  (← strictRecord? keys.length keys j).mapM (required? string?)

/-- A whole number from 0 below `bound`. -/
def natBelow? (bound : Nat) (j : Json) : Option Nat :=
  (integer? j).bind fun n => if 0 ≤ n && n < bound then some n.toNat else none

mutual

/-- The value with the keys of objects in order, each with the last value given under it. -/
def canonical : Json → Json
  | .array items => .array (canonicalItems items)
  | .object members => .object (Table.ofList (canonicalMembers members)).entries
  | j => j

def canonicalItems : List Json → List Json
  | [] => []
  | j :: rest => canonical j :: canonicalItems rest

def canonicalMembers : List (String × Json) → List (String × Json)
  | [] => []
  | (k, j) :: rest => (k, canonical j) :: canonicalMembers rest

end

def ofFields (fields : List (String × Option Json)) : Json :=
  .object (fields.filterMap fun (k, j) => j.map (k, ·))

def ofTable (encode : α → Json) (t : Table String α) : Json :=
  .object (t.entries.map fun (k, a) => (k, encode a))

def ofStrings (l : List String) : Json := .array (l.map .string)

end

end SharedQuota.Json
