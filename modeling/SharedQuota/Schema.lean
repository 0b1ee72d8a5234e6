import SharedQuota.Json.Record
import SharedQuota.Time.Stamp

/-!
Schemas of the objects that a cluster holds. Reading a value by a schema gives the value as its kind
keeps it: fields that the schema does not have are dropped, absent ones and those that are `null`
left out, and times rewritten in UTC. A value that does not fit is refused.
-/

namespace SharedQuota

inductive Schema
  | text
  | flag
  | int32
  | int64
  /-- A time, kept to the second. -/
  | time
  /-- A time, kept to the microsecond. -/
  | preciseTime
  | numberOrText
  | any
  | list (item : Schema)
  | table (item : Schema)
  /-- An object. The fields in `needed` are texts that are empty where they are not given. -/
  | record (needed : List String) (fields : List (String × Schema))

namespace Schema

/-- A whole number of so many bits with a sign. -/
def integer? (bits : Nat) (j : Json) : Option Int :=
  j.integer?.filter fun n => -(1 <<< (bits - 1)) ≤ n && n < 1 <<< (bits - 1)

def timeOf? (write : Time → String) (j : Json) : Option Json := do
  some (.string (write (← Time.ofStamp? (← j.string?))))

/-- The value under a key of a record. Of several the last stands, but all must read. -/
def last? (read : Json → Option Json) (key : String) (members : List (String × Json)) :
    Option (Option Json) := do
  let values ← (Json.under key members).mapM fun j => Json.optional? read (some j)
  some (values.getLast?.bind id)

/-- The needed texts of a record. -/
def readNeeded? (needed : List String) (members : List (String × Json)) :
    Option (List (String × Json)) :=
  needed.mapM fun key => do
    some (key, (← last? (fun j => j.string?.map .string) key members).getD (.string ""))

mutual

/-- Reads a value that may be nested as deep as `room`. -/
def read? : Schema → Nat → Json → Option Json
  | .text, _, j => j.string?.map .string
  | .flag, _, j => j.bool?.map .bool
  | .int32, _, j => (integer? 32 j).map .int
  | .int64, _, j => (integer? 64 j).map .int
  | .time, _, j => timeOf? Time.secondText j
  | .preciseTime, _, j => timeOf? Time.microsecondText j
  | .numberOrText, _, j => j.string?.map .string <|> (integer? 32 j).map .int
  | .any, room, j => if j.readableWithin room then some j.canonical else none
  | .list item, room, j => do
    some (.array (← (← j.items?).mapM fun j => read? item (room - 1) j))
  | .table item, room, j => do
    let entries ← (← j.members?).mapM fun (key, j) => do some (key, ← read? item (room - 1) j)
    some (.object (Table.ofList entries).entries)
  | .record needed fields, room, j => do
    let members ← j.members?
    some (.object ((← readNeeded? needed members) ++ (← readFields? fields (room - 1) members)))

def readFields? : List (String × Schema) → Nat → List (String × Json) →
    Option (List (String × Json))
  | [], _, _ => some []
  | (key, schema) :: rest, room, members => do
    let value ← last? (fun j => read? schema room j) key members
    some ((value.map (key, ·)).toList ++ (← readFields? rest room members))

end

/-! ### Building schemas -/

def fields (schema : Schema) (keys : List String) : List (String × Schema) :=
  keys.map (·, schema)

def ofFields (fields : List (String × Schema)) : Schema := record [] fields

/-- A record all of whose fields are texts. -/
def ofTexts (keys : List String) : Schema := ofFields (fields text keys)

def texts : Schema := list text

def amounts : Schema := table text

/-! ### Objects -/

/-- The members of an object of the core group that, where it says so, is of the given kind. -/
def object? (kind : String) (fields : List (String × Schema)) (j : Json) :
    Option (List (String × Json)) := do
  let members ← j.members?
  let agrees (key word : String) : Bool :=
    (Json.under key members).all fun j => j.string? == some word
  if !(agrees "apiVersion" "v1" && agrees "kind" kind) then none
  (← (ofFields fields).read? Json.maxDepth j).members?

end Schema

end SharedQuota
