import SharedQuota.Schema.Metadata
import SharedQuota.Selector

/-!
What objects of the cluster say of themselves: name, namespace, labels and age, and what else is
kept of them without being looked at.
-/

namespace SharedQuota

structure Metadata where
  name : Option String
  generateName : Option String
  namespaceName : Option String
  labels : Option Labels
  created : Option Time
  /-- The other fields, as their schema reads them. -/
  others : List (String × Json)

namespace Metadata

def empty : Metadata := ⟨none, none, none, none, none, []⟩

instance : Inhabited Metadata := ⟨empty⟩

/-- The name, or what the cluster is to make a name from. -/
def anyName (m : Metadata) : String := (m.name <|> m.generateName).getD ""

def ownFields : List String := ["name", "generateName", "namespace", "labels", "creationTimestamp"]

/-- The metadata that members read by the schema make up. -/
def ofMembers (members : List (String × Json)) : Metadata where
  name := (Json.get? "name" members).bind Json.string?
  generateName := (Json.get? "generateName" members).bind Json.string?
  namespaceName := (Json.get? "namespace" members).bind Json.string?
  labels := (Json.get? "labels" members).bind (Json.table? Json.string?)
  created := (Json.get? "creationTimestamp" members).bind fun j => j.string?.bind Time.ofStamp?
  others := members.filter fun m => !ownFields.contains m.1

/-- Reads metadata that may be nested as deep as `room`. -/
def ofJsonWithin? (room : Nat) (j : Json) : Option Metadata := do
  some (ofMembers (← (← Schema.metadata.read? room j).members?))

def ofJson? : Json → Option Metadata := ofJsonWithin? Json.maxDepth

def toJson (m : Metadata) : Json :=
  .object <|
    [("creationTimestamp", m.created.map fun t => Json.string t.secondText),
      ("generateName", m.generateName.map .string),
      ("labels", m.labels.map (Json.ofTable .string)),
      ("name", m.name.map .string),
      ("namespace", m.namespaceName.map .string)].filterMap (fun (k, j) => j.map (k, ·)) ++
    m.others

end Metadata

end SharedQuota
