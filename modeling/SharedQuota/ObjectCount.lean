import SharedQuota.Text.Cut
import SharedQuota.Text.Letter
import SharedQuota.Text.Quoted
import SharedQuota.Resource.List

/-!
Kinds whose usage is the number of their objects, written `resource[.group][/version]`, and the
configured table of them.
-/

namespace SharedQuota

structure ObjectCountKind where
  group : String
  version : String
  resource : String
deriving DecidableEq

namespace ObjectCountKind

def countResource (k : ObjectCountKind) : ResourceName := .objectCount k.resource k.group

def apiVersion (k : ObjectCountKind) : String :=
  if k.group.isEmpty then k.version else k.group ++ "/" ++ k.version

def label (k : ObjectCountKind) : String := "objectcount(" ++ k.countResource.text ++ ")"

structure Malformed where
  item : String
deriving DecidableEq

def Malformed.message (m : Malformed) : String :=
  "invalid object-count resource " ++ Text.quoted m.item ++ ": expected resource[.group][/version]"

def inResource (c : Char) : Bool := Text.isLowerOrDigit c || c == '-' || c == '.'

/-- The version follows the first slash and is `v1` when there is none; the group follows the first
point before it. -/
def parse (item : String) : Except Malformed ObjectCountKind :=
  let (front, version) := (Text.cutFirst? '/' item.toList).getD (item.toList, ['v', '1'])
  let (resource, group) := (Text.cutFirst? '.' front).getD (front, [])
  if resource ≠ [] ∧ version ≠ [] ∧ resource.all inResource ∧ group.all inResource ∧
      version.all Text.isAlphanumeric then
    .ok ⟨String.ofList group, String.ofList version, String.ofList resource⟩
  else .error ⟨item⟩

/-- The written form with the version in it. -/
def text (k : ObjectCountKind) : String :=
  k.resource ++ (if k.group.isEmpty then "" else "." ++ k.group) ++ "/" ++ k.version

end ObjectCountKind

structure GroupResource where
  group : String
  resource : String
deriving DecidableEq

namespace GroupResource

instance : Ord GroupResource :=
  ⟨compareLex (compareOn GroupResource.group) (compareOn GroupResource.resource)⟩

instance : Std.TransOrd GroupResource :=
  inferInstanceAs
    (Std.TransCmp (compareLex (compareOn GroupResource.group) (compareOn GroupResource.resource)))

instance : Std.LawfulEqOrd GroupResource where
  eq_of_compare {a b} h := by
    cases a; cases b
    simp only [compare, compareLex, compareOn, Ordering.then_eq_eq] at h
    obtain ⟨h₁, h₂⟩ := h
    have := @Std.LawfulEqCmp.eq_of_compare String compare _ _ _ h₁
    have := @Std.LawfulEqCmp.eq_of_compare String compare _ _ _ h₂
    simp_all

end GroupResource

abbrev ObjectCountKinds := Table GroupResource ObjectCountKind

namespace ObjectCountKinds

/-- Of items for one resource of one group the last stands. -/
def ofList (ks : List ObjectCountKind) : ObjectCountKinds :=
  Table.ofList (ks.map fun k => (⟨k.group, k.resource⟩, k))

def parse (s : String) : Except ObjectCountKind.Malformed ObjectCountKinds :=
  ((Text.commaItems s).mapM ObjectCountKind.parse).map ofList

def find? (ks : ObjectCountKinds) (group resource : String) : Option ObjectCountKind :=
  ks.get? ⟨group, resource⟩

end ObjectCountKinds

end SharedQuota
