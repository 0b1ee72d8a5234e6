import SharedQuota.Quantity
import SharedQuota.Resource.Name

/-!
Amounts by resource. A resource without an entry counts as zero wherever an amount is asked for,
but an entry of zero is still an entry.
-/

namespace SharedQuota

abbrev ResourceList := Table ResourceName Quantity

namespace ResourceList

def amount (l : ResourceList) (r : ResourceName) : Quantity := (l.get? r).getD 0

/-- Adds `q` to what `r` has. -/
def add (l : ResourceList) (r : ResourceName) (q : Quantity) : ResourceList :=
  l.alter r fun old => old.getD 0 + q

def ofPairs (pairs : List (ResourceName × Quantity)) : ResourceList :=
  pairs.foldl (fun l e => add l e.1 e.2) Table.empty

def addAll (l other : ResourceList) : ResourceList :=
  other.entries.foldl (fun l e => add l e.1 e.2) l

/-- What each resource has more in `l` than in `old`, without those that did not grow. -/
def increaseFrom (l old : ResourceList) : ResourceList :=
  ofPairs (l.entries.filterMap fun e =>
    let grown := e.2.excess (amount old e.1)
    if grown.isZero then none else some (e.1, grown))

/-- The entries of the named resources; a name given twice is entered twice. -/
def restrict (l : ResourceList) (names : List ResourceName) : ResourceList :=
  ofPairs (names.filterMap fun r => (l.get? r).map (r, ·))

def nonZero (l : ResourceList) : ResourceList := l.filter fun _ q => !q.isZero

def text (l : ResourceList) : String :=
  String.intercalate "," (l.entries.map fun e => e.1.text ++ "=" ++ e.2.text)

theorem get?_add (l : ResourceList) (r : ResourceName) (q : Quantity) (s : ResourceName) :
    (add l r q).get? s = if s = r then some (amount l r + q) else l.get? s := by
  simp [add, Table.get?_alter, amount]

end ResourceList

end SharedQuota
