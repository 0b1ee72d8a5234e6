import SharedQuota.Quota

/-!
Which namespaces a quota applies to. A namespace that is excluded belongs to no quota; any other
belongs to the quotas that select it, and still counts for those whose status records it.
-/

namespace SharedQuota

structure Namespace where
  name : String
  labels : Labels
deriving DecidableEq

def Namespace.ofMetadata (m : Metadata) : Namespace := ⟨m.anyName, m.labels.getD Table.empty⟩

/-- Namespaces that no quota applies to: those of some names, and those with a label. -/
structure Exclusions where
  label : Option String
  names : List String

namespace Exclusions

/-- An empty label excludes nothing. -/
def ofSettings (label : Option String) (names : List String) : Exclusions :=
  ⟨label.filter (!·.isEmpty), names⟩

def excludes (x : Exclusions) (ns : Namespace) : Bool :=
  x.names.contains ns.name || x.label.any ns.labels.contains

/-- Whether a quota with the given selector applies; without one it applies to all. -/
def selects (x : Exclusions) (selector : Option Selector) (ns : Namespace) : Bool :=
  !x.excludes ns && selector.all (·.selects ns.labels)

end Exclusions

/-- The namespaces a quota applies to, and those that only its status still accounts for. -/
structure Scope where
  selected : KeySet String
  tracked : KeySet String
deriving DecidableEq

namespace Scope

def resolve (x : Exclusions) (q : Quota) (listing : List Namespace) : Scope :=
  let selected := KeySet.ofList ((listing.filter (x.selects q.spec.selector)).map (·.name))
  let tracked := listing.filter fun ns =>
    q.tracked.contains ns.name && !x.excludes ns && !selected.contains ns.name
  ⟨selected, KeySet.ofList (tracked.map (·.name))⟩

def aggregated (s : Scope) : KeySet String :=
  KeySet.ofList (s.selected.toList ++ s.tracked.toList)

end Scope

end SharedQuota
