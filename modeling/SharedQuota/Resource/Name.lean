import SharedQuota.Table

/-!
Names of the resources that quotas limit. Compute resources may be written bare or with `requests.`
in front; a `ResourceName` is always the longer spelling, so that equal resources have equal names.
-/

namespace SharedQuota

/-- The resources whose bare spelling stands for their `requests.` name. -/
def requestAliases : List String := ["cpu", "memory", "ephemeral-storage"]

/-- The name of a resource, never one of the bare spellings. -/
structure ResourceName where
  text : String
  canonical : text ∉ requestAliases
deriving DecidableEq

namespace ResourceName

theorem ext {a b : ResourceName} (h : a.text = b.text) : a = b := by
  cases a; cases b; cases h; rfl

instance : Ord ResourceName := ⟨fun a b => compare a.text b.text⟩

instance : Std.TransOrd ResourceName where
  eq_swap {a b} := @Std.OrientedCmp.eq_swap String compare _ a.text b.text
  isLE_trans {a b c} := @Std.TransCmp.isLE_trans String compare _ a.text b.text c.text

instance : Std.LawfulEqOrd ResourceName where
  compare_self {a} := @Std.ReflCmp.compare_self String compare _ a.text
  eq_of_compare {a b} h := ext (@Std.LawfulEqCmp.eq_of_compare String compare _ a.text b.text h)

theorem not_alias_of_front {p : List Char} (s : String)
    (h : ∀ a ∈ requestAliases, ¬ p <+: a.toList) : String.ofList p ++ s ∉ requestAliases := by
  intro hm
  exact h _ hm (by simp)

theorem not_alias_of_length {s : String} (h : 17 < s.length) : s ∉ requestAliases := by
  intro hm
  have : ∀ a ∈ requestAliases, a.length ≤ 17 := by decide
  have := this s hm
  omega

def requests (resource : String) : ResourceName :=
  ⟨"requests." ++ resource, not_alias_of_front (p := "requests.".toList) resource (by decide)⟩

def limits (resource : String) : ResourceName :=
  ⟨"limits." ++ resource, not_alias_of_front (p := "limits.".toList) resource (by decide)⟩

def ofText (text : String) : ResourceName :=
  if h : text ∈ requestAliases then requests text else ⟨text, h⟩

/-- The number of objects of a kind: `count/configmaps`, `count/deployments.apps`. -/
def objectCount (resource group : String) : ResourceName :=
  ⟨"count/" ++ (if group.isEmpty then resource else resource ++ "." ++ group),
    not_alias_of_front (p := "count/".toList) _ (by decide)⟩

def storageClassMark : String := ".storageclass.storage.k8s.io/"

/-- What one storage class provides of a storage resource. -/
def storageClass (className resource : String) : ResourceName :=
  ⟨className ++ storageClassMark ++ resource, not_alias_of_length (by
    simp only [String.length_append]
    have : storageClassMark.length = 29 := by decide
    omega)⟩

@[simp] theorem ofText_text (r : ResourceName) : ofText r.text = r := by
  simp [ofText, r.canonical]

/-! ### The names that the extraction of objects fills -/

def pods : ResourceName := ⟨"pods", by decide⟩
def services : ResourceName := ⟨"services", by decide⟩
def loadBalancers : ResourceName := ⟨"services.loadbalancers", by decide⟩
def nodePorts : ResourceName := ⟨"services.nodeports", by decide⟩
def claims : ResourceName := ⟨"persistentvolumeclaims", by decide⟩
def storage : ResourceName := ⟨"requests.storage", by decide⟩

/-! ### Which objects contribute -/

def startsWith (r : ResourceName) (p : String) : Bool := p.toList.isPrefixOf r.text.toList

def occursIn (p : List Char) : List Char → Bool
  | [] => p.isEmpty
  | c :: s => p.isPrefixOf (c :: s) || occursIn p s

def ofPods (r : ResourceName) : Bool :=
  r == pods || r.text == "count/pods" || r.startsWith "limits." ||
    (r.startsWith "requests." && r != storage)

def ofClaims (r : ResourceName) : Bool :=
  r == storage || r == claims || r.text == "count/persistentvolumeclaims" ||
    occursIn storageClassMark.toList r.text.toList

def ofServices (r : ResourceName) : Bool :=
  r == services || r.startsWith "services." || r.text == "count/services"

end ResourceName

end SharedQuota
