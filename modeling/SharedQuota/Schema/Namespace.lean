import SharedQuota.Schema.Metadata

/-!
Namespaces.
-/

namespace SharedQuota.Schema

def namespaceFields : List (String × Schema) := [
  ("metadata", metadata),
  ("spec", ofFields [("finalizers", texts)]),
  ("status", ofFields [("conditions", list (condition [])), ("phase", text)])]

end SharedQuota.Schema
