import SharedQuota.Admission
import SharedQuota.Options

/-!
How the command line sets up admission.
-/

namespace SharedQuota

def millisPerSecond : Nat := 1000

/-- The settings that options stand for. Denials, if recorded, are under the name `host`. -/
def Options.settings (o : Options) (host : String) : Settings where
  rules :=
    { exclusions := .ofSettings (some o.exclusionLabel) o.excludedNamespaces
      staleness := o.stalenessSeconds * millisPerSecond
      reservationTtl := o.reservationSeconds * millisPerSecond }
  extractor := .ofTracked o.trackedResources
  objectCounts := o.objectCounts
  timeout := o.admissionTimeoutMillis
  recorder := if o.recordDenials then some host else none

end SharedQuota
