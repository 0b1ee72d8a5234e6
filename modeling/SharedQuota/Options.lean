import SharedQuota.ObjectCount
import SharedQuota.Options.LogFilter

/-!
The command line: flags with a value, `--flag value` or `--flag=value`, and one without. A value is
checked when the next flag, or the end, shows that it is complete, so that an unknown word is
reported first.
-/

namespace SharedQuota

/-- The settings of the process. Times have the units their names give. -/
structure Options where
  logLevel : String := "cluster_quota=info,warn"
  logFormat : String := "plain"
  exclusionLabel : String := "clusterquota.io/excluded"
  excludedNamespaces : List String := ["kube-system", "kube-public", "kube-node-lease"]
  objectCounts : ObjectCountKinds :=
    .ofList [⟨"", "v1", "configmaps"⟩, ⟨"", "v1", "secrets"⟩]
  trackedResources : List String := []
  admissionTimeoutMillis : Nat := 8000
  stalenessSeconds : Nat := 15
  reservationSeconds : Nat := 30
  eventRetentionSeconds : Nat := 3600
  sweepIntervalSeconds : Nat := 300
  recordDenials : Bool := false

namespace Options

inductive Conflict
  | reservationTooShort
  | noSweepInterval
deriving DecidableEq

def Conflict.message : Conflict → String
  | .reservationTooShort =>
    "--reservation-ttl-secs must be at least --status-staleness-tolerance-secs"
  | .noSweepInterval => "--event-sweep-interval-secs must be positive"

/-- A reservation must outlive the time in which a status may lack it. -/
def conflict? (o : Options) : Option Conflict :=
  if o.reservationSeconds < o.stalenessSeconds then some .reservationTooShort
  else if o.sweepIntervalSeconds = 0 then some .noSweepInterval
  else none

inductive Flag
  | logLevel
  | logFormat
  | exclusionLabel
  | excludedNamespaces
  | objectCounts
  | trackedResources
  | admissionTimeout
  | staleness
  | reservation
  | eventRetention
  | sweepInterval
  | recordDenials
deriving DecidableEq

def Flag.ofName? : String → Option Flag
  | "log-level" => some logLevel
  | "log-format" => some logFormat
  | "exclusion-label" => some exclusionLabel
  | "excluded-namespaces" => some excludedNamespaces
  | "object-count-resources" => some objectCounts
  | "tracked-resources" => some trackedResources
  | "admission-timeout-ms" => some admissionTimeout
  | "status-staleness-tolerance-secs" => some staleness
  | "reservation-ttl-secs" => some reservation
  | "event-retention-secs" => some eventRetention
  | "event-sweep-interval-secs" => some sweepInterval
  | "record-denial-events" => some recordDenials
  | _ => none

inductive Fault
  | invalidValue
  | missingValue
  | unknownWord
  | repeated
  | unexpectedValue
deriving DecidableEq

def Fault.message : Fault → String
  | .invalidValue => "a flag has a value that it does not accept"
  | .missingValue => "a flag that needs a value has none"
  | .unknownWord => "unexpected argument"
  | .repeated => "a flag is given twice"
  | .unexpectedValue => "a flag that takes no value has one"

/-- A whole number of 64 bits, with a plus sign or without. -/
def number? (s : String) : Option Nat :=
  (Decimal.ofPlusDigits? s.toList).filter (· < 1 <<< 64)

def enter (o : Options) (f : Flag) (v : String) : Except Fault Options :=
  let number (put : Nat → Options) : Except Fault Options :=
    match number? v with
    | some n => .ok (put n)
    | none => .error .invalidValue
  match f with
  | .logLevel =>
    if LogFilter.isFilter v then .ok { o with logLevel := v } else .error .invalidValue
  | .logFormat =>
    if v = "plain" || v = "json" then .ok { o with logFormat := v } else .error .invalidValue
  | .exclusionLabel => .ok { o with exclusionLabel := v }
  | .excludedNamespaces => .ok { o with excludedNamespaces := Text.commaItems v }
  | .objectCounts =>
    match ObjectCountKinds.parse v with
    | .ok ks => .ok { o with objectCounts := ks }
    | .error _ => .error .invalidValue
  | .trackedResources => .ok { o with trackedResources := Text.commaItems v }
  | .admissionTimeout => number fun n => { o with admissionTimeoutMillis := n }
  | .staleness => number fun n => { o with stalenessSeconds := n }
  | .reservation => number fun n => { o with reservationSeconds := n }
  | .eventRetention => number fun n => { o with eventRetentionSeconds := n }
  | .sweepInterval => number fun n => { o with sweepIntervalSeconds := n }
  | .recordDenials => .ok { o with recordDenials := true }

/-- A command line read so far. `waiting` is a flag whose value may still come. -/
structure Reading where
  options : Options
  given : List Flag
  waiting : Option (Flag × Option String)
  flagsEnded : Bool

namespace Reading

def start : Reading := ⟨{}, [], none, false⟩

def give (r : Reading) (f : Flag) (v : String) : Except Fault Reading := do
  if f ∈ r.given then throw .repeated
  return { r with options := ← r.options.enter f v, given := f :: r.given }

def settle (r : Reading) : Except Fault Reading :=
  match r.waiting with
  | none => .ok r
  | some (_, none) => .error .missingValue
  | some (f, some v) => give { r with waiting := none } f v

def flag (r : Reading) (name : String) (value : Option String) : Except Fault Reading :=
  match Flag.ofName? name, value with
  | none, _ => .error .unknownWord
  | some .recordDenials, some _ => .error .unexpectedValue
  | some .recordDenials, none => do give (← r.settle) .recordDenials ""
  | some f, some v => do give (← r.settle) f v
  | some f, none => do return { ← r.settle with waiting := some (f, none) }

def word (r : Reading) (w : String) : Except Fault Reading :=
  if r.flagsEnded then .error .unknownWord
  else match w.toList with
  | ['-', '-'] => .ok { r with flagsEnded := true }
  | '-' :: '-' :: s =>
    match Text.cutFirst? '=' s with
    | some (name, value) => r.flag (String.ofList name) (some (String.ofList value))
    | none => r.flag (String.ofList s) none
  | '-' :: _ :: _ => .error .unknownWord
  | _ =>
    match r.waiting with
    | some (f, none) => .ok { r with waiting := some (f, some w) }
    | _ => .error .unknownWord

end Reading

def parse (words : List String) : Except Fault Options := do
  let r ← words.foldlM Reading.word Reading.start
  return (← r.settle).options

end Options

end SharedQuota
