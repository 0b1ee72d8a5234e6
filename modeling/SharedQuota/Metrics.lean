import SharedQuota.Decision
import SharedQuota.Double

/-!
What the process reports of its work: observations, the state they add up to, and the samples a
monitoring system reads. A gauge shows the last amount set and stays until it is set again.
-/

namespace SharedQuota

/-- One report. Times are in milliseconds. -/
inductive Observation
  | admission (kind operation : String) (outcome : Outcome) (elapsed : Nat)
  | error (reason : Reason)
  | aggregation (quota : String) (elapsed : Nat)
  | totalUsage (quota : String) (usage : ResourceList)
  | namespaceUsage (quota name : String) (usage : ResourceList)
deriving DecidableEq

/-- Values by the values of their labels. -/
abbrev Family (α : Type) := Table (List String) α

structure Metrics where
  decisions : Family Nat
  durations : Family (List Nat)
  errors : Family Nat
  namespaceUsage : Family Quantity
  totalUsage : Family Quantity
  aggregations : Family (List Nat)

namespace Metrics

def empty : Metrics :=
  ⟨Table.empty, Table.empty, Table.empty, Table.empty, Table.empty, Table.empty⟩

def count (f : Family Nat) (labels : List String) : Family Nat := f.alter labels (·.getD 0 + 1)

def time (f : Family (List Nat)) (labels : List String) (elapsed : Nat) : Family (List Nat) :=
  f.alter labels (·.getD [] ++ [elapsed])

def gauge (f : Family Quantity) (labels : List String) (usage : ResourceList) : Family Quantity :=
  usage.entries.foldl (fun f (r, q) => f.insert (labels ++ [r.text]) q) f

def observe (m : Metrics) : Observation → Metrics
  | .admission kind operation outcome elapsed =>
    { m with
      decisions := count m.decisions [kind, operation, outcome.text]
      durations := time m.durations [kind, outcome.text] elapsed }
  | .error reason => { m with errors := count m.errors [reason.text] }
  | .aggregation quota elapsed => { m with aggregations := time m.aggregations [quota] elapsed }
  | .totalUsage quota usage => { m with totalUsage := gauge m.totalUsage [quota] usage }
  | .namespaceUsage quota name usage =>
    { m with namespaceUsage := gauge m.namespaceUsage [quota, name] usage }

/-! ### Samples -/

structure Sample where
  series : String
  value : Float

def labelText (labels : List (String × String)) : String :=
  "\x7b" ++ String.intercalate "," (labels.map fun (k, v) => k ++ "=\"" ++ v ++ "\"") ++ "\x7d"

def sampled (name : String) (keys values : List String) (value : Float) : Sample :=
  ⟨name ++ labelText (keys.zip values), value⟩

/-- The bounds of the buckets of time, in seconds, and how they are written. -/
def buckets : List (String × Float) :=
  [("0.005", 0.005), ("0.01", 0.01), ("0.025", 0.025), ("0.05", 0.05), ("0.1", 0.1),
    ("0.25", 0.25), ("1.0", 1.0), ("2.5", 2.5), ("10.0", 10.0)]

def seconds (millis : Nat) : Float :=
  Double.ofNat (millis / 1000) + Double.ofNat (millis % 1000 * 1_000_000) / 1e9

def counter (name : String) (keys : List String) (f : Family Nat) : List Sample :=
  f.entries.map fun (values, n) => sampled (name ++ "_total") keys values (Double.ofNat n)

def gauges (name : String) (keys : List String) (f : Family Quantity) : List Sample :=
  f.entries.map fun (values, q) => sampled name keys values q.toDouble

/-- The sum, the number, and for each bound the number of times up to it. -/
def histogram (name : String) (keys : List String) (f : Family (List Nat)) : List Sample :=
  f.entries.flatMap fun (values, times) =>
    let times := times.map seconds
    let upTo (text : String) (n : Nat) : Sample :=
      sampled (name ++ "_bucket") ("le" :: keys) (text :: values) (Double.ofNat n)
    sampled (name ++ "_sum") keys values (times.foldl (· + ·) 0.0) ::
      sampled (name ++ "_count") keys values (Double.ofNat times.length) ::
      buckets.map (fun (text, bound) => upTo text (times.filter (· ≤ bound)).length) ++
      [upTo "+Inf" times.length]

def named (name : String) : String := "cluster_quota_" ++ name

def samples (m : Metrics) : List Sample :=
  counter (named "admission_decisions") ["kind", "operation", "outcome"] m.decisions ++
  histogram (named "admission_duration_seconds") ["kind", "outcome"] m.durations ++
  counter (named "admission_errors") ["reason"] m.errors ++
  gauges (named "namespace_usage") ["quota", "namespace", "resource"] m.namespaceUsage ++
  gauges (named "total_usage") ["quota", "resource"] m.totalUsage ++
  histogram (named "aggregation_duration_seconds") ["quota"] m.aggregations

def describe (name help type : String) (unit : Option String) : List String :=
  ["# HELP " ++ named name ++ " " ++ help ++ ".", "# TYPE " ++ named name ++ " " ++ type] ++
    (unit.map fun u => ["# UNIT " ++ named name ++ " " ++ u]).getD []

def descriptions : List String :=
  describe "admission_decisions"
    "Count of admission decisions by kind, operation, and outcome" "counter" none ++
  describe "admission_duration_seconds"
    "Histogram of admission call latency" "histogram" (some "seconds") ++
  describe "admission_errors"
    "Count of admission calls that were not allowed, by reason" "counter" none ++
  describe "namespace_usage"
    "Usage of a quota resource in one namespace, as last aggregated" "gauge" none ++
  describe "total_usage"
    "Usage of a quota resource across the quota's scope, as last aggregated" "gauge" none ++
  describe "aggregation_duration_seconds"
    "Histogram of the time taken to aggregate a quota's usage" "histogram" (some "seconds") ++
  ["# EOF"]

end Metrics

end SharedQuota
