import SharedQuota.Cluster.Inventory
import SharedQuota.Main
import SharedQuota.Proofs.Admission.Headroom
import SharedQuota.Proofs.Cluster.Asked
import SharedQuota.Proofs.Cluster.Count
import SharedQuota.Proofs.Cluster.Gain
import SharedQuota.Proofs.Engine.Join
import SharedQuota.Proofs.Engine.Overcommit
import SharedQuota.Proofs.Engine.Settlement
import SharedQuota.Proofs.Engine.Status
import SharedQuota.Proofs.Ledger.Cover
import SharedQuota.Proofs.Ledger.Lifetime
import SharedQuota.Proofs.Ledger.Lineup
import SharedQuota.Proofs.Ledger.Release
import SharedQuota.Proofs.Ledger.Tally
import SharedQuota.Proofs.Locks.Pruning
import SharedQuota.Proofs.Quota.Validation
import SharedQuota.Proofs.Engine.Deadlock
import SharedQuota.Proofs.Cluster.Flight
import SharedQuota.Proofs.Gathering.Polls
import SharedQuota.Proofs.Gathering.Turn
import SharedQuota.Proofs.Serving.Reads
import SharedQuota.Proofs.Serving.Journey
import SharedQuota.Proofs.Serving.Revision
import SharedQuota.Proofs.Serving.Served
import SharedQuota.Proofs.Serving.Turn
import SharedQuota.Proofs.Serving.Tasks
import SharedQuota.Proofs.Serving.Rounds
import SharedQuota.Proofs.Admission.Deadline
import SharedQuota.Proofs.Admission.Response
import SharedQuota.Proofs.Serving.Mirror
import SharedQuota.Proofs.Serving.Rest
import SharedQuota.Proofs.Serving.DryRun
import SharedQuota.Proofs.Serving.Alike
import SharedQuota.Proofs.Serving.Interference
import SharedQuota.Proofs.Serving.Order
import SharedQuota.Proofs.Snapshot.Taken
import SharedQuota.Proofs.Quantity.Spelling
import SharedQuota.Proofs.Quantity.Computed
import SharedQuota.Proofs.Quantity.Exact
import SharedQuota.Proofs.Quantity.RoundTrip
import SharedQuota.Proofs.Metrics.Gauge
import SharedQuota.Proofs.Workload.Pod
import SharedQuota.Proofs.Admission.Growth
import SharedQuota.Proofs.Name
import SharedQuota.Proofs.ObjectCount.Written
import SharedQuota.Proofs.Quota.Json
import SharedQuota.Proofs.Cluster.Sweep
import SharedQuota.Proofs.Engine.Chain
