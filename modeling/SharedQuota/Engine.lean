import SharedQuota.Decision
import SharedQuota.Ledger
import SharedQuota.Locks
import SharedQuota.Metrics
import SharedQuota.Quota.Validation

/-!
The admission of usage against quotas, as a machine of small steps. Many calls run side by side;
they share the ledger of reservations and the locks. A call lists the cluster, takes the locks of
the quotas that limit it in the order of their names, reads and compares the usage of one after the
other, reserves, and gives the locks back. `step` is one such step of one call; what the cluster
answers, and that the time is up, comes to it as an `Answer`.
-/

namespace SharedQuota

/-- How the engine is set up. Times are in milliseconds. -/
structure Rules where
  exclusions : Exclusions
  staleness : Nat
  reservationTtl : Nat

/-- The time on both clocks: milliseconds since the process started, and the wall clock. -/
structure Now where
  millis : Nat
  wall : Time

structure Shared where
  ledger : Ledger
  locks : Locks

inductive Work
  | usage (name : String) (delta : ResourceList)
  | relabel (old new : Namespace)
  | quota (new : Quota) (old : Option Quota)

/-- A quota that limits some resource of a request, and which of them it limits. -/
structure Applicable where
  quota : Quota
  hard : ResourceList
  resources : KeySet ResourceName

namespace Applicable

def name (a : Applicable) : String := a.quota.name

/-- A quota whose limits cannot be read limits nothing. -/
def of? (delta : ResourceList) (q : Quota) : Option Applicable :=
  match q.hardLimits with
  | .error _ => none
  | .ok hard =>
    let resources := KeySet.ofList (delta.keys.filter hard.contains)
    if resources.isEmpty then none else some ⟨q, hard, resources⟩

/-- The applicable quotas in the order of their names; quotas of one name stay as listed. -/
def sorted (delta : ResourceList) (quotas : List Quota) : List Applicable :=
  (quotas.filterMap (of? delta)).mergeSort fun a b => compare a.name b.name != .gt

end Applicable

/-- Usage to be added to a namespace, with the quotas it is checked against. -/
structure Charge where
  name : String
  delta : ResourceList
  listing : List Namespace
  quotas : List Applicable

/-- How far a call has come. `held` are the handles of the locks taken. -/
inductive Stage
  /-- Waits for the namespaces and the quotas, to find those that limit a namespace. -/
  | listing (name : String) (delta : ResourceList)
  /-- Waits for the namespaces and the quotas, to find those that a namespace joins. -/
  | relabelling (old new : Namespace)
  | surveying (proposed : Quota) (limits : ResourceList)
  | comparing (names : List String) (limits : ResourceList)
  /-- Waits for the usage that a namespace brings to the quotas it joins. -/
  | joining (name : String) (listing : List Namespace) (joined : List Quota)
      (resources : KeySet ResourceName)
  | locking (charge : Charge) (held : List Nat) (next : List Applicable)
  | waiting (charge : Charge) (held : List Nat) (handle : Nat) (quota : Applicable)
      (next : List Applicable)
  /-- Is about to read the usage of the next quota; `checked` pairs the quotas that passed with what
  was read of the namespace. -/
  | checking (charge : Charge) (held : List Nat) (checked : List (Applicable × ResourceList))
      (next : List Applicable)
  | reading (charge : Charge) (held : List Nat) (checked : List (Applicable × ResourceList))
      (quota : Applicable) (since : Nat) (next : List Applicable)
  | reserving (charge : Charge) (held : List Nat) (next : List (Applicable × ResourceList))
  | releasing (held : List Nat) (result : Except Denial Unit)
  | finished (result : Except Denial Unit)

structure Call where
  dryRun : Bool
  stage : Stage

inductive Answer
  /-- Nothing: the call goes on by itself. -/
  | proceed
  | listed (namespaces : List Namespace) (quotas : List Quota)
  | surveyed (namespaces : List Namespace)
  | measured (usage : Table String ResourceList)
  | failed (denial : Denial)

/-- How the admission of a quota ends that is not in order. Where reading an amount breaks off the
admission does too. -/
def QuotaFault.denial : QuotaFault → Denial
  | .amount ⟨_, .brokenOff⟩ => panicked
  | fault => .invalidQuota fault.message

namespace Work

/-- The limits of a quota that are new or lower than before. -/
def tightened (limits : ResourceList) (old : Quota) : ResourceList :=
  let before : ResourceList := match old.hardLimits with
    | .ok l => l
    | .error _ => Table.empty
  limits.filter fun r limit => (before.get? r).all (limit < ·)

/-- The first stage. What needs no reading is decided at once. -/
def start : Work → Stage
  | .usage name delta =>
    let delta := delta.nonZero
    if delta.isEmpty then .finished (.ok ()) else .listing name delta
  | .relabel old new => .relabelling old new
  | .quota new old =>
    match new.spec.validate with
    | .error fault => .finished (.error fault.denial)
    | .ok limits =>
      match old with
      | none => .finished (.ok ())
      | some old =>
        let limits := tightened limits old
        if limits.isEmpty then .finished (.ok ())
        else .surveying { new with status := old.status } limits

end Work

namespace Charge

/-- The stage in which usage is checked against the quotas of a listing. -/
def start (name : String) (delta : ResourceList) (listing : List Namespace) (quotas : List Quota) :
    Stage :=
  let applicable := Applicable.sorted delta quotas
  if applicable.isEmpty then .finished (.ok ())
  else .locking ⟨name, delta, listing, applicable⟩ [] applicable

end Charge

namespace Engine

/-- Whether a namespace comes to belong to a quota by the change from `old` to `new`. -/
def joins (x : Exclusions) (old new : Namespace) (q : Quota) : Bool :=
  x.selects q.spec.selector new && !x.selects q.spec.selector old && !q.tracked.contains new.name

def limited (quotas : List Quota) : KeySet ResourceName :=
  KeySet.ofList (quotas.flatMap fun q => match q.hardLimits with
    | .ok hard => hard.keys
    | .error _ => [])

/-- What follows a listing for usage that a namespace is to get. -/
def charge (x : Exclusions) (name : String) (delta : ResourceList) (namespaces : List Namespace)
    (quotas : List Quota) : Stage :=
  match namespaces.find? (·.name == name) with
  | none => .finished (.ok ())
  | some ns => Charge.start name delta namespaces (quotas.filter (x.selects ·.spec.selector ns))

/-- What follows a listing for a namespace that changes. -/
def relabel (x : Exclusions) (old new : Namespace) (namespaces : List Namespace)
    (quotas : List Quota) : Stage :=
  let joined := quotas.filter (joins x old new)
  if joined.isEmpty then .finished (.ok ())
  else .joining new.name namespaces joined (limited joined)

/-- The first namespace, and its first resource, that already uses more than a limit. -/
def overuse? (usage : Table String ResourceList) (limits : ResourceList) : Option String :=
  usage.entries.findSome? fun (name, used) =>
    limits.entries.findSome? fun (r, limit) =>
      let current := used.amount r
      if limit < current then
        some ("namespace " ++ name ++ " already uses " ++ r.text ++ "=" ++ current.text ++
          ", exceeding the proposed limit " ++ r.text ++ "=" ++ limit.text)
      else none

def compared (usage : Table String ResourceList) (limits : ResourceList) : Except Denial Unit :=
  match overuse? usage limits with
  | some text => .error (.invalidQuota text)
  | none => .ok ()

def readingReports (quota : String) (elapsed : Nat) (s : Snapshot) : List Observation :=
  .aggregation quota elapsed :: .totalUsage quota s.total ::
    s.namespaces.entries.map fun (name, used) => .namespaceUsage quota name used

/-- Compares a request with one quota, given a reading of the quota's usage. -/
def check (now : Now) (ledger : Ledger) (charge : Charge) (a : Applicable) (s : Snapshot) :
    Option Exceeded × Ledger :=
  let (pending, ledger) := ledger.pending now.millis a.name s a.resources
  (Exceeded.check? a.name a.hard (s.total.addAll pending) charge.delta, ledger)

/-- The handles of the locks that a stage holds or waits for. -/
def handles : Stage → List Nat
  | .locking _ held _ | .checking _ held _ _ | .reading _ held _ _ _ _ | .reserving _ held _
  | .releasing held _ => held
  | .waiting _ held handle _ _ => held ++ [handle]
  | _ => []

/-- Goes on from a reading of the next quota. -/
def decide (now : Now) (shared : Shared) (c : Call) (charge : Charge) (held : List Nat)
    (checked : List (Applicable × ResourceList)) (a : Applicable) (next : List Applicable)
    (since : Nat) (s : Snapshot) : Shared × Call × List Observation :=
  let reports := readingReports a.name (now.millis - since) s
  let (exceeded, ledger) := check now shared.ledger charge a s
  let stage : Stage := match exceeded with
    | some e => .releasing held (.error (.exceeded e))
    | none => .checking charge held (checked ++ [(a, s.usedIn charge.name)]) next
  ({ shared with ledger }, { c with stage }, reports)

/-- One step of a call. Nothing comes of an answer that the stage does not wait for. Where a call
waits it may fail; once it makes reservations it makes them all. -/
def step (rules : Rules) (now : Now) (shared : Shared) (c : Call) (answer : Answer) :
    Option (Shared × Call × List Observation) :=
  let enter (stage : Stage) : Option (Shared × Call × List Observation) :=
    some (shared, { c with stage }, [])
  match answer, c.stage with
  | _, .finished _ => none
  | .failed _, .reserving _ _ _ | .failed _, .releasing _ _ => none
  | .failed denial, stage => enter (.releasing (handles stage) (.error denial))
  | .listed namespaces quotas, .listing name delta =>
    enter (charge rules.exclusions name delta namespaces quotas)
  | .listed namespaces quotas, .relabelling old new =>
    enter (relabel rules.exclusions old new namespaces quotas)
  | .surveyed namespaces, .surveying proposed limits =>
    let scope := Scope.resolve rules.exclusions proposed namespaces
    enter (.comparing scope.aggregated.toList limits)
  | .measured usage, .comparing _ limits => enter (.finished (compared usage limits))
  | .measured usage, .joining name listing joined _ =>
    enter (Charge.start name ((usage.get? name).getD Table.empty) listing joined)
  | .proceed, .locking charge held [] => enter (.checking charge held [] charge.quotas)
  | .proceed, .locking charge held (a :: next) =>
    let (handle, locks) := shared.locks.get a.name
    some ({ shared with locks := locks.wait handle },
      { c with stage := .waiting charge held handle a next }, [])
  | .proceed, .waiting charge held handle _ next =>
    if shared.locks.holds handle then enter (.locking charge (held ++ [handle]) next) else none
  | .proceed, .checking charge held checked [] =>
    if c.dryRun then enter (.releasing held (.ok ())) else enter (.reserving charge held checked)
  | .proceed, .checking charge held checked (a :: next) =>
    let scope := Scope.resolve rules.exclusions a.quota charge.listing
    match Snapshot.ofStatus? a.quota scope a.resources rules.staleness now.wall with
    | some s => some (decide now shared c charge held checked a next now.millis s)
    | none => enter (.reading charge held checked a now.millis next)
  | .measured usage, .reading charge held checked a since next =>
    some (decide now shared c charge held checked a next since
      (Snapshot.recompute usage a.resources))
  | .proceed, .reserving _ held [] => enter (.releasing held (.ok ()))
  | .proceed, .reserving charge held ((a, observed) :: next) =>
    let ledger := shared.ledger.reserve now.millis now.wall rules.reservationTtl a.name charge.name
      (charge.delta.restrict a.resources.toList) observed
    some ({ shared with ledger }, { c with stage := .reserving charge held next }, [])
  | .proceed, .releasing [] result => enter (.finished result)
  | .proceed, .releasing (handle :: rest) result =>
    some ({ shared with locks := shared.locks.drop handle },
      { c with stage := .releasing rest result }, [])
  | _, _ => none

end Engine

end SharedQuota
