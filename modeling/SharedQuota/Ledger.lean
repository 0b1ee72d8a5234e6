import SharedQuota.Snapshot

/-!
Usage that was admitted and that readings may not show yet. A reservation counts toward its quota
until a reading shows it, or until it expires. Instants are milliseconds on the clock of the
process.
-/

namespace SharedQuota

structure Reservation where
  namespaceName : String
  usage : ResourceList
  /-- The usage of the namespace at which this reservation has become visible: what was read when it
  was made, every earlier reservation in the namespace, and its own usage. -/
  visibleAt : ResourceList
  reservedAt : Time
  expires : Nat
deriving DecidableEq

namespace Reservation

def isLive (now : Nat) (r : Reservation) : Bool := now < r.expires

/-- Whether a reading accounts for the reservation: a status computed after it does, and so does one
that shows the namespace at the amounts at which it is visible, for those resources asked for.
Nothing is known of a namespace outside the reading, which may yet join the scope. -/
def isObserved (r : Reservation) (s : Snapshot) (resources : KeySet ResourceName) : Bool :=
  (s.source == .status && s.synced.any r.reservedAt.before) ||
  match s.namespaces.get? r.namespaceName with
  | none => false
  | some used =>
    let checked := r.visibleAt.keys.filter resources.contains
    !checked.isEmpty && checked.all fun n => r.visibleAt.amount n ≤ used.amount n

end Reservation

/-- The reservations by quota, each list in the order in which they were made. -/
abbrev Ledger := Table String (List Reservation)

namespace Ledger

def under (l : Ledger) (quota : String) : List Reservation := (l.get? quota).getD []

/-- Replaces the reservations of a quota; a quota without any has no entry. -/
def put (l : Ledger) (quota : String) (rs : List Reservation) : Ledger :=
  if rs.isEmpty then l.erase quota else l.insert quota rs

/-- The usage a list of reservations adds up to. -/
def total (rs : List Reservation) (resources : List ResourceName) : ResourceList :=
  rs.foldl (fun sum r => sum.addAll (r.usage.restrict resources)) Table.empty

/-- The reservations of a quota that stay after a reading. -/
def unseen (l : Ledger) (now : Nat) (quota : String) (s : Snapshot)
    (resources : KeySet ResourceName) : List Reservation :=
  (l.under quota).filter fun r => r.isLive now && !r.isObserved s resources

/-- What a reading does not account for, and the ledger without what it does. -/
def pending (l : Ledger) (now : Nat) (quota : String) (s : Snapshot)
    (resources : KeySet ResourceName) : ResourceList × Ledger :=
  let rs := l.unseen now quota s resources
  (total rs resources.toList, l.put quota rs)

/-- Drops what has expired, of every quota. -/
def prune (l : Ledger) (now : Nat) : Ledger :=
  (l.map fun _ rs => rs.filter (·.isLive now)).filter fun _ rs => !rs.isEmpty

/-- The amounts at which `usage` will be visible in a namespace. -/
def visibleAt (earlier : List Reservation) (name : String) (usage observed : ResourceList) :
    ResourceList :=
  let names := usage.keys
  let before := (earlier.filter (·.namespaceName == name)).foldl
    (fun sum r => sum.addAll (r.usage.restrict names)) (observed.restrict names)
  before.addAll usage

/-- Reserves `usage` in a namespace of which a reading showed `observed`. Reserving nothing only
drops what has expired. -/
def reserve (l : Ledger) (now : Nat) (wall : Time) (ttl : Nat) (quota name : String)
    (usage observed : ResourceList) : Ledger :=
  let l := l.prune now
  if usage.isEmpty then l
  else
    let earlier := l.under quota
    let r : Reservation := ⟨name, usage, visibleAt earlier name usage observed, wall, now + ttl⟩
    l.put quota (earlier ++ [r])

end Ledger

end SharedQuota
