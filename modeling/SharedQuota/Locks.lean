import SharedQuota.Table

/-!
Locks by quota name, first come, first served. A lock comes into being when its name is asked for
and stays in the map while a handle on it lives; asking for a name drops the other idle ones.
-/

namespace SharedQuota

inductive Use
  | idle
  | waiting
  | holding
deriving DecidableEq

/-- A handle on a lock. A name that was dropped from the map and asked for again has a lock with
another number. -/
structure Handle where
  id : Nat
  name : String
  lock : Nat
  use : Use
deriving DecidableEq

structure Locks where
  map : Table String Nat
  /-- The live handles; those that wait for one lock are in the order in which they came. -/
  handles : List Handle
  nextLock : Nat
  nextHandle : Nat

namespace Locks

def empty : Locks := ⟨Table.empty, [], 0, 0⟩

def inUse (l : Locks) (lock : Nat) : Bool := l.handles.any (·.lock == lock)

def isHeld (l : Locks) (lock : Nat) : Bool :=
  l.handles.any fun h => h.lock == lock && h.use == .holding

def find? (l : Locks) (id : Nat) : Option Handle := l.handles.find? (·.id == id)

def holds (l : Locks) (id : Nat) : Bool := (l.find? id).any (·.use == .holding)

/-- Gives out a handle on the lock of a name, without taking the lock. -/
def get (l : Locks) (name : String) : Nat × Locks :=
  let map := l.map.filter fun n lock => n == name || l.inUse lock
  let id := l.nextHandle
  match map.get? name with
  | some lock =>
    (id, { l with map, handles := l.handles ++ [⟨id, name, lock, .idle⟩], nextHandle := id + 1 })
  | none =>
    let lock := l.nextLock
    (id, { l with
      map := map.insert name lock
      handles := l.handles ++ [⟨id, name, lock, .idle⟩]
      nextLock := lock + 1
      nextHandle := id + 1 })

/-- Changes what a handle is used for and puts it behind the others. -/
def setUse (l : Locks) (id : Nat) (use : Use) : Locks :=
  match l.find? id with
  | none => l
  | some h => { l with handles := l.handles.filter (·.id != id) ++ [{ h with use }] }

/-- Takes the lock of a handle if nobody holds it. -/
def tryLock (l : Locks) (id : Nat) : Locks :=
  match l.find? id with
  | none => l
  | some h => if l.isHeld h.lock then l else l.setUse id .holding

/-- Takes the lock of a handle, or waits for it. -/
def wait (l : Locks) (id : Nat) : Locks :=
  match l.find? id with
  | none => l
  | some h => l.setUse id (if l.isHeld h.lock then .waiting else .holding)

/-- Hands a lock to the first that waits for it. -/
def handOver (lock : Nat) : List Handle → List Handle
  | [] => []
  | h :: rest =>
    if h.lock = lock ∧ h.use = .waiting then { h with use := .holding } :: rest
    else h :: handOver lock rest

/-- Ends a handle. A lock that it held goes to the first that waits. -/
def drop (l : Locks) (id : Nat) : Locks :=
  match l.find? id with
  | none => l
  | some h =>
    let rest := l.handles.filter (·.id != id)
    { l with handles := if h.use = .holding then handOver h.lock rest else rest }

/-- Whether ending a handle hands its lock to another. -/
def passesOn (l : Locks) (id : Nat) : Bool :=
  (l.find? id).any fun h =>
    h.use == .holding && l.handles.any fun h' => h'.lock == h.lock && h'.use == .waiting

def names (l : Locks) : List String := l.map.keys

end Locks

end SharedQuota
