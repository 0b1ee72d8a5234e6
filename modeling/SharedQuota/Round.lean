/-!
Rounds. All that is under way gets one turn in a round, in order, and work takes no time. What a
turn notices costs a unit: that a delay is over, that a lock is there, that a request is sent or
answered, that a deadline has passed. A round has a limited number of units; a turn that finds none
left tries again in the next round, which then follows at the same instant.
-/

namespace SharedQuota

structure Round where
  millis : Nat
  units : Nat
  /-- Whether the next round follows at the same instant. -/
  again : Bool

namespace Round

def maxUnits : Nat := 128

def start (millis : Nat) : Round := ⟨millis, maxUnits, false⟩

def retry (r : Round) : Round := { r with again := true }

/-- The round with one unit less, if there is one. -/
def spend? (r : Round) : Option Round :=
  if r.units = 0 then none else some { r with units := r.units - 1 }

/-- Looks whether a delay is over. Where there is none, the look is free. -/
def isOver (r : Round) : Option Nat → Round × Bool
  | none => (r, true)
  | some due =>
    match r.spend? with
    | none => (r.retry, false)
    | some spent => if due ≤ r.millis then (spent, true) else (r, false)

/-- Looks whether a deadline has passed for something that was found waiting just before, when there
were `before` units. If that took the last of them, the look is free. -/
def isLate (r : Round) (before deadline : Nat) : Round × Bool :=
  match r.spend? with
  | some spent => if deadline ≤ r.millis then (spent, true) else (r, false)
  | none => if before = 0 then (r.retry, false) else (r, deadline ≤ r.millis)

theorem spend?_eq_none {r : Round} : r.spend? = none ↔ r.units = 0 := by
  simp [spend?]

end Round

end SharedQuota
