import SharedQuota.Decimal

/-!
Points in time in UTC, to the nanosecond, and the calendar. A leap second is the last second of its
minute with a thousand million nanoseconds or more.
-/

namespace SharedQuota

/-- `second` counts from the start of 1970. -/
structure Time where
  second : Int
  nano : Nat
deriving DecidableEq

namespace Time

def nanosPerSecond : Int := 1_000_000_000

def secondsPerDay : Int := 86400

instance : Ord Time := ⟨fun a b => (compare a.second b.second).then (compare a.nano b.nano)⟩

def before (a b : Time) : Bool := compare a b == .lt

def later (a b : Time) : Time := if a.before b then b else a

def latest? (ts : List Time) : Option Time := ts.foldl (fun m t => some (m.elim t (later · t))) none

def isLeap (t : Time) : Bool := 1_000_000_000 ≤ t.nano

/-- The nanoseconds from `b` to `a`. Between two times of one day a leap second counts as a second
of its own. -/
def since (a b : Time) : Int :=
  let clock (t : Time) : Int := t.second % secondsPerDay
  let leap : Int :=
    if clock b < clock a && b.isLeap then 1 else if clock a < clock b && a.isLeap then -1 else 0
  (a.second - b.second + leap) * nanosPerSecond + (a.nano - b.nano : Int)

def plusMillis (t : Time) (ms : Nat) : Time :=
  let n := t.nano + ms * 1_000_000
  ⟨t.second + (n / 1_000_000_000 : Nat), n % 1_000_000_000⟩

@[simp] theorem isLeap_plusMillis (t : Time) (ms : Nat) : (t.plusMillis ms).isLeap = false :=
  decide_eq_false (Nat.not_le.2 (Nat.mod_lt _ (by decide)))

def toSecond (t : Time) : Time := { t with nano := t.nano / 1_000_000_000 * 1_000_000_000 }

def toMicrosecond (t : Time) : Time := { t with nano := t.nano / 1_000 * 1_000 }

/-! ### The calendar -/

structure Date where
  year : Int
  month : Nat
  day : Nat
deriving DecidableEq

namespace Date

def isLeapYear (y : Int) : Bool := (y % 4 == 0 && y % 100 != 0) || y % 400 == 0

def daysInMonth (y : Int) (m : Nat) : Nat :=
  if m == 2 then if isLeapYear y then 29 else 28
  else if m == 4 || m == 6 || m == 9 || m == 11 then 30 else 31

def isValid (d : Date) : Bool :=
  1 ≤ d.month && d.month ≤ 12 && 1 ≤ d.day && d.day ≤ daysInMonth d.year d.month

/-- The days from the start of 1970. A year is taken to begin in March, so that the leap day ends
it. -/
def toDays (d : Date) : Int :=
  let y := if d.month ≤ 2 then d.year - 1 else d.year
  let m := (d.month + 9) % 12
  let dayOfYear := (153 * m + 2) / 5 + d.day - 1
  365 * y + y / 4 - y / 100 + y / 400 + dayOfYear - 719468

def ofDays (days : Int) : Date :=
  let n := days + 719468
  let era := n / 146097
  let dayOfEra := n % 146097
  let yearOfEra := (dayOfEra - dayOfEra / 1460 + dayOfEra / 36524 - dayOfEra / 146096) / 365
  let dayOfYear := dayOfEra - (365 * yearOfEra + yearOfEra / 4 - yearOfEra / 100)
  let m := (5 * dayOfYear + 2) / 153
  let month := if m < 10 then m + 3 else m - 9
  ⟨yearOfEra + era * 400 + (if month ≤ 2 then 1 else 0), month.toNat,
    (dayOfYear - (153 * m + 2) / 5 + 1).toNat⟩

end Date

def date (t : Time) : Date := .ofDays (t.second / secondsPerDay)

end Time

end SharedQuota
