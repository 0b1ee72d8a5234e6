import SharedQuota.Text.Cut
import SharedQuota.Text.Letter
import SharedQuota.Time.Rfc3339

/-!
Times as objects of the cluster carry them. The parts are those of RFC 3339, written more freely:
blanks may stand before and after most parts, a number may lack its leading zeros, a signed year may
have any number of digits, and the word `UTC` is an offset too.
-/

namespace SharedQuota.Time

def skipBlanks (s : List Char) : List Char := s.dropWhile Text.isBlank

/-- The number that the digits at the head denote, one at least and `width` at most. -/
def digitsUpTo? (width : Nat) (s : List Char) : Option (Nat × List Char) :=
  let ds := (s.take width).takeWhile Decimal.isDigit
  if ds.isEmpty then none else some (Decimal.value ds, s.drop ds.length)

/-- A year. Without a sign it has four digits at most. -/
def freeYear? (s : List Char) : Option (Int × List Char) :=
  match skipBlanks s with
  | '+' :: s => (digitsUpTo? s.length s).map fun (n, s) => (n, s)
  | '-' :: s => (digitsUpTo? s.length s).map fun (n, s) => (-n, s)
  | s => (digitsUpTo? 4 s).map fun (n, s) => (n, s)

/-- A number of one digit or two, and the blanks around it skipped. -/
def freePair? (s : List Char) : Option (Nat × List Char) :=
  (digitsUpTo? 2 (skipBlanks s)).map fun (n, s) => (n, skipBlanks s)

/-- Two digits of hours and two of minutes, with any colons and blanks between them. -/
def hoursAndMinutes? (s : List Char) : Option (Nat × List Char) := do
  let (h, s) ← digitsOf? 2 s
  let (m, s) ← digitsOf? 2 (s.dropWhile fun c => c = ':' || Text.isBlank c)
  if m ≤ 59 then some (h * 3600 + m * 60, s) else none

def freeOffset? (s : List Char) : Option (Int × List Char) :=
  if (s.take 3).map Text.toLower = ['u', 't', 'c'] then some (0, s.drop 3)
  else match s with
  | [] => none
  | c :: s =>
    if c = 'Z' || c = 'z' then some (0, s)
    else if c = '+' then (hoursAndMinutes? s).map fun (n, s) => (n, s)
    else if c = '-' || c = '\u2212' then (hoursAndMinutes? s).map fun (n, s) => (-n, s)
    else none

def minYear : Int := -262143

def maxYear : Int := 262142

def isYear (y : Int) : Bool := minYear ≤ y && y ≤ maxYear

def ofStamp? (text : String) : Option Time := do
  let (year, s) ← freeYear? text.toList
  let s ← expect? '-' (skipBlanks s)
  let (month, s) ← freePair? s
  let s ← expect? '-' s
  let (day, s) ← digitsUpTo? 2 (skipBlanks s)
  let s ← match s with
    | c :: s => if c = 'T' || c = 't' || c = ' ' then some s else none
    | [] => none
  let (hour, s) ← freePair? s
  let s ← expect? ':' s
  let (minute, s) ← freePair? s
  let s ← expect? ':' s
  let (second, s) ← digitsUpTo? 2 (skipBlanks s)
  let (nano, s) ← fraction? s
  let (offset, s) ← freeOffset? (skipBlanks s)
  let date : Date := ⟨year, month, day⟩
  if !((skipBlanks s).isEmpty && isYear year && date.isValid && hour ≤ 23 && minute ≤ 59 &&
      second ≤ 60 && offset.natAbs < 86400) then none
  let clock : Int := hour * 3600 + minute * 60 + min second 59
  let t : Time :=
    ⟨date.toDays * secondsPerDay + clock - offset,
      if second = 60 then nano + 1_000_000_000 else nano⟩
  if isYear t.date.year then some t else none

example : ofStamp? " +2024 - 6-1t9:5 :00.5 utc " = ofRfc3339? "2024-06-01T09:05:00.5Z" := by
  decide +kernel

example : ofStamp? "2024-06-01T12:00:00+05" = none := by decide +kernel

end SharedQuota.Time
