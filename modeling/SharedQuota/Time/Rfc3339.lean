import SharedQuota.Time

/-!
Times as RFC 3339 writes them. Reading takes any offset and drops what is below a nanosecond;
writing is always in UTC.
-/

namespace SharedQuota.Time

/-- The number that exactly `n` digits denote, and what follows them. -/
def digitsOf? (n : Nat) (s : List Char) : Option (Nat × List Char) :=
  let ds := s.take n
  if ds.length = n && ds.all Decimal.isDigit then some (Decimal.value ds, s.drop n) else none

def expect? (c : Char) : List Char → Option (List Char)
  | d :: s => if d = c then some s else none
  | [] => none

/-- The nanoseconds of a fraction, if there is one. -/
def fraction? : List Char → Option (Nat × List Char)
  | '.' :: s =>
    let ds := s.takeWhile Decimal.isDigit
    if ds.isEmpty then none
    else some (Decimal.value (ds.take 9) * Nat.pow 10 (9 - ds.length), s.dropWhile Decimal.isDigit)
  | s => some (0, s)

def offset? : List Char → Option (Int × List Char)
  | c :: s =>
    if c = 'Z' || c = 'z' then some (0, s)
    else if c = '+' || c = '-' || c = '\u2212' then do
      let (h, s) ← digitsOf? 2 s
      let s ← expect? ':' s
      let (m, s) ← digitsOf? 2 s
      let seconds : Int := h * 3600 + m * 60
      if h ≤ 23 && m ≤ 59 then some (if c = '+' then seconds else -seconds, s) else none
    else none
  | [] => none

def ofRfc3339? (text : String) : Option Time := do
  let (year, s) ← digitsOf? 4 text.toList
  let s ← expect? '-' s
  let (month, s) ← digitsOf? 2 s
  let s ← expect? '-' s
  let (day, s) ← digitsOf? 2 s
  let s ← match s with
    | c :: s => if c = 'T' || c = 't' || c = ' ' then some s else none
    | [] => none
  let (hour, s) ← digitsOf? 2 s
  let s ← expect? ':' s
  let (minute, s) ← digitsOf? 2 s
  let s ← expect? ':' s
  let (second, s) ← digitsOf? 2 s
  let (nano, s) ← fraction? s
  let (offset, s) ← offset? s
  let date : Date := ⟨year, month, day⟩
  if s.isEmpty && date.isValid && hour ≤ 23 && minute ≤ 59 && second ≤ 60 then
    let clock : Int := hour * 3600 + minute * 60 + min second 59
    some ⟨date.toDays * secondsPerDay + clock - offset,
      if second = 60 then nano + 1_000_000_000 else nano⟩
  else none

def padded (width n : Nat) : String :=
  let ds := Decimal.digits n
  String.ofList (List.replicate (width - ds.length) '0' ++ ds)

/-- A year outside of four digits carries its sign. -/
def yearText (y : Int) : String :=
  if y < 0 then "-" ++ padded 4 y.natAbs
  else if 9999 < y then "+" ++ padded 4 y.natAbs
  else padded 4 y.natAbs

/-- A time with a given text for the fraction of its second. -/
def textWith (fraction : Nat → String) (t : Time) : String :=
  let d := t.date
  let clock := (t.second % secondsPerDay).toNat
  yearText d.year ++ "-" ++ padded 2 d.month ++ "-" ++ padded 2 d.day ++ "T" ++
    padded 2 (clock / 3600) ++ ":" ++ padded 2 (clock / 60 % 60) ++ ":" ++
    padded 2 (clock % 60 + t.nano / 1_000_000_000) ++ fraction (t.nano % 1_000_000_000) ++ "Z"

/-- As many of 0, 3, 6 and 9 digits as leave nothing out. -/
def fractionText (nano : Nat) : String :=
  if nano = 0 then ""
  else if nano % 1_000_000 = 0 then "." ++ padded 3 (nano / 1_000_000)
  else if nano % 1_000 = 0 then "." ++ padded 6 (nano / 1_000)
  else "." ++ padded 9 nano

def text (t : Time) : String := t.textWith fractionText

def secondText (t : Time) : String := t.textWith fun _ => ""

def microsecondText (t : Time) : String := t.textWith fun nano => "." ++ padded 6 (nano / 1_000)

/-- Whether the time can be written with a year of four digits, so that it reads back. -/
def hasPlainYear (t : Time) : Bool := 0 ≤ t.date.year && t.date.year ≤ 9999

end SharedQuota.Time
