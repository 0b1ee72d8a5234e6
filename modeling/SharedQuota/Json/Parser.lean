import SharedQuota.Decimal
import SharedQuota.Double
import SharedQuota.Json

/-!
Reading JSON text. The grammar is that of RFC 8259 without a byte order mark; a literal that fits
the grammar but denotes no value becomes `Json.unreadable`, so that a reader of one part of a text
need not mind the rest.
-/

namespace SharedQuota.Json

def isSpace (c : Char) : Bool := c == ' ' || c == '\t' || c == '\n' || c == '\r'

def skipSpace (s : List Char) : List Char := s.dropWhile isSpace

/-! ### Strings -/

/-- A character of a string, or a 16-bit unit written `\u`. -/
inductive Piece
  | char (c : Char)
  | unit (n : Nat)

def hexValue? (c : Char) : Option Nat :=
  if '0' ≤ c && c ≤ '9' then some (c.toNat - 0x30)
  else if 'a' ≤ c && c ≤ 'f' then some (c.toNat - 0x61 + 10)
  else if 'A' ≤ c && c ≤ 'F' then some (c.toNat - 0x41 + 10)
  else none

def escaped? : Char → Option Char
  | '"' => some '"'
  | '\\' => some '\\'
  | '/' => some '/'
  | 'b' => some '\x08'
  | 'f' => some '\x0c'
  | 'n' => some '\n'
  | 'r' => some '\r'
  | 't' => some '\t'
  | _ => none

/-- The pieces up to the closing quote, and what follows it. -/
def pieces? : List Char → Option (List Piece × List Char)
  | [] => none
  | '"' :: rest => some ([], rest)
  | '\\' :: 'u' :: a :: b :: c :: d :: rest => do
    let a ← hexValue? a
    let b ← hexValue? b
    let c ← hexValue? c
    let d ← hexValue? d
    let (ps, rest) ← pieces? rest
    some (.unit (((a * 16 + b) * 16 + c) * 16 + d) :: ps, rest)
  | '\\' :: c :: rest => do
    let c ← escaped? c
    let (ps, rest) ← pieces? rest
    some (.char c :: ps, rest)
  | c :: rest =>
    if c.toNat < 0x20 then none
    else do
      let (ps, rest) ← pieces? rest
      some (.char c :: ps, rest)

def isHigh (n : Nat) : Bool := 0xd800 ≤ n && n < 0xdc00

def isLow (n : Nat) : Bool := 0xdc00 ≤ n && n < 0xe000

/-- The characters of a string, unless half of a surrogate pair stands alone. -/
def characters? : List Piece → Option (List Char)
  | [] => some []
  | .char c :: rest => (characters? rest).map (c :: ·)
  | .unit h :: .unit l :: rest =>
    if isHigh h && isLow l then
      (characters? rest).map (Char.ofNat (0x10000 + (h - 0xd800) * 0x400 + (l - 0xdc00)) :: ·)
    else if isHigh h || isLow h then none
    else (characters? (.unit l :: rest)).map (Char.ofNat h :: ·)
  | .unit n :: rest =>
    if isHigh n || isLow n then none else (characters? rest).map (Char.ofNat n :: ·)

/-- A string after its opening quote; `none` inside when it denotes no text. -/
def readString? (s : List Char) : Option (Option String × List Char) :=
  (pieces? s).map fun (ps, rest) => ((characters? ps).map String.ofList, rest)

/-! ### Numbers -/

def wholeBound : Nat := 1 <<< 64

/-- The most negative whole number that is kept as such has this magnitude. -/
def maxNegative : Nat := 1 <<< 63

/-- The number of the longest part of the digits, from the first on, that keeps below `wholeBound`
behind `n`, and how many digits it has. -/
def takeWhole (n : Nat) : List Char → Nat × Nat
  | [] => (n, 0)
  | c :: rest =>
    let m := 10 * n + Decimal.digitValue c
    if m < wholeBound then
      let (m, count) := takeWhole m rest
      (m, count + 1)
    else (n, 0)

def ofMagnitude (negative : Bool) (x : Double.Magnitude) : Json :=
  let c : Nat :=
    if 0 ≤ x.exponent then x.num else x.significand * Nat.pow 5 (-x.exponent).toNat
  .number (.decimal (if negative then -c else c) (min x.exponent 0))

/-- The value of a literal. A whole number that is kept as such is exact; any other literal denotes
a double, of whose digits only those count that keep below `wholeBound`. -/
def ofLiteral (negative : Bool) (whole fraction : List Char) (exponent : Option Int) : Json :=
  let n := Decimal.value whole
  let isKept := if negative then 0 < n && n ≤ maxNegative else n < wholeBound
  if fraction.isEmpty && exponent.isNone && isKept then
    .int (if negative then -n else n)
  else
    let (n, taken) := takeWhole 0 whole
    let (n, places) := takeWhole n fraction
    let e : Int := exponent.getD 0 + (whole.length - taken : Nat) - places
    ((Double.Magnitude.ofScaled? n e).map (ofMagnitude negative)).getD .unreadable

def digitSpan (s : List Char) : List Char × List Char :=
  (s.takeWhile Decimal.isDigit, s.dropWhile Decimal.isDigit)

def readExponent? (s : List Char) : Option (Int × List Char) :=
  let (negative, s) := match s with
    | '-' :: s => (true, s)
    | '+' :: s => (false, s)
    | s => (false, s)
  let (ds, rest) := digitSpan s
  if ds.isEmpty then none
  else some (if negative then -(Decimal.value ds : Int) else Decimal.value ds, rest)

def readNumber? (s : List Char) : Option (Json × List Char) :=
  let (negative, s) := match s with
    | '-' :: s => (true, s)
    | s => (false, s)
  let (whole, s) := digitSpan s
  if whole.isEmpty || (whole.head? == some '0' && 1 < whole.length) then none
  else do
    let (fraction, s) ← match s with
      | '.' :: s =>
        let (fraction, s) := digitSpan s
        if fraction.isEmpty then none else some (fraction, s)
      | s => some ([], s)
    let (exponent, s) ← match s with
      | 'e' :: s | 'E' :: s => (readExponent? s).map fun (e, s) => (some e, s)
      | s => some (none, s)
    some (ofLiteral negative whole fraction exponent, s)

/-! ### Values -/

/-- The rest of `s` after `word`. -/
def dropWord? (word s : List Char) : Option (List Char) :=
  if word.isPrefixOf s then some (s.drop word.length) else none

/-- An object, unless one of its keys denotes no text. -/
def ofMembers (members : List (Option String × Json)) : Json :=
  match members.mapM fun (k, j) => k.map (·, j) with
  | some ms => .object ms
  | none => .unreadable

mutual

/-- The value at the head of a text that starts with no space, and what follows it. -/
def readValue? : Nat → List Char → Option (Json × List Char)
  | 0, _ => none
  | _ + 1, [] => none
  | fuel + 1, c :: s =>
    match c with
    | 'n' => (dropWord? ['u', 'l', 'l'] s).map (.null, ·)
    | 't' => (dropWord? ['r', 'u', 'e'] s).map (.bool true, ·)
    | 'f' => (dropWord? ['a', 'l', 's', 'e'] s).map (.bool false, ·)
    | '"' => (readString? s).map fun (t, rest) => ((t.map Json.string).getD .unreadable, rest)
    | '[' =>
      match skipSpace s with
      | ']' :: rest => some (.array [], rest)
      | s => (readItems? fuel s).map fun (items, rest) => (.array items, rest)
    | '{' =>
      match skipSpace s with
      | '}' :: rest => some (.object [], rest)
      | s => (readMembers? fuel s).map fun (members, rest) => (ofMembers members, rest)
    | c => readNumber? (c :: s)

def readItems? : Nat → List Char → Option (List Json × List Char)
  | 0, _ => none
  | fuel + 1, s => do
    let (j, s) ← readValue? fuel s
    match skipSpace s with
    | ']' :: rest => some ([j], rest)
    | ',' :: s => (readItems? fuel (skipSpace s)).map fun (js, rest) => (j :: js, rest)
    | _ => none

def readMembers? : Nat → List Char → Option (List (Option String × Json) × List Char)
  | 0, _ => none
  | fuel + 1, s => do
    match s with
    | '"' :: s =>
      let (key, s) ← readString? s
      match skipSpace s with
      | ':' :: s =>
        let (j, s) ← readValue? fuel (skipSpace s)
        match skipSpace s with
        | '}' :: rest => some ([(key, j)], rest)
        | ',' :: s => (readMembers? fuel (skipSpace s)).map fun (ms, rest) => ((key, j) :: ms, rest)
        | _ => none
      | _ => none
    | _ => none

end

/-- The value a text is made of. Every value and every item takes a character, so that twice the
length bounds the nesting of the calls. -/
def parse? (text : String) : Option Json := do
  let s := text.toList
  let (j, rest) ← readValue? (2 * s.length + 2) (skipSpace s)
  if (skipSpace rest).isEmpty then some j else none

end SharedQuota.Json
