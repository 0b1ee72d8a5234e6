import SharedQuota.Decimal
import SharedQuota.Text.Letter

/-!
Targets of HTTP requests: a path with a query, a star, an authority, or a scheme with both. Of a
target only the path is wanted; it is taken as written, and what `#` starts is dropped.
-/

namespace SharedQuota.Http

/-! ### Paths and queries -/

/-- The characters beyond ASCII, and the last of ASCII. -/
def isBeyond (c : Char) : Bool := 0x7f ≤ c.toNat

def isPathChar (c : Char) : Bool :=
  isBeyond c || (0x21 ≤ c.toNat && !"#<>?\x60".toList.contains c)

def isQueryChar (c : Char) : Bool :=
  isBeyond c || (0x21 ≤ c.toNat && !"\"#<>".toList.contains c)

/-- Whether a query is well formed, up to the `#` that ends it. -/
def isQuery (s : List Char) : Bool := (s.takeWhile (· != '#')).all isQueryChar

/-- The path at the head of `s`, if it and the query behind it are well formed. -/
def pathOf? (s : List Char) : Option String :=
  let path := s.takeWhile fun c => c != '?' && c != '#'
  let isWell := path.all isPathChar && match s.drop path.length with
    | '?' :: query => isQuery query
    | _ => true
  if isWell then some (String.ofList path) else none

/-! ### Authorities -/

def endsAuthority (c : Char) : Bool := c = '/' || c = '?' || c = '#'

/-- What has been seen of an authority. Colons and percent signs up to the last `@` or `]` do not
count. -/
structure Authority where
  colons : Nat
  opened : Bool
  closed : Bool
  percent : Bool
  endsUser : Bool

namespace Authority

def start : Authority := ⟨0, false, false, false, false⟩

def maxColons : Nat := 8

def isPlain (c : Char) : Bool := Text.isAlphanumeric c || "!$&'()*+,-.;=_~".toList.contains c

def push? (a : Authority) (c : Char) : Option Authority :=
  let a' := { a with endsUser := false }
  match c with
  | ':' => if a.colons < maxColons then some { a' with colons := a.colons + 1 } else none
  | '[' => if a.percent || a.opened then none else some { a' with opened := true }
  | ']' =>
    if !a.opened || a.closed then none
    else some { a' with closed := true, colons := 0, percent := false }
  | '@' => some { a with colons := 0, percent := false, endsUser := true }
  | '%' => some { a' with percent := true }
  | c => if isPlain c then some a' else none

def isComplete (a : Authority) : Bool :=
  a.opened == a.closed && a.colons ≤ 1 && !a.endsUser && !a.percent

/-- What follows the authority at the head of `s`. -/
def rest? (a : Authority) : List Char → Option (List Char)
  | [] => if a.isComplete then some [] else none
  | c :: s =>
    if endsAuthority c then if a.isComplete then some (c :: s) else none
    else do rest? (← a.push? c) s

end Authority

/-! ### Targets -/

def isSchemeChar (c : Char) : Bool := Text.isAlphanumeric c || "+-.~".toList.contains c

def maxScheme : Nat := 64

/-- What follows a scheme and its `://`, and whether the scheme is of a length that is allowed. -/
def afterScheme? (s : List Char) : Option (Bool × List Char) :=
  let scheme := s.takeWhile isSchemeChar
  match s.drop scheme.length with
  | ':' :: '/' :: '/' :: rest => some (scheme.length ≤ maxScheme, rest)
  | _ => none

/-- The path of a target. A star is its own path, an authority alone has an empty path, and behind a
scheme the empty path stands for the root. -/
def pathOfTarget? (target : String) : Option String :=
  match target.toList with
  | [] => none
  | ['*'] => some "*"
  | '/' :: rest => pathOf? ('/' :: rest)
  | s =>
    match afterScheme? s with
    | none => do if (← Authority.start.rest? s).isEmpty then some "" else none
    | some (allowed, s) => do
      if !allowed || s.isEmpty || s.head?.any endsAuthority then none
      let path ← pathOf? (← Authority.start.rest? s)
      some (if path.isEmpty then "/" else path)

/-- The longest target, in bytes. -/
def maxTarget : Nat := (1 <<< 16) - 2

/-! ### Request lines -/

def isMethodChar (c : Char) : Bool :=
  Text.isAlphanumeric c || "!#$%&'*+-.^_\x60|~".toList.contains c

inductive Head
  | malformed
  | targetTooLong
  | path (path : String)
deriving DecidableEq

/-- Reads the method and the target of a request. Blanks and controls would end the target early. -/
def Head.of (method target : String) : Head :=
  let isWritten (c : Char) : Bool := 0x20 < c.toNat && c.toNat != 0x7f
  if method.isEmpty || !method.toList.all isMethodChar then .malformed
  else if target.isEmpty || !target.toList.all isWritten then .malformed
  else if maxTarget < target.utf8ByteSize then .targetTooLong
  else match pathOfTarget? target with
    | none => .malformed
    | some p => .path p

end SharedQuota.Http
