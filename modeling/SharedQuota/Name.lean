import SharedQuota.Text.Cut
import SharedQuota.Text.Letter
import SharedQuota.Text.Pattern

/-!
The names that labels and resources may have: `[domain/]part`, where a part starts and ends with a
letter or digit and a domain is made of labels with points between them. Lengths count bytes.
-/

namespace SharedQuota.Name

open Text (Pattern)

def inPart (c : Char) : Bool := c == '-' || Text.isAlphanumeric c || c == '_' || c == '.'

/-- `([A-Za-z0-9][-A-Za-z0-9_.]*)?[A-Za-z0-9]` -/
def part : Pattern :=
  .seq (.optional (.seq (.one Text.isAlphanumeric) (.many (.one inPart)))) (.one Text.isAlphanumeric)

def inLabel (c : Char) : Bool := c == '-' || Text.isLowerOrDigit c

/-- `[a-z0-9]([-a-z0-9]*[a-z0-9])?` -/
def label : Pattern :=
  .seq (.one Text.isLowerOrDigit)
    (.optional (.seq (.many (.one inLabel)) (.one Text.isLowerOrDigit)))

/-- A label, and any number of further ones, each behind a point. -/
def domain : Pattern := .seq label (.many (.seq (.one (· == '.')) label))

/-- A part or nothing. -/
def value : Pattern := .optional part

def maxPart : Nat := 63

def maxDomain : Nat := 253

def maxValue : Nat := 63

def bytes (s : List Char) : Nat := (String.ofList s).utf8ByteSize

def isPart (s : List Char) : Bool := bytes s ≤ maxPart && part.accepts s

def isDomain (s : List Char) : Bool := !s.isEmpty && bytes s ≤ maxDomain && domain.accepts s

/-- Whether a text is a part, with or without a domain before the last slash. -/
def isQualified (text : String) : Bool :=
  match Text.cutLast? '/' text.toList with
  | some (front, back) => isDomain front && isPart back
  | none => isPart text.toList

def isLabelValue (text : String) : Bool :=
  text.utf8ByteSize ≤ maxValue && value.accepts text.toList

end SharedQuota.Name
