import SharedQuota.Decimal

/-!
Letters of ASCII, the only ones that names of the cluster are made of.
-/

namespace SharedQuota.Text

def isLower (c : Char) : Bool := 'a' ≤ c && c ≤ 'z'

def isUpper (c : Char) : Bool := 'A' ≤ c && c ≤ 'Z'

def isLowerOrDigit (c : Char) : Bool := isLower c || Decimal.isDigit c

def isAlphanumeric (c : Char) : Bool := isLower c || isUpper c || Decimal.isDigit c

def toLower (c : Char) : Char := if isUpper c then Char.ofNat (c.toNat + 32) else c

/-- Equality but for the case of letters. -/
def sameLetters (a b : String) : Bool := a.toList.map toLower == b.toList.map toLower

end SharedQuota.Text
