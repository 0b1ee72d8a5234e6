/-!
Patterns of whole texts: characters of a class, one pattern after another, and a pattern any number
of times over. A text is read one character at a time, and what has to follow a character is a
pattern again (`Pattern.after`).
-/

namespace SharedQuota.Text

inductive Pattern
  | nothing
  | blank
  | one (allowed : Char → Bool)
  | seq (p q : Pattern)
  | either (p q : Pattern)
  | many (p : Pattern)

namespace Pattern

def optional (p : Pattern) : Pattern := either p blank

def acceptsBlank : Pattern → Bool
  | nothing => false
  | blank => true
  | one _ => false
  | seq p q => p.acceptsBlank && q.acceptsBlank
  | either p q => p.acceptsBlank || q.acceptsBlank
  | many _ => true

/-- What has to follow `c` in a text of the pattern. -/
def after (c : Char) : Pattern → Pattern
  | nothing => nothing
  | blank => nothing
  | one allowed => if allowed c then blank else nothing
  | seq p q =>
    if p.acceptsBlank then either (seq (after c p) q) (after c q) else seq (after c p) q
  | either p q => either (after c p) (after c q)
  | many p => seq (after c p) (many p)

/-- Whether the pattern is one of the whole text. -/
def accepts (p : Pattern) : List Char → Bool
  | [] => p.acceptsBlank
  | c :: s => (p.after c).accepts s

end Pattern

end SharedQuota.Text
