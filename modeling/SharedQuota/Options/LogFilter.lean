import SharedQuota.Decimal
import SharedQuota.Text.Cut
import SharedQuota.Text.Invisible
import SharedQuota.Text.Letter

/-!
Filters that say what is logged: directives with commas between them, each a level, or a target
`name[span{field=pattern}]=level` of which any part may be left out. Only their form is looked at.
-/

namespace SharedQuota.LogFilter

/-! ### Levels -/

def levels : List String := ["", "off", "error", "warn", "info", "debug", "trace"]

def isLevel (s : List Char) : Bool :=
  levels.any (Text.sameLetters (String.ofList s)) || (Decimal.ofPlusDigits? s).any (· ≤ 5)

/-! ### Patterns -/

inductive Place
  /-- Between parts; `operand` tells whether something stands before that may be repeated. -/
  | parts (operand : Bool)
  | escape
  /-- Behind the `(?` that opens a group. -/
  | flags
  /-- Behind the `P` of a group with a name, and in the name. -/
  | groupMark
  | groupName
  /-- In so many brackets; `first` tells whether the innermost has just been opened. -/
  | brackets (count : Nat) (first : Bool)
  | bracketEscape (count : Nat)

def isEscapable (c : Char) : Bool :=
  "dDwWsSbBAzafnrtvpPxuU".toList.contains c ||
    (c.toNat < 0x80 && !Text.isAlphanumeric c && !Text.isBlank c)

/-- Whether the rest of a pattern is well formed, inside so many open groups. -/
def isPatternFrom (groups : Nat) : Place → List Char → Bool
  | .parts _, [] => groups = 0
  | _, [] => false
  | .parts operand, c :: rest =>
    match c with
    | '(' =>
      match rest with
      | '?' :: rest => isPatternFrom groups .flags rest
      | rest => isPatternFrom (groups + 1) (.parts false) rest
    | ')' => 0 < groups && isPatternFrom (groups - 1) (.parts true) rest
    | '|' => isPatternFrom groups (.parts false) rest
    | '*' | '+' | '?' => operand && isPatternFrom groups (.parts true) rest
    | '\x7b' => false
    | '[' => isPatternFrom groups (.brackets 1 true) rest
    | '\\' => isPatternFrom groups .escape rest
    | _ => isPatternFrom groups (.parts true) rest
  | .escape, c :: rest => isEscapable c && isPatternFrom groups (.parts true) rest
  | .flags, c :: rest =>
    match c with
    | ':' => isPatternFrom (groups + 1) (.parts false) rest
    | ')' => isPatternFrom groups (.parts false) rest
    | 'P' => isPatternFrom groups .groupMark rest
    | '<' => isPatternFrom groups .groupName rest
    | c => "imsRUux-".toList.contains c && isPatternFrom groups .flags rest
  | .groupMark, c :: rest => c = '<' && isPatternFrom groups .groupName rest
  | .groupName, c :: rest =>
    if c = '>' then isPatternFrom (groups + 1) (.parts false) rest
    else (Text.isAlphanumeric c || c = '_') && isPatternFrom groups .groupName rest
  | .brackets count first, c :: rest =>
    match c with
    | '^' => isPatternFrom groups (.brackets count first) rest
    | ']' =>
      if first then isPatternFrom groups (.brackets count false) rest
      else if count = 1 then isPatternFrom groups (.parts true) rest
      else isPatternFrom groups (.brackets (count - 1) false) rest
    | '[' => isPatternFrom groups (.brackets (count + 1) true) rest
    | '\\' => isPatternFrom groups (.bracketEscape count) rest
    | _ => isPatternFrom groups (.brackets count false) rest
  | .bracketEscape count, c :: rest =>
    isEscapable c && isPatternFrom groups (.brackets count false) rest

def isPattern (s : List Char) : Bool :=
  (Decimal.ofPlusDigits? s).isSome || isPatternFrom 0 (.parts false) s

/-! ### Directives -/

/-- A field with the pattern of its value, if it has one. -/
def isField (s : List Char) : Bool :=
  !s.isEmpty && match Text.parts '=' s with
    | _ :: pattern :: _ => isPattern pattern
    | _ => true

/-- What a directive may start with. Beyond ASCII every visible character may. -/
def isNameStart (c : Char) : Bool :=
  c = '-' || c = ':' || c = '_' ||
    if c.toNat < 0x80 then Text.isAlphanumeric c else !Text.invisible c

inductive Part
  | start
  | name
  | span
  | field (start : Nat)
  | fieldsEnd
  | spanEnd

/-- Whether a directive is well formed from its character number `i` on, of which `rest` are left.
The texts of levels and fields are taken from `whole`, which may start with blanks that do not count
in `i`. -/
def isDirectiveFrom (whole : List Char) : Part → Nat → List Char → Bool
  | .name, _, [] | .spanEnd, _, [] => true
  | _, _, [] => false
  | .start, i, c :: rest =>
    if c = '[' then isDirectiveFrom whole .span (i + 1) rest
    else isNameStart c && isDirectiveFrom whole .name (i + 1) rest
  | .name, i, c :: rest =>
    if c = '=' then isLevel (whole.drop (i + 1))
    else isDirectiveFrom whole (if c = '[' then .span else .name) (i + 1) rest
  | .span, i, c :: rest =>
    let next : Part := match c with
      | ']' => .spanEnd
      | '\x7b' => .field (i + 1)
      | _ => .span
    isDirectiveFrom whole next (i + 1) rest
  | .field start, i, c :: rest =>
    if c = '\x7d' then
      isField ((whole.drop start).take (i - start)) && isDirectiveFrom whole .fieldsEnd (i + 1) rest
    else isDirectiveFrom whole (.field start) (i + 1) rest
  | .fieldsEnd, i, c :: rest => c = ']' && isDirectiveFrom whole .spanEnd (i + 1) rest
  | .spanEnd, i, c :: _ => c = '=' && isLevel (whole.drop (i + 1))

def isDirective (s : List Char) : Bool := isDirectiveFrom s .start 0 (Text.trim s)

/-- Whether a text is a filter. Directives that are empty do not count. -/
def isFilter (s : String) : Bool :=
  ((Text.parts ',' s.toList).filter (!·.isEmpty)).all isDirective

example : isFilter "cluster_quota=info,warn,,a::b[span\x7bx=y.*\x7d]=trace" = true := by
  decide +kernel

example : isFilter "[span" = false ∧ isFilter "a=loud" = false := by decide +kernel

end SharedQuota.LogFilter
