import SharedQuota.Decimal
import SharedQuota.Json
import SharedQuota.Text.Quoted

/-!
Writing JSON text: compact, members in the order they have, and only those characters escaped that
must be.
-/

namespace SharedQuota.Json

/-- A 16-bit unit as four hexadecimal digits. -/
def unitDigits (n : Nat) : List Char :=
  let ds := Text.hexDigits n
  List.replicate (4 - ds.length) '0' ++ ds

def escapedChar (c : Char) : List Char :=
  match c with
  | '"' => ['\\', '"']
  | '\\' => ['\\', '\\']
  | '\x08' => ['\\', 'b']
  | '\x0c' => ['\\', 'f']
  | '\n' => ['\\', 'n']
  | '\r' => ['\\', 'r']
  | '\t' => ['\\', 't']
  | c => if c.toNat < 0x20 then ['\\', 'u'] ++ unitDigits c.toNat else [c]

def renderString (s : String) : String :=
  String.ofList ('"' :: s.toList.flatMap escapedChar ++ ['"'])

def Number.render : Number → String
  | .integer n => Decimal.text n
  | .decimal c e => Decimal.text c ++ "e" ++ Decimal.text e

mutual

/-- What is unreadable is written `null`. -/
def render : Json → String
  | .null => "null"
  | .bool true => "true"
  | .bool false => "false"
  | .number n => n.render
  | .string s => renderString s
  | .array items => "[" ++ renderItems items ++ "]"
  | .object members => "\x7b" ++ renderMembers members ++ "\x7d"
  | .unreadable => "null"

def renderItems : List Json → String
  | [] => ""
  | [j] => render j
  | j :: rest => render j ++ "," ++ renderItems rest

def renderMembers : List (String × Json) → String
  | [] => ""
  | [(k, j)] => renderString k ++ ":" ++ render j
  | (k, j) :: rest => renderString k ++ ":" ++ render j ++ "," ++ renderMembers rest

end

end SharedQuota.Json
