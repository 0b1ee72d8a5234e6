import SharedQuota.Text.Invisible

/-!
Text between double quotes, as messages show it: a quote, a backslash and every character without
a visible shape are escaped, all else is left as it is.
-/

namespace SharedQuota.Text

def hexDigits (n : Nat) : List Char := Nat.toDigits 16 n

def quotedChar (c : Char) : List Char :=
  match c with
  | '"' => ['\\', '"']
  | '\\' => ['\\', '\\']
  | '\x00' => ['\\', '0']
  | '\t' => ['\\', 't']
  | '\n' => ['\\', 'n']
  | '\r' => ['\\', 'r']
  | c => if invisible c then ['\\', 'u', '{'] ++ hexDigits c.toNat ++ ['}'] else [c]

def quoted (s : String) : String :=
  String.ofList ('"' :: s.toList.flatMap quotedChar ++ ['"'])

example : quoted "a\"b\n\x7f" = "\"a\\\"b\\n\\u\x7b7f\x7d\"" := by decide +kernel

end SharedQuota.Text
