import NodeFleet.Text.Unprintable
/-!
The quoted form of a text in messages: between double quotes, with quotes and backslashes escaped,
the common controls by letter and everything unprintable by its code point.
-/

set_option autoImplicit false
set_option relaxedAutoImplicit false

namespace NodeFleet.Text

def hexDigits (n : Nat) : String :=
  String.ofList (Nat.toDigits 16 n)

/-- One character between the quotes. -/
def quotedChar (c : Char) : String :=
  match c with
  | '\x00' => "\\0"
  | '\t' => "\\t"
  | '\n' => "\\n"
  | '\r' => "\\r"
  | '"' => "\\\""
  | '\\' => "\\\\"
  | c => if isUnprintable c then "\\u\x7b" ++ hexDigits c.toNat ++ "\x7d" else c.toString

def quoted (s : String) : String :=
  "\"" ++ String.join (s.toList.map quotedChar) ++ "\""

end NodeFleet.Text
