import ProjectGraph.Text.Invisible

/-!
Text in messages: between double quotes, on one line, with every character visible. A quote, a backslash
and the common controls have short escapes, any other invisible character is given by its number.
-/

namespace ProjectGraph

/-- Lower-case hexadecimal digits without leading zeros. -/
def hexadecimal (n : Nat) : String :=
  String.ofList (Nat.toDigits 16 n)

/-- One character as it stands between the quotes. -/
def quotedChar (c : Char) : String :=
  match c with
  | '"' => "\\\""
  | '\\' => "\\\\"
  | '\n' => "\\n"
  | '\r' => "\\r"
  | '\t' => "\\t"
  | '\x00' => "\\0"
  | c => if isInvisible c then "\\u\x7b" ++ hexadecimal c.toNat ++ "\x7d" else c.toString

def quoted (s : String) : String :=
  "\"" ++ String.join (s.toList.map quotedChar) ++ "\""

end ProjectGraph
