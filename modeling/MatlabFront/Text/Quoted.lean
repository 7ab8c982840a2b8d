import MatlabFront.Text.Invisible

/-!
# Quoted text

A text between double quotes in which everything can be seen: quotes, backslashes and the common
controls are written with a backslash, and characters that show nothing of their own or extend the
one before them by their code point in hexadecimal.
-/

namespace MatlabFront.Text

/-- One character inside quoted text. -/
def quotedChar (c : Char) : String :=
  if c = '\x00' then "\\0"
  else if c = '\t' then "\\t"
  else if c = '\r' then "\\r"
  else if c = '\n' then "\\n"
  else if c = '"' then "\\\""
  else if c = '\\' then "\\\\"
  else if isExtending c || isInvisible c then
    "\\u\x7b" ++ String.ofList (Nat.toDigits 16 c.toNat) ++ "\x7d"
  else c.toString

/-- A text between double quotes. -/
def quoted (text : String) : String :=
  "\"" ++ String.join (text.toList.map quotedChar) ++ "\""

end MatlabFront.Text
