import PullGraph.Text.Printable

/-! # Quoted text

A text between double quotes in which every character can be seen: quotes and
backslashes are escaped, the usual controls have their short names, and what
cannot be shown on its own is written as its code point.
-/
namespace PullGraph.Text

/-- The code point of a character, in lower-case hexadecimal digits. -/
def hexDigits (c : Char) : String := String.ofList (Nat.toDigits 16 c.toNat)

/-- A character as it stands between quotes. -/
def quotedChar (c : Char) : String :=
  if c = '"' then "\\\""
  else if c = '\\' then "\\\\"
  else if c = '\n' then "\\n"
  else if c = '\r' then "\\r"
  else if c = '\t' then "\\t"
  else if c.toNat = 0 then "\\0"
  else if isPrintable c then c.toString
  else "\\u\x7b" ++ hexDigits c ++ "\x7d"

/-- A text between double quotes. -/
def quoted (s : String) : String :=
  "\"" ++ String.join (s.toList.map quotedChar) ++ "\""

end PullGraph.Text
