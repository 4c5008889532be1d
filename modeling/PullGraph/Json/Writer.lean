import PullGraph.Message
import PullGraph.Settings

/-! # Compact JSON text

Values, settings and messages are written as JSON without blanks, the entries of
a map in their order. In a text only the quote, the backslash and the control
characters are escaped.
-/
namespace PullGraph.Json

/-- A hexadecimal digit in lower case. -/
def hexDigit (n : Nat) : Char := Nat.digitChar n

/-- A character inside a JSON text. -/
def writeChar (c : Char) : List Char :=
  if c = '"' then ['\\', '"']
  else if c = '\\' then ['\\', '\\']
  else if c = '\x08' then ['\\', 'b']
  else if c = '\t' then ['\\', 't']
  else if c = '\n' then ['\\', 'n']
  else if c = '\x0c' then ['\\', 'f']
  else if c = '\r' then ['\\', 'r']
  else if c.toNat < 0x20 then
    ['\\', 'u', '0', '0', hexDigit (c.toNat / 16), hexDigit (c.toNat % 16)]
  else [c]

/-- A text between quotes. -/
def writeText (s : String) : List Char :=
  '"' :: s.toList.flatMap writeChar ++ ['"']

/-- An integer in decimal digits. -/
def writeInt (n : Int) : List Char :=
  if n < 0 then '-' :: Nat.toDigits 10 n.natAbs else Nat.toDigits 10 n.natAbs

/-- A truth value. -/
def writeBool (b : Bool) : List Char :=
  if b then ['t', 'r', 'u', 'e'] else ['f', 'a', 'l', 's', 'e']

/-- Texts between brackets, with commas between them. -/
def writeArray (items : List (List Char)) : List Char :=
  '[' :: [','].intercalate items ++ [']']

/-- A message; one that is neither an integer nor a text is null. -/
def writeMessage : Message → List Char
  | .int n => writeInt n.toInt
  | .text s => writeText s
  | .signal => ['n', 'u', 'l', 'l']

mutual

/-- A value. -/
def writeValue : Value → List Char
  | .bool b => writeBool b
  | .int n => writeInt n.toInt
  | .text s => writeText s
  | .map s => writeSettings s

/-- A map. -/
def writeSettings : Settings → List Char
  | .nil => ['\x7b', '\x7d']
  | .cons k v rest => '\x7b' :: writeText k ++ ':' :: writeValue v ++ writeRest rest

/-- The entries of a map behind its first, and the closing brace. -/
def writeRest : Settings → List Char
  | .nil => ['\x7d']
  | .cons k v rest => ',' :: writeText k ++ ':' :: writeValue v ++ writeRest rest

end

end PullGraph.Json
