import PullGraph.Json.Numeral
import PullGraph.Settings
import PullGraph.Word

/-! # Reading JSON

A JSON text is read from left to right, and the first problem met ends the reading.
A value that settings can hold is kept; anything else that is sound JSON is read to
its end and yields nothing.

Two modes share the grammar. Strict reading limits how deep containers nest, gives
numerals their value and wants surrogate escapes in pairs. Lenient reading only
passes over a value whose content does not matter.
-/
namespace PullGraph.Json

/-- How a value is read. -/
inductive Mode where
  /-- The content counts; `depth` more containers may be opened. -/
  | strict (depth : Nat)
  /-- Only the grammar counts. -/
  | lenient
  deriving DecidableEq, Repr

namespace Mode

/-- The mode inside a container, if one may be opened. -/
def enter : Mode → Option Mode
  | .strict 0 => none
  | .strict (depth + 1) => some (.strict depth)
  | .lenient => some .lenient

/-- The problem of a numeral that the end of the text cuts off. -/
def cut : Mode → Problem
  | .strict _ => .truncated
  | .lenient => .malformed

end Mode

/-- Whether a character separates tokens without meaning anything. -/
def isBlank (c : Char) : Bool := c = ' ' || c = '\t' || c = '\n' || c = '\r'

/-- The text behind its leading blanks. -/
def skipBlanks (cs : List Char) : List Char := cs.dropWhile isBlank

/-- The text behind the word `word`, which it must start with. -/
def expectWord : (word : List Char) → List Char → Except Problem (List Char)
  | [], cs => .ok cs
  | _ :: _, [] => .error .truncated
  | w :: ws, c :: cs => if w = c then expectWord ws cs else .error .malformed

/-- The value of a hexadecimal digit. -/
def hexValue? (c : Char) : Option Nat :=
  if '0' ≤ c && c ≤ '9' then some (c.toNat - '0'.toNat)
  else if 'a' ≤ c && c ≤ 'f' then some (c.toNat - 'a'.toNat + 10)
  else if 'A' ≤ c && c ≤ 'F' then some (c.toNat - 'A'.toNat + 10)
  else none

/-- Four hexadecimal digits. A text of less than four bytes is cut off, whatever
it holds. -/
def hexUnit (cs : List Char) : Except Problem (Nat × List Char) :=
  if (String.ofList (cs.take 4)).utf8ByteSize < 4 then .error .truncated
  else match cs with
    | a :: b :: c :: d :: rest =>
      match hexValue? a, hexValue? b, hexValue? c, hexValue? d with
      | some a, some b, some c, some d => .ok (((a * 16 + b) * 16 + c) * 16 + d, rest)
      | _, _, _, _ => .error .malformed
    | _ => .error .malformed

/-- Whether a unit is the first of a surrogate pair. -/
def isLeading (n : Nat) : Bool := 0xD800 ≤ n && n ≤ 0xDBFF

/-- Whether a unit is the second of a surrogate pair. -/
def isTrailing (n : Nat) : Bool := 0xDC00 ≤ n && n ≤ 0xDFFF

/-- The second half of a surrogate pair and the character that both denote. -/
def pairedUnit (leading : Nat) (cs : List Char) : Except Problem (Char × List Char) :=
  match cs with
  | [] => .error .truncated
  | '\\' :: [] => .error .truncated
  | '\\' :: 'u' :: rest => do
    let (trailing, rest) ← hexUnit rest
    if isTrailing trailing then
      pure (Char.ofNat ((leading - 0xD800) * 0x400 + (trailing - 0xDC00) + 0x10000), rest)
    else .error .malformed
  | _ => .error .malformed

/-- The character that an escape denotes, read behind its backslash. In lenient mode
a surrogate stands alone; it denotes no character, and a replacement is given. -/
def escape (mode : Mode) : List Char → Except Problem (Char × List Char)
  | [] => .error .truncated
  | '"' :: rest => .ok ('"', rest)
  | '\\' :: rest => .ok ('\\', rest)
  | '/' :: rest => .ok ('/', rest)
  | 'b' :: rest => .ok ('\x08', rest)
  | 'f' :: rest => .ok ('\x0c', rest)
  | 'n' :: rest => .ok ('\n', rest)
  | 'r' :: rest => .ok ('\r', rest)
  | 't' :: rest => .ok ('\t', rest)
  | 'u' :: rest => do
    let (unit, rest) ← hexUnit rest
    if isLeading unit || isTrailing unit then
      match mode with
      | .lenient => pure ('\uFFFD', rest)
      | .strict _ => if isLeading unit then pairedUnit unit rest else .error .malformed
    else pure (Char.ofNat unit, rest)
  | _ => .error .malformed

/-- The characters of a text up to its closing quote. Every step uses up at least
one character, so `fuel` beyond the length of the text is never used up. -/
def scanText (mode : Mode) : (fuel : Nat) → List Char → Except Problem (List Char × List Char)
  | 0, _ => .error .truncated
  | fuel + 1, cs =>
    match cs with
    | [] => .error .truncated
    | '"' :: rest => .ok ([], rest)
    | '\\' :: rest => do
      let (c, rest) ← escape mode rest
      let (s, rest) ← scanText mode fuel rest
      pure (c :: s, rest)
    | c :: rest =>
      if c.toNat < 0x20 then .error .malformed
      else do
        let (s, rest) ← scanText mode fuel rest
        pure (c :: s, rest)

/-- A text, read behind its opening quote. -/
def readText (mode : Mode) (cs : List Char) : Except Problem (String × List Char) := do
  let (s, rest) ← scanText mode (cs.length + 1) cs
  pure (String.ofList s, rest)

/-- A number, read behind its sign. -/
def readNumber (negative : Bool) (cs : List Char) : Except Problem (Number × List Char) := do
  let (l, rest) ← scanNumeral .truncated negative cs
  let n ← l.value
  pure (n, rest)

/-- The colon between a key and its value. -/
def expectColon (cs : List Char) : Except Problem (List Char) :=
  match skipBlanks cs with
  | [] => .error .truncated
  | ':' :: rest => .ok rest
  | _ => .error .malformed

/-- The elements of an array behind its opening bracket, each passed over by `item`. -/
def readElements (item : List Char → Except Problem (List Char)) :
    (fuel : Nat) → (first : Bool) → List Char → Except Problem (List Char)
  | 0, _, _ => .error .truncated
  | fuel + 1, first, cs =>
    match skipBlanks cs with
    | [] => .error .truncated
    | ']' :: rest => .ok rest
    | c :: rest =>
      if first then do readElements item fuel false (← item (c :: rest))
      else if c = ',' then do readElements item fuel false (← item rest)
      else .error .malformed

/-- The key of a member. -/
def readKey (mode : Mode) (cs : List Char) : Except Problem (String × List Char) :=
  match skipBlanks cs with
  | [] => .error .truncated
  | '"' :: rest => readText mode rest
  | _ => .error .malformed

/-- The members of an object behind its opening brace. `member` gets each key with
the text behind it and what was made of the members before. -/
def readMembers {α : Type} (mode : Mode)
    (member : String → List Char → α → Except Problem (α × List Char)) :
    (fuel : Nat) → (first : Bool) → α → List Char → Except Problem (α × List Char)
  | 0, _, _, _ => .error .truncated
  | fuel + 1, first, acc, cs =>
    match skipBlanks cs with
    | [] => .error .truncated
    | '\x7d' :: rest => .ok (acc, rest)
    | c :: rest =>
      if first || c = ',' then do
        let (key, rest) ← readKey mode (if first then c :: rest else rest)
        let (acc, rest) ← member key rest acc
        readMembers mode member fuel false acc rest
      else .error .malformed

/-- The value of a number, if settings can hold it. -/
def Number.setting? : Number → Option Value
  | .int n => (toInt64? n).map .int
  | .float _ => none

/-- A numeral as a value. In lenient mode it is passed over. -/
def readNumeral (mode : Mode) (negative : Bool) (cs : List Char) :
    Except Problem (Option Value × List Char) :=
  match mode with
  | .strict _ => do
    let (n, rest) ← readNumber negative cs
    pure (n.setting?, rest)
  | .lenient => do
    let (_, rest) ← scanNumeral mode.cut negative cs
    pure (none, rest)

/-- Adds a member to the settings made of the members before it; there are none once a
member was no setting. -/
def addMember (key : String) (v : Option Value) (acc : Option Settings) : Option Settings := do
  let s ← acc
  let v ← v
  pure (s.insert key v)

/-- One value; `none` if it is sound but no setting. Every value uses up at least
one character, so `fuel` beyond the length of the text is never used up. -/
def scanValue : (fuel : Nat) → Mode → List Char → Except Problem (Option Value × List Char)
  | 0, _, _ => .error .truncated
  | fuel + 1, mode, cs =>
    match skipBlanks cs with
    | [] => .error .truncated
    | 'n' :: rest => do
      pure (none, ← expectWord ['u', 'l', 'l'] rest)
    | 't' :: rest => do
      pure (some (.bool true), ← expectWord ['r', 'u', 'e'] rest)
    | 'f' :: rest => do
      pure (some (.bool false), ← expectWord ['a', 'l', 's', 'e'] rest)
    | '"' :: rest => do
      let (s, rest) ← readText mode rest
      pure (some (.text s), rest)
    | '[' :: rest =>
      match mode.enter with
      | none => .error .malformed
      | some inner => do
        let item := fun cs => (scanValue fuel inner cs).map (·.2)
        pure (none, ← readElements item fuel true rest)
    | '\x7b' :: rest =>
      match mode.enter with
      | none => .error .malformed
      | some inner => do
        let member := fun key cs (acc : Option Settings) => do
          let (v, rest) ← scanValue fuel inner (← expectColon cs)
          pure (addMember key v acc, rest)
        let (s, rest) ← readMembers inner member fuel true (some .nil) rest
        pure (s.map .map, rest)
    | '-' :: rest => readNumeral mode true rest
    | c :: rest => if isDigit c then readNumeral mode false (c :: rest) else .error .malformed

/-- One value with the text behind it. -/
def readValue (mode : Mode) (cs : List Char) : Except Problem (Option Value × List Char) :=
  scanValue (cs.length + 1) mode cs

/-- Nothing but blanks may follow. -/
def expectEnd (cs : List Char) : Except Problem Unit :=
  match skipBlanks cs with
  | [] => .ok ()
  | _ => .error .malformed

/-- What stands at the start of a text in place of what was expected. A scalar is
read to its end first; a container is known by its bracket. -/
def found (cs : List Char) : Except Problem Found :=
  match cs with
  | [] => .error .truncated
  | 'n' :: rest => do
    let _ ← expectWord ['u', 'l', 'l'] rest
    pure .null
  | 't' :: rest => do
    let _ ← expectWord ['r', 'u', 'e'] rest
    pure (.bool true)
  | 'f' :: rest => do
    let _ ← expectWord ['a', 'l', 's', 'e'] rest
    pure (.bool false)
  | '"' :: rest => do
    let (s, _) ← readText (.strict 0) rest
    pure (.text s)
  | '[' :: _ => .ok .sequence
  | '\x7b' :: _ => .ok .map
  | '-' :: rest => do
    let (n, _) ← readNumber true rest
    pure n.found
  | c :: rest =>
    if isDigit c then do
      let (n, _) ← readNumber false (c :: rest)
      pure n.found
    else .error .malformed

/-- The problem of a text that does not start with what was expected. -/
def unexpected {α : Type} (expected : String) (cs : List Char) : Except Problem α := do
  .error (.mismatch (.type (← found cs) expected))

/-- How many containers may lie inside each other. -/
def maxDepth : Nat := 127

end PullGraph.Json
