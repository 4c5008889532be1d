import PullGraph.Decimal.Shortest
import PullGraph.Text.Quoted

/-! # What can be wrong with a JSON text

A text can be cut off, can break the grammar, or can hold something else than was
asked for. The first two carry no message; the third says what was found and what
was expected.
-/
namespace PullGraph.Json

/-- What stands in a text where something else was expected. -/
inductive Found where
  | null
  | bool (b : Bool)
  | int (n : Int)
  | float (x : Float)
  | text (s : String)
  | sequence
  | map

/-- Numbers in messages are written out from `1e-5` up to, but not including,
`1e16`, always with a decimal point; beyond that the exponent has a sign. -/
def numberLayout : Decimal.Layout := ⟨(-5, 15), ".0", "+"⟩

/-- What was found, in running text. -/
def Found.describe : Found → String
  | .null => "null"
  | .bool b => s!"boolean `{b}`"
  | .int n => s!"integer `{n}`"
  | .float x => "floating point `" ++ numberLayout.float x ++ "`"
  | .text s => "string " ++ Text.quoted s
  | .sequence => "sequence"
  | .map => "map"

/-- A text that is sound as far as it was read, but does not say what it should. -/
inductive Mismatch where
  /-- Something of another type than expected. -/
  | type (found : Found) (expected : String)
  /-- An integer out of range. -/
  | range (n : Int) (expected : String)
  /-- A field that was given before. -/
  | repeated (field : String)
  /-- A value that is no setting. -/
  | noSetting

/-- The message for a mismatch. -/
def Mismatch.message : Mismatch → String
  | .type found expected => "invalid type: " ++ found.describe ++ ", expected " ++ expected
  | .range n expected => s!"invalid value: integer `{n}`, expected " ++ expected
  | .repeated field => s!"duplicate field `{field}`"
  | .noSetting => "data did not match any variant of untagged enum Value"

/-- What ends the reading of a text. -/
inductive Problem where
  /-- A character that cannot stand where it does. -/
  | malformed
  /-- The text ends where more is needed. -/
  | truncated
  /-- The text holds something else than was asked for. -/
  | mismatch (m : Mismatch)

end PullGraph.Json
