import PullGraph.Json.Reader

/-! # Settings and values from JSON

Settings are read from a JSON object, a single value from any JSON text. In settings
the first member that is no setting ends the reading; a single value is read
to its end before it is looked at.
-/
namespace PullGraph.Json

/-- One member of settings, which must be a setting. -/
def settingsMember (key : String) (cs : List Char) (acc : Settings) :
    Except Problem (Settings × List Char) := do
  let (v, rest) ← readValue (.strict (maxDepth - 1)) (← expectColon cs)
  match v with
  | some v => pure (acc.insert key v, rest)
  | none => .error (.mismatch .noSetting)

/-- The settings that a list of characters denotes. -/
def parseSettings (cs : List Char) : Except Problem Settings :=
  match skipBlanks cs with
  | '\x7b' :: rest => do
    let inner := .strict (maxDepth - 1)
    let (s, rest) ← readMembers inner settingsMember (rest.length + 1) true .nil rest
    expectEnd rest
    pure s
  | cs => unexpected "a map" cs

/-- The value that a list of characters denotes. -/
def parseValue (cs : List Char) : Except Problem Value := do
  let (v, rest) ← readValue (.strict maxDepth) cs
  match v with
  | none => .error (.mismatch .noSetting)
  | some v => do
    expectEnd rest
    pure v

end PullGraph.Json

namespace PullGraph

/-- Reads settings from a JSON text. -/
def Settings.parse (text : String) : Except Json.Problem Settings := Json.parseSettings text.toList

/-- Reads a value from a JSON text. -/
def Value.parse (text : String) : Except Json.Problem Value := Json.parseValue text.toList

end PullGraph
