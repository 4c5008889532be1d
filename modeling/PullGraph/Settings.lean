/-! # Settings

A component is set up from settings: a map from names to values, where a value is
a boolean, a 64-bit integer, a text or again a map. The entries of a map stand in
increasing order of their keys, and no key occurs twice (`Settings.Ordered`);
`Settings.insert` keeps it so.
-/
namespace PullGraph

mutual

/-- One setting. -/
inductive Value where
  | bool (b : Bool)
  | int (n : Int64)
  | text (s : String)
  | map (entries : Settings)

/-- A map from names to values, as its list of entries. -/
inductive Settings where
  | nil
  | cons (key : String) (value : Value) (rest : Settings)

end

deriving instance DecidableEq for Value, Settings

namespace Value

/-- What a value is, in running text. -/
def kindName : Value → String
  | .bool _ => "boolean"
  | .int _ => "integer"
  | .text _ => "string"
  | .map _ => "map"

/-- The boolean that a value is. -/
def bool? : Value → Option Bool
  | .bool b => some b
  | _ => none

/-- The integer that a value is. -/
def int? : Value → Option Int64
  | .int n => some n
  | _ => none

/-- The text that a value is. -/
def text? : Value → Option String
  | .text s => some s
  | _ => none

/-- The map that a value is. -/
def map? : Value → Option Settings
  | .map s => some s
  | _ => none

end Value

namespace Settings

/-- The entries in order. -/
def toList : Settings → List (String × Value)
  | .nil => []
  | .cons k v rest => (k, v) :: rest.toList

/-- The number of entries. -/
def size (s : Settings) : Nat := s.toList.length

/-- Whether there are no entries. -/
def isEmpty (s : Settings) : Bool := s.toList.isEmpty

/-- The value of a key. -/
def get? (key : String) : Settings → Option Value
  | .nil => none
  | .cons k v rest => if k = key then some v else rest.get? key

/-- Gives `key` the value `value`, in place of any value it had. -/
def insert (key : String) (value : Value) : Settings → Settings
  | .nil => .cons key value .nil
  | .cons k v rest =>
    if key < k then .cons key value (.cons k v rest)
    else if key = k then .cons key value rest
    else .cons k v (rest.insert key value)

/-- The map with the given entries; of a repeated key the last one counts. -/
def ofList (entries : List (String × Value)) : Settings :=
  entries.foldl (fun s e => s.insert e.1 e.2) .nil

end Settings

mutual

/-- How many maps lie inside each other in a value. -/
def Value.depth : Value → Nat
  | .map s => s.depth
  | _ => 0

/-- How many maps lie inside each other, the map itself included. -/
def Settings.depth : Settings → Nat
  | .nil => 1
  | .cons _ v rest => max (v.depth + 1) rest.depth

end

mutual

/-- Every map in a value has its keys in strictly increasing order. -/
def Value.Ordered : Value → Prop
  | .map s => s.Ordered
  | _ => True

/-- The keys stand in strictly increasing order, at every level. -/
def Settings.Ordered : Settings → Prop
  | .nil => True
  | .cons k v rest => (∀ e ∈ rest.toList, k < e.1) ∧ v.Ordered ∧ rest.Ordered

end

end PullGraph
