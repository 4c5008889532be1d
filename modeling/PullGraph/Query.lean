import PullGraph.Schema

/-! # Queries

Every class answers the query `schema`, which describes the class; all other queries
go to the handler of the class, if it has one.
-/
namespace PullGraph.ComponentClass

variable {κ : Type}

/-- The name of the query that every class answers. -/
def schemaQuery : String := "schema"

/-- Each port of one direction with its position among them. -/
def positions (c : ComponentClass κ) (d : Direction) : Settings :=
  .ofList ((c.portsIn d).zipIdx.map fun (p, i) => (p.name, .int (Int64.ofNat i)))

/-- The description of a class: name, kind, description and help if there are any, and
the ports of each direction with their positions. -/
def schema (c : ComponentClass κ) : Settings :=
  .ofList <|
    [("name", .text c.name), ("kind", .text c.kind.label)]
      ++ (c.description.map fun d => ("description", Value.text d)).toList
      ++ (c.help.map fun h => ("help", Value.text h)).toList
      ++ [("inputs", .map (c.positions .input)), ("outputs", .map (c.positions .output))]

/-- Answers a query. -/
def query (c : ComponentClass κ) (name : String) (params : Settings) : Except QueryError Value :=
  if name = schemaQuery then
    if params.isEmpty then .ok (.map c.schema)
    else .error (.invalidParams name "the schema query takes no parameters")
  else match c.queries with
    | some handler => handler name params
    | none => .error (.unknownQuery c.name name)

end PullGraph.ComponentClass
