import PullGraph.Json.Writer
import PullGraph.Query
import PullGraph.Word

/-! # Stock transformations and answers

Transformations of messages and answers to queries that a script can name.
-/
namespace PullGraph

/-- The transformation of a name; one that is not known drops every message. -/
def stockTransform : String → Message → Except String (Option Message)
  | "even", .int n => .ok (if n.toInt % 2 = 0 then some (.int n) else none)
  | "even", _ => .error "expected an integer"
  | "double", .int n =>
    match toInt64? (n.toInt * 2) with
    | some twice => .ok (some (.int twice))
    | none => .error "overflow"
  | "double", _ => .error "expected an integer"
  | "text", .int n => .ok (some (.text (String.ofList (Json.writeInt n.toInt))))
  | "text", m => .ok (some m)
  | "positive", .int n =>
    if n < 0 then .error s!"negative value {n.toInt}" else .ok (some (.int n))
  | "positive", m => .ok (some m)
  | _, _ => .ok none

/-- Answers queries by the named answer that each of them has. -/
def stockQueries (cls : String) (answers : List (String × String)) : QueryHandler :=
  fun query params =>
    match (answers.lookup query).getD "" with
    | "echo" => .ok (.map params)
    | "count" => .ok (.int (Int64.ofNat params.size))
    | "any" => .ok (.bool (!params.isEmpty))
    | "name" => .ok (.text query)
    | "keys" => .ok (.text (",".intercalate (params.toList.map (·.1))))
    | "get" =>
      match params.get? "key" with
      | some v => .ok v
      | none => .error (.invalidParams query "missing 'key'")
    | _ => .error (.failed cls query "unsupported")

end PullGraph
