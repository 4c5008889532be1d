import PullGraph.Backoff
import PullGraph.Json.Reader
import PullGraph.Json.Writer

/-! # Configuration of a run

Three numbers say how a run waits when nothing moves. They can be read from a JSON
object, in any order and among other keys, or from an array that gives them in
order; what is missing keeps its default.
-/
namespace PullGraph

/-- How a run waits when nothing moves. -/
structure RunConfig where
  initialMillis : UInt64
  maxMillis : UInt64
  /-- Idle rounds in a row that are tolerated; `none` tolerates any number. -/
  maxIdleRounds : Option UInt32
  deriving DecidableEq, Repr

namespace RunConfig

/-- The configuration of the standard backoff. -/
def standard : RunConfig :=
  ⟨Backoff.standard.initial.toMillis, Backoff.standard.maximum.toMillis, Backoff.standard.limit⟩

/-- Sets the wait after the first idle round. -/
def withInitial (c : RunConfig) (d : Duration) : RunConfig := { c with initialMillis := d.toMillis }

/-- Sets the longest wait. -/
def withMax (c : RunConfig) (d : Duration) : RunConfig := { c with maxMillis := d.toMillis }

/-- Sets the number of idle rounds tolerated. -/
def withLimit (c : RunConfig) (n : Option UInt32) : RunConfig := { c with maxIdleRounds := n }

/-- The backoff that a configuration describes. Its longest wait is never shorter
than its first. -/
def backoff (c : RunConfig) : Backoff :=
  ⟨.ofMillis c.initialMillis, .ofMillis (max c.maxMillis c.initialMillis), c.maxIdleRounds⟩

/-- The fields of a configuration. -/
inductive Field where
  | initialMillis
  | maxMillis
  | maxIdleRounds
  deriving DecidableEq, Repr

namespace Field

/-- The fields in order. -/
def all : List Field := [.initialMillis, .maxMillis, .maxIdleRounds]

/-- The key of a field. -/
def key : Field → String
  | .initialMillis => "initial_backoff_ms"
  | .maxMillis => "max_backoff_ms"
  | .maxIdleRounds => "max_idle_rounds"

/-- The field of a key. -/
def ofKey? (key : String) : Option Field := all.find? (·.key = key)

end Field

open Json

/-- A configuration as compact JSON. -/
def write (c : RunConfig) : List Char :=
  let idle := match c.maxIdleRounds with
    | some n => writeInt n.toNat
    | none => ['n', 'u', 'l', 'l']
  '\x7b' :: writeText Field.initialMillis.key ++ ':' :: writeInt c.initialMillis.toNat
    ++ ',' :: writeText Field.maxMillis.key ++ ':' :: writeInt c.maxMillis.toNat
    ++ ',' :: writeText Field.maxIdleRounds.key ++ ':' :: idle ++ ['\x7d']

/-- A number below `size`; `expected` says what it is in messages. -/
def readNatural (expected : String) (size : Nat) (cs : List Char) :
    Except Problem (Nat × List Char) :=
  let check : Number × List Char → Except Problem (Nat × List Char)
    | (.int n, rest) =>
      if 0 ≤ n && n < size then .ok (n.toNat, rest)
      else .error (.mismatch (.range n expected))
    | (.float x, _) => .error (.mismatch (.type (.float x) expected))
  match skipBlanks cs with
  | [] => .error .truncated
  | '-' :: rest => do check (← readNumber true rest)
  | c :: rest =>
    if isDigit c then do check (← readNumber false (c :: rest))
    else unexpected expected (c :: rest)

/-- A field's value, put into a configuration. The number of idle rounds may be null. -/
def readField (field : Field) (cs : List Char) (c : RunConfig) :
    Except Problem (RunConfig × List Char) :=
  match field with
  | .initialMillis => do
    let (n, rest) ← readNatural "u64" UInt64.size cs
    pure ({ c with initialMillis := UInt64.ofNat n }, rest)
  | .maxMillis => do
    let (n, rest) ← readNatural "u64" UInt64.size cs
    pure ({ c with maxMillis := UInt64.ofNat n }, rest)
  | .maxIdleRounds =>
    match skipBlanks cs with
    | 'n' :: rest => do
      pure ({ c with maxIdleRounds := none }, ← expectWord ['u', 'l', 'l'] rest)
    | _ => do
      let (n, rest) ← readNatural "u32" UInt32.size cs
      pure ({ c with maxIdleRounds := some (UInt32.ofNat n) }, rest)

/-- A member of a configuration object. A key that names no field is passed over
with its value; a field may be given once. -/
def readMember (key : String) (cs : List Char) (acc : RunConfig × List Field) :
    Except Problem ((RunConfig × List Field) × List Char) :=
  match Field.ofKey? key with
  | none => do
    let (_, rest) ← readValue .lenient (← expectColon cs)
    pure (acc, rest)
  | some field =>
    if field ∈ acc.2 then .error (.mismatch (.repeated key))
    else do
      let (c, rest) ← readField field (← expectColon cs) acc.1
      pure ((c, field :: acc.2), rest)

/-- The fields of a configuration array behind its opening bracket. After the last
field only the closing bracket may follow. -/
def readPositions : List Field → (first : Bool) → RunConfig → List Char →
    Except Problem (RunConfig × List Char)
  | fields, first, c, cs =>
    match skipBlanks cs with
    | [] => .error .truncated
    | ']' :: rest => .ok (c, rest)
    | x :: rest =>
      match fields with
      | [] => .error .malformed
      | field :: fields =>
        if first || x = ',' then do
          let (c, rest) ← readField field (if first then x :: rest else rest) c
          readPositions fields false c rest
        else .error .malformed

/-- The configuration that a list of characters denotes. -/
def parseChars (cs : List Char) : Except Problem RunConfig :=
  match skipBlanks cs with
  | '\x7b' :: rest => do
    let (acc, rest) ← readMembers (.strict 0) readMember (rest.length + 1) true (standard, []) rest
    expectEnd rest
    pure acc.1
  | '[' :: rest => do
    let (c, rest) ← readPositions Field.all true standard rest
    expectEnd rest
    pure c
  | cs => unexpected "struct ExecutorConfig" cs

/-- Reads a configuration from a JSON text. -/
def parse (text : String) : Except Problem RunConfig := parseChars text.toList

end RunConfig
end PullGraph
