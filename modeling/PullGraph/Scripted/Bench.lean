import PullGraph.Graph.Basic
import PullGraph.Json.Writer

/-! # The test bench

To see what a graph does with its components, put components into it that follow a
script and write down what happens to them. What they share is a bench: the lines they
wrote, the messages that were kept for each class, and the graphs that they may cancel,
by the name of the place where each stands.
-/
namespace PullGraph

/-- What scripted components share. -/
structure Bench where
  /-- The lines written so far, the latest first. -/
  lines : List String := []
  /-- The graph that stands at each place. -/
  places : List (String × GraphId) := []
  /-- The messages kept under each name, the latest first. -/
  kept : List (String × List Message) := []

namespace Bench

/-- Writes a line. -/
def write (line : String) : Act Bench Unit := .modify fun b => { b with lines := line :: b.lines }

/-- Puts a graph at a place. -/
def place (b : Bench) (name : String) (graph : GraphId) : Bench :=
  { b with places := (name, graph) :: b.places }

/-- The graph that was last put at a place. -/
def graphAt? (b : Bench) (name : String) : Option GraphId := b.places.lookup name

/-- Cancels the run of the graph that was last put at a place. -/
def cancel (name : String) : Act Bench Unit := do
  let b ← Act.read
  Act.cancel (b.graphAt? name).toList

/-- Keeps a message under a name. -/
def keep (name : String) (m : Message) (b : Bench) : Bench :=
  { b with kept := (name, m :: (b.kept.lookup name).getD []) :: b.kept.filter (·.1 != name) }

/-- The messages kept under a name, in order. -/
def messages (b : Bench) (name : String) : List Message :=
  ((b.kept.lookup name).getD []).reverse

end Bench

/-- Characters as a text. -/
def textOf (cs : List Char) : String := String.ofList cs

/-- A policy that writes down what it is asked and what it says, and cancels the run at a
place after a number of idle rounds. -/
def Bench.policy (delay : UInt32 → Option Duration) (place : String) (cancelAt : Option Nat) :
    Policy Bench where
  delay idle := do
    let said := delay idle
    let text := (said.map fun d => s!"{d.nanos}").getD "none"
    Bench.write s!"delay:{idle.toNat} {text}"
    if cancelAt = some idle.toNat then Bench.cancel place
    pure said

/-- Waits listed one by one in milliseconds, for one idle round, two, and so on. Where
none is listed, the policy gives up. -/
def Bench.listedDelay (waits : List (Option UInt64)) (idle : UInt32) : Option Duration :=
  (waits[idle.toNat - 1]?).join.map Duration.ofMillis

end PullGraph
