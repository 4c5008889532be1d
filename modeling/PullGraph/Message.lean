/-! # Messages and the answers to a pull

What travels along a connection is a message. A component that is asked for one
either has it, has none yet, or has reached the end of its stream.
-/
namespace PullGraph

/-- What travels along a connection. A `signal` carries nothing but its arrival. -/
inductive Message where
  | int (value : Int64)
  | text (value : String)
  | signal
  deriving DecidableEq, Repr

namespace Message

/-- The integer a message carries. -/
def int? : Message → Option Int64
  | .int n => some n
  | _ => none

/-- The text a message carries. -/
def text? : Message → Option String
  | .text s => some s
  | _ => none

end Message

/-- The answer of a component that is asked for a message. -/
inductive Pull where
  | message (m : Message)
  | again
  | endOfStream
  deriving DecidableEq, Repr

namespace Pull

/-- The message of an answer that has one. -/
def message? : Pull → Option Message
  | .message m => some m
  | _ => none

/-- Whether the stream has ended. -/
def isEndOfStream : Pull → Bool
  | .endOfStream => true
  | _ => false

end Pull

/-- Messages pulled in one go, and whether the stream ended behind them. -/
structure Batch where
  messages : List Message
  endOfStream : Bool
  deriving DecidableEq, Repr

namespace Batch

/-- The batch with `m` before its other messages. -/
def cons (m : Message) (b : Batch) : Batch :=
  { b with messages := m :: b.messages }

end Batch
end PullGraph
