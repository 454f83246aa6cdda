import Containers.Buffer.Sharded

/-!
# Buffers of any kind

`AnyBuffer` is a buffer whose kind is only known when the program runs, and `BufferCall` is a
question that every buffer understands.  Building a buffer may fault and may be reported, so the
constructors answer with both.
-/

set_option autoImplicit false

namespace Containers

/-- The kinds of buffer. -/
inductive BufferKind where
  /-- Behind a lock of this kind. -/
  | locked (lock : LockKind)
  /-- In several parts. -/
  | sharded
  deriving DecidableEq

/-- A call that every buffer understands. -/
inductive BufferCall (α : Type) where
  /-- Add an element. -/
  | append (x : α)
  /-- Add elements as one batch. -/
  | extend (xs : List α)
  /-- Take all elements. -/
  | flush
  /-- Copy all elements. -/
  | peek
  /-- Count the elements. -/
  | size
  /-- Ask whether there are no elements. -/
  | isEmpty
  deriving Repr

/-- The answer to a call on a buffer. -/
inductive BufferReply (α : Type) where
  /-- The call was carried out and has nothing to say. -/
  | done
  /-- Elements. -/
  | items (xs : Array α)
  /-- A number of elements. -/
  | count (n : Nat)
  /-- Whether something is the case. -/
  | flag (b : Bool)
  deriving DecidableEq, Repr

/-- Puts a call to a locked buffer. -/
def LockedBuffer.run {α : Type} (c : BufferCall α) (b : LockedBuffer α) :
    Outcome (LockedBuffer α) Event (BufferReply α) :=
  match c with
  | .append x => .done (b.append x) .done
  | .extend xs => .done (b.extend xs) .done
  | .flush => .done b.flush.2 (.items b.flush.1)
  | .peek => .done b (.items b.peek)
  | .size => .done b (.count b.size)
  | .isEmpty => .done b (.flag b.isEmpty)

/-- Puts a call to a sharded buffer. -/
def ShardedBuffer.run {α : Type} (c : BufferCall α) (b : ShardedBuffer α) :
    Outcome (ShardedBuffer α) Event (BufferReply α) :=
  match c with
  | .append x => .done (b.append x) .done
  | .extend xs => .done (b.extend xs) .done
  | .flush => b.flush.map .items
  | .peek => .done b (.items b.peek)
  | .size => .done b (.count b.size)
  | .isEmpty => .done b (.flag b.isEmpty)

/-- A buffer of any kind. -/
inductive AnyBuffer (α : Type) where
  | locked (b : LockedBuffer α)
  | sharded (b : ShardedBuffer α)

namespace AnyBuffer

variable {α : Type}

/-- A buffer of the given sizing, and the reports made on the way. -/
def ofConfig (bytes : Footprint) (kind : BufferKind) (config : BufferConfig) :
    Except Fault (AnyBuffer α) × Array Event :=
  match kind with
  | .locked lock => ((LockedBuffer.ofConfig bytes lock config).map .locked, #[])
  | .sharded =>
    let built := ShardedBuffer.ofConfig bytes config
    (built.1.map .sharded, built.2)

/-- A buffer of the sizing that nobody asked for. -/
def ofDefault (bytes : Footprint) (kind : BufferKind) : Except Fault (AnyBuffer α) × Array Event :=
  ofConfig bytes kind {}

/-- A buffer of given elements, if it is of a kind that can be made of them. -/
def ofArray? (kind : BufferKind) (items : Array α) : Option (AnyBuffer α) :=
  match kind with
  | .locked lock => some (.locked (.ofArray lock items))
  | .sharded => none

/-- Puts a call to the buffer. -/
def run (c : BufferCall α) : AnyBuffer α → Outcome (AnyBuffer α) Event (BufferReply α)
  | .locked b => (b.run c).mapState .locked
  | .sharded b => (b.run c).mapState .sharded

/-- A copy of all elements. -/
def peek : AnyBuffer α → Array α
  | .locked b => b.peek
  | .sharded b => b.peek

/-- A copy of all elements to be consumed. -/
def all (b : AnyBuffer α) : Snapshot α := .ofArray b.peek

/-- The number of shards, if the buffer is in several parts. -/
def shardCount? : AnyBuffer α → Option Nat
  | .locked _ => none
  | .sharded b => some b.shardCount

/-- How the buffer shows itself. -/
def shape : AnyBuffer α → Shape
  | .locked b => b.shape
  | .sharded b => b.shape

end AnyBuffer

end Containers
