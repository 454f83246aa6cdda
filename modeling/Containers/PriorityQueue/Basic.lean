import Containers.PriorityQueue.Locked
import Containers.PriorityQueue.Slots

/-!
# Priority queues of any kind

`PriorityQueue` is a queue of one of the kinds there are, so that one history of calls can be put to
each of them.  `PriorityQueueKind` names the kinds, and the two constructors build a queue of a kind
that is only known when the program runs.
-/

set_option autoImplicit false

namespace Containers

open Heap (SwapHook)

/-- The kinds of priority queue. -/
inductive PriorityQueueKind where
  /-- Over a heap behind a lock of this kind. -/
  | locked (lock : LockKind)
  /-- Over plain slots. -/
  | slots
  deriving DecidableEq

/-- A priority queue of any kind. -/
inductive PriorityQueue (α ε : Type) where
  | locked (q : LockedPriorityQueue α ε)
  | slots (q : SlotPriorityQueue α ε)

namespace PriorityQueue

variable {α ε τ : Type}

/-- A queue without elements. -/
def empty (kind : PriorityQueueKind) (less : Priority α) : PriorityQueue α ε :=
  match kind with
  | .locked lock => .locked (.empty lock less)
  | .slots => .slots (.empty less)

/-- A queue made of given elements. -/
def ofArray (kind : PriorityQueueKind) (items : Array α) (less : Priority α) : PriorityQueue α ε :=
  match kind with
  | .locked lock => .locked (.ofArray lock items less)
  | .slots => .slots (.ofArray items less)

/-- Attaches a swap hook in place of the one there was. -/
def withOnSwap (hook : SwapHook α ε) : PriorityQueue α ε → PriorityQueue α ε
  | .locked q => .locked (q.withOnSwap hook)
  | .slots q => .slots (q.withOnSwap hook)

/-- Replaces the priority and moves nothing. -/
def withPriority (less : Priority α) : PriorityQueue α ε → PriorityQueue α ε
  | .locked q => .locked (q.withPriority less)
  | .slots q => .slots (q.withPriority less)

/-- Puts a call to the queue. -/
def run (c : IndexedCall α) : PriorityQueue α ε → Outcome (PriorityQueue α ε) ε (Reply α)
  | .locked q => (q.run c).mapState .locked
  | .slots q => (q.run c).mapState .slots

/-- A copy of the elements in array order. -/
def toArray : PriorityQueue α ε → Array α
  | .locked q => q.toArray
  | .slots q => q.toArray

/-- A copy of the elements to be consumed. -/
def all (q : PriorityQueue α ε) : Snapshot α := .ofArray q.toArray

/-- Visits a copy of the elements in array order; the visitor may act on the queue. -/
def range (visitor : α → PriorityQueue α ε × τ → Outcome (PriorityQueue α ε × τ) ε Bool)
    (q : PriorityQueue α ε) (t : τ) : Outcome (PriorityQueue α ε × τ) ε (List α) :=
  visit visitor q.toArray.toList (q, t)

/-- How the queue shows itself. -/
def shape : PriorityQueue α ε → Shape
  | .locked q => q.shape
  | .slots q => q.shape

end PriorityQueue

end Containers
