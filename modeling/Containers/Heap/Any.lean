import Containers.PriorityQueue.Basic

/-!
# Heaps of any kind

A heap container is either a plain locked heap or a priority queue.  `AnyHeap` is a container whose
kind is only known when the program runs.  All kinds understand a `Call`; the calls that name a
slot, and swap hooks, are for priority queues, and `AnyHeap.runIndexed?` and `AnyHeap.withOnSwap?`
say so by having no answer for a plain heap.
-/

set_option autoImplicit false

namespace Containers

open Heap (SwapHook)

/-- The kinds of heap container. -/
inductive HeapKind where
  /-- A heap behind a lock of this kind. -/
  | plain (lock : LockKind)
  /-- A priority queue. -/
  | queue (kind : PriorityQueueKind)
  deriving DecidableEq

/-- A heap container of any kind. -/
inductive AnyHeap (α ε : Type) where
  | plain (h : LockedHeap α ε)
  | queue (q : PriorityQueue α ε)

namespace AnyHeap

variable {α ε τ : Type}

/-- A heap without elements. -/
def empty (kind : HeapKind) (less : Priority α) : AnyHeap α ε :=
  match kind with
  | .plain lock => .plain (.empty lock less)
  | .queue kind => .queue (.empty kind less)

/-- A heap made of given elements. -/
def ofArray (kind : HeapKind) (items : Array α) (less : Priority α) : AnyHeap α ε :=
  match kind with
  | .plain lock => .plain (.ofArray lock items less)
  | .queue kind => .queue (.ofArray kind items less)

/-- Attaches a swap hook to a priority queue. -/
def withOnSwap? (hook : SwapHook α ε) : AnyHeap α ε → Option (AnyHeap α ε)
  | .plain _ => none
  | .queue q => some (.queue (q.withOnSwap hook))

/-- Puts a call to the heap. -/
def run (c : Call α) : AnyHeap α ε → Outcome (AnyHeap α ε) ε (Reply α)
  | .plain h => (h.run c).mapState .plain
  | .queue q => (q.run (.plain c)).mapState .queue

/-- Puts a call that may name a slot to a priority queue. -/
def runIndexed? (c : IndexedCall α) : AnyHeap α ε → Option (Outcome (AnyHeap α ε) ε (Reply α))
  | .plain _ => none
  | .queue q => some ((q.run c).mapState .queue)

/-- A copy of the elements in array order. -/
def toArray : AnyHeap α ε → Array α
  | .plain h => h.toArray
  | .queue q => q.toArray

/-- A copy of the elements to be consumed. -/
def all (h : AnyHeap α ε) : Snapshot α := .ofArray h.toArray

/-- Visits a copy of the elements in array order; the visitor may act on the heap. -/
def range (visitor : α → AnyHeap α ε × τ → Outcome (AnyHeap α ε × τ) ε Bool)
    (h : AnyHeap α ε) (t : τ) : Outcome (AnyHeap α ε × τ) ε (List α) :=
  visit visitor h.toArray.toList (h, t)

/-- How the heap shows itself. -/
def shape : AnyHeap α ε → Shape
  | .plain h => h.shape
  | .queue q => q.shape

end AnyHeap

end Containers
