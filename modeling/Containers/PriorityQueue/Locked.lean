import Containers.Heap.Locked

/-!
# Priority queues over a locked heap

A `LockedPriorityQueue` wraps a locked heap.  What a heap can do it passes on; the calls that name a
slot go to the array heap under the same lock.  The owner of a queue may attach a swap hook, which
then hears of every exchange of two slots, but not of those that put the initial elements in order.
-/

set_option autoImplicit false

namespace Containers

open Heap (SwapHook)

/-- A priority queue over a locked heap. -/
structure LockedPriorityQueue (α ε : Type) where
  /-- The heap that holds the elements. -/
  heap : LockedHeap α ε

namespace LockedPriorityQueue

variable {α β ε τ : Type}

/-- A queue without elements. -/
def empty (kind : LockKind) (less : Priority α) : LockedPriorityQueue α ε := ⟨.empty kind less⟩

/-- A queue made of given elements. -/
def ofArray (kind : LockKind) (items : Array α) (less : Priority α) : LockedPriorityQueue α ε :=
  ⟨.ofArray kind items less⟩

/-- Attaches a swap hook in place of the one there was. -/
def withOnSwap (hook : SwapHook α ε) (q : LockedPriorityQueue α ε) : LockedPriorityQueue α ε :=
  ⟨q.heap.ownerModify (ArrayHeap.setOnSwap hook)⟩

/-- Replaces the priority and moves nothing. -/
def withPriority (less : Priority α) (q : LockedPriorityQueue α ε) : LockedPriorityQueue α ε :=
  ⟨q.heap.ownerModify (ArrayHeap.setPriority less)⟩

/-- Puts a call to the wrapped heap. -/
def onHeap (q : LockedPriorityQueue α ε) (f : LockedHeap α ε → Outcome (LockedHeap α ε) ε β) :
    Outcome (LockedPriorityQueue α ε) ε β :=
  match q with
  | ⟨heap⟩ => (f heap).mapState LockedPriorityQueue.mk

/-- Restores the order around a slot. -/
def fix (index : Nat) (q : LockedPriorityQueue α ε) : Outcome (LockedPriorityQueue α ε) ε Unit :=
  q.onHeap (·.call (ArrayHeap.fix index))

/-- Takes the element in a slot. -/
def removeAt (index : Nat) (q : LockedPriorityQueue α ε) :
    Outcome (LockedPriorityQueue α ε) ε (Option α) :=
  q.onHeap (·.call (ArrayHeap.removeAt index))

/-- Replaces the element in a slot; answers whether there is such a slot. -/
def updateAt (index : Nat) (x : α) (q : LockedPriorityQueue α ε) :
    Outcome (LockedPriorityQueue α ε) ε Bool :=
  q.onHeap (·.call (ArrayHeap.updateAt index x))

/-- A copy of the elements in array order. -/
def toArray (q : LockedPriorityQueue α ε) : Array α := q.heap.toArray

/-- Puts a call to the queue. -/
def run (c : IndexedCall α) (q : LockedPriorityQueue α ε) :
    Outcome (LockedPriorityQueue α ε) ε (Reply α) :=
  match c with
  | .plain c => q.onHeap (LockedHeap.run c)
  | .fix index => (q.fix index).map fun _ => .done
  | .removeAt index => (q.removeAt index).map .item
  | .updateAt index x => (q.updateAt index x).map .flag

/-- How the queue shows itself. -/
def shape (q : LockedPriorityQueue α ε) : Shape :=
  .record "LockedPriorityQueue" [("heap", q.heap.shape)]

end LockedPriorityQueue

end Containers
