import Containers.Call
import Containers.Heap.ArrayHeap
import Containers.Lock
import Containers.Shape
import Containers.Snapshot

/-!
# Heaps behind a lock

A `LockedHeap` is an array heap behind one lock.  Reading operations look at it, all others
work on it, and the kind of lock shows only in the description.

* `LockedHeap.push`, `extend`, `pop`, `peek`, `size`, `isEmpty`, `clear` and `toArray` are the
  operations; `LockedHeap.run` puts any of them to the heap as a `Call`.
* `LockedHeap.range` visits a copy of the elements in array order.
-/

set_option autoImplicit false

namespace Containers

/-- A heap behind a lock. -/
structure LockedHeap (α ε : Type) where
  /-- The heap proper and its lock. -/
  guarded : Locked (ArrayHeap α ε)

namespace LockedHeap

variable {α β ε τ : Type}

/-- A heap without elements. -/
def empty (kind : LockKind) (less : Priority α) : LockedHeap α ε := ⟨⟨kind, ArrayHeap.empty less⟩⟩

/-- A heap made of given elements. -/
def ofArray (kind : LockKind) (items : Array α) (less : Priority α) : LockedHeap α ε :=
  ⟨⟨kind, ArrayHeap.ofArray items less⟩⟩

/-- Puts a call to the array heap under the lock. -/
def call (h : LockedHeap α ε) (f : ArrayHeap α ε → Outcome (ArrayHeap α ε) ε β) :
    Outcome (LockedHeap α ε) ε β :=
  match h with
  | ⟨guarded⟩ => (guarded.call f).mapState LockedHeap.mk

/-- Changes the array heap on behalf of the owner. -/
def ownerModify (h : LockedHeap α ε) (f : ArrayHeap α ε → ArrayHeap α ε) : LockedHeap α ε :=
  match h with
  | ⟨guarded⟩ => ⟨guarded.ownerModify f⟩

/-- Adds an element. -/
def push (x : α) (h : LockedHeap α ε) : Outcome (LockedHeap α ε) ε Unit := h.call (ArrayHeap.push x)

/-- Adds elements one after another; no elements, no call. -/
def extend (xs : List α) (h : LockedHeap α ε) : Outcome (LockedHeap α ε) ε Unit :=
  if xs.isEmpty then .done h () else h.call (ArrayHeap.extend xs)

/-- Takes the element that leaves next. -/
def pop (h : LockedHeap α ε) : Outcome (LockedHeap α ε) ε (Option α) := h.call ArrayHeap.pop

/-- The element that leaves next. -/
def peek (h : LockedHeap α ε) : Option α := h.guarded.read ArrayHeap.peek

/-- The number of elements. -/
def size (h : LockedHeap α ε) : Nat := h.guarded.read ArrayHeap.size

/-- Whether there are no elements. -/
def isEmpty (h : LockedHeap α ε) : Bool := h.size == 0

/-- Drops all elements. -/
def clear (h : LockedHeap α ε) : LockedHeap α ε := ⟨h.guarded.modify ArrayHeap.clear⟩

/-- A copy of the elements in array order. -/
def toArray (h : LockedHeap α ε) : Array α := h.guarded.read ArrayHeap.items

/-- A copy of the elements to be consumed. -/
def all (h : LockedHeap α ε) : Snapshot α := .ofArray h.toArray

/-- Visits a copy of the elements in array order; the visitor may act on the heap. -/
def range (visitor : α → LockedHeap α ε × τ → Outcome (LockedHeap α ε × τ) ε Bool)
    (h : LockedHeap α ε) (t : τ) : Outcome (LockedHeap α ε × τ) ε (List α) :=
  visit visitor h.toArray.toList (h, t)

/-- Puts a call to the heap. -/
def run (c : Call α) (h : LockedHeap α ε) : Outcome (LockedHeap α ε) ε (Reply α) :=
  match c with
  | .push x => (h.push x).map fun _ => .done
  | .extend xs => (h.extend xs).map fun _ => .done
  | .pop => h.pop.map .item
  | .peek => .done h (.item h.peek)
  | .size => .done h (.count h.size)
  | .isEmpty => .done h (.flag h.isEmpty)
  | .clear => .done h.clear .done
  | .toArray => .done h (.items h.toArray)

/-- How the heap shows itself. -/
def shape (h : LockedHeap α ε) : Shape :=
  .record "LockedHeap" [("strategy", .word h.guarded.kind.name), ("len", .count h.size)]

end LockedHeap

end Containers
