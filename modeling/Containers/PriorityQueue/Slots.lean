import Containers.Call
import Containers.Heap.Operations
import Containers.Lock
import Containers.Shape
import Containers.Snapshot

/-!
# Priority queues over plain slots

A `SlotPriorityQueue` wraps no heap: it keeps plain slots behind a reader/writer lock and puts the
heap algorithms to them directly, on one storage per call.  It exists to show that the algorithms do
not depend on `ArrayHeap`; whatever is asked of it, it answers as a `LockedPriorityQueue` does, and
its swap hook hears the same.
-/

set_option autoImplicit false

namespace Containers

open Heap (SwapHook Rules Storage Probe)

/-! ## Slots -/

/-- What the lock of a slot queue guards. -/
structure HookedSlots (α ε : Type) where
  /-- The elements, slot by slot. -/
  items : Array α
  /-- Which of two elements leaves first. -/
  less : Priority α
  /-- Who is told of every exchange of two slots. -/
  onSwap : Option (SwapHook α ε)

/-- Lends the elements as a storage for one call. -/
def HookedSlots.lend {α β ε : Type} (s : HookedSlots α ε)
    (work : Rules α ε → Storage α ε → Except Fault β × Storage α ε) :
    Outcome (HookedSlots α ε) ε β :=
  match s with
  | ⟨items, less, onSwap⟩ =>
    match work ⟨less, Probe.ofHook onSwap⟩ ⟨items, #[]⟩ with
    | (answer, storage) => ⟨⟨storage.items, less, onSwap⟩, answer, storage.log⟩

/-! ## The queue -/

/-- A priority queue over plain slots. -/
structure SlotPriorityQueue (α ε : Type) where
  /-- The slots and their lock. -/
  slots : Locked (HookedSlots α ε)

namespace SlotPriorityQueue

variable {α β ε τ : Type}

/-- A queue made of given elements. -/
def ofArray (items : Array α) (less : Priority α) : SlotPriorityQueue α ε :=
  let ordered := (⟨items, less, none⟩ : HookedSlots α ε).lend fun r s => (.ok (), Heap.heapify r s)
  ⟨⟨.readWrite, ordered.state⟩⟩

/-- A queue without elements. -/
def empty (less : Priority α) : SlotPriorityQueue α ε := ofArray #[] less

/-- Attaches a swap hook in place of the one there was. -/
def withOnSwap (hook : SwapHook α ε) (q : SlotPriorityQueue α ε) : SlotPriorityQueue α ε :=
  ⟨q.slots.ownerModify fun s => ⟨s.items, s.less, some hook⟩⟩

/-- Replaces the priority and moves nothing. -/
def withPriority (less : Priority α) (q : SlotPriorityQueue α ε) : SlotPriorityQueue α ε :=
  ⟨q.slots.ownerModify fun s => ⟨s.items, less, s.onSwap⟩⟩

/-- Puts an algorithm to the slots under the lock. -/
def apply (q : SlotPriorityQueue α ε)
    (work : Rules α ε → Storage α ε → Except Fault β × Storage α ε) :
    Outcome (SlotPriorityQueue α ε) ε β :=
  match q with
  | ⟨slots⟩ => (slots.call fun s => s.lend work).mapState SlotPriorityQueue.mk

/-- Adds an element. -/
def push (x : α) (q : SlotPriorityQueue α ε) : Outcome (SlotPriorityQueue α ε) ε Unit :=
  q.apply fun r s => Heap.push r x s

/-- Adds elements one after another; no elements, no call. -/
def extend (xs : List α) (q : SlotPriorityQueue α ε) : Outcome (SlotPriorityQueue α ε) ε Unit :=
  match xs with
  | [] => .done q ()
  | x :: xs => q.apply fun r s => Heap.pushAll r (x :: xs) s

/-- Takes the element that leaves next. -/
def pop (q : SlotPriorityQueue α ε) : Outcome (SlotPriorityQueue α ε) ε (Option α) :=
  q.apply fun r s =>
    let popped := Heap.pop r s
    (.ok popped.1, popped.2)

/-- Restores the order around a slot. -/
def fix (index : Nat) (q : SlotPriorityQueue α ε) : Outcome (SlotPriorityQueue α ε) ε Unit :=
  q.apply fun r s => (.ok (), Heap.fix r index s)

/-- Takes the element in a slot. -/
def removeAt (index : Nat) (q : SlotPriorityQueue α ε) :
    Outcome (SlotPriorityQueue α ε) ε (Option α) :=
  q.apply fun r s =>
    let removed := Heap.remove r index s
    (.ok removed.1, removed.2)

/-- Replaces the element in a slot and restores the order around it; answers whether there is such a
slot. -/
def updateAt (index : Nat) (x : α) (q : SlotPriorityQueue α ε) :
    Outcome (SlotPriorityQueue α ε) ε Bool :=
  q.apply fun r s =>
    if index < s.size then (.ok true, Heap.fix r index (s.set index x)) else (.ok false, s)

/-- The element that leaves next. -/
def peek (q : SlotPriorityQueue α ε) : Option α := q.slots.read fun s => s.items[0]?

/-- The number of elements. -/
def size (q : SlotPriorityQueue α ε) : Nat := q.slots.read fun s => s.items.size

/-- Whether there are no elements. -/
def isEmpty (q : SlotPriorityQueue α ε) : Bool := q.size == 0

/-- Drops all elements. -/
def clear (q : SlotPriorityQueue α ε) : SlotPriorityQueue α ε :=
  ⟨q.slots.modify fun s => ⟨#[], s.less, s.onSwap⟩⟩

/-- A copy of the elements in array order. -/
def toArray (q : SlotPriorityQueue α ε) : Array α := q.slots.read HookedSlots.items

/-- A copy of the elements to be consumed. -/
def all (q : SlotPriorityQueue α ε) : Snapshot α := .ofArray q.toArray

/-- Puts a call to the queue. -/
def run (c : IndexedCall α) (q : SlotPriorityQueue α ε) :
    Outcome (SlotPriorityQueue α ε) ε (Reply α) :=
  match c with
  | .plain (.push x) => (q.push x).map fun _ => .done
  | .plain (.extend xs) => (q.extend xs).map fun _ => .done
  | .plain .pop => q.pop.map .item
  | .plain .peek => .done q (.item q.peek)
  | .plain .size => .done q (.count q.size)
  | .plain .isEmpty => .done q (.flag q.isEmpty)
  | .plain .clear => .done q.clear .done
  | .plain .toArray => .done q (.items q.toArray)
  | .fix index => (q.fix index).map fun _ => .done
  | .removeAt index => (q.removeAt index).map .item
  | .updateAt index x => (q.updateAt index x).map .flag

/-- How the queue shows itself. -/
def shape (q : SlotPriorityQueue α ε) : Shape :=
  .record "HeapPriorityQueue"
    [("len", .count q.size), ("on_swap", .flag (q.slots.read fun s => s.onSwap.isSome))]

end SlotPriorityQueue

end Containers
