import Containers.Outcome
import Containers.Heap.Operations

/-!
# Heaps in an array

`ArrayHeap` is a heap without a lock: the array, the priority it is ordered by, and the swap hook if
one is attached.  It lends its array to the algorithms for the length of one call, with rules that
report every exchange to the hook, and takes the array back whatever the call's end was.

The priority is a part of the heap and may be replaced (`ArrayHeap.setPriority`); this is how
elements whose rank has changed behind the heap's back are modelled, and nothing is moved by it.
-/

set_option autoImplicit false

namespace Containers

open Heap (SwapHook Rules Storage Probe)

/-- A heap: its elements, their priority, and who is told of exchanges. -/
structure ArrayHeap (α ε : Type) where
  /-- The elements, slot by slot. -/
  items : Array α
  /-- Which of two elements leaves first. -/
  less : Priority α
  /-- Who is told of every exchange of two slots. -/
  onSwap : Option (SwapHook α ε)

namespace ArrayHeap

variable {α β ε : Type}

/-- The rules that the algorithms work by on this heap. -/
def rules (c : ArrayHeap α ε) : Rules α ε := ⟨c.less, Probe.ofHook c.onSwap⟩

/-- Lends the elements to an algorithm. -/
def lend (c : ArrayHeap α ε)
    (work : Rules α ε → Storage α ε → Except Fault β × Storage α ε) : Outcome (ArrayHeap α ε) ε β :=
  match c with
  | ⟨items, less, onSwap⟩ =>
    match work ⟨less, Probe.ofHook onSwap⟩ (Storage.ofArray items) with
    | (answer, ⟨items, log⟩) => ⟨⟨items, less, onSwap⟩, answer, log⟩

/-- Lends the elements to an algorithm that never faults. -/
def lendTotal (c : ArrayHeap α ε) (work : Rules α ε → Storage α ε → β × Storage α ε) :
    Outcome (ArrayHeap α ε) ε β :=
  c.lend fun r s =>
    match work r s with
    | (answer, s) => (.ok answer, s)

/-- A heap without elements. -/
def empty (less : Priority α) : ArrayHeap α ε := ⟨#[], less, none⟩

/-- A heap made of given elements. -/
def ofArray (items : Array α) (less : Priority α) : ArrayHeap α ε :=
  ((⟨items, less, none⟩ : ArrayHeap α ε).lendTotal fun r s => ((), Heap.heapify r s)).state

/-- Attaches a swap hook in place of the one there was. -/
def setOnSwap (hook : SwapHook α ε) (c : ArrayHeap α ε) : ArrayHeap α ε :=
  ⟨c.items, c.less, some hook⟩

/-- Replaces the priority and moves nothing. -/
def setPriority (less : Priority α) (c : ArrayHeap α ε) : ArrayHeap α ε :=
  ⟨c.items, less, c.onSwap⟩

/-- The number of elements. -/
def size (c : ArrayHeap α ε) : Nat := c.items.size

/-- The element that leaves next. -/
def peek (c : ArrayHeap α ε) : Option α := c.items[0]?

/-- Adds an element. -/
def push (x : α) (c : ArrayHeap α ε) : Outcome (ArrayHeap α ε) ε Unit :=
  c.lend fun r s => Heap.push r x s

/-- Adds elements one after another. -/
def extend (xs : List α) (c : ArrayHeap α ε) : Outcome (ArrayHeap α ε) ε Unit :=
  c.lend fun r s => Heap.pushAll r xs s

/-- Takes the element that leaves next. -/
def pop (c : ArrayHeap α ε) : Outcome (ArrayHeap α ε) ε (Option α) :=
  c.lendTotal fun r s => Heap.pop r s

/-- Restores the order around a slot. -/
def fix (index : Nat) (c : ArrayHeap α ε) : Outcome (ArrayHeap α ε) ε Unit :=
  c.lendTotal fun r s => ((), Heap.fix r index s)

/-- Takes the element in a slot. -/
def removeAt (index : Nat) (c : ArrayHeap α ε) : Outcome (ArrayHeap α ε) ε (Option α) :=
  c.lendTotal fun r s => Heap.remove r index s

/-- Replaces the element in a slot and restores the order around it; answers whether there is such a
slot. -/
def updateAt (index : Nat) (x : α) (c : ArrayHeap α ε) : Outcome (ArrayHeap α ε) ε Bool :=
  match c with
  | ⟨items, less, onSwap⟩ =>
    if index < items.size then
      (ArrayHeap.fix index ⟨items.setIfInBounds index x, less, onSwap⟩).map fun _ => true
    else .done ⟨items, less, onSwap⟩ false

/-- Drops all elements. -/
def clear (c : ArrayHeap α ε) : ArrayHeap α ε := ⟨#[], c.less, c.onSwap⟩

@[simp] theorem less_lend (c : ArrayHeap α ε)
    (work : Rules α ε → Storage α ε → Except Fault β × Storage α ε) :
    (c.lend work).state.less = c.less := rfl

@[simp] theorem onSwap_lend (c : ArrayHeap α ε)
    (work : Rules α ε → Storage α ε → Except Fault β × Storage α ε) :
    (c.lend work).state.onSwap = c.onSwap := rfl

/-- An array that was lent comes back as the algorithm leaves it. -/
theorem items_lend (c : ArrayHeap α ε)
    (work : Rules α ε → Storage α ε → Except Fault β × Storage α ε) :
    (c.lend work).state.items = (work c.rules (Storage.ofArray c.items)).2.items := rfl

theorem answer_lend (c : ArrayHeap α ε)
    (work : Rules α ε → Storage α ε → Except Fault β × Storage α ε) :
    (c.lend work).answer = (work c.rules (Storage.ofArray c.items)).1 := rfl

/-- What the hook was told during a call is what the algorithm has written down. -/
theorem log_lend (c : ArrayHeap α ε)
    (work : Rules α ε → Storage α ε → Except Fault β × Storage α ε) :
    (c.lend work).log = (work c.rules (Storage.ofArray c.items)).2.log := rfl

end ArrayHeap

end Containers
