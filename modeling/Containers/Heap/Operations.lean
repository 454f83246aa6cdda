import Containers.Fault
import Containers.Heap.Sift

/-!
# The heap operations

Each operation is a few accesses around the two sifts of `Containers.Heap.Sift`.

* `heapify` puts arbitrary contents in order, working from the last slot that has a child back to
  the root.
* `push` appends and sifts up.  Before that it compares the new element with itself: a priority
  under which something precedes itself cannot be obeyed, and the call ends in a fault with the
  element appended but not moved.
* `pop` and `remove` exchange the departing element with the last one and drop it *before* anything
  is sifted, so no later access can see it.
* `fix` repairs the order around a slot whose element has changed: downwards if that moves it,
  otherwise upwards.
* `siftUpAt`, `siftDownAt` and `overwrite` are for callers that keep a storage of their own and name
  any slot they like.
* `isOrdered` looks at every slot but the root until one precedes the slot above it.

A slot that does not exist is no error for `remove` and `fix`: there is nothing to remove or repair
there.  The three that name a slot without asking for the size first are not so patient.
-/

set_option autoImplicit false

namespace Containers.Heap

variable {α ε : Type}

/-! ## Putting contents in order -/

/-- Sifts down slots `node - 1`, `node - 2`, …, `0`. -/
def heapifyFrom (r : Rules α ε) : Nat → Storage α ε → Storage α ε
  | 0, s => s
  | node + 1, s => heapifyFrom r node (siftDown r node s).2

/-- Puts arbitrary contents in order. -/
def heapify (r : Rules α ε) (s : Storage α ε) : Storage α ε := heapifyFrom r (s.size / 2) s

/-! ## Adding -/

/-- Adds an element.  An element that precedes itself is a fault; it stays where it was appended. -/
def push (r : Rules α ε) (x : α) (s : Storage α ε) : Except Fault Unit × Storage α ε :=
  let s := s.append r x
  let last := s.size - 1
  let reflexive := s.compareAt r last last
  if reflexive.1 then (.error .reflexivePriority, reflexive.2)
  else (.ok (), siftUp r last reflexive.2)

/-- Adds elements one after another, up to and including the first one that faults. -/
def pushAll (r : Rules α ε) : List α → Storage α ε → Except Fault Unit × Storage α ε
  | [], s => (.ok (), s)
  | x :: xs, s =>
    match push r x s with
    | (.ok _, s) => pushAll r xs s
    | (.error f, s) => (.error f, s)

/-! ## Removing and repairing -/

/-- Removes the element at the root. -/
def pop (r : Rules α ε) (s : Storage α ε) : Option α × Storage α ε :=
  let len := s.size
  if len = 0 then (none, s)
  else
    let s := if 1 < len then s.swapAt r 0 (len - 1) else s
    let departed := s.dropLast r
    let s := departed.2
    (departed.1, if s.size = 0 then s else (siftDown r 0 s).2)

/-- Restores the order around a slot whose element has changed. -/
def fix (r : Rules α ε) (index : Nat) (s : Storage α ε) : Storage α ε :=
  if index < s.size then
    let moved := siftDown r index s
    if moved.1 then moved.2 else siftUp r index moved.2
  else s

/-- Removes the element in a slot. -/
def remove (r : Rules α ε) (index : Nat) (s : Storage α ε) : Option α × Storage α ε :=
  if index < s.size then
    let last := s.size - 1
    let s := if index = last then s else s.swapAt r index last
    let departed := s.dropLast r
    (departed.1, fix r index departed.2)
  else (none, s)

/-! ## Slots of the caller's choosing -/

/-- Moves the element in slot `node` towards the root.  The root is where it belongs already; any
other slot is compared with its parent, and for this it has to exist. -/
def siftUpAt (r : Rules α ε) (node : Nat) (s : Storage α ε) : Except Fault Unit × Storage α ε :=
  if node = 0 ∨ node < s.size then (.ok (), siftUp r node s)
  else (.error (.noSuchSlot s.size node), s)

/-- Moves the element in slot `start` towards the leaves; answers whether it has moved.  A slot that
does not exist has no children, but it has to be possible to number them. -/
def siftDownAt (r : Rules α ε) (start : Nat) (s : Storage α ε) :
    Except Fault Bool × Storage α ε :=
  if leftChild start < slotLimit then
    let moved := siftDown r start s
    (.ok moved.1, moved.2)
  else (.error .slotOverflow, s)

/-- Puts an element into a slot in place of the one there, and moves nothing. -/
def overwrite (index : Nat) (x : α) (s : Storage α ε) : Except Fault Unit × Storage α ε :=
  if index < s.size then (.ok (), s.set index x) else (.error (.noSuchSlot s.size index), s)

/-! ## Looking for disorder -/

/-- Whether no slot from `node` on precedes the slot above it; stops at the first that does. -/
def isOrderedFrom (r : Rules α ε) (len node : Nat) (s : Storage α ε) : Bool × Storage α ε :=
  if node < len then
    let outranks := s.compareAt r node (parent node)
    if outranks.1 then (false, outranks.2) else isOrderedFrom r len (node + 1) outranks.2
  else (true, s)
termination_by len - node

/-- Whether no element precedes the one above it. -/
def isOrdered (r : Rules α ε) (s : Storage α ε) : Bool × Storage α ε := isOrderedFrom r s.size 1 s

/-! ## Numbers of slots -/

@[simp] theorem size_heapifyFrom (r : Rules α ε) (node : Nat) (s : Storage α ε) :
    (heapifyFrom r node s).items.size = s.items.size := by
  induction node generalizing s with
  | zero => rfl
  | succ node ih => rw [heapifyFrom, ih, size_siftDown]

/-- Putting contents in order keeps their number. -/
@[simp] theorem size_heapify (r : Rules α ε) (s : Storage α ε) :
    (heapify r s).items.size = s.items.size :=
  size_heapifyFrom r _ s

/-- A push adds a slot, whether it faults or not. -/
theorem size_push (r : Rules α ε) (x : α) (s : Storage α ε) :
    (push r x s).2.items.size = s.items.size + 1 := by
  unfold push
  dsimp only
  split <;> simp

/-- Repairing keeps the number of slots. -/
@[simp] theorem size_fix (r : Rules α ε) (index : Nat) (s : Storage α ε) :
    (fix r index s).items.size = s.items.size := by
  unfold fix
  split
  · dsimp only
    split <;> simp
  · rfl

/-- Looking for disorder changes no element. -/
@[simp] theorem items_isOrderedFrom (r : Rules α ε) (len node : Nat) (s : Storage α ε) :
    (isOrderedFrom r len node s).2.items = s.items := by
  fun_induction isOrderedFrom r len node s with
  | case1 node s _ outranks _ => simp [outranks]
  | case2 node s _ outranks _ ih => simp [ih, outranks]
  | case3 => rfl

end Containers.Heap
