import Containers.Heap.Storage

/-!
# Sifting

Two loops carry all heap operations.  `siftUp` moves an element towards the root while it precedes
the element above it; `siftDown` moves an element towards the leaves while the preferred of the two
elements below precedes it.  Both exchange along one path and stop as soon as an answer is negative,
so both end under every comparison, however inconsistent: the slot that is looked at next is above
respectively below the present one.

* `siftUp r node s` starts at slot `node`.
* `siftDown r start s` also answers whether the element has moved.
-/

set_option autoImplicit false

namespace Containers.Heap

variable {α ε : Type}

/-- Moves the element in slot `node` towards the root while it precedes the one above it. -/
def siftUp (r : Rules α ε) (node : Nat) (s : Storage α ε) : Storage α ε :=
  if node = 0 then s
  else
    let outranks := s.compareAt r node (parent node)
    if outranks.1 then siftUp r (parent node) (outranks.2.swapAt r node (parent node))
    else outranks.2
termination_by node
decreasing_by exact parent_lt (by omega)

/-- The child of `node` that moves up if one does: the left one, unless there is a right one that
precedes it. -/
def preferredChild (r : Rules α ε) (len node : Nat) (s : Storage α ε) : Nat × Storage α ε :=
  let left := leftChild node
  if left + 1 < len then
    let rightFirst := s.compareAt r (left + 1) left
    (if rightFirst.1 then left + 1 else left, rightFirst.2)
  else (left, s)

/-- The preferred child is one of the two. -/
theorem preferredChild_eq_or (r : Rules α ε) (len node : Nat) (s : Storage α ε) :
    (preferredChild r len node s).1 = leftChild node ∨
      (preferredChild r len node s).1 = leftChild node + 1 := by
  unfold preferredChild
  dsimp only
  split
  · dsimp only
    split
    · exact .inr rfl
    · exact .inl rfl
  · exact .inl rfl

theorem lt_preferredChild (r : Rules α ε) (len node : Nat) (s : Storage α ε) :
    node < (preferredChild r len node s).1 := by
  have h := lt_leftChild node
  rcases preferredChild_eq_or r len node s with h' | h' <;> omega

/-- Choosing a child leaves the elements where they are. -/
@[simp] theorem items_preferredChild (r : Rules α ε) (len node : Nat) (s : Storage α ε) :
    (preferredChild r len node s).2.items = s.items := by
  unfold preferredChild
  dsimp only
  split
  · exact Storage.items_compareAt ..
  · rfl

/-- Moves the element in slot `node` towards the leaves of a heap of `len` slots, and answers where
it has come to rest. -/
def descend (r : Rules α ε) (len node : Nat) (s : Storage α ε) : Nat × Storage α ε :=
  if leftChild node < len then
    let best := preferredChild r len node s
    let outranks := best.2.compareAt r best.1 node
    if outranks.1 then descend r len best.1 (outranks.2.swapAt r node best.1)
    else (node, outranks.2)
  else (node, s)
termination_by len - node
decreasing_by
  have h₁ := lt_preferredChild r len node s
  have h₂ := lt_leftChild node
  omega

/-- Moves the element in slot `start` towards the leaves while the preferred child precedes it.
Answers whether it has moved. -/
def siftDown (r : Rules α ε) (start : Nat) (s : Storage α ε) : Bool × Storage α ε :=
  let stop := descend r s.size start s
  (start < stop.1, stop.2)

/-- Sifting up keeps the number of slots. -/
@[simp] theorem size_siftUp (r : Rules α ε) (node : Nat) (s : Storage α ε) :
    (siftUp r node s).items.size = s.items.size := by
  fun_induction siftUp r node s with
  | case1 => rfl
  | case2 node s _ outranks _ ih => simp [ih, outranks]
  | case3 node s _ outranks _ => simp [outranks]

/-- Descending keeps the number of slots. -/
@[simp] theorem size_descend (r : Rules α ε) (len node : Nat) (s : Storage α ε) :
    (descend r len node s).2.items.size = s.items.size := by
  fun_induction descend r len node s with
  | case1 node s _ best outranks _ ih => simp [ih, outranks, best]
  | case2 node s _ best outranks _ => simp [outranks, best]
  | case3 => rfl

/-- Sifting down keeps the number of slots. -/
@[simp] theorem size_siftDown (r : Rules α ε) (start : Nat) (s : Storage α ε) :
    (siftDown r start s).2.items.size = s.items.size :=
  size_descend r s.size start s

end Containers.Heap
