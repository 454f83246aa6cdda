import Containers.Event
import Containers.Outcome

/-!
# Queues in an array

A first-in first-out queue that never shifts its elements.  `ArrayQueue` is an array of slots with a
mark: what is below `head` has been taken and its slots are empty, what is from `head` on is
waiting.  Taking an element empties its slot and moves the mark.

Consumed slots are given back now and then: once more than `compactionThreshold` of them have
accumulated and they are at least half of the array, the waiting elements move to the front of a
fresh array (`ArrayQueue.compact`).  The test is made after every element taken, and an event
reports each move.

* `ArrayQueue.push`, `pop`, `peek`, `size`, `clear` are the operations.
* `ArrayQueue.toArray` lists the waiting elements front to back.
-/

set_option autoImplicit false

namespace Containers

/-- How many consumed slots a queue keeps without thinking of giving them back. -/
def compactionThreshold : Nat := 64

/-- A queue: its slots, and how many of them have been consumed. -/
structure ArrayQueue (α : Type) where
  /-- The slots; a consumed one is empty. -/
  items : Array (Option α)
  /-- The slot of the element at the front. -/
  head : Nat

namespace ArrayQueue

variable {α : Type}

/-- A queue without elements. -/
def empty : ArrayQueue α := ⟨#[], 0⟩

/-- A queue of given elements, the first one at the front. -/
def ofArray (items : Array α) : ArrayQueue α := ⟨items.map some, 0⟩

/-- The number of waiting elements. -/
def size (q : ArrayQueue α) : Nat := q.items.size - q.head

/-- Adds an element at the back. -/
def push (x : α) (q : ArrayQueue α) : ArrayQueue α :=
  match q with
  | ⟨items, head⟩ => ⟨items.push (some x), head⟩

/-- Adds elements one after another at the back. -/
def extend (xs : List α) (q : ArrayQueue α) : ArrayQueue α := xs.foldl (fun q x => q.push x) q

/-- Moves the waiting elements to the front of a fresh array. -/
def compact (q : ArrayQueue α) : Outcome (ArrayQueue α) Event Unit :=
  let live := q.items.extract q.head q.items.size
  ⟨⟨live, 0⟩, .ok (), #[.compacting q.head live.size]⟩

/-- Whether enough slots have been consumed for the rest to move. -/
def compactionDue (q : ArrayQueue α) : Bool :=
  compactionThreshold < q.head && q.items.size ≤ q.head * 2

/-- Takes the element at the front. -/
def pop (q : ArrayQueue α) : Outcome (ArrayQueue α) Event (Option α) :=
  match q with
  | ⟨items, head⟩ =>
    match items[head]? with
    | none => .done ⟨items, head⟩ none
    | some item =>
      let q : ArrayQueue α := ⟨items.setIfInBounds head none, head + 1⟩
      if q.compactionDue then q.compact.map fun _ => item else .done q item

/-- The element at the front. -/
def peek (q : ArrayQueue α) : Option α := q.items[q.head]?.join

/-- Drops all elements. -/
def clear (_ : ArrayQueue α) : ArrayQueue α := empty

/-- The waiting elements, front to back. -/
def toArray (q : ArrayQueue α) : Array α :=
  (q.items.extract q.head q.items.size).filterMap id

@[simp] theorem toArray_empty : (empty : ArrayQueue α).toArray = #[] := rfl

/-- A queue of given elements holds them in order. -/
@[simp] theorem toArray_ofArray (items : Array α) : (ofArray items).toArray = items := by
  rw [toArray, ofArray, Array.extract_size]
  apply Array.toList_inj.1
  simp

@[simp] theorem toArray_clear (q : ArrayQueue α) : q.clear.toArray = #[] := rfl

/-- Compaction moves elements and changes none. -/
@[simp] theorem toArray_compact (q : ArrayQueue α) : q.compact.state.toArray = q.toArray := by
  simp only [compact, toArray, Array.extract_size]

end ArrayQueue

end Containers
