import Containers.Call
import Containers.Lock
import Containers.Queue.ArrayQueue
import Containers.Shape
import Containers.Snapshot

/-!
# Queues behind a lock

A `LockedQueue` is an array queue behind one lock.  It answers the calls that every container with
turns understands (`LockedQueue.run`), and whatever the array queue does about consumed slots can be
told from its events and from nothing else.
-/

set_option autoImplicit false

namespace Containers

/-- A queue behind a lock. -/
structure LockedQueue (α : Type) where
  /-- The queue proper and its lock. -/
  guarded : Locked (ArrayQueue α)

namespace LockedQueue

variable {α τ : Type}

/-- A queue without elements. -/
def empty (kind : LockKind) : LockedQueue α := ⟨⟨kind, .empty⟩⟩

/-- A queue of given elements, the first one at the front. -/
def ofArray (kind : LockKind) (items : Array α) : LockedQueue α := ⟨⟨kind, .ofArray items⟩⟩

/-- Adds an element at the back. -/
def push (x : α) (q : LockedQueue α) : LockedQueue α :=
  match q with
  | ⟨guarded⟩ => ⟨guarded.modify (ArrayQueue.push x)⟩

/-- Adds elements one after another at the back; no elements, no access. -/
def extend (xs : List α) (q : LockedQueue α) : LockedQueue α :=
  if xs.isEmpty then q
  else
    match q with
    | ⟨guarded⟩ => ⟨guarded.modify (ArrayQueue.extend xs)⟩

/-- Takes the element at the front. -/
def pop (q : LockedQueue α) : Outcome (LockedQueue α) Event (Option α) :=
  match q with
  | ⟨guarded⟩ => (guarded.call ArrayQueue.pop).mapState LockedQueue.mk

/-- The element at the front. -/
def peek (q : LockedQueue α) : Option α := q.guarded.read ArrayQueue.peek

/-- The number of waiting elements. -/
def size (q : LockedQueue α) : Nat := q.guarded.read ArrayQueue.size

/-- Whether no element is waiting. -/
def isEmpty (q : LockedQueue α) : Bool := q.size == 0

/-- Drops all elements. -/
def clear (q : LockedQueue α) : LockedQueue α := ⟨q.guarded.modify ArrayQueue.clear⟩

/-- A copy of the waiting elements, front to back. -/
def toArray (q : LockedQueue α) : Array α := q.guarded.read ArrayQueue.toArray

/-- A copy of the waiting elements to be consumed. -/
def all (q : LockedQueue α) : Snapshot α := .ofArray q.toArray

/-- Visits a copy of the elements front to back; the visitor may act on the queue. -/
def range (visitor : α → LockedQueue α × τ → Outcome (LockedQueue α × τ) Event Bool)
    (q : LockedQueue α) (t : τ) : Outcome (LockedQueue α × τ) Event (List α) :=
  visit visitor q.toArray.toList (q, t)

/-- Puts a call to the queue. -/
def run (c : Call α) (q : LockedQueue α) : Outcome (LockedQueue α) Event (Reply α) :=
  match c with
  | .push x => .done (q.push x) .done
  | .extend xs => .done (q.extend xs) .done
  | .pop => q.pop.map .item
  | .peek => .done q (.item q.peek)
  | .size => .done q (.count q.size)
  | .isEmpty => .done q (.flag q.isEmpty)
  | .clear => .done q.clear .done
  | .toArray => .done q (.items q.toArray)

/-- How the queue shows itself. -/
def shape (q : LockedQueue α) : Shape :=
  .record "LockedQueue" [("strategy", .word q.guarded.kind.name), ("len", .count q.size)]

end LockedQueue

end Containers
