import Containers.Outcome

/-!
# Calls as data

What can be asked of a container that elements are added to and taken from is the same for heaps and
for queues, so the questions and the answers are written down once: a `Call` is a question and a
`Reply` the answer to one.  Having them as data is what makes it possible to speak of a whole
history of calls, and to put the same history to two containers.

`IndexedCall` adds the three calls that name a slot, which only priority queues understand.
`popMany` repeats one call until there is nothing to take or enough has been taken.
-/

set_option autoImplicit false

namespace Containers

/-- A call that every heap and every queue understands. -/
inductive Call (α : Type) where
  /-- Add an element. -/
  | push (x : α)
  /-- Add elements one after another. -/
  | extend (xs : List α)
  /-- Take the element whose turn it is. -/
  | pop
  /-- Look at the element whose turn it is. -/
  | peek
  /-- Count the elements. -/
  | size
  /-- Ask whether there are no elements. -/
  | isEmpty
  /-- Drop all elements. -/
  | clear
  /-- Copy all elements. -/
  | toArray
  deriving Repr

/-- A call that every priority queue understands. -/
inductive IndexedCall (α : Type) where
  /-- A call that names no slot. -/
  | plain (c : Call α)
  /-- Repair the order around a slot. -/
  | fix (index : Nat)
  /-- Take the element in a slot. -/
  | removeAt (index : Nat)
  /-- Replace the element in a slot. -/
  | updateAt (index : Nat) (x : α)
  deriving Repr

/-- The answer to a call. -/
inductive Reply (α : Type) where
  /-- The call was carried out and has nothing to say. -/
  | done
  /-- An element, or none where there was none. -/
  | item (x : Option α)
  /-- A number of elements. -/
  | count (n : Nat)
  /-- Whether something is the case. -/
  | flag (b : Bool)
  /-- A copy of the elements. -/
  | items (xs : Array α)
  deriving DecidableEq, Repr

/-- Takes elements until there are none or `n` have been taken. -/
def popMany {α σ ε : Type} (run : Call α → σ → Outcome σ ε (Reply α)) :
    Nat → σ → Outcome σ ε (List α)
  | 0, s => .done s []
  | n + 1, s =>
    (run .pop s).andThen fun reply s =>
      match reply with
      | .item (some x) => (popMany run n s).map (x :: ·)
      | _ => .done s []

end Containers
