import Containers.Map.ConcurrentTable
import Containers.Outcome
import Containers.Set.Call
import Containers.Shape
import Containers.Snapshot

/-!
# Concurrent sets

A `ConcurrentSet` is a concurrent table, whichever one that is, whose values say nothing.  Adding a member
that is there already stores under its key once more, which keeps the spelling that was there.
-/

set_option autoImplicit false

namespace Containers

/-- A set for many users. -/
structure ConcurrentSet (θ : Type) where
  /-- The members as keys of a table for many users. -/
  table : θ

namespace ConcurrentSet

variable {κ θ : Type} [ConcurrentTable θ κ Unit]

/-- A set without members. -/
def empty : ConcurrentSet θ := ⟨ConcurrentTable.empty⟩

/-- The set of the members of a list. -/
def ofList (ks : List κ) : ConcurrentSet θ :=
  ⟨ConcurrentTable.ofList (ks.map fun k => (k, ()))⟩

/-- Makes something a member; answers whether that was news. -/
def add (k : κ) (s : ConcurrentSet θ) : Bool × ConcurrentSet θ :=
  let stored := ConcurrentTable.insert k () s.table
  (stored.1.isNone, ⟨stored.2⟩)

/-- Lets something be no member; answers whether it was one. -/
def delete (k : κ) (s : ConcurrentSet θ) : Bool × ConcurrentSet θ :=
  let removed := ConcurrentTable.remove k s.table
  (removed.1.isSome, ⟨removed.2⟩)

/-- Whether something is a member. -/
def has (k : κ) (s : ConcurrentSet θ) : Bool := ConcurrentTable.contains s.table k

/-- The number of members. -/
def size (s : ConcurrentSet θ) : Nat := ConcurrentTable.size s.table

/-- Whether there are no members. -/
def isEmpty (s : ConcurrentSet θ) : Bool := s.size == 0

/-- Drops all members. -/
def clear (s : ConcurrentSet θ) : ConcurrentSet θ := ⟨ConcurrentTable.clear s.table⟩

/-- A copy of the members. -/
def toArray (s : ConcurrentSet θ) : Array κ :=
  ((ConcurrentTable.entries s.table).map Prod.fst).toArray

/-- A copy of the members to be consumed. -/
def all (s : ConcurrentSet θ) : Snapshot κ := .ofArray s.toArray

/-- Puts a call to the set. -/
def run (c : SetCall κ) (s : ConcurrentSet θ) : Outcome (ConcurrentSet θ) Empty (SetReply κ) :=
  match c with
  | .add k => .done (s.add k).2 (.flag (s.add k).1)
  | .delete k => .done (s.delete k).2 (.flag (s.delete k).1)
  | .has k => .done s (.flag (s.has k))
  | .size => .done s (.count s.size)
  | .isEmpty => .done s (.flag s.isEmpty)
  | .clear => .done s.clear .done
  | .toArray => .done s (.members s.toArray)

/-- How the set shows itself. -/
def shape (s : ConcurrentSet θ) : Shape := .record "ConcurrentSet" [("len", .count s.size)]

end ConcurrentSet

end Containers
