import Containers.Lock
import Containers.Map.Table
import Containers.Set.Call
import Containers.Shape
import Containers.Snapshot

/-!
# Sets behind a lock

A `LockedSet` puts off having a table until there is something to put into it, and it counts its
members beside the table, so that the number can be told without looking.  `CountedTable` is what
the lock guards: the table, if there is one, and the count.  The first `add` brings the table into
being, `clear` gives it up, and a set made of no members starts without one.

The count goes up by one when an addition was news and down by one when a removal found something.
-/

set_option autoImplicit false

namespace Containers

/-- The members of a set, and their number. -/
structure CountedTable (κ : Type) [BEq κ] where
  /-- The members as keys of a table, if there is a table. -/
  table : Option (Table κ Unit)
  /-- The number of members. -/
  size : Nat

namespace CountedTable

variable {κ : Type} [BEq κ]

/-- No members and no table. -/
def none : CountedTable κ := ⟨.none, 0⟩

/-- The members of a list, the first of equal ones. -/
def ofList (ks : List κ) : CountedTable κ :=
  let table := Table.ofList (ks.map fun k => (k, ()))
  if table.isEmpty then none else ⟨some table, table.size⟩

/-- Makes something a member; answers whether that was news. -/
def add (k : κ) (m : CountedTable κ) : Bool × CountedTable κ :=
  let table := m.table.getD .empty
  let added := !table.contains k
  (added, ⟨some (table.insert k ()), if added then m.size + 1 else m.size⟩)

/-- Lets something be no member; answers whether it was one. -/
def delete (k : κ) (m : CountedTable κ) : Bool × CountedTable κ :=
  match m.table with
  | .none => (false, m)
  | some table =>
    let removed := table.contains k
    (removed, ⟨some (table.erase k), if removed then m.size - 1 else m.size⟩)

/-- Whether something is a member. -/
def has (k : κ) (m : CountedTable κ) : Bool :=
  match m.table with
  | .none => false
  | some table => table.contains k

/-- A copy of the members. -/
def toArray (m : CountedTable κ) : Array κ :=
  match m.table with
  | .none => #[]
  | some table => table.keys.toArray

end CountedTable

/-- A set behind a lock. -/
structure LockedSet (κ : Type) [BEq κ] where
  /-- The members and their lock. -/
  members : Locked (CountedTable κ)

namespace LockedSet

variable {κ : Type} [BEq κ]

/-- A set without members. -/
def empty (kind : LockKind) : LockedSet κ := ⟨⟨kind, .none⟩⟩

/-- The set of the members of a list. -/
def ofList (kind : LockKind) (ks : List κ) : LockedSet κ := ⟨⟨kind, .ofList ks⟩⟩

/-- Works on the members under the lock. -/
def write {β : Type} (s : LockedSet κ) (f : CountedTable κ → β × CountedTable κ) :
    β × LockedSet κ :=
  let done := s.members.write f
  (done.1, ⟨done.2⟩)

/-- Makes something a member; answers whether that was news. -/
def add (k : κ) (s : LockedSet κ) : Bool × LockedSet κ := s.write (CountedTable.add k)

/-- Lets something be no member; answers whether it was one. -/
def delete (k : κ) (s : LockedSet κ) : Bool × LockedSet κ := s.write (CountedTable.delete k)

/-- Whether something is a member. -/
def has (k : κ) (s : LockedSet κ) : Bool := s.members.read (CountedTable.has k)

/-- The number of members. -/
def size (s : LockedSet κ) : Nat := s.members.read CountedTable.size

/-- Whether there are no members. -/
def isEmpty (s : LockedSet κ) : Bool := s.size == 0

/-- Drops all members and the table. -/
def clear (s : LockedSet κ) : LockedSet κ := ⟨s.members.modify fun _ => .none⟩

/-- A copy of the members. -/
def toArray (s : LockedSet κ) : Array κ := s.members.read CountedTable.toArray

/-- A copy of the members to be consumed. -/
def all (s : LockedSet κ) : Snapshot κ := .ofArray s.toArray

/-- Whether there is a table. -/
def isAllocated (s : LockedSet κ) : Bool := s.members.read fun m => m.table.isSome

/-- Puts a call to the set. -/
def run (c : SetCall κ) (s : LockedSet κ) : Outcome (LockedSet κ) Empty (SetReply κ) :=
  match c with
  | .add k => .done (s.add k).2 (.flag (s.add k).1)
  | .delete k => .done (s.delete k).2 (.flag (s.delete k).1)
  | .has k => .done s (.flag (s.has k))
  | .size => .done s (.count s.size)
  | .isEmpty => .done s (.flag s.isEmpty)
  | .clear => .done s.clear .done
  | .toArray => .done s (.members s.toArray)

/-- How the set shows itself. -/
def shape (s : LockedSet κ) : Shape :=
  .record "LockedSet"
    [("strategy", .word s.members.kind.name), ("len", .count s.size),
      ("allocated", .flag s.isAllocated)]

end LockedSet

end Containers
