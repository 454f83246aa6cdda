import Containers.Map.Any
import Containers.Set.Concurrent
import Containers.Set.Locked

/-!
# Sets of any kind

`AnySet` is a set whose kind is only known when the program runs.
-/

set_option autoImplicit false

namespace Containers

/-- A set of any kind, given the table that concurrent ones are kept in. -/
inductive AnySet (κ θ : Type) [BEq κ] where
  | locked (s : LockedSet κ)
  | concurrent (s : ConcurrentSet θ)

namespace AnySet

variable {κ θ τ : Type} [BEq κ] [ConcurrentTable θ κ Unit]

/-- A set without members. -/
def empty : TableKind → AnySet κ θ
  | .locked lock => .locked (.empty lock)
  | .concurrent => .concurrent .empty

/-- The set of the members of a list. -/
def ofList (kind : TableKind) (ks : List κ) : AnySet κ θ :=
  match kind with
  | .locked lock => .locked (.ofList lock ks)
  | .concurrent => .concurrent (.ofList ks)

/-- Puts a call to the set. -/
def run (c : SetCall κ) : AnySet κ θ → Outcome (AnySet κ θ) Empty (SetReply κ)
  | .locked s => (s.run c).mapState .locked
  | .concurrent s => (s.run c).mapState .concurrent

/-- The number of members. -/
def size : AnySet κ θ → Nat
  | .locked s => s.size
  | .concurrent s => s.size

/-- A copy of the members. -/
def toArray : AnySet κ θ → Array κ
  | .locked s => s.toArray
  | .concurrent s => s.toArray

/-- A copy of the members to be consumed. -/
def all (s : AnySet κ θ) : Snapshot κ := .ofArray s.toArray

/-- Visits a copy of the members; the visitor may act on the set. -/
def range (visitor : κ → AnySet κ θ × τ → Outcome (AnySet κ θ × τ) Empty Bool)
    (s : AnySet κ θ) (t : τ) : Outcome (AnySet κ θ × τ) Empty (List κ) :=
  visit visitor s.toArray.toList (s, t)

/-- How the set shows itself. -/
def shape : AnySet κ θ → Shape
  | .locked s => s.shape
  | .concurrent s => s.shape

end AnySet

end Containers
