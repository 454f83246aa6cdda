import Containers.Map.Concurrent
import Containers.Map.Locked

/-!
# Maps of any kind

`AnyMap` is a map whose kind is only known when the program runs.  What can be asked of two maps at
once is asked here: `AnyMap.equals` compares the contents of a map with those of a peer, which is
either the map itself or another one.  A map equals itself whatever the test on values says; another
map has to have equal keys, and under each of them a value that the test accepts, with the value of
the left map as the left argument.
-/

set_option autoImplicit false

namespace Containers

/-- The kinds of map and of set. -/
inductive TableKind where
  /-- Behind a lock of this kind. -/
  | locked (lock : LockKind)
  /-- In a table for many users. -/
  | concurrent
  deriving DecidableEq

/-- A map of any kind, given the table that concurrent ones are kept in. -/
inductive AnyMap (κ ν θ : Type) [BEq κ] where
  | locked (m : LockedMap κ ν)
  | concurrent (m : ConcurrentMap θ ν)

/-- What a map is compared with. -/
inductive MapPeer (κ ν θ : Type) [BEq κ] where
  /-- The very same map. -/
  | itself
  /-- Another map. -/
  | other (m : AnyMap κ ν θ)

namespace AnyMap

variable {κ ν θ τ : Type} [BEq κ] [ConcurrentTable θ κ ν]

/-- A map without entries and without an equality. -/
def empty : TableKind → AnyMap κ ν θ
  | .locked lock => .locked (.empty lock)
  | .concurrent => .concurrent .empty

/-- A map without entries. -/
def withEquality (kind : TableKind) (equality : Equality ν) : AnyMap κ ν θ :=
  match kind with
  | .locked lock => .locked (.withEquality lock equality)
  | .concurrent => .concurrent (.withEquality equality)

/-- A map made of a table. -/
def ofTable (kind : TableKind) (t : Table κ ν) (equality : Option (Equality ν)) : AnyMap κ ν θ :=
  match kind with
  | .locked lock => .locked (.ofTable lock t equality)
  | .concurrent => .concurrent (.ofTable t equality)

/-- A map of entries that are stored one after another, without an equality. -/
def ofList (kind : TableKind) (es : List (κ × ν)) : AnyMap κ ν θ :=
  match kind with
  | .locked lock => .locked (.ofList lock es)
  | .concurrent => .concurrent (.ofList es)

/-- Puts a call to the map. -/
def run (c : MapCall κ ν) : AnyMap κ ν θ → Outcome (AnyMap κ ν θ) Empty (MapReply κ ν)
  | .locked m => (m.run c).mapState .locked
  | .concurrent m => (m.run c).mapState .concurrent

/-- The number of entries. -/
def size : AnyMap κ ν θ → Nat
  | .locked m => m.size
  | .concurrent m => m.size

/-- A copy of all entries as one table. -/
def getAll : AnyMap κ ν θ → Table κ ν
  | .locked m => m.getAll
  | .concurrent m => m.getAll

/-- A copy of the entries to be consumed. -/
def all : AnyMap κ ν θ → Snapshot (κ × ν)
  | .locked m => m.all
  | .concurrent m => m.all

/-- A copy of the keys to be consumed. -/
def keys : AnyMap κ ν θ → Snapshot κ
  | .locked m => m.keys
  | .concurrent m => m.keys

/-- A copy of the values to be consumed. -/
def values : AnyMap κ ν θ → Snapshot ν
  | .locked m => m.values
  | .concurrent m => m.values

/-- Visits a copy of the entries; the visitor may act on the map. -/
def range (visitor : κ × ν → AnyMap κ ν θ × τ → Outcome (AnyMap κ ν θ × τ) Empty Bool)
    (m : AnyMap κ ν θ) (t : τ) : Outcome (AnyMap κ ν θ × τ) Empty (List (κ × ν)) :=
  visit visitor m.all.slice.toList (m, t)

/-- Whether a peer has the same contents as far as the test on values can tell. -/
def equals (m : AnyMap κ ν θ) (peer : MapPeer κ ν θ) (eq : ν → ν → Bool) : Bool :=
  match peer with
  | .itself => true
  | .other m' =>
    if m.size == m'.size then
      let mine := m.getAll
      let theirs := m'.getAll
      mine.size == theirs.size && mine.entries.all fun e =>
        match theirs.find? e.1 with
        | some v => eq e.2 v
        | none => false
    else false

/-- How the map shows itself. -/
def shape : AnyMap κ ν θ → Shape
  | .locked m => m.shape
  | .concurrent m => m.shape

end AnyMap

end Containers
