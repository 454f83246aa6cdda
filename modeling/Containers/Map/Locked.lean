import Containers.Equality
import Containers.Lock
import Containers.Map.Call
import Containers.Shape
import Containers.Snapshot

/-!
# Maps behind a lock

A `LockedMap` is a table behind one lock, with an equality of values beside it if one was attached.
The equality is used by `LockedMap.compareAndSwap` only: a missing equality matters only once the
key has turned out to be present, and it is a fault that leaves the table as it was.

Batches are read and written in one go: `getMany` looks all keys up in one table, and `setMany`
stores all entries before anybody else sees the table.
-/

set_option autoImplicit false

namespace Containers

/-- A map behind a lock. -/
structure LockedMap (κ ν : Type) [BEq κ] where
  /-- The entries and their lock. -/
  entries : Locked (Table κ ν)
  /-- When two values count as equal, if that is known. -/
  equality : Option (Equality ν)

namespace LockedMap

variable {κ ν τ : Type} [BEq κ]

/-- A map that wraps a table. -/
def ofTable (kind : LockKind) (t : Table κ ν) (equality : Option (Equality ν)) : LockedMap κ ν :=
  ⟨⟨kind, t⟩, equality⟩

/-- A map without entries and without an equality. -/
def empty (kind : LockKind) : LockedMap κ ν := ofTable kind .empty none

/-- A map without entries. -/
def withEquality (kind : LockKind) (equality : Equality ν) : LockedMap κ ν :=
  ofTable kind .empty (some equality)

/-- A map of entries that are stored one after another, without an equality. -/
def ofList (kind : LockKind) (es : List (κ × ν)) : LockedMap κ ν := ofTable kind (.ofList es) none

/-- Works on the table under the lock. -/
def write {β : Type} (m : LockedMap κ ν) (f : Table κ ν → β × Table κ ν) : β × LockedMap κ ν :=
  let done := m.entries.write f
  (done.1, ⟨done.2, m.equality⟩)

/-- The value stored under a key. -/
def get (k : κ) (m : LockedMap κ ν) : Option ν := m.entries.read (·.find? k)

/-- Stores a value under a key. -/
def set (k : κ) (v : ν) (m : LockedMap κ ν) : LockedMap κ ν :=
  ⟨m.entries.modify (·.insert k v), m.equality⟩

/-- Removes a key; answers whether it was present. -/
def delete (k : κ) (m : LockedMap κ ν) : Bool × LockedMap κ ν :=
  m.write fun t => (t.contains k, t.erase k)

/-- The number of entries. -/
def size (m : LockedMap κ ν) : Nat := m.entries.read Table.size

/-- Whether there are no entries. -/
def isEmpty (m : LockedMap κ ν) : Bool := m.size == 0

/-- Drops all entries. -/
def clear (m : LockedMap κ ν) : LockedMap κ ν := ⟨m.entries.modify fun _ => .empty, m.equality⟩

/-- Replaces the value under a key if it equals `old`; answers whether it was replaced.  The stored
value is the left argument of the equality. -/
def compareAndSwap (k : κ) (old new : ν) (m : LockedMap κ ν) : Outcome (LockedMap κ ν) Empty Bool :=
  (m.entries.call fun t =>
    match t.find? k with
    | none => .done t false
    | some current =>
      match m.equality with
      | none => .fail t .missingEquality
      | some equality =>
        if equality.holds current old then .done (t.replace k new) true
        else .done t false).mapState fun entries => ⟨entries, m.equality⟩

/-- Stores a value and hands out the one it displaces. -/
def swap (k : κ) (v : ν) (m : LockedMap κ ν) : Option ν × LockedMap κ ν :=
  m.write fun t => (t.find? k, t.insert k v)

/-- Hands out the value under a key, or else stores one; answers whether it was there. -/
def loadOrStore (k : κ) (v : ν) (m : LockedMap κ ν) : (ν × Bool) × LockedMap κ ν :=
  m.write fun t =>
    match t.find? k with
    | some existing => ((existing, true), t)
    | none => ((v, false), t.insert k v)

/-- Removes a key and hands out its value. -/
def loadAndDelete (k : κ) (m : LockedMap κ ν) : Option ν × LockedMap κ ν :=
  m.write fun t => (t.find? k, t.erase k)

/-- A copy of the table. -/
def getAll (m : LockedMap κ ν) : Table κ ν := m.entries.read id

/-- What is stored under the keys asked for, spelled as they were asked for. -/
def getMany (ks : List κ) (m : LockedMap κ ν) : Table κ ν :=
  m.entries.read fun t => .ofList (ks.filterMap fun k => (t.find? k).map fun v => (k, v))

/-- Stores entries one after another; no entries, no access. -/
def setMany (es : List (κ × ν)) (m : LockedMap κ ν) : LockedMap κ ν :=
  if es.isEmpty then m else ⟨m.entries.modify (·.insertAll es), m.equality⟩

/-- A copy of the entries to be consumed. -/
def all (m : LockedMap κ ν) : Snapshot (κ × ν) := .ofArray (m.entries.read (·.entries.toArray))

/-- A copy of the keys to be consumed. -/
def keys (m : LockedMap κ ν) : Snapshot κ := .ofArray (m.entries.read (·.keys.toArray))

/-- A copy of the values to be consumed. -/
def values (m : LockedMap κ ν) : Snapshot ν := .ofArray (m.entries.read (·.values.toArray))

/-- Puts a call to the map. -/
def run (c : MapCall κ ν) (m : LockedMap κ ν) : Outcome (LockedMap κ ν) Empty (MapReply κ ν) :=
  match c with
  | .get k => .done m (.value (m.get k))
  | .set k v => .done (m.set k v) .done
  | .delete k => .done (m.delete k).2 (.flag (m.delete k).1)
  | .size => .done m (.count m.size)
  | .isEmpty => .done m (.flag m.isEmpty)
  | .clear => .done m.clear .done
  | .compareAndSwap k old new => (m.compareAndSwap k old new).map .flag
  | .swap k v => .done (m.swap k v).2 (.value (m.swap k v).1)
  | .loadOrStore k v =>
    .done (m.loadOrStore k v).2 (.loaded (m.loadOrStore k v).1.1 (m.loadOrStore k v).1.2)
  | .loadAndDelete k => .done (m.loadAndDelete k).2 (.value (m.loadAndDelete k).1)
  | .getAll => .done m (.entries m.getAll.entries)
  | .getMany ks => .done m (.entries (m.getMany ks).entries)
  | .setMany es => .done (m.setMany es) .done
  | .all => .done m (.entries m.all.slice.toList)
  | .keys => .done m (.keys m.keys.slice.toList)
  | .values => .done m (.values m.values.slice.toList)

/-- How the map shows itself. -/
def shape (m : LockedMap κ ν) : Shape :=
  .record "LockedMap"
    [("strategy", .word m.entries.kind.name), ("len", .count m.size),
      ("equality", .flag m.equality.isSome)]

end LockedMap

end Containers
