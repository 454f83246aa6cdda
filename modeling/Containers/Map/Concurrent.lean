import Containers.Equality
import Containers.Map.Call
import Containers.Map.ConcurrentTable
import Containers.Map.Table
import Containers.Outcome
import Containers.Shape
import Containers.Snapshot

/-!
# Concurrent maps

A `ConcurrentMap` is a concurrent table, whichever one that is, with an equality of values beside it if one
was attached.  It understands what a locked map understands.

Batches are not done in one go: `ConcurrentMap.getMany` looks each key up for itself, and
`ConcurrentMap.setMany` stores each entry for itself.
-/

set_option autoImplicit false

namespace Containers

/-- A map for many users. -/
structure ConcurrentMap (θ ν : Type) where
  /-- The entries, in a table for many users. -/
  table : θ
  /-- When two values count as equal, if that is known. -/
  equality : Option (Equality ν)

namespace ConcurrentMap

variable {κ ν θ : Type} [ConcurrentTable θ κ ν]

/-- A map without entries and without an equality. -/
def empty : ConcurrentMap θ ν := ⟨ConcurrentTable.empty, none⟩

/-- A map without entries. -/
def withEquality (equality : Equality ν) : ConcurrentMap θ ν :=
  ⟨ConcurrentTable.empty, some equality⟩

/-- A map that the entries of a table are moved to. -/
def ofTable [BEq κ] (t : Table κ ν) (equality : Option (Equality ν)) : ConcurrentMap θ ν :=
  ⟨ConcurrentTable.ofList t.entries, equality⟩

/-- A map of entries that are stored one after another, without an equality. -/
def ofList (es : List (κ × ν)) : ConcurrentMap θ ν := ⟨ConcurrentTable.ofList es, none⟩

/-- The value stored under a key. -/
def get (k : κ) (m : ConcurrentMap θ ν) : Option ν := ConcurrentTable.find? m.table k

/-- Stores a value under a key. -/
def set (k : κ) (v : ν) (m : ConcurrentMap θ ν) : ConcurrentMap θ ν :=
  ⟨(ConcurrentTable.insert k v m.table).2, m.equality⟩

/-- Removes a key; answers whether it was present. -/
def delete (k : κ) (m : ConcurrentMap θ ν) : Bool × ConcurrentMap θ ν :=
  let removed := ConcurrentTable.remove k m.table
  (removed.1.isSome, ⟨removed.2, m.equality⟩)

/-- The number of entries. -/
def size (m : ConcurrentMap θ ν) : Nat := ConcurrentTable.size m.table

/-- Whether there are no entries. -/
def isEmpty (m : ConcurrentMap θ ν) : Bool := m.size == 0

/-- Drops all entries. -/
def clear (m : ConcurrentMap θ ν) : ConcurrentMap θ ν :=
  ⟨ConcurrentTable.clear m.table, m.equality⟩

/-- Replaces the value under a key if it equals `old`; answers whether it was replaced.  The stored
value is the left argument of the equality. -/
def compareAndSwap (k : κ) (old new : ν) (m : ConcurrentMap θ ν) :
    Outcome (ConcurrentMap θ ν) Empty Bool :=
  match ConcurrentTable.find? m.table k with
  | none => .done m false
  | some current =>
    match m.equality with
    | none => .fail m .missingEquality
    | some equality =>
      if equality.holds current old then
        .done ⟨ConcurrentTable.replace k new m.table, m.equality⟩ true
      else .done m false

/-- Stores a value and hands out the one it displaces. -/
def swap (k : κ) (v : ν) (m : ConcurrentMap θ ν) : Option ν × ConcurrentMap θ ν :=
  let stored := ConcurrentTable.insert k v m.table
  (stored.1, ⟨stored.2, m.equality⟩)

/-- Hands out the value under a key, or else stores one; answers whether it was there. -/
def loadOrStore (k : κ) (v : ν) (m : ConcurrentMap θ ν) : (ν × Bool) × ConcurrentMap θ ν :=
  match ConcurrentTable.find? m.table k with
  | some existing => ((existing, true), m)
  | none => ((v, false), m.set k v)

/-- Removes a key and hands out its value. -/
def loadAndDelete (k : κ) (m : ConcurrentMap θ ν) : Option ν × ConcurrentMap θ ν :=
  let removed := ConcurrentTable.remove k m.table
  (removed.1.map Prod.snd, ⟨removed.2, m.equality⟩)

/-- A copy of all entries as one table. -/
def getAll [BEq κ] (m : ConcurrentMap θ ν) : Table κ ν := .ofList (ConcurrentTable.entries m.table)

/-- What is stored under the keys asked for, spelled as they were asked for. -/
def getMany [BEq κ] (ks : List κ) (m : ConcurrentMap θ ν) : Table κ ν :=
  .ofList (ks.filterMap fun k => (m.get k).map fun v => (k, v))

/-- Stores entries one after another. -/
def setMany (es : List (κ × ν)) (m : ConcurrentMap θ ν) : ConcurrentMap θ ν :=
  es.foldl (fun m e => m.set e.1 e.2) m

/-- A copy of the entries to be consumed. -/
def all (m : ConcurrentMap θ ν) : Snapshot (κ × ν) :=
  .ofArray (ConcurrentTable.entries m.table).toArray

/-- A copy of the keys to be consumed. -/
def keys (m : ConcurrentMap θ ν) : Snapshot κ :=
  .ofArray ((ConcurrentTable.entries m.table).map Prod.fst).toArray

/-- A copy of the values to be consumed. -/
def values (m : ConcurrentMap θ ν) : Snapshot ν :=
  .ofArray ((ConcurrentTable.entries m.table).map Prod.snd).toArray

/-- Puts a call to the map. -/
def run [BEq κ] (c : MapCall κ ν) (m : ConcurrentMap θ ν) :
    Outcome (ConcurrentMap θ ν) Empty (MapReply κ ν) :=
  match c with
  | .get k => .done m (.value (m.get k))
  | .set k v => .done (m.set k v) .done
  | .delete k => .done (m.delete k).2 (.flag (m.delete k).1)
  | .size => .done m (.count m.size)
  | .isEmpty => .done m (.flag m.isEmpty)
  | .clear => .done m.clear .done
  | .compareAndSwap k old new => (m.compareAndSwap k old new).map .flag
  | .swap k v => .done (m.swap k v).2 (.value (m.swap k v).1)
  | .loadOrStore k v =>
    .done (m.loadOrStore k v).2 (.loaded (m.loadOrStore k v).1.1 (m.loadOrStore k v).1.2)
  | .loadAndDelete k => .done (m.loadAndDelete k).2 (.value (m.loadAndDelete k).1)
  | .getAll => .done m (.entries m.getAll.entries)
  | .getMany ks => .done m (.entries (m.getMany ks).entries)
  | .setMany es => .done (m.setMany es) .done
  | .all => .done m (.entries m.all.slice.toList)
  | .keys => .done m (.keys m.keys.slice.toList)
  | .values => .done m (.values m.values.slice.toList)

/-- How the map shows itself. -/
def shape (m : ConcurrentMap θ ν) : Shape :=
  .record "ConcurrentMap" [("len", .count m.size), ("equality", .flag m.equality.isSome)]

/-- Storing entry by entry is storing all of them. -/
theorem setMany_eq (es : List (κ × ν)) (m : ConcurrentMap θ ν) :
    m.setMany es = ⟨ConcurrentTable.insertAll es m.table, m.equality⟩ := by
  induction es generalizing m with
  | nil => rfl
  | cons e es ih => exact ih (m.set e.1 e.2)

end ConcurrentMap

end Containers
