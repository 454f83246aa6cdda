import Containers.Map.Table

/-!
# Differences of tables

`MapDiff.between new old equal` says what has to be done to `old` for it to have the contents of
`new`: which entries to store and which keys to remove.  A value counts as unchanged when
`equal oldValue newValue` holds, in this argument order, so entries whose values are merely close
can be left alone.
-/

set_option autoImplicit false

namespace Containers

/-- What two tables differ in. -/
structure MapDiff (κ ν : Type) [BEq κ] where
  /-- Entries of the new table whose key is new or whose value has changed. -/
  addedOrModified : Table κ ν
  /-- Entries of the old table whose key is gone. -/
  removed : Table κ ν

namespace MapDiff

variable {κ ν : Type} [BEq κ]

/-- No difference. -/
def empty : MapDiff κ ν := ⟨.empty, .empty⟩

instance : Inhabited (MapDiff κ ν) := ⟨empty⟩

/-- Whether there is no difference. -/
def isEmpty (d : MapDiff κ ν) : Bool := d.addedOrModified.isEmpty && d.removed.isEmpty

/-- What has to be done to `old` for it to have the contents of `new`. -/
def between (new old : Table κ ν) (equal : ν → ν → Bool) : MapDiff κ ν where
  addedOrModified := new.filter fun e =>
    match old.find? e.1 with
    | some previous => !equal previous e.2
    | none => true
  removed := old.filter fun e => !new.contains e.1

/-- Carries out a difference: removals first. -/
def applyTo (d : MapDiff κ ν) (old : Table κ ν) : Table κ ν :=
  (d.removed.keys.foldl (fun t k => t.erase k) old).insertAll d.addedOrModified.entries

/-- Whether two differences have equal entries. -/
def sameAs [BEq ν] (d d' : MapDiff κ ν) : Bool :=
  d.addedOrModified.sameAs d'.addedOrModified && d.removed.sameAs d'.removed

end MapDiff

end Containers
