import Containers.Buffer.Config
import Containers.Fault
import Containers.Lock
import Containers.Snapshot

/-!
# Buffers behind a lock

A buffer collects elements until somebody takes them all at once.  `LockedBuffer` is an array behind
one lock.  Room can be asked for beforehand and shows nowhere, except that an array always takes
less than `roomLimit` bytes and asking for more room than that is a fault.  How many bytes something takes
in an array depends on its type, and elements may take none; a `Footprint` has the figures.

* `LockedBuffer.append` and `extend` add elements at the end.
* `LockedBuffer.flush` takes everything and leaves nothing; `peek` copies everything.
-/

set_option autoImplicit false

namespace Containers

/-- No array takes this many bytes. -/
def roomLimit : Nat := 1 <<< 63

/-- Whether an array of this many parts of this many bytes each can be asked for. -/
def hasRoom (parts bytes : Nat) : Bool := parts * bytes < roomLimit

/-- How many bytes of an array the parts of a buffer take. -/
structure Footprint where
  /-- An element. -/
  element : Nat
  /-- A shard.  It may take more than it needs, so that no two shards share a line of the processor's
  cache. -/
  shard : Nat

/-- A buffer behind a lock. -/
structure LockedBuffer (α : Type) where
  /-- The elements and their lock. -/
  items : Locked (Array α)

namespace LockedBuffer

variable {α : Type}

/-- A buffer without elements. -/
def empty (kind : LockKind) : LockedBuffer α := ⟨⟨kind, #[]⟩⟩

/-- A buffer without elements that has room for `capacity` of them. -/
def ofCapacity (bytes : Footprint) (kind : LockKind) (capacity : UInt64) :
    Except Fault (LockedBuffer α) :=
  if hasRoom capacity.toNat bytes.element then .ok (empty kind) else .error .capacityOverflow

/-- A buffer of the given sizing, of which only the room matters here. -/
def ofConfig (bytes : Footprint) (kind : LockKind) (config : BufferConfig) :
    Except Fault (LockedBuffer α) :=
  ofCapacity bytes kind config.initialCapacity

/-- A buffer of given elements. -/
def ofArray (kind : LockKind) (items : Array α) : LockedBuffer α := ⟨⟨kind, items⟩⟩

/-- Adds an element at the end. -/
def append (x : α) (b : LockedBuffer α) : LockedBuffer α :=
  match b with
  | ⟨items⟩ => ⟨items.modify fun items => items.push x⟩

/-- Adds elements one after another at the end; no elements, no access. -/
def extend (xs : List α) (b : LockedBuffer α) : LockedBuffer α :=
  if xs.isEmpty then b
  else
    match b with
    | ⟨items⟩ => ⟨items.modify fun items => items ++ xs⟩

/-- Takes all elements and leaves none. -/
def flush (b : LockedBuffer α) : Array α × LockedBuffer α :=
  let taken := b.items.write fun items => (items, #[])
  (taken.1, ⟨taken.2⟩)

/-- A copy of all elements. -/
def peek (b : LockedBuffer α) : Array α := b.items.read id

/-- The number of elements. -/
def size (b : LockedBuffer α) : Nat := b.items.read Array.size

/-- Whether there are no elements. -/
def isEmpty (b : LockedBuffer α) : Bool := b.size == 0

/-- A copy of all elements to be consumed. -/
def all (b : LockedBuffer α) : Snapshot α := .ofArray b.peek

/-- How the buffer shows itself. -/
def shape (b : LockedBuffer α) : Shape :=
  .record "LockedBuffer" [("strategy", .word b.items.kind.name), ("len", .count b.size)]

@[simp] theorem peek_append (x : α) (b : LockedBuffer α) : (b.append x).peek = b.peek.push x := rfl

@[simp] theorem peek_extend (xs : List α) (b : LockedBuffer α) :
    (b.extend xs).peek = b.peek ++ xs := by
  unfold extend
  cases xs with
  | nil => simp
  | cons x xs => rfl

@[simp] theorem flush_fst (b : LockedBuffer α) : b.flush.1 = b.peek := rfl

@[simp] theorem peek_flush (b : LockedBuffer α) : b.flush.2.peek = #[] := rfl

end LockedBuffer

end Containers
