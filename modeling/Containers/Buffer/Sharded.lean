import Containers.Buffer.Locked
import Containers.Event
import Containers.Outcome

/-!
# Sharded buffers

A `ShardedBuffer` spreads its additions over several buffers.  A counter, a machine word that wraps,
is advanced by every addition, and its remainder says which shard the addition goes to; a batch goes
to one shard as a whole, and an empty batch is no addition.  Reading walks through the shards in
order, so elements come out shard by shard and in the sequence of their arrival within each.

Flushing empties the shards and leaves the counter where it is.
-/

set_option autoImplicit false

namespace Containers

/-- A buffer in several parts. -/
structure ShardedBuffer (α : Type) where
  /-- The parts. -/
  shards : Array (LockedBuffer α)
  /-- The number of additions so far, as a word. -/
  next : UInt64
  shards_pos : 0 < shards.size

namespace ShardedBuffer

variable {α : Type}

/-- Builds the shards of a sizing. -/
def ofConfig? (bytes : Footprint) (config : BufferConfig) : Except Fault (ShardedBuffer α) :=
  if hasRoom config.effectiveShards.toNat bytes.shard then
    (LockedBuffer.ofCapacity bytes .readWrite config.initialCapacity).map fun shard =>
      ⟨Array.replicate config.effectiveShards.toNat shard, 0, by
        rw [Array.size_replicate]; exact config.effectiveShards_pos⟩
  else .error .capacityOverflow

/-- What is reported about a sizing before anything is built. -/
def announce (config : BufferConfig) : Array Event :=
  let shards := config.effectiveShards
  let building := #[.buildingShards shards config.initialCapacity]
  if shards = config.shardCount then building
  else #[.coercedShardCount config.shardCount shards] ++ building

/-- A buffer of the given sizing, and the reports made on the way. -/
def ofConfig (bytes : Footprint) (config : BufferConfig) :
    Except Fault (ShardedBuffer α) × Array Event :=
  (ofConfig? bytes config, announce config)

/-- The number of shards. -/
def shardCount (b : ShardedBuffer α) : Nat := b.shards.size

/-- The shard that the next addition goes to. -/
def nextShard (b : ShardedBuffer α) : Nat := b.next.toNat % b.shards.size

/-- An addition: the next shard changes and the counter advances. -/
def addition (f : LockedBuffer α → LockedBuffer α) (b : ShardedBuffer α) : ShardedBuffer α :=
  match b with
  | ⟨shards, next, h⟩ =>
    ⟨shards.modify (next.toNat % shards.size) f, next + 1, by rw [Array.size_modify]; exact h⟩

/-- Adds an element to the next shard. -/
def append (x : α) (b : ShardedBuffer α) : ShardedBuffer α := b.addition (LockedBuffer.append x)

/-- Adds elements to the next shard, all to the same one; no elements, no addition. -/
def extend (xs : List α) (b : ShardedBuffer α) : ShardedBuffer α :=
  if xs.isEmpty then b else b.addition (LockedBuffer.extend xs)

/-- A copy of all elements, shard by shard. -/
def peek (b : ShardedBuffer α) : Array α :=
  b.shards.foldl (fun out shard => out ++ shard.peek) #[]

/-- Takes all elements, shard by shard, and leaves none. -/
def flush (b : ShardedBuffer α) : Outcome (ShardedBuffer α) Event (Array α) :=
  let out := b.shards.foldl (fun out shard => out ++ shard.flush.1) #[]
  ⟨⟨b.shards.map fun shard => shard.flush.2, b.next, by
      rw [Array.size_map]; exact b.shards_pos⟩,
    .ok out, #[.flushedShards out.size]⟩

/-- The number of elements. -/
def size (b : ShardedBuffer α) : Nat := b.shards.foldl (fun n shard => n + shard.size) 0

/-- Whether there are no elements. -/
def isEmpty (b : ShardedBuffer α) : Bool := b.size == 0

/-- A copy of all elements to be consumed. -/
def all (b : ShardedBuffer α) : Snapshot α := .ofArray b.peek

/-- How the buffer shows itself. -/
def shape (b : ShardedBuffer α) : Shape :=
  .record "ShardedBuffer"
    [("shards", .count b.shards.size), ("shard", .list (b.shards.toList.map LockedBuffer.shape))]

end ShardedBuffer

end Containers
