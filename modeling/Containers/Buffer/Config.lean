import Containers.Shape

/-!
# Sizing of buffers

How large a buffer is made, and in how many parts, is decided when it is built.  A `BufferConfig`
holds the two figures as machine words.  A buffer has at least one part: a request for none counts
as a request for one (`BufferConfig.effectiveShards`).
-/

set_option autoImplicit false

namespace Containers

/-- The sizing of a buffer. -/
structure BufferConfig where
  /-- How many elements each part has room for at first. -/
  initialCapacity : UInt64 := 0
  /-- How many parts are asked for. -/
  shardCount : UInt64 := 1
  deriving DecidableEq

namespace BufferConfig

instance : Inhabited BufferConfig := ⟨{}⟩

/-- The same sizing with other room. -/
def withInitialCapacity (capacity : UInt64) (c : BufferConfig) : BufferConfig :=
  { c with initialCapacity := capacity }

/-- The same sizing with another number of parts. -/
def withShardCount (shards : UInt64) (c : BufferConfig) : BufferConfig :=
  { c with shardCount := shards }

/-- How many parts a buffer of this sizing has. -/
def effectiveShards (c : BufferConfig) : UInt64 := max c.shardCount 1

/-- How a sizing shows itself. -/
def shape (c : BufferConfig) : Shape :=
  .record "BufferConfig"
    [("initial_capacity", .count c.initialCapacity.toNat),
      ("shard_count", .count c.shardCount.toNat)]

theorem effectiveShards_pos (c : BufferConfig) : 0 < c.effectiveShards.toNat := by
  have h : (1 : UInt64) ≤ max c.shardCount 1 := by
    show (1 : UInt64) ≤ if c.shardCount ≤ 1 then 1 else c.shardCount
    split
    · exact UInt64.le_refl 1
    · rename_i h
      exact UInt64.le_of_lt (UInt64.not_le.1 h)
  have h' := UInt64.le_iff_toNat_le.1 h
  exact h'

end BufferConfig

end Containers
