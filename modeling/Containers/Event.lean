/-!
# Events

Some operations report housekeeping that no answer shows: a queue that moves its live elements
together, a sharded buffer that is built or flushed.  An `Event` is such a report as data; its
level, its wording and its fields are functions on it.

A queue that moves its elements also reports how much room its array had.  How much room an array takes
beyond what it needs is nobody's promise, so that figure is left out.
-/

set_option autoImplicit false

namespace Containers

/-- How much an event matters. -/
inductive Level where
  | debug
  | trace
  deriving DecidableEq

/-- How a level is written. -/
def Level.name : Level → String
  | .debug => "DEBUG"
  | .trace => "TRACE"

/-- A report about housekeeping. -/
inductive Event where
  /-- A queue drops the `head` slots it has consumed and keeps its `live` elements.  The room it had is not
  part of the event. -/
  | compacting (head live : Nat)
  /-- A shard count that cannot be was replaced by one that can. -/
  | coercedShardCount (requested shards : UInt64)
  /-- A sharded buffer is about to be set up. -/
  | buildingShards (shards initialCapacity : UInt64)
  /-- A sharded buffer has handed out its contents. -/
  | flushedShards (items : Nat)
  deriving DecidableEq

namespace Event

/-- Traces follow single operations, debug events the life of a container. -/
def level : Event → Level
  | .compacting .. | .flushedShards .. => .trace
  | .coercedShardCount .. | .buildingShards .. => .debug

/-- The wording of an event. -/
def message : Event → String
  | .compacting .. => "compacting queue storage"
  | .coercedShardCount .. => "coerced shard count"
  | .buildingShards .. => "building sharded buffer"
  | .flushedShards .. => "flushed sharded buffer"

/-- The figures an event carries, by name, except for room. -/
def fields : Event → List (String × Nat)
  | .compacting head live => [("head", head), ("live", live)]
  | .coercedShardCount requested shards =>
    [("requested", requested.toNat), ("shards", shards.toNat)]
  | .buildingShards shards capacity =>
    [("shards", shards.toNat), ("initial_capacity", capacity.toNat)]
  | .flushedShards items => [("items", items)]

end Event

end Containers
