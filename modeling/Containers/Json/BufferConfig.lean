import Containers.Buffer.Config
import Containers.Json.Object
import Containers.Json.Skip

/-!
# Sizings as JSON

The document of a `BufferConfig` is an object with the members `initial_capacity` and `shard_count`,
or a list of the two figures in this order.  Figures may be missing, and then they are what nobody
asked for; an object may have other members, which are passed over.  Naming a figure twice is a
mistake.
-/

set_option autoImplicit false

namespace Containers.Json

/-- The figures that a document has named so far. -/
structure NamedFigures where
  initialCapacity : Option UInt64 := none
  shardCount : Option UInt64 := none

/-- The sizing of the named figures, and of the default ones for the rest. -/
def NamedFigures.config (n : NamedFigures) : BufferConfig :=
  let default : BufferConfig := {}
  ⟨n.initialCapacity.getD default.initialCapacity, n.shardCount.getD default.shardCount⟩

/-- Reads a member of a sizing from the colon on.  A second member of one name is noticed before its
value is looked at. -/
def readFigure (n : NamedFigures) (key : String) : Reader NamedFigures := fun cs =>
  if key = "initial_capacity" then
    if n.initialCapacity.isSome then .error .mismatched
    else (readMemberValue readWord cs).map fun r => ({ n with initialCapacity := some r.1 }, r.2)
  else if key = "shard_count" then
    if n.shardCount.isSome then .error .mismatched
    else (readMemberValue readWord cs).map fun r => ({ n with shardCount := some r.1 }, r.2)
  else skipMemberValue skipAny n cs

/-- Reads a sizing in the form of a list, after the opening bracket. -/
def readFigureList : Reader NamedFigures := fun cs =>
  match nextElement true cs with
  | .error f => .error f
  | .ok (.closed rest) => .ok ({}, rest)
  | .ok (.part rest) =>
    match readWord rest with
    | .error f => .error f
    | .ok (capacity, rest) =>
      match nextElement false rest with
      | .error f => .error f
      | .ok (.closed rest) => .ok ({ initialCapacity := some capacity }, rest)
      | .ok (.part rest) =>
        match readWord rest with
        | .error f => .error f
        | .ok (shards, rest) =>
          match readListEnd rest with
          | .error f => .error f
          | .ok (_, rest) => .ok (⟨some capacity, some shards⟩, rest)

/-- Reads a sizing. -/
def readConfig : Reader BufferConfig := fun cs =>
  match skipBlank cs with
  | [] => .error .unfinished
  | c :: rest =>
    if c = '[' then (readFigureList rest).map fun r => (r.1.config, r.2)
    else if c = '\x7b' then
      (readMembers readKey readFigure (rest.length + 1) true {} rest).map fun r =>
        (r.1.config, r.2)
    else .error (readOther (c :: rest))

/-- The sizing that a text says. -/
def parseConfig (text : String) : Except ReadFault BufferConfig :=
  readDocument readConfig text.toList

/-- The compact JSON text of a sizing. -/
def writeConfig (c : BufferConfig) : String :=
  String.ofList (writeObject
    [("initial_capacity", writeNat c.initialCapacity.toNat),
      ("shard_count", writeNat c.shardCount.toNat)])

end Containers.Json
