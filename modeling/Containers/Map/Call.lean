import Containers.Map.Table

/-!
# Calls on maps as data

`MapCall` is a question that every map understands and `MapReply` the answer to one.  The entries,
keys and values in a reply come in no particular order; two replies that differ in nothing else say
the same.
-/

set_option autoImplicit false

namespace Containers

/-- A call that every map understands. -/
inductive MapCall (κ ν : Type) where
  /-- Look a key up. -/
  | get (k : κ)
  /-- Store a value under a key. -/
  | set (k : κ) (v : ν)
  /-- Remove a key. -/
  | delete (k : κ)
  /-- Count the entries. -/
  | size
  /-- Ask whether there are no entries. -/
  | isEmpty
  /-- Drop all entries. -/
  | clear
  /-- Replace the value under a key if it equals a given one. -/
  | compareAndSwap (k : κ) (old new : ν)
  /-- Store a value and hand out the one it displaces. -/
  | swap (k : κ) (v : ν)
  /-- Look a key up and store a value if there is none. -/
  | loadOrStore (k : κ) (v : ν)
  /-- Remove a key and hand out its value. -/
  | loadAndDelete (k : κ)
  /-- Copy all entries into a table. -/
  | getAll
  /-- Look keys up and collect what is found into a table. -/
  | getMany (ks : List κ)
  /-- Store entries one after another. -/
  | setMany (es : List (κ × ν))
  /-- Copy all entries. -/
  | all
  /-- Copy all keys. -/
  | keys
  /-- Copy all values. -/
  | values

/-- The answer to a call on a map. -/
inductive MapReply (κ ν : Type) where
  /-- The call was carried out and has nothing to say. -/
  | done
  /-- A value, or none where there was none. -/
  | value (v : Option ν)
  /-- Whether something is the case. -/
  | flag (b : Bool)
  /-- A number of entries. -/
  | count (n : Nat)
  /-- A value, and whether it was there before. -/
  | loaded (v : ν) (found : Bool)
  /-- Entries. -/
  | entries (es : List (κ × ν))
  /-- Keys. -/
  | keys (ks : List κ)
  /-- Values. -/
  | values (vs : List ν)
  deriving DecidableEq

end Containers
