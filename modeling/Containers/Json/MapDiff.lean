import Containers.Json.Object
import Containers.Json.Skip
import Containers.Map.Diff

/-!
# Differences as JSON

The document of a difference between two tables of values under text keys is an object with the
members `added_or_modified` and `removed`, or a list of the two in this order.  Both are objects,
and both are required.  Within either of them a key may come twice, and then its last value counts;
other members of the outer object are passed over, but naming one of the two twice is a mistake.

Tables are written with their keys in the order of code points, so that a difference has one text.
-/

set_option autoImplicit false

namespace Containers.Json

/-! ## Tables -/

/-- How deeply the values of a table inside a document may be nested. -/
def valueBudget : Nat := nestingLimit - 2

/-- Reads an entry of a table from the colon on. -/
def readEntry (t : Table String Value) (key : String) : Reader (Table String Value) := fun cs =>
  (readMemberValue (readValue valueBudget) cs).map fun r => (t.insert key r.1, r.2)

/-- Reads a table. -/
def readTable : Reader (Table String Value) := fun cs =>
  match skipBlank cs with
  | [] => .error .unfinished
  | c :: rest =>
    if c = '\x7b' then readMembers readKey readEntry (rest.length + 1) true .empty rest
    else .error (readOther (c :: rest))

/-- The entries of a table in the order of their keys. -/
def sortedEntries (t : Table String Value) : List (String × Value) :=
  t.entries.mergeSort fun a b => (compare a.1 b.1).isLE

/-- The compact JSON text of a table. -/
def writeTable (t : Table String Value) : List Char :=
  writeObject ((sortedEntries t).map fun e => (e.1, write e.2))

/-! ## Differences -/

/-- The tables that a document has named so far. -/
structure NamedTables where
  addedOrModified : Option (Table String Value) := none
  removed : Option (Table String Value) := none

/-- Reads a member of a difference from the colon on.  A second member of one name is noticed before
its value is looked at. -/
def readSide (n : NamedTables) (key : String) : Reader NamedTables := fun cs =>
  if key = "added_or_modified" then
    if n.addedOrModified.isSome then .error .mismatched
    else (readMemberValue readTable cs).map fun r => ({ n with addedOrModified := some r.1 }, r.2)
  else if key = "removed" then
    if n.removed.isSome then .error .mismatched
    else (readMemberValue readTable cs).map fun r => ({ n with removed := some r.1 }, r.2)
  else skipMemberValue skipAny n cs

/-- The difference of two tables that both have been named. -/
def NamedTables.diff (n : NamedTables) : Except ReadFault (MapDiff String Value) :=
  match n.addedOrModified, n.removed with
  | some added, some removed => .ok ⟨added, removed⟩
  | _, _ => .error .mismatched

/-- Reads the next of a fixed number of tables in a list. -/
def readNextTable (first : Bool) : Reader (Table String Value) := fun cs =>
  match nextElement first cs with
  | .error f => .error f
  | .ok (.closed _) => .error .mismatched
  | .ok (.part rest) => readTable rest

/-- Reads a difference in the form of a list, after the opening bracket. -/
def readSideList : Reader (MapDiff String Value) := fun cs =>
  match readNextTable true cs with
  | .error f => .error f
  | .ok (added, rest) =>
    match readNextTable false rest with
    | .error f => .error f
    | .ok (removed, rest) => (readListEnd rest).map fun r => (⟨added, removed⟩, r.2)

/-- Reads a difference. -/
def readDiff : Reader (MapDiff String Value) := fun cs =>
  match skipBlank cs with
  | [] => .error .unfinished
  | c :: rest =>
    if c = '[' then readSideList rest
    else if c = '\x7b' then
      match readMembers readKey readSide (rest.length + 1) true {} rest with
      | .error f => .error f
      | .ok (named, rest) => named.diff.map fun d => (d, rest)
    else .error (readOther (c :: rest))

/-- The difference that a text says. -/
def parseDiff (text : String) : Except ReadFault (MapDiff String Value) :=
  readDocument readDiff text.toList

/-- The compact JSON text of a difference. -/
def writeDiff (d : MapDiff String Value) : String :=
  String.ofList (writeObject
    [("added_or_modified", writeTable d.addedOrModified), ("removed", writeTable d.removed)])

end Containers.Json
