/-!
# Concurrent tables

A concurrent map keeps its entries in a table on which many users may work at once.  How such a table
spreads its entries, which of them an operation locks out, and in which order it lists them is its own
business, and a map does not depend on it.  So the table is a parameter here.

* `ConcurrentTable` is what a table has to be able to do.  Looking up hands out the whole entry, with the
  key as it is spelled in the table, and operations that displace or remove something hand that out.
* `LawfulConcurrentTable` is what is relied on.  What a table says is `ConcurrentTable.entryOf?`, and there
  is a law for each operation that says what becomes of it, in the words of `Containers.Map.Lookup`; the
  remaining laws are about the list of entries.

As in a plain table, a stored key is compared as the left argument, and a key asked for as the right one.
-/

set_option autoImplicit false

namespace Containers

/-- What a table for many users can do. -/
class ConcurrentTable (θ : Type) (κ ν : outParam Type) where
  /-- A table without entries. -/
  empty : θ
  /-- A table that takes in entries one after another. -/
  ofList : List (κ × ν) → θ
  /-- The entry whose key equals the given one. -/
  entryOf? : θ → κ → Option (κ × ν)
  /-- Stores a value under a key, and hands out the value it displaces. -/
  insert : κ → ν → θ → Option ν × θ
  /-- Writes a value into the entry of a key, if there is one. -/
  replace : κ → ν → θ → θ
  /-- Removes the entry of a key, and hands it out. -/
  remove : κ → θ → Option (κ × ν) × θ
  /-- Drops all entries. -/
  clear : θ → θ
  /-- The number of entries. -/
  size : θ → Nat
  /-- All entries, in an order of the table's own. -/
  entries : θ → List (κ × ν)

namespace ConcurrentTable

variable {θ κ ν : Type} [ConcurrentTable θ κ ν]

/-- The value stored under a key. -/
def find? (t : θ) (k : κ) : Option ν := (entryOf? t k).map Prod.snd

/-- Whether a key is present. -/
def contains (t : θ) (k : κ) : Bool := (entryOf? t k).isSome

/-- Stores entries one after another. -/
def insertAll (es : List (κ × ν)) (t : θ) : θ := es.foldl (fun t e => (insert e.1 e.2 t).2) t

end ConcurrentTable

open ConcurrentTable in
/-- What is relied on of a table for many users. -/
class LawfulConcurrentTable (θ : Type) {κ ν : Type} [BEq κ] [ConcurrentTable θ κ ν] : Prop where
  /-- A new table has no entries. -/
  entryOf?_empty (k : κ) : entryOf? (empty : θ) k = none
  /-- What a table has taken in is what would be stored in a new one. -/
  entryOf?_ofList (es : List (κ × ν)) (k : κ) :
    entryOf? (ofList es : θ) k = entryOf? (insertAll es empty : θ) k
  /-- Storing gives a key its new value and keeps the spelling that was there. -/
  entryOf?_insert (k k' : κ) (v : ν) (t : θ) : entryOf? (insert k v t).2 k' =
    if k == k' then some (((entryOf? t k).map Prod.fst).getD k, v) else entryOf? t k'
  /-- What is displaced is the value that was there. -/
  insert_fst (k : κ) (v : ν) (t : θ) : (insert k v t).1 = (entryOf? t k).map Prod.snd
  /-- Writing into an entry changes its value and not its key. -/
  entryOf?_replace (k k' : κ) (v : ν) (t : θ) : entryOf? (replace k v t) k' =
    if k == k' then (entryOf? t k).map fun e => (e.1, v) else entryOf? t k'
  /-- A removed key is absent, and nothing else has changed. -/
  entryOf?_remove (k k' : κ) (t : θ) :
    entryOf? (remove k t).2 k' = if k == k' then none else entryOf? t k'
  /-- What is removed is the entry that was there. -/
  remove_fst (k : κ) (t : θ) : (remove k t).1 = entryOf? t k
  /-- Afterwards no key is present. -/
  entryOf?_clear (k : κ) (t : θ) : entryOf? (clear t) k = none
  /-- An entry is found under the keys that equal its own, and only entries that are listed are found. -/
  entryOf?_eq_some_iff {t : θ} {k : κ} {e : κ × ν} :
    entryOf? t k = some e ↔ e ∈ entries t ∧ (e.1 == k) = true
  /-- No two entries that are listed have equal keys. -/
  distinct_entries (t : θ) : (entries t).Pairwise fun a b => (a.1 == b.1) = false
  /-- The number of entries is the length of their list. -/
  size_eq (t : θ) : size t = (entries t).length

end Containers
