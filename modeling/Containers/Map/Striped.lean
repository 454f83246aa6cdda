import Containers.Map.ConcurrentTable
import Containers.Map.Lookup

/-!
# Striped tables

One way to let many users work on a table is not to put all its entries behind one lock.  They are spread
over a fixed number of *stripes*, and the hash of a key says which stripe is its own; an operation on one
key looks at one stripe and leaves the others alone.  A `StripedTable` is such a family of tables, together
with the fact that every key is in its own stripe.

Equal keys have equal hashes, so they share a stripe, and a striped table holds what a single table
would hold: `StripedTable.entryOf?_insert`, `entryOf?_replace` and `entryOf?_erase` say so in
the words of `Containers.Map.Lookup`.  Whole-table reads go through the stripes in order.  So a striped
table is a lawful concurrent table if equal keys have equal hashes.
-/

set_option autoImplicit false

namespace Containers

/-- The number of stripes. -/
def stripeCount : Nat := 16

/-- The stripe that a key belongs to. -/
def stripeOf {κ : Type} [Hashable κ] (k : κ) : Fin stripeCount :=
  ⟨(hash k).toNat % stripeCount, Nat.mod_lt _ (by decide)⟩

/-- A finite map spread over stripes. -/
structure StripedTable (κ ν : Type) [BEq κ] [Hashable κ] where
  /-- The stripes. -/
  stripes : Vector (Table κ ν) stripeCount
  placed : ∀ (i : Nat) (h : i < stripeCount), ∀ e ∈ stripes[i].entries, (stripeOf e.1).val = i

namespace Table

variable {κ ν : Type} [BEq κ]

/-- Storing adds no key but the one stored under. -/
theorem key_of_mem_insert {k : κ} {v : ν} {t : Table κ ν} {e : κ × ν}
    (h : e ∈ (t.insert k v).entries) : e.1 ∈ t.keys ∨ e.1 = k :=
  key_of_mem_insertEntry h

theorem mem_keys_of_mem {t : Table κ ν} {e : κ × ν} (h : e ∈ t.entries) : e.1 ∈ t.keys :=
  List.mem_map_of_mem h

end Table

namespace StripedTable

variable {κ ν : Type} [BEq κ] [Hashable κ]

/-- A table without entries. -/
def empty : StripedTable κ ν :=
  ⟨Vector.replicate stripeCount .empty, by
    intro i h e he
    rw [Vector.getElem_replicate] at he
    exact absurd he List.not_mem_nil⟩

/-- The stripe of a key. -/
def stripe (t : StripedTable κ ν) (k : κ) : Table κ ν := t.stripes[stripeOf k]

/-- The keys of a stripe belong there. -/
theorem placed_stripe (t : StripedTable κ ν) (k : κ) {k' : κ} (h : k' ∈ (t.stripe k).keys) :
    stripeOf k' = stripeOf k := by
  obtain ⟨e, he, rfl⟩ := List.mem_map.1 h
  exact Fin.ext (t.placed _ _ e he)

/-- Works on the stripe of a key.  The work may add no key that belongs elsewhere. -/
def updateStripe (t : StripedTable κ ν) (k : κ) (u : Table κ ν)
    (h : ∀ k' ∈ u.keys, stripeOf k' = stripeOf k) : StripedTable κ ν :=
  ⟨t.stripes.set (stripeOf k) u, by
    intro i hi e he
    rw [Vector.getElem_set] at he
    split at he
    · rename_i heq
      rw [h e.1 (Table.mem_keys_of_mem he)]
      exact heq
    · exact t.placed i hi e he⟩

/-- The entry whose key equals the given one. -/
def entryOf? (t : StripedTable κ ν) (k : κ) : Option (κ × ν) := (t.stripe k).entryOf? k

/-- Stores a value under a key.  An equal key that is present stays as it is spelled. -/
def insert (k : κ) (v : ν) (t : StripedTable κ ν) : StripedTable κ ν :=
  t.updateStripe k ((t.stripe k).insert k v) fun k' hk' => by
    obtain ⟨e, he, rfl⟩ := List.mem_map.1 hk'
    rcases Table.key_of_mem_insert he with h | h
    · exact t.placed_stripe k h
    · rw [h]

/-- Replaces the value under a key that is present. -/
def replace (k : κ) (v : ν) (t : StripedTable κ ν) : StripedTable κ ν :=
  t.updateStripe k ((t.stripe k).replace k v) fun k' hk' => by
    rw [Table.keys_replace] at hk'
    exact t.placed_stripe k hk'

/-- Removes a key. -/
def erase (k : κ) (t : StripedTable κ ν) : StripedTable κ ν :=
  t.updateStripe k ((t.stripe k).erase k) fun k' hk' => by
    obtain ⟨e, he, rfl⟩ := List.mem_map.1 hk'
    exact t.placed_stripe k (Table.mem_keys_of_mem (List.mem_of_mem_eraseP he))

/-- The table of entries that are stored one after another. -/
def ofList (es : List (κ × ν)) : StripedTable κ ν := es.foldl (fun t e => t.insert e.1 e.2) empty

/-- All entries, stripe by stripe. -/
def entries (t : StripedTable κ ν) : List (κ × ν) := t.stripes.toList.flatMap Table.entries

/-- The number of entries, summed over the stripes. -/
def size (t : StripedTable κ ν) : Nat := (t.stripes.toList.map Table.size).foldr (· + ·) 0

/-- The number of entries is the length of the list of all entries. -/
theorem size_eq_length_entries (t : StripedTable κ ν) : t.size = t.entries.length := by
  rw [size, entries, List.length_flatMap]
  rfl

instance : ConcurrentTable (StripedTable κ ν) κ ν where
  empty := empty
  ofList := ofList
  entryOf? := entryOf?
  insert k v t := ((t.entryOf? k).map Prod.snd, t.insert k v)
  replace := replace
  remove k t := (t.entryOf? k, t.erase k)
  clear _ := empty
  size := size
  entries := entries

/-! ## Looking up -/

theorem entryOf?_empty (k : κ) : (empty : StripedTable κ ν).entryOf? k = none := by
  show (Vector.replicate stripeCount Table.empty)[(stripeOf k).val].entryOf? k = none
  rw [Vector.getElem_replicate]
  rfl

/-- An entry is in the table exactly if it is in the stripe of its key. -/
theorem mem_entries {t : StripedTable κ ν} {e : κ × ν} :
    e ∈ t.entries ↔ e ∈ (t.stripe e.1).entries := by
  rw [entries, List.mem_flatMap]
  refine ⟨fun ⟨u, hu, he⟩ => ?_, fun h => ⟨t.stripe e.1, ?_, h⟩⟩
  · obtain ⟨i, hi, rfl⟩ := Vector.mem_iff_getElem.1 (Vector.mem_toList_iff.1 hu)
    have hs : (stripeOf e.1).val = i := t.placed i hi e he
    subst hs
    exact he
  · exact Vector.mem_toList_iff.2 (Vector.getElem_mem _)

theorem stripe_updateStripe (t : StripedTable κ ν) (k k' : κ) (u : Table κ ν)
    (h : ∀ k' ∈ u.keys, stripeOf k' = stripeOf k) :
    (t.updateStripe k u h).stripe k' = if stripeOf k = stripeOf k' then u else t.stripe k' := by
  show (t.stripes.set (stripeOf k).val u (stripeOf k).isLt)[(stripeOf k').val] = _
  rw [Vector.getElem_set]
  by_cases hk : stripeOf k = stripeOf k'
  · rw [if_pos hk, if_pos (congrArg Fin.val hk)]
  · rw [if_neg hk, if_neg fun hv => hk (Fin.ext hv)]
    rfl

/-- Keys of one stripe have the same stripe to look at. -/
theorem stripe_congr (t : StripedTable κ ν) {k k' : κ} (h : stripeOf k = stripeOf k') :
    t.stripe k = t.stripe k' :=
  congrArg (fun i : Fin stripeCount => t.stripes[i]) h

variable [LawfulHashable κ]

/-- Equal keys share a stripe. -/
theorem stripeOf_congr {k k' : κ} (h : (k == k') = true) : stripeOf k = stripeOf k' := by
  rw [stripeOf, stripeOf]
  congr 3
  exact hash_eq h

/-- If the new stripe answers by `a` for `k` and as before for other keys, so does the table. -/
theorem entryOf?_updateStripe (t : StripedTable κ ν) (k k' : κ) (u : Table κ ν)
    (h : ∀ k' ∈ u.keys, stripeOf k' = stripeOf k) (a : Option (κ × ν))
    (hu : u.entryOf? k' = if k == k' then a else (t.stripe k).entryOf? k') :
    (t.updateStripe k u h).entryOf? k' = if k == k' then a else t.entryOf? k' := by
  rw [entryOf?, stripe_updateStripe]
  by_cases hs : stripeOf k = stripeOf k'
  · rw [if_pos hs, hu, t.stripe_congr hs, entryOf?]
  · rw [if_neg hs, if_neg fun hk => hs (stripeOf_congr hk), entryOf?]

/-- Equal keys would be in one stripe, and no stripe has two of them. -/
theorem distinct_entries (t : StripedTable κ ν) :
    t.entries.Pairwise fun a b => (a.1 == b.1) = false := by
  rw [entries, List.pairwise_flatMap]
  refine ⟨fun u _ => u.distinct, List.pairwise_iff_getElem.2 fun i j hi hj hij a ha b hb => ?_⟩
  rw [Vector.length_toList] at hi hj
  have hia := t.placed i hi a ha
  have hjb := t.placed j hj b hb
  refine Bool.eq_false_iff.2 fun hab => ?_
  rw [stripeOf_congr hab, hjb] at hia
  exact Nat.ne_of_gt hij hia

variable [PartialEquivBEq κ]

/-- The entry found under a key is the one that has it. -/
theorem entryOf?_eq_some_iff {t : StripedTable κ ν} {k : κ} {e : κ × ν} :
    t.entryOf? k = some e ↔ e ∈ t.entries ∧ (e.1 == k) = true := by
  rw [entryOf?, Table.entryOf?_eq_some_iff, mem_entries]
  refine and_congr_left fun hk => ?_
  rw [t.stripe_congr (stripeOf_congr hk)]

/-- Storing gives a key its new value and keeps the spelling that was there. -/
theorem entryOf?_insert (k k' : κ) (v : ν) (t : StripedTable κ ν) :
    (t.insert k v).entryOf? k' =
      if k == k' then some (((t.entryOf? k).map Prod.fst).getD k, v) else t.entryOf? k' :=
  entryOf?_updateStripe t k k' _ _ _ (Table.entryOf?_insert k k' v (t.stripe k))

/-- Replacing gives a present key its new value, and an absent key nothing. -/
theorem entryOf?_replace (k k' : κ) (v : ν) (t : StripedTable κ ν) :
    (t.replace k v).entryOf? k' =
      if k == k' then (t.entryOf? k).map fun e => (e.1, v) else t.entryOf? k' :=
  entryOf?_updateStripe t k k' _ _ _ (Table.entryOf?_replace k k' v (t.stripe k))

/-- An erased key is absent, and nothing else has changed. -/
theorem entryOf?_erase (k k' : κ) (t : StripedTable κ ν) :
    (t.erase k).entryOf? k' = if k == k' then none else t.entryOf? k' :=
  entryOf?_updateStripe t k k' _ _ _ (Table.entryOf?_erase k k' (t.stripe k))

instance : LawfulConcurrentTable (StripedTable κ ν) where
  entryOf?_empty := entryOf?_empty
  entryOf?_ofList _ _ := rfl
  entryOf?_insert := entryOf?_insert
  insert_fst _ _ _ := rfl
  entryOf?_replace := entryOf?_replace
  entryOf?_remove := entryOf?_erase
  remove_fst _ _ := rfl
  entryOf?_clear k _ := entryOf?_empty k
  entryOf?_eq_some_iff := entryOf?_eq_some_iff
  distinct_entries := distinct_entries
  size_eq := size_eq_length_entries

end StripedTable

end Containers
