/-!
# Tables

A `Table` is a finite map: a list of entries no two of which have equal keys.  When keys are equal
is up to the key type, and it may be coarser than identity; then a table keeps the key it stored
first and replaces only the value.  The order of the entries is the order in which their keys came
in, and no answer of the library depends on it.

* `Table.find?` and `Table.contains` look a key up.
* `Table.insert` stores under a key, `Table.replace` stores under a key that is present,
  `Table.erase` removes a key.
* `Table.ofList` stores entries one after another, so that the last value of a key counts and the
  first spelling of it.

A stored key is always compared as the left argument, and a key asked for as the right one.
-/

set_option autoImplicit false

namespace Containers

/-- A finite map: entries with pairwise unequal keys. -/
structure Table (κ ν : Type) [BEq κ] where
  /-- The entries, in the order in which their keys came in. -/
  entries : List (κ × ν)
  distinct : entries.Pairwise fun a b => (a.1 == b.1) = false

namespace Table

variable {κ ν : Type} [BEq κ]

/-! ## Storing in a list of entries -/

/-- Stores a value under a key: in the place of the entry that has it, or at the end. -/
def insertEntry (k : κ) (v : ν) : List (κ × ν) → List (κ × ν)
  | [] => [(k, v)]
  | e :: es => if e.1 == k then (e.1, v) :: es else e :: insertEntry k v es

/-- Replaces the value of the entry that has the key, if there is one. -/
def replaceEntry (k : κ) (v : ν) : List (κ × ν) → List (κ × ν)
  | [] => []
  | e :: es => if e.1 == k then (e.1, v) :: es else e :: replaceEntry k v es

/-- After storing, every key was there before or is the new one. -/
theorem key_of_mem_insertEntry {k : κ} {v : ν} {es : List (κ × ν)} {e : κ × ν}
    (h : e ∈ insertEntry k v es) : e.1 ∈ es.map Prod.fst ∨ e.1 = k := by
  induction es with
  | nil =>
    rw [insertEntry, List.mem_singleton] at h
    exact .inr (by rw [h])
  | cons d es ih =>
    rw [insertEntry] at h
    split at h <;> rcases List.mem_cons.1 h with h | h
    · exact .inl (by rw [h]; exact List.mem_cons_self ..)
    · exact .inl (List.mem_cons_of_mem _ (List.mem_map_of_mem h))
    · exact .inl (by rw [h]; exact List.mem_cons_self ..)
    · rcases ih h with h | h
      · exact .inl (List.mem_cons_of_mem _ h)
      · exact .inr h

theorem pairwise_insertEntry (k : κ) (v : ν) {es : List (κ × ν)}
    (h : es.Pairwise fun a b => (a.1 == b.1) = false) :
    (insertEntry k v es).Pairwise fun a b => (a.1 == b.1) = false := by
  induction es with
  | nil => exact List.pairwise_singleton ..
  | cons d es ih =>
    rw [List.pairwise_cons] at h
    rw [insertEntry]
    split
    · exact List.pairwise_cons.2 ⟨h.1, h.2⟩
    · rename_i hd
      refine List.pairwise_cons.2 ⟨fun e he => ?_, ih h.2⟩
      rcases key_of_mem_insertEntry he with hk | hk
      · obtain ⟨e', he', hk⟩ := List.mem_map.1 hk
        rw [← hk]
        exact h.1 e' he'
      · rw [hk]
        exact Bool.eq_false_iff.2 hd

/-- Replacing a value changes no key. -/
@[simp] theorem keys_replaceEntry (k : κ) (v : ν) (es : List (κ × ν)) :
    (replaceEntry k v es).map Prod.fst = es.map Prod.fst := by
  induction es with
  | nil => rfl
  | cons d es ih =>
    rw [replaceEntry]
    split
    · rfl
    · rw [List.map_cons, List.map_cons, ih]

theorem pairwise_iff_keys {es : List (κ × ν)} :
    (es.Pairwise fun a b => (a.1 == b.1) = false) ↔
      (es.map Prod.fst).Pairwise fun a b => (a == b) = false := by
  rw [List.pairwise_map]

/-! ## Tables -/

/-- A table without entries. -/
def empty : Table κ ν := ⟨[], .nil⟩

instance : Inhabited (Table κ ν) := ⟨empty⟩

/-- The number of entries. -/
def size (t : Table κ ν) : Nat := t.entries.length

/-- Whether there are no entries. -/
def isEmpty (t : Table κ ν) : Bool := t.entries.isEmpty

/-- The entry whose key equals the given one. -/
def entryOf? (t : Table κ ν) (k : κ) : Option (κ × ν) := t.entries.find? fun e => e.1 == k

/-- The value stored under a key. -/
def find? (t : Table κ ν) (k : κ) : Option ν := (t.entryOf? k).map Prod.snd

/-- Whether a key is present. -/
def contains (t : Table κ ν) (k : κ) : Bool := (t.entryOf? k).isSome

/-- Stores a value under a key.  An equal key that is present stays as it is spelled. -/
def insert (k : κ) (v : ν) (t : Table κ ν) : Table κ ν :=
  ⟨insertEntry k v t.entries, pairwise_insertEntry k v t.distinct⟩

/-- Replaces the value under a key that is present. -/
def replace (k : κ) (v : ν) (t : Table κ ν) : Table κ ν :=
  ⟨replaceEntry k v t.entries, by
    rw [pairwise_iff_keys, keys_replaceEntry, ← pairwise_iff_keys]; exact t.distinct⟩

/-- Removes a key. -/
def erase (k : κ) (t : Table κ ν) : Table κ ν :=
  ⟨t.entries.eraseP fun e => e.1 == k, t.distinct.sublist List.eraseP_sublist⟩

/-- The entries that pass a test. -/
def filter (p : κ × ν → Bool) (t : Table κ ν) : Table κ ν :=
  ⟨t.entries.filter p, t.distinct.sublist List.filter_sublist⟩

/-- Stores entries one after another. -/
def insertAll (es : List (κ × ν)) (t : Table κ ν) : Table κ ν :=
  es.foldl (fun t e => t.insert e.1 e.2) t

/-- The table of entries that are stored one after another. -/
def ofList (es : List (κ × ν)) : Table κ ν := empty.insertAll es

/-- The keys. -/
def keys (t : Table κ ν) : List κ := t.entries.map Prod.fst

/-- The values. -/
def values (t : Table κ ν) : List ν := t.entries.map Prod.snd

/-- Whether two tables have equal keys and, under equal keys, equal values. -/
def sameAs [BEq ν] (t u : Table κ ν) : Bool :=
  t.size == u.size && t.entries.all fun e => (u.find? e.1).any fun v => e.2 == v

@[simp] theorem size_empty : (empty : Table κ ν).size = 0 := rfl

@[simp] theorem find?_empty (k : κ) : (empty : Table κ ν).find? k = none := rfl

@[simp] theorem keys_replace (k : κ) (v : ν) (t : Table κ ν) : (t.replace k v).keys = t.keys :=
  keys_replaceEntry k v t.entries

theorem contains_eq_isSome (t : Table κ ν) (k : κ) : t.contains k = (t.find? k).isSome := by
  rw [contains, find?, Option.isSome_map]

end Table

end Containers
