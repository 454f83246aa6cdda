import Containers.Map.Locked
import Containers.Map.Lookup
import Containers.Proofs.History
import Mathlib.Data.List.Induction

/-!
# Maps as plain lists of entries

A `ReferenceMap` says what a map is, and not how it is kept.  Its entries stand in a list, and each call
is written down in the words of the list: a store changes the value of the entry whose key equals the
given one, or adds an entry; a removal leaves the entries with other keys; a batch of stores is one store
after another; and a batch of lookups takes each class of equal keys once, as it was first spelled.

A map behind a lock answers as the list of its entries does (`LockedMap.ask_reference`), and not only up
to the order of what it lists.
-/

set_option autoImplicit false

namespace Containers

variable {κ ν : Type} [BEq κ]

/-- A finite map as a list of entries. -/
structure ReferenceMap (κ ν : Type) where
  /-- The entries. -/
  entries : List (κ × ν)
  /-- When two values count as equal, if that is known. -/
  equality : Option (Equality ν)

namespace ReferenceMap

/-! ## What calls do to entries -/

/-- Whether an entry has the key. -/
def has (k : κ) (es : List (κ × ν)) : Bool := es.any fun e => e.1 == k

/-- The value under a key. -/
def lookup (k : κ) (es : List (κ × ν)) : Option ν := (es.find? fun e => e.1 == k).map Prod.snd

/-- Changes the value under a key and leaves the key as it is spelled. -/
def overwrite (k : κ) (v : ν) (es : List (κ × ν)) : List (κ × ν) :=
  es.map fun e => if e.1 == k then (e.1, v) else e

/-- Stores a value under a key. -/
def store (k : κ) (v : ν) (es : List (κ × ν)) : List (κ × ν) :=
  if has k es then overwrite k v es else es ++ [(k, v)]

/-- Stores one after another. -/
def storeAll (news : List (κ × ν)) (es : List (κ × ν)) : List (κ × ν) :=
  news.foldl (fun es e => store e.1 e.2 es) es

/-- Removes a key. -/
def remove (k : κ) (es : List (κ × ν)) : List (κ × ν) := es.filter fun e => !(e.1 == k)

/-- Of equal keys the first. -/
def firsts : List κ → List κ
  | [] => []
  | k :: ks => k :: (firsts ks).filter fun k' => !(k == k')

/-- What is there under a key, with the key as it is asked for. -/
def entryAt (es : List (κ × ν)) (k : κ) : Option (κ × ν) := (lookup k es).map fun v => (k, v)

/-- What is there under the keys asked for, each class of equal keys as it was first spelled. -/
def found (ks : List κ) (es : List (κ × ν)) : List (κ × ν) := (firsts ks).filterMap (entryAt es)

/-- Puts a call to the map. -/
def ask (c : MapCall κ ν) (m : ReferenceMap κ ν) : Except Fault (MapReply κ ν) × ReferenceMap κ ν :=
  match c with
  | .get k => (.ok (.value (lookup k m.entries)), m)
  | .set k v => (.ok .done, { m with entries := store k v m.entries })
  | .delete k => (.ok (.flag (has k m.entries)), { m with entries := remove k m.entries })
  | .size => (.ok (.count m.entries.length), m)
  | .isEmpty => (.ok (.flag m.entries.isEmpty), m)
  | .clear => (.ok .done, { m with entries := [] })
  | .compareAndSwap k old new =>
    match lookup k m.entries, m.equality with
    | none, _ => (.ok (.flag false), m)
    | some _, none => (.error .missingEquality, m)
    | some v, some equality =>
      if equality.holds v old then (.ok (.flag true), { m with entries := overwrite k new m.entries })
      else (.ok (.flag false), m)
  | .swap k v =>
    (.ok (.value (lookup k m.entries)), { m with entries := store k v m.entries })
  | .loadOrStore k v =>
    match lookup k m.entries with
    | some v' => (.ok (.loaded v' true), m)
    | none => (.ok (.loaded v false), { m with entries := store k v m.entries })
  | .loadAndDelete k =>
    (.ok (.value (lookup k m.entries)), { m with entries := remove k m.entries })
  | .getAll => (.ok (.entries m.entries), m)
  | .getMany ks => (.ok (.entries (found ks m.entries)), m)
  | .setMany es => (.ok .done, { m with entries := storeAll es m.entries })
  | .all => (.ok (.entries m.entries), m)
  | .keys => (.ok (.keys (m.entries.map Prod.fst)), m)
  | .values => (.ok (.values (m.entries.map Prod.snd)), m)

theorem storeAll_append (news news' es : List (κ × ν)) :
    storeAll (news ++ news') es = storeAll news' (storeAll news es) :=
  List.foldl_append

/-! ## Keys that are not there -/

variable {k : κ} {v : ν} {es : List (κ × ν)}

theorem has_eq_false_iff : has k es = false ↔ ∀ e ∈ es, (e.1 == k) = false := by
  simp [has]

theorem overwrite_of_not_has (v : ν) (h : has k es = false) : overwrite k v es = es := by
  rw [has_eq_false_iff] at h
  refine (List.map_congr_left fun e he => ?_).trans (List.map_id es)
  rw [h e he]
  rfl

theorem remove_of_not_has (h : has k es = false) : remove k es = es := by
  rw [has_eq_false_iff] at h
  exact List.filter_eq_self.2 fun e he => by rw [h e he]; rfl

/-- Entries with unequal keys are kept as they are stored. -/
theorem storeAll_of_distinct (h : es.Pairwise fun a b => (a.1 == b.1) = false) :
    storeAll es [] = es := by
  induction es using List.reverseRecOn with
  | nil => rfl
  | append_singleton es e ih =>
    rw [List.pairwise_append] at h
    have hnew : has e.1 es = false :=
      has_eq_false_iff.2 fun a ha => h.2.2 a ha e (List.mem_singleton_self e)
    rw [storeAll_append, ih h.1]
    show store e.1 e.2 es = _
    rw [store, hnew]
    rfl

variable [PartialEquivBEq κ]

/-- No entry behind the one that has the key has it too. -/
theorem not_has_of_distinct {d : κ × ν} (hd : ∀ e ∈ es, (d.1 == e.1) = false)
    (hk : (d.1 == k) = true) : has k es = false := by
  rw [has_eq_false_iff]
  intro e he
  rw [BEq.comm, ← BEq.congr_left hk]
  exact hd e he

end ReferenceMap

/-! ## What a table does to its entries -/

namespace Table

open ReferenceMap

variable {es : List (κ × ν)}

theorem replaceEntry_eq_overwrite [PartialEquivBEq κ] (k : κ) (v : ν)
    (h : es.Pairwise fun a b => (a.1 == b.1) = false) : replaceEntry k v es = overwrite k v es := by
  induction es with
  | nil => rfl
  | cons d es ih =>
    rw [List.pairwise_cons] at h
    rw [replaceEntry, overwrite, List.map_cons]
    by_cases hk : (d.1 == k) = true
    · rw [if_pos hk, if_pos hk]
      exact congrArg _ (overwrite_of_not_has v (not_has_of_distinct h.1 hk)).symm
    · rw [if_neg hk, if_neg hk, ih h.2]
      rfl

theorem eraseP_eq_remove [PartialEquivBEq κ] (k : κ)
    (h : es.Pairwise fun a b => (a.1 == b.1) = false) :
    es.eraseP (fun e => e.1 == k) = remove k es := by
  induction es with
  | nil => rfl
  | cons d es ih =>
    rw [List.pairwise_cons] at h
    cases hk : d.1 == k with
    | true =>
      rw [List.eraseP_cons_of_pos (p := fun e : κ × ν => e.1 == k) hk, remove,
        List.filter_cons_of_neg (by simp [hk])]
      exact (remove_of_not_has (not_has_of_distinct h.1 hk)).symm
    | false =>
      rw [List.eraseP_cons_of_neg (by simp [hk]), ih h.2, remove, remove,
        List.filter_cons_of_pos (by simp [hk])]

/-- Storing under a key that is there replaces its value, and under another one adds an entry. -/
theorem insertEntry_eq (k : κ) (v : ν) (es : List (κ × ν)) :
    insertEntry k v es = if has k es then replaceEntry k v es else es ++ [(k, v)] := by
  induction es with
  | nil => rfl
  | cons d es ih =>
    rw [insertEntry, replaceEntry, has, List.any_cons]
    cases hk : d.1 == k with
    | true => rfl
    | false =>
      rw [if_neg Bool.false_ne_true, if_neg Bool.false_ne_true, ih, Bool.false_or]
      exact apply_ite (List.cons d) _ _ _

theorem contains_eq_has (t : Table κ ν) (k : κ) : t.contains k = has k t.entries := by
  exact List.isSome_find?

variable [PartialEquivBEq κ]

theorem entries_replace (k : κ) (v : ν) (t : Table κ ν) :
    (t.replace k v).entries = overwrite k v t.entries :=
  replaceEntry_eq_overwrite k v t.distinct

theorem entries_insert (k : κ) (v : ν) (t : Table κ ν) :
    (t.insert k v).entries = store k v t.entries := by
  rw [store, ← entries_replace]
  exact insertEntry_eq k v t.entries

theorem entries_erase (k : κ) (t : Table κ ν) : (t.erase k).entries = remove k t.entries :=
  eraseP_eq_remove k t.distinct

theorem entries_insertAll (es : List (κ × ν)) (t : Table κ ν) :
    (t.insertAll es).entries = storeAll es t.entries := by
  induction es generalizing t with
  | nil => rfl
  | cons e es ih =>
    exact (ih (t.insert e.1 e.2)).trans (congrArg (storeAll es) (entries_insert e.1 e.2 t))

theorem entries_ofList (es : List (κ × ν)) : (ofList es : Table κ ν).entries = storeAll es [] :=
  entries_insertAll es empty

end Table

/-! ## Batches of lookups -/

namespace ReferenceMap

variable {ks : List κ} {es : List (κ × ν)}

theorem lookup_of_mem_found {e : κ × ν} (he : e ∈ found ks es) : lookup e.1 es = some e.2 := by
  obtain ⟨k, -, hk⟩ := List.mem_filterMap.1 he
  obtain ⟨v, hv, rfl⟩ := Option.map_eq_some_iff.1 hk
  exact hv

variable [PartialEquivBEq κ]

theorem lookup_congr (es : List (κ × ν)) {k k' : κ} (h : (k == k') = true) :
    lookup k es = lookup k' es := by
  have htest : (fun e : κ × ν => e.1 == k) = fun e => e.1 == k' := funext fun e => BEq.congr_right h
  rw [lookup, lookup, htest]

/-- One more key is one more first, unless an equal one is among the firsts. -/
theorem firsts_concat (ks : List κ) (k : κ) :
    firsts (ks ++ [k]) = if (firsts ks).any (· == k) then firsts ks else firsts ks ++ [k] := by
  induction ks with
  | nil => rfl
  | cons a ks ih =>
    rw [List.cons_append, firsts, firsts, ih, List.any_cons, List.any_filter]
    -- either `a` is the equal key, or filtering by `a` takes none away
    cases hak : a == k with
    | true =>
      rw [Bool.true_or, if_pos rfl, apply_ite (List.filter _), List.filter_append]
      simp [hak]
    | false =>
      have hany : ((firsts ks).any fun k' => !(a == k') && k' == k) = (firsts ks).any (· == k) := by
        congr 1
        funext k'
        cases hk : k' == k with
        | false => exact Bool.and_false _
        | true => rw [BEq.congr_right hk, hak]; rfl
      rw [Bool.false_or, hany]
      split
      · rfl
      · rw [List.filter_append]
        simp [hak]

/-- What has been found already is stored again as it is. -/
theorem overwrite_found {k : κ} {v : ν} (hk : lookup k es = some v) :
    overwrite k v (found ks es) = found ks es := by
  refine (List.map_congr_left fun e he => ?_).trans (List.map_id _)
  split
  · rename_i hek
    have hv := lookup_of_mem_found he
    rw [lookup_congr es hek, hk] at hv
    rw [Option.some.inj hv]
    rfl
  · rfl

theorem has_found {k : κ} {v : ν} (hk : lookup k es = some v) :
    has k (found ks es) = (firsts ks).any (· == k) := by
  rw [has, found, List.any_filterMap]
  congr 1
  funext k'
  cases hkk : k' == k with
  | true =>
    rw [entryAt, lookup_congr es hkk, hk]
    exact hkk
  | false =>
    rw [entryAt]
    cases lookup k' es with
    | none => rfl
    | some v' => exact hkk

theorem found_concat (ks : List κ) (k : κ) (es : List (κ × ν)) :
    found (ks ++ [k]) es =
      if (firsts ks).any (· == k) then found ks es else found ks es ++ [k].filterMap (entryAt es) := by
  rw [found, firsts_concat]
  split
  · rfl
  · exact List.filterMap_append

/-- Storing what is found under each key in turn is storing under the first of each class. -/
theorem storeAll_filterMap (ks : List κ) (es : List (κ × ν)) :
    storeAll (ks.filterMap (entryAt es)) [] = found ks es := by
  -- from the end, since the last key is stored where all the others are already
  induction ks using List.reverseRecOn with
  | nil => rfl
  | append_singleton ks k ih =>
    rw [List.filterMap_append, storeAll_append, ih, found_concat]
    cases hk : lookup k es with
    | none =>
      have hnone : [k].filterMap (entryAt es) = [] := by simp [entryAt, hk]
      rw [hnone, List.append_nil, ite_self]
      rfl
    | some v =>
      have hsome : [k].filterMap (entryAt es) = [(k, v)] := by simp [entryAt, hk]
      rw [hsome, ← has_found hk]
      show store k v (found ks es) = _
      rw [store, overwrite_found hk]

end ReferenceMap

/-! ## Maps behind a lock -/

namespace LockedMap

variable [PartialEquivBEq κ]

/-- The list of entries that a map keeps. -/
def reference (m : LockedMap κ ν) : ReferenceMap κ ν := ⟨m.entries.contents.entries, m.equality⟩

/-- **A map behind a lock is the list of its entries**: it answers a call as the list does and keeps what
the list becomes. -/
theorem ask_reference (c : MapCall κ ν) (m : LockedMap κ ν) :
    m.reference.ask c = ((m.run c).answer, (m.run c).state.reference) := by
  obtain ⟨⟨kind, t⟩, equality⟩ := m
  have hlookup : ∀ k, t.find? k = ReferenceMap.lookup k t.entries := fun k => rfl
  cases c with
  | get k => rfl
  | set k v =>
    rw [ReferenceMap.ask, reference, ← Table.entries_insert]
    rfl
  | delete k =>
    rw [ReferenceMap.ask, reference, ← Table.entries_erase, ← Table.contains_eq_has]
    rfl
  | size => rfl
  | isEmpty =>
    have hempty : t.entries.isEmpty = (t.size == 0) := by
      rw [Table.size]
      cases t.entries <;> rfl
    rw [ReferenceMap.ask, reference, hempty]
    rfl
  | clear => rfl
  | swap k v =>
    rw [ReferenceMap.ask, reference, ← Table.entries_insert]
    rfl
  | loadOrStore k v =>
    rw [ReferenceMap.ask, reference, ← hlookup, run, loadOrStore, write, Locked.write]
    cases t.find? k with
    | some v' => rfl
    | none =>
      rw [← Table.entries_insert]
      rfl
  | loadAndDelete k =>
    rw [ReferenceMap.ask, reference, ← Table.entries_erase]
    rfl
  | compareAndSwap k old new =>
    rw [ReferenceMap.ask, reference, ← hlookup, run, compareAndSwap, Locked.call]
    cases t.find? k with
    | none => cases equality <;> rfl
    | some v =>
      cases equality with
      | none => rfl
      | some equality =>
        rw [← Table.entries_replace]
        dsimp only
        cases equality.holds v old <;> rfl
  | getAll => rfl
  | getMany ks =>
    rw [ReferenceMap.ask, reference, ← ReferenceMap.storeAll_filterMap, ← Table.entries_ofList]
    rfl
  | setMany es =>
    cases es with
    | nil => rfl
    | cons e es =>
      rw [ReferenceMap.ask, reference, ← Table.entries_insertAll]
      rfl
  | all =>
    rw [run, all, Snapshot.slice_ofArray]
    rfl
  | keys =>
    rw [run, keys, Snapshot.slice_ofArray]
    rfl
  | values =>
    rw [run, values, Snapshot.slice_ofArray]
    rfl

theorem history_reference (cs : List (MapCall κ ν)) (m : LockedMap κ ν) :
    history (asked run) cs m = history ReferenceMap.ask cs m.reference := by
  refine history_eq (R := fun m r => m.reference = r) ?_ cs rfl
  rintro c m _ rfl
  rw [ask_reference]
  exact ⟨rfl, rfl⟩

end LockedMap

end Containers
