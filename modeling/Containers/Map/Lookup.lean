import Containers.Map.Table

/-!
# Looking up in a table

What a table says about its keys is `Table.entryOf?`: the entry that has a key, with the key as it
is spelled there.  This file says what each operation does to that answer, and therewith everything
about an operation that can be asked through keys:

* after `Table.insert` the key has the new value, under the old spelling if there was one;
* after `Table.replace` the value is new and the spelling is not;
* after `Table.erase` the key is absent;
* after `Table.filter` the key is absent unless its entry passes the test;
* no operation on a key changes the answer for any other one.

All of it holds for keys whose equality is an equivalence, which may be coarser than identity.
-/

set_option autoImplicit false

namespace Containers.Table

variable {κ ν : Type} [BEq κ]

/-! ## Entries -/

theorem entryOf?_eq (t : Table κ ν) (k : κ) :
    t.entryOf? k = t.entries.find? fun e => e.1 == k := rfl

/-- What is found is an entry of the table, and it has the key. -/
theorem mem_of_entryOf?_eq_some {t : Table κ ν} {k : κ} {e : κ × ν}
    (h : t.entryOf? k = some e) : e ∈ t.entries ∧ (e.1 == k) = true :=
  ⟨List.mem_of_find?_eq_some h, List.find?_some (p := fun e : κ × ν => e.1 == k) h⟩

/-- A key is absent if no entry has it. -/
theorem entryOf?_eq_none_iff {t : Table κ ν} {k : κ} :
    t.entryOf? k = none ↔ ∀ e ∈ t.entries, (e.1 == k) = false := by
  rw [entryOf?_eq, List.find?_eq_none]
  exact ⟨fun h e he => Bool.eq_false_iff.2 (h e he), fun h e he => Bool.eq_false_iff.1 (h e he)⟩

/-- After storing, every entry was there before or has the value that was stored. -/
theorem mem_or_eq_of_mem_insert {t : Table κ ν} {k : κ} {v : ν} {e : κ × ν}
    (h : e ∈ (t.insert k v).entries) : e ∈ t.entries ∨ v = e.2 := by
  change e ∈ insertEntry k v t.entries at h
  generalize t.entries = es at h
  induction es with
  | nil =>
    rw [insertEntry, List.mem_singleton] at h
    exact .inr (by rw [h])
  | cons d es ih =>
    rw [insertEntry] at h
    split at h <;> rcases List.mem_cons.1 h with rfl | h
    · exact .inr rfl
    · exact .inl (List.mem_cons_of_mem d h)
    · exact .inl List.mem_cons_self
    · exact (ih h).imp_left (List.mem_cons_of_mem d)

variable [PartialEquivBEq κ]

/-- Equal keys find the same entry. -/
theorem entryOf?_congr (t : Table κ ν) {k k' : κ} (h : (k == k') = true) :
    t.entryOf? k = t.entryOf? k' := by
  rw [entryOf?_eq, entryOf?_eq]
  congr 1
  funext e
  exact BEq.congr_right h

/-- Entries with equal keys are the same entry. -/
theorem eq_of_mem {t : Table κ ν} {e e' : κ × ν} (h : e ∈ t.entries) (h' : e' ∈ t.entries)
    (hk : (e.1 == e'.1) = true) : e = e' := by
  have hd := t.distinct
  generalize t.entries = es at h h' hd
  induction es with
  | nil => exact absurd h List.not_mem_nil
  | cons d es ih =>
    rw [List.pairwise_cons] at hd
    rcases List.mem_cons.1 h with rfl | he <;> rcases List.mem_cons.1 h' with rfl | he'
    · rfl
    · exact absurd hk (Bool.eq_false_iff.1 (hd.1 e' he'))
    · exact absurd (BEq.symm hk) (Bool.eq_false_iff.1 (hd.1 e he))
    · exact ih he he' hd.2

/-- The entry found under a key is the one that has it. -/
theorem entryOf?_eq_some_iff {t : Table κ ν} {k : κ} {e : κ × ν} :
    t.entryOf? k = some e ↔ e ∈ t.entries ∧ (e.1 == k) = true := by
  refine ⟨mem_of_entryOf?_eq_some, fun ⟨he, hk⟩ => ?_⟩
  cases h : t.entryOf? k with
  | none => exact absurd hk (Bool.eq_false_iff.1 (entryOf?_eq_none_iff.1 h e he))
  | some e' =>
    obtain ⟨he', hk'⟩ := mem_of_entryOf?_eq_some h
    rw [eq_of_mem he' he (BEq.trans hk' (BEq.symm hk))]

/-! ## Operations -/

theorem find?_insertEntry (k k' : κ) (v : ν) (es : List (κ × ν)) :
    (insertEntry k v es).find? (fun e => e.1 == k') =
      if k == k' then some (((es.find? fun e => e.1 == k).map Prod.fst).getD k, v)
      else es.find? fun e => e.1 == k' := by
  induction es with
  | nil =>
    rw [insertEntry, List.find?_singleton]
    rfl
  | cons d es ih =>
    rw [insertEntry, List.find?_cons, List.find?_cons]
    by_cases hd : (d.1 == k) = true
    · rw [if_pos hd, List.find?_cons, hd, BEq.congr_left hd]
      cases k == k' <;> rfl
    · rw [if_neg hd, List.find?_cons, ih, Bool.eq_false_iff.2 hd]
      cases hk : k == k' with
      | false => rfl
      | true => rw [← BEq.congr_right hk, Bool.eq_false_iff.2 hd]

/-- Storing gives a key its new value and keeps the spelling that was there. -/
theorem entryOf?_insert (k k' : κ) (v : ν) (t : Table κ ν) :
    (t.insert k v).entryOf? k' =
      if k == k' then some (((t.entryOf? k).map Prod.fst).getD k, v) else t.entryOf? k' :=
  find?_insertEntry k k' v t.entries

/-- What is stored under a key is found under it, and nothing else has changed. -/
theorem find?_insert (k k' : κ) (v : ν) (t : Table κ ν) :
    (t.insert k v).find? k' = if k == k' then some v else t.find? k' := by
  rw [find?, entryOf?_insert]
  split <;> rfl

theorem find?_replaceEntry (k k' : κ) (v : ν) (es : List (κ × ν)) :
    (replaceEntry k v es).find? (fun e => e.1 == k') =
      if k == k' then (es.find? fun e => e.1 == k).map fun e => (e.1, v)
      else es.find? fun e => e.1 == k' := by
  induction es with
  | nil =>
    rw [replaceEntry]
    split <;> rfl
  | cons d es ih =>
    rw [replaceEntry, List.find?_cons, List.find?_cons]
    by_cases hd : (d.1 == k) = true
    · rw [if_pos hd, List.find?_cons, hd, BEq.congr_left hd]
      cases k == k' <;> rfl
    · rw [if_neg hd, List.find?_cons, ih, Bool.eq_false_iff.2 hd]
      cases hk : k == k' with
      | false => rfl
      | true => rw [← BEq.congr_right hk, Bool.eq_false_iff.2 hd]

/-- Replacing gives a present key its new value, and an absent key nothing. -/
theorem entryOf?_replace (k k' : κ) (v : ν) (t : Table κ ν) :
    (t.replace k v).entryOf? k' =
      if k == k' then (t.entryOf? k).map fun e => (e.1, v) else t.entryOf? k' :=
  find?_replaceEntry k k' v t.entries

/-- An erased key is absent, and nothing else has changed. -/
theorem entryOf?_erase (k k' : κ) (t : Table κ ν) :
    (t.erase k).entryOf? k' = if k == k' then none else t.entryOf? k' := by
  have hd := t.distinct
  rw [entryOf?_eq, entryOf?_eq]
  show (t.entries.eraseP fun e => e.1 == k).find? (fun e => e.1 == k') = _
  generalize t.entries = es at hd
  induction es with
  | nil => split <;> rfl
  | cons d es ih =>
    rw [List.pairwise_cons] at hd
    by_cases hk : (d.1 == k) = true
    · rw [List.eraseP_cons_of_pos (p := fun e : κ × ν => e.1 == k) hk, List.find?_cons,
        BEq.congr_left hk]
      cases hkk : k == k' with
      | false => rfl
      | true =>
        rw [if_pos rfl, List.find?_eq_none]
        intro e he hek
        have hde := hd.1 e he
        rw [BEq.trans hk (BEq.trans hkk (BEq.symm hek))] at hde
        exact absurd hde (by decide)
    · rw [List.eraseP_cons_of_neg (p := fun e : κ × ν => e.1 == k) hk, List.find?_cons,
        List.find?_cons, ih hd.2]
      cases hkk : k == k' with
      | false => rfl
      | true => rw [← BEq.congr_right hkk, Bool.eq_false_iff.2 hk]

/-- An erased key has no value, and nothing else has changed. -/
theorem find?_erase (k k' : κ) (t : Table κ ν) :
    (t.erase k).find? k' = if k == k' then none else t.find? k' := by
  rw [find?, entryOf?_erase]
  split <;> rfl

/-- What a selection says about a key is what it leaves of the entry that has it. -/
theorem entryOf?_filter (p : κ × ν → Bool) (k : κ) (t : Table κ ν) :
    (t.filter p).entryOf? k = (t.entryOf? k).filter p := by
  refine Option.ext fun e => ?_
  rw [entryOf?_eq_some_iff, Option.filter_eq_some_iff, entryOf?_eq_some_iff]
  show e ∈ t.entries.filter p ∧ _ ↔ _
  rw [List.mem_filter]
  exact and_right_comm

end Containers.Table
