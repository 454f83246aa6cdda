import Containers.Proofs.Map.Agreement
import Mathlib.Data.List.Perm.Subperm

/-!
# When two maps are the same

Two maps are compared by their sizes and by what the left one lists: each of its keys has to be in the right
one, under a value that the test accepts.  That the right one has no further keys is not looked at.  It
follows by counting, since of the entries of a map no two have equal keys: the entries that the right map
has under the keys of the left one (`Table.partners`) are as many as these keys, so if the maps have the
same size they are all that the right one has.

* `Corresponds` says what is meant by the same, from both sides.
* `Table.matchedBy_iff` is the counting, for tables.
* `AnyMap.equals_iff` carries it over to maps of any two kinds.
-/

set_option autoImplicit false

namespace Containers

variable {κ ν : Type} [BEq κ]

/-- Each entry of either list has one with an equal key in the other, and the values under equal keys pass
the test, with the value on the left as the left argument. -/
structure Corresponds (eq : ν → ν → Bool) (es es' : List (κ × ν)) : Prop where
  /-- Every key on the left is on the right. -/
  exists_right : ∀ e ∈ es, ∃ e' ∈ es', (e.1 == e'.1) = true
  /-- Every key on the right is on the left. -/
  exists_left : ∀ e' ∈ es', ∃ e ∈ es, (e.1 == e'.1) = true
  /-- The values under a common key pass the test. -/
  accepted : ∀ e ∈ es, ∀ e' ∈ es', (e.1 == e'.1) = true → eq e.2 e'.2 = true

namespace Corresponds

variable {eq : ν → ν → Bool} {es es' es₁ es₁' : List (κ × ν)}

instance : Decidable (Corresponds eq es es') :=
  decidable_of_iff
    ((∀ e ∈ es, ∃ e' ∈ es', (e.1 == e'.1) = true) ∧ (∀ e' ∈ es', ∃ e ∈ es, (e.1 == e'.1) = true) ∧
      ∀ e ∈ es, ∀ e' ∈ es', (e.1 == e'.1) = true → eq e.2 e'.2 = true)
    ⟨fun ⟨hr, hl, h⟩ => ⟨hr, hl, h⟩, fun h => ⟨h.exists_right, h.exists_left, h.accepted⟩⟩

/-- The order of the entries is of no account. -/
theorem of_perm (h : Corresponds eq es es') (hl : es.Perm es₁) (hr : es'.Perm es₁') :
    Corresponds eq es₁ es₁' := by
  refine ⟨fun e he => ?_, fun e' he' => ?_, fun e he e' he' hk => ?_⟩
  · obtain ⟨e', he', hk⟩ := h.exists_right e (hl.mem_iff.2 he)
    exact ⟨e', hr.mem_iff.1 he', hk⟩
  · obtain ⟨e, he, hk⟩ := h.exists_left e' (hr.mem_iff.2 he')
    exact ⟨e, hl.mem_iff.1 he, hk⟩
  · exact h.accepted e (hl.mem_iff.2 he) e' (hr.mem_iff.2 he') hk

/-- Seen from the other side, the arguments of the test change places. -/
theorem swap [PartialEquivBEq κ] (h : Corresponds eq es es') : Corresponds (flip eq) es' es := by
  refine ⟨fun e' he' => ?_, fun e he => ?_, fun e' he' e he hk => ?_⟩
  · obtain ⟨e, he, hk⟩ := h.exists_left e' he'
    exact ⟨e, he, BEq.symm hk⟩
  · obtain ⟨e', he', hk⟩ := h.exists_right e he
    exact ⟨e', he', BEq.symm hk⟩
  · exact h.accepted e he e' he' (BEq.symm hk)

theorem swap_iff [PartialEquivBEq κ] : Corresponds (flip eq) es' es ↔ Corresponds eq es es' :=
  ⟨swap, swap⟩

end Corresponds

namespace Table

variable {t u : Table κ ν}

/-- The table has the key of the entry, under a value that the test accepts, with the value of the entry as
the left argument. -/
def accepts (eq : ν → ν → Bool) (u : Table κ ν) (e : κ × ν) : Bool :=
  match u.find? e.1 with
  | some v => eq e.2 v
  | none => false

/-- The tables have the same size, and the right one accepts every entry of the left one. -/
def matchedBy (eq : ν → ν → Bool) (t u : Table κ ν) : Bool :=
  t.size == u.size && t.entries.all (u.accepts eq)

theorem accepts_eq_true_iff {eq : ν → ν → Bool} {e : κ × ν} :
    u.accepts eq e = true ↔ ∃ v, u.find? e.1 = some v ∧ eq e.2 v = true := by
  rw [accepts]
  cases u.find? e.1 <;> simp

theorem accepts_eq_false_iff {eq : ν → ν → Bool} {e : κ × ν} :
    u.accepts eq e = false ↔ u.contains e.1 = false ∨ ∃ v, u.find? e.1 = some v ∧ eq e.2 v = false := by
  rw [accepts, contains_eq_isSome]
  cases u.find? e.1 <;> simp

/-! ## Counting keys -/

/-- Every key is present in the other table. -/
def Within (t u : Table κ ν) : Prop := ∀ e ∈ t.entries, ∃ e' ∈ u.entries, (e.1 == e'.1) = true

/-- The entries that `u` has under the keys of `t`. -/
def partners (t u : Table κ ν) : List (κ × ν) := t.entries.filterMap fun e => u.entryOf? e.1

theorem mem_partners {e' : κ × ν} : e' ∈ t.partners u ↔ ∃ e ∈ t.entries, u.entryOf? e.1 = some e' :=
  List.mem_filterMap

theorem partners_subset (t u : Table κ ν) : t.partners u ⊆ u.entries := by
  intro e' he'
  obtain ⟨e, -, he⟩ := mem_partners.1 he'
  exact (mem_of_entryOf?_eq_some he).1

variable [PartialEquivBEq κ]

/-- Unequal keys have different partners. -/
theorem nodup_partners (t u : Table κ ν) : (t.partners u).Nodup := by
  rw [partners, List.Nodup, List.pairwise_filterMap]
  refine t.distinct.imp fun {a b} hab c hc d hd hcd => ?_
  obtain ⟨-, hca⟩ := mem_of_entryOf?_eq_some hc
  obtain ⟨-, hdb⟩ := mem_of_entryOf?_eq_some hd
  rw [← hcd] at hdb
  rw [BEq.trans (BEq.symm hca) hdb] at hab
  cases hab

/-- Keys that are present have one partner each. -/
theorem length_partners (h : t.Within u) : (t.partners u).length = t.size := by
  refine List.filterMap_length_eq_length.2 fun e he => ?_
  obtain ⟨e', he', hk⟩ := h e he
  rw [entryOf?_eq_some_iff.2 ⟨he', BEq.symm hk⟩]
  rfl

theorem Within.size_le (h : t.Within u) : t.size ≤ u.size := by
  rw [← length_partners h]
  exact ((nodup_partners t u).subperm (partners_subset t u)).length_le

/-- A table that is no larger than another one, and has all keys of that one, has no others. -/
theorem Within.symm (h : t.Within u) (hsize : u.size ≤ t.size) : u.Within t := by
  have hperm : (t.partners u).Perm u.entries :=
    ((nodup_partners t u).subperm (partners_subset t u)).perm_of_length_le
      (by rw [length_partners h]; exact hsize)
  intro e' he'
  obtain ⟨e, he, hpartner⟩ := mem_partners.1 (hperm.mem_iff.2 he')
  exact ⟨e, he, (mem_of_entryOf?_eq_some hpartner).2⟩

/-! ## Comparing tables -/

/-- Acceptance in words of entries. -/
theorem accepts_iff {eq : ν → ν → Bool} {e : κ × ν} :
    u.accepts eq e = true ↔
      (∃ e' ∈ u.entries, (e.1 == e'.1) = true) ∧
        ∀ e' ∈ u.entries, (e.1 == e'.1) = true → eq e.2 e'.2 = true := by
  rw [accepts, find?]
  cases h : u.entryOf? e.1 with
  | none =>
    rw [entryOf?_eq_none_iff] at h
    refine ⟨fun hfalse => absurd hfalse Bool.false_ne_true, ?_⟩
    rintro ⟨⟨e', he', hk⟩, -⟩
    exact absurd (BEq.symm hk) (Bool.eq_false_iff.1 (h e' he'))
  | some d =>
    obtain ⟨hd, hk⟩ := mem_of_entryOf?_eq_some h
    refine ⟨fun heq => ⟨⟨d, hd, BEq.symm hk⟩, fun e' he' hk' => ?_⟩, fun h => h.2 d hd (BEq.symm hk)⟩
    rw [← eq_of_mem hd he' (BEq.trans hk hk')]
    exact heq

/-- What is the same from both sides is what is accepted from one side and present from the other. -/
theorem corresponds_iff {eq : ν → ν → Bool} :
    Corresponds eq t.entries u.entries ↔ (∀ e ∈ t.entries, u.accepts eq e = true) ∧ u.Within t := by
  simp only [accepts_iff]
  constructor
  · intro h
    refine ⟨fun e he => ⟨h.exists_right e he, h.accepted e he⟩, fun e' he' => ?_⟩
    obtain ⟨e, he, hk⟩ := h.exists_left e' he'
    exact ⟨e, he, BEq.symm hk⟩
  · rintro ⟨hall, hback⟩
    refine ⟨fun e he => (hall e he).1, fun e' he' => ?_, fun e he => (hall e he).2⟩
    obtain ⟨e, he, hk⟩ := hback e' he'
    exact ⟨e, he, BEq.symm hk⟩

omit [PartialEquivBEq κ] in
/-- Two entries, which the other table has under keys that may be spelled differently, and in the other
order. -/
theorem corresponds_pair_iff [EquivBEq κ] (eq : ν → ν → Bool) {k k' l l' : κ} (hk : (k == k') = true)
    (hl : (l == l') = true) (hkl : (k == l) = false) (v v' w w' : ν) :
    Corresponds eq (ofList [(k, v), (l, w)]).entries (ofList [(l', w'), (k', v')]).entries ↔
      eq v v' = true ∧ eq w w' = true := by
  have hkl' : (k == l') = false := (BEq.congr_right hl).symm.trans hkl
  have hlk' : (l == k') = false := (BEq.congr_right hk).symm.trans ((BEq.comm).trans hkl)
  have hlk : (l' == k') = false := (BEq.congr_left hl).symm.trans hlk'
  rw [entries_ofList_of_distinct (by simpa using hkl), entries_ofList_of_distinct (by simpa using hlk)]
  constructor
  · intro h
    exact ⟨h.accepted _ List.mem_cons_self _ (.tail _ List.mem_cons_self) hk,
      h.accepted _ (.tail _ List.mem_cons_self) _ List.mem_cons_self hl⟩
  · rintro ⟨hv, hw⟩
    constructor <;> simp [hk, hl, hkl', hlk', hv, hw]

/-- Looking at the keys of one side is enough if the sizes are the same. -/
theorem matchedBy_iff {eq : ν → ν → Bool} :
    t.matchedBy eq u = true ↔ Corresponds eq t.entries u.entries := by
  rw [matchedBy, Bool.and_eq_true, beq_iff_eq, List.all_eq_true, corresponds_iff]
  constructor
  · rintro ⟨hsize, hall⟩
    have hwithin : t.Within u := fun e he => (accepts_iff.1 (hall e he)).1
    exact ⟨hall, hwithin.symm (Nat.le_of_eq hsize.symm)⟩
  · rintro ⟨hall, hback⟩
    have hwithin : t.Within u := fun e he => (accepts_iff.1 (hall e he)).1
    exact ⟨Nat.le_antisymm hwithin.size_le hback.size_le, hall⟩

end Table

/-! ## Comparing maps -/

namespace AnyMap

variable [EquivBEq κ] {θ : Type} [ConcurrentTable θ κ ν] [LawfulConcurrentTable θ]

theorem size_getAll (m : AnyMap κ ν θ) : m.getAll.size = m.size := by
  cases m with
  | locked m => rfl
  | concurrent m => exact (ConcurrentTable.mirrors_copy m.table).size_eq.symm

/-- The copy of a map has the entries that the map lists. -/
theorem entries_getAll (m : AnyMap κ ν θ) : m.getAll.entries = m.all.slice.toList := by
  cases m with
  | locked m =>
    rw [all, LockedMap.all, Snapshot.slice_ofArray]
    rfl
  | concurrent m =>
    rw [all, ConcurrentMap.all, Snapshot.slice_ofArray]
    exact ConcurrentTable.entries_ofList_entries m.table

/-- A map made of a table lists what the table lists, if not in the same order. -/
theorem perm_ofTable (kind : TableKind) (t : Table κ ν) (equality : Option (Equality ν)) :
    (ofTable kind t equality : AnyMap κ ν θ).all.slice.toList.Perm t.entries := by
  cases kind with
  | locked lock =>
    rw [ofTable, all, LockedMap.all, Snapshot.slice_ofArray]
    exact .refl _
  | concurrent =>
    rw [ofTable, all, ConcurrentMap.all, Snapshot.slice_ofArray]
    exact (ConcurrentTable.mirrors_moved t).perm

/-- Two maps are compared by their copies; the sizes that are compared beforehand are those of the copies. -/
theorem equals_other (eq : ν → ν → Bool) (a b : AnyMap κ ν θ) :
    a.equals (.other b) eq = a.getAll.matchedBy eq b.getAll := by
  rw [equals, ← size_getAll, ← size_getAll, Table.matchedBy]
  by_cases hsize : (a.getAll.size == b.getAll.size) = true
  · rw [if_pos hsize]
    rfl
  · rw [if_neg hsize, Bool.eq_false_iff.2 hsize]
    rfl

theorem equals_other_iff (eq : ν → ν → Bool) (a b : AnyMap κ ν θ) :
    a.equals (.other b) eq = true ↔ Corresponds eq a.all.slice.toList b.all.slice.toList := by
  rw [equals_other, Table.matchedBy_iff, entries_getAll, entries_getAll]

/-- **Comparing maps compares their entries**, from both sides, whichever kinds they are of and whichever
table concurrent ones have; so it makes no difference which of two maps is asked, if the arguments of the
test change places.  A map is the same as itself whatever the test says. -/
theorem equals_iff (eq : ν → ν → Bool) (a b : AnyMap κ ν θ) :
    (a.equals (.other b) eq = true ↔ Corresponds eq a.all.slice.toList b.all.slice.toList) ∧
      a.equals (.other b) eq = b.equals (.other a) (flip eq) ∧ a.equals .itself eq = true := by
  refine ⟨equals_other_iff eq a b, ?_, rfl⟩
  rw [Bool.eq_iff_iff, equals_other_iff, equals_other_iff]
  exact Corresponds.swap_iff.symm

/-- Keys that are spelled in two ways, and a test that is not symmetric: the maps are the same from one side
and not from the other. -/
theorem equals_iff_spellings : ∃ (t u : Table FoldedKey Nat)
    (a b : AnyMap FoldedKey Nat (StripedTable FoldedKey Nat)),
    t = .ofList [(⟨.text "A"⟩, 1), (⟨.text "b"⟩, 2)] ∧ u = .ofList [(⟨.text "B"⟩, 3), (⟨.text "a"⟩, 1)] ∧
    a = ofTable (.locked .exclusive) t none ∧ b = ofTable .concurrent u none ∧
    a.equals (.other b) Nat.ble = true ∧ b.equals (.other a) Nat.ble = false ∧
    b.equals (.other a) (flip Nat.ble) = true ∧ a.equals .itself (fun _ _ => false) = true := by
  obtain ⟨t, ht⟩ : ∃ t : Table FoldedKey Nat, t = .ofList [(⟨.text "A"⟩, 1), (⟨.text "b"⟩, 2)] := ⟨_, rfl⟩
  obtain ⟨u, hu⟩ : ∃ u : Table FoldedKey Nat, u = .ofList [(⟨.text "B"⟩, 3), (⟨.text "a"⟩, 1)] := ⟨_, rfl⟩
  have hA : ((⟨.text "A"⟩ : FoldedKey) == ⟨.text "a"⟩) = true := FoldedKey.text_beq_text (by decide)
  have hB : ((⟨.text "b"⟩ : FoldedKey) == ⟨.text "B"⟩) = true := FoldedKey.text_beq_text (by decide)
  have hAB : ((⟨.text "A"⟩ : FoldedKey) == ⟨.text "b"⟩) = false := by decide +kernel
  have hpair (le : Nat → Nat → Bool) : Corresponds le t.entries u.entries ↔ le 1 1 = true ∧ le 2 3 = true := by
    rw [ht, hu]
    exact Table.corresponds_pair_iff le hA hB hAB 1 1 2 3
  have hsame : Corresponds Nat.ble t.entries u.entries := (hpair _).2 (by decide)
  have hother : ¬Corresponds Nat.ble u.entries t.entries := by
    rw [← Corresponds.swap_iff, hpair]
    decide
  have hpt := perm_ofTable (θ := StripedTable FoldedKey Nat) (.locked .exclusive) t none
  have hpu := perm_ofTable (θ := StripedTable FoldedKey Nat) .concurrent u none
  have hequals := (equals_iff Nat.ble _ _).1.2 (hsame.of_perm hpt.symm hpu.symm)
  refine ⟨t, u, _, _, ht, hu, rfl, rfl, hequals, ?_, ?_, (equals_iff _ _ (ofTable .concurrent u none)).2.2⟩
  · exact Bool.eq_false_iff.2 fun h => hother (((equals_iff Nat.ble _ _).1.1 h).of_perm hpu hpt)
  · rw [← (equals_iff Nat.ble _ _).2.1]
    exact hequals

end AnyMap

end Containers
