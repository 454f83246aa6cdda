import Containers.Map.Diff
import Containers.Proofs.Map.Comparison

/-!
# Differences as patches

The difference of two tables is found by two selections that know nothing of each other: of the entries of
the new table those that the old one does not accept, and of the entries of the old one those whose keys the
new one does not have.  Carried out on the old table, the two make up the new one: `find?_patched` says for
each key what is there afterwards, and everything else is read off from it.

* `MapDiff.IsPatch` is what a difference should be, and `MapDiff.patches` is that it is.
* `MapDiff.isEmpty_between_iff` says when there is no difference, and `MapDiff.isEmpty_eq_equals` that this
  is when the two tables, as maps of any kinds, are the same.
-/

set_option autoImplicit false

namespace Containers

variable {κ ν : Type} [BEq κ]

/-! ## Looking up after many operations -/

namespace Table

variable {t u : Table κ ν}

theorem contains_iff {k : κ} : t.contains k = true ↔ ∃ e ∈ t.entries, (e.1 == k) = true := by
  rw [contains_eq_has, ReferenceMap.has, List.any_eq_true]

section EquivBEq

variable [EquivBEq κ]

theorem within_of_contains (h : ∀ k, t.contains k = true → u.contains k = true) :
    t.Within u := by
  intro e he
  obtain ⟨e', he', hk⟩ := contains_iff.1 (h e.1 (contains_iff.2 ⟨e, he, BEq.rfl⟩))
  exact ⟨e', he', BEq.symm hk⟩

/-- Tables that have the same keys, and under each of them equal values, are the same. -/
theorem sameAs_of_find? [BEq ν] (hkeys : ∀ k, t.contains k = u.contains k)
    (hvalues : ∀ k v w, t.find? k = some v → u.find? k = some w → (v == w) = true) :
    t.sameAs u = true := by
  have hwithin : t.Within u := within_of_contains fun k hk => hkeys k ▸ hk
  have hback : u.Within t := within_of_contains fun k hk => hkeys k ▸ hk
  rw [sameAs, Bool.and_eq_true, beq_iff_eq, List.all_eq_true]
  refine ⟨Nat.le_antisymm hwithin.size_le hback.size_le, fun e he => ?_⟩
  have hfound : t.find? e.1 = some e.2 := congrArg (Option.map Prod.snd) (mem_entries_iff.1 he)
  have hpresent : u.contains e.1 = true := by rw [← hkeys, contains_iff]; exact ⟨e, he, BEq.rfl⟩
  rw [contains_eq_isSome] at hpresent
  obtain ⟨w, hw⟩ := Option.isSome_iff_exists.1 hpresent
  rw [hw]
  exact hvalues _ _ _ hfound hw

/-- So it is if both say the same of every key, and a value is equal to itself. -/
theorem sameAs_of_find?_eq [BEq ν] [ReflBEq ν] (h : ∀ k, t.find? k = u.find? k) :
    t.sameAs u = true := by
  refine sameAs_of_find? (fun k => ?_) fun k v w hv hw => ?_
  · rw [contains_eq_isSome, contains_eq_isSome, h]
  · obtain rfl : v = w := by rwa [h, hw, Option.some.injEq, eq_comm] at hv
    exact BEq.rfl

theorem entries_ofList_of_perm {es : List (κ × ν)} (h : es.Perm t.entries) :
    (ofList es).entries = es := by
  refine entries_ofList_of_distinct (h.symm.pairwise t.distinct fun hab => ?_)
  rw [BEq.comm]
  exact hab

/-- A table that is made of the entries of another, in whatever order, is the same. -/
theorem sameAs_ofList_of_perm [BEq ν] [ReflBEq ν] {es : List (κ × ν)} (h : es.Perm t.entries) :
    (ofList es).sameAs t = true := by
  refine sameAs_of_find?_eq fun k => ?_
  have hentries : (ofList es).entries.Perm t.entries := by rwa [entries_ofList_of_perm h]
  exact congrArg (Option.map Prod.snd) (entryOf?_of_perm hentries k)

end EquivBEq

variable [PartialEquivBEq κ]

theorem find?_congr (t : Table κ ν) {k k' : κ} (h : (k == k') = true) : t.find? k = t.find? k' :=
  congrArg (Option.map Prod.snd) (t.entryOf?_congr h)

/-- After keys were removed each of them is absent. -/
theorem find?_eraseAll (ks : List κ) (t : Table κ ν) (k : κ) :
    (ks.foldl (fun t k => t.erase k) t).find? k = if ks.any (· == k) then none else t.find? k := by
  induction ks generalizing t with
  | nil => rfl
  | cons k' ks ih =>
    rw [List.foldl_cons, ih, find?_erase, List.any_cons]
    cases k' == k <;> simp

/-- After entries with unequal keys were stored each of them is there. -/
theorem find?_insertAll {es : List (κ × ν)} (hes : es.Pairwise fun a b => (a.1 == b.1) = false)
    (t : Table κ ν) (k : κ) :
    (t.insertAll es).find? k = ((es.find? fun e => e.1 == k).map Prod.snd).or (t.find? k) := by
  induction es generalizing t with
  | nil => rfl
  | cons e es ih =>
    rw [List.pairwise_cons] at hes
    have hrest : (t.insertAll (e :: es)).find? k = _ := ih hes.2 (t.insert e.1 e.2)
    rw [hrest, find?_insert, List.find?_cons]
    cases hk : e.1 == k with
    | false => rfl
    | true =>
      -- what is stored under this key is not stored over
      have hnone : es.find? (fun e => e.1 == k) = none := by
        refine List.find?_eq_none.2 fun e' he' hk' => ?_
        have hunequal := hes.1 e' he'
        rw [BEq.trans hk (BEq.symm hk')] at hunequal
        cases hunequal
      rw [hnone]
      rfl

/-- A selection by a test that does not tell equal keys apart. -/
theorem find?_filter {p : κ → ν → Bool} (hp : ∀ k k' v, (k == k') = true → p k v = p k' v) (k : κ)
    (t : Table κ ν) : (t.filter fun e => p e.1 e.2).find? k = (t.find? k).filter (p k) := by
  rw [find?, find?, entryOf?_filter]
  cases h : t.entryOf? k with
  | none => rfl
  | some e =>
    have hpe : p e.1 e.2 = p k e.2 := hp _ _ _ (mem_of_entryOf?_eq_some h).2
    rw [Option.map_some, Option.filter_some, Option.filter_some, hpe]
    split <;> rfl

end Table

namespace MapDiff

/-- The difference is what has to be done to `old` for it to have the contents of `new`, and no more. -/
structure IsPatch (d : MapDiff κ ν) (new old : Table κ ν) (equal : ν → ν → Bool) : Prop where
  /-- No key is both stored and removed. -/
  disjoint : ∀ e ∈ d.addedOrModified.entries, ∀ e' ∈ d.removed.entries, (e.1 == e'.1) = false
  /-- Afterwards the keys are those of the new table. -/
  contains_eq : ∀ k, (d.applyTo old).contains k = new.contains k
  /-- A key that is stored has its new value. -/
  find?_stored : ∀ k, d.addedOrModified.contains k = true → (d.applyTo old).find? k = new.find? k
  /-- Any other key has its old value, and this one counts as the new one. -/
  find?_kept : ∀ k w, d.addedOrModified.contains k = false → new.find? k = some w →
    ∃ v, old.find? k = some v ∧ equal v w = true ∧ (d.applyTo old).find? k = some v
  /-- Entries are removed only if their key is gone. -/
  of_removed : ∀ e ∈ d.removed.entries, e ∈ old.entries ∧ new.contains e.1 = false
  /-- Entries are stored only if their key is new or their value has changed. -/
  of_stored : ∀ e ∈ d.addedOrModified.entries, e ∈ new.entries ∧
    (old.contains e.1 = false ∨ ∃ v, old.find? e.1 = some v ∧ equal v e.2 = false)

variable {new old : Table κ ν} {equal : ν → ν → Bool}

/-- Stored is what the old table does not accept. -/
theorem addedOrModified_between (new old : Table κ ν) (equal : ν → ν → Bool) :
    (between new old equal).addedOrModified = new.filter fun e => !old.accepts (flip equal) e := by
  refine congrArg (fun p => new.filter p) (funext fun e => ?_)
  rw [Table.accepts]
  cases old.find? e.1 <;> rfl

theorem mem_addedOrModified {e : κ × ν} : e ∈ (between new old equal).addedOrModified.entries ↔
    e ∈ new.entries ∧ old.accepts (flip equal) e = false := by
  rw [addedOrModified_between, ← Bool.not_eq_true']
  exact List.mem_filter

theorem mem_removed {e : κ × ν} : e ∈ (between new old equal).removed.entries ↔
    e ∈ old.entries ∧ new.contains e.1 = false := by
  rw [← Bool.not_eq_true']
  exact List.mem_filter

section PartialEquivBEq

variable [PartialEquivBEq κ]

theorem find?_addedOrModified (k : κ) : (between new old equal).addedOrModified.find? k =
    (new.find? k).filter fun w => !old.accepts (flip equal) (k, w) := by
  rw [addedOrModified_between]
  refine Table.find?_filter (p := fun k w => !old.accepts (flip equal) (k, w)) (fun k k' w hk => ?_) k new
  rw [Table.accepts, Table.accepts, old.find?_congr hk]

theorem contains_addedOrModified_iff {k : κ} : (between new old equal).addedOrModified.contains k = true ↔
    ∃ w, new.find? k = some w ∧ old.accepts (flip equal) (k, w) = false := by
  rw [Table.contains_eq_isSome, find?_addedOrModified]
  cases new.find? k <;> simp [Option.filter_some]

theorem contains_removed (k : κ) :
    (between new old equal).removed.contains k = (old.contains k && !new.contains k) := by
  have hselect := Table.find?_filter (p := fun k (_ : ν) => !new.contains k) (fun k k' _ hk => by
    rw [Table.contains, Table.contains, new.entryOf?_congr hk]) k old
  rw [Table.contains_eq_isSome, Table.contains_eq_isSome old]
  show ((old.filter fun e => !new.contains e.1).find? k).isSome = _
  rw [hselect]
  cases old.find? k with
  | none => rfl
  | some v => cases new.contains k <;> simp

/-- What is there after a difference was carried out. -/
theorem find?_applyTo (d : MapDiff κ ν) (old : Table κ ν) (k : κ) : (d.applyTo old).find? k =
    (d.addedOrModified.find? k).or (if d.removed.contains k then none else old.find? k) := by
  have hany : d.removed.keys.any (· == k) = d.removed.contains k := by
    rw [Table.keys, List.any_map, Table.contains_eq_has]
    rfl
  rw [applyTo, Table.find?_insertAll d.addedOrModified.distinct, Table.find?_eraseAll, hany]
  rfl

/-- **The patched table**: it has the keys of the new one, each with its old value if this one counts as the
new one, and otherwise with the new one. -/
theorem find?_patched (new old : Table κ ν) (equal : ν → ν → Bool) (k : κ) :
    ((between new old equal).applyTo old).find? k = (new.find? k).map fun w =>
      match old.find? k with
      | some v => if equal v w then v else w
      | none => w := by
  rw [find?_applyTo, find?_addedOrModified, contains_removed, Table.contains_eq_isSome,
    Table.contains_eq_isSome]
  cases new.find? k with
  | none => cases old.find? k <;> rfl
  | some w =>
    rw [Option.filter_some, Table.accepts]
    dsimp only
    cases old.find? k with
    | none => rfl
    | some v => cases h : equal v w <;> simp [flip, h]

theorem isPatch_between (new old : Table κ ν) (equal : ν → ν → Bool) :
    (between new old equal).IsPatch new old equal where
  disjoint := by
    intro e he e' he'
    have hgone := (mem_removed.1 he').2
    refine Bool.eq_false_iff.2 fun hk => ?_
    rw [Table.contains_iff.2 ⟨e, (mem_addedOrModified.1 he).1, hk⟩] at hgone
    cases hgone
  contains_eq := by
    intro k
    rw [Table.contains_eq_isSome, find?_patched, Option.isSome_map, ← Table.contains_eq_isSome]
  find?_stored := by
    intro k hk
    obtain ⟨w, hw, hrefused⟩ := contains_addedOrModified_iff.1 hk
    rw [find?_patched, hw, Option.map_some]
    rcases Table.accepts_eq_false_iff.1 hrefused with habsent | ⟨v, hv, hvw⟩
    · rw [Table.contains_eq_isSome, Option.isSome_eq_false_iff, Option.isNone_iff_eq_none] at habsent
      rw [habsent]
    · rw [hv]
      exact congrArg some (if_neg (Bool.eq_false_iff.1 hvw))
  find?_kept := by
    intro k w hk hw
    have haccepted : old.accepts (flip equal) (k, w) = true := by
      rw [← Bool.not_eq_false]
      exact fun hrefused => Bool.eq_false_iff.1 hk (contains_addedOrModified_iff.2 ⟨w, hw, hrefused⟩)
    obtain ⟨v, hv, hvw⟩ := Table.accepts_eq_true_iff.1 haccepted
    refine ⟨v, hv, hvw, ?_⟩
    rw [find?_patched, hw, hv, Option.map_some]
    exact congrArg some (if_pos hvw)
  of_removed := fun e he => mem_removed.1 he
  of_stored := fun e he => ⟨(mem_addedOrModified.1 he).1,
    Table.accepts_eq_false_iff.1 (mem_addedOrModified.1 he).2⟩

/-- There is no difference if the tables are the same. -/
theorem isEmpty_between_iff :
    (between new old equal).isEmpty = true ↔ Corresponds equal old.entries new.entries := by
  rw [isEmpty, Table.isEmpty, Table.isEmpty, Bool.and_eq_true, List.isEmpty_iff, List.isEmpty_iff,
    List.eq_nil_iff_forall_not_mem, List.eq_nil_iff_forall_not_mem, ← Corresponds.swap_iff,
    Table.corresponds_iff]
  refine and_congr (forall_congr' fun e => ?_) (forall_congr' fun e => ?_)
  · rw [mem_addedOrModified, not_and, Bool.not_eq_false]
  · rw [mem_removed, not_and, Bool.not_eq_false, Table.contains_iff]
    simp only [BEq.comm]

end PartialEquivBEq

variable [EquivBEq κ]

/-- **A difference is an exact patch**, whatever counts as unchanged.  If values have an equality by
themselves, under which each is equal to itself, and are compared by it, the patched table is the new one as
far as that equality can tell. -/
theorem patches (new old : Table κ ν) :
    (∀ equal : ν → ν → Bool, (between new old equal).IsPatch new old equal) ∧
      ∀ [BEq ν] [ReflBEq ν],
        ((between new old Equality.native.holds).applyTo old).sameAs new = true := by
  refine ⟨isPatch_between new old, Table.sameAs_of_find? (isPatch_between new old _).contains_eq ?_⟩
  intro k v w hv hw
  rw [find?_patched, hw, Option.map_some, Option.some.injEq] at hv
  subst hv
  -- what is there is the old value if it counts as the new one, and otherwise the new one itself
  split
  · split
    · assumption
    · exact BEq.rfl
  · exact BEq.rfl

/-- A value that has shrunk, a key that is new, one that is gone, and a value that has grown, which does not
count as a change. -/
theorem patches_shrunk : ∃ new old : Table FoldedKey Nat,
    new = .ofList [(⟨.null⟩, 5), (⟨.bool true⟩, 1), (⟨.int 3⟩, 9)] ∧
    old = .ofList [(⟨.null⟩, 7), (⟨.bool false⟩, 2), (⟨.int 3⟩, 4)] ∧
    ((between new old Nat.ble).applyTo old).entries = [(⟨.null⟩, 5), (⟨.int 3⟩, 4), (⟨.bool true⟩, 1)] ∧
    (between new old Nat.ble).IsPatch new old Nat.ble ∧
    ((between new old Equality.native.holds).applyTo old).sameAs new = true := by
  refine ⟨_, _, rfl, rfl, ?_, (patches _ _).1 Nat.ble, (patches _ _).2⟩
  decide +kernel

variable {θ : Type} [ConcurrentTable θ κ ν] [LawfulConcurrentTable θ]

theorem isEmpty_between_getAll (eq : ν → ν → Bool) (a b : AnyMap κ ν θ) :
    (between a.getAll b.getAll eq).isEmpty = b.equals (.other a) eq := by
  rw [Bool.eq_iff_iff, isEmpty_between_iff, AnyMap.equals_other, Table.matchedBy_iff]

/-- **There is no difference between two tables exactly if they are the same as maps**, of whichever kinds and
whichever table concurrent ones have, where the old one is asked and the test takes the old value first.  So
it is with the contents of any two maps. -/
theorem isEmpty_eq_equals (eq : ν → ν → Bool) :
    (∀ (new old : Table κ ν) (kind kind' : TableKind) (equality equality' : Option (Equality ν)),
      (between new old eq).isEmpty =
        (AnyMap.ofTable kind old equality : AnyMap κ ν θ).equals
          (.other (AnyMap.ofTable kind' new equality')) eq) ∧
    ∀ a b : AnyMap κ ν θ, (between a.getAll b.getAll eq).isEmpty = b.equals (.other a) eq := by
  refine ⟨fun new old kind kind' equality equality' => ?_, isEmpty_between_getAll eq⟩
  have hold := AnyMap.perm_ofTable (θ := θ) kind old equality
  have hnew := AnyMap.perm_ofTable (θ := θ) kind' new equality'
  rw [Bool.eq_iff_iff, isEmpty_between_iff, AnyMap.equals_other_iff]
  exact ⟨fun h => h.of_perm hold.symm hnew.symm, fun h => h.of_perm hold hnew⟩

/-- Values that have grown are no difference, and the other way round they are one. -/
theorem isEmpty_eq_equals_grown : ∃ new old : Table FoldedKey Nat,
    new = .ofList [(⟨.text "A"⟩, 2), (⟨.text "b"⟩, 1)] ∧ old = .ofList [(⟨.text "B"⟩, 1), (⟨.text "a"⟩, 1)] ∧
    (AnyMap.ofTable .concurrent old none : AnyMap _ _ (StripedTable FoldedKey Nat)).equals
      (.other (AnyMap.ofTable (.locked .readWrite) new none)) Nat.ble = true ∧
    (AnyMap.ofTable (.locked .readWrite) new none : AnyMap _ _ (StripedTable FoldedKey Nat)).equals
      (.other (AnyMap.ofTable .concurrent old none)) Nat.ble = false := by
  have hA : ((⟨.text "a"⟩ : FoldedKey) == ⟨.text "A"⟩) = true := FoldedKey.text_beq_text (by decide)
  have hB : ((⟨.text "B"⟩ : FoldedKey) == ⟨.text "b"⟩) = true := FoldedKey.text_beq_text (by decide)
  have hBA : ((⟨.text "B"⟩ : FoldedKey) == ⟨.text "a"⟩) = false := by decide +kernel
  have hpair (le : Nat → Nat → Bool) := Table.corresponds_pair_iff le hB hA hBA 1 1 1 2
  refine ⟨_, _, rfl, rfl, ?_, ?_⟩
  · rw [← (isEmpty_eq_equals Nat.ble).1, isEmpty_between_iff, hpair]
    decide
  · rw [← (isEmpty_eq_equals Nat.ble).1, ← Bool.not_eq_true, isEmpty_between_iff, ← Corresponds.swap_iff, hpair]
    decide

end MapDiff

end Containers
