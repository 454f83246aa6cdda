import Containers.Proofs.Map.Locality

/-!
# Replacing a value if it is the expected one

A conditional replacement has four ends.  The key is absent, and nothing is asked of the values; it is
present and the map has no equality to compare values by, which is a fault; or the equality is asked about
the stored value and the expected one, in this order, and it says yes or no.  Only the yes changes the map,
and it changes the value of one entry.

* `AnyMap.Has` is an entry as the map lists it, and the ends are told apart by what is listed.
* `AnyMap.state_compareAndSwap` is what a replacement leaves: the map with one value changed
  (`AnyMap.withValue`), or the map itself.  After a fault it is the map itself, and not merely one that lists
  the same, so nothing that is asked later can tell that the call was made.
* `AnyMap.perm_withValue` is what is listed when one value has changed.
-/

set_option autoImplicit false

namespace Containers

variable {κ ν : Type}

/-! ## What is left -/

theorem ConcurrentMap.state_compareAndSwap {θ : Type} [ConcurrentTable θ κ ν] (k : κ) (old new : ν)
    (m : ConcurrentMap θ ν) :
    ((m.compareAndSwap k old new).answer = .ok true ∧
        (m.compareAndSwap k old new).state = ⟨ConcurrentTable.replace k new m.table, m.equality⟩) ∨
      (m.compareAndSwap k old new).answer ≠ .ok true ∧ (m.compareAndSwap k old new).state = m := by
  obtain ⟨t, equality⟩ := m
  rw [compareAndSwap]
  rcases ConcurrentTable.find? t k with - | v
  · simp
  · rcases equality with - | equality
    · simp
    · by_cases hv : equality.holds v old = true
      · simp [hv]
      · simp [hv]

variable [BEq κ]

theorem LockedMap.state_compareAndSwap (k : κ) (old new : ν) (m : LockedMap κ ν) :
    ((m.compareAndSwap k old new).answer = .ok true ∧
        (m.compareAndSwap k old new).state = ⟨m.entries.modify (·.replace k new), m.equality⟩) ∨
      (m.compareAndSwap k old new).answer ≠ .ok true ∧ (m.compareAndSwap k old new).state = m := by
  obtain ⟨⟨kind, t⟩, equality⟩ := m
  simp only [compareAndSwap, Locked.call_eq]
  rcases t.find? k with - | v
  · simp
  · rcases equality with - | equality
    · simp
    · by_cases hv : equality.holds v old = true
      · simp [hv, Locked.modify]
      · simp [hv]

namespace AnyMap

variable {θ : Type} [ConcurrentTable θ κ ν]

/-- The map with another value under a key that is there. -/
def withValue (k : κ) (v : ν) : AnyMap κ ν θ → AnyMap κ ν θ
  | .locked m => .locked ⟨m.entries.modify (·.replace k v), m.equality⟩
  | .concurrent m => .concurrent ⟨ConcurrentTable.replace k v m.table, m.equality⟩

/-- **One value changes if the answer is yes, and nothing otherwise**, be it a no or a fault. -/
theorem state_compareAndSwap (k : κ) (old new : ν) (m : AnyMap κ ν θ) :
    ((m.run (.compareAndSwap k old new)).answer = .ok (.flag true) ∧
        (m.run (.compareAndSwap k old new)).state = m.withValue k new) ∨
      (m.run (.compareAndSwap k old new)).answer ≠ .ok (.flag true) ∧
        (m.run (.compareAndSwap k old new)).state = m := by
  have hflag : ∀ a : Except Fault Bool,
      a.map (.flag : Bool → MapReply κ ν) = .ok (.flag true) ↔ a = .ok true := by
    rintro (f | b) <;> simp [Except.map]
  rcases m with m | m
  · refine (m.state_compareAndSwap k old new).imp ?_ ?_
    · rintro ⟨hyes, hstate⟩
      exact ⟨(hflag _).2 hyes, congrArg locked hstate⟩
    · rintro ⟨hno, hstate⟩
      exact ⟨mt (hflag _).1 hno, congrArg locked hstate⟩
  · refine (m.state_compareAndSwap k old new).imp ?_ ?_
    · rintro ⟨hyes, hstate⟩
      exact ⟨(hflag _).2 hyes, congrArg concurrent hstate⟩
    · rintro ⟨hno, hstate⟩
      exact ⟨mt (hflag _).1 hno, congrArg concurrent hstate⟩

/-! ## What is listed -/

/-- The map lists this entry, and its key equals `k`. -/
def Has (m : AnyMap κ ν θ) (k : κ) (e : κ × ν) : Prop := e ∈ m.all.slice.toList ∧ (e.1 == k) = true

variable [EquivBEq κ] [LawfulConcurrentTable θ] {m : AnyMap κ ν θ} {k : κ}

theorem has_iff {e : κ × ν} : m.Has k e ↔ m.entryOf? k = some e := by
  rw [Has, ← entries_getAll, ← entryOf?_getAll, Table.entryOf?_eq_some_iff]

theorem entryOf?_withValue (k k' : κ) (v : ν) (m : AnyMap κ ν θ) :
    (m.withValue k v).entryOf? k' = (m.getAll.replace k v).entryOf? k' := by
  rw [Table.entryOf?_replace, entryOf?_getAll, entryOf?_getAll]
  rcases m with m | m
  · exact Table.entryOf?_replace k k' v _
  · exact LawfulConcurrentTable.entryOf?_replace k k' v _

theorem perm_withValue (k : κ) (v : ν) (m : AnyMap κ ν θ) :
    (m.withValue k v).all.slice.toList.Perm (ReferenceMap.overwrite k v m.all.slice.toList) := by
  rw [← entries_getAll, ← entries_getAll, ← Table.entries_replace]
  refine Table.perm_of_entryOf?_eq fun k' => ?_
  rw [entryOf?_getAll, entryOf?_withValue]

theorem size_withValue (k : κ) (v : ν) (m : AnyMap κ ν θ) : (m.withValue k v).size = m.size := by
  have hlength := (perm_withValue k v m).length_eq
  rwa [ReferenceMap.overwrite, List.length_map, ← entries_getAll, ← entries_getAll, ← Table.size,
    ← Table.size, size_getAll, size_getAll] at hlength

/-- A map shows its kind, its number of entries and whether it can compare values, and all three stay. -/
theorem shape_withValue (k : κ) (v : ν) (m : AnyMap κ ν θ) : (m.withValue k v).shape = m.shape := by
  have hsize := size_withValue k v m
  rcases m with m | m
  · show Shape.record _ [_, ("len", .count (withValue k v (.locked m : AnyMap κ ν θ)).size), _] = _
    rw [hsize]
    rfl
  · show Shape.record _ [("len", .count (withValue k v (.concurrent m : AnyMap κ ν θ)).size), _] = _
    rw [hsize]
    rfl

/-! ## The four ends -/

/-- What a conditional replacement comes to. -/
structure ReplacesIfEqual (m : AnyMap κ ν θ) (k : κ) (old new : ν) : Prop where
  /-- It faults exactly if the key is present and there is no equality to judge its value by. -/
  fault_iff : (m.run (.compareAndSwap k old new)).answer = .error .missingEquality ↔
    (∃ e, m.Has k e) ∧ m.equality = none
  /-- It says yes exactly if a value is stored that the equality accepts, as the left argument. -/
  yes_iff : (m.run (.compareAndSwap k old new)).answer = .ok (.flag true) ↔
    ∃ e equality, m.Has k e ∧ m.equality = some equality ∧ equality.holds e.2 old = true
  /-- In all other cases it says no. -/
  no_otherwise : (m.run (.compareAndSwap k old new)).answer ≠ .error .missingEquality →
    (m.run (.compareAndSwap k old new)).answer ≠ .ok (.flag true) →
      (m.run (.compareAndSwap k old new)).answer = .ok (.flag false)
  /-- After a yes the value is the new one; no spelling of a key and no other value has changed. -/
  replaced : (m.run (.compareAndSwap k old new)).answer = .ok (.flag true) →
    (m.run (.compareAndSwap k old new)).state.all.slice.toList.Perm
        (m.all.slice.toList.map fun e => if e.1 == k then (e.1, new) else e) ∧
      (m.run (.compareAndSwap k old new)).state.equality = m.equality ∧
      (m.run (.compareAndSwap k old new)).state.shape = m.shape
  /-- After a no or a fault the map is what it was. -/
  untouched : (m.run (.compareAndSwap k old new)).answer ≠ .ok (.flag true) →
    (m.run (.compareAndSwap k old new)).state = m
  /-- So all that is asked later is answered as if the call had not been made. -/
  unnoticed : (m.run (.compareAndSwap k old new)).answer ≠ .ok (.flag true) → ∀ cs,
    history (asked run) (.compareAndSwap k old new :: cs) m =
      (m.run (.compareAndSwap k old new)).answer :: history (asked run) cs m

/-- **A value is replaced if it is the expected one, and then it alone**, in a map of any kind and in every
state, whichever table a concurrent one has.  The key is looked for first: a map without an equality faults
if the key is present, and says no if it is absent. -/
theorem replacesIfEqual (k : κ) (old new : ν) (m : AnyMap κ ν θ) : m.ReplacesIfEqual k old new := by
  have hanswer : (m.run (.compareAndSwap k old new)).answer =
      (EntryCall.compareAndSwap old new).answer m.equality (m.entryOf? k) :=
    (run_on (.compareAndSwap old new) k m).1
  have huntouched : (m.run (.compareAndSwap k old new)).answer ≠ .ok (.flag true) →
      (m.run (.compareAndSwap k old new)).state = m := by
    intro hno
    rcases m.state_compareAndSwap k old new with ⟨hyes, -⟩ | ⟨-, hstate⟩
    · exact absurd hyes hno
    · exact hstate
  constructor
  case fault_iff =>
    simp only [has_iff, hanswer]
    rcases m.entryOf? k with - | e <;> rcases m.equality with - | equality <;> simp [EntryCall.answer]
  case yes_iff =>
    simp only [has_iff, hanswer]
    rcases m.entryOf? k with - | e <;> rcases m.equality with - | equality <;> simp [EntryCall.answer]
  case no_otherwise =>
    rw [hanswer]
    rcases m.entryOf? k with - | e <;> rcases m.equality with - | equality <;> simp [EntryCall.answer]
  case replaced =>
    intro hyes
    rcases m.state_compareAndSwap k old new with ⟨-, hstate⟩ | ⟨hno, -⟩
    · refine ⟨?_, (run_on (.compareAndSwap old new) k m).2.1, ?_⟩
      · rw [hstate]
        exact perm_withValue k new m
      · rw [hstate, shape_withValue]
    · exact absurd hyes hno
  case untouched => exact huntouched
  case unnoticed =>
    intro hno cs
    rw [history]
    show _ :: history (asked run) cs (m.run (.compareAndSwap k old new)).state = _
    rw [huntouched hno]
    rfl

/-- Values compared by an order, so that it matters which of them is the stored one, and a key asked for in
another spelling: the striped map says yes.  The map behind a lock can compare nothing; it faults at the
key that is there, and at the one that is not it says no. -/
theorem replacesIfEqual_spellings : ∃ (t : Table FoldedKey Nat) (a c : FoldedKey)
    (m bare : AnyMap FoldedKey Nat (StripedTable FoldedKey Nat)),
    t = .ofList [(⟨.text "A"⟩, 2), (⟨.text "b"⟩, 5)] ∧ a = ⟨.text "a"⟩ ∧ c = ⟨.text "c"⟩ ∧
    m = ofTable .concurrent t (some ⟨Nat.ble⟩) ∧ bare = ofTable (.locked .exclusive) t none ∧
    (m.run (.compareAndSwap a 3 9)).answer = .ok (.flag true) ∧
    (m.run (.compareAndSwap a 3 9)).state.all.slice.toList.Perm
      [(⟨.text "A"⟩, 9), (⟨.text "b"⟩, 5)] ∧
    (bare.run (.compareAndSwap a 2 9)).answer = .error .missingEquality ∧
    (bare.run (.compareAndSwap a 2 9)).state = bare ∧
    (bare.run (.compareAndSwap c 2 9)).answer = .ok (.flag false) := by
  obtain ⟨t, ht⟩ : ∃ t : Table FoldedKey Nat, t = .ofList [(⟨.text "A"⟩, 2), (⟨.text "b"⟩, 5)] := ⟨_, rfl⟩
  have hentries : t.entries = [(⟨.text "A"⟩, 2), (⟨.text "b"⟩, 5)] := by rw [ht]; decide +kernel
  have hlisted (kind : TableKind) (equality : Option (Equality Nat)) :
      (ofTable kind t equality : AnyMap _ _ (StripedTable FoldedKey Nat)).all.slice.toList.Perm
        [(⟨.text "A"⟩, 2), (⟨.text "b"⟩, 5)] := hentries ▸ perm_ofTable kind t equality
  have hA : ((⟨.text "A"⟩ : FoldedKey) == ⟨.text "a"⟩) = true := FoldedKey.text_beq_text (by decide)
  have hb : ((⟨.text "b"⟩ : FoldedKey) == ⟨.text "a"⟩) = false := by decide +kernel
  have hends := replacesIfEqual ⟨.text "a"⟩ 3 9
    (ofTable .concurrent t (some ⟨Nat.ble⟩) : AnyMap _ _ (StripedTable FoldedKey Nat))
  have hyes := hends.yes_iff.2
    ⟨(⟨.text "A"⟩, 2), _, ⟨(hlisted ..).mem_iff.2 List.mem_cons_self, hA⟩, rfl, rfl⟩
  have hends' := replacesIfEqual ⟨.text "a"⟩ 2 9
    (ofTable (.locked .exclusive) t none : AnyMap _ _ (StripedTable FoldedKey Nat))
  have hfault := hends'.fault_iff.2
    ⟨⟨(⟨.text "A"⟩, 2), (hlisted ..).mem_iff.2 List.mem_cons_self, hA⟩, rfl⟩
  refine ⟨t, _, _, _, _, ht, rfl, rfl, rfl, rfl, hyes, ?_, hfault, ?_, ?_⟩
  · refine (hends.replaced hyes).1.trans (((hlisted ..).map _).trans (.of_eq ?_))
    simp [hA, hb]
  · refine hends'.untouched ?_
    rw [hfault]
    simp
  · rw [ht]
    decide +kernel

end AnyMap

end Containers
