import Containers.Proofs.Map.Agreement
import Containers.Set.Any
import Mathlib.Tactic.Tauto

/-!
# What a set keeps

A set behind a lock keeps more than its members: it puts off having a table until one is needed, and counts
the members beside it.  Neither shows in an answer.  A set without a table answers as one whose table is
empty (`LockedSet.table`), and the count is the size of that table after every history (`LockedSet.Counted`).

So a set is a plain list of members, to which something is added unless an equal one is there
(`ReferenceSet`), and a concurrent set, whichever lawful table it has, lists the same members in an order of
its own.  Whether there is a table can be told from the history alone: the last `add` has brought it into
being, or else the list that the set was made of, unless a `clear` has come after it
(`LockedSet.isAllocated_after`).
-/

set_option autoImplicit false

namespace Containers

variable {κ ν : Type}

/-- Answers that differ at most in the order of what they list. -/
inductive SetReply.Alike : Except Fault (SetReply κ) → Except Fault (SetReply κ) → Prop
  | same (answer : Except Fault (SetReply κ)) : Alike answer answer
  | members {ks ks' : Array κ} (h : ks.Perm ks') : Alike (.ok (.members ks)) (.ok (.members ks'))

theorem SetReply.alike_ok {β : Type} (reply : β → SetReply κ) {a b : β} (h : a = b) :
    Alike (.ok (reply a)) (.ok (reply b)) := by
  rw [h]
  exact .same _

/-- Something was added, and no `clear` has come since. -/
def SetCall.AddSinceClear (cs : List (SetCall κ)) : Prop :=
  ∃ earlier k later, cs = earlier ++ .add k :: later ∧ .clear ∉ later

theorem SetCall.addSinceClear_cons (c : SetCall κ) (cs : List (SetCall κ)) :
    AddSinceClear (c :: cs) ↔ AddSinceClear cs ∨ (∃ k, c = .add k) ∧ .clear ∉ cs := by
  constructor
  · rintro ⟨earlier, k, later, hcs, hlater⟩
    cases earlier with
    | nil =>
      obtain ⟨rfl, rfl⟩ := List.cons.inj hcs
      exact .inr ⟨⟨k, rfl⟩, hlater⟩
    | cons d earlier => exact .inl ⟨earlier, k, later, (List.cons.inj hcs).2, hlater⟩
  · rintro (⟨earlier, k, later, rfl, hlater⟩ | ⟨⟨k, rfl⟩, hcs⟩)
    · exact ⟨c :: earlier, k, later, rfl, hlater⟩
    · exact ⟨[], k, cs, rfl, hcs⟩

variable [BEq κ]

/-! ## Sets as plain lists of members -/

namespace ReferenceSet

/-- Whether an equal member is listed. -/
def has (k : κ) (ms : List κ) : Bool := ms.any (· == k)

/-- Adds a member, unless an equal one is listed, which then stays as it is spelled. -/
def enlist (k : κ) (ms : List κ) : List κ := if has k ms then ms else ms ++ [k]

/-- Drops the members that are equal to the given one. -/
def dismiss (k : κ) (ms : List κ) : List κ := ms.filter fun m => !(m == k)

/-- The members of a list, the first of equal ones. -/
def ofList (ks : List κ) : List κ := ks.foldl (fun ms k => enlist k ms) []

theorem enlist_ne_nil (k : κ) (ms : List κ) : enlist k ms ≠ [] := by
  rw [enlist]
  cases ms with
  | nil => exact List.cons_ne_nil k []
  | cons m ms => split <;> exact List.cons_ne_nil m _

theorem ofList_ne_nil_iff {ks : List κ} : ofList ks ≠ [] ↔ ks ≠ [] := by
  rcases ks.eq_nil_or_concat with rfl | ⟨ks, k, rfl⟩
  · exact Iff.rfl
  · rw [List.concat_eq_append, ofList, List.foldl_concat]
    exact iff_of_true (enlist_ne_nil _ _) (by simp)

/-- Puts a call to the list. -/
def ask (c : SetCall κ) (ms : List κ) : Except Fault (SetReply κ) × List κ :=
  match c with
  | .add k => (.ok (.flag !(has k ms)), enlist k ms)
  | .delete k => (.ok (.flag (has k ms)), dismiss k ms)
  | .has k => (.ok (.flag (has k ms)), ms)
  | .size => (.ok (.count ms.length), ms)
  | .isEmpty => (.ok (.flag ms.isEmpty), ms)
  | .clear => (.ok .done, [])
  | .toArray => (.ok (.members ms.toArray), ms)

end ReferenceSet

/-! ## The keys of a table -/

namespace Table

theorem has_keys (k : κ) (t : Table κ ν) : ReferenceSet.has k t.keys = t.contains k := by
  rw [contains_eq_has, ReferenceSet.has, keys, List.any_map]
  rfl

theorem length_keys (t : Table κ ν) : t.keys.length = t.size := List.length_map ..

theorem size_insert (k : κ) (v : ν) (t : Table κ ν) :
    (t.insert k v).size = if t.contains k then t.size else t.size + 1 := by
  have hentries : (t.insert k v).entries =
      if ReferenceMap.has k t.entries then replaceEntry k v t.entries else t.entries ++ [(k, v)] :=
    insertEntry_eq k v t.entries
  rw [contains_eq_has, ← length_keys, ← length_keys, keys, hentries]
  split
  · rw [keys_replaceEntry, keys]
  · rw [List.map_append, List.length_append, keys]
    rfl

theorem size_erase (k : κ) (t : Table κ ν) :
    (t.erase k).size = if t.contains k then t.size - 1 else t.size := by
  rw [contains_eq_has]
  exact List.length_eraseP

variable [PartialEquivBEq κ]

theorem keys_insert (k : κ) (v : ν) (t : Table κ ν) :
    (t.insert k v).keys = ReferenceSet.enlist k t.keys := by
  rw [ReferenceSet.enlist, has_keys, contains_eq_has, keys, entries_insert, ReferenceMap.store]
  split
  · have hspelling : Prod.fst ∘ (fun e : κ × ν => if e.1 == k then (e.1, v) else e) = Prod.fst := by
      funext e
      exact apply_ite Prod.fst .. |>.trans (ite_self _)
    rw [ReferenceMap.overwrite, List.map_map, hspelling, keys]
  · exact List.map_append

theorem keys_erase (k : κ) (t : Table κ ν) : (t.erase k).keys = ReferenceSet.dismiss k t.keys := by
  rw [keys, entries_erase, ReferenceMap.remove, ReferenceSet.dismiss, keys, List.filter_map]
  rfl

theorem keys_ofList (ks : List κ) :
    (ofList (ks.map fun k => (k, ())) : Table κ Unit).keys = ReferenceSet.ofList ks := by
  suffices h : ∀ t : Table κ Unit, (t.insertAll (ks.map fun k => (k, ()))).keys =
      ks.foldl (fun ms k => ReferenceSet.enlist k ms) t.keys from h .empty
  induction ks with
  | nil => exact fun t => rfl
  | cons k ks ih =>
    intro t
    rw [List.foldl_cons, ← keys_insert k () t]
    exact ih (t.insert k ())

end Table

/-! ## Sets behind a lock -/

namespace LockedSet

variable {s : LockedSet κ}

/-- The table, or an empty one where there is none. -/
def table (s : LockedSet κ) : Table κ Unit := s.members.contents.table.getD .empty

/-- The count is the number of members. -/
def Counted (s : LockedSet κ) : Prop := s.size = s.table.size

/-- The parts of a set fit together. -/
structure Consistent (s : LockedSet κ) : Prop where
  /-- The count is the number of members in the table, and zero without one. -/
  size_eq : s.size = (s.members.contents.table.map Table.size).getD 0
  /-- As many members are listed. -/
  size_toArray : s.toArray.size = s.size
  /-- No two members that are listed are equal. -/
  distinct : s.toArray.toList.Pairwise fun a b => (a == b) = false
  /-- What is a member is listed, in this spelling or in another. -/
  has_iff : ∀ k, s.has k = true ↔ ∃ m ∈ s.toArray, (m == k) = true
  /-- A removal that finds something can count down. -/
  size_pos : ∀ k, s.has k = true → 0 < s.size

theorem has_eq (k : κ) (s : LockedSet κ) : s.has k = s.table.contains k := by
  obtain ⟨⟨kind, table, size⟩⟩ := s
  cases table <;> rfl

theorem toArray_eq (s : LockedSet κ) : s.toArray = s.table.keys.toArray := by
  obtain ⟨⟨kind, table, size⟩⟩ := s
  cases table <;> rfl

theorem Counted.consistent (h : s.Counted) : s.Consistent where
  size_eq := by
    rw [h, table]
    cases s.members.contents.table <;> rfl
  size_toArray := by rw [h, toArray_eq, List.size_toArray, Table.length_keys]
  distinct := by
    rw [toArray_eq]
    exact Table.pairwise_iff_keys.1 s.table.distinct
  has_iff k := by
    rw [has_eq, toArray_eq, ← Table.has_keys, ReferenceSet.has, List.any_eq_true]
    simp
  size_pos k hk := by
    rw [has_eq, ← Table.has_keys, ReferenceSet.has, List.any_eq_true] at hk
    obtain ⟨m, hm, -⟩ := hk
    rw [h, ← Table.length_keys]
    exact List.length_pos_of_mem hm

/-! What calls do to the table and to the count. -/

theorem size_add (k : κ) (s : LockedSet κ) :
    (s.add k).2.size = if s.table.contains k then s.size else s.size + 1 := by
  show (if !s.table.contains k then s.size + 1 else s.size) = _
  cases s.table.contains k <;> rfl

theorem delete_fst (k : κ) (s : LockedSet κ) : (s.delete k).1 = s.table.contains k := by
  obtain ⟨⟨kind, table, size⟩⟩ := s
  cases table <;> rfl

theorem table_delete (k : κ) (s : LockedSet κ) : (s.delete k).2.table = s.table.erase k := by
  obtain ⟨⟨kind, table, size⟩⟩ := s
  cases table <;> rfl

theorem size_delete (k : κ) (s : LockedSet κ) :
    (s.delete k).2.size = if s.table.contains k then s.size - 1 else s.size := by
  obtain ⟨⟨kind, table, size⟩⟩ := s
  cases table <;> rfl

theorem isAllocated_delete (k : κ) (s : LockedSet κ) : (s.delete k).2.isAllocated = s.isAllocated := by
  obtain ⟨⟨kind, table, size⟩⟩ := s
  cases table <;> rfl

/-- A set made of a list has the table of its members, unless that is empty, and counts them. -/
theorem parts_ofList (lock : LockKind) (ks : List κ) :
    (ofList lock ks).table = .ofList (ks.map fun k => (k, ())) ∧
      (ofList lock ks).size = (Table.ofList (ks.map fun k => (k, ()))).size ∧
      ((ofList lock ks).isAllocated = true ↔ (Table.ofList (ks.map fun k => (k, ()))).keys ≠ []) := by
  simp only [ofList, table, size, isAllocated, Locked.read, CountedTable.ofList]
  obtain ⟨entries, distinct⟩ := (Table.ofList (ks.map fun k => (k, ())) : Table κ Unit)
  cases entries with
  | nil => exact ⟨rfl, rfl, iff_of_false Bool.false_ne_true fun h => h rfl⟩
  | cons e es => exact ⟨rfl, rfl, iff_of_true rfl (List.cons_ne_nil _ _)⟩

theorem counted_ofList (lock : LockKind) (ks : List κ) : (ofList lock ks).Counted := by
  obtain ⟨htable, hsize, -⟩ := parts_ofList lock ks
  rw [Counted, htable, hsize]

theorem counted_run (c : SetCall κ) (h : s.Counted) : (s.run c).state.Counted := by
  cases c with
  | add k =>
    have hadd : (s.add k).2.table = s.table.insert k () := rfl
    show (s.add k).2.size = (s.add k).2.table.size
    rw [size_add, hadd, Table.size_insert, h]
  | delete k =>
    show (s.delete k).2.size = (s.delete k).2.table.size
    rw [size_delete, table_delete, Table.size_erase, h]
  | clear => rfl
  | has | size | isEmpty | toArray => exact h

/-! ### Having a table -/

/-- There is a table after an `add` and none after a `clear`; other calls leave that as it is. -/
theorem isAllocated_run (c : SetCall κ) (s : LockedSet κ) :
    (s.run c).state.isAllocated = true ↔ (∃ k, c = .add k) ∨ s.isAllocated = true ∧ .clear ≠ c := by
  cases c with
  | add k => exact iff_of_true rfl (.inl ⟨k, rfl⟩)
  | clear => exact iff_of_false Bool.false_ne_true (by simp)
  | delete k =>
    rw [run, Outcome.state_done, isAllocated_delete]
    simp
  | has | size | isEmpty | toArray => simp [run]

/-- Which calls decide whether there is a table: the last `add` and the last `clear`. -/
theorem isAllocated_after (cs : List (SetCall κ)) (s : LockedSet κ) :
    (after run cs s).isAllocated = true ↔
      SetCall.AddSinceClear cs ∨ s.isAllocated = true ∧ .clear ∉ cs := by
  induction cs generalizing s with
  | nil => simp [after, SetCall.AddSinceClear]
  | cons c cs ih =>
    rw [after, ih, isAllocated_run, SetCall.addSinceClear_cons, List.mem_cons, not_or]
    tauto

section Calls

variable [PartialEquivBEq κ]

/-- A set behind a lock answers as the list of its members does, and keeps what the list becomes. -/
theorem ask_reference (c : SetCall κ) (h : s.Counted) :
    (s.run c).answer = (ReferenceSet.ask c s.table.keys).1 ∧
      (s.run c).state.table.keys = (ReferenceSet.ask c s.table.keys).2 := by
  have hsize : s.size = s.table.keys.length := by rw [h, Table.length_keys]
  cases c with
  | add k =>
    rw [ReferenceSet.ask, Table.has_keys]
    exact ⟨rfl, Table.keys_insert k () s.table⟩
  | delete k =>
    rw [ReferenceSet.ask, Table.has_keys, run, delete_fst, ← Table.keys_erase, ← table_delete]
    exact ⟨rfl, rfl⟩
  | has k =>
    rw [ReferenceSet.ask, Table.has_keys, run, has_eq]
    exact ⟨rfl, rfl⟩
  | size =>
    rw [ReferenceSet.ask, run, hsize]
    exact ⟨rfl, rfl⟩
  | isEmpty =>
    have hempty : s.table.keys.isEmpty = (s.table.keys.length == 0) := by
      cases s.table.keys <;> rfl
    rw [ReferenceSet.ask, run, isEmpty, hsize, hempty]
    exact ⟨rfl, rfl⟩
  | clear => exact ⟨rfl, rfl⟩
  | toArray =>
    rw [ReferenceSet.ask, run, toArray_eq]
    exact ⟨rfl, rfl⟩

theorem history_reference (cs : List (SetCall κ)) (h : s.Counted) :
    history (asked run) cs s = history ReferenceSet.ask cs s.table.keys := by
  refine history_eq (R := fun s ms => s.Counted ∧ s.table.keys = ms) ?_ cs ⟨h, rfl⟩
  rintro c s _ ⟨h, rfl⟩
  obtain ⟨hanswer, hstate⟩ := ask_reference c h
  exact ⟨hanswer, counted_run c h, hstate⟩

end Calls

end LockedSet

/-! ## Concurrent sets -/

namespace ConcurrentSet

variable [EquivBEq κ] {θ : Type} [ConcurrentTable θ κ Unit] [LawfulConcurrentTable θ]
  {m : ConcurrentSet θ} {s : LockedSet κ}

open SetReply (Alike alike_ok)
open ConcurrentTable (Mirrors)

/-- One call on the two kinds of set. -/
theorem run_mirrors (h : Mirrors m.table s.table) (hs : s.Counted) (c : SetCall κ) :
    Alike (s.run c).answer (m.run c).answer ∧ Mirrors (m.run c).state.table (s.run c).state.table := by
  have hsize : s.size = m.size := hs.trans h.size_eq.symm
  cases c with
  | add k =>
    have hnews : (!s.table.contains k) = (ConcurrentTable.insert k () m.table).1.isNone := by
      rw [Table.contains_eq_isSome, ← h.insert_fst_eq k (), Option.not_isSome]
    exact ⟨alike_ok .flag hnews, h.insert k ()⟩
  | delete k =>
    rw [run, LockedSet.run, LockedSet.delete_fst, Outcome.state_done, Outcome.state_done,
      LockedSet.table_delete]
    refine ⟨alike_ok .flag ?_, h.remove k⟩
    exact (congrArg Option.isSome (h.remove_fst_eq k)).symm
  | has k =>
    rw [run, LockedSet.run, LockedSet.has_eq]
    exact ⟨alike_ok .flag (h.contains_eq k).symm, h⟩
  | size => exact ⟨alike_ok .count hsize, h⟩
  | isEmpty => exact ⟨alike_ok (fun n => .flag (n == 0)) hsize, h⟩
  | clear => exact ⟨.same _, ConcurrentTable.mirrors_clear m.table⟩
  | toArray =>
    rw [run, LockedSet.run, LockedSet.toArray_eq]
    exact ⟨.members (h.perm.symm.map Prod.fst).toArray, h⟩

theorem history_mirrors (h : Mirrors m.table s.table) (hs : s.Counted) (cs : List (SetCall κ)) :
    List.Forall₂ Alike (history (asked LockedSet.run) cs s) (history (asked run) cs m) := by
  refine history_forall₂ (R := fun s m => Mirrors m.table s.table ∧ s.Counted) ?_ cs ⟨h, hs⟩
  rintro c s m ⟨h, hs⟩
  obtain ⟨hanswer, hstate⟩ := run_mirrors h hs c
  exact ⟨hanswer, hstate, LockedSet.counted_run c hs⟩

end ConcurrentSet

/-! ## Every history -/

namespace LockedSet

variable [EquivBEq κ] {θ : Type} [ConcurrentTable θ κ Unit] [LawfulConcurrentTable θ]

open SetReply (Alike)

/-- **A set is a list of members**, each as it was spelled when it was added.  Its parts fit together after
every history, it has a table exactly if something has been put into it since it was last cleared, and it
answers as the list does, and as a concurrent set does up to the order of members, whichever table that one
has.  A set that is made of nothing is one of these. -/
theorem history_members (lock : LockKind) (ks : List κ) (cs : List (SetCall κ)) :
    (empty lock : LockedSet κ) = ofList lock [] ∧
      List.Forall₂ Alike (history (asked run) cs (empty lock : LockedSet κ))
        (history (asked ConcurrentSet.run) cs (.empty : ConcurrentSet θ)) ∧
      (after run cs (ofList lock ks)).Consistent ∧
      ((after run cs (ofList lock ks)).isAllocated = true ↔
        SetCall.AddSinceClear cs ∨ ks ≠ [] ∧ .clear ∉ cs) ∧
      history (asked run) cs (ofList lock ks) = history ReferenceSet.ask cs (ReferenceSet.ofList ks) ∧
      List.Forall₂ Alike (history (asked run) cs (ofList lock ks))
        (history (asked ConcurrentSet.run) cs (.ofList ks : ConcurrentSet θ)) := by
  have hcounted : (ofList lock ks).Counted := counted_ofList lock ks
  obtain ⟨htable, -, hallocated⟩ := parts_ofList lock ks
  have hmirrors : ConcurrentTable.Mirrors (ConcurrentTable.ofList (ks.map fun k => (k, ())) : θ)
      (ofList lock ks).table := by
    rw [htable]
    exact ConcurrentTable.mirrors_ofList _
  rw [Table.keys_ofList, ReferenceSet.ofList_ne_nil_iff] at hallocated
  refine ⟨rfl, ?empty, ?consistent, ?allocated, ?reference, ?concurrent⟩
  case empty =>
    exact ConcurrentSet.history_mirrors ConcurrentTable.mirrors_empty (counted_ofList lock []) cs
  case consistent => exact (after_invariant (fun c s => counted_run c) cs hcounted).consistent
  case allocated => rw [isAllocated_after, hallocated]
  case reference => rw [history_reference cs hcounted, htable, Table.keys_ofList]
  case concurrent => exact ConcurrentSet.history_mirrors hmirrors hcounted cs

/-- Two spellings of one member: the first is kept until it is removed, and both are counted once.  A striped
table does the same. -/
theorem history_members_spellings : ∃ (ks : List FoldedKey) (cs : List (SetCall FoldedKey)),
    ks = [⟨.text "A"⟩, ⟨.text "a"⟩] ∧
    cs = [.add ⟨.text "a"⟩, .toArray, .size, .delete ⟨.text "a"⟩, .delete ⟨.text "a"⟩, .size, .clear,
      .delete ⟨.text "A"⟩, .add ⟨.text "a"⟩, .add ⟨.text "A"⟩, .toArray] ∧
    history ReferenceSet.ask cs (ReferenceSet.ofList ks) =
      [.ok (.flag false), .ok (.members #[⟨.text "A"⟩]), .ok (.count 1), .ok (.flag true),
        .ok (.flag false), .ok (.count 0), .ok .done, .ok (.flag false), .ok (.flag true),
        .ok (.flag false), .ok (.members #[⟨.text "a"⟩])] ∧
    history (asked run) cs (ofList .exclusive ks) =
      history ReferenceSet.ask cs (ReferenceSet.ofList ks) ∧
    List.Forall₂ Alike (history (asked run) cs (ofList .exclusive ks))
      (history (asked ConcurrentSet.run) cs (.ofList ks : ConcurrentSet (StripedTable FoldedKey Unit))) := by
  refine ⟨_, _, rfl, rfl, ?_, ?_, ?_⟩
  · decide +kernel
  · exact (history_members (θ := StripedTable FoldedKey Unit) .exclusive _ _).2.2.2.2.1
  · exact (history_members .exclusive _ _).2.2.2.2.2

end LockedSet

/-! ## Sets of any kind -/

variable {θ : Type} [ConcurrentTable θ κ Unit]

theorem ConcurrentSet.size_toArray [LawfulConcurrentTable θ] (s : ConcurrentSet θ) :
    s.toArray.size = s.size := by
  rw [toArray, size, LawfulConcurrentTable.size_eq, List.size_toArray, List.length_map]

namespace AnySet

theorem after_locked (cs : List (SetCall κ)) (s : LockedSet κ) :
    after run cs (.locked s : AnySet κ θ) = .locked (after LockedSet.run cs s) := by
  induction cs generalizing s with
  | nil => rfl
  | cons c cs ih => exact ih _

theorem after_concurrent (cs : List (SetCall κ)) (s : ConcurrentSet θ) :
    after run cs (.concurrent s) = .concurrent (after ConcurrentSet.run cs s) := by
  induction cs generalizing s with
  | nil => rfl
  | cons c cs ih => exact ih _

/-- A set that has just been made, of nothing or of the members of a list. -/
def New (s : AnySet κ θ) : Prop := ∃ kind, s = .empty kind ∨ ∃ ks, s = .ofList kind ks

/-- A set lists as many members as it counts, whatever was asked of it before. -/
theorem size_toArray_after [LawfulConcurrentTable θ] {s : AnySet κ θ} (hs : s.New)
    (cs : List (SetCall κ)) : (after run cs s).toArray.size = (after run cs s).size := by
  cases s with
  | locked s =>
    have hcounted : s.Counted := by
      obtain ⟨lock | -, hs | ⟨ks, hs⟩⟩ := hs <;> cases hs
      · exact LockedSet.counted_ofList lock []
      · exact LockedSet.counted_ofList lock ks
    rw [after_locked]
    exact (after_invariant (fun c s => LockedSet.counted_run c) cs hcounted).consistent.size_toArray
  | concurrent s =>
    rw [after_concurrent]
    exact ConcurrentSet.size_toArray _

end AnySet

end Containers
