import Containers.Map.Any
import Containers.Map.Striped
import Containers.Proofs.Map.Reference
import Containers.Value.Folded
import Mathlib.Data.List.Perm.Basic

/-!
# Maps of every kind agree

A concurrent map lists its entries in an order of its table's own, and apart from that it cannot be told
from a map behind a lock, whichever lawful table it has.  What the two have in common is what they say about
each key, and from this follows what they list, up to order, since both list each class of equal keys once.

* `ConcurrentTable.Mirrors` relates a concurrent table to a plain one that says the same about every key, and
  `ConcurrentTable.Mirrors.perm` is that they list the same.
* `ConcurrentMap.run_mirrors` compares one call on the two kinds of map, and `AnyMap.run_agrees` one call
  on maps of any kind.
* `AnyMap.history_alike` is the result: every map answers every history as a list of entries does.
-/

set_option autoImplicit false

namespace Containers

variable {κ ν : Type}

/-- Answers that differ at most in the order of what they list. -/
inductive MapReply.Alike : Except Fault (MapReply κ ν) → Except Fault (MapReply κ ν) → Prop
  | same (answer : Except Fault (MapReply κ ν)) : Alike answer answer
  | entries {es es' : List (κ × ν)} (h : es.Perm es') : Alike (.ok (.entries es)) (.ok (.entries es'))
  | keys {ks ks' : List κ} (h : ks.Perm ks') : Alike (.ok (.keys ks)) (.ok (.keys ks'))
  | values {vs vs' : List ν} (h : vs.Perm vs') : Alike (.ok (.values vs)) (.ok (.values vs'))

theorem MapReply.alike_ok {β : Type} (reply : β → MapReply κ ν) {a b : β} (h : a = b) :
    Alike (.ok (reply a)) (.ok (reply b)) := by
  rw [h]
  exact .same _

/-- What is like the same answer is alike. -/
theorem MapReply.Alike.of_common {a b b' : Except Fault (MapReply κ ν)} (h : Alike a b)
    (h' : Alike a b') : Alike b b' := by
  cases h with
  | same => exact h'
  | entries h =>
    cases h' with
    | same => exact .entries h.symm
    | entries h' => exact .entries (h.symm.trans h')
  | keys h =>
    cases h' with
    | same => exact .keys h.symm
    | keys h' => exact .keys (h.symm.trans h')
  | values h =>
    cases h' with
    | same => exact .values h.symm
    | values h' => exact .values (h.symm.trans h')

/-! ## Tables and maps that say the same -/

variable [BEq κ]

namespace ConcurrentTable

variable {θ : Type} [ConcurrentTable θ κ ν] {s : θ} {t : Table κ ν}

/-- The concurrent table says about every key what the plain one says. -/
def Mirrors (s : θ) (t : Table κ ν) : Prop := ∀ k, entryOf? s k = t.entryOf? k

theorem Mirrors.find?_eq (h : Mirrors s t) (k : κ) : find? s k = t.find? k :=
  congrArg (Option.map Prod.snd) (h k)

theorem Mirrors.contains_eq (h : Mirrors s t) (k : κ) : contains s k = t.contains k :=
  congrArg Option.isSome (h k)

variable [LawfulConcurrentTable θ]

open LawfulConcurrentTable

theorem mirrors_empty : Mirrors (empty : θ) .empty := entryOf?_empty

theorem mirrors_clear (s : θ) : Mirrors (clear s) .empty := fun k => entryOf?_clear k s

/-- What is displaced is what the plain table says, and so is what is removed. -/
theorem Mirrors.insert_fst_eq (h : Mirrors s t) (k : κ) (v : ν) : (insert k v s).1 = t.find? k := by
  rw [insert_fst, h, Table.find?]

theorem Mirrors.remove_fst_eq (h : Mirrors s t) (k : κ) : (remove k s).1 = t.entryOf? k := by
  rw [remove_fst, h]

end ConcurrentTable

namespace ConcurrentMap

variable {θ : Type} [ConcurrentTable θ κ ν] {m : ConcurrentMap θ ν} {l : LockedMap κ ν}

/-- The concurrent map keeps what the locked one keeps. -/
structure Mirrors (m : ConcurrentMap θ ν) (l : LockedMap κ ν) : Prop where
  table : ConcurrentTable.Mirrors m.table l.entries.contents
  equality : m.equality = l.equality

theorem Mirrors.getMany_eq (h : m.Mirrors l) (ks : List κ) : m.getMany ks = l.getMany ks := by
  have hget : (fun k => (m.get k).map fun v => (k, v)) = fun k => (l.get k).map fun v => (k, v) :=
    funext fun k => congrArg (Option.map fun v => (k, v)) (h.table.find?_eq k)
  rw [getMany, hget]
  rfl

end ConcurrentMap

variable [EquivBEq κ]

/-! ## What is listed -/

theorem nodup_of_distinct {es : List (κ × ν)} (h : es.Pairwise fun a b => (a.1 == b.1) = false) :
    es.Nodup := by
  refine h.imp fun hab heq => ?_
  rw [heq, BEq.rfl] at hab
  cases hab

theorem Table.mem_entries_iff {t : Table κ ν} {e : κ × ν} :
    e ∈ t.entries ↔ t.entryOf? e.1 = some e := by
  rw [entryOf?_eq_some_iff]
  exact ⟨fun he => ⟨he, BEq.rfl⟩, And.left⟩

/-- What a table says of a key does not depend on the order of its entries. -/
theorem Table.entryOf?_of_perm {t t' : Table κ ν} (h : t.entries.Perm t'.entries) (k : κ) :
    t.entryOf? k = t'.entryOf? k := by
  refine Option.ext fun e => ?_
  rw [entryOf?_eq_some_iff, entryOf?_eq_some_iff, h.mem_iff]

/-- A table made of entries with unequal keys has just these. -/
theorem Table.entries_ofList_of_distinct {es : List (κ × ν)}
    (h : es.Pairwise fun a b => (a.1 == b.1) = false) : (ofList es).entries = es := by
  rw [entries_ofList, ReferenceMap.storeAll_of_distinct h]

namespace ConcurrentTable

variable {θ : Type} [ConcurrentTable θ κ ν] [LawfulConcurrentTable θ] {s : θ} {t : Table κ ν}

open LawfulConcurrentTable

theorem mem_entries_iff {e : κ × ν} : e ∈ entries s ↔ entryOf? s e.1 = some e := by
  rw [entryOf?_eq_some_iff]
  exact ⟨fun he => ⟨he, BEq.rfl⟩, And.left⟩

/-- A plain table made of the entries of a concurrent one has just these. -/
theorem entries_ofList_entries (s : θ) : (Table.ofList (entries s)).entries = entries s :=
  Table.entries_ofList_of_distinct (distinct_entries s)

/-- The copy of a concurrent table as a plain one says the same. -/
theorem mirrors_copy (s : θ) : Mirrors s (.ofList (entries s)) := by
  refine fun k => Option.ext fun e => ?_
  rw [entryOf?_eq_some_iff, Table.entryOf?_eq_some_iff, entries_ofList_entries]

namespace Mirrors

/-- What is said about each key settles what is listed. -/
theorem perm (h : Mirrors s t) : (entries s).Perm t.entries := by
  have hs : (entries s).Nodup := nodup_of_distinct (distinct_entries s)
  have ht := nodup_of_distinct t.distinct
  refine (List.perm_ext_iff_of_nodup hs ht).2 fun e => ?_
  rw [mem_entries_iff, Table.mem_entries_iff, h]

theorem size_eq (h : Mirrors s t) : size s = t.size := by
  rw [LawfulConcurrentTable.size_eq]
  exact h.perm.length_eq

/-! Tables go on saying the same. -/

theorem insert (h : Mirrors s t) (k : κ) (v : ν) :
    Mirrors (ConcurrentTable.insert k v s).2 (t.insert k v) := by
  intro k'
  rw [entryOf?_insert, Table.entryOf?_insert, h, h]

theorem replace (h : Mirrors s t) (k : κ) (v : ν) :
    Mirrors (ConcurrentTable.replace k v s) (t.replace k v) := by
  intro k'
  rw [entryOf?_replace, Table.entryOf?_replace, h, h]

theorem remove (h : Mirrors s t) (k : κ) : Mirrors (ConcurrentTable.remove k s).2 (t.erase k) := by
  intro k'
  rw [entryOf?_remove, Table.entryOf?_erase, h]

theorem insertAll (h : Mirrors s t) (es : List (κ × ν)) :
    Mirrors (ConcurrentTable.insertAll es s) (t.insertAll es) := by
  induction es generalizing s t with
  | nil => exact h
  | cons e es ih => exact ih (h.insert e.1 e.2)

end Mirrors

theorem mirrors_ofList (es : List (κ × ν)) : Mirrors (ofList es : θ) (.ofList es) := by
  intro k
  rw [entryOf?_ofList]
  exact mirrors_empty.insertAll es k

/-- Moving the entries of a plain table changes nothing that it says. -/
theorem mirrors_moved (t : Table κ ν) : Mirrors (ofList t.entries : θ) t := by
  intro k
  rw [mirrors_ofList, Table.entryOf?_eq, Table.entries_ofList_of_distinct t.distinct]
  rfl

end ConcurrentTable

/-! ## Maps that answer alike -/

namespace ConcurrentMap

variable {θ : Type} [ConcurrentTable θ κ ν] [LawfulConcurrentTable θ] {m : ConcurrentMap θ ν}
  {l : LockedMap κ ν}

namespace Mirrors

/-- The value is looked at before it is replaced, and the key before the equality. -/
theorem compareAndSwap (h : m.Mirrors l) (k : κ) (old new : ν) :
    (m.compareAndSwap k old new).answer = (l.compareAndSwap k old new).answer ∧
      (m.compareAndSwap k old new).state.Mirrors (l.compareAndSwap k old new).state := by
  rw [ConcurrentMap.compareAndSwap, LockedMap.compareAndSwap, Locked.call_eq, h.table.find?_eq,
    h.equality]
  obtain ⟨⟨kind, t⟩, equality⟩ := l
  cases t.find? k with
  | none => exact ⟨rfl, h⟩
  | some v =>
    cases equality with
    | none => exact ⟨rfl, h⟩
    | some equality =>
      dsimp only
      cases equality.holds v old with
      | true => exact ⟨rfl, h.table.replace k new, rfl⟩
      | false => exact ⟨rfl, h⟩

theorem loadOrStore (h : m.Mirrors l) (k : κ) (v : ν) :
    (m.loadOrStore k v).1 = (l.loadOrStore k v).1 ∧
      (m.loadOrStore k v).2.Mirrors (l.loadOrStore k v).2 := by
  rw [ConcurrentMap.loadOrStore, LockedMap.loadOrStore, LockedMap.write, Locked.write_fst,
    Locked.write_snd, h.table.find?_eq]
  dsimp only
  cases l.entries.contents.find? k with
  | some v' => exact ⟨rfl, h⟩
  | none => exact ⟨rfl, h.table.insert k v, h.equality⟩

theorem setMany (h : m.Mirrors l) (es : List (κ × ν)) : (m.setMany es).Mirrors (l.setMany es) := by
  rw [setMany_eq, LockedMap.setMany]
  cases es with
  | nil => exact h
  | cons e es => exact ⟨h.table.insertAll (e :: es), h.equality⟩

end Mirrors

open MapReply (Alike alike_ok)

/-- One call on the two kinds of map. -/
theorem run_mirrors (h : m.Mirrors l) (c : MapCall κ ν) :
    Alike (m.run c).answer (l.run c).answer ∧ (m.run c).state.Mirrors (l.run c).state := by
  have ht : ConcurrentTable.Mirrors m.table l.entries.contents := h.table
  cases c with
  | get k => exact ⟨alike_ok .value (ht.find?_eq k), h⟩
  | set k v => exact ⟨.same _, ht.insert k v, h.equality⟩
  | delete k =>
    exact ⟨alike_ok .flag (congrArg Option.isSome (ht.remove_fst_eq k)), ht.remove k, h.equality⟩
  | size => exact ⟨alike_ok .count ht.size_eq, h⟩
  | isEmpty => exact ⟨alike_ok (fun n => .flag (n == 0)) ht.size_eq, h⟩
  | clear => exact ⟨.same _, ConcurrentTable.mirrors_clear m.table, h.equality⟩
  | compareAndSwap k old new =>
    obtain ⟨hanswer, hstate⟩ := h.compareAndSwap k old new
    refine ⟨?_, hstate⟩
    rw [run, LockedMap.run, Outcome.answer_map, Outcome.answer_map, hanswer]
    exact .same _
  | swap k v => exact ⟨alike_ok .value (ht.insert_fst_eq k v), ht.insert k v, h.equality⟩
  | loadOrStore k v =>
    obtain ⟨hanswer, hstate⟩ := h.loadOrStore k v
    exact ⟨alike_ok (fun a : ν × Bool => .loaded a.1 a.2) hanswer, hstate⟩
  | loadAndDelete k =>
    refine ⟨alike_ok .value ?_, ht.remove k, h.equality⟩
    exact congrArg (Option.map Prod.snd) (ht.remove_fst_eq k)
  | getAll =>
    refine ⟨?_, h⟩
    rw [run, getAll, Outcome.answer_done, ConcurrentTable.entries_ofList_entries]
    exact .entries ht.perm
  | getMany ks => exact ⟨alike_ok (fun t : Table κ ν => .entries t.entries) (h.getMany_eq ks), h⟩
  | setMany es => exact ⟨.same _, h.setMany es⟩
  | all =>
    rw [run, all, LockedMap.run, LockedMap.all, Snapshot.slice_ofArray, Snapshot.slice_ofArray]
    exact ⟨.entries ht.perm, h⟩
  | keys =>
    rw [run, keys, LockedMap.run, LockedMap.keys, Snapshot.slice_ofArray, Snapshot.slice_ofArray]
    exact ⟨.keys (ht.perm.map Prod.fst), h⟩
  | values =>
    rw [run, values, LockedMap.run, LockedMap.values, Snapshot.slice_ofArray, Snapshot.slice_ofArray]
    exact ⟨.values (ht.perm.map Prod.snd), h⟩

end ConcurrentMap

/-! ## Maps of any kind -/

namespace AnyMap

variable {θ : Type} [ConcurrentTable θ κ ν] {a : AnyMap κ ν θ} {l : LockedMap κ ν}

/-- What the map says about a key. -/
def entryOf? (k : κ) : AnyMap κ ν θ → Option (κ × ν)
  | .locked m => m.entries.contents.entryOf? k
  | .concurrent m => ConcurrentTable.entryOf? m.table k

/-- The equality of values that is attached to the map. -/
def equality : AnyMap κ ν θ → Option (Equality ν)
  | .locked m => m.equality
  | .concurrent m => m.equality

/-- The map says about every key what a locked one says, and compares values as that one does. -/
structure Agrees (a : AnyMap κ ν θ) (l : LockedMap κ ν) : Prop where
  entryOf?_eq : ∀ k, a.entryOf? k = l.entries.contents.entryOf? k
  equality_eq : a.equality = l.equality

variable [LawfulConcurrentTable θ]

open MapReply (Alike)

/-- Two tables that say the same are mirrored by the same concurrent one. -/
theorem exists_mirrors {l l' : LockedMap κ ν} (h : (locked l' : AnyMap κ ν θ).Agrees l) :
    ∃ m : ConcurrentMap θ ν, m.Mirrors l' ∧ m.Mirrors l := by
  have hmoved := ConcurrentTable.mirrors_moved (θ := θ) l'.entries.contents
  refine ⟨.ofTable l'.entries.contents l'.equality, ⟨hmoved, rfl⟩, ⟨fun k => ?_, h.equality_eq⟩⟩
  exact (hmoved k).trans (h.entryOf?_eq k)

/-- What agrees answers alike and goes on agreeing. -/
theorem run_agrees (h : a.Agrees l) (c : MapCall κ ν) :
    Alike (a.run c).answer (l.run c).answer ∧ (a.run c).state.Agrees (l.run c).state := by
  cases a with
  | concurrent m =>
    obtain ⟨hanswer, hstate⟩ := ConcurrentMap.run_mirrors ⟨h.entryOf?_eq, h.equality_eq⟩ c
    exact ⟨hanswer, hstate.table, hstate.equality⟩
  | locked l' =>
    -- the two tables may list in different orders, so they are compared through a concurrent one
    obtain ⟨m, hm', hm⟩ := exists_mirrors h
    obtain ⟨hanswer', hstate'⟩ := ConcurrentMap.run_mirrors hm' c
    obtain ⟨hanswer, hstate⟩ := ConcurrentMap.run_mirrors hm c
    refine ⟨hanswer'.of_common hanswer, fun k => ?_, hstate'.equality.symm.trans hstate.equality⟩
    exact (hstate'.table k).symm.trans (hstate.table k)

theorem history_agrees (h : a.Agrees l) (cs : List (MapCall κ ν)) :
    List.Forall₂ Alike (history (asked run) cs a) (history ReferenceMap.ask cs l.reference) := by
  rw [← LockedMap.history_reference]
  exact history_forall₂ (R := Agrees) (fun c _ _ h => run_agrees h c) cs h

theorem agrees_ofList (kind : TableKind) (lock : LockKind) (es : List (κ × ν)) :
    (ofList kind es : AnyMap κ ν θ).Agrees (.ofList lock es) := by
  cases kind with
  | locked lock' => exact ⟨fun _ => rfl, rfl⟩
  | concurrent => exact ⟨ConcurrentTable.mirrors_ofList es, rfl⟩

theorem agrees_ofTable (kind : TableKind) (lock : LockKind) {t t' : Table κ ν}
    (h : t.entries.Perm t'.entries) (equality : Option (Equality ν)) :
    (ofTable kind t equality : AnyMap κ ν θ).Agrees (.ofTable lock t' equality) := by
  have hsame : ∀ k, t.entryOf? k = t'.entryOf? k := Table.entryOf?_of_perm h
  cases kind with
  | locked lock' => exact ⟨hsame, rfl⟩
  | concurrent => exact ⟨fun k => (ConcurrentTable.mirrors_moved t k).trans (hsame k), rfl⟩

/-- **Every map is a list of entries**, whichever kind it is of and whichever table a concurrent one has.
Whether it is built of given entries or of a table of them, and in whatever order that table lists them, it
answers every history as the list does, up to the order of what it lists. -/
theorem history_alike (kind : TableKind) (es : List (κ × ν)) (equality : Option (Equality ν))
    (cs : List (MapCall κ ν)) :
    List.Forall₂ Alike (history (asked run) cs (ofList kind es : AnyMap κ ν θ))
        (history ReferenceMap.ask cs ⟨ReferenceMap.storeAll es [], none⟩) ∧
      ∀ t : Table κ ν, t.entries.Perm (Table.ofList es).entries →
        List.Forall₂ Alike (history (asked run) cs (ofTable kind t equality : AnyMap κ ν θ))
          (history ReferenceMap.ask cs ⟨ReferenceMap.storeAll es [], equality⟩) := by
  rw [← Table.entries_ofList]
  refine ⟨history_agrees (agrees_ofList kind .exclusive es) cs, fun t ht => ?_⟩
  exact history_agrees (agrees_ofTable kind .exclusive ht equality) cs

/-- Two spellings of one key in a striped table: the first is kept until the key is removed, whatever is
stored under it. -/
theorem history_alike_spellings : ∃ (es : List (FoldedKey × Nat)) (cs : List (MapCall FoldedKey Nat)),
    es = [(⟨.text "A"⟩, 1), (⟨.text "a"⟩, 2)] ∧
    cs = [.all, .delete ⟨.text "a"⟩, .setMany [(⟨.text "a"⟩, 3), (⟨.text "A"⟩, 4)], .all,
      .getMany [⟨.text "A"⟩, ⟨.text "b"⟩, ⟨.text "a"⟩]] ∧
    (Table.ofList es).entries.Perm (Table.ofList es).entries ∧
    history ReferenceMap.ask cs ⟨ReferenceMap.storeAll es [], none⟩ =
      [.ok (.entries [(⟨.text "A"⟩, 2)]), .ok (.flag true), .ok .done, .ok (.entries [(⟨.text "a"⟩, 4)]),
        .ok (.entries [(⟨.text "A"⟩, 4)])] ∧
    List.Forall₂ Alike
      (history (asked run) cs (ofList .concurrent es : AnyMap _ _ (StripedTable FoldedKey Nat)))
      (history ReferenceMap.ask cs ⟨ReferenceMap.storeAll es [], none⟩) ∧
    List.Forall₂ Alike
      (history (asked run) cs
        (ofTable .concurrent (.ofList es) none : AnyMap _ _ (StripedTable FoldedKey Nat)))
      (history ReferenceMap.ask cs ⟨ReferenceMap.storeAll es [], none⟩) := by
  refine ⟨_, _, rfl, rfl, .refl _, ?_, ?_, ?_⟩
  · decide +kernel
  · exact (history_alike .concurrent _ none _).1
  · exact (history_alike .concurrent _ none _).2 _ (.refl _)

end AnyMap

end Containers
