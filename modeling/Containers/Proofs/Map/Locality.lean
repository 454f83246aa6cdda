import Containers.Proofs.Map.Comparison

/-!
# Calls about one key

Seven of the calls on a map name one key.  Such a call reads the entry that has the key and nothing else
of what is stored, and it changes that entry and no other one, also if it faults.  An `EntryCall` is such a
call before the key is named; what it answers and what it leaves are functions of the entry alone
(`EntryCall.answer`, `EntryCall.leaves`), and `AnyMap.run_on` says that a map of any kind goes by them.

Two calls about unequal keys are then out of each other's sight.  `AnyMap.history_comm` is the result: they
may be put in either order.
-/

set_option autoImplicit false

namespace Containers

variable {κ ν : Type}

/-! ## What happens to one entry -/

/-- A call about one entry, without the key. -/
inductive EntryCall (ν : Type) where
  /-- Look the value up. -/
  | get
  /-- Store a value. -/
  | set (v : ν)
  /-- Remove the entry. -/
  | delete
  /-- Replace the value if it equals a given one. -/
  | compareAndSwap (old new : ν)
  /-- Store a value and hand out the one it displaces. -/
  | swap (v : ν)
  /-- Look the value up and store one if there is none. -/
  | loadOrStore (v : ν)
  /-- Remove the entry and hand out its value. -/
  | loadAndDelete

namespace EntryCall

/-- The call about the entry of a key. -/
def on (k : κ) : EntryCall ν → MapCall κ ν
  | .get => .get k
  | .set v => .set k v
  | .delete => .delete k
  | .compareAndSwap old new => .compareAndSwap k old new
  | .swap v => .swap k v
  | .loadOrStore v => .loadOrStore k v
  | .loadAndDelete => .loadAndDelete k

/-- What is answered, given the entry that is there. -/
def answer (equality : Option (Equality ν)) (entry : Option (κ × ν)) :
    EntryCall ν → Except Fault (MapReply κ ν)
  | .get | .swap _ | .loadAndDelete => .ok (.value (entry.map Prod.snd))
  | .set _ => .ok .done
  | .delete => .ok (.flag entry.isSome)
  | .compareAndSwap old _ =>
    match entry, equality with
    | none, _ => .ok (.flag false)
    | some _, none => .error .missingEquality
    | some e, some equality => .ok (.flag (equality.holds e.2 old))
  | .loadOrStore v => .ok (.loaded ((entry.map Prod.snd).getD v) entry.isSome)

/-- What is there afterwards, given the entry that was there and the key as it is spelled in the call. -/
def leaves (equality : Option (Equality ν)) (k : κ) (entry : Option (κ × ν)) :
    EntryCall ν → Option (κ × ν)
  | .get => entry
  | .set v | .swap v => some ((entry.map Prod.fst).getD k, v)
  | .delete | .loadAndDelete => none
  | .compareAndSwap old new =>
    match entry, equality with
    | some e, some equality => if equality.holds e.2 old then some (e.1, new) else some e
    | _, _ => entry
  | .loadOrStore v => entry.or (some (k, v))

/-- Answers about one entry list nothing, so their order is of no account. -/
theorem eq_answer_of_alike (c : EntryCall ν) {equality : Option (Equality ν)}
    {entry : Option (κ × ν)} {answer : Except Fault (MapReply κ ν)}
    (h : MapReply.Alike answer (c.answer equality entry)) : answer = c.answer equality entry := by
  generalize hc : c.answer equality entry = a at h ⊢
  cases h with
  | same => rfl
  | _ =>
    cases c with
    | compareAndSwap old new =>
      rw [EntryCall.answer.eq_def] at hc
      dsimp only at hc
      split at hc <;> cases hc
    | _ => cases hc

end EntryCall

/-! ## Maps go by it -/

variable [BEq κ]

namespace LockedMap

variable [PartialEquivBEq κ]

/-- A call about one key on a map behind a lock. -/
theorem run_on (c : EntryCall ν) (k : κ) (m : LockedMap κ ν) :
    (m.run (c.on k)).answer = c.answer m.equality (m.entries.contents.entryOf? k) ∧
      (m.run (c.on k)).state.equality = m.equality ∧
      ∀ k', (m.run (c.on k)).state.entries.contents.entryOf? k' =
        if k == k' then c.leaves m.equality k (m.entries.contents.entryOf? k)
        else m.entries.contents.entryOf? k' := by
  obtain ⟨⟨kind, t⟩, equality⟩ := m
  have hkept : ∀ k', t.entryOf? k' = if k == k' then t.entryOf? k else t.entryOf? k' := by
    intro k'
    cases hk : k == k' with
    | false => rfl
    | true => exact (t.entryOf?_congr hk).symm
  cases c with
  | get => exact ⟨rfl, rfl, hkept⟩
  | set v => exact ⟨rfl, rfl, fun k' => Table.entryOf?_insert k k' v t⟩
  | delete => exact ⟨rfl, rfl, fun k' => Table.entryOf?_erase k k' t⟩
  | swap v => exact ⟨rfl, rfl, fun k' => Table.entryOf?_insert k k' v t⟩
  | loadAndDelete => exact ⟨rfl, rfl, fun k' => Table.entryOf?_erase k k' t⟩
  | loadOrStore v =>
    have hinsert := fun k' => Table.entryOf?_insert k k' v t
    simp only [EntryCall.on, run, loadOrStore, write, Locked.write, Table.find?, EntryCall.answer,
      EntryCall.leaves]
    cases he : t.entryOf? k with
    | some e =>
      rw [he] at hkept
      exact ⟨rfl, rfl, hkept⟩
    | none =>
      rw [he] at hinsert
      exact ⟨rfl, rfl, hinsert⟩
  | compareAndSwap old new =>
    have hreplace := fun k' => Table.entryOf?_replace k k' new t
    simp only [EntryCall.on, run, compareAndSwap, Locked.call, Table.find?, EntryCall.answer,
      EntryCall.leaves]
    cases he : t.entryOf? k with
    | none =>
      rw [he] at hkept
      exact ⟨rfl, rfl, hkept⟩
    | some e =>
      rw [he] at hkept hreplace
      cases equality with
      | none => exact ⟨rfl, rfl, hkept⟩
      | some equality =>
        cases hold : equality.holds e.2 old with
        | true =>
          simp only [Option.map_some, hold, if_true]
          exact ⟨rfl, rfl, hreplace⟩
        | false =>
          simp only [Option.map_some, hold]
          exact ⟨rfl, rfl, hkept⟩

end LockedMap

/-- Tables that say the same about every key list the same entries. -/
theorem Table.perm_of_entryOf?_eq [EquivBEq κ] {t t' : Table κ ν}
    (h : ∀ k, t.entryOf? k = t'.entryOf? k) : t.entries.Perm t'.entries := by
  have ht := nodup_of_distinct t.distinct
  have ht' := nodup_of_distinct t'.distinct
  refine (List.perm_ext_iff_of_nodup ht ht').2 fun e => ?_
  rw [mem_entries_iff, mem_entries_iff, h]

namespace AnyMap

variable [EquivBEq κ] {θ : Type} [ConcurrentTable θ κ ν] [LawfulConcurrentTable θ]

/-- The copy of a map says what the map says. -/
theorem entryOf?_getAll (m : AnyMap κ ν θ) (k : κ) : m.getAll.entryOf? k = m.entryOf? k := by
  cases m with
  | locked m => rfl
  | concurrent m => exact (ConcurrentTable.mirrors_copy m.table k).symm

/-- **A call about one key sees and changes the entry of that key**, on a map of any kind. -/
theorem run_on (c : EntryCall ν) (k : κ) (m : AnyMap κ ν θ) :
    (m.run (c.on k)).answer = c.answer m.equality (m.entryOf? k) ∧
      (m.run (c.on k)).state.equality = m.equality ∧
      ∀ k', (m.run (c.on k)).state.entryOf? k' =
        if k == k' then c.leaves m.equality k (m.entryOf? k) else m.entryOf? k' := by
  obtain ⟨l, hl⟩ : ∃ l : LockedMap κ ν, m.Agrees l :=
    ⟨.ofTable .exclusive m.getAll m.equality, fun k => (m.entryOf?_getAll k).symm, rfl⟩
  obtain ⟨halike, hstate⟩ := run_agrees hl (c.on k)
  obtain ⟨hanswer, hequality, hentries⟩ := l.run_on c k
  rw [hanswer, ← hl.equality_eq, ← hl.entryOf?_eq] at halike
  refine ⟨c.eq_answer_of_alike halike, ?_, fun k' => ?_⟩
  · rw [hstate.equality_eq, hequality, hl.equality_eq]
  · rw [hstate.entryOf?_eq, hentries, hl.equality_eq, hl.entryOf?_eq, hl.entryOf?_eq]

/-! ## Calls about unequal keys -/

/-- Two maps with the same contents. -/
structure SameContents (m m' : AnyMap κ ν θ) : Prop where
  /-- They list the same entries, with the keys spelled in the same way. -/
  entries : m.all.slice.toList.Perm m'.all.slice.toList
  /-- They count as many. -/
  size : m.size = m'.size
  /-- They compare values in the same way. -/
  equality : m.equality = m'.equality

/-- Maps that say the same about every key have the same contents. -/
theorem sameContents_of_entryOf?_eq {m m' : AnyMap κ ν θ} (h : ∀ k, m.entryOf? k = m'.entryOf? k)
    (hequality : m.equality = m'.equality) : m.SameContents m' := by
  have hcopies : m.getAll.entries.Perm m'.getAll.entries :=
    Table.perm_of_entryOf?_eq fun k => by rw [entryOf?_getAll, entryOf?_getAll, h]
  refine ⟨?_, ?_, hequality⟩
  · rwa [← entries_getAll, ← entries_getAll]
  · rw [← size_getAll, ← size_getAll]
    exact hcopies.length_eq

variable {k k' : κ}

/-- A call about one key goes unnoticed by a call about another one. -/
theorem answer_run_on_run_on (c c' : EntryCall ν) (hk : (k == k') = false) (m : AnyMap κ ν θ) :
    ((m.run (c.on k)).state.run (c'.on k')).answer = (m.run (c'.on k')).answer := by
  obtain ⟨-, hequality, hentries⟩ := run_on c k m
  rw [(run_on c' k' _).1, (run_on c' k' m).1, hequality, hentries, hk]
  rfl

/-- What two calls about unequal keys leave of any entry is what each of them leaves of its own. -/
theorem entryOf?_run_on_run_on (c c' : EntryCall ν) (hk : (k == k') = false) (m : AnyMap κ ν θ)
    (k'' : κ) :
    ((m.run (c.on k)).state.run (c'.on k')).state.entryOf? k'' =
      if k' == k'' then c'.leaves m.equality k' (m.entryOf? k')
      else if k == k'' then c.leaves m.equality k (m.entryOf? k) else m.entryOf? k'' := by
  obtain ⟨-, hequality, hentries⟩ := run_on c k m
  rw [(run_on c' k' _).2.2, hequality, hentries, hentries, hk]
  rfl

/-- **Calls about unequal keys may change places.**  Each of the two answers, or faults, as it would if the
other one were not put at all, and the map holds the same afterwards in whichever order they were put.  So
it is with a map of any kind, and with any table for a concurrent one. -/
theorem history_comm (c c' : EntryCall ν) (hk : (k == k') = false) (m : AnyMap κ ν θ) :
    history (asked run) [c.on k, c'.on k'] m =
        [(m.run (c.on k)).answer, (m.run (c'.on k')).answer] ∧
      history (asked run) [c'.on k', c.on k] m =
        [(m.run (c'.on k')).answer, (m.run (c.on k)).answer] ∧
      (after run [c.on k, c'.on k'] m).SameContents (after run [c'.on k', c.on k] m) := by
  have hk' : (k' == k) = false := by rw [BEq.comm, hk]
  refine ⟨?_, ?_, sameContents_of_entryOf?_eq (fun k'' => ?_) ?_⟩
  · exact congrArg (fun a => [_, a]) (answer_run_on_run_on c c' hk m)
  · exact congrArg (fun a => [_, a]) (answer_run_on_run_on c' c hk' m)
  · refine (entryOf?_run_on_run_on c c' hk m k'').trans ?_
    refine Eq.trans ?_ (entryOf?_run_on_run_on c' c hk' m k'').symm
    -- no key is equal to both
    cases h : k == k'' with
    | false => rfl
    | true => rw [← BEq.congr_right h, hk']; rfl
  · refine ((run_on c' k' _).2.1.trans (run_on c k m).2.1).trans ?_
    exact ((run_on c k _).2.1.trans (run_on c' k' m).2.1).symm

/-- In a striped table, a conditional replacement under another spelling of a key that is there faults, since
the map has no equality, and a value comes in under a key that is not there. -/
theorem history_comm_fault : ∃ (a b : FoldedKey) (m : AnyMap FoldedKey Nat (StripedTable FoldedKey Nat)),
    a = ⟨.text "a"⟩ ∧ b = ⟨.text "b"⟩ ∧ m = ofList .concurrent [(⟨.text "A"⟩, 1)] ∧
    (a == b) = false ∧
    history (asked run) [.compareAndSwap a 1 2, .swap b 3] m =
      [.error .missingEquality, .ok (.value none)] ∧
    history (asked run) [.swap b 3, .compareAndSwap a 1 2] m =
      [.ok (.value none), .error .missingEquality] ∧
    (after run [.compareAndSwap a 1 2, .swap b 3] m).SameContents
      (after run [.swap b 3, .compareAndSwap a 1 2] m) := by
  have hk : ((⟨.text "a"⟩ : FoldedKey) == ⟨.text "b"⟩) = false := by decide +kernel
  obtain ⟨m, hm⟩ : ∃ m : AnyMap FoldedKey Nat (StripedTable FoldedKey Nat),
      m = ofList .concurrent [(⟨.text "A"⟩, 1)] := ⟨_, rfl⟩
  have hagrees : m.Agrees (.ofList .exclusive [(⟨.text "A"⟩, 1)]) := hm ▸ agrees_ofList ..
  obtain ⟨hfirst, hsecond, hsame⟩ := history_comm (.compareAndSwap 1 2) (.swap 3) hk m
  rw [(run_on _ _ m).1, (run_on _ _ m).1, hagrees.entryOf?_eq, hagrees.entryOf?_eq,
    hagrees.equality_eq] at hfirst hsecond
  refine ⟨_, _, m, rfl, rfl, hm, hk, hfirst.trans ?_, hsecond.trans ?_, hsame⟩ <;> decide +kernel

end AnyMap

end Containers
