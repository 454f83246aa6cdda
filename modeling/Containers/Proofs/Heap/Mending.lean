import Containers.Proofs.Heap.Chains

/-!
# What a sift can mend

The operations sift in arrays that they have disturbed themselves, and so they know more of the array than a sift
asks for.  Here the two sifts stand by themselves, for whoever keeps a storage of his own and sifts in it.

* `siftDown_mends` is about a subtree in which only the root may be out of place.  A downward sift puts the subtree
  in order, and as the chain it goes along is inside (`inSubtree_formPerm`), it makes no difference how the rest
  of the array is.
* `siftUpAt_mends` is about a whole array in which only one slot may precede its parent.  An upward sift puts the
  array in order if in addition the children of that slot do not precede its parent: they come to stand right
  below it.

Both need a strict weak order.
-/

set_option autoImplicit false

namespace Containers.Heap

open Storage (precedes)

variable {α ε : Type} {r : Rules α ε} {less : Priority α} {s t : Storage α ε} {items : Array α}
  {start : Nat} {cs : List Nat}

/-! ## Subtrees -/

theorem downward_inSubtree (start : Nat) : Downward (InSubtree start) :=
  fun _ _ hchild hp => .head hchild hp

/-- To rename the slots of a downward chain is to rename slots of a subtree. -/
theorem inSubtree_formPerm (hchain : (start :: cs).IsChain (flip IsChild)) (k : Nat) :
    InSubtree start ((start :: cs).formPerm k) ↔ InSubtree start k := by
  by_cases hk : k ∈ start :: cs
  · have hk' := List.formPerm_apply_mem_of_mem hk
    exact iff_of_true (inSubtree_of_mem_down hchain hk') (inSubtree_of_mem_down hchain hk)
  · rw [List.formPerm_apply_of_notMem hk]

/-- A downward sift permutes what is in a subtree. -/
theorem exists_perm_siftDown (r : Rules α ε) (start : Nat) (s : Storage α ε) :
    ∃ σ : Equiv.Perm {k // InSubtree start k},
      ∀ k, (siftDown r start s).2.items[k.1]? = s.items[(σ k).1]? := by
  obtain ⟨cs, hchain, hmakes, -⟩ := exists_chain_siftDown r start s
  exact ⟨(start :: cs).formPerm.subtypePerm (inSubtree_formPerm hchain),
    fun k => hmakes.getElem?_formPerm k.1⟩

/-- A downward sift that begins a log has written down an exchange if it answers that its element has moved. -/
theorem siftDown_iff_swaps (less : Priority α) (start : Nat) (items : Array α) :
    (siftDown (recording less) start (.ofArray items)).1 = true ↔
      swaps (siftDown (recording less) start (.ofArray items)).2.log ≠ [] := by
  obtain ⟨cs, -, hmakes, hmoved⟩ := exists_chain_siftDown (recording less) start (.ofArray items)
  have hswaps : swaps (siftDown (recording less) start (.ofArray items)).2.log =
      (start :: cs).zip cs := hmakes.swaps_eq
  rw [hmoved, hswaps]
  cases cs <;> simp

/-- The children of a slot have numbers if there are no more than `2 ^ 63` slots. -/
theorem siftDownAt_of_lt (r : Rules α ε) {start : Nat} {s : Storage α ε} (hstart : start < s.size)
    (hs : s.size ≤ 1 <<< 63) :
    siftDownAt r start s = (.ok (siftDown r start s).1, (siftDown r start s).2) := by
  refine if_pos (leftChild_lt_slotLimit.2 ?_)
  unfold slotLimit
  omega

/-- The subtree of slot `start` has been put in order, by moving elements inside of it only. -/
structure Mended (less : Priority α) (start : Nat) (items : Array α) (moved : Bool)
    (t : Storage α (Access α)) : Prop where
  /-- No element of the subtree precedes the one above it. -/
  ordered : OrderedOn less (InSubtree start) t.items
  /-- The slots of the subtree hold a permutation of what they held. -/
  inside : ∃ σ : Equiv.Perm {k // InSubtree start k}, ∀ k, t.items[k.1]? = items[(σ k).1]?
  /-- The other slots hold what they held. -/
  outside : ∀ k, ¬ InSubtree start k → t.items[k]? = items[k]?
  /-- The answer tells whether there was an exchange. -/
  moved_iff : moved = true ↔ swaps t.log ≠ []
  /-- If there was none, the element was in its place: neither child precedes it. -/
  stays : moved = false → t.items = items ∧ ∀ i, IsChild i start → precedes less items i start = false

/-- **A downward sift puts in order a subtree in which only the root may be out of place**, whatever there is outside
of the subtree.  Who names the slot himself gets the same answer, as the slots below it have numbers. -/
theorem siftDown_mends (hl : less.IsStrictWeakOrder) {start : Nat} {items : Array α}
    (h : OrderedOn less (fun p => InSubtree start p ∧ p ≠ start) items) :
    Mended less start items (siftDown (recording less) start (.ofArray items)).1
        (siftDown (recording less) start (.ofArray items)).2 ∧
      (start < items.size → items.size ≤ 1 <<< 63 →
        siftDownAt (recording less) start (.ofArray items) =
          (.ok (siftDown (recording less) start (.ofArray items)).1,
            (siftDown (recording less) start (.ofArray items)).2)) := by
  have hW := downward_inSubtree start
  have htop : ∀ p, IsChild start p → ¬ InSubtree start p :=
    fun p hp hin => Nat.not_le.2 hp.lt hin.le
  refine ⟨?_, fun hstart hitems => siftDownAt_of_lt _ hstart hitems⟩
  constructor
  case ordered => exact siftDown_orderedOn (r := recording less) hl hW htop h
  case inside => exact exists_perm_siftDown (recording less) start (.ofArray items)
  case outside => exact fun k hk => getElem?_siftDown (recording less) (.ofArray items) hk
  case moved_iff => exact siftDown_iff_swaps less start items
  case stays =>
    intro hstays
    rcases siftDown_restores (r := recording less) (s := .ofArray items) hl hW (h.disturbed htop) with
      ⟨-, hitems, hchildren⟩ | ⟨hmoved, -⟩
    · exact ⟨hitems, hchildren⟩
    · exact absurd (hstays.symm.trans hmoved) Bool.false_ne_true

/-- Slot `2` is out of order with the slots above and below it and no matter; in the subtree of slot `1` the `7` goes
past the first of two `2`s, and past another one below it. -/
theorem siftDown_mends_ties : ∃ (less : Priority (Nat × Nat)) (items : Array (Nat × Nat)),
    less = (fun a b => minFirst a.1 b.1) ∧
    items = #[(9, 0), (7, 1), (8, 2), (2, 3), (2, 4), (0, 5), (8, 6), (3, 7), (2, 8), (5, 9)] ∧
    less.IsStrictWeakOrder ∧ OrderedOn less (fun p => InSubtree 1 p ∧ p ≠ 1) items ∧
    (siftDown (recording less) 1 (.ofArray items)).1 = true ∧
    (siftDown (recording less) 1 (.ofArray items)).2.items =
      #[(9, 0), (2, 3), (8, 2), (2, 8), (2, 4), (0, 5), (8, 6), (3, 7), (7, 1), (5, 9)] ∧
    Mended less 1 items (siftDown (recording less) 1 (.ofArray items)).1
      (siftDown (recording less) 1 (.ofArray items)).2 ∧
    (siftDownAt (recording less) 1 (.ofArray items)).1 = .ok true := by
  have hl : Priority.IsStrictWeakOrder fun a b : Nat × Nat => minFirst a.1 b.1 :=
    Priority.isStrictWeakOrder_minFirst.comap Prod.fst
  have hslots : ∀ i < 10, 0 < i → InSubtree 1 (parent i) → parent i ≠ 1 →
      precedes (fun a b : Nat × Nat => minFirst a.1 b.1)
        #[(9, 0), (7, 1), (8, 2), (2, 3), (2, 4), (0, 5), (8, 6), (3, 7), (2, 8), (5, 9)]
        i (parent i) = false := by decide +kernel
  have hbelow : OrderedOn (fun a b : Nat × Nat => minFirst a.1 b.1) (fun p => InSubtree 1 p ∧ p ≠ 1)
      #[(9, 0), (7, 1), (8, 2), (2, 3), (2, 4), (0, 5), (8, 6), (3, 7), (2, 8), (5, 9)] := by
    rintro i _ ⟨hpos, rfl⟩ ⟨hin, hne⟩
    exact not_precedes_of_lt fun hi _ => hslots i hi hpos hin hne
  obtain ⟨hmended, hanswer⟩ := siftDown_mends hl hbelow
  have hmoved : (siftDown (recording fun a b : Nat × Nat => minFirst a.1 b.1) 1 (.ofArray
      #[(9, 0), (7, 1), (8, 2), (2, 3), (2, 4), (0, 5), (8, 6), (3, 7), (2, 8), (5, 9)])).1 = true := by
    decide +kernel
  refine ⟨_, _, rfl, rfl, hl, hbelow, hmoved, by decide +kernel, hmended, ?_⟩
  rw [hanswer (by decide) (by decide), hmoved]

/-! ## Arrays -/

/-- **An upward sift puts in order an array in which only one slot may precede its parent**, provided that no child of
that slot precedes that parent. -/
theorem siftUpAt_mends (hl : r.less.IsStrictWeakOrder) {i : Nat} {s : Storage α ε} (hi : i < s.size)
    (pairs : ∀ c p, IsChild c p → c ≠ i → precedes r.less s.items c p = false)
    (grandchildren : ∀ c p, IsChild c i → IsChild i p → precedes r.less s.items c p = false) :
    (siftUpAt r i s).1 = .ok () ∧ Ordered r.less (siftUpAt r i s).2.items ∧
      (siftUpAt r i s).2.items.Perm s.items := by
  have hrising : Rising r.less s.items i :=
    ⟨⟨fun c p hcp _ hc _ => pairs c p hcp hc, fun c p hc hp _ => grandchildren c p hc hp⟩,
      fun c hc => pairs c i hc hc.lt.ne'⟩
  have hsift : siftUpAt r i s = (.ok (), siftUp r i s) := if_pos (.inr hi)
  refine ⟨by rw [hsift], ?_, siftUpAt_perm r i s⟩
  rw [hsift]
  exact siftUp_ordered hl i s hrising

/-- The `1` in slot `3` has a `4` for a parent and another for a child, and goes past two elements to the root. -/
theorem siftUpAt_mends_ties : ∃ (less : Priority (Nat × Nat)) (items : Array (Nat × Nat)),
    less = (fun a b => minFirst a.1 b.1) ∧
    items = #[(2, 0), (4, 1), (3, 2), (1, 3), (4, 4), (3, 5), (7, 6), (4, 7), (5, 8)] ∧
    less.IsStrictWeakOrder ∧ 3 < items.size ∧
    (∀ c p, IsChild c p → c ≠ 3 → precedes less items c p = false) ∧
    (∀ c p, IsChild c 3 → IsChild 3 p → precedes less items c p = false) ∧
    (siftUpAt (recording less) 3 (.ofArray items)).2.items =
      #[(1, 3), (2, 0), (3, 2), (4, 1), (4, 4), (3, 5), (7, 6), (4, 7), (5, 8)] ∧
    (siftUpAt (recording less) 3 (.ofArray items)).1 = .ok () ∧
    Ordered less (siftUpAt (recording less) 3 (.ofArray items)).2.items ∧
    (siftUpAt (recording less) 3 (.ofArray items)).2.items.Perm items := by
  have hl : Priority.IsStrictWeakOrder fun a b : Nat × Nat => minFirst a.1 b.1 :=
    Priority.isStrictWeakOrder_minFirst.comap Prod.fst
  have hslots : ∀ c < 9, 0 < c → c ≠ 3 →
      precedes (fun a b : Nat × Nat => minFirst a.1 b.1)
        #[(2, 0), (4, 1), (3, 2), (1, 3), (4, 4), (3, 5), (7, 6), (4, 7), (5, 8)]
        c (parent c) = false := by decide +kernel
  have hchildren : ∀ c < 9, parent c = 3 →
      precedes (fun a b : Nat × Nat => minFirst a.1 b.1)
        #[(2, 0), (4, 1), (3, 2), (1, 3), (4, 4), (3, 5), (7, 6), (4, 7), (5, 8)]
        c (parent 3) = false := by decide +kernel
  have hpairs : ∀ c p, IsChild c p → c ≠ 3 →
      precedes (fun a b : Nat × Nat => minFirst a.1 b.1)
        #[(2, 0), (4, 1), (3, 2), (1, 3), (4, 4), (3, 5), (7, 6), (4, 7), (5, 8)] c p = false := by
    rintro c _ ⟨hpos, rfl⟩ hne
    exact not_precedes_of_lt fun hc _ => hslots c hc hpos hne
  have hgrandchildren : ∀ c p, IsChild c 3 → IsChild 3 p →
      precedes (fun a b : Nat × Nat => minFirst a.1 b.1)
        #[(2, 0), (4, 1), (3, 2), (1, 3), (4, 4), (3, 5), (7, 6), (4, 7), (5, 8)] c p = false := by
    rintro c _ ⟨-, hchild⟩ ⟨-, rfl⟩
    exact not_precedes_of_lt fun hc _ => hchildren c hc hchild
  exact ⟨_, _, rfl, rfl, hl, by decide, hpairs, hgrandchildren, by decide +kernel,
    siftUpAt_mends (r := recording _) (s := .ofArray _) hl (by decide) hpairs hgrandchildren⟩

/-- Without the condition on the children it would not do: the `4` comes to stand below the `5`. -/
example : (siftUpAt (recording minFirst) 1 (.ofArray #[5, 3, 6, 4])).2.items = #[3, 5, 6, 4] := by
  decide +kernel

end Containers.Heap
