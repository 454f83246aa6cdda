import Containers.Proofs.Heap.Rest
import Mathlib.GroupTheory.Perm.List

/-!
# Chains of slots

A sift takes one element along a chain of slots, from a slot to its parent or to one of its children and on from
there.  With every exchange the element goes one slot ahead, and the one that was there goes one slot back.  So
when it has come to rest the elements on the chain are rotated by one place, and no other element has moved.  This
needs nothing of the priority: what it answers decides how long the chain is and which way it goes.

* `Makes` lists the exchanges between two storages, whatever is written down of them.  What they do to the array
  is the product of the transpositions (`Makes.getElem?_eq`), and along a chain that product is
  `List.formPerm`.
* `exists_chain_siftUp` and `exists_chain_descend` find the chains.
* The slots of a chain are all above its first slot or all below it (`InSubtree`), so an operation that sifts
  once changes a path of the tree only.  A repair sifts twice, but the second time only if the first has moved
  nothing.
-/

set_option autoImplicit false

namespace Containers.Heap

variable {α ε : Type} {r : Rules α ε} {less : Priority α} {s t : Storage α ε} {items : Array α}
  {c k : Nat} {cs : List Nat} {es : List (Nat × Nat)}

/-! ## Subtrees -/

/-- Slot `k` is slot `root`, or somewhere below it. -/
def InSubtree (root k : Nat) : Prop := Relation.ReflTransGen IsChild k root

theorem InSubtree.le {root : Nat} (h : InSubtree root k) : root ≤ k := by
  induction h with
  | refl => exact Nat.le_refl k
  | tail _ hchild ih => exact hchild.lt.le.trans ih

theorem inSubtree_iff {root : Nat} :
    InSubtree root k ↔ k = root ∨ 0 < k ∧ InSubtree root (parent k) := by
  rw [InSubtree, Relation.ReflTransGen.cases_head_iff]
  refine or_congr_right ⟨?_, fun h => ⟨parent k, isChild_parent h.1, h.2⟩⟩
  rintro ⟨_, ⟨hpos, rfl⟩, habove⟩
  exact ⟨hpos, habove⟩

/-- Whether a slot is in a subtree is seen on the way from it to the root. -/
instance decidableInSubtree (root : Nat) : (k : Nat) → Decidable (InSubtree root k)
  | k =>
    if hpos : 0 < k then
      have := decidableInSubtree root (parent k)
      decidable_of_iff _ inSubtree_iff.symm
    else
      decidable_of_iff (k = root) (by rw [inSubtree_iff, or_iff_left fun h => hpos h.1])
termination_by k => k
decreasing_by exact parent_lt hpos

/-- From the first slot of a chain every slot of it can be reached. -/
theorem reflTransGen_of_mem {R : Nat → Nat → Prop} (h : (c :: cs).IsChain R) (hk : k ∈ c :: cs) :
    Relation.ReflTransGen R c k := by
  rcases List.mem_cons.1 hk with rfl | hk
  · exact .refl
  · exact List.rel_of_pairwise_cons (h.imp fun _ _ => Relation.ReflTransGen.single).pairwise hk

/-- The slots of an upward chain have the first one below them. -/
theorem inSubtree_of_mem_up (h : (c :: cs).IsChain IsChild) (hk : k ∈ c :: cs) : InSubtree k c :=
  reflTransGen_of_mem h hk

/-- The slots of a downward chain are below the first one. -/
theorem inSubtree_of_mem_down (h : (c :: cs).IsChain (flip IsChild)) (hk : k ∈ c :: cs) :
    InSubtree c k :=
  Relation.reflTransGen_swap.1 (reflTransGen_of_mem h hk)

/-! Along a chain the numbers of the slots go down or up, so no slot is met twice. -/

theorem nodup_up (h : (c :: cs).IsChain IsChild) : (c :: cs).Nodup :=
  (h.imp fun _ _ hchild => hchild.lt).pairwise.imp Nat.ne_of_gt

theorem pairwise_down (h : (c :: cs).IsChain (flip IsChild)) : (c :: cs).Pairwise (· < ·) :=
  (h.imp fun _ _ hchild => IsChild.lt hchild).pairwise

/-! ## Exchanges -/

/-- Between `s` and `t` these exchanges were made in this order, each of two slots that exist, and apart from
that slots were compared. -/
inductive Makes (r : Rules α ε) : List (Nat × Nat) → Storage α ε → Storage α ε → Prop
  | nothing (s : Storage α ε) : Makes r [] s s
  | compare {es : List (Nat × Nat)} {s t : Storage α ε} (i j : Nat)
      (rest : Makes r es (s.compareAt r i j).2 t) : Makes r es s t
  | swap {es : List (Nat × Nat)} {s t : Storage α ε} {i j : Nat} (hi : i < s.items.size)
      (hj : j < s.items.size) (rest : Makes r es (s.swapAt r i j) t) : Makes r ((i, j) :: es) s t

theorem Looks.makes {u : Storage α ε} (h : Looks r s t) (h' : Makes r es t u) : Makes r es s u := by
  induction h with
  | nothing => exact h'
  | compare i j _ ih => exact ih (.compare i j h')

/-- What was exchanged, if that is what the access did. -/
def Access.swapped? : Access α → Option (Nat × Nat)
  | .swap i j => some (i, j)
  | _ => none

/-- The exchanges in a log, in order. -/
def swaps (log : Array (Access α)) : List (Nat × Nat) := log.toList.filterMap Access.swapped?

theorem swaps_push (log : Array (Access α)) (a : Access α) :
    swaps (log.push a) = swaps log ++ a.swapped?.toList := by
  rw [swaps, Array.toList_push, List.filterMap_append, ← swaps, List.filterMap_cons, List.filterMap_nil]
  cases a.swapped? <;> rfl

namespace Makes

theorem lt_size (h : Makes r es s t) : ∀ e ∈ es, e.1 < s.items.size ∧ e.2 < s.items.size := by
  induction h with
  | nothing s => simp
  | compare i j _ ih => rwa [Storage.items_compareAt] at ih
  | swap hi hj _ ih =>
    rw [Storage.items_swapAt, Array.size_swapIfInBounds] at ih
    exact List.forall_mem_cons.2 ⟨⟨hi, hj⟩, ih⟩

theorem size_eq (h : Makes r es s t) : t.items.size = s.items.size := by
  induction h with
  | nothing s => rfl
  | compare i j _ ih => rw [ih, Storage.items_compareAt]
  | swap hi hj _ ih => rw [ih, Storage.items_swapAt, Array.size_swapIfInBounds]

/-- The exchanges rename the slots, the last one first. -/
theorem getElem?_eq (h : Makes r es s t) (k : Nat) :
    t.items[k]? = s.items[(es.map fun e => Equiv.swap e.1 e.2).prod k]? := by
  induction h with
  | nothing s => rfl
  | compare i j _ ih => rw [ih, Storage.items_compareAt]
  | swap hi hj _ ih =>
    rw [ih, Storage.items_swapAt, getElem?_swapIfInBounds hi hj, List.map_cons, List.prod_cons,
      Equiv.Perm.mul_apply]

/-- Exchanges along a chain rename its slots in a circle. -/
theorem getElem?_formPerm (h : Makes r ((c :: cs).zip cs) s t) (k : Nat) :
    t.items[k]? = s.items[(c :: cs).formPerm k]? := by
  rw [h.getElem?_eq, List.formPerm, List.tail_cons, ← List.map_uncurry_zip_eq_zipWith]
  rfl

/-- Exchanges along a chain leave the other slots alone. -/
theorem getElem?_of_notMem (h : Makes r ((c :: cs).zip cs) s t) (hk : k ∉ c :: cs) :
    t.items[k]? = s.items[k]? := by
  rw [h.getElem?_formPerm, List.formPerm_apply_of_notMem hk]

/-- Where every access is written down, the exchanges made are those in the log. -/
theorem swaps_eq {s t : Storage α (Access α)} (h : Makes (recording less) es s t) :
    swaps t.log = swaps s.log ++ es := by
  induction h with
  | nothing s => rw [List.append_nil]
  | compare i j _ ih =>
    rw [ih]
    congr 1
    exact (swaps_push _ (.compare i j _)).trans (List.append_nil _)
  | @swap es s t i j hi hj _ ih =>
    have hlog : swaps (s.swapAt (recording less) i j).log = swaps s.log ++ [(i, j)] :=
      swaps_push s.log (.swap i j)
    rw [ih, hlog, List.append_assoc, List.singleton_append]

end Makes

/-! ## The chains of the sifts -/

variable (r) in
/-- An upward sift exchanges along a chain of parents. -/
theorem exists_chain_siftUp (node : Nat) (s : Storage α ε) :
    ∃ cs, (node :: cs).IsChain IsChild ∧ Makes r ((node :: cs).zip cs) s (siftUp r node s) := by
  fun_induction siftUp r node s with
  | case1 s => exact ⟨[], .singleton 0, .nothing s⟩
  | case2 node s hnode outranks hlt ih =>
    obtain ⟨cs, hchain, hmakes⟩ := ih
    obtain ⟨hin, hparent⟩ := lt_size_of_precedes hlt
    refine ⟨parent node :: cs, .cons_cons (isChild_parent (Nat.pos_of_ne_zero hnode)) hchain, ?_⟩
    refine .compare node (parent node) (.swap ?_ ?_ hmakes) <;> rwa [Storage.items_compareAt]
  | case3 node s hnode outranks hlt =>
    exact ⟨[], .singleton node, .compare node (parent node) (.nothing _)⟩

variable (r) in
/-- A downward sift exchanges along a chain of children, and comes to rest in the last slot of it. -/
theorem exists_chain_descend (len node : Nat) (s : Storage α ε) :
    ∃ cs, (node :: cs).IsChain (flip IsChild) ∧
      Makes r ((node :: cs).zip cs) s (descend r len node s).2 ∧
      (descend r len node s).1 = (node :: cs).getLast (List.cons_ne_nil node cs) := by
  fun_induction descend r len node s with
  | case1 node s hleft best outranks hlt ih =>
    obtain ⟨cs, hchain, hmakes, hlast⟩ := ih
    obtain ⟨hbest, hin⟩ := lt_size_of_precedes hlt
    refine ⟨best.1 :: cs, .cons_cons (isChild_preferredChild r len node s) hchain, ?_, ?_⟩
    · refine (looks_preferredChild r len node s).makes (.compare best.1 node (.swap ?_ ?_ hmakes)) <;>
        rwa [Storage.items_compareAt]
    · rw [hlast, List.getLast_cons_cons]
  | case2 node s hleft best outranks hlt =>
    have hlooks := (looks_preferredChild r len node s).makes (.compare best.1 node (.nothing _))
    exact ⟨[], .singleton node, hlooks, rfl⟩
  | case3 node s hleft => exact ⟨[], .singleton node, .nothing s, rfl⟩

variable (r) in
/-- A downward sift answers that the element has moved if it was exchanged at all. -/
theorem exists_chain_siftDown (start : Nat) (s : Storage α ε) :
    ∃ cs, (start :: cs).IsChain (flip IsChild) ∧
      Makes r ((start :: cs).zip cs) s (siftDown r start s).2 ∧
      ((siftDown r start s).1 = true ↔ cs ≠ []) := by
  obtain ⟨cs, hchain, hmakes, hlast⟩ := exists_chain_descend r s.size start s
  refine ⟨cs, hchain, hmakes, ?_⟩
  rw [siftDown, hlast, decide_eq_true_iff]
  constructor
  · rintro hmoved rfl
    exact Nat.lt_irrefl start hmoved
  · intro hne
    rw [List.getLast_cons hne]
    exact List.rel_of_pairwise_cons (pairwise_down hchain) (List.getLast_mem hne)

/-! ## What a chain of exchanges does -/

/-- Along the chain that begins in slot `c` the element there has gone to the end, and each other element has
come one slot closer. -/
structure MovesAlong (c : Nat) (cs : List Nat) (items : Array α) (t : Storage α (Access α)) : Prop where
  /-- The chain consists of slots that exist. -/
  slots : ∀ k ∈ c :: cs, k < items.size
  size_eq : t.items.size = items.size
  /-- The last slot of the chain has the element that was in the first one. -/
  last : t.items[(c :: cs).getLast (List.cons_ne_nil c cs)]? = items[c]?
  /-- Every other slot of the chain has the element that was in the next one. -/
  others : ∀ n (hn : n + 1 < (c :: cs).length), t.items[(c :: cs)[n]]? = items[(c :: cs)[n + 1]]?
  /-- Off the chain nothing has changed. -/
  off : ∀ k, k ∉ c :: cs → t.items[k]? = items[k]?
  /-- Each slot of the chain was exchanged for the next one, in order, and nothing else was exchanged. -/
  swaps_eq : swaps t.log = (c :: cs).zip cs

theorem Makes.movesAlong {t : Storage α (Access α)} (hc : c < items.size) (hnodup : (c :: cs).Nodup)
    (h : Makes (recording less) ((c :: cs).zip cs) (.ofArray items) t) : MovesAlong c cs items t where
  slots := by
    have hseconds : ((c :: cs).zip cs).map Prod.snd = cs := List.map_snd_zip (by simp)
    rw [← hseconds]
    refine List.forall_mem_cons.2 ⟨hc, List.forall_mem_map.2 fun e he => ?_⟩
    exact (h.lt_size e he).2
  size_eq := h.size_eq
  last := by
    rw [h.getElem?_formPerm, List.formPerm_apply_getLast]
    rfl
  others n hn := by
    rw [h.getElem?_formPerm, List.formPerm_apply_lt_getElem _ hnodup n hn]
    rfl
  off k hk := h.getElem?_of_notMem hk
  swaps_eq := h.swaps_eq

/-! ## What stays as it is -/

/-- An upward sift changes the path from the slot to the root only. -/
theorem getElem?_siftUp (r : Rules α ε) {node : Nat} (s : Storage α ε) (hk : ¬ InSubtree k node) :
    (siftUp r node s).items[k]? = s.items[k]? := by
  obtain ⟨cs, hchain, hmakes⟩ := exists_chain_siftUp r node s
  exact hmakes.getElem?_of_notMem fun hmem => hk (inSubtree_of_mem_up hchain hmem)

/-- A downward sift changes the slot and slots below it only. -/
theorem getElem?_siftDown (r : Rules α ε) {start : Nat} (s : Storage α ε) (hk : ¬ InSubtree start k) :
    (siftDown r start s).2.items[k]? = s.items[k]? := by
  obtain ⟨cs, hchain, hmakes, -⟩ := exists_chain_siftDown r start s
  exact hmakes.getElem?_of_notMem fun hmem => hk (inSubtree_of_mem_down hchain hmem)

/-- A downward sift that has not moved its element has moved none. -/
theorem items_siftDown_of_stays {start : Nat} (h : (siftDown r start s).1 = false) :
    (siftDown r start s).2.items = s.items := by
  obtain ⟨cs, -, hmakes, hmoved⟩ := exists_chain_siftDown r start s
  obtain rfl : cs = [] := not_not.1 (hmoved.not.1 (Bool.eq_false_iff.1 h))
  refine Array.ext_getElem? fun k => ?_
  rw [hmakes.getElem?_formPerm, List.formPerm_singleton, Equiv.Perm.one_apply]

/-- A push changes the array that it has appended to on the path from the last slot to the root only. -/
theorem getElem?_push (r : Rules α ε) (x : α) (s : Storage α ε) (hk : ¬ InSubtree k s.size) :
    (push r x s).2.items[k]? = (s.items.push x)[k]? := by
  rw [push, size_append_sub_one]
  split
  · rw [Storage.items_compareAt, Storage.items_append]
  · rw [getElem?_siftUp r _ hk, Storage.items_compareAt, Storage.items_append]

/-- A repair changes the path from the slot to the root only, or the slot and slots below it only. -/
theorem getElem?_fix (r : Rules α ε) (index : Nat) (s : Storage α ε) :
    (∀ k, ¬ InSubtree k index → (fix r index s).items[k]? = s.items[k]?) ∨
      ∀ k, ¬ InSubtree index k → (fix r index s).items[k]? = s.items[k]? := by
  rw [fix]
  split
  · dsimp only
    split
    · exact .inr fun k hk => getElem?_siftDown r s hk
    · rename_i hstays
      refine .inl fun k hk => ?_
      rw [getElem?_siftUp r _ hk, items_siftDown_of_stays (Bool.eq_false_iff.2 hstays)]
  · exact .inl fun k _ => rfl

/-- **A sift rotates the elements on one chain of slots**, whatever the priority answers: upwards each slot of
the chain is the parent of the one before, downwards a child of it.  So a push changes nothing off the path that
leads from the new slot to the root, and a repair changes slots above the one that is named or slots below it, but
never both. -/
theorem sifts_along_chains (less : Priority α) :
    (∀ (items : Array α) (i : Nat), i < items.size →
      (∃ cs, (i :: cs).IsChain IsChild ∧
        MovesAlong i cs items (siftUp (recording less) i (.ofArray items))) ∧
      ∃ cs, (i :: cs).IsChain (flip IsChild) ∧
        MovesAlong i cs items (siftDown (recording less) i (.ofArray items)).2) ∧
    ∀ (probe : Probe α ε) (s : Storage α ε),
      (∀ x k, ¬ InSubtree k s.size → (push ⟨less, probe⟩ x s).2.items[k]? = (s.items.push x)[k]?) ∧
      ∀ i, (∀ k, ¬ InSubtree k i → (fix ⟨less, probe⟩ i s).items[k]? = s.items[k]?) ∨
        ∀ k, ¬ InSubtree i k → (fix ⟨less, probe⟩ i s).items[k]? = s.items[k]? := by
  refine ⟨fun items i hi => ⟨?_, ?_⟩, fun probe s => ⟨fun x k hk => ?_, fun i => ?_⟩⟩
  · obtain ⟨cs, hchain, hmakes⟩ := exists_chain_siftUp (recording less) i (.ofArray items)
    exact ⟨cs, hchain, hmakes.movesAlong hi (nodup_up hchain)⟩
  · obtain ⟨cs, hchain, hmakes, -⟩ := exists_chain_siftDown (recording less) i (.ofArray items)
    exact ⟨cs, hchain, hmakes.movesAlong hi ((pairwise_down hchain).imp Nat.ne_of_lt)⟩
  · exact getElem?_push _ x s hk
  · exact getElem?_fix _ i s

/-- Where each number precedes the next one in a circle of three, the `0` in the last slot goes past two of the `1`s to
the root, the `1` in the root goes past two of the `0`s to a leaf, and a push has its effect on the right of the tree. -/
theorem sifts_along_chains_circle : ∃ (less : Priority Nat) (items : Array Nat),
    less = (fun a b => (a + 1) % 3 == b % 3) ∧ items = #[1, 0, 1, 1, 0, 0] ∧
    5 < items.size ∧ 0 < items.size ∧ ¬ InSubtree 1 items.size ∧
    (∃ cs, (5 :: cs).IsChain IsChild ∧ (5 :: cs).zip cs = [(5, 2), (2, 0)] ∧
      MovesAlong 5 cs items (siftUp (recording less) 5 (.ofArray items))) ∧
    (∃ cs, (0 :: cs).IsChain (flip IsChild) ∧ (0 :: cs).zip cs = [(0, 1), (1, 4)] ∧
      MovesAlong 0 cs items (siftDown (recording less) 0 (.ofArray items)).2) ∧
    (push (recording less) 0 (.ofArray items)).2.items = #[0, 0, 1, 1, 0, 0, 1] ∧
    (push (recording less) 0 (.ofArray items)).2.items[1]? = (items.push 0)[1]? := by
  obtain ⟨hsifts, hoperations⟩ :=
    sifts_along_chains (ε := Access Nat) fun a b : Nat => (a + 1) % 3 == b % 3
  obtain ⟨up, hup, hmoves⟩ := (hsifts #[1, 0, 1, 1, 0, 0] 5 (by decide)).1
  obtain ⟨down, hdown, hmoves'⟩ := (hsifts #[1, 0, 1, 1, 0, 0] 0 (by decide)).2
  have hoff : ¬ InSubtree 1 6 := by decide +kernel
  refine ⟨_, _, rfl, rfl, by decide, by decide, hoff, ⟨up, hup, ?_, hmoves⟩,
    ⟨down, hdown, ?_, hmoves'⟩, by decide +kernel, ?_⟩
  · rw [← hmoves.swaps_eq]
    decide +kernel
  · rw [← hmoves'.swaps_eq]
    decide +kernel
  · exact (hoperations Probe.accesses (.ofArray #[1, 0, 1, 1, 0, 0])).1 0 1 hoff

end Containers.Heap
