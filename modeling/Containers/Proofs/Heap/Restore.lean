import Containers.Proofs.Heap.Order

/-!
# Restoring the heap order

Each heap operation leaves an ordered array ordered.  The proofs follow the operations: an operation
changes one slot, which leaves the array `Disturbed` there, and a sift exchanges the disturbance away.

* `Disturbed.swap_child` and `Rising.swap_parent` are about one exchange.
* `descend_restores` and `siftUp_ordered` are about a whole sift.  A downward sift that moves nothing
  has still found out that the children are in order, which is what the upward one needs to know.
* `heapify_ordered`, `push_ordered`, `pop_ordered`, `remove_ordered` and `fix_ordered` are about the
  operations.

All of it needs a strict weak order.  With less, the sibling of the child that moves up could outrank
that child's new neighbours without having been compared with them.
-/

set_option autoImplicit false

namespace Containers.Heap

open Storage (precedes)

variable {α ε : Type} {less : Priority α} {items : Array α} {W : Nat → Prop}

/-! ## One exchange -/

/-- Exchanging a slot in trouble with its preferred child moves the trouble down. -/
theorem Disturbed.swap_child (hl : less.IsStrict) (hW : Downward W) {node best : Nat}
    (h : Disturbed less W items node) (hbest : IsChild best node)
    (hlt : precedes less items best node = true)
    (hpref : ∀ i, IsChild i node → precedes less items i best = false) :
    Sinking less W (items.swapIfInBounds node best) best := by
  obtain ⟨hb, hn⟩ := lt_size_of_precedes hlt
  have hnb := hbest.lt
  refine ⟨⟨fun i p hip hp hi hpb => ?_, fun i p hi hbp hp => ?_⟩, fun p hbp _ => ?_⟩
  · rw [precedes_swap hn hb]
    by_cases hin : i = node
    · -- the child is in the place of `node` now, below the element that was above `node`
      subst hin
      have hpi := hip.lt
      rw [Equiv.swap_apply_left, Equiv.swap_apply_of_ne_of_ne (by omega) hpb]
      exact h.grandparent best p hbest hip hp
    · rw [Equiv.swap_apply_of_ne_of_ne hin hi]
      by_cases hpn : p = node
      · subst hpn
        rw [Equiv.swap_apply_left]
        exact hpref i hip
      · rw [Equiv.swap_apply_of_ne_of_ne hpn hpb]
        exact h.pairs i p hip hp hin hpn
  · obtain rfl : node = p := hbest.2.symm.trans hbp.2
    have hbi := hi.lt
    rw [precedes_swap hn hb, Equiv.swap_apply_left,
      Equiv.swap_apply_of_ne_of_ne (by omega) (by omega)]
    exact h.pairs i best hi (hW best node hbest hp) (by omega) (by omega)
  · obtain rfl : node = p := hbest.2.symm.trans hbp.2
    rw [precedes_swap hn hb, Equiv.swap_apply_left, Equiv.swap_apply_right]
    exact precedes_asymm hl hlt

/-- Exchanging a slot in trouble with its parent moves the trouble up. -/
theorem Rising.swap_parent (hl : less.IsStrictWeakOrder) {node p : Nat}
    (h : Rising less items node) (hp : IsChild node p)
    (hlt : precedes less items node p = true) :
    Rising less (items.swapIfInBounds node p) p := by
  obtain ⟨hn, hpn⟩ := lt_size_of_precedes hlt
  have hlt' := hp.lt
  refine ⟨⟨fun i q hiq _ hi hq => ?_, fun i q hi hpq _ => ?_⟩, fun i hi => ?_⟩
  · have hin : i ≠ node := fun hin => hq (by rw [← hiq.2, hin, hp.2])
    rw [precedes_swap hn hpn, Equiv.swap_apply_of_ne_of_ne hin hi]
    by_cases hqn : q = node
    · subst hqn
      rw [Equiv.swap_apply_left]
      exact h.grandparent i p hiq hp trivial
    · rw [Equiv.swap_apply_of_ne_of_ne hqn hq]
      exact h.pairs i q hiq trivial hin hqn
  · have hqp := hpq.lt
    have hup := h.pairs p q hpq trivial (by omega) (by omega)
    rw [precedes_swap hn hpn, Equiv.swap_apply_of_ne_of_ne (x := q) (by omega) (by omega)]
    by_cases hin : i = node
    · rw [hin, Equiv.swap_apply_left]
      exact hup
    · have hpi := hi.lt
      rw [Equiv.swap_apply_of_ne_of_ne hin (by omega)]
      exact not_precedes_trans hl hpn hup (h.pairs i p hi trivial hin (by omega))
  · have hdown := precedes_asymm hl.toIsStrict hlt
    rw [precedes_swap hn hpn, Equiv.swap_apply_right]
    by_cases hin : i = node
    · rw [hin, Equiv.swap_apply_left]
      exact hdown
    · have hpi := hi.lt
      rw [Equiv.swap_apply_of_ne_of_ne hin (by omega)]
      exact not_precedes_trans hl hpn hdown (h.pairs i p hi trivial hin (by omega))

/-! ## Sifting up -/

theorem Rising.ordered {node : Nat} (h : Rising less items node)
    (above : ∀ p, IsChild node p → precedes less items node p = false) : Ordered less items :=
  ordered_iff_orderedOn.2 (h.orderedOn (fun p hp _ => above p hp) h.children)

theorem siftUp_ordered {r : Rules α ε} (hl : r.less.IsStrictWeakOrder) (node : Nat)
    (s : Storage α ε) (h : Rising r.less s.items node) : Ordered r.less (siftUp r node s).items := by
  fun_induction siftUp r node s with
  | case1 s => exact h.ordered fun p hp => absurd hp.1 (Nat.lt_irrefl 0)
  | case2 node s hn outranks hlt ih =>
    refine ih ?_
    rw [Storage.items_swapAt, Storage.items_compareAt]
    exact h.swap_parent hl (isChild_parent (Nat.pos_of_ne_zero hn)) hlt
  | case3 node s hn outranks hlt =>
    rw [Storage.items_compareAt]
    refine h.ordered fun p hp => ?_
    rw [← hp.2]
    exact Bool.eq_false_iff.2 hlt

/-! ## Sifting down -/

/-- No child outranks the preferred one. -/
theorem not_precedes_preferredChild {r : Rules α ε} (hl : r.less.IsStrict) {i node : Nat}
    {s : Storage α ε} (hi : IsChild i node) :
    precedes r.less s.items i (preferredChild r s.size node s).1 = false := by
  rw [preferredChild]
  dsimp only
  split
  · rename_i hlen
    rw [Storage.compareAt_fst]
    obtain rfl | rfl := isChild_iff.1 hi
    · split
      · rename_i hlt
        exact precedes_asymm hl hlt
      · exact precedes_irrefl hl _
    · split
      · exact precedes_irrefl hl _
      · rename_i hlt
        exact Bool.eq_false_iff.2 hlt
  · rename_i hlen
    obtain rfl | rfl := isChild_iff.1 hi
    · exact precedes_irrefl hl _
    · exact not_precedes_of_lt fun hright _ => absurd hright hlen

/-- Sifting down restores the order, unless nothing moves; then the children were in order. -/
theorem descend_restores {r : Rules α ε} (hl : r.less.IsStrictWeakOrder) (hW : Downward W)
    (len node : Nat) (s : Storage α ε) (hlen : len = s.size)
    (h : Disturbed r.less W s.items node) :
    ((descend r len node s).1 = node ∧ (descend r len node s).2.items = s.items ∧
        ∀ i, IsChild i node → precedes r.less s.items i node = false) ∨
      (node < (descend r len node s).1 ∧ OrderedOn r.less W (descend r len node s).2.items) := by
  fun_induction descend r len node s with
  | case1 node s hleft best outranks hlt ih =>
    subst hlen
    have hitems : best.2.items = s.items := items_preferredChild ..
    have hchild : IsChild best.1 node := isChild_preferredChild ..
    have hlt' : precedes r.less s.items best.1 node = true := by
      rw [← hitems]
      exact hlt
    have hsink := h.swap_child hl.toIsStrict hW hchild hlt' fun i hi =>
      not_precedes_preferredChild hl.toIsStrict hi
    have hafter : (outranks.2.swapAt r node best.1).items = s.items.swapIfInBounds node best.1 := by
      rw [Storage.items_swapAt, Storage.items_compareAt, hitems]
    rw [← hafter] at hsink
    have hsize : s.size = (outranks.2.swapAt r node best.1).size := by
      rw [Storage.size, Storage.size, hafter, Array.size_swapIfInBounds]
    refine .inr ?_
    rcases ih hsize hsink.toDisturbed with ⟨hstop, hitems', hchildren⟩ | ⟨hmoved, hordered⟩
    · rw [hstop, hitems']
      exact ⟨hchild.lt, hsink.orderedOn hsink.above hchildren⟩
    · exact ⟨Nat.lt_trans hchild.lt hmoved, hordered⟩
  | case2 node s hleft best outranks hlt =>
    subst hlen
    have hitems : best.2.items = s.items := items_preferredChild ..
    have hbest : precedes r.less s.items best.1 node = false := by
      rw [← hitems]
      exact Bool.eq_false_iff.2 hlt
    refine .inl ⟨rfl, by rw [Storage.items_compareAt, hitems], fun i hi => ?_⟩
    exact not_precedes_trans hl (preferredChild_lt r s hleft) hbest
      (not_precedes_preferredChild hl.toIsStrict hi)
  | case3 node s hleft =>
    refine .inl ⟨rfl, rfl, fun i hi => not_precedes_of_lt fun hin _ => ?_⟩
    have := isChild_iff.1 hi
    rw [Storage.size] at hlen
    omega

/-- A downward sift answers `true` and has restored the order, or it answers `false` and has moved nothing. -/
theorem siftDown_restores {r : Rules α ε} (hl : r.less.IsStrictWeakOrder) (hW : Downward W)
    {node : Nat} {s : Storage α ε} (h : Disturbed r.less W s.items node) :
    ((siftDown r node s).1 = false ∧ (siftDown r node s).2.items = s.items ∧
        ∀ i, IsChild i node → precedes r.less s.items i node = false) ∨
      ((siftDown r node s).1 = true ∧ OrderedOn r.less W (siftDown r node s).2.items) := by
  rw [siftDown]
  dsimp only
  rcases descend_restores hl hW s.size node s rfl h with
    ⟨hstop, hitems, hchildren⟩ | ⟨hmoved, hordered⟩
  · exact .inl ⟨decide_eq_false (by omega), hitems, hchildren⟩
  · exact .inr ⟨decide_eq_true hmoved, hordered⟩

/-- Where no pair above `node` is looked at and the pairs further down are in order, sifting `node` down puts
all of them in order. -/
theorem siftDown_orderedOn {r : Rules α ε} (hl : r.less.IsStrictWeakOrder) (hW : Downward W)
    {node : Nat} (htop : ∀ p, IsChild node p → ¬ W p) {s : Storage α ε}
    (h : OrderedOn r.less (fun p => W p ∧ p ≠ node) s.items) :
    OrderedOn r.less W (siftDown r node s).2.items := by
  have hdist := h.disturbed htop
  rcases siftDown_restores hl hW hdist with ⟨-, hitems, hchildren⟩ | ⟨-, hordered⟩
  · rw [hitems]
    exact hdist.orderedOn (fun p hp hin => absurd hin (htop p hp)) hchildren
  · exact hordered

/-! ## Operations -/

/-- Repairing around the one slot in trouble restores the order. -/
theorem fix_ordered {r : Rules α ε} (hl : r.less.IsStrictWeakOrder) {index : Nat}
    {s : Storage α ε} (h : Disturbed r.less (fun _ => True) s.items index) :
    Ordered r.less (fix r index s).items := by
  rw [fix]
  split
  · dsimp only
    have hW : Downward fun _ => True := fun _ _ _ _ => trivial
    rcases siftDown_restores hl hW h with ⟨hstays, hitems, hchildren⟩ | ⟨hmoves, hordered⟩
    · rw [hstays, if_neg Bool.false_ne_true]
      refine siftUp_ordered hl index _ ?_
      rw [hitems]
      exact ⟨h, hchildren⟩
    · rw [hmoves, if_pos rfl]
      exact ordered_iff_orderedOn.2 hordered
  · rename_i hout
    exact h.ordered_of_size_le (Nat.not_lt.1 hout)

/-- A new element in the last slot can only be out of order with its parent. -/
theorem Ordered.rising_push (hl : less.IsStrictWeakOrder) (h : Ordered less items) (x : α) :
    Rising less (items.push x) items.size := by
  refine ⟨h.disturbed hl fun i j hi hj hij => ?_, fun i hi => not_precedes_of_lt fun hin _ => ?_⟩
  · rwa [precedes, Array.getElem?_push, Array.getElem?_push, if_neg hi, if_neg hj]
  · have := hi.lt
    rw [Array.size_push] at hin
    omega

/-- Nothing precedes itself, so a push does not fault, and it keeps the order. -/
theorem push_ordered {r : Rules α ε} (hl : r.less.IsStrictWeakOrder) (x : α) {s : Storage α ε}
    (h : Ordered r.less s.items) :
    (push r x s).1 = .ok () ∧ Ordered r.less (push r x s).2.items := by
  have hsize : (s.append r x).size - 1 = s.items.size := by
    rw [Storage.size, Storage.items_append, Array.size_push, Nat.add_sub_cancel]
  rw [push]
  rw [hsize, Storage.compareAt_fst, precedes_irrefl hl.toIsStrict, if_neg Bool.false_ne_true]
  refine ⟨rfl, siftUp_ordered hl _ _ ?_⟩
  rw [Storage.items_compareAt, Storage.items_append]
  exact h.rising_push hl x

theorem pushAll_ordered {r : Rules α ε} (hl : r.less.IsStrictWeakOrder) (xs : List α)
    {s : Storage α ε} (h : Ordered r.less s.items) :
    (pushAll r xs s).1 = .ok () ∧ Ordered r.less (pushAll r xs s).2.items := by
  induction xs generalizing s with
  | nil => exact ⟨rfl, h⟩
  | cons x xs ih =>
    obtain ⟨hok, hordered⟩ := push_ordered hl x h
    have hpush : push r x s = (.ok (), (push r x s).2) := Prod.ext hok rfl
    rw [pushAll, hpush]
    exact ih hordered

/-- Only the vacated slot has a new element. -/
theorem Ordered.disturbed_vacate (hl : less.IsStrictWeakOrder) (h : Ordered less items)
    {index : Nat} (hindex : index < items.size) :
    Disturbed less (fun _ => True) (vacate items index) index := by
  refine h.disturbed hl fun i j hi hj hij => not_precedes_of_lt fun hi' hj' => ?_
  rw [size_vacate] at hi' hj'
  rwa [precedes, getElem?_vacate hindex hi' hi, getElem?_vacate hindex hj' hj]

theorem remove_ordered {r : Rules α ε} (hl : r.less.IsStrictWeakOrder) (index : Nat)
    {s : Storage α ε} (h : Ordered r.less s.items) : Ordered r.less (remove r index s).2.items := by
  by_cases hindex : index < s.size
  · rw [remove_snd r hindex]
    refine fix_ordered hl ?_
    rw [items_depart]
    exact h.disturbed_vacate hl hindex
  · rw [remove_of_size_le r (Nat.not_lt.1 hindex)]
    exact h

theorem pop_ordered {r : Rules α ε} (hl : r.less.IsStrictWeakOrder) {s : Storage α ε}
    (h : Ordered r.less s.items) : Ordered r.less (pop r s).2.items := by
  rw [pop_eq_remove]
  exact remove_ordered hl 0 h

/-- Overwriting a slot and repairing around it keeps the order. -/
theorem set_fix_ordered {r : Rules α ε} (hl : r.less.IsStrictWeakOrder) (index : Nat) (x : α)
    {s : Storage α ε} (h : Ordered r.less s.items) :
    Ordered r.less (fix r index (s.set index x)).items := by
  refine fix_ordered hl (h.disturbed hl fun i j hi hj hij => ?_)
  rwa [precedes, Storage.items_set, Array.getElem?_setIfInBounds_ne (Ne.symm hi),
    Array.getElem?_setIfInBounds_ne (Ne.symm hj)]

/-! ## Putting contents in order -/

/-- With the slots from `node` on in order, sifting down those before it from the last to the first puts all
in order. -/
theorem heapifyFrom_ordered {r : Rules α ε} (hl : r.less.IsStrictWeakOrder) (node : Nat)
    {s : Storage α ε} (h : OrderedOn r.less (node ≤ ·) s.items) :
    Ordered r.less (heapifyFrom r node s).items := by
  induction node generalizing s with
  | zero => exact ordered_iff.2 fun i p hip => h i p hip (Nat.zero_le p)
  | succ node ih =>
    have hW : Downward (node ≤ ·) := fun i p hip hp => Nat.le_trans hp (Nat.le_of_lt hip.lt)
    refine ih (siftDown_orderedOn hl hW (fun p hp => Nat.not_le.2 hp.lt) fun i p hip hp => h i p hip ?_)
    exact Nat.lt_of_le_of_ne hp.1 (Ne.symm hp.2)

/-- Whatever the contents are, putting them in order does so. -/
theorem heapify_ordered {r : Rules α ε} (hl : r.less.IsStrictWeakOrder) (s : Storage α ε) :
    Ordered r.less (heapify r s).items := by
  refine heapifyFrom_ordered hl _ fun i p hip hp => not_precedes_of_lt fun hin _ => ?_
  -- the upper half of the slots has no children
  have := isChild_iff.1 hip
  rw [leftChild] at this
  rw [Storage.size] at hp
  omega

/-! ## The root -/

/-- Nothing in an ordered array precedes its root. -/
theorem Ordered.not_precedes_root (hl : less.IsStrictWeakOrder) (h : Ordered less items) (i : Nat) :
    precedes less items i 0 = false := by
  induction i using Nat.strongRecOn with
  | _ i ih =>
    by_cases hi : i = 0
    · rw [hi]
      exact precedes_irrefl hl.toIsStrict 0
    · have hchild := isChild_parent (Nat.pos_of_ne_zero hi)
      refine not_precedes_of_lt fun hin _ => ?_
      exact not_precedes_trans hl (Nat.lt_trans hchild.lt hin) (ih _ hchild.lt)
        (ordered_iff.1 h i _ hchild)

end Containers.Heap
