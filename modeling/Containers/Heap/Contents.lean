import Containers.Heap.Operations

/-!
# What the heap operations keep

Whatever the priority is, and however inconsistently it answers, the heap operations lose no element
and make none up.  Sifting only exchanges slots, so it permutes the array; an operation adds exactly
the element it was given or drops exactly the one it hands out.

The statements here are about the array alone.  What is in the log, and whether a push ends in a
fault, makes no difference to them.
-/

set_option autoImplicit false

namespace Containers.Heap

open Array

variable {α ε : Type}

/-- Exchanging two slots permutes the elements. -/
theorem swapIfInBounds_perm (items : Array α) (i j : Nat) : items.swapIfInBounds i j ~ items := by
  rw [Array.swapIfInBounds_def]
  split
  · split
    · exact Array.swap_perm ..
    · exact Perm.refl _
  · exact Perm.refl _

/-! ## Sifting -/

theorem siftUp_perm (r : Rules α ε) (node : Nat) (s : Storage α ε) :
    (siftUp r node s).items ~ s.items := by
  fun_induction siftUp r node s with
  | case1 => exact Perm.refl _
  | case2 node s _ outranks _ ih =>
    rw [Storage.items_swapAt, Storage.items_compareAt] at ih
    exact ih.trans (swapIfInBounds_perm ..)
  | case3 node s _ outranks _ => rw [Storage.items_compareAt]

theorem descend_perm (r : Rules α ε) (len node : Nat) (s : Storage α ε) :
    (descend r len node s).2.items ~ s.items := by
  fun_induction descend r len node s with
  | case1 node s _ best outranks _ ih =>
    rw [Storage.items_swapAt, Storage.items_compareAt, items_preferredChild] at ih
    exact ih.trans (swapIfInBounds_perm ..)
  | case2 node s _ best outranks _ =>
    dsimp only
    rw [Storage.items_compareAt, items_preferredChild]
  | case3 => exact Perm.refl _

theorem siftDown_perm (r : Rules α ε) (start : Nat) (s : Storage α ε) :
    (siftDown r start s).2.items ~ s.items :=
  descend_perm r s.size start s

theorem heapifyFrom_perm (r : Rules α ε) (node : Nat) (s : Storage α ε) :
    (heapifyFrom r node s).items ~ s.items := by
  induction node generalizing s with
  | zero => exact Perm.refl _
  | succ node ih => exact (ih _).trans (siftDown_perm r node s)

/-! ## Operations -/

/-- Putting contents in order permutes them. -/
theorem heapify_perm (r : Rules α ε) (s : Storage α ε) : (heapify r s).items ~ s.items :=
  heapifyFrom_perm r _ s

/-- Repairing permutes the elements, whatever slot is named. -/
theorem fix_perm (r : Rules α ε) (index : Nat) (s : Storage α ε) :
    (fix r index s).items ~ s.items := by
  rw [fix]
  split
  · dsimp only
    split
    · exact siftDown_perm r index s
    · exact (siftUp_perm ..).trans (siftDown_perm r index s)
  · exact Perm.refl _

/-- Sifting up permutes the elements, whether it faults or not. -/
theorem siftUpAt_perm (r : Rules α ε) (node : Nat) (s : Storage α ε) :
    (siftUpAt r node s).2.items ~ s.items := by
  rw [siftUpAt]
  split
  · exact siftUp_perm r node s
  · exact Perm.refl _

/-- A push adds its element, whether it faults or not. -/
theorem push_perm (r : Rules α ε) (x : α) (s : Storage α ε) :
    (push r x s).2.items ~ s.items.push x := by
  rw [push]
  split
  · rw [Storage.items_compareAt, Storage.items_append]
  · have h := siftUp_perm r ((s.append r x).size - 1)
      ((s.append r x).compareAt r ((s.append r x).size - 1) ((s.append r x).size - 1)).2
    rw [Storage.items_compareAt, Storage.items_append] at h
    exact h

/-- After an exchange with the last slot, the last slot holds what was in the other one. -/
theorem back?_swapIfInBounds_last {items : Array α} {i : Nat} (h : i < items.size) :
    (items.swapIfInBounds i (items.size - 1)).back? = items[i]? := by
  have hl : items.size - 1 < items.size := by omega
  rw [Array.swapIfInBounds_def, dif_pos h, dif_pos hl, Array.back?_eq_getElem?, Array.size_swap,
    Array.getElem?_swap, if_pos rfl, Array.getElem?_eq_getElem h]

/-- What is left after the last slot was dropped, and what it held, make up what there was. -/
theorem push_dropLast {r : Rules α ε} {s : Storage α ε} {x : α} (h : (s.dropLast r).1 = some x) :
    (s.dropLast r).2.items.push x = s.items := by
  obtain ⟨ys, hs⟩ := Array.back?_eq_some_iff.1 h
  rw [Storage.items_dropLast, hs, Array.pop_push]

/-- The element at the root leaves. -/
theorem pop_fst (r : Rules α ε) (s : Storage α ε) : (pop r s).1 = s.items[0]? := by
  rw [pop]
  split
  · rename_i h
    exact (Array.getElem?_eq_none (Nat.le_of_eq h)).symm
  · rename_i h
    split
    · rw [Storage.dropLast_fst, Storage.items_swapAt]
      exact back?_swapIfInBounds_last (Nat.pos_of_ne_zero h)
    · rename_i h₁
      rw [Storage.dropLast_fst, Array.back?_eq_getElem?]
      congr 1
      exact Nat.sub_eq_zero_of_le (Nat.not_lt.1 h₁)

/-- The element that leaves and those that stay make up those that were there. -/
theorem pop_perm {r : Rules α ε} {s : Storage α ε} {x : α} (h : (pop r s).1 = some x) :
    (pop r s).2.items.push x ~ s.items := by
  rw [pop] at h ⊢
  split at h
  · cases h
  · rename_i hs
    rw [if_neg hs]
    have hp : (if 1 < s.size then s.swapAt r 0 (s.size - 1) else s).items ~ s.items := by
      split
      · rw [Storage.items_swapAt]
        exact swapIfInBounds_perm ..
      · exact Perm.refl _
    generalize (if 1 < s.size then s.swapAt r 0 (s.size - 1) else s) = t at h hp ⊢
    dsimp only at h ⊢
    rw [← push_dropLast h] at hp
    split
    · exact hp
    · exact ((siftDown_perm ..).push x).trans hp

/-- The element in the slot leaves. -/
theorem remove_fst (r : Rules α ε) (index : Nat) (s : Storage α ε) :
    (remove r index s).1 = s.items[index]? := by
  rw [remove]
  split
  · rename_i h
    dsimp only
    split
    · rename_i hl
      rw [Storage.dropLast_fst, Array.back?_eq_getElem?, hl]
      rfl
    · rw [Storage.dropLast_fst, Storage.items_swapAt]
      exact back?_swapIfInBounds_last h
  · rename_i h
    exact (Array.getElem?_eq_none (Nat.le_of_not_lt h)).symm

/-- The element that leaves and those that stay make up those that were there. -/
theorem remove_perm {r : Rules α ε} {index : Nat} {s : Storage α ε} {x : α}
    (h : (remove r index s).1 = some x) : (remove r index s).2.items.push x ~ s.items := by
  rw [remove] at h ⊢
  split at h
  · rename_i hs
    rw [if_pos hs]
    dsimp only at h ⊢
    have hd := push_dropLast h
    have hp :
        (if index = s.size - 1 then s else s.swapAt r index (s.size - 1)).items ~ s.items := by
      split
      · exact Perm.refl _
      · rw [Storage.items_swapAt]
        exact swapIfInBounds_perm ..
    rw [← hd] at hp
    exact ((fix_perm ..).push x).trans hp
  · cases h

end Containers.Heap
