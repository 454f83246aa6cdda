import Containers.Heap.Contents
import Mathlib.Logic.Equiv.Basic

/-!
# Slots and accesses

What can be said of the heap algorithms before anything is known about the priority.

* An exchange renames the slots of the array, so a comparison after it is a comparison of the renamed
  slots before it (`precedes_swap`).
* `IsChild` is the shape of the tree, and the child that `descend` looks at is one.
* An element leaves by way of the last slot (`depart`), and a slot is then repaired.  Seen like this
  `pop` is `remove` at the root: the repair could only go downwards there anyway.
-/

set_option autoImplicit false

namespace Containers.Heap

open Storage (precedes)

variable {α ε : Type} {less : Priority α} {items : Array α}

/-! ## Comparing slots -/

theorem precedes_eq {i j : Nat} (hi : i < items.size) (hj : j < items.size) :
    precedes less items i j = less items[i] items[j] := by
  rw [precedes, Array.getElem?_eq_getElem hi, Array.getElem?_eq_getElem hj]

/-- Only slots that exist can precede or be preceded. -/
theorem lt_size_of_precedes {i j : Nat} (h : precedes less items i j = true) :
    i < items.size ∧ j < items.size := by
  rw [precedes] at h
  split at h
  · rename_i hi hj
    exact ⟨(Array.getElem?_eq_some_iff.1 hi).1, (Array.getElem?_eq_some_iff.1 hj).1⟩
  · cases h

/-- So only slots that exist need to be looked at. -/
theorem not_precedes_of_lt {i j : Nat}
    (h : i < items.size → j < items.size → precedes less items i j = false) :
    precedes less items i j = false := by
  refine Bool.eq_false_iff.2 fun hij => ?_
  obtain ⟨hi, hj⟩ := lt_size_of_precedes hij
  exact absurd hij (Bool.eq_false_iff.1 (h hi hj))

/-- An exchange renames the slots of the array. -/
theorem getElem?_swapIfInBounds {i j : Nat} (hi : i < items.size) (hj : j < items.size) (k : Nat) :
    (items.swapIfInBounds i j)[k]? = items[Equiv.swap i j k]? := by
  rw [Array.swapIfInBounds_def, dif_pos hi, dif_pos hj, Array.getElem?_swap]
  by_cases hkj : k = j
  · rw [if_pos hkj.symm, hkj, Equiv.swap_apply_right, Array.getElem?_eq_getElem hi]
  · by_cases hki : k = i
    · rw [if_neg (Ne.symm hkj), if_pos hki.symm, hki, Equiv.swap_apply_left,
        Array.getElem?_eq_getElem hj]
    · rw [if_neg (Ne.symm hkj), if_neg (Ne.symm hki), Equiv.swap_apply_of_ne_of_ne hki hkj]

theorem precedes_swap {i j : Nat} (hi : i < items.size) (hj : j < items.size) (a b : Nat) :
    precedes less (items.swapIfInBounds i j) a b =
      precedes less items (Equiv.swap i j a) (Equiv.swap i j b) := by
  rw [precedes, precedes, getElem?_swapIfInBounds hi hj, getElem?_swapIfInBounds hi hj]

/-! A new element is in the last slot. -/

theorem size_append_sub_one (r : Rules α ε) (x : α) (s : Storage α ε) :
    (s.append r x).size - 1 = s.size := by
  simp [Storage.size]

theorem precedes_append_self (r : Rules α ε) (x : α) (s : Storage α ε) :
    precedes r.less (s.append r x).items s.size s.size = r.less x x := by
  have hlast : s.size < (s.append r x).items.size := by simp [Storage.size]
  rw [precedes_eq hlast hlast]
  simp [Storage.size]

/-! ## Pairs of slots -/

/-- Slot `c` is right below slot `p`.  The root is below no slot, although `parent 0` is `0`. -/
def IsChild (c p : Nat) : Prop := 0 < c ∧ parent c = p

theorem isChild_parent {i : Nat} (h : 0 < i) : IsChild i (parent i) := ⟨h, rfl⟩

theorem IsChild.lt {c p : Nat} (h : IsChild c p) : p < c := by
  obtain ⟨h, rfl⟩ := h
  exact parent_lt h

theorem isChild_iff {c p : Nat} : IsChild c p ↔ c = leftChild p ∨ c = leftChild p + 1 := by
  rw [IsChild, parent, leftChild]
  omega

/-! ## The child that moves up -/

theorem isChild_preferredChild (r : Rules α ε) (len node : Nat) (s : Storage α ε) :
    IsChild (preferredChild r len node s).1 node :=
  isChild_iff.2 (preferredChild_eq_or r len node s)

theorem preferredChild_lt (r : Rules α ε) {len node : Nat} (s : Storage α ε)
    (h : leftChild node < len) : (preferredChild r len node s).1 < len := by
  rw [preferredChild]
  dsimp only
  split
  · split
    · assumption
    · exact h
  · exact h

/-! ## Leaving -/

theorem swapIfInBounds_self (i : Nat) : items.swapIfInBounds i i = items := by
  by_cases hi : i < items.size
  · refine Array.ext_getElem? fun k => ?_
    rw [getElem?_swapIfInBounds hi hi, Equiv.swap_self, Equiv.refl_apply]
  · rw [Array.swapIfInBounds_def, dif_neg hi]

/-- The array after the element in slot `index` has left through the last slot. -/
def vacate (items : Array α) (index : Nat) : Array α :=
  (items.swapIfInBounds index (items.size - 1)).pop

/-- The storage after the element in slot `index` has left through the last slot. -/
def depart (r : Rules α ε) (index : Nat) (s : Storage α ε) : Storage α ε :=
  ((if index = s.size - 1 then s else s.swapAt r index (s.size - 1)).dropLast r).2

theorem items_depart (r : Rules α ε) (index : Nat) (s : Storage α ε) :
    (depart r index s).items = vacate s.items index := by
  rw [depart, Storage.items_dropLast]
  split
  · rename_i hlast
    rw [vacate, hlast, Storage.size, swapIfInBounds_self]
  · rw [Storage.items_swapAt]
    rfl

theorem getElem?_vacate {index k : Nat} (hindex : index < items.size) (hk : k < items.size - 1)
    (hne : k ≠ index) : (vacate items index)[k]? = items[k]? := by
  rw [vacate, Array.getElem?_pop, Array.size_swapIfInBounds, if_pos hk,
    getElem?_swapIfInBounds hindex (by omega), Equiv.swap_apply_of_ne_of_ne hne (by omega)]

@[simp] theorem size_vacate (index : Nat) : (vacate items index).size = items.size - 1 := by
  rw [vacate, Array.size_pop, Array.size_swapIfInBounds]

/-- Removing is leaving and repairing the slot that was left. -/
theorem remove_snd (r : Rules α ε) {index : Nat} {s : Storage α ε} (h : index < s.size) :
    (remove r index s).2 = fix r index (depart r index s) := by
  rw [remove, if_pos h]
  rfl

theorem remove_of_size_le (r : Rules α ε) {index : Nat} {s : Storage α ε} (h : s.size ≤ index) :
    remove r index s = (none, s) := by
  rw [remove, if_neg (Nat.not_lt.2 h)]

/-- There is nothing above the root for a repair to look at. -/
theorem fix_zero (r : Rules α ε) (s : Storage α ε) :
    fix r 0 s = if s.size = 0 then s else (siftDown r 0 s).2 := by
  rw [fix]
  by_cases h : s.size = 0
  · rw [if_pos h, if_neg (by omega)]
  · rw [if_neg h, if_pos (Nat.pos_of_ne_zero h)]
    dsimp only
    rw [siftUp, if_pos rfl, ite_self]

/-- Taking the root is removing slot `0`: the same answer, elements and log. -/
theorem pop_eq_remove (r : Rules α ε) (s : Storage α ε) : pop r s = remove r 0 s := by
  by_cases h : s.size = 0
  · rw [remove_of_size_le r (Nat.le_of_eq h), pop]
    exact if_pos h
  · have hpos := Nat.pos_of_ne_zero h
    have hguard : (if 1 < s.size then s.swapAt r 0 (s.size - 1) else s) =
        if 0 = s.size - 1 then s else s.swapAt r 0 (s.size - 1) := by
      by_cases hone : 1 < s.size
      · rw [if_pos hone, if_neg (by omega)]
      · rw [if_neg hone, if_pos (by omega)]
    refine Prod.ext ?_ ?_
    · rw [pop_fst, remove_fst]
    · rw [remove_snd r hpos, fix_zero, depart, pop]
      dsimp only
      rw [if_neg h, hguard]

end Containers.Heap
