import Containers.Proofs.Heap.Accesses
import Mathlib.Algebra.BigOperators.Group.Finset.Basic
import Mathlib.Algebra.Order.Ring.Nat
import Mathlib.Algebra.Order.Sub.Basic
import Mathlib.Data.Nat.Log

/-!
# How much work the operations do

The priority may cost anything, and so may a swap hook, so the work of a heap operation is counted in
comparisons and exchanges, as they stand in the log of all accesses (`Probe.accesses`).  The bounds hold
whatever the priority answers: a sift goes along one path, and a path is as long as the tree is high.

* `depth` is how far a slot is below the root and `levelsBelow` how far the leaves are below a slot; neither
  mentions an element.
* `Spends` bounds what was written between two storages.  `spends_siftUp` and `spends_descend` bound the
  sifts, by the depth and by the levels below.
* An upward sift follows a downward one that has moved nothing, and such a one has looked at one level only;
  so both together look at no more than `log₂ n` levels (`spends_fix`).
* Putting `n` elements in order sifts down from every slot that has children, and the levels below these are
  fewer than `n` in all (`sum_levelsBelow_lt`), since half of the slots have none below.
-/

set_option autoImplicit false

namespace Containers.Heap

variable {α : Type} {less : Priority α} {s t u : Storage α (Access α)} {w w' c c' : Nat}

/-! ## Levels -/

/-- How far slot `i` is below the root. -/
def depth (i : Nat) : Nat := Nat.log 2 (i + 1)

/-- How many levels of a heap of `n` slots are below slot `i`: along the first children the number of a slot
plus one doubles. -/
def levelsBelow (n i : Nat) : Nat := Nat.log 2 (n / (i + 1))

theorem depth_parent {i : Nat} (hi : i ≠ 0) : depth (parent i) + 1 = depth i := by
  have hhalf : parent i + 1 = (i + 1) / 2 := by
    unfold parent
    omega
  rw [depth, depth, hhalf, ← Nat.log_of_one_lt_of_le (by decide) (by omega)]

/-- In a heap of half the size a slot has one level less below it. -/
theorem levelsBelow_half {n i : Nat} (hi : i < n / 2) : levelsBelow n i = levelsBelow (n / 2) i + 1 := by
  have htwo : 2 ≤ n / (i + 1) := by
    rw [Nat.le_div_iff_mul_le (by omega)]
    omega
  rw [levelsBelow, levelsBelow, Nat.log_of_one_lt_of_le (by decide) htwo, Nat.div_div_eq_div_mul,
    Nat.div_div_eq_div_mul, Nat.mul_comm]

theorem levelsBelow_of_half_le {n i : Nat} (hi : n / 2 ≤ i) : levelsBelow n i = 0 := by
  have htwo : n / (i + 1) < 2 := by
    rw [Nat.div_lt_iff_lt_mul (by omega)]
    omega
  exact Nat.log_of_lt htwo

theorem levelsBelow_isChild {n i j : Nat} (hleft : leftChild i < n) (hj : IsChild j i) :
    levelsBelow n j + 1 ≤ levelsBelow n i := by
  rw [leftChild] at hleft
  have hj' : 2 * (i + 1) ≤ j + 1 := by
    have := isChild_iff.1 hj
    rw [leftChild] at this
    omega
  have hhalf : levelsBelow n i = levelsBelow (n / 2) i + 1 := levelsBelow_half (by omega)
  rw [hhalf, levelsBelow, levelsBelow, Nat.div_div_eq_div_mul]
  exact Nat.succ_le_succ (Nat.log_mono_right (Nat.div_le_div_left hj' (by omega)))

/-- What is above a slot and what is below it make up no more than the height of the tree. -/
theorem depth_add_levelsBelow_le {n i : Nat} (hi : i < n) : depth i + levelsBelow n i ≤ Nat.log 2 n := by
  have hbelow : n / (i + 1) ≠ 0 := (Nat.div_pos hi (by omega)).ne'
  refine Nat.le_log_of_pow_le (by decide) ?_
  calc 2 ^ (depth i + levelsBelow n i)
      = 2 ^ depth i * 2 ^ levelsBelow n i := Nat.pow_add ..
    _ ≤ (i + 1) * (n / (i + 1)) :=
        Nat.mul_le_mul (Nat.pow_log_le_self 2 (by omega)) (Nat.pow_log_le_self 2 hbelow)
    _ ≤ n := Nat.mul_div_le n (i + 1)

open Finset in
/-- All levels below all slots are fewer than the slots. -/
theorem sum_levelsBelow_lt {n : Nat} (hn : 0 < n) : ∑ i ∈ range (n / 2), levelsBelow n i < n := by
  induction n using Nat.strongRecOn with
  | _ n ih =>
    -- one level below each of the slots that have children, and the rest as in a heap of half the size
    have hhalf : ∑ i ∈ range (n / 2), levelsBelow n i =
        n / 2 + ∑ i ∈ range (n / 2), levelsBelow (n / 2) i := by
      rw [sum_congr rfl fun i hi => levelsBelow_half (mem_range.1 hi), sum_add_distrib]
      simp [Nat.add_comm]
    have hquarter : ∑ i ∈ range (n / 2), levelsBelow (n / 2) i =
        ∑ i ∈ range (n / 2 / 2), levelsBelow (n / 2) i := by
      refine (sum_subset (range_subset_range.2 (by omega)) fun i _ hi => ?_).symm
      exact levelsBelow_of_half_le (Nat.not_lt.1 fun h => hi (mem_range.2 h))
    rcases Nat.eq_zero_or_pos (n / 2) with hzero | hpos
    · rw [hzero]
      exact hn
    · have := ih (n / 2) (by omega) hpos
      omega

/-! ## Counting -/

/-- The access is an exchange. -/
def Access.isSwap : Access α → Bool
  | .swap _ _ => true
  | _ => false

/-- The access is a comparison. -/
def Access.isCompare : Access α → Bool
  | .compare _ _ _ => true
  | _ => false

/-- Between `s` and `t` there were at most so many exchanges and so many comparisons. -/
def Spends (s t : Storage α (Access α)) (swaps compares : Nat) : Prop :=
  ∃ made, t.log.toList = s.log.toList ++ made ∧ made.countP Access.isSwap ≤ swaps ∧
    made.countP Access.isCompare ≤ compares

namespace Spends

theorem refl (s : Storage α (Access α)) : Spends s s 0 0 := ⟨[], by simp⟩

theorem trans (h : Spends s t w c) (h' : Spends t u w' c') : Spends s u (w + w') (c + c') := by
  obtain ⟨made, hmade, hw, hc⟩ := h
  obtain ⟨made', hmade', hw', hc'⟩ := h'
  refine ⟨made ++ made', ?_, ?_, ?_⟩
  · rw [hmade', hmade, List.append_assoc]
  · rw [List.countP_append]
    exact Nat.add_le_add hw hw'
  · rw [List.countP_append]
    exact Nat.add_le_add hc hc'

theorem mono (h : Spends s t w c) (hw : w ≤ w') (hc : c ≤ c') : Spends s t w' c' := by
  obtain ⟨made, hmade, hmw, hmc⟩ := h
  exact ⟨made, hmade, hmw.trans hw, hmc.trans hc⟩

end Spends

theorem spends_compareAt (i j : Nat) (s : Storage α (Access α)) :
    Spends s (s.compareAt (recording less) i j).2 0 1 :=
  ⟨[.compare i j (Storage.precedes less s.items i j)], Array.toList_push .., Nat.le_refl _, Nat.le_refl _⟩

theorem spends_swapAt (i j : Nat) (s : Storage α (Access α)) :
    Spends s (s.swapAt (recording less) i j) 1 0 :=
  ⟨[.swap i j], Array.toList_push .., Nat.le_refl _, Nat.le_refl _⟩

theorem spends_dropLast (s : Storage α (Access α)) : Spends s (s.dropLast (recording less)).2 0 0 :=
  ⟨[.drop], Array.toList_push .., Nat.le_refl _, Nat.le_refl _⟩

/-! ## The sifts -/

variable (less) in
/-- One comparison and one exchange a level. -/
theorem spends_siftUp (node : Nat) (s : Storage α (Access α)) :
    Spends s (siftUp (recording less) node s) (depth node) (depth node) := by
  fun_induction siftUp (recording less) node s with
  | case1 s => exact (Spends.refl s).mono (Nat.zero_le _) (Nat.zero_le _)
  | case2 node s hnode outranks _ ih =>
    have hdepth := depth_parent hnode
    refine (((spends_compareAt node (parent node) s).trans (spends_swapAt ..)).trans ih).mono ?_ ?_ <;>
      omega
  | case3 node s hnode outranks _ =>
    have hdepth := depth_parent hnode
    exact (spends_compareAt node (parent node) s).mono (by omega) (by omega)

theorem spends_preferredChild (len node : Nat) (s : Storage α (Access α)) :
    Spends s (preferredChild (recording less) len node s).2 0 1 := by
  rw [preferredChild]
  dsimp only
  split
  · exact spends_compareAt ..
  · exact (Spends.refl s).mono (Nat.le_refl 0) (Nat.zero_le 1)

/-- To look at one level takes two comparisons. -/
theorem spends_look (len node : Nat) (s : Storage α (Access α)) :
    Spends s ((preferredChild (recording less) len node s).2.compareAt (recording less)
      (preferredChild (recording less) len node s).1 node).2 0 2 :=
  (spends_preferredChild len node s).trans (spends_compareAt ..)

/-- Two comparisons and one exchange a level. -/
theorem spends_descend (len node : Nat) (s : Storage α (Access α)) :
    Spends s (descend (recording less) len node s).2 (levelsBelow len node)
      (2 * levelsBelow len node) := by
  fun_induction descend (recording less) len node s with
  | case1 node s hleft best outranks _ ih =>
    have hlevels : levelsBelow len best.1 + 1 ≤ levelsBelow len node :=
      levelsBelow_isChild hleft (isChild_preferredChild (recording less) len node s)
    refine (((spends_look len node s).trans (spends_swapAt ..)).trans ih).mono ?_ ?_ <;> omega
  | case2 node s hleft best outranks _ =>
    have hlevels := levelsBelow_isChild hleft (isChild_preferredChild (recording less) len node s)
    exact (spends_look len node s).mono (by omega) (by omega)
  | case3 node s _ => exact (Spends.refl s).mono (Nat.zero_le _) (Nat.zero_le _)

theorem le_descend (r : Rules α (Access α)) (len node : Nat) (s : Storage α (Access α)) :
    node ≤ (descend r len node s).1 := by
  fun_induction descend r len node s with
  | case1 node s _ best outranks _ ih => exact (lt_preferredChild r len node s).le.trans ih
  | case2 => exact Nat.le_refl _
  | case3 => exact Nat.le_refl _

/-- A downward sift that moves nothing has looked at no level but the next one, if there is one. -/
theorem spends_siftDown_of_stays {node : Nat} (h : (siftDown (recording less) node s).1 = false) :
    Spends s (siftDown (recording less) node s).2 0 (if leftChild node < s.size then 2 else 0) := by
  rw [siftDown] at h ⊢
  dsimp only at h ⊢
  rw [descend] at h ⊢
  split
  · rename_i hleft
    rw [if_pos hleft] at h
    dsimp only at h ⊢
    split
    · rename_i hout
      rw [if_pos hout] at h
      refine absurd ?_ (of_decide_eq_false h)
      exact (lt_preferredChild (recording less) s.size node s).trans_le (le_descend ..)
    · exact spends_look s.size node s
  · exact Spends.refl s

/-! ## The operations -/

variable (less) in
theorem spends_fix (index : Nat) (s : Storage α (Access α)) :
    Spends s (fix (recording less) index s) (Nat.log 2 s.size) (2 * Nat.log 2 s.size) := by
  rw [fix]
  split
  · rename_i hindex
    have hheight := depth_add_levelsBelow_le hindex
    have hdown : Spends s (siftDown (recording less) index s).2 _ _ := spends_descend s.size index s
    dsimp only
    split
    · exact hdown.mono (by omega) (by omega)
    · rename_i hstays
      have hlook := spends_siftDown_of_stays (Bool.eq_false_iff.2 hstays)
      refine (hlook.trans (spends_siftUp less index _)).mono (by omega) ?_
      split
      · -- below the slot there is the level that was looked at
        rename_i hleft
        have hlevel := levelsBelow_isChild hleft (isChild_iff.2 (.inl rfl))
        omega
      · omega
  · exact (Spends.refl s).mono (Nat.zero_le _) (Nat.zero_le _)

theorem spends_heapifyFrom (node : Nat) (s : Storage α (Access α)) :
    Spends s (heapifyFrom (recording less) node s) (∑ i ∈ Finset.range node, levelsBelow s.size i)
      (2 * ∑ i ∈ Finset.range node, levelsBelow s.size i) := by
  induction node generalizing s with
  | zero => exact Spends.refl s
  | succ node ih =>
    have hdown : Spends s (siftDown (recording less) node s).2 _ _ := spends_descend s.size node s
    have hrest := ih (siftDown (recording less) node s).2
    rw [Storage.size, size_siftDown, ← Storage.size] at hrest
    rw [Finset.sum_range_succ]
    exact (hdown.trans hrest).mono (by omega) (by omega)

theorem spends_heapify (s : Storage α (Access α)) :
    Spends s (heapify (recording less) s) (s.size - 1) (2 * (s.size - 1)) := by
  have hsum : ∑ i ∈ Finset.range (s.size / 2), levelsBelow s.size i ≤ s.size - 1 := by
    rcases Nat.eq_zero_or_pos s.size with hzero | hpos
    · simp [hzero]
    · exact Nat.le_sub_one_of_lt (sum_levelsBelow_lt hpos)
  exact (spends_heapifyFrom (s.size / 2) s).mono hsum (Nat.mul_le_mul_left 2 hsum)

theorem spends_remove (index : Nat) (s : Storage α (Access α)) :
    Spends s (remove (recording less) index s).2 (1 + Nat.log 2 (s.size - 1))
      (2 * Nat.log 2 (s.size - 1)) := by
  by_cases hindex : index < s.size
  · have hleave : Spends s (depart (recording less) index s) 1 0 := by
      rw [depart]
      split
      · exact (spends_dropLast s).mono (Nat.zero_le 1) (Nat.le_refl 0)
      · exact (spends_swapAt index (s.size - 1) s).trans (spends_dropLast _)
    have hsize : (depart (recording less) index s).size = s.size - 1 := by
      rw [Storage.size, items_depart, size_vacate, Storage.size]
    have hfix := spends_fix less index (depart (recording less) index s)
    rw [hsize] at hfix
    rw [remove_snd (recording less) hindex]
    exact (hleave.trans hfix).mono (Nat.le_refl _) (by omega)
  · rw [remove_of_size_le (recording less) (Nat.not_lt.1 hindex)]
    exact (Spends.refl s).mono (Nat.zero_le _) (Nat.zero_le _)

variable (less) in
/-- A push appends, compares the new element with itself, and sifts it up. -/
theorem log_push (x : α) (s : Storage α (Access α)) :
    ∃ made, (push (recording less) x s).2.log.toList =
        s.log.toList ++ .append x :: .compare s.size s.size (less x x) :: made ∧
      made.countP Access.isSwap ≤ depth s.size ∧ made.countP Access.isCompare ≤ depth s.size := by
  obtain ⟨asked, hasked⟩ : ∃ asked, asked =
      ((s.append (recording less) x).compareAt (recording less) s.size s.size).2 := ⟨_, rfl⟩
  have hlog : asked.log.toList =
      s.log.toList ++ [.append x, .compare s.size s.size (less x x)] := by
    rw [hasked, log_append_compareAt, Array.toList_append]
  rw [push, size_append_sub_one, ← hasked]
  split
  · exact ⟨[], by simp [hlog]⟩
  · obtain ⟨made, hmade, hbounds⟩ := spends_siftUp less s.size asked
    exact ⟨made, by simp [hmade, hlog], hbounds⟩

theorem spends_push (x : α) (s : Storage α (Access α)) :
    Spends s (push (recording less) x s).2 (depth s.size) (1 + depth s.size) := by
  obtain ⟨made, hlog, hswaps, hcompares⟩ := log_push less x s
  refine ⟨_, hlog, ?_, ?_⟩
  · rw [List.countP_cons, List.countP_cons]
    exact hswaps
  · rw [List.countP_cons, List.countP_cons, Nat.add_comm 1]
    exact Nat.succ_le_succ hcompares

/-- What the operations spend on a storage. -/
structure Economical (less : Priority α) (s : Storage α (Access α)) : Prop where
  /-- Putting everything in order is linear. -/
  heapify : Spends s (heapify (recording less) s) (s.size - 1) (2 * (s.size - 1))
  /-- A push is logarithmic in the number of slots after it. -/
  push : ∀ x, Spends s (push (recording less) x s).2 (Nat.log 2 (s.size + 1))
    (1 + Nat.log 2 (s.size + 1))
  /-- One of the comparisons of a push is that of the new element with itself, and it comes first. -/
  push_self : ∀ x, ∃ made, (Heap.push (recording less) x s).2.log.toList =
    s.log.toList ++ .append x :: .compare s.size s.size (less x x) :: made
  /-- A repair is logarithmic, whether it goes down or, having looked down, up. -/
  fix : ∀ index, Spends s (fix (recording less) index s) (Nat.log 2 s.size) (2 * Nat.log 2 s.size)
  /-- To remove the root is to exchange it once and to repair what is left. -/
  pop : Spends s (pop (recording less) s).2 (1 + Nat.log 2 (s.size - 1)) (2 * Nat.log 2 (s.size - 1))
  /-- So it is with any other slot. -/
  remove : ∀ index, Spends s (remove (recording less) index s).2 (1 + Nat.log 2 (s.size - 1))
    (2 * Nat.log 2 (s.size - 1))

/-- **The operations make few comparisons and fewer exchanges**, whatever the priority answers and whatever
order the elements are in.  Where there are no slots the bounds are zero, and where there is one a pop makes
no exchange although the bound would allow it. -/
theorem economical (less : Priority α) (s : Storage α (Access α)) : Economical less s where
  heapify := spends_heapify s
  push x := spends_push x s
  push_self x := by
    obtain ⟨made, hlog, -⟩ := log_push less x s
    exact ⟨made, hlog⟩
  fix index := spends_fix less index s
  pop := by
    rw [pop_eq_remove]
    exact spends_remove 0 s
  remove index := spends_remove index s

end Containers.Heap
