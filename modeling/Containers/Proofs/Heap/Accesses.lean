import Containers.Proofs.Heap.Slots

/-!
# What every access keeps

The algorithms touch a storage through its accesses only, and the two that the sifts use, comparing and
exchanging, are always made on slots that exist, an exchange on two different ones.  So a predicate on
storages that survives such accesses (`Kept`) survives the sifts and whatever is built from them.

No priority is good or bad here.  Which answers the comparisons give decides which accesses are made,
and the predicate survives all of them.

What the accesses are is seen if all of them are written down (`recording`).
-/

set_option autoImplicit false

namespace Containers.Heap

variable {α ε : Type} {r : Rules α ε} {P : Storage α ε → Prop}

/-- The rules of a storage that writes down every access. -/
def recording (less : Priority α) : Rules α (Access α) := ⟨less, Probe.accesses⟩

/-- `P` survives comparing and exchanging slots that exist. -/
structure Kept (r : Rules α ε) (P : Storage α ε → Prop) : Prop where
  compare : ∀ i j s, i < s.size → j < s.size → P s → P (s.compareAt r i j).2
  swap : ∀ i j s, i < s.size → j < s.size → i ≠ j → P s → P (s.swapAt r i j)

@[simp] theorem size_compareAt (r : Rules α ε) (i j : Nat) (s : Storage α ε) :
    (s.compareAt r i j).2.size = s.size := by
  rw [Storage.size, Storage.items_compareAt, Storage.size]

@[simp] theorem size_swapAt (r : Rules α ε) (i j : Nat) (s : Storage α ε) :
    (s.swapAt r i j).size = s.size := by
  rw [Storage.size, Storage.items_swapAt, Array.size_swapIfInBounds, Storage.size]

theorem size_preferredChild (r : Rules α ε) (len node : Nat) (s : Storage α ε) :
    (preferredChild r len node s).2.size = s.size := by
  rw [Storage.size, items_preferredChild, Storage.size]

/-- What a push has written down when it knows whether it faults. -/
theorem log_append_compareAt (less : Priority α) (x : α) (s : Storage α (Access α)) :
    ((s.append (recording less) x).compareAt (recording less) s.size s.size).2.log =
      s.log ++ #[.append x, .compare s.size s.size (less x x)] := by
  have hself := precedes_append_self (recording less) x s
  rw [Storage.compareAt, hself]
  rfl

theorem parent_le (i : Nat) : parent i ≤ i := by
  unfold parent
  omega

/-- The child that `descend` looks at is a slot, also after looking for it. -/
theorem preferredChild_lt_size (r : Rules α ε) {len node : Nat} {s : Storage α ε}
    (hlen : len = s.size) (hleft : leftChild node < len) :
    (preferredChild r len node s).1 < (preferredChild r len node s).2.size := by
  rw [size_preferredChild, ← hlen]
  exact preferredChild_lt r s hleft

namespace Kept

theorem siftUp (hP : Kept r P) {node : Nat} {s : Storage α ε} (hn : node < s.size) (h : P s) :
    P (siftUp r node s) := by
  fun_induction Heap.siftUp r node s with
  | case1 s => exact h
  | case2 node s hne outranks _ ih =>
    have hlt := parent_lt (Nat.pos_of_ne_zero hne)
    have hp : parent node < s.size := Nat.lt_trans hlt hn
    refine ih ?_ (hP.swap _ _ _ ?_ ?_ (Nat.ne_of_gt hlt) (hP.compare _ _ _ hn hp h))
    · rwa [size_swapAt, size_compareAt]
    · rwa [size_compareAt]
    · rwa [size_compareAt]
  | case3 node s hne outranks _ =>
    have hlt := parent_lt (Nat.pos_of_ne_zero hne)
    exact hP.compare _ _ _ hn (Nat.lt_trans hlt hn) h

theorem preferredChild (hP : Kept r P) {len node : Nat} {s : Storage α ε} (hlen : len = s.size)
    (h : P s) : P (preferredChild r len node s).2 := by
  subst hlen
  rw [Heap.preferredChild]
  dsimp only
  split
  · rename_i hright
    exact hP.compare _ _ _ hright (Nat.lt_of_succ_lt hright) h
  · exact h

theorem descend (hP : Kept r P) {len node : Nat} {s : Storage α ε} (hlen : len = s.size)
    (h : P s) : P (descend r len node s).2 := by
  fun_induction Heap.descend r len node s with
  | case1 node s hleft best outranks _ ih =>
    have hlt : node < best.1 := lt_preferredChild ..
    have hbest : best.1 < best.2.size := preferredChild_lt_size r hlen hleft
    have hnode := Nat.lt_trans hlt hbest
    have hkept := hP.compare _ _ _ hbest hnode (hP.preferredChild hlen h)
    refine ih ?_ (hP.swap _ _ _ ?_ ?_ (Nat.ne_of_lt hlt) hkept)
    · rw [size_swapAt, size_compareAt, size_preferredChild, hlen]
    · rwa [size_compareAt]
    · rwa [size_compareAt]
  | case2 node s hleft best outranks _ =>
    have hlt : node < best.1 := lt_preferredChild ..
    have hbest : best.1 < best.2.size := preferredChild_lt_size r hlen hleft
    exact hP.compare _ _ _ hbest (Nat.lt_trans hlt hbest) (hP.preferredChild hlen h)
  | case3 => exact h

theorem siftDown (hP : Kept r P) {start : Nat} {s : Storage α ε} (h : P s) :
    P (siftDown r start s).2 :=
  hP.descend rfl h

theorem fix (hP : Kept r P) {index : Nat} {s : Storage α ε} (h : P s) : P (fix r index s) := by
  rw [Heap.fix]
  split
  · rename_i hindex
    dsimp only
    split
    · exact hP.siftDown h
    · refine hP.siftUp ?_ (hP.siftDown h)
      rw [Storage.size, size_siftDown]
      exact hindex
  · exact h

theorem heapify (hP : Kept r P) {s : Storage α ε} (h : P s) : P (heapify r s) := by
  have hfrom : ∀ node s, P s → P (heapifyFrom r node s) := by
    intro node
    induction node with
    | zero => exact fun s h => h
    | succ node ih => exact fun s h => ih _ (hP.siftDown h)
  exact hfrom _ s h

theorem isOrdered (hP : Kept r P) {s : Storage α ε} (h : P s) : P (isOrdered r s).2 := by
  have hfrom : ∀ len node s, len ≤ s.size → P s → P (isOrderedFrom r len node s).2 := by
    intro len node s hlen h
    fun_induction isOrderedFrom r len node s with
    | case1 node s hnode outranks _ =>
      have hn : node < s.size := by omega
      exact hP.compare _ _ _ hn (Nat.lt_of_le_of_lt (parent_le node) hn) h
    | case2 node s hnode outranks _ ih =>
      have hn : node < s.size := by omega
      refine ih (by rwa [size_compareAt]) (hP.compare _ _ _ hn ?_ h)
      exact Nat.lt_of_le_of_lt (parent_le node) hn
    | case3 => exact h
  exact hfrom _ _ s (Nat.le_refl _) h

/-- What survives dropping the last slot, too, survives removing. -/
theorem remove (hP : Kept r P) (hdrop : ∀ s, 0 < s.size → P s → P (s.dropLast r).2) {index : Nat}
    {s : Storage α ε} (h : P s) : P (remove r index s).2 := by
  by_cases hindex : index < s.size
  · rw [remove_snd r hindex, depart]
    refine hP.fix (hdrop _ ?_ ?_)
    · split
      · exact Nat.zero_lt_of_lt hindex
      · rw [size_swapAt]
        exact Nat.zero_lt_of_lt hindex
    · split
      · exact h
      · rename_i hlast
        exact hP.swap _ _ _ hindex (by omega) hlast h
  · rw [remove_of_size_le r (Nat.not_lt.1 hindex)]
    exact h

/-- What is true after the append is true after the push, whether it faults or not. -/
theorem push (hP : Kept r P) {x : α} {s : Storage α ε} (h : P (s.append r x)) :
    P (push r x s).2 := by
  have hlast : (s.append r x).size - 1 < (s.append r x).size := by
    rw [Storage.size, Storage.items_append, Array.size_push]
    exact Nat.lt_succ_self _
  have hkept := hP.compare _ _ _ hlast hlast h
  rw [Heap.push]
  split
  · exact hkept
  · refine hP.siftUp ?_ hkept
    rwa [size_compareAt]

end Kept

end Containers.Heap
