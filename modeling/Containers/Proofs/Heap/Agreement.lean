import Containers.Heap.Contents
import Containers.Proofs.Heap.Accesses
import Containers.Proofs.Heap.Reachable

/-!
# Priorities that agree

A heap puts no question to its priority but about elements that are in the array at that moment, and
none of its operations brings in other elements than those it is given.  So two priorities that agree on
a set of elements are not told apart by a heap that stays within the set: every call leaves the same
array, the same answer and the same log (`carryOut_congr`).

This is how a priority is treated that is an order on the elements of a heap only.
-/

set_option autoImplicit false

namespace Containers.Heap

open Storage (precedes)

variable {α ε : Type} {less less' : Priority α} {P : α → Prop} {probe : Probe α ε}
  {s : Storage α ε} {items items' : Array α}

/-- The two priorities answer alike about elements in `P`. -/
def AgreeOn (P : α → Prop) (less less' : Priority α) : Prop :=
  ∀ a b, P a → P b → less a b = less' a b

/-- All elements of an array are in `P`. -/
def Within (P : α → Prop) (items : Array α) : Prop := ∀ x ∈ items, P x

theorem Within.of_perm (h : Within P items) (hperm : items'.Perm items) : Within P items' :=
  fun x hx => h x (hperm.mem_iff.1 hx)

theorem Within.pop (h : Within P items) : Within P items.pop := by
  intro x hx
  rw [← Array.mem_toList_iff, Array.toList_pop] at hx
  exact h x (Array.mem_toList_iff.1 (List.dropLast_subset _ hx))

theorem Within.push (h : Within P items) {x : α} (hx : P x) : Within P (items.push x) := by
  intro y hy
  rcases Array.mem_push.1 hy with hy | rfl
  · exact h y hy
  · exact hx

theorem Within.setIfInBounds (h : Within P items) (i : Nat) {x : α} (hx : P x) :
    Within P (items.setIfInBounds i x) := by
  intro y hy
  rcases Array.mem_or_eq_of_mem_setIfInBounds hy with hy | rfl
  · exact h y hy
  · exact hx

/-! ## Comparing slots -/

theorem precedes_congr (h : AgreeOn P less less') (hs : Within P items) (i j : Nat) :
    precedes less items i j = precedes less' items i j := by
  rw [precedes, precedes]
  split
  · rename_i hi hj
    exact h _ _ (hs _ (Array.mem_of_getElem? hi)) (hs _ (Array.mem_of_getElem? hj))
  · rfl

theorem Ordered.congr (h : AgreeOn P less less') (hs : Within P items) (hitems : Ordered less items) :
    Ordered less' items := by
  intro i a b hi ha hb
  rw [← h a b (hs a (Array.mem_of_getElem? ha)) (hs b (Array.mem_of_getElem? hb))]
  exact hitems i a b hi ha hb

theorem compareAt_congr (h : AgreeOn P less less') (hs : Within P s.items) (i j : Nat) :
    s.compareAt ⟨less, probe⟩ i j = s.compareAt ⟨less', probe⟩ i j := by
  rw [Storage.compareAt, Storage.compareAt, precedes_congr h hs]

/-! ## The sifts -/

theorem siftUp_congr (h : AgreeOn P less less') (node : Nat) (hs : Within P s.items) :
    siftUp ⟨less, probe⟩ node s = siftUp ⟨less', probe⟩ node s := by
  induction node using Nat.strongRecOn generalizing s with
  | _ node ih =>
    rw [siftUp, siftUp]
    by_cases hnode : node = 0
    · rw [if_pos hnode, if_pos hnode]
    · rw [if_neg hnode, if_neg hnode, compareAt_congr h hs]
      dsimp only
      split
      · refine ih (parent node) (parent_lt (Nat.pos_of_ne_zero hnode)) ?_
        rw [Storage.items_swapAt, Storage.items_compareAt]
        exact hs.of_perm (swapIfInBounds_perm ..)
      · rfl

theorem preferredChild_congr (h : AgreeOn P less less') (len node : Nat) (hs : Within P s.items) :
    preferredChild ⟨less, probe⟩ len node s = preferredChild ⟨less', probe⟩ len node s := by
  rw [preferredChild, preferredChild, compareAt_congr h hs]

theorem descend_congr (h : AgreeOn P less less') (len node : Nat) (hs : Within P s.items) :
    descend ⟨less, probe⟩ len node s = descend ⟨less', probe⟩ len node s := by
  induction hm : len - node using Nat.strongRecOn generalizing node s with
  | _ m ih =>
    rw [descend, descend]
    by_cases hleft : leftChild node < len
    · have hbest : Within P (preferredChild ⟨less', probe⟩ len node s).2.items := by
        rwa [items_preferredChild]
      rw [if_pos hleft, if_pos hleft, preferredChild_congr h len node hs]
      dsimp only
      rw [compareAt_congr h hbest]
      split
      · have hlt := lt_preferredChild ⟨less', probe⟩ len node s
        have hnode := lt_leftChild node
        refine ih _ ?_ _ ?_ rfl
        · omega
        · rw [Storage.items_swapAt, Storage.items_compareAt]
          exact hbest.of_perm (swapIfInBounds_perm ..)
      · rfl
    · rw [if_neg hleft, if_neg hleft]

theorem siftDown_congr (h : AgreeOn P less less') (start : Nat) (hs : Within P s.items) :
    siftDown ⟨less, probe⟩ start s = siftDown ⟨less', probe⟩ start s := by
  rw [siftDown, siftDown, descend_congr h s.size start hs]

/-! ## The operations -/

theorem fix_congr (h : AgreeOn P less less') (index : Nat) (hs : Within P s.items) :
    fix ⟨less, probe⟩ index s = fix ⟨less', probe⟩ index s := by
  rw [fix, fix, siftDown_congr h index hs]
  dsimp only
  rw [siftUp_congr h index (hs.of_perm (siftDown_perm ..))]

theorem within_push (hs : Within P s.items) {x : α} (hx : P x) :
    Within P (push ⟨less, probe⟩ x s).2.items :=
  (hs.push hx).of_perm (push_perm ..)

theorem push_congr (h : AgreeOn P less less') {x : α} (hx : P x) (hs : Within P s.items) :
    push ⟨less, probe⟩ x s = push ⟨less', probe⟩ x s := by
  have happend : s.append ⟨less, probe⟩ x = s.append ⟨less', probe⟩ x := rfl
  have hpushed : Within P (s.append ⟨less', probe⟩ x).items := by
    rw [Storage.items_append]
    exact hs.push hx
  rw [push, push, happend, compareAt_congr h hpushed, siftUp_congr h]
  rwa [Storage.items_compareAt]

theorem pushAll_congr (h : AgreeOn P less less') {xs : List α} (hxs : ∀ x ∈ xs, P x)
    (hs : Within P s.items) : pushAll ⟨less, probe⟩ xs s = pushAll ⟨less', probe⟩ xs s := by
  induction xs generalizing s with
  | nil => rfl
  | cons x xs ih =>
    obtain ⟨hx, hxs⟩ := List.forall_mem_cons.1 hxs
    have hpushed : Within P (push ⟨less', probe⟩ x s).2.items := within_push hs hx
    rw [pushAll, pushAll, push_congr h hx hs]
    split
    · rename_i heq
      rw [heq] at hpushed
      exact ih hxs hpushed
    · rfl

theorem remove_congr (h : AgreeOn P less less') (index : Nat) (hs : Within P s.items) :
    remove ⟨less, probe⟩ index s = remove ⟨less', probe⟩ index s := by
  by_cases hindex : index < s.size
  · refine Prod.ext (by rw [remove_fst, remove_fst]) ?_
    rw [remove_snd _ hindex, remove_snd _ hindex]
    have hdepart : depart ⟨less, probe⟩ index s = depart ⟨less', probe⟩ index s := rfl
    rw [hdepart]
    refine fix_congr h index ?_
    rw [items_depart]
    exact (hs.of_perm (swapIfInBounds_perm ..)).pop
  · rw [remove_of_size_le _ (Nat.not_lt.1 hindex), remove_of_size_le _ (Nat.not_lt.1 hindex)]

/-- The elements that a call brings along. -/
def brought : IndexedCall α → List α
  | .plain (.push x) => [x]
  | .plain (.extend xs) => xs
  | .updateAt _ x => [x]
  | _ => []

/-- **A call asks the priority about the elements of the heap and those it brings along**, and about no
others. -/
theorem carryOut_congr (h : AgreeOn P less less') (c : IndexedCall α) (hc : ∀ x ∈ brought c, P x)
    (hs : Within P s.items) : carryOut ⟨less, probe⟩ c s = carryOut ⟨less', probe⟩ c s := by
  cases c with
  | plain c =>
    cases c with
    | push x =>
      rw [carryOut, carryOut, push_congr h (hc x (List.mem_singleton_self x)) hs]
    | extend xs =>
      have hxs : ∀ x ∈ xs, P x := hc
      rw [carryOut, carryOut, pushAll_congr h hxs hs]
    | pop => rw [carryOut, carryOut, pop_eq_remove, pop_eq_remove, remove_congr h 0 hs]
    | _ => rfl
  | fix index => rw [carryOut, carryOut, fix_congr h index hs]
  | removeAt index => rw [carryOut, carryOut, remove_congr h index hs]
  | updateAt index x =>
    have hx := hc x (List.mem_singleton_self x)
    rw [carryOut, carryOut, fix_congr h index (hs.setIfInBounds index hx)]

end Containers.Heap
