import Containers.Proofs.Heap.Accesses

/-!
# Slots that exist and numbers that are words

The model lets a slot be any number, and an access to a slot that does not exist does no harm.  Neither
freedom is ever used.  Whatever the priority answers:

* Every access is one that a storage may insist on (`Admits`): the slots of a comparison and of an exchange
  exist at that moment, those of an exchange are two, and there is a slot to drop when one is dropped.  This
  is read off the log of all accesses, from which the number of slots at each moment can be told.
* No number that has to be reckoned on the way is too large or too small for a word, if there are no more than
  `2 ^ 63` elements.  To say so the operations are written down a second time, with the sums and differences
  reckoned in words, and with no result if one of them cannot be (`siftUp?`, `descend?` and what is built of
  them).  They turn out to have a result, and to be the operations themselves.

A number that is reckoned in words carries along on which side of the present slot it is, and by this the loops of
the second version are seen to end.
-/

set_option autoImplicit false

namespace Containers.Heap

variable {α ε : Type} {less : Priority α} {n m k : Nat} {as bs : List (Access α)}

/-! ## Accesses that a storage may insist on -/

/-- Storage of `n` slots lets these accesses be made one after another, and has `m` slots then. -/
inductive Admits : Nat → List (Access α) → Nat → Prop
  | done (n : Nat) : Admits n [] n
  | compare {n m i j : Nat} {as : List (Access α)} (answer : Bool) (hi : i < n) (hj : j < n)
      (rest : Admits n as m) : Admits n (.compare i j answer :: as) m
  | swap {n m i j : Nat} {as : List (Access α)} (hi : i < n) (hj : j < n) (hij : i ≠ j)
      (rest : Admits n as m) : Admits n (.swap i j :: as) m
  | append {n m : Nat} {as : List (Access α)} (x : α) (rest : Admits (n + 1) as m) :
      Admits n (.append x :: as) m
  | drop {n m : Nat} {as : List (Access α)} (rest : Admits n as m) : Admits (n + 1) (.drop :: as) m

theorem Admits.trans (h : Admits n as m) (h' : Admits m bs k) : Admits n (as ++ bs) k := by
  induction h with
  | done n => exact h'
  | compare answer hi hj _ ih => exact .compare answer hi hj (ih h')
  | swap hi hj hij _ ih => exact .swap hi hj hij (ih h')
  | append x _ ih => exact .append x (ih h')
  | drop _ ih => exact .drop (ih h')

/-- The accesses that lead from `s` to `t` are ones that the storage admits. -/
def Orderly (s t : Storage α (Access α)) : Prop :=
  ∃ made, t.log.toList = s.log.toList ++ made ∧ Admits s.size made t.size

theorem Orderly.refl (s : Storage α (Access α)) : Orderly s s := ⟨[], by simp, .done _⟩

/-- One more access. -/
theorem Orderly.access {s t u : Storage α (Access α)} (h : Orderly s t) {a : Access α}
    (hlog : u.log = t.log.push a) (ha : Admits t.size [a] u.size) : Orderly s u := by
  obtain ⟨made, hmade, hadmits⟩ := h
  refine ⟨made ++ [a], ?_, hadmits.trans ha⟩
  rw [hlog, Array.toList_push, hmade, List.append_assoc]

theorem kept_orderly (s : Storage α (Access α)) : Kept (recording less) (Orderly s) where
  compare i j t hi hj h := by
    refine h.access rfl ?_
    rw [size_compareAt]
    exact .compare _ hi hj (.done _)
  swap i j t hi hj hij h := by
    refine h.access rfl ?_
    rw [size_swapAt]
    exact .swap hi hj hij (.done _)

theorem Orderly.append {s t : Storage α (Access α)} (h : Orderly s t) (x : α) :
    Orderly s (t.append (recording less) x) := by
  refine h.access rfl ?_
  rw [Storage.size, Storage.size, Storage.items_append, Array.size_push]
  exact .append x (.done _)

theorem Orderly.dropLast {s t : Storage α (Access α)} (h : Orderly s t) (ht : 0 < t.size) :
    Orderly s (t.dropLast (recording less)).2 := by
  refine h.access rfl ?_
  rw [Storage.size, Storage.size, Storage.items_dropLast, Array.size_pop]
  obtain ⟨n, hn⟩ := Nat.exists_eq_succ_of_ne_zero (Nat.ne_of_gt ht)
  rw [Storage.size] at hn
  rw [hn]
  exact .drop (.done n)

theorem orderly_remove (less : Priority α) (index : Nat) (s : Storage α (Access α)) :
    Orderly s (remove (recording less) index s).2 :=
  (kept_orderly s).remove (fun _ ht h => h.dropLast ht) (.refl s)

/-- All accesses that the operations make to this storage are ones that it admits. -/
structure Admissible (less : Priority α) (s : Storage α (Access α)) : Prop where
  heapify : Orderly s (heapify (recording less) s)
  push : ∀ x, Orderly s (push (recording less) x s).2
  pop : Orderly s (pop (recording less) s).2
  remove : ∀ index, Orderly s (remove (recording less) index s).2
  fix : ∀ index, Orderly s (fix (recording less) index s)
  isOrdered : Orderly s (isOrdered (recording less) s).2

theorem admissible (less : Priority α) (s : Storage α (Access α)) : Admissible less s where
  heapify := (kept_orderly s).heapify (.refl s)
  push x := (kept_orderly s).push ((Orderly.refl s).append x)
  pop := by
    rw [pop_eq_remove]
    exact orderly_remove less 0 s
  remove index := orderly_remove less index s
  fix _ := (kept_orderly s).fix (.refl s)
  isOrdered := (kept_orderly s).isOrdered (.refl s)

/-! ## Reckoning in words -/

/-- The number before `i`, if there is one. -/
def previous? (i : Nat) : Option Nat := if 0 < i then some (i - 1) else none

/-- The number after `i`, if it is a word. -/
def next? (i : Nat) : Option {j : Nat // i < j} :=
  if i + 1 < slotLimit then some ⟨i + 1, Nat.lt_succ_self i⟩ else none

/-- Twice `i` and one, if both the product and the sum are words. -/
def leftChild? (i : Nat) : Option {j : Nat // i < j} :=
  if 2 * i < slotLimit ∧ 2 * i + 1 < slotLimit then some ⟨2 * i + 1, lt_leftChild i⟩ else none

/-- Half the number before `i`, if there is one. -/
def parent? (i : Nat) : Option {j : Nat // j < i} :=
  if hi : 0 < i then some ⟨(i - 1) / 2, parent_lt hi⟩ else none

theorem previous?_eq {i : Nat} (hi : 0 < i) : previous? i = some (i - 1) := if_pos hi

theorem parent?_eq {i : Nat} (hi : 0 < i) : parent? i = some ⟨parent i, parent_lt hi⟩ := dif_pos hi

/-- The most elements for which the children of every slot have numbers. -/
def sizeLimit : Nat := 1 <<< 63

theorem leftChild?_eq {i : Nat} (hi : i < sizeLimit) :
    leftChild? i = some ⟨leftChild i, lt_leftChild i⟩ := by
  unfold sizeLimit at hi
  refine if_pos ?_
  unfold slotLimit
  omega

theorem next?_eq {i : Nat} (hi : i < sizeLimit) : next? i = some ⟨i + 1, Nat.lt_succ_self i⟩ := by
  unfold sizeLimit at hi
  refine if_pos ?_
  unfold slotLimit
  omega

/-! ## The operations in words -/

/-- Moves the element in slot `node` towards the root. -/
def siftUp? (r : Rules α ε) (node : Nat) (s : Storage α ε) : Option (Storage α ε) :=
  if node = 0 then some s
  else do
    let above ← parent? node
    let outranks := s.compareAt r node above
    if outranks.1 then siftUp? r above (outranks.2.swapAt r node above) else some outranks.2
termination_by node
decreasing_by exact above.2

/-- The child that moves up if one does, given the first of the two. -/
def preferredChild? (r : Rules α ε) (len left : Nat) (s : Storage α ε) :
    Option ({j : Nat // left ≤ j} × Storage α ε) := do
  let right ← next? left
  if right < len then
    let rightFirst := s.compareAt r right left
    some (if rightFirst.1 then ⟨right, Nat.le_of_lt right.2⟩ else ⟨left, Nat.le_refl left⟩, rightFirst.2)
  else some (⟨left, Nat.le_refl left⟩, s)

/-- Moves the element in slot `node` towards the leaves. -/
def descend? (r : Rules α ε) (len node : Nat) (s : Storage α ε) : Option (Nat × Storage α ε) := do
  let left ← leftChild? node
  if left < len then
    let best ← preferredChild? r len left s
    let outranks := best.2.compareAt r best.1 node
    if outranks.1 then descend? r len best.1 (outranks.2.swapAt r node best.1)
    else some (node, outranks.2)
  else some (node, s)
termination_by len - node
decreasing_by
  have hbest := Nat.lt_of_lt_of_le left.2 best.1.2
  omega

/-- Moves the element in slot `start` towards the leaves and answers whether it has moved. -/
def siftDown? (r : Rules α ε) (start : Nat) (s : Storage α ε) : Option (Bool × Storage α ε) := do
  let stop ← descend? r s.size start s
  some (start < stop.1, stop.2)

/-- Sifts down slots `node - 1`, `node - 2`, …, `0`. -/
def heapifyFrom? (r : Rules α ε) : Nat → Storage α ε → Option (Storage α ε)
  | 0, s => some s
  | node + 1, s => do
    let moved ← siftDown? r node s
    heapifyFrom? r node moved.2

/-- Puts arbitrary contents in order. -/
def heapify? (r : Rules α ε) (s : Storage α ε) : Option (Storage α ε) := heapifyFrom? r (s.size / 2) s

/-- Adds an element. -/
def push? (r : Rules α ε) (x : α) (s : Storage α ε) : Option (Except Fault Unit × Storage α ε) := do
  let s := s.append r x
  let last ← previous? s.size
  let reflexive := s.compareAt r last last
  if reflexive.1 then some (.error .reflexivePriority, reflexive.2)
  else do
    let s ← siftUp? r last reflexive.2
    some (.ok (), s)

/-- Removes the element at the root. -/
def pop? (r : Rules α ε) (s : Storage α ε) : Option (Option α × Storage α ε) :=
  let len := s.size
  if len = 0 then some (none, s)
  else do
    let s ← (if 1 < len then (previous? len).map fun last => s.swapAt r 0 last else some s :
      Option (Storage α ε))
    let departed := s.dropLast r
    let s := departed.2
    if s.size = 0 then some (departed.1, s)
    else do
      let moved ← siftDown? r 0 s
      some (departed.1, moved.2)

/-- Restores the order around a slot whose element has changed. -/
def fix? (r : Rules α ε) (index : Nat) (s : Storage α ε) : Option (Storage α ε) :=
  if index < s.size then do
    let moved ← siftDown? r index s
    if moved.1 then some moved.2 else siftUp? r index moved.2
  else some s

/-- Removes the element in a slot. -/
def remove? (r : Rules α ε) (index : Nat) (s : Storage α ε) : Option (Option α × Storage α ε) :=
  if index < s.size then do
    let last ← previous? s.size
    let s := if index = last then s else s.swapAt r index last
    let departed := s.dropLast r
    let s ← fix? r index departed.2
    some (departed.1, s)
  else some (none, s)

/-- Whether no slot from `node` on precedes the slot above it. -/
def isOrderedFrom? (r : Rules α ε) (len node : Nat) (s : Storage α ε) : Option (Bool × Storage α ε) :=
  if node < len then do
    let above ← parent? node
    let outranks := s.compareAt r node above
    if outranks.1 then some (false, outranks.2)
    else do
      let further ← next? node
      isOrderedFrom? r len further outranks.2
  else some (true, s)
termination_by len - node
decreasing_by exact Nat.sub_lt_sub_left ‹node < len› further.2

/-- Whether no element precedes the one above it. -/
def isOrdered? (r : Rules α ε) (s : Storage α ε) : Option (Bool × Storage α ε) :=
  isOrderedFrom? r s.size 1 s

/-! ## They are the operations -/

theorem siftUp?_eq (r : Rules α ε) (node : Nat) (s : Storage α ε) :
    siftUp? r node s = some (siftUp r node s) := by
  fun_induction siftUp r node s with
  | case1 s => rw [siftUp?, if_pos rfl]
  | case2 node s hnode outranks hlt ih =>
    rw [siftUp?, if_neg hnode, parent?_eq (Nat.pos_of_ne_zero hnode)]
    exact (if_pos hlt).trans ih
  | case3 node s hnode outranks hlt =>
    rw [siftUp?, if_neg hnode, parent?_eq (Nat.pos_of_ne_zero hnode)]
    exact if_neg hlt

theorem leftChild_le_preferredChild (r : Rules α ε) (len node : Nat) (s : Storage α ε) :
    leftChild node ≤ (preferredChild r len node s).1 := by
  rcases preferredChild_eq_or r len node s with h | h <;> omega

theorem preferredChild?_eq (r : Rules α ε) {len node : Nat} (s : Storage α ε)
    (hleft : leftChild node < len) (hlen : len ≤ sizeLimit) :
    preferredChild? r len (leftChild node) s =
      some (⟨(preferredChild r len node s).1, leftChild_le_preferredChild r len node s⟩,
        (preferredChild r len node s).2) := by
  simp only [preferredChild?, next?_eq (Nat.lt_of_lt_of_le hleft hlen), preferredChild,
    Option.bind_eq_bind, Option.bind_some]
  split
  · split <;> rfl
  · rfl

theorem descend?_eq (r : Rules α ε) (len node : Nat) (s : Storage α ε) (hlen : len ≤ sizeLimit)
    (hnode : node < sizeLimit) : descend? r len node s = some (descend r len node s) := by
  fun_induction descend r len node s with
  | case1 node s hleft best outranks hlt ih =>
    have hbest : best.1 < sizeLimit := Nat.lt_of_lt_of_le (preferredChild_lt r s hleft) hlen
    rw [descend?, leftChild?_eq hnode]
    refine (if_pos hleft).trans ?_
    rw [preferredChild?_eq r s hleft hlen]
    exact (if_pos hlt).trans (ih hbest)
  | case2 node s hleft best outranks hlt =>
    rw [descend?, leftChild?_eq hnode]
    refine (if_pos hleft).trans ?_
    rw [preferredChild?_eq r s hleft hlen]
    exact if_neg hlt
  | case3 node s hleft =>
    rw [descend?, leftChild?_eq hnode]
    exact if_neg hleft

variable (r : Rules α ε) {s : Storage α ε}

theorem siftDown?_eq {start : Nat} (hs : s.size ≤ sizeLimit) (hstart : start < s.size) :
    siftDown? r start s = some (siftDown r start s) := by
  rw [siftDown?, descend?_eq r s.size start s hs (Nat.lt_of_lt_of_le hstart hs)]
  rfl

theorem heapify?_eq (hs : s.size ≤ sizeLimit) : heapify? r s = some (heapify r s) := by
  have hfrom : ∀ node (s : Storage α ε), s.size ≤ sizeLimit → node ≤ s.size →
      heapifyFrom? r node s = some (heapifyFrom r node s) := by
    intro node
    induction node with
    | zero => exact fun s _ _ => rfl
    | succ node ih =>
      intro s hs hnode
      have hsize : (siftDown r node s).2.size = s.size := size_siftDown r node s
      rw [heapifyFrom?, siftDown?_eq r hs hnode]
      exact ih _ (by rwa [hsize]) (by omega)
  exact hfrom _ s hs (Nat.div_le_self _ _)

theorem push?_eq (x : α) (s : Storage α ε) : push? r x s = some (push r x s) := by
  have hsize : 0 < (s.append r x).size := by simp [Storage.size]
  rw [push?, previous?_eq hsize, push]
  simp only [siftUp?_eq]
  exact (apply_ite some _ _ _).symm

theorem fix?_eq (index : Nat) (hs : s.size ≤ sizeLimit) : fix? r index s = some (fix r index s) := by
  rw [fix?, fix]
  split
  · rename_i hindex
    rw [siftDown?_eq r hs hindex]
    simp only [siftUp?_eq]
    exact (apply_ite some _ _ _).symm
  · rfl

theorem size_dropLast_le (s : Storage α ε) : (s.dropLast r).2.size ≤ s.size := by
  simp [Storage.size]

theorem remove?_eq (index : Nat) (hs : s.size ≤ sizeLimit) :
    remove? r index s = some (remove r index s) := by
  rw [remove?, remove]
  split
  · rename_i hindex
    rw [previous?_eq (Nat.zero_lt_of_lt hindex)]
    have hswapped : (if index = s.size - 1 then s else s.swapAt r index (s.size - 1)).size = s.size := by
      split
      · rfl
      · rw [size_swapAt]
    have hfix := fix?_eq r index (Nat.le_trans (size_dropLast_le r _) (hswapped ▸ hs))
    simp only [Option.bind_eq_bind, Option.bind_some, hfix]
  · rfl

theorem pop?_eq (hs : s.size ≤ sizeLimit) : pop? r s = some (pop r s) := by
  rw [pop?, pop]
  dsimp only
  split
  · rfl
  · rename_i hpos
    have hlast : (if 1 < s.size then (previous? s.size).map fun last => s.swapAt r 0 last else some s) =
        some (if 1 < s.size then s.swapAt r 0 (s.size - 1) else s) := by
      rw [previous?_eq (Nat.pos_of_ne_zero hpos)]
      exact (apply_ite some _ _ _).symm
    have hswapped : (if 1 < s.size then s.swapAt r 0 (s.size - 1) else s).size = s.size := by
      split
      · rw [size_swapAt]
      · rfl
    rw [hlast]
    generalize (if 1 < s.size then s.swapAt r 0 (s.size - 1) else s) = t at hswapped ⊢
    have ht : (t.dropLast r).2.size ≤ sizeLimit := Nat.le_trans (size_dropLast_le r t) (hswapped ▸ hs)
    dsimp only [Option.bind_eq_bind, Option.bind_some]
    split
    · rfl
    · rename_i hleft
      rw [siftDown?_eq r ht (Nat.pos_of_ne_zero hleft)]
      rfl

theorem isOrdered?_eq (hs : s.size ≤ sizeLimit) : isOrdered? r s = some (isOrdered r s) := by
  have hfrom : ∀ len node (s : Storage α ε), len ≤ sizeLimit → 0 < node →
      isOrderedFrom? r len node s = some (isOrderedFrom r len node s) := by
    intro len node s hlen hpos
    fun_induction isOrderedFrom r len node s with
    | case1 node s hnode outranks hlt =>
      rw [isOrderedFrom?, if_pos hnode, parent?_eq hpos]
      exact if_pos hlt
    | case2 node s hnode outranks hlt ih =>
      rw [isOrderedFrom?, if_pos hnode, parent?_eq hpos]
      refine (if_neg hlt).trans ?_
      rw [next?_eq (Nat.lt_of_lt_of_le hnode hlen)]
      exact ih (Nat.succ_pos node)
    | case3 node s hnode => rw [isOrderedFrom?, if_neg hnode]
  exact hfrom _ 1 s hs Nat.one_pos

/-- Reckoned in words, the operations on this storage have a result, and the one they have anyway. -/
structure InWords (r : Rules α ε) (s : Storage α ε) : Prop where
  heapify : heapify? r s = some (heapify r s)
  push : ∀ x, push? r x s = some (push r x s)
  pop : pop? r s = some (pop r s)
  remove : ∀ index, remove? r index s = some (remove r index s)
  fix : ∀ index, fix? r index s = some (fix r index s)
  isOrdered : isOrdered? r s = some (isOrdered r s)

theorem inWords_of_size_le (hs : s.size ≤ sizeLimit) : InWords r s where
  heapify := heapify?_eq r hs
  push x := push?_eq r x s
  pop := pop?_eq r hs
  remove index := remove?_eq r index hs
  fix index := fix?_eq r index hs
  isOrdered := isOrdered?_eq r hs

/-- **No operation leaves the bounds of its storage or those of words**, whatever the priority answers, if there
are no more than `2 ^ 63` elements: each access is one that the storage admits, and each number of a slot is
reckoned as if there were no largest word. -/
theorem within_bounds (less : Priority α) {s : Storage α (Access α)} (hs : s.size ≤ 1 <<< 63) :
    Admissible less s ∧ InWords (recording less) s :=
  ⟨admissible less s, inWords_of_size_le (recording less) hs⟩

/-- Everything precedes everything, even itself.  The element in slot `1` leaves, and the one that takes its
place sinks from there to the end. -/
theorem within_bounds_cyclic : ∃ (less : Priority Nat) (s : Storage Nat (Access Nat)),
    less = (fun _ _ => true) ∧ s = .ofArray #[3, 1, 4, 1, 5] ∧ s.size ≤ 1 <<< 63 ∧
    (remove (recording less) 1 s).2.log.toList =
      [.swap 1 4, .drop, .compare 3 1 true, .swap 1 3] ∧
    Orderly s (remove (recording less) 1 s).2 ∧
    (remove? (recording less) 1 s).map (fun left => left.2.items) = some #[3, 1, 4, 5] ∧
    isOrdered? (recording less) s = some (isOrdered (recording less) s) := by
  have hs : (Storage.ofArray #[3, 1, 4, 1, 5] : Storage Nat (Access Nat)).size ≤ 1 <<< 63 := by
    decide +kernel
  obtain ⟨hadmits, hwords⟩ := within_bounds (fun _ _ => true) hs
  refine ⟨_, _, rfl, rfl, hs, ?_, hadmits.remove 1, ?_, hwords.isOrdered⟩
  · decide +kernel
  · rw [hwords.remove]
    decide +kernel

end Containers.Heap
