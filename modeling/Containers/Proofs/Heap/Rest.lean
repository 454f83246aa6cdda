import Containers.Proofs.Heap.Effort
import Containers.Proofs.Heap.Faults

/-!
# Heaps at rest

An array that is in order already is left alone.  Putting it in order again and repairing any of its slots
only looks at it: slots are compared, every answer is negative, and nothing is exchanged (`Looks`).  So a
swap hook hears nothing, and whoever has noted in which slot an element is finds it there.

None of this takes an order.  `isOrdered` has asked the priority about every slot and the one above it, and
the sifts ask about the same pairs once more; what else they ask, which of two children is the preferred one,
makes no difference when neither of them may move.  It is only for what leads to such an array that the
priority has to be a strict weak order: for putting contents in order, and for the calls on a container.
-/

set_option autoImplicit false

namespace Containers

open Heap (SwapHook Rules Storage Access Probe)

namespace Heap

open Storage (precedes)

variable {α ε : Type} {r : Rules α ε} {less : Priority α} {s t u : Storage α ε} {items : Array α}

/-! ## Looking -/

/-- Between `s` and `t` slots were compared, and nothing else was done. -/
inductive Looks (r : Rules α ε) (s : Storage α ε) : Storage α ε → Prop
  | nothing : Looks r s s
  | compare {t : Storage α ε} (i j : Nat) (h : Looks r s t) : Looks r s (t.compareAt r i j).2

namespace Looks

theorem trans (h : Looks r s t) (h' : Looks r t u) : Looks r s u := by
  induction h' with
  | nothing => exact h
  | compare i j _ ih => exact ih.compare i j

/-- Looking at an array leaves it as it is. -/
theorem items_eq (h : Looks r s t) : t.items = s.items := by
  induction h with
  | nothing => rfl
  | compare i j _ ih => rw [Storage.items_compareAt, ih]

/-- A hook is not told of comparisons. -/
theorem eq_of_hook {hook : Option (SwapHook α ε)} (h : Looks ⟨less, Probe.ofHook hook⟩ s t) : t = s := by
  induction h with
  | nothing => rfl
  | compare i j _ ih => exact ih

/-- Where every access is written down, it is comparisons that were. -/
theorem isCompare {s t : Storage α (Access α)} (h : Looks (recording less) s t) (hlog : s.log = #[]) :
    ∀ a ∈ t.log, a.isCompare = true := by
  induction h with
  | nothing => simp [hlog]
  | compare i j _ ih =>
    intro a ha
    rcases Array.mem_push.1 ha with ha | rfl
    · exact ih a ha
    · rfl

end Looks

theorem looks_preferredChild (r : Rules α ε) (len node : Nat) (s : Storage α ε) :
    Looks r s (preferredChild r len node s).2 := by
  rw [preferredChild]
  dsimp only
  split
  · exact .compare _ _ .nothing
  · exact .nothing

/-! ## Sifts that move nothing -/

/-- What does not precede the element above it stays where it is. -/
theorem looks_siftUp {node : Nat} (h : precedes r.less s.items node (parent node) = false) :
    Looks r s (siftUp r node s) := by
  rw [siftUp]
  split
  · exact .nothing
  · dsimp only
    rw [Storage.compareAt_fst, h, if_neg Bool.false_ne_true]
    exact .compare _ _ .nothing

/-- What the preferred child does not precede stays where it is. -/
theorem descend_of_not_precedes {len node : Nat}
    (h : precedes r.less s.items (preferredChild r len node s).1 node = false) :
    (descend r len node s).1 = node ∧ Looks r s (descend r len node s).2 := by
  rw [descend]
  split
  · dsimp only
    rw [Storage.compareAt_fst, items_preferredChild, h, if_neg Bool.false_ne_true]
    exact ⟨rfl, (looks_preferredChild r len node s).compare _ _⟩
  · exact ⟨rfl, .nothing⟩

theorem siftDown_of_not_precedes {start : Nat}
    (h : precedes r.less s.items (preferredChild r s.size start s).1 start = false) :
    (siftDown r start s).1 = false ∧ Looks r s (siftDown r start s).2 := by
  obtain ⟨hstop, hlooks⟩ := descend_of_not_precedes h
  refine ⟨?_, hlooks⟩
  rw [siftDown, hstop]
  exact decide_eq_false (Nat.lt_irrefl start)

/-! ## Operations that move nothing -/

/-- In an ordered array nothing sinks, since the preferred child is a child. -/
theorem Ordered.looks_siftDown (h : Ordered r.less s.items) (start : Nat) :
    (siftDown r start s).1 = false ∧ Looks r s (siftDown r start s).2 :=
  siftDown_of_not_precedes (ordered_iff.1 h _ start (isChild_preferredChild ..))

theorem Ordered.looks_siftUp (h : Ordered r.less s.items) {node : Nat} (hnode : 0 < node) :
    Looks r s (siftUp r node s) :=
  Heap.looks_siftUp (ordered_iff.1 h node _ (isChild_parent hnode))

/-- A repair first looks down and then, as nothing has moved, up. -/
theorem Ordered.looks_fix (h : Ordered r.less s.items) (index : Nat) : Looks r s (fix r index s) := by
  obtain ⟨hstays, hdown⟩ := h.looks_siftDown index
  rw [fix]
  split
  · dsimp only
    rw [hstays, if_neg Bool.false_ne_true]
    rw [← hdown.items_eq] at h
    rcases Nat.eq_zero_or_pos index with rfl | hindex
    · rwa [siftUp, if_pos rfl]
    · exact hdown.trans (h.looks_siftUp hindex)
  · exact .nothing

theorem Ordered.looks_heapifyFrom (h : Ordered r.less s.items) (node : Nat) :
    Looks r s (heapifyFrom r node s) := by
  induction node generalizing s with
  | zero => exact .nothing
  | succ node ih =>
    have hdown := (h.looks_siftDown node).2
    rw [← hdown.items_eq] at h
    exact hdown.trans (ih h)

theorem Ordered.looks_heapify (h : Ordered r.less s.items) : Looks r s (heapify r s) :=
  h.looks_heapifyFrom _

/-! ## Being found in order -/

theorem isOrderedFrom_iff (r : Rules α ε) (len node : Nat) (s : Storage α ε) :
    (isOrderedFrom r len node s).1 = true ↔
      ∀ i, node ≤ i → i < len → precedes r.less s.items i (parent i) = false := by
  fun_induction isOrderedFrom r len node s with
  | case1 node s hnode outranks hlt =>
    refine iff_of_false Bool.false_ne_true fun h => ?_
    exact Bool.eq_false_iff.1 (h node (Nat.le_refl node) hnode) hlt
  | case2 node s hnode outranks hlt ih =>
    rw [ih, Storage.items_compareAt]
    refine ⟨fun h i hi => ?_, fun h i hi => h i (Nat.le_of_succ_le hi)⟩
    rcases Nat.eq_or_lt_of_le hi with rfl | hi
    · exact fun _ => Bool.eq_false_iff.2 hlt
    · exact h i hi
  | case3 node s hnode =>
    refine iff_of_true rfl fun i hi hlen => ?_
    exact absurd (Nat.lt_of_le_of_lt hi hlen) hnode

/-- An array is found in order if it is. -/
theorem isOrdered_iff : (isOrdered r s).1 = true ↔ Ordered r.less s.items := by
  rw [isOrdered, isOrderedFrom_iff, ordered_iff]
  constructor
  · rintro h i _ ⟨hi, rfl⟩
    exact not_precedes_of_lt fun hin _ => h i hi hin
  · exact fun h i hi _ => h i _ (isChild_parent hi)

/-- Neither putting these elements in order nor repairing one of their slots moves any of them. -/
structure AtRest (less : Priority α) (items : Array α) : Prop where
  /-- Put in order, they stay in their slots. -/
  heapify : (heapify (recording less) (.ofArray items)).items = items
  /-- On the way slots are compared, and that is all. -/
  heapify_compares : ∀ a ∈ (Heap.heapify (recording less) (.ofArray items)).log, a.isCompare = true
  /-- Repaired around a slot, be it one of theirs or not, they stay in their slots. -/
  fix : ∀ i, (fix (recording less) i (.ofArray items)).items = items
  /-- On the way slots are compared, and that is all. -/
  fix_compares : ∀ i, ∀ a ∈ (Heap.fix (recording less) i (.ofArray items)).log, a.isCompare = true
  /-- A swap hook hears nothing of either. -/
  unheard : ∀ {ε : Type} (hook : Option (SwapHook α ε)),
    Heap.heapify ⟨less, Probe.ofHook hook⟩ (.ofArray items) = .ofArray items ∧
      ∀ i, Heap.fix ⟨less, Probe.ofHook hook⟩ i (.ofArray items) = .ofArray items

theorem Ordered.atRest (h : Ordered less items) : AtRest less items := by
  have hheapify {ε : Type} (probe : Probe α ε) :
      Looks ⟨less, probe⟩ (.ofArray items) (Heap.heapify ⟨less, probe⟩ (.ofArray items)) :=
    Ordered.looks_heapify (s := .ofArray items) h
  have hfix {ε : Type} (probe : Probe α ε) (i : Nat) :
      Looks ⟨less, probe⟩ (.ofArray items) (Heap.fix ⟨less, probe⟩ i (.ofArray items)) :=
    Ordered.looks_fix (s := .ofArray items) h i
  constructor
  case heapify => exact (hheapify Probe.accesses).items_eq
  case heapify_compares => exact (hheapify Probe.accesses).isCompare rfl
  case fix => exact fun i => (hfix Probe.accesses i).items_eq
  case fix_compares => exact fun i => (hfix Probe.accesses i).isCompare rfl
  case unheard => exact fun hook => ⟨(hheapify _).eq_of_hook, fun i => (hfix _ i).eq_of_hook⟩

end Heap

/-! ## Containers -/

namespace AnyHeap

variable {α ε : Type} {less : Priority α} {kind : HeapKind} {h : AnyHeap α ε}

/-- A repair of a container in order changes nothing and tells nobody. -/
theorem eq_done_of_fix {i : Nat} {o : Outcome (AnyHeap α ε) ε (Reply α)}
    (hordered : Heap.Ordered h.view.less h.view.items) (ho : h.runIndexed? (.fix i) = some o) :
    o = .done h .done := by
  have hfix : Heap.fix h.view.rules i (.ofArray h.view.items) = .ofArray h.view.items :=
    (hordered.atRest.unheard h.view.onSwap).2 i
  have hrun : h.view.run (.fix i) = .done h.view .done := by
    rw [ArrayHeap.run, Heap.carryOut, hfix]
    rfl
  rw [eq_of_runIndexed ho, hrun, Outcome.done, Outcome.mapState, holding_view]
  rfl

theorem toArray_ofArray_of_ordered (kind : HeapKind) {items : Array α}
    (hordered : Heap.Ordered less items) : (ofArray kind items less : AnyHeap α ε).toArray = items := by
  rw [toArray_ofArray, (hordered.atRest.unheard none).1]
  rfl

/-- **What is in order stays as it is.**  An array that is found in order is not touched when it is put in order
or repaired, whatever the priority answers, and neither is a container that holds such an array.  Under a
strict weak order this goes for all arrays that were put in order once and for all reachable containers, so
to build a container, of any kind, of the elements of another is to copy them slot by slot. -/
theorem atRest_of_isOrdered (less : Priority α) :
    (∀ items : Array α, (Heap.isOrdered (Heap.recording less) (.ofArray items)).1 = true →
      Heap.AtRest less items) ∧
    (∀ h : AnyHeap α ε, (Heap.isOrdered h.view.rules (.ofArray h.toArray)).1 = true →
      ∀ i o, h.runIndexed? (.fix i) = some o → o = .done h .done) ∧
    (less.IsStrictWeakOrder →
      (∀ items : Array α,
        Heap.AtRest less (Heap.heapify (Heap.recording less) (.ofArray items)).items) ∧
      ∀ (kind kind' : HeapKind) (h : AnyHeap α ε), h.Reachable kind less →
        Heap.AtRest less h.toArray ∧
          (ofArray kind' h.toArray less : AnyHeap α ε).toArray = h.toArray) := by
  refine ⟨fun items hitems => ?_, fun h hh i o ho => ?_, fun hl => ⟨fun items => ?_, ?_⟩⟩
  · exact Heap.Ordered.atRest (Heap.isOrdered_iff.1 hitems)
  · rw [h.toArray_eq_view] at hh
    exact eq_done_of_fix (Heap.isOrdered_iff.1 hh) ho
  · exact (Heap.heapify_ordered (r := Heap.recording less) hl _).atRest
  · intro kind kind' h hr
    have hordered := hr.ordered_view hl
    rw [← h.toArray_eq_view] at hordered
    exact ⟨hordered.atRest, toArray_ofArray_of_ordered kind' hordered⟩

/-- Where each number precedes the next one in a circle of three, slot `2` is preferred to slot `1` and does not
move; and a queue with elements of equal rank, of which its hook hears nothing when it is repaired, is copied. -/
theorem atRest_of_isOrdered_circle :
    (∃ less : Priority Nat, less = (fun a b => (a + 1) % 3 == b % 3) ∧
      (Heap.isOrdered (Heap.recording less) (.ofArray #[0, 1, 0])).1 = true ∧
      (Heap.heapify (Heap.recording less) (.ofArray #[0, 1, 0])).log.toList =
        [.compare 2 1 true, .compare 2 0 false] ∧
      Heap.AtRest less #[0, 1, 0]) ∧
    ∃ q : PriorityQueue (Nat × Nat) (Nat × Nat),
      (queue q).Reachable (.queue .slots) (fun a b => minFirst a.1 b.1) ∧
      q.toArray = #[(1, 1), (3, 0), (1, 2), (4, 3)] ∧
      (queue q).runIndexed? (.fix 0) = some (.done (queue q) .done) ∧
      (ofArray (.plain .exclusive) q.toArray (fun a b => minFirst a.1 b.1) :
        AnyHeap (Nat × Nat) (Nat × Nat)).toArray = q.toArray := by
  have hl : Priority.IsStrictWeakOrder fun a b : Nat × Nat => minFirst a.1 b.1 :=
    Priority.isStrictWeakOrder_minFirst.comap Prod.fst
  have hcircle : (Heap.isOrdered (Heap.recording fun a b : Nat => (a + 1) % 3 == b % 3)
      (.ofArray #[0, 1, 0])).1 = true := by decide +kernel
  have hr : Reachable (.queue .slots) (fun a b : Nat × Nat => minFirst a.1 b.1)
      (.ofArray (.queue .slots) #[(3, 0), (1, 1), (1, 2)] _ : AnyHeap _ (Nat × Nat)) := .ofArray _
  have hr := (hr.withOnSwap (fun i j _ => (i, j)) rfl).run (.push (4, 3))
  obtain ⟨-, hfix, hcopy⟩ := atRest_of_isOrdered (ε := Nat × Nat) fun a b : Nat × Nat => minFirst a.1 b.1
  refine ⟨⟨_, rfl, hcircle, by decide +kernel,
    (atRest_of_isOrdered (ε := Nat × Nat) _).1 _ hcircle⟩, _, hr, by decide +kernel, ?_, ?_⟩
  · exact congrArg some (hfix _ (by decide +kernel) 0 _ rfl)
  · exact ((hcopy hl).2 _ (.plain .exclusive) _ hr).2

end AnyHeap

end Containers
