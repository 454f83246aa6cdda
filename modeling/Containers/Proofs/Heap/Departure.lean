import Containers.Proofs.Heap.Reachable
import Containers.Proofs.Heap.Restore
import Mathlib.Data.Multiset.Basic

/-!
# The order of departure

Under a strict weak order every reachable heap container is ordered, whichever kind it is and whatever
was asked of it before.  So the element at its root is one that no other precedes, and this is the
element that `peek` shows and `pop` takes.  Taken one after another, the elements leave sorted.

Elements may be of equal rank without being equal, so nothing here says which of them leaves first;
the contents are compared as multisets.
-/

set_option autoImplicit false

namespace Containers

open Heap (Rules Storage)

variable {α ε : Type} {kind : HeapKind} {less : Priority α} {h : AnyHeap α ε}

/-! ## Every call keeps the order -/

namespace Heap

theorem ordered_empty : Ordered less #[] := fun i a b _ ha _ => by
  rw [Array.getElem?_eq_none (Nat.zero_le i)] at ha
  cases ha

theorem carryOut_ordered {r : Rules α ε} (hl : r.less.IsStrictWeakOrder) (c : IndexedCall α)
    {s : Storage α ε} (hs : Ordered r.less s.items) :
    Ordered r.less (carryOut r c s).2.items := by
  cases c with
  | plain c =>
    cases c with
    | push x => exact (push_ordered hl x hs).2
    | extend xs => exact (pushAll_ordered hl xs hs).2
    | pop => exact pop_ordered hl hs
    | clear => exact ordered_empty
    | _ => exact hs
  | fix index => exact fix_ordered hl (hs.disturbed hl fun _ _ _ _ hij => hij)
  | removeAt index => exact remove_ordered hl index hs
  | updateAt index x =>
    rw [carryOut]
    split
    · exact set_fix_ordered hl index x hs
    · exact hs

end Heap

theorem AnyHeap.Reachable.ordered_view (hl : less.IsStrictWeakOrder)
    (hr : h.Reachable kind less) : Heap.Ordered less h.view.items := by
  refine (hr.invariant Heap.ordered_empty ?_ ?_).2
  · rintro r items rfl
    exact Heap.heapify_ordered hl _
  · rintro r c items rfl hitems
    exact Heap.carryOut_ordered hl c hitems

/-- **No element of a reachable heap precedes the one above it**, for every kind of heap container and
after every history of calls. -/
theorem AnyHeap.not_less_parent (hl : less.IsStrictWeakOrder) (hr : h.Reachable kind less) (i : Nat)
    (hpos : 0 < i) (hi : i < h.toArray.size) :
    less h.toArray[i] h.toArray[(i - 1) / 2] = false := by
  have hparent : (i - 1) / 2 < h.toArray.size := by omega
  have hordered := hr.ordered_view hl
  rw [← h.toArray_eq_view] at hordered
  exact hordered i _ _ hpos (Array.getElem?_eq_getElem hi) (Array.getElem?_eq_getElem hparent)

/-- A queue over plain slots, built of elements some of which are of equal rank, and changed in two
interior slots. -/
theorem AnyHeap.not_less_parent_repaired : ∃ q : PriorityQueue (Nat × Nat) Unit,
    (AnyHeap.queue q).Reachable (.queue .slots) (fun a b => minFirst a.1 b.1) ∧
    q.toArray = #[(1, 6), (4, 4), (4, 0), (9, 5), (7, 1)] ∧
    ∃ hi : 3 < q.toArray.size, minFirst q.toArray[3].1 q.toArray[(3 - 1) / 2].1 = false := by
  have hl : Priority.IsStrictWeakOrder fun a b : Nat × Nat => minFirst a.1 b.1 :=
    Priority.isStrictWeakOrder_minFirst.comap Prod.fst
  have hr : AnyHeap.Reachable (.queue .slots) (fun a b : Nat × Nat => minFirst a.1 b.1)
      (.ofArray (.queue .slots) #[(4, 0), (7, 1), (2, 2), (7, 3), (4, 4), (9, 5)] _ : AnyHeap _ Unit) :=
    .ofArray _
  have hr := (hr.runIndexed (.updateAt 3 (1, 6)) rfl).runIndexed (.removeAt 1) rfl
  exact ⟨_, hr, by decide +kernel, by decide +kernel,
    AnyHeap.not_less_parent hl hr 3 (by decide) (by decide +kernel)⟩

/-! ## What leaves first -/

/-- After a call that has answered, the next one decides the outcome; only the log keeps both. -/
theorem Outcome.andThen_of_ok {σ β γ : Type} {o : Outcome σ ε β} {b : β} (ho : o.answer = .ok b)
    (next : β → σ → Outcome σ ε γ) :
    o.andThen next =
      ⟨(next b o.state).state, (next b o.state).answer, o.log ++ (next b o.state).log⟩ := by
  obtain ⟨s, answer, log⟩ := o
  cases ho
  rfl

/-- The elements of a container, in no order. -/
def AnyHeap.contents (h : AnyHeap α ε) : Multiset α := h.toArray.toList

namespace Heap

/-- Nothing in an ordered array precedes the element at the root. -/
theorem Ordered.not_less_root {items : Array α} (hl : less.IsStrictWeakOrder)
    (h : Ordered less items) {x : α} (hx : items[0]? = some x) : ∀ y ∈ items, less y x = false := by
  intro y hy
  obtain ⟨i, hi, rfl⟩ := Array.mem_iff_getElem.1 hy
  have hroot := h.not_precedes_root hl i
  rwa [Storage.precedes, Array.getElem?_eq_getElem hi, hx] at hroot

end Heap

namespace AnyHeap

theorem answer_peek (h : AnyHeap α ε) : (h.run .peek).answer = .ok (.item h.view.items[0]?) :=
  congrArg Outcome.answer (h.view_run .peek)

theorem answer_pop (h : AnyHeap α ε) : (h.run .pop).answer = .ok (.item h.view.items[0]?) := by
  have hview := congrArg Outcome.answer (h.view_run .pop)
  rw [Outcome.answer_mapState] at hview
  rw [hview]
  exact congrArg (fun x => Except.ok (Reply.item x)) (Heap.pop_fst h.view.rules _)

theorem view_pop (h : AnyHeap α ε) :
    (h.run .pop).state.view.items =
      (Heap.pop h.view.rules (Storage.ofArray h.view.items)).2.items :=
  congrArg ArrayHeap.items (h.view_state_run .pop)

theorem contents_eq_view (h : AnyHeap α ε) : h.contents = h.view.items.toList := by
  rw [contents, toArray_eq_view]

theorem mem_contents {x : α} : x ∈ h.contents ↔ x ∈ h.view.items := by
  rw [contents_eq_view, Multiset.mem_coe, Array.mem_toList_iff]

theorem contents_eq_zero_iff : h.contents = 0 ↔ h.view.items[0]? = none := by
  rw [contents_eq_view, Multiset.coe_eq_zero, Array.toList_eq_nil_iff, Array.getElem?_eq_none_iff,
    Nat.le_zero, Array.size_eq_zero_iff]

/-- A pop takes the element at the root and no other. -/
theorem contents_pop {x : α} (hx : h.view.items[0]? = some x) :
    h.contents = x ::ₘ (h.run .pop).state.contents := by
  have hfst : (Heap.pop h.view.rules (Storage.ofArray h.view.items)).1 = some x := by
    rw [Heap.pop_fst]
    exact hx
  have hperm := Array.perm_iff_toList_perm.1 (Heap.pop_perm hfst)
  rw [contents_eq_view, contents_eq_view, view_pop, Multiset.cons_coe, Multiset.coe_eq_coe]
  rw [Array.toList_push] at hperm
  exact hperm.symm.trans (List.perm_append_singleton _ _)

/-- A pop on nothing takes nothing. -/
theorem contents_pop_eq_zero (hzero : h.contents = 0) : (h.run .pop).state.contents = 0 := by
  rw [contents_eq_zero_iff, Array.getElem?_eq_none_iff] at hzero
  rw [contents_eq_zero_iff, view_pop, Heap.pop_eq_remove, Heap.remove_of_size_le _ hzero,
    Array.getElem?_eq_none_iff]
  exact hzero

/-- The root of a reachable container that has elements is one that no other precedes. -/
theorem Reachable.exists_least (hl : less.IsStrictWeakOrder) (hr : h.Reachable kind less)
    (hne : h.contents ≠ 0) :
    ∃ x ∈ h.contents, (∀ y ∈ h.contents, less y x = false) ∧ h.view.items[0]? = some x := by
  obtain ⟨x, hx⟩ := Option.ne_none_iff_exists'.1 (mt contents_eq_zero_iff.2 hne)
  refine ⟨x, mem_contents.2 (Array.mem_of_getElem? hx), fun y hy => ?_, hx⟩
  exact (hr.ordered_view hl).not_less_root hl hx y (mem_contents.1 hy)

/-- Popping over and over takes the elements in order, until there are none. -/
theorem Reachable.popMany_sorted (hl : less.IsStrictWeakOrder) (n : Nat) (hr : h.Reachable kind less)
    (hn : h.contents.card ≤ n) :
    ∃ xs : List α, (popMany AnyHeap.run n h).answer = .ok xs ∧ (xs : Multiset α) = h.contents ∧
      xs.Pairwise (fun a b => less b a = false) ∧ (popMany AnyHeap.run n h).state.contents = 0 := by
  induction n generalizing h with
  | zero =>
    have hzero := Multiset.card_eq_zero.1 (Nat.le_zero.1 hn)
    exact ⟨[], rfl, hzero.symm, .nil, hzero⟩
  | succ n ih =>
    by_cases hne : h.contents = 0
    · have hpop : (h.run .pop).answer = .ok (.item none) := by
        rw [answer_pop, contents_eq_zero_iff.1 hne]
      rw [popMany, Outcome.andThen_of_ok hpop]
      exact ⟨[], rfl, hne.symm, .nil, contents_pop_eq_zero hne⟩
    · obtain ⟨x, hmem, hleast, hx⟩ := hr.exists_least hl hne
      have hpop : (h.run .pop).answer = .ok (.item (some x)) := by rw [answer_pop, hx]
      have hrest := contents_pop hx
      have hcard : (h.run .pop).state.contents.card ≤ n := by
        rw [hrest, Multiset.card_cons] at hn
        exact Nat.le_of_succ_le_succ hn
      obtain ⟨xs, hxs, hcontents, hsorted, hempty⟩ := ih (hr.run .pop) hcard
      rw [popMany, Outcome.andThen_of_ok hpop]
      refine ⟨x :: xs, ?_, ?_, ?_, hempty⟩
      · exact congrArg (Except.map (x :: ·)) hxs
      · rw [hrest, ← hcontents, Multiset.cons_coe]
      · refine List.pairwise_cons.2 ⟨fun y hy => hleast y ?_, hsorted⟩
        rw [hrest, ← hcontents]
        exact Multiset.mem_cons_of_mem hy

/-- The elements of a container leave in the order of their priority. -/
structure ServesBy (less : Priority α) (h : AnyHeap α ε) : Prop where
  /-- There is something to see unless there are no elements. -/
  peek_none_iff : (h.run .peek).answer = .ok (.item none) ↔ h.contents = 0
  /-- There is something to take unless there are no elements. -/
  pop_none_iff : (h.run .pop).answer = .ok (.item none) ↔ h.contents = 0
  /-- What is seen is taken next, no element precedes it, and the others stay. -/
  least : h.contents ≠ 0 → ∃ x ∈ h.contents, (∀ y ∈ h.contents, less y x = false) ∧
    (h.run .peek).answer = .ok (.item (some x)) ∧ (h.run .pop).answer = .ok (.item (some x)) ∧
    h.contents = x ::ₘ (h.run .pop).state.contents
  /-- Popping until there are none lists the elements so that none precedes an earlier one. -/
  drain : ∀ n, h.contents.card ≤ n → ∃ xs : List α, (popMany AnyHeap.run n h).answer = .ok xs ∧
    (xs : Multiset α) = h.contents ∧ xs.Pairwise (fun a b => less b a = false) ∧
    (popMany AnyHeap.run n h).state.contents = 0

/-- **Every reachable heap container serves by its priority**, whatever its kind and its history. -/
theorem servesBy_of_reachable (hl : less.IsStrictWeakOrder) (hr : h.Reachable kind less) :
    h.ServesBy less where
  peek_none_iff := by rw [answer_peek, contents_eq_zero_iff, Except.ok.injEq, Reply.item.injEq]
  pop_none_iff := by rw [answer_pop, contents_eq_zero_iff, Except.ok.injEq, Reply.item.injEq]
  least hne := by
    obtain ⟨x, hmem, hleast, hx⟩ := hr.exists_least hl hne
    exact ⟨x, hmem, hleast, by rw [answer_peek, hx], by rw [answer_pop, hx], contents_pop hx⟩
  drain n hn := hr.popMany_sorted hl n hn

/-- A heap behind a mutex with three elements of the least rank, one of them pushed after a pop. -/
theorem servesBy_of_reachable_ties : ∃ h : AnyHeap (Nat × Nat) Unit,
    h.Reachable (.plain .exclusive) (fun a b => minFirst a.1 b.1) ∧
    h.toArray = #[(2, 3), (2, 4), (2, 2), (5, 0)] ∧ h.ServesBy fun a b => minFirst a.1 b.1 := by
  have hl : Priority.IsStrictWeakOrder fun a b : Nat × Nat => minFirst a.1 b.1 :=
    Priority.isStrictWeakOrder_minFirst.comap Prod.fst
  have hr : Reachable (.plain .exclusive) (fun a b : Nat × Nat => minFirst a.1 b.1)
      (.empty (.plain .exclusive) _ : AnyHeap _ Unit) := .empty
  have hr := ((hr.run (.extend [(5, 0), (1, 1), (2, 2), (2, 3)])).run .pop).run (.push (2, 4))
  exact ⟨_, hr, by decide +kernel, servesBy_of_reachable hl hr⟩

end AnyHeap

end Containers
