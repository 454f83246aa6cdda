import Containers.Proofs.Heap.Agreement
import Containers.Proofs.Heap.Departure
import Containers.Proofs.PriorityQueue.Tracking

/-!
# Ranks that change in place

An element of a heap may change its rank while it stays in its slot.  That disturbs one slot of the
array, and a repair of this slot restores the order (`Heap.fix_ordered`): the element goes down if
something below precedes it, and up otherwise.

In a tracked queue the element knows the slot.  `TrackedQueue.Repaired` holds of the queues that come
about if every change of a rank is followed by a repair of the slot that the element has recorded.
Handles are compared by what the table says at the moment, so the priority is another one after every
change.  It is an order on the handles of the table only; `ranked` is the same order on all handles, with
those that are not in the table last (`Priority.noneLast`), and the heap does not tell the two apart, because
every queued handle is in the table.
-/

set_option autoImplicit false

namespace Containers

open Heap (Rules Storage Probe AgreeOn Within Ordered)
open Heap.Storage (precedes)

namespace TrackedQueue

variable {ι ρ : Type} {order : Priority ρ} {elements : Array (TrackedElement ι ρ)}
  {items : Array Handle} {t : TrackedQueue ι ρ}

/-! ## Ranks -/

/-- The rank of an element by a table. -/
def rankIn (elements : Array (TrackedElement ι ρ)) (h : Handle) : Option ρ :=
  elements[h]?.map TrackedElement.rank

/-- The order of all handles by their ranks; those that are not in the table come last. -/
def ranked (order : Priority ρ) (elements : Array (TrackedElement ι ρ)) : Priority Handle :=
  fun a b => order.noneLast (rankIn elements a) (rankIn elements b)

theorem isStrictWeakOrder_ranked (ho : order.IsStrictWeakOrder) (elements : Array (TrackedElement ι ρ)) :
    (ranked order elements).IsStrictWeakOrder :=
  ho.noneLast.comap (rankIn elements)

theorem ranked_congr {elements' : Array (TrackedElement ι ρ)} (h : rankIn elements = rankIn elements') :
    ranked order elements = ranked order elements' := by
  funext a b
  rw [ranked, ranked, h]

theorem byRank_eq {a b : Handle} {e e' : TrackedElement ι ρ} (ha : elements[a]? = some e)
    (hb : elements[b]? = some e') : byRank order elements a b = order e.rank e'.rank := by
  rw [byRank, ha, hb]

theorem rankIn_eq {a : Handle} {e : TrackedElement ι ρ} (ha : elements[a]? = some e) :
    rankIn elements a = some e.rank := by
  rw [rankIn, ha]
  rfl

/-- On the handles of the table the order of all handles is the order by the table. -/
theorem agreeOn_byRank (order : Priority ρ) (elements : Array (TrackedElement ι ρ)) :
    AgreeOn (· < elements.size) (byRank order elements) (ranked order elements) := by
  intro a b ha hb
  have ha := Array.getElem?_eq_getElem ha
  have hb := Array.getElem?_eq_getElem hb
  rw [byRank_eq ha hb, ranked, rankIn_eq ha, rankIn_eq hb, Priority.noneLast]

/-- Entering a slot is no change of rank. -/
theorem rankIn_modify (f : TrackedElement ι ρ → TrackedElement ι ρ) (hf : ∀ e, (f e).rank = e.rank)
    (x : Handle) : rankIn (elements.modify x f) = rankIn elements := by
  funext h
  rw [rankIn, Array.getElem?_modify, rankIn]
  split
  · rw [Option.map_map]
    exact congrArg (elements[h]?.map ·) (funext hf)
  · rfl

theorem rankIn_modify_of_ne {x h : Handle} (hx : h ≠ x) (f : TrackedElement ι ρ → TrackedElement ι ρ) :
    rankIn (elements.modify x f) h = rankIn elements h := by
  rw [rankIn, Array.getElem?_modify, if_neg (Ne.symm hx), rankIn]

theorem rankIn_push {h : Handle} (hh : h < elements.size) (e : TrackedElement ι ρ) :
    rankIn (elements.push e) h = rankIn elements h := by
  rw [rankIn, Array.getElem?_push_lt hh, ← Array.getElem?_eq_getElem hh, rankIn]

theorem rankIn_record (p : Placement) : rankIn (record elements p) = rankIn elements :=
  rankIn_modify (fun e => { e with slot := p.slot }) (fun _ => rfl) p.handle

theorem rankIn_foldl_record (ps : List Placement) :
    rankIn (ps.foldl record elements) = rankIn elements := by
  induction ps generalizing elements with
  | nil => rfl
  | cons p ps ih => rw [List.foldl_cons, ih, rankIn_record]

/-- What the hook has told is about slots. -/
theorem rankIn_enterAll (log : Array (List Placement)) :
    rankIn (enterAll elements log) = rankIn elements := by
  rw [enterAll, ← Array.foldl_toList]
  induction log.toList generalizing elements with
  | nil => rfl
  | cons ps log ih => rw [List.foldl_cons, ih, rankIn_foldl_record]

/-! ## One call -/

theorem lt_size_of_slotIn {x : Handle} {i : Nat} (h : slotIn elements x = some i) :
    x < elements.size := by
  obtain ⟨e, he, -⟩ := Option.map_eq_some_iff.1 h
  exact (Array.getElem?_eq_some_iff.1 he).1

/-- Every queued handle is in the table. -/
theorem Tracks.within (h : t.Tracks) : Within (· < t.elements.size) t.queue.toArray := by
  intro x hx
  obtain ⟨i, hi⟩ := Array.getElem?_of_mem hx
  exact lt_size_of_slotIn (h.recorded i x hi)

/-- So is every handle that an admitted call brings along. -/
theorem lt_size_of_brought {c : IndexedCall Handle} (hc : Admits elements items c) :
    ∀ x ∈ Heap.brought c, x < elements.size := by
  intro x hx
  cases c with
  | plain c =>
    cases c with
    | push y =>
      obtain rfl := List.mem_singleton.1 hx
      exact lt_size_of_slotIn hc.2
    | extend ys =>
      obtain ⟨i, hi⟩ := List.mem_iff_getElem?.1 hx
      exact lt_size_of_slotIn (hc i x hi).2
    | _ => cases hx
  | updateAt index y =>
    obtain rfl := List.mem_singleton.1 hx
    exact lt_size_of_slotIn hc.2
  | _ => cases hx

theorem Tracks.toArray_performBy (h : t.Tracks) (less : Priority Handle) (c : IndexedCall Handle) :
    (t.performBy less c).2.queue.toArray =
      (Heap.carryOut (hooked less) c (Storage.ofArray t.queue.toArray)).2.items := by
  rw [PriorityQueue.toArray_eq_view]
  exact congrArg (fun o => o.state.items) (h.view_run less c)

theorem Tracks.answer_performBy (h : t.Tracks) (less : Priority Handle) (c : IndexedCall Handle) :
    (t.performBy less c).1 =
      (Heap.carryOut (hooked less) c (Storage.ofArray t.queue.toArray)).1 :=
  congrArg Outcome.answer (h.view_run less c)

/-- A heap of handles does not tell the order by the table from the order of all handles. -/
theorem Tracks.carryOut_byRank (h : t.Tracks) (order : Priority ρ) {c : IndexedCall Handle}
    (hc : Admits t.elements t.queue.toArray c) :
    Heap.carryOut (hooked (byRank order t.elements)) c (Storage.ofArray t.queue.toArray) =
      Heap.carryOut (hooked (ranked order t.elements)) c (Storage.ofArray t.queue.toArray) :=
  Heap.carryOut_congr (agreeOn_byRank order t.elements) c (lt_size_of_brought hc) h.within

/-! ## Whole histories -/

/-- The tracked queues that come about from an empty one if every change of a rank is followed by a repair
of the slot that the element has recorded, unless the element is not queued.  Calls are made under the
order of the ranks as they are. -/
inductive Repaired (order : Priority ρ) : TrackedQueue ι ρ → Prop
  | empty (kind : PriorityQueueKind) : Repaired order (.empty kind order)
  | enter (name : ι) (rank : ρ) (slot : Nat) {t : TrackedQueue ι ρ} (hr : Repaired order t) :
      Repaired order (t.enter name rank slot)
  | withSlot (h : Handle) (slot : Nat) {t : TrackedQueue ι ρ} (hr : Repaired order t)
      (hh : h ∉ t.queue.toArray) : Repaired order (t.withSlot h slot)
  | withRank (h : Handle) (rank : ρ) {t : TrackedQueue ι ρ} (hr : Repaired order t)
      (hh : h ∉ t.queue.toArray) : Repaired order (t.withRank h rank)
  | call (c : IndexedCall Handle) {t : TrackedQueue ι ρ} (hr : Repaired order t)
      (hc : Admits t.elements t.queue.toArray c) : Repaired order (t.perform c).2
  | rerank (h : Handle) (rank : ρ) {t : TrackedQueue ι ρ} {e : TrackedElement ι ρ}
      (hr : Repaired order t) (he : t.element? h = some e) :
      Repaired order ((t.withRank h rank).perform (.fix e.slot)).2

/-- These queues are tracked. -/
theorem Repaired.reachable (hr : t.Repaired order) : t.Reachable := by
  induction hr with
  | empty kind => exact .empty kind order
  | enter name rank slot _ ih => exact ih.enter name rank slot
  | withSlot h slot _ hh ih => exact ih.withSlot h slot hh
  | withRank h rank _ _ ih => exact ih.withRank h rank
  | call c _ hc ih => exact ih.perform hc
  | rerank h rank _ _ ih => exact (ih.withRank h rank).perform trivial

theorem Repaired.order_eq (hr : t.Repaired order) : t.order = order := by
  induction hr with
  | empty kind => rfl
  | _ => assumption

/-- An added element expects the slot that it gets. -/
theorem Repaired.add (hr : t.Repaired order) (name : ι) (rank : ρ) :
    (t.add name rank).2.Repaired order :=
  (hr.enter name rank t.size).call _
    ⟨hr.reachable.tracks.not_mem_queue, slotIn_enter name rank t.size t⟩

/-- The elements are in the order of their ranks. -/
def InOrder (t : TrackedQueue ι ρ) : Prop := Ordered (ranked t.order t.elements) t.queue.toArray

theorem inOrder_empty (kind : PriorityQueueKind) (order : Priority ρ) :
    (empty kind order : TrackedQueue ι ρ).InOrder := by
  have hitems : (empty kind order : TrackedQueue ι ρ).queue.toArray = #[] := by
    rw [empty, PriorityQueue.toArray_eq_view, PriorityQueue.view_withOnSwap]
    rcases kind with lock | - <;> rfl
  rw [InOrder, hitems]
  exact Heap.ordered_empty

/-- What a heap does under the present ranks leaves its elements in the order of these ranks. -/
theorem InOrder.of_carryOut (ht : t.Tracks) {c : IndexedCall Handle}
    (hc : Admits t.elements t.queue.toArray c)
    (h : Ordered (ranked t.order t.elements)
      (Heap.carryOut (hooked (ranked t.order t.elements)) c (Storage.ofArray t.queue.toArray)).2.items) :
    (t.perform c).2.InOrder := by
  have hranks : ranked t.order (t.perform c).2.elements = ranked t.order t.elements :=
    ranked_congr (rankIn_enterAll _)
  rw [← ht.carryOut_byRank t.order hc, ← ht.toArray_performBy, ← hranks] at h
  exact h

theorem InOrder.perform (h : t.InOrder) (ht : t.Tracks) (ho : t.order.IsStrictWeakOrder)
    {c : IndexedCall Handle} (hc : Admits t.elements t.queue.toArray c) : (t.perform c).2.InOrder :=
  .of_carryOut ht hc (Heap.carryOut_ordered (isStrictWeakOrder_ranked ho _) c h)

/-- An element that is entered is not queued yet. -/
theorem InOrder.enter (h : t.InOrder) (ht : t.Tracks) (name : ι) (rank : ρ) (slot : Nat) :
    (t.enter name rank slot).InOrder := by
  refine Ordered.congr (fun a b ha hb => ?_) ht.within h
  rw [ranked, ranked, TrackedQueue.enter, rankIn_push ha, rankIn_push hb]

theorem InOrder.withSlot (h : t.InOrder) (x : Handle) (slot : Nat) : (t.withSlot x slot).InOrder := by
  have hranks : ranked t.order (t.withSlot x slot).elements = ranked t.order t.elements :=
    ranked_congr (rankIn_modify (fun e => { e with slot }) (fun _ => rfl) x)
  rw [InOrder, ← hranks] at h
  exact h

theorem InOrder.withRank (h : t.InOrder) {x : Handle} (hx : x ∉ t.queue.toArray) (rank : ρ) :
    (t.withRank x rank).InOrder := by
  have hne : ∀ a ∈ t.queue.toArray, a ≠ x := fun a ha heq => hx (heq ▸ ha)
  refine Ordered.congr (P := fun a => a ∈ t.queue.toArray) (fun a b ha hb => ?_) (fun _ ha => ha) h
  rw [ranked, ranked, TrackedQueue.withRank, rankIn_modify_of_ne (hne a ha),
    rankIn_modify_of_ne (hne b hb)]

/-- Only the slot that an element has recorded is disturbed by a change of its rank. -/
theorem InOrder.disturbed (h : t.InOrder) (ht : t.Tracks) (ho : t.order.IsStrictWeakOrder)
    {x : Handle} {e : TrackedElement ι ρ} (he : t.element? x = some e) (rank : ρ) :
    Heap.Disturbed (ranked t.order (t.withRank x rank).elements) (fun _ => True) t.queue.toArray
      e.slot := by
  have hslot : slotIn t.elements x = some e.slot := congrArg (Option.map TrackedElement.slot) he
  -- what is in another slot is another element
  have hrank : ∀ i, i ≠ e.slot → ∀ y, t.queue.toArray[i]? = some y →
      rankIn (t.withRank x rank).elements y = rankIn t.elements y := by
    intro i hi y hy
    refine rankIn_modify_of_ne ?_ _
    rintro rfl
    exact hi (Option.some.inj ((ht.recorded i y hy).symm.trans hslot))
  refine Ordered.disturbed (isStrictWeakOrder_ranked ho t.elements) h fun i j hi hj hij => ?_
  refine Heap.not_precedes_of_lt fun hi' hj' => ?_
  rw [Heap.precedes_eq hi' hj'] at hij ⊢
  rw [ranked, hrank i hi _ (Array.getElem?_eq_getElem hi'), hrank j hj _ (Array.getElem?_eq_getElem hj')]
  exact hij

theorem InOrder.rerank (h : t.InOrder) (ht : t.Tracks) (ho : t.order.IsStrictWeakOrder)
    {x : Handle} {e : TrackedElement ι ρ} (he : t.element? x = some e) (rank : ρ)
    (ht' : (t.withRank x rank).Tracks) : ((t.withRank x rank).perform (.fix e.slot)).2.InOrder :=
  .of_carryOut ht' trivial
    (Heap.fix_ordered (isStrictWeakOrder_ranked ho _) (h.disturbed ht ho he rank))

theorem Repaired.inOrder (ho : order.IsStrictWeakOrder) (hr : t.Repaired order) : t.InOrder := by
  induction hr with
  | empty kind => exact inOrder_empty kind order
  | enter name rank slot hr ih => exact ih.enter hr.reachable.tracks name rank slot
  | withSlot x slot hr _ ih => exact ih.withSlot x slot
  | withRank x rank hr hx ih => exact ih.withRank hx rank
  | call c hr hc ih =>
    rw [← hr.order_eq] at ho
    exact ih.perform hr.reachable.tracks ho hc
  | rerank h rank hr he ih =>
    rw [← hr.order_eq] at ho
    exact ih.rerank hr.reachable.tracks ho he rank (hr.reachable.withRank h rank).tracks

/-! ## What leaves first -/

/-- The elements of a tracked queue leave in the order of their ranks. -/
structure ServesByRank (t : TrackedQueue ι ρ) : Prop where
  /-- Every queued element has a rank. -/
  known : ∀ h ∈ t.queue.toArray, ∃ e, t.element? h = some e
  /-- No queued element has a rank that precedes the rank of the element above it. -/
  ordered : ∀ i h p e e', 0 < i → t.queue.toArray[i]? = some h →
    t.queue.toArray[(i - 1) / 2]? = some p → t.element? h = some e → t.element? p = some e' →
    t.order e.rank e'.rank = false
  /-- There is nothing to take if there are no elements. -/
  pop_empty : t.queue.toArray = #[] → (t.perform (.plain .pop)).1 = .ok (.item none)
  /-- Otherwise an element is taken that no other precedes by its rank. -/
  pop : t.queue.toArray ≠ #[] → ∃ h e, (t.perform (.plain .pop)).1 = .ok (.item (some h)) ∧
    t.element? h = some e ∧
    (∀ h' ∈ t.queue.toArray, ∀ e', t.element? h' = some e' → t.order e'.rank e.rank = false) ∧
    ((t.perform (.plain .pop)).2.queue.toArray.push h).Perm t.queue.toArray

theorem Tracks.answer_pop (h : t.Tracks) :
    (t.perform (.plain .pop)).1 = .ok (.item t.queue.toArray[0]?) := by
  rw [perform, h.answer_performBy, Heap.carryOut, Heap.pop_fst]
  rfl

theorem InOrder.servesByRank (h : t.InOrder) (ht : t.Tracks) (ho : t.order.IsStrictWeakOrder) :
    t.ServesByRank where
  known x hx := ⟨_, Array.getElem?_eq_getElem (ht.within x hx)⟩
  ordered i x p e e' hi hx hp he he' := by
    have hparent := h i x p hi hx hp
    rwa [ranked, rankIn_eq he, rankIn_eq he'] at hparent
  pop_empty hempty := by
    rw [ht.answer_pop, hempty]
    rfl
  pop hne := by
    obtain ⟨x, hx⟩ : ∃ x, t.queue.toArray[0]? = some x := by
      refine Option.ne_none_iff_exists'.1 fun hnone => hne (Array.size_eq_zero_iff.1 ?_)
      exact Nat.le_zero.1 (Array.getElem?_eq_none_iff.1 hnone)
    have hmem := Array.mem_of_getElem? hx
    have hroot := Ordered.not_less_root (isStrictWeakOrder_ranked ho _) h hx
    refine ⟨x, _, ?_, Array.getElem?_eq_getElem (ht.within x hmem), fun y hy e' he' => ?_, ?_⟩
    · rw [ht.answer_pop, hx]
    · have hyx := hroot y hy
      rwa [ranked, rankIn_eq he', rankIn_eq (Array.getElem?_eq_getElem (ht.within x hmem))] at hyx
    · rw [TrackedQueue.perform, ht.toArray_performBy]
      refine Heap.pop_perm ?_
      rw [Heap.pop_fst]
      exact hx

/-- **A repair is all that a change in one slot needs.**  The new element may be another one, or the old
one by another priority.  And where every change of a rank is followed by a repair of the slot that the
element has recorded, a tracked queue is in the order of the present ranks after every call, and a pop
takes an element of a rank that no other precedes. -/
theorem fix_repairs {α ε : Type} {less : Priority α} (hl : less.IsStrictWeakOrder)
    (ho : order.IsStrictWeakOrder) :
    (∀ (probe : Probe α ε) (s : Storage α ε) (i : Nat) (x : α), Ordered less s.items →
      Ordered less (Heap.fix ⟨less, probe⟩ i (s.set i x)).items ∧
        (Heap.fix ⟨less, probe⟩ i (s.set i x)).items.Perm (s.set i x).items) ∧
    (∀ (less' : Priority α) (probe : Probe α ε) (s : Storage α ε) (i : Nat),
      less'.IsStrictWeakOrder → Ordered less s.items →
      (∀ j k, j ≠ i → k ≠ i → precedes less' s.items j k = precedes less s.items j k) →
      Ordered less' (Heap.fix ⟨less', probe⟩ i s).items ∧
        (Heap.fix ⟨less', probe⟩ i s).items.Perm s.items) ∧
    ∀ t : TrackedQueue ι ρ, t.Repaired order → t.ServesByRank := by
  refine ⟨fun probe s i x hs => ?_, fun less' probe s i hl' hs hothers => ?_, fun t hr => ?_⟩
  · exact ⟨Heap.set_fix_ordered hl i x hs, Heap.fix_perm ..⟩
  · refine ⟨Heap.fix_ordered hl' (hs.disturbed hl fun j k hj hk hjk => ?_), Heap.fix_perm ..⟩
    exact (hothers j k hj hk).trans hjk
  · have ho' := ho
    rw [← hr.order_eq] at ho'
    exact (hr.inOrder ho).servesByRank hr.reachable.tracks ho'

/-- Three elements are queued; the one at the root sinks, and the one that has come to be there sinks to a
rank that another has already.  Beside it a slot of a heap of numbers is overwritten and repaired. -/
theorem fix_repairs_ties : ∃ (t : TrackedQueue Nat Int64) (r : Rules Nat Unit), t.Repaired minFirst ∧
    t.queue.toArray = #[2, 0, 1] ∧ t.ServesByRank ∧
    Ordered minFirst (Heap.fix r 1 ((Heap.heapify r (.ofArray #[5, 4, 2, 1, 4])).set 1 9)).items := by
  have ho : (minFirst : Priority Int64).IsStrictWeakOrder := Priority.isStrictWeakOrder_minFirst
  have hl : (minFirst : Priority Nat).IsStrictWeakOrder := Priority.isStrictWeakOrder_minFirst
  have hr : (empty .slots minFirst : TrackedQueue Nat Int64).Repaired minFirst := .empty _
  have hr := ((hr.add 7 10).add 8 20).add 9 30
  have hr := hr.rerank 0 40 (Array.getElem?_eq_getElem (by decide +kernel))
  have hr := hr.rerank 1 40 (Array.getElem?_eq_getElem (by decide +kernel))
  obtain ⟨hset, -, hserves⟩ := fix_repairs hl ho
  exact ⟨_, ⟨minFirst, .silent⟩, hr, by decide +kernel, hserves _ hr,
    (hset .silent _ 1 9 (Heap.heapify_ordered hl _)).1⟩

end TrackedQueue

end Containers
