import Containers.PriorityQueue.Tracked
import Containers.Proofs.Heap.Accesses
import Containers.Proofs.Heap.Reachable

/-!
# Tracked elements know their slots

The elements of a tracked queue learn where they are from exchanges alone, although they also come into
slots and leave them without one.  `Recorded` says that they all know their slots.

* An exchange keeps it (`Recorded.swap`): the hook moves both records, and since every element of the
  queue has recorded its own slot, no third one is touched.  A comparison and a drop keep it trivially,
  so it is `Kept` and survives the sifts, whatever the priority answers.
* An element that comes in has to know its slot beforehand (`Admits`).  Elements that are to come in
  later in the same call keep what they know, because the hook only speaks of elements in the array.
* `Reachable` holds of the queues that come about if only such elements are handed over.  In between,
  elements may be made, change their rank, and, as long as they are not queued, change their slot.
-/

set_option autoImplicit false

namespace Containers.TrackedQueue

open Heap (Rules Storage Probe Kept)

variable {ι ρ : Type} {elements : Array (TrackedElement ι ρ)} {items : Array Handle}

/-! ## Recorded slots -/

/-- The slot that an element has recorded. -/
def slotIn (elements : Array (TrackedElement ι ρ)) (h : Handle) : Option Nat :=
  elements[h]?.map TrackedElement.slot

/-- Every element of an array of handles has recorded the slot it is in. -/
def Recorded (elements : Array (TrackedElement ι ρ)) (items : Array Handle) : Prop :=
  ∀ i h, items[i]? = some h → slotIn elements h = some i

theorem slotIn_record_self {h : Handle} {i : Nat} (hi : slotIn elements h = some i) (j : Nat) :
    slotIn (record elements ⟨h, j⟩) h = some j := by
  obtain ⟨e, he, -⟩ := Option.map_eq_some_iff.1 hi
  rw [slotIn, record, Array.getElem?_modify, if_pos rfl, he]
  rfl

theorem slotIn_record_of_ne {h : Handle} {p : Placement} (hp : h ≠ p.handle) :
    slotIn (record elements p) h = slotIn elements h := by
  rw [slotIn, record, Array.getElem?_modify, if_neg (Ne.symm hp), slotIn]

/-- What the hook reports of an exchange. -/
theorem hook_swap {i j : Nat} (hi : i < items.size) (hj : j < items.size) :
    Placement.hook i j (items.swapIfInBounds i j) = [⟨items[j], i⟩, ⟨items[i], j⟩] := by
  rw [Placement.hook, Heap.getElem?_swapIfInBounds hi hj, Heap.getElem?_swapIfInBounds hi hj,
    Equiv.swap_apply_left, Equiv.swap_apply_right, Array.getElem?_eq_getElem hi,
    Array.getElem?_eq_getElem hj]
  rfl

/-- An exchange that is entered keeps the records right. -/
theorem Recorded.swap (h : Recorded elements items) {i j : Nat} (hi : i < items.size)
    (hj : j < items.size) (hij : i ≠ j) :
    Recorded (record (record elements ⟨items[j], i⟩) ⟨items[i], j⟩) (items.swapIfInBounds i j) := by
  have hslotᵢ := h i _ (Array.getElem?_eq_getElem hi)
  have hslotⱼ := h j _ (Array.getElem?_eq_getElem hj)
  have hne : items[j] ≠ items[i] := by
    intro heq
    rw [heq, hslotᵢ] at hslotⱼ
    exact hij (Option.some.inj hslotⱼ)
  intro k x hx
  rw [Heap.getElem?_swapIfInBounds hi hj] at hx
  by_cases hki : k = i
  · obtain rfl : items[j] = x := by
      rw [hki, Equiv.swap_apply_left, Array.getElem?_eq_getElem hj] at hx
      exact Option.some.inj hx
    rw [slotIn_record_of_ne hne, slotIn_record_self hslotⱼ, hki]
  · by_cases hkj : k = j
    · obtain rfl : items[i] = x := by
        rw [hkj, Equiv.swap_apply_right, Array.getElem?_eq_getElem hi] at hx
        exact Option.some.inj hx
      rw [← slotIn_record_of_ne (p := ⟨items[j], i⟩) (Ne.symm hne)] at hslotᵢ
      rw [slotIn_record_self hslotᵢ, hkj]
    · rw [Equiv.swap_apply_of_ne_of_ne hki hkj] at hx
      have hslot := h k x hx
      have hxᵢ : x ≠ items[i] := by
        rintro rfl
        rw [hslotᵢ] at hslot
        exact hki (Option.some.inj hslot).symm
      have hxⱼ : x ≠ items[j] := by
        rintro rfl
        rw [hslotⱼ] at hslot
        exact hkj (Option.some.inj hslot).symm
      rw [slotIn_record_of_ne hxᵢ, slotIn_record_of_ne hxⱼ, hslot]

/-! ## One call -/

/-- The table after everything that the hook has told is entered. -/
def enterAll (elements : Array (TrackedElement ι ρ)) (log : Array (List Placement)) :
    Array (TrackedElement ι ρ) :=
  log.foldl (fun es ps => ps.foldl record es) elements

/-- The rules of a tracked queue: any priority, and exchanges are told to the hook. -/
def hooked (less : Priority Handle) : Rules Handle (List Placement) :=
  ⟨less, Probe.ofHook (some Placement.hook)⟩

/-- The records are right once the log is entered. -/
def Current (elements : Array (TrackedElement ι ρ)) (s : Storage Handle (List Placement)) : Prop :=
  Recorded (enterAll elements s.log) s.items

/-- An element that is not in the array has recorded slot `i`. -/
def Waiting (elements : Array (TrackedElement ι ρ)) (x : Handle) (i : Nat)
    (s : Storage Handle (List Placement)) : Prop :=
  x ∉ s.items ∧ slotIn (enterAll elements s.log) x = some i

variable {less : Priority Handle} {s : Storage Handle (List Placement)}

/-- An exchange enters two records. -/
theorem enterAll_swapAt {i j : Nat} (hi : i < s.size) (hj : j < s.size) :
    enterAll elements (s.swapAt (hooked less) i j).log =
      record (record (enterAll elements s.log) ⟨s.items[j], i⟩) ⟨s.items[i], j⟩ := by
  have hlog : (s.swapAt (hooked less) i j).log =
      s.log.push (Placement.hook i j (s.items.swapIfInBounds i j)) := rfl
  rw [hlog, hook_swap hi hj, enterAll, Array.foldl_push]
  rfl

theorem kept_current : Kept (hooked less) (Current elements) where
  compare _ _ _ _ _ h := h
  swap i j s hi hj hij h := by
    rw [Current, enterAll_swapAt hi hj, Storage.items_swapAt]
    exact h.swap hi hj hij

theorem kept_waiting (x : Handle) (k : Nat) : Kept (hooked less) (Waiting elements x k) where
  compare _ _ _ _ _ h := h
  swap i j s hi hj _ h := by
    obtain ⟨hx, hslot⟩ := h
    have hxᵢ : x ≠ s.items[i] := fun heq => hx (heq ▸ Array.getElem_mem hi)
    have hxⱼ : x ≠ s.items[j] := fun heq => hx (heq ▸ Array.getElem_mem hj)
    refine ⟨?_, ?_⟩
    · rw [Storage.items_swapAt, (Heap.swapIfInBounds_perm s.items i j).mem_iff]
      exact hx
    · rw [enterAll_swapAt hi hj, slotIn_record_of_ne hxᵢ, slotIn_record_of_ne hxⱼ, hslot]

theorem current_dropLast (h : Current elements s) :
    Current elements (s.dropLast (hooked less)).2 := by
  intro i x hx
  rw [Storage.items_dropLast, Array.getElem?_pop] at hx
  split at hx
  · exact h i x hx
  · cases hx

/-- An element that has recorded the first free slot can be appended. -/
theorem current_append {x : Handle} (h : Current elements s)
    (hx : slotIn (enterAll elements s.log) x = some s.size) :
    Current elements (s.append (hooked less) x) := by
  intro i y hy
  rw [Storage.items_append, Array.getElem?_push] at hy
  split at hy
  · rename_i hi
    obtain rfl := Option.some.inj hy
    rw [hi]
    exact hx
  · exact h i y hy

/-- An element that has recorded a slot can be put there. -/
theorem current_set {x : Handle} {i : Nat} (h : Current elements s)
    (hx : slotIn (enterAll elements s.log) x = some i) : Current elements (s.set i x) := by
  intro j y hy
  rw [Storage.items_set, Array.getElem?_setIfInBounds] at hy
  split at hy
  · rename_i hij
    split at hy
    · obtain rfl := Option.some.inj hy
      rw [← hij]
      exact hx
    · cases hy
  · exact h j y hy

/-- Elements that are to be appended one after another have recorded the slots they will get. -/
theorem current_pushAll (hs : List Handle) (h : Current elements s)
    (hw : ∀ i x, hs[i]? = some x → Waiting elements x (s.size + i) s) :
    Current elements (Heap.pushAll (hooked less) hs s).2 := by
  induction hs generalizing s with
  | nil => exact h
  | cons x hs ih =>
    have hx := hw 0 x rfl
    have hpushed : Current elements (Heap.push (hooked less) x s).2 :=
      kept_current.push (current_append h hx.2)
    -- the records of the others are out of the hook's reach, also while `x` moves
    have hrest : ∀ i y, hs[i]? = some y →
        Waiting elements y (s.size + (i + 1)) (Heap.push (hooked less) x s).2 := by
      intro i y hy
      obtain ⟨hmem, hslot⟩ := hw (i + 1) y hy
      have hyx : y ≠ x := by
        rintro rfl
        have hsame := hx.2.symm.trans hslot
        rw [Option.some.injEq] at hsame
        omega
      refine (kept_waiting y _).push ⟨?_, hslot⟩
      rw [Storage.items_append, Array.mem_push]
      exact fun hy' => hy'.elim hmem hyx
    rw [Heap.pushAll]
    split
    · rename_i s' heq
      rw [heq] at hpushed hrest
      refine ih hpushed fun i y hy => ?_
      have hsize := Heap.size_push (hooked less) x s
      rw [heq] at hsize
      rw [Storage.size, hsize, Nat.add_assoc, Nat.add_comm 1 i]
      exact hrest i y hy
    · rename_i heq
      rw [heq] at hpushed
      exact hpushed

/-- A call may hand over elements that are not queued and have recorded the slots they come into.  A
call that hands over none is admitted in any case. -/
def Admits (elements : Array (TrackedElement ι ρ)) (items : Array Handle) :
    IndexedCall Handle → Prop
  | .plain (.push x) => x ∉ items ∧ slotIn elements x = some items.size
  | .plain (.extend xs) =>
    ∀ i x, xs[i]? = some x → x ∉ items ∧ slotIn elements x = some (items.size + i)
  | .updateAt index x => x ∉ items ∧ slotIn elements x = some index
  | _ => True

/-- A call keeps the records right, also if it faults. -/
theorem current_carryOut (c : IndexedCall Handle) (h : Current elements s)
    (hc : Admits (enterAll elements s.log) s.items c) :
    Current elements (Heap.carryOut (hooked less) c s).2 := by
  cases c with
  | plain c =>
    cases c with
    | push x => exact kept_current.push (current_append h hc.2)
    | extend xs => exact current_pushAll xs h hc
    | pop =>
      rw [Heap.carryOut, Heap.pop_eq_remove]
      exact kept_current.remove (fun _ _ => current_dropLast) h
    | clear =>
      intro i x hx
      cases hx
    | _ => exact h
  | fix index => exact kept_current.fix h
  | removeAt index => exact kept_current.remove (fun _ _ => current_dropLast) h
  | updateAt index x =>
    rw [Heap.carryOut]
    split
    · exact kept_current.fix (current_set h hc.2)
    · exact h

/-! ## Whole histories -/

variable {t : TrackedQueue ι ρ}

/-- Gives an element another rank, and repairs nothing. -/
def withRank (h : Handle) (rank : ρ) (t : TrackedQueue ι ρ) : TrackedQueue ι ρ :=
  { t with elements := t.elements.modify h fun e => { e with rank } }

/-- Gives an element another recorded slot. -/
def withSlot (h : Handle) (slot : Nat) (t : TrackedQueue ι ρ) : TrackedQueue ι ρ :=
  { t with elements := t.elements.modify h fun e => { e with slot } }

/-- The tracked queues that come about from an empty one if nobody hands over an element that does not
know its slot.  Each call may be made under a priority of its own. -/
inductive Reachable : TrackedQueue ι ρ → Prop
  | empty (kind : PriorityQueueKind) (order : Priority ρ) : Reachable (.empty kind order)
  | enter (name : ι) (rank : ρ) (slot : Nat) {t : TrackedQueue ι ρ} (hr : Reachable t) :
      Reachable (t.enter name rank slot)
  | withRank (h : Handle) (rank : ρ) {t : TrackedQueue ι ρ} (hr : Reachable t) :
      Reachable (t.withRank h rank)
  | withSlot (h : Handle) (slot : Nat) {t : TrackedQueue ι ρ} (hr : Reachable t)
      (hh : h ∉ t.queue.toArray) : Reachable (t.withSlot h slot)
  | call (less : Priority Handle) (c : IndexedCall Handle) {t : TrackedQueue ι ρ} (hr : Reachable t)
      (hc : Admits t.elements t.queue.toArray c) : Reachable (t.performBy less c).2

/-- The hook is attached, and the records are right. -/
structure Tracks (t : TrackedQueue ι ρ) : Prop where
  hook : t.queue.view.onSwap = some Placement.hook
  recorded : Recorded t.elements t.queue.toArray

theorem tracks_empty (kind : PriorityQueueKind) (order : Priority ρ) :
    (empty kind order : TrackedQueue ι ρ).Tracks := by
  refine ⟨?_, fun i h hi => ?_⟩
  · rw [empty, PriorityQueue.view_withOnSwap]
  · rw [empty, PriorityQueue.toArray_eq_view, PriorityQueue.view_withOnSwap] at hi
    rcases kind with lock | - <;> cases hi

/-- A call does to the queue what it does to bare storage under the rules of a tracked queue. -/
theorem Tracks.view_run (h : t.Tracks) (less : Priority Handle) (c : IndexedCall Handle) :
    ((t.queue.withPriority less).run c).mapState PriorityQueue.view =
      ArrayHeap.run c ⟨t.queue.toArray, less, some Placement.hook⟩ := by
  rw [PriorityQueue.view_run, PriorityQueue.view_withPriority, h.hook, PriorityQueue.toArray_eq_view]

/-- What the hook tells during a call keeps the records right. -/
theorem Tracks.performBy (h : t.Tracks) (less : Priority Handle) {c : IndexedCall Handle}
    (hc : Admits t.elements t.queue.toArray c) : (t.performBy less c).2.Tracks := by
  have hview := h.view_run less c
  have hcurrent : Current t.elements (Storage.ofArray t.queue.toArray) := h.recorded
  have hafter : Current t.elements
      (Heap.carryOut (hooked less) c (Storage.ofArray t.queue.toArray)).2 :=
    current_carryOut c hcurrent hc
  refine ⟨congrArg (fun o => o.state.onSwap) hview, ?_⟩
  have hitems : (t.performBy less c).2.queue.view.items =
      (Heap.carryOut (hooked less) c (Storage.ofArray t.queue.toArray)).2.items :=
    congrArg (fun o => o.state.items) hview
  have hlog : (t.performBy less c).2.elements = enterAll t.elements
      (Heap.carryOut (hooked less) c (Storage.ofArray t.queue.toArray)).2.log :=
    congrArg (enterAll t.elements) (congrArg Outcome.log hview)
  rw [PriorityQueue.toArray_eq_view, hitems, hlog]
  exact hafter

theorem slotIn_modify_of_ne {x h : Handle} (hx : x ≠ h)
    (f : TrackedElement ι ρ → TrackedElement ι ρ) :
    slotIn (elements.modify h f) x = slotIn elements x := by
  rw [slotIn, Array.getElem?_modify, if_neg (Ne.symm hx), slotIn]

theorem Reachable.tracks (hr : t.Reachable) : t.Tracks := by
  induction hr with
  | empty kind order => exact tracks_empty kind order
  | enter name rank slot hr ih =>
    refine ⟨ih.hook, fun i h hi => ?_⟩
    obtain ⟨e, he, hslot⟩ := Option.map_eq_some_iff.1 (ih.recorded i h hi)
    have hlt := (Array.getElem?_eq_some_iff.1 he).1
    rw [slotIn, TrackedQueue.enter, Array.getElem?_push_lt hlt, ← Array.getElem?_eq_getElem hlt]
    exact ih.recorded i h hi
  | withRank x rank hr ih =>
    refine ⟨ih.hook, fun i h hi => ?_⟩
    have hslot := ih.recorded i h hi
    by_cases hx : h = x
    · obtain ⟨e, he, rfl⟩ := Option.map_eq_some_iff.1 hslot
      rw [slotIn, TrackedQueue.withRank, Array.getElem?_modify, if_pos hx.symm, he]
      rfl
    · exact (slotIn_modify_of_ne hx _).trans hslot
  | withSlot x slot hr hx ih =>
    refine ⟨ih.hook, fun i h hi => ?_⟩
    have hne : h ≠ x := fun heq => hx (heq ▸ Array.mem_of_getElem? hi)
    exact (slotIn_modify_of_ne hne _).trans (ih.recorded i h hi)
  | call less c hr hc ih => exact ih.performBy less hc

/-- **Every queued element has recorded the slot it is in**, after every history of calls in which
nobody hands over an element that does not know its slot, whatever the priorities answered and whether
or not the last call faulted. -/
theorem recorded_slot_eq (hr : t.Reachable) {i : Nat} {h : Handle}
    (hi : t.queue.toArray[i]? = some h) : ∃ e, t.element? h = some e ∧ e.slot = i :=
  Option.map_eq_some_iff.1 (hr.tracks.recorded i h hi)

/-- Two elements are queued, the rank of one of them changes without a repair, and a third one is pushed
under a priority that lets it precede itself: that push faults, and the last slot is right as well. -/
theorem recorded_slot_eq_after_fault : ∃ t : TrackedQueue Nat Int64, t.Reachable ∧
    t.queue.toArray = #[1, 0, 2] ∧ ∃ e, t.element? 2 = some e ∧ e.slot = 2 := by
  have hr : (empty .slots fun a b => a < b : TrackedQueue Nat Int64).Reachable := .empty _ _
  have hr := (hr.enter 7 50 0).call (fun _ _ => false) (.plain (.push 0))
    (And.intro (by decide +kernel) (by decide +kernel))
  have hr := (hr.enter 8 30 1).call (fun a b => b < a) (.plain (.push 1))
    (And.intro (by decide +kernel) (by decide +kernel))
  have hr := ((hr.withRank 1 90).enter 9 10 2).call (fun _ _ => true) (.plain (.push 2))
    (And.intro (by decide +kernel) (by decide +kernel))
  exact ⟨_, hr, by decide +kernel, recorded_slot_eq hr (by decide +kernel)⟩

/-! ## Elements that are added -/

/-- A handle that is not in the table yet is not in the queue either. -/
theorem Tracks.not_mem_queue (h : t.Tracks) : t.elements.size ∉ t.queue.toArray := by
  intro hmem
  obtain ⟨i, hi⟩ := Array.getElem?_of_mem hmem
  obtain ⟨e, he, -⟩ := Option.map_eq_some_iff.1 (h.recorded i _ hi)
  exact Nat.lt_irrefl _ (Array.getElem?_eq_some_iff.1 he).1

theorem slotIn_enter (name : ι) (rank : ρ) (slot : Nat) (t : TrackedQueue ι ρ) :
    slotIn (t.enter name rank slot).elements t.elements.size = some slot := by
  rw [slotIn, enter, Array.getElem?_push_size]
  rfl

theorem Reachable.perform (hr : t.Reachable) {c : IndexedCall Handle}
    (hc : Admits t.elements t.queue.toArray c) : (t.perform c).2.Reachable :=
  hr.call _ c hc

end Containers.TrackedQueue
