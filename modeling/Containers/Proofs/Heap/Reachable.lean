import Containers.Heap.Any

/-!
# Histories of heaps

There are five kinds of heap container and they all do the same.  What that is, is written down once,
on bare storage: `Heap.carryOut` answers any call.  `AnyHeap.view` forgets the locks and the wrapping
of a container, and `AnyHeap.view_run` says that a container answers, changes and tells its hook what
`carryOut` says.

`AnyHeap.Reachable` holds of the containers that some history of calls leads to.  What every call keeps
is true of all of them (`AnyHeap.Reachable.invariant`), and to be kept by every call is a matter of
`carryOut` alone.
-/

set_option autoImplicit false

namespace Containers

open Heap (SwapHook Rules Storage Probe)

variable {α ε : Type}

/-! ## One definition of every call -/

@[simp] theorem Heap.Storage.size_ofArray (items : Array α) :
    (Storage.ofArray items : Storage α ε).size = items.size := rfl

/-- Carries out a call on bare storage. -/
def Heap.carryOut (r : Rules α ε) :
    IndexedCall α → Storage α ε → Except Fault (Reply α) × Storage α ε
  | .plain (.push x), s => ((push r x s).1.map fun _ => .done, (push r x s).2)
  | .plain (.extend xs), s => ((pushAll r xs s).1.map fun _ => .done, (pushAll r xs s).2)
  | .plain .pop, s => (.ok (.item (pop r s).1), (pop r s).2)
  | .plain .peek, s => (.ok (.item s.items[0]?), s)
  | .plain .size, s => (.ok (.count s.size), s)
  | .plain .isEmpty, s => (.ok (.flag (s.size == 0)), s)
  | .plain .clear, s => (.ok .done, ⟨#[], s.log⟩)
  | .plain .toArray, s => (.ok (.items s.items), s)
  | .fix index, s => (.ok .done, fix r index s)
  | .removeAt index, s => (.ok (.item (remove r index s).1), (remove r index s).2)
  | .updateAt index x, s =>
    if index < s.size then (.ok (.flag true), fix r index (s.set index x))
    else (.ok (.flag false), s)

/-- Takes elements back from an algorithm. -/
def ArrayHeap.takeBack {β : Type} (h : ArrayHeap α ε) (done : Except Fault β × Storage α ε) :
    Outcome (ArrayHeap α ε) ε β :=
  ⟨⟨done.2.items, h.less, h.onSwap⟩, done.1, done.2.log⟩

/-- Puts a call to an array heap. -/
def ArrayHeap.run (c : IndexedCall α) (h : ArrayHeap α ε) : Outcome (ArrayHeap α ε) ε (Reply α) :=
  h.takeBack (Heap.carryOut h.rules c (Storage.ofArray h.items))

/-! ## Containers without their wrapping -/

/-- What a locked heap guards. -/
def LockedHeap.view (h : LockedHeap α ε) : ArrayHeap α ε := h.guarded.contents

/-- What a queue over plain slots guards, as a heap. -/
def SlotPriorityQueue.view (q : SlotPriorityQueue α ε) : ArrayHeap α ε :=
  ⟨q.slots.contents.items, q.slots.contents.less, q.slots.contents.onSwap⟩

/-- What a priority queue guards. -/
def PriorityQueue.view : PriorityQueue α ε → ArrayHeap α ε
  | .locked q => q.heap.view
  | .slots q => q.view

/-- What a heap container guards. -/
def AnyHeap.view : AnyHeap α ε → ArrayHeap α ε
  | .plain h => h.view
  | .queue q => q.view

theorem LockedHeap.view_run (c : Call α) (h : LockedHeap α ε) :
    (h.run c).mapState view = h.view.run (.plain c) := by
  cases c with
  | extend xs => cases xs <;> rfl
  | _ => rfl

theorem ArrayHeap.map_updateAt (index : Nat) (x : α) (h : ArrayHeap α ε) :
    (h.updateAt index x).map .flag = h.run (.updateAt index x) := by
  rw [updateAt, run, Heap.carryOut, Storage.size_ofArray]
  by_cases hi : index < h.items.size
  · rw [if_pos hi, if_pos hi]
    rfl
  · rw [if_neg hi, if_neg hi]
    rfl

theorem SlotPriorityQueue.map_updateAt (index : Nat) (x : α) (q : SlotPriorityQueue α ε) :
    ((q.updateAt index x).map .flag).mapState view = q.view.run (.updateAt index x) := by
  rw [ArrayHeap.run, Heap.carryOut, Storage.size_ofArray]
  show (q.view.takeBack (if index < q.view.items.size then
      (.ok true, Heap.fix q.view.rules index ((Storage.ofArray q.view.items).set index x))
    else (.ok false, Storage.ofArray q.view.items))).map Reply.flag = _
  by_cases hi : index < q.view.items.size
  · rw [if_pos hi, if_pos hi]
    rfl
  · rw [if_neg hi, if_neg hi]
    rfl

theorem PriorityQueue.view_run (c : IndexedCall α) (q : PriorityQueue α ε) :
    (q.run c).mapState view = q.view.run c := by
  cases q with
  | locked q =>
    cases c with
    | plain c => exact LockedHeap.view_run c q.heap
    | updateAt index x => exact ArrayHeap.map_updateAt index x q.heap.view
    | _ => rfl
  | slots q =>
    cases c with
    | plain c =>
      cases c with
      | extend xs => cases xs <;> rfl
      | _ => rfl
    | updateAt index x => exact SlotPriorityQueue.map_updateAt index x q
    | _ => rfl

theorem PriorityQueue.toArray_eq_view (q : PriorityQueue α ε) : q.toArray = q.view.items := by
  cases q <;> rfl

theorem PriorityQueue.view_withPriority (less : Priority α) (q : PriorityQueue α ε) :
    (q.withPriority less).view = ⟨q.view.items, less, q.view.onSwap⟩ := by
  cases q <;> rfl

theorem PriorityQueue.view_withOnSwap (hook : SwapHook α ε) (q : PriorityQueue α ε) :
    (q.withOnSwap hook).view = ⟨q.view.items, q.view.less, some hook⟩ := by
  cases q <;> rfl

theorem AnyHeap.view_run (c : Call α) (h : AnyHeap α ε) :
    (h.run c).mapState view = h.view.run (.plain c) := by
  cases h with
  | plain h => exact LockedHeap.view_run c h
  | queue q => exact PriorityQueue.view_run (.plain c) q

theorem AnyHeap.view_state_run (c : Call α) (h : AnyHeap α ε) :
    (h.run c).state.view = (h.view.run (.plain c)).state :=
  congrArg Outcome.state (h.view_run c)

theorem AnyHeap.view_runIndexed {c : IndexedCall α} {h : AnyHeap α ε}
    {o : Outcome (AnyHeap α ε) ε (Reply α)} (ho : h.runIndexed? c = some o) :
    o.mapState view = h.view.run c := by
  cases h with
  | plain h => cases ho
  | queue q =>
    cases ho
    exact PriorityQueue.view_run c q

theorem AnyHeap.toArray_eq_view (h : AnyHeap α ε) : h.toArray = h.view.items := by
  cases h with
  | plain h => rfl
  | queue q => exact q.toArray_eq_view

/-! ## Reachable containers -/

/-- The containers of a kind that some history of calls leads to.  A swap hook may be attached at any
time, and attached again. -/
inductive AnyHeap.Reachable (kind : HeapKind) (less : Priority α) : AnyHeap α ε → Prop
  | empty : Reachable kind less (.empty kind less)
  | ofArray (items : Array α) : Reachable kind less (.ofArray kind items less)
  | withOnSwap (hook : SwapHook α ε) {h h' : AnyHeap α ε} (hr : Reachable kind less h)
      (hh : h.withOnSwap? hook = some h') : Reachable kind less h'
  | run (c : Call α) {h : AnyHeap α ε} (hr : Reachable kind less h) :
      Reachable kind less (h.run c).state
  | runIndexed (c : IndexedCall α) {h : AnyHeap α ε} {o : Outcome (AnyHeap α ε) ε (Reply α)}
      (hr : Reachable kind less h) (ho : h.runIndexed? c = some o) : Reachable kind less o.state

/-- What is true of new containers and kept by `carryOut` is true of every reachable container.  The
priority stays the one that the container was built with. -/
theorem AnyHeap.Reachable.invariant {kind : HeapKind} {less : Priority α} {P : Array α → Prop}
    (empty : P #[])
    (heapify : ∀ (r : Rules α ε) (items : Array α), r.less = less →
      P (Heap.heapify r (Storage.ofArray items)).items)
    (call : ∀ (r : Rules α ε) (c : IndexedCall α) (items : Array α), r.less = less → P items →
      P (Heap.carryOut r c (Storage.ofArray items)).2.items)
    {h : AnyHeap α ε} (hr : Reachable kind less h) : h.view.less = less ∧ P h.view.items := by
  induction hr with
  | empty =>
    rcases kind with lock | lock | -
    · exact ⟨rfl, empty⟩
    · exact ⟨rfl, empty⟩
    · exact ⟨rfl, heapify ⟨less, Probe.ofHook none⟩ #[] rfl⟩
  | ofArray items =>
    have hitems := heapify ⟨less, Probe.ofHook none⟩ items rfl
    rcases kind with lock | lock | - <;> exact ⟨rfl, hitems⟩
  | withOnSwap hook hr hh ih =>
    rename_i h h'
    rcases h with h | q | q <;> cases hh <;> exact ih
  | run c hr ih =>
    rename_i h
    rw [h.view_state_run]
    exact ⟨ih.1, call h.view.rules (.plain c) h.view.items ih.1 ih.2⟩
  | runIndexed c hr ho ih =>
    rename_i h o
    have hview := congrArg Outcome.state (AnyHeap.view_runIndexed ho)
    rw [Outcome.state_mapState] at hview
    rw [hview]
    exact ⟨ih.1, call h.view.rules c h.view.items ih.1 ih.2⟩

end Containers
