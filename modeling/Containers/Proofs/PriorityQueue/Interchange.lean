import Containers.Proofs.Heap.Reachable
import Containers.Proofs.History

/-!
# One queue for another

A queue over plain slots is built, changed and cleared by definitions of its own, and so is a queue over a
locked heap.  Yet whoever asks cannot tell which of them answers.  Of each call there are three things to
see, its answer or fault, the array it leaves and what the swap hook was told on the way (`Sight`), and
all three are those of a bare array heap (`PriorityQueue.history_watched`).  A fault is no exception: what a
push leaves behind when it faults is what all later calls start from.

The hook is a parameter, and it may write down whatever it is told.  So to hear the same is to be told of the
same slots and to be shown the same arrays, in the same order.
-/

set_option autoImplicit false

namespace Containers

open Heap (SwapHook)

variable {α ε : Type}

/-- What there is to see of a call. -/
structure Sight (α ε : Type) where
  /-- The answer, or the fault that cut the call short. -/
  answer : Except Fault (Reply α)
  /-- The elements after the call, slot by slot. -/
  items : Array α
  /-- What the hook was told during the call, in order. -/
  told : Array ε

/-- Puts a call to an array heap and watches it. -/
def ArrayHeap.watched (c : IndexedCall α) (h : ArrayHeap α ε) : Sight α ε × ArrayHeap α ε :=
  (⟨(h.run c).answer, (h.run c).state.items, (h.run c).log⟩, (h.run c).state)

namespace PriorityQueue

/-- Puts a call to a queue and watches it. -/
def watched (c : IndexedCall α) (q : PriorityQueue α ε) : Sight α ε × PriorityQueue α ε :=
  (⟨(q.run c).answer, (q.run c).state.toArray, (q.run c).log⟩, (q.run c).state)

/-- Attaches a swap hook, if there is one to attach. -/
def attach (hook : Option (SwapHook α ε)) (q : PriorityQueue α ε) : PriorityQueue α ε :=
  match hook with
  | none => q
  | some hook => q.withOnSwap hook

/-- Of a call on a queue there is to see what the array heap without the wrapping shows. -/
theorem watched_view (c : IndexedCall α) (q : PriorityQueue α ε) :
    (q.watched c).1 = (q.view.watched c).1 ∧ (q.watched c).2.view = (q.view.watched c).2 := by
  have hview := q.view_run c
  have hstate : (q.run c).state.view = (q.view.run c).state := congrArg Outcome.state hview
  have hanswer : (q.run c).answer = (q.view.run c).answer := congrArg Outcome.answer hview
  have hlog : (q.run c).log = (q.view.run c).log := congrArg Outcome.log hview
  refine ⟨?_, hstate⟩
  rw [watched, ArrayHeap.watched, toArray_eq_view, hstate, hanswer, hlog]

theorem history_watched (cs : List (IndexedCall α)) (q : PriorityQueue α ε) :
    history watched cs q = history ArrayHeap.watched cs q.view := by
  refine history_eq (R := fun q h => q.view = h) ?_ cs rfl
  rintro c q _ rfl
  exact q.watched_view c

/-! ## New queues -/

theorem view_ofArray (kind : PriorityQueueKind) (items : Array α) (less : Priority α) :
    (ofArray kind items less : PriorityQueue α ε).view = .ofArray items less := by
  cases kind <;> rfl

/-- Over plain slots, to build an empty queue is to put no elements in order. -/
theorem view_empty (kind : PriorityQueueKind) (less : Priority α) :
    (empty kind less : PriorityQueue α ε).view = .empty less := by
  cases kind with
  | locked lock => rfl
  | slots =>
    have hview : (empty .slots less : PriorityQueue α ε).view = .ofArray #[] less :=
      view_ofArray .slots #[] less
    have hitems : (ArrayHeap.ofArray #[] less : ArrayHeap α ε).items = #[] :=
      Array.eq_empty_of_size_eq_zero (Heap.size_heapify _ _)
    rw [hview]
    exact congrArg (fun items => (⟨items, less, none⟩ : ArrayHeap α ε)) hitems

theorem view_attach (hook : Option (SwapHook α ε)) (q : PriorityQueue α ε) :
    (q.attach hook).view = ⟨q.view.items, q.view.less, hook.or q.view.onSwap⟩ := by
  cases hook with
  | none => rfl
  | some hook => exact q.view_withOnSwap hook

/-- **Queues of all kinds show the same of every history**: the same answers and faults, the same arrays
and the same reports to the hook, whatever the priority is, whether they were built without elements or
of the same ones, and whether the same hook is attached to them or none. -/
theorem history_watched_eq (kind kind' : PriorityQueueKind) (less : Priority α)
    (hook : Option (SwapHook α ε)) (items : Array α) (cs : List (IndexedCall α)) :
    history watched cs ((empty kind less).attach hook) =
        history watched cs ((empty kind' less).attach hook) ∧
      history watched cs ((ofArray kind items less).attach hook) =
        history watched cs ((ofArray kind' items less).attach hook) := by
  constructor
  · rw [history_watched, history_watched, view_attach, view_attach, view_empty, view_empty]
  · rw [history_watched, history_watched, view_attach, view_attach, view_ofArray, view_ofArray]

end PriorityQueue

end Containers
