import Containers.Proofs.History
import Containers.Queue.Contents
import Containers.Queue.Locked

/-!
# First in, first out

A locked queue answers as a plain list would to which elements are appended at the back and from which
they are taken at the front.  The list knows nothing of slots, marks and compaction, so none of these
can be seen in an answer, however long the queue and its history get.

`LockedQueue.ask_fifo` compares one question, with `ArrayQueue.Holds` as the relation between the queue
and the list, and `LockedQueue.history_fifo` compares whole histories.
-/

set_option autoImplicit false

namespace Containers

variable {α : Type}

/-- What can be asked of a queue. -/
inductive QueueQuestion (α : Type) where
  /-- A call. -/
  | call (c : Call α)
  /-- A copy of the elements, to be consumed. -/
  | all

/-- What a queue answers. -/
inductive QueueAnswer (α : Type) where
  /-- The answer to a call, or its fault. -/
  | reply (answer : Except Fault (Reply α))
  /-- A copy of the elements. -/
  | snapshot (s : Snapshot α)

/-- Puts a question to a queue. -/
def LockedQueue.ask : QueueQuestion α → LockedQueue α → QueueAnswer α × LockedQueue α
  | .call c, q => (.reply (q.run c).answer, (q.run c).state)
  | .all, q => (.snapshot q.all, q)

/-- Puts a question to a plain list, whose first element is the front. -/
def fifo : QueueQuestion α → List α → QueueAnswer α × List α
  | .call (.push x), xs => (.reply (.ok .done), xs ++ [x])
  | .call (.extend ys), xs => (.reply (.ok .done), xs ++ ys)
  | .call .pop, xs => (.reply (.ok (.item xs.head?)), xs.tail)
  | .call .peek, xs => (.reply (.ok (.item xs.head?)), xs)
  | .call .size, xs => (.reply (.ok (.count xs.length)), xs)
  | .call .isEmpty, xs => (.reply (.ok (.flag xs.isEmpty)), xs)
  | .call .clear, _ => (.reply (.ok .done), [])
  | .call .toArray, xs => (.reply (.ok (.items xs.toArray)), xs)
  | .all, xs => (.snapshot (.ofArray xs.toArray), xs)

namespace LockedQueue

variable {q : LockedQueue α} {xs : List α}

theorem isEmpty_eq (h : q.guarded.contents.Holds xs) : q.isEmpty = xs.isEmpty := by
  have hsize : q.size = xs.length := h.size_eq
  rw [isEmpty, hsize]
  cases xs <;> rfl

theorem holds_extend (h : q.guarded.contents.Holds xs) (ys : List α) :
    (q.extend ys).guarded.contents.Holds (xs ++ ys) := by
  cases ys with
  | nil => rwa [List.append_nil]
  | cons y ys => exact h.extend (y :: ys)

/-- A pop takes the front of the list, and the queue holds the rest. -/
theorem pop_fifo (h : q.guarded.contents.Holds xs) :
    q.pop.answer = .ok xs.head? ∧ q.pop.state.guarded.contents.Holds xs.tail := by
  cases xs with
  | nil =>
    have hpop : q.pop = .done q none := by
      rw [pop, Locked.call_eq, h.pop_nil]
      rfl
    rw [hpop]
    exact ⟨rfl, h⟩
  | cons x xs => exact ⟨h.answer_pop, h.state_pop⟩

/-- A question is answered as the list answers it, and the queue holds what the list becomes. -/
theorem ask_fifo (c : QueueQuestion α) (h : q.guarded.contents.Holds xs) :
    (q.ask c).1 = (fifo c xs).1 ∧ (q.ask c).2.guarded.contents.Holds (fifo c xs).2 := by
  cases c with
  | all =>
    have htoArray : q.toArray = xs.toArray := h.toArray_eq
    exact ⟨congrArg (fun items => QueueAnswer.snapshot (.ofArray items)) htoArray, h⟩
  | call c =>
    cases c with
    | push x => exact ⟨rfl, h.push x⟩
    | extend ys => exact ⟨rfl, holds_extend h ys⟩
    | pop =>
      obtain ⟨hanswer, hstate⟩ := pop_fifo h
      refine ⟨?_, hstate⟩
      show QueueAnswer.reply (q.pop.answer.map .item) = _
      rw [hanswer]
      rfl
    | peek =>
      have hpeek : q.peek = xs.head? := h.peek_eq
      exact ⟨congrArg (fun x => QueueAnswer.reply (.ok (.item x))) hpeek, h⟩
    | size =>
      have hsize : q.size = xs.length := h.size_eq
      exact ⟨congrArg (fun n => QueueAnswer.reply (.ok (.count n))) hsize, h⟩
    | isEmpty => exact ⟨congrArg (fun b => QueueAnswer.reply (.ok (.flag b))) (isEmpty_eq h), h⟩
    | clear => exact ⟨rfl, ArrayQueue.holds_clear q.guarded.contents⟩
    | toArray =>
      have htoArray : q.toArray = xs.toArray := h.toArray_eq
      exact ⟨congrArg (fun items => QueueAnswer.reply (.ok (.items items))) htoArray, h⟩

/-- **A queue is a plain list**: it answers every history of questions as the list of its elements
does, whichever lock it has and whichever way it was built. -/
theorem history_fifo (kind : LockKind) (items : Array α) (cs : List (QueueQuestion α)) :
    history ask cs (.empty kind) = history fifo cs [] ∧
      history ask cs (.ofArray kind items) = history fifo cs items.toList := by
  have step : ∀ (c : QueueQuestion α) (q : LockedQueue α) (xs : List α),
      q.guarded.contents.Holds xs → (q.ask c).1 = (fifo c xs).1 ∧
        (q.ask c).2.guarded.contents.Holds (fifo c xs).2 := fun c _ _ h => ask_fifo c h
  exact ⟨history_eq step cs ArrayQueue.holds_empty, history_eq step cs (ArrayQueue.holds_ofArray items)⟩

end LockedQueue

end Containers
