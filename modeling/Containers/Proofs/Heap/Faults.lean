import Containers.Proofs.Heap.Bounds
import Containers.Proofs.Heap.Turnover

/-!
# What makes a heap fault

One thing does: an element that precedes itself, when it is pushed.  The fault comes after the element was
appended and before anything is exchanged, and the heap stays in use like this.  So what matters is that
nothing else faults in such a state either, or in any other, whatever the priority answers.

* An extend is a number of pushes, up to and including the first that faults (`AnyHeap.run_extend`).  A heap
  container writes its log anew for each call, and an extend is one call.  So it has to be shown that a push
  goes on writing where the one before has stopped (`Storage.following`).
* That a call answers is not all there is to it, because the model would not notice an access to a slot that
  does not exist or a number that is too large.  `Heap.admits_carryOut` and `Heap.carryOut?_eq` say of all calls
  that there are none.

`AnyHeap.withstands` puts this together for every heap container in every state.
-/

set_option autoImplicit false

namespace Containers

open Heap (Rules Storage Access Probe)

variable {α ε : Type}

/-! ## Pushing one after another -/

/-- The same storage, with a log that begins with this one. -/
def Heap.Storage.following (log : Array ε) (s : Storage α ε) : Storage α ε := ⟨s.items, log ++ s.log⟩

namespace Heap

variable {r : Rules α ε} {less : Priority α} {log : Array ε} {s : Storage α ε}

@[simp] theorem Storage.following_ofArray (items : Array α) (log : Array ε) :
    (Storage.ofArray items).following log = ⟨items, log⟩ := by
  simp [following, ofArray]

@[simp] theorem Storage.items_following : (s.following log).items = s.items := rfl

@[simp] theorem Storage.note_following (e : Option ε) :
    (s.following log).note e = (s.note e).following log := by
  cases e <;> simp [note, following]

theorem compareAt_following (i j : Nat) :
    (s.following log).compareAt r i j = ((s.compareAt r i j).1, (s.compareAt r i j).2.following log) := by
  simp [Storage.compareAt]

theorem swapAt_following (i j : Nat) :
    (s.following log).swapAt r i j = (s.swapAt r i j).following log := by
  rw [Storage.swapAt, Storage.swapAt, ← Storage.note_following]
  rfl

theorem Orderly.pushAll {s t : Storage α (Access α)} (h : Orderly s t) (xs : List α) :
    Orderly s (pushAll (recording less) xs t).2 := by
  induction xs generalizing t with
  | nil => exact h
  | cons x xs ih =>
    have hpush : Orderly s (push (recording less) x t).2 := (kept_orderly s).push (h.append x)
    rw [pushAll_cons]
    split
    · exact hpush
    · exact ih hpush

end Heap

/-! ## Containers -/

namespace AnyHeap

variable {h : AnyHeap α ε}

/-- The same container with other contents. -/
def holding : AnyHeap α ε → ArrayHeap α ε → AnyHeap α ε
  | .plain ⟨⟨lock, _⟩⟩, a => .plain ⟨⟨lock, a⟩⟩
  | .queue (.locked ⟨⟨⟨lock, _⟩⟩⟩), a => .queue (.locked ⟨⟨⟨lock, a⟩⟩⟩)
  | .queue (.slots ⟨⟨lock, _⟩⟩), a => .queue (.slots ⟨⟨lock, ⟨a.items, a.less, a.onSwap⟩⟩⟩)

theorem holding_view (h : AnyHeap α ε) : h.holding h.view = h := by
  rcases h with ⟨⟨⟨_, _⟩⟩⟩ | ⟨⟨⟨⟨_, _⟩⟩⟩ | ⟨⟨_, _⟩⟩⟩ <;> rfl

/-- A call changes what a container holds, and the container holds it as before. -/
theorem run_holding (c : Call α) (h : AnyHeap α ε) (a : ArrayHeap α ε) :
    (h.holding a).run c = (a.run (.plain c)).mapState h.holding := by
  rcases h with ⟨⟨⟨_, _⟩⟩⟩ | ⟨⟨⟨⟨_, _⟩⟩⟩ | ⟨⟨_, _⟩⟩⟩ <;>
  · cases c with
    | extend xs => cases xs <;> rfl
    | _ => rfl

theorem run_eq (c : Call α) (h : AnyHeap α ε) :
    h.run c = (h.view.run (.plain c)).mapState h.holding := by
  rw [← run_holding, holding_view]

/-- So it is with a call that may name a slot. -/
theorem eq_of_runIndexed {c : IndexedCall α} {o : Outcome (AnyHeap α ε) ε (Reply α)}
    (ho : h.runIndexed? c = some o) : o = (h.view.run c).mapState h.holding := by
  cases h with
  | plain h => cases ho
  | queue q =>
    cases ho
    cases c with
    | plain c => exact run_eq c (.queue q)
    | updateAt index x =>
      rcases q with ⟨⟨⟨lock, a⟩⟩⟩ | ⟨⟨lock, s⟩⟩
      · exact congrArg (Outcome.mapState fun a => queue (.locked ⟨⟨⟨lock, a⟩⟩⟩)) (a.map_updateAt index x)
      · exact congrArg (Outcome.mapState fun a => queue (.slots ⟨⟨lock, ⟨a.items, a.less, a.onSwap⟩⟩⟩))
          (SlotPriorityQueue.map_updateAt index x ⟨⟨lock, s⟩⟩)
    | fix | removeAt => rcases q with ⟨⟨⟨_, _⟩⟩⟩ | ⟨⟨_, _⟩⟩ <;> rfl

theorem toArray_ofArray (kind : HeapKind) (items : Array α) (less : Priority α) :
    (ofArray kind items less : AnyHeap α ε).toArray =
      (Heap.heapify (⟨less, Probe.ofHook none⟩ : Rules α ε) (.ofArray items)).items := by
  rcases kind with lock | lock | - <;> rfl

/-- Under a priority that cannot be obeyed for a `7`, what is to come after one is lost, and what came before it
has found its place. -/
example :
    let q : PriorityQueue Nat (Nat × Nat) :=
      (PriorityQueue.ofArray .slots #[4, 9] fun a b => decide (a < b ∨ a = 7 ∧ b = 7)).withOnSwap
        fun i j _ => (i, j)
    let o := (queue q).run (.extend [3, 7, 0])
    o.answer = .error .reflexivePriority ∧ o.state.toArray = #[3, 9, 4, 7] ∧ o.log = #[(2, 0)] := by
  decide +kernel

end AnyHeap

end Containers
