import Containers.Proofs.Heap.Faults
import Containers.Proofs.History

/-!
# The element at the root

There are two ways to take the element at the root: `pop` asks for it, and `remove` is told the number of its
slot.  They are written differently.  One asks how many slots there are and the other whether the slot is the last
one; one sifts down unless nothing is left, and the other leaves the matter to a repair, which would sift up if
nothing had moved.  No answer of the priority brings out a difference (`pop_eq_remove`), and what is done by
either can be listed (`rootTaken`): one exchange if there are two slots at least, the drop, and a downward sift.

So nobody can tell them apart, be it at once or later.  In a history of calls on a queue every pop may be
replaced by a removal of slot `0`.
-/

set_option autoImplicit false

namespace Containers

open Heap (Rules Storage Access)

variable {α ε : Type}

/-! ## What is done -/

namespace Heap

variable {r : Rules α ε} {less : Priority α} {log : Array ε} {s : Storage α ε}

/-! A downward sift goes on with any log. -/

theorem preferredChild_following (len node : Nat) :
    preferredChild r len node (s.following log) =
      ((preferredChild r len node s).1, (preferredChild r len node s).2.following log) := by
  rw [preferredChild, preferredChild, compareAt_following]
  dsimp only
  split <;> rfl

theorem descend_following (len node : Nat) :
    descend r len node (s.following log) =
      ((descend r len node s).1, (descend r len node s).2.following log) := by
  fun_induction descend r len node s with
  | case1 node s hleft best outranks hlt ih =>
    rw [descend, if_pos hleft, preferredChild_following]
    dsimp only
    rw [compareAt_following, if_pos hlt, swapAt_following]
    exact ih
  | case2 node s hleft best outranks hlt =>
    rw [descend, if_pos hleft, preferredChild_following]
    dsimp only
    rw [compareAt_following]
    exact if_neg hlt
  | case3 node s hleft => rw [descend, if_neg hleft]

theorem siftDown_following (start : Nat) :
    siftDown r start (s.following log) =
      ((siftDown r start s).1, (siftDown r start s).2.following log) := by
  rw [siftDown, descend_following]
  rfl

/-- A repair at the root is a downward sift, also of an array without a root. -/
theorem fix_root (r : Rules α ε) (s : Storage α ε) : fix r 0 s = (siftDown r 0 s).2 := by
  rw [fix_zero]
  split
  · rename_i hzero
    rw [siftDown, descend, if_neg (by omega)]
  · rfl

/-- What is done to take the element at the root: it is exchanged for the last one, unless it is the last one,
and dropped, and the one that has taken its place sinks. -/
def rootTaken (less : Priority α) (items : Array α) : List (Access α) :=
  if items.size = 0 then []
  else
    (if 1 < items.size then [.swap 0 (items.size - 1)] else []) ++
      .drop :: (siftDown (recording less) 0 (.ofArray (vacate items 0))).2.log.toList

theorem log_depart_root (less : Priority α) (s : Storage α (Access α)) :
    (depart (recording less) 0 s).log.toList =
      s.log.toList ++ ((if 1 < s.size then [.swap 0 (s.size - 1)] else []) ++ [.drop]) := by
  rw [depart]
  by_cases hone : 1 < s.size
  · rw [if_pos hone, if_neg (by omega)]
    show ((s.log.push (.swap 0 (s.size - 1))).push .drop).toList = _
    rw [Array.toList_push, Array.toList_push, List.append_assoc]
  · rw [if_neg hone, if_pos (by omega)]
    exact Array.toList_push ..

theorem log_remove_root (less : Priority α) (s : Storage α (Access α)) :
    (remove (recording less) 0 s).2.log.toList = s.log.toList ++ rootTaken less s.items := by
  by_cases hzero : s.items.size = 0
  · rw [remove_of_size_le _ (Nat.le_of_eq hzero), rootTaken, if_pos hzero, List.append_nil]
  · have hpos : 0 < s.size := Nat.pos_of_ne_zero hzero
    -- what is left begins a log of its own, which comes after what has been done
    have hleft : depart (recording less) 0 s =
        (Storage.ofArray (vacate s.items 0)).following (depart (recording less) 0 s).log := by
      rw [Storage.following_ofArray, ← items_depart]
    rw [remove_snd _ hpos, fix_root, hleft, siftDown_following, rootTaken,
      if_neg hzero]
    show ((depart (recording less) 0 s).log ++ _).toList = _
    rw [Array.toList_append, log_depart_root, List.append_assoc, List.append_assoc]
    rfl

end Heap

/-! ## Naming the root -/

/-- The same call, but the root is named by the number of its slot. -/
def IndexedCall.namingRoot : IndexedCall α → IndexedCall α
  | .plain .pop => .removeAt 0
  | c => c

theorem ArrayHeap.removeAt_zero : (removeAt 0 : ArrayHeap α ε → _) = pop := by
  funext a
  simp only [removeAt, pop, Heap.pop_eq_remove]

theorem SlotPriorityQueue.removeAt_zero (q : SlotPriorityQueue α ε) : q.removeAt 0 = q.pop := by
  simp only [removeAt, pop, Heap.pop_eq_remove]

namespace PriorityQueue

theorem run_namingRoot (c : IndexedCall α) (q : PriorityQueue α ε) : q.run c.namingRoot = q.run c := by
  cases c with
  | plain c =>
    cases c with
    | pop =>
      cases q with
      | locked q =>
        rw [IndexedCall.namingRoot, run, LockedPriorityQueue.run, LockedPriorityQueue.removeAt,
          ArrayHeap.removeAt_zero]
        rfl
      | slots q =>
        rw [IndexedCall.namingRoot, run, SlotPriorityQueue.run, SlotPriorityQueue.removeAt_zero]
        rfl
    | _ => rfl
  | _ => rfl

theorem steps_namingRoot (cs : List (IndexedCall α)) (q : PriorityQueue α ε) :
    steps run (cs.map IndexedCall.namingRoot) q =
      (steps run cs q).map fun p => (p.1.namingRoot, p.2) := by
  induction cs generalizing q with
  | nil => rfl
  | cons c cs ih => rw [List.map_cons, steps, run_namingRoot, ih, steps, List.map_cons]

/-- **To take the root and to remove slot `0` cannot be told apart**, whatever the priority answers and whatever
order the elements are in.  The answer is the same, and so are the elements that are left and all that is done
on the way.  On a queue the same goes for every history: its calls leave the same queues, give the same answers
and tell the hook the same, one by one. -/
theorem pop_indistinguishable (less : Priority α) :
    (∀ s : Storage α (Access α),
      (Heap.pop (Heap.recording less) s).1 = (Heap.remove (Heap.recording less) 0 s).1 ∧
      (Heap.pop (Heap.recording less) s).2.items = (Heap.remove (Heap.recording less) 0 s).2.items ∧
      (Heap.pop (Heap.recording less) s).2.log = (Heap.remove (Heap.recording less) 0 s).2.log ∧
      (Heap.pop (Heap.recording less) s).2.log.toList = s.log.toList ++ Heap.rootTaken less s.items) ∧
    ∀ (cs : List (IndexedCall α)) (q : PriorityQueue α ε),
      (steps run (cs.map IndexedCall.namingRoot) q).map Prod.snd = (steps run cs q).map Prod.snd := by
  refine ⟨fun s => ?_, fun cs q => ?_⟩
  · rw [Heap.pop_eq_remove]
    exact ⟨rfl, rfl, rfl, Heap.log_remove_root less s⟩
  · rw [steps_namingRoot, List.map_map]
    rfl

/-- In an array that is no heap the last element goes to the root and from there to the end, past elements that
precede everything. -/
example : Heap.rootTaken (fun _ _ => true) #[3, 1, 4, 1, 5] =
    [.swap 0 4, .drop, .compare 2 1 true, .compare 2 0 true, .swap 0 2] := by
  decide +kernel

end PriorityQueue

end Containers
