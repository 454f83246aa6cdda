import Containers.Proofs.History
import Containers.Queue.Contents
import Containers.Queue.Locked

/-!
# The room a queue takes

A queue leaves the slots it has consumed in its array and gives them back when compaction is due.  The
test is made after every element taken, and only then: adding elements makes the array longer, and so
brings compaction no nearer.  So between calls compaction is never due (`Tidy`), and this bounds the
array by the number of waiting elements.

`LockedQueue.wellKept_after` says what the slots look like after any history of calls, and how many there
are.
-/

set_option autoImplicit false

namespace Containers

variable {α : Type}

namespace ArrayQueue

/-- The slots of a queue and their number, as they should be. -/
structure WellKept (q : ArrayQueue α) : Prop where
  /-- The mark is not beyond the array. -/
  head_le : q.head ≤ q.items.size
  /-- Slots below the mark are empty. -/
  emptied : ∀ i, i < q.head → q.items[i]? = some none
  /-- All other slots hold an element. -/
  occupied : ∀ i, q.head ≤ i → i < q.items.size → ∃ x, q.items[i]? = some (some x)
  /-- The consumed slots are few, or fewer than half of the array. -/
  consumed : q.head ≤ 64 ∨ 2 * q.head < q.items.size
  /-- The number of waiting elements is the difference of the two, with nothing cut off. -/
  size_add_head : q.size + q.head = q.items.size
  /-- The array has room for the waiting elements and not much more. -/
  size_items_le : q.items.size ≤ q.size + max 64 (q.size - 1)

theorem compactionDue_eq_false_iff {q : ArrayQueue α} :
    q.compactionDue = false ↔ q.head ≤ 64 ∨ 2 * q.head < q.items.size := by
  rw [compactionDue, Bool.and_eq_false_iff, decide_eq_false_iff_not, decide_eq_false_iff_not,
    compactionThreshold]
  omega

/-- The waiting elements are `xs`, and it is not the time for them to move. -/
structure Tidy (q : ArrayQueue α) (xs : List α) : Prop where
  /-- The elements are in their slots. -/
  holds : q.Holds xs
  /-- Consumed slots are not given back now. -/
  not_due : q.compactionDue = false

theorem tidy_empty : (empty : ArrayQueue α).Tidy [] := ⟨holds_empty, rfl⟩

theorem tidy_ofArray (items : Array α) : (ofArray items).Tidy items.toList :=
  ⟨holds_ofArray items, rfl⟩

namespace Tidy

variable {q : ArrayQueue α} {xs : List α}

/-- A longer array puts compaction off. -/
theorem push (h : q.Tidy xs) (x : α) : (q.push x).Tidy (xs ++ [x]) := by
  refine ⟨h.holds.push x, ?_⟩
  have hsize : (q.push x).items.size = q.items.size + 1 := Array.size_push _
  have hhead : (q.push x).head = q.head := rfl
  have hdue := compactionDue_eq_false_iff.1 h.not_due
  rw [compactionDue_eq_false_iff, hsize, hhead]
  omega

theorem extend (h : q.Tidy xs) (ys : List α) : (q.extend ys).Tidy (xs ++ ys) := by
  induction ys generalizing q xs with
  | nil => rwa [List.append_nil]
  | cons y ys ih =>
    have hrest := ih (h.push y)
    rwa [List.append_assoc] at hrest

/-- After an element was taken compaction was not due, or else it has happened. -/
theorem pop (h : q.Tidy xs) : q.pop.state.Tidy xs.tail := by
  cases xs with
  | nil =>
    rw [h.holds.pop_nil]
    exact h
  | cons x xs =>
    refine ⟨h.holds.state_pop, ?_⟩
    rw [h.holds.pop_cons]
    dsimp only
    split
    · rfl
    · rename_i hdue
      exact Bool.eq_false_iff.2 hdue

theorem wellKept (h : q.Tidy xs) : q.WellKept := by
  have hitems := h.holds.size_items
  have hsize := h.holds.size_eq
  have hconsumed := compactionDue_eq_false_iff.1 h.not_due
  refine ⟨by omega, fun i hi => ?_, fun i hi hlt => ?_, hconsumed, by omega, by omega⟩
  · rw [← Array.getElem?_toList, h.holds, List.getElem?_append_left (by simpa using hi),
      List.getElem?_replicate, if_pos hi]
  · obtain ⟨k, rfl⟩ := Nat.exists_eq_add_of_le hi
    have hk : k < xs.length := by omega
    exact ⟨xs[k], by rw [h.holds.getElem?_items, List.getElem?_eq_getElem hk, Option.map_some]⟩

end Tidy

end ArrayQueue

namespace LockedQueue

theorem tidy_run (c : Call α) {q : LockedQueue α} (h : ∃ xs, q.guarded.contents.Tidy xs) :
    ∃ xs, (q.run c).state.guarded.contents.Tidy xs := by
  obtain ⟨xs, h⟩ := h
  cases c with
  | push x => exact ⟨_, h.push x⟩
  | extend ys =>
    cases ys with
    | nil => exact ⟨_, h⟩
    | cons y ys => exact ⟨_, h.extend (y :: ys)⟩
  | pop => exact ⟨_, h.pop⟩
  | clear => exact ⟨_, ArrayQueue.tidy_empty⟩
  | peek | size | isEmpty | toArray => exact ⟨_, h⟩

/-- **Every history leaves the slots of a queue well kept**: consumed ones empty, the others not, and no
more of them than the waiting elements account for. -/
theorem wellKept_after (kind : LockKind) (items : Array α) (cs : List (Call α)) :
    (after run cs (.empty kind : LockedQueue α)).guarded.contents.WellKept ∧
      (after run cs (.ofArray kind items)).guarded.contents.WellKept := by
  have step : ∀ (c : Call α) (q : LockedQueue α), (∃ xs, q.guarded.contents.Tidy xs) →
      ∃ xs, (q.run c).state.guarded.contents.Tidy xs := fun c _ h => tidy_run c h
  obtain ⟨_, hempty⟩ := after_invariant step cs (s := .empty kind) ⟨_, ArrayQueue.tidy_empty⟩
  obtain ⟨_, hitems⟩ :=
    after_invariant step cs (s := .ofArray kind items) ⟨_, ArrayQueue.tidy_ofArray items⟩
  exact ⟨hempty.wellKept, hitems.wellKept⟩

end LockedQueue

end Containers
