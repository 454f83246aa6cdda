import Containers.Queue.ArrayQueue

/-!
# What a queue holds

`ArrayQueue.Holds q xs` says that the elements waiting in `q` are `xs`, front to back, and that the
slots look as they should: the consumed ones are empty and the others are not.  It is true of a new
queue, and every operation does to the slots what the same operation on a plain list does to `xs`.

Compaction is the point: it replaces the slots and leaves `xs` alone, so nobody who asks through the
operations can tell whether it has happened.
-/

set_option autoImplicit false

namespace Containers.ArrayQueue

variable {α : Type}

/-- The elements waiting are `xs`; consumed slots are empty, and no other slot is. -/
def Holds (q : ArrayQueue α) (xs : List α) : Prop :=
  q.items.toList = List.replicate q.head none ++ xs.map some

theorem holds_empty : (empty : ArrayQueue α).Holds [] := rfl

theorem holds_ofArray (items : Array α) : (ofArray items).Holds items.toList :=
  Array.toList_map

theorem holds_clear (q : ArrayQueue α) : q.clear.Holds [] := rfl

namespace Holds

variable {q : ArrayQueue α} {xs : List α}

/-- The array has a slot for every consumed and every waiting element. -/
theorem size_items (h : q.Holds xs) : q.items.size = q.head + xs.length := by
  rw [← Array.length_toList, h, List.length_append, List.length_replicate, List.length_map]

theorem size_eq (h : q.Holds xs) : q.size = xs.length := by
  rw [size, h.size_items, Nat.add_sub_cancel_left]

/-- The waiting elements are in the slots from the head on. -/
theorem getElem?_items (h : q.Holds xs) (i : Nat) :
    q.items[q.head + i]? = xs[i]?.map some := by
  rw [← Array.getElem?_toList, h, List.getElem?_append_right (by rw [List.length_replicate]; omega),
    List.length_replicate, Nat.add_sub_cancel_left, List.getElem?_map]

theorem peek_eq (h : q.Holds xs) : q.peek = xs.head? := by
  have h₀ := h.getElem?_items 0
  rw [Nat.add_zero] at h₀
  rw [peek, h₀, ← List.head?_eq_getElem?]
  cases xs.head? <;> rfl

theorem toArray_eq (h : q.Holds xs) : q.toArray = xs.toArray := by
  apply Array.toList_inj.1
  rw [toArray, Array.toList_filterMap, Array.toList_extract, List.extract, h,
    List.drop_left' (List.length_replicate ..), h.size_items, Nat.add_sub_cancel_left,
    List.take_of_length_le (Nat.le_of_eq (List.length_map ..)), List.filterMap_map]
  exact List.filterMap_some

theorem push (h : q.Holds xs) (x : α) : (q.push x).Holds (xs ++ [x]) := by
  show (q.items.push (some x)).toList = _
  rw [Array.toList_push, h, List.map_append, List.append_assoc]
  rfl

theorem extend (h : q.Holds xs) (ys : List α) : (q.extend ys).Holds (xs ++ ys) := by
  induction ys generalizing q xs with
  | nil => rw [List.append_nil]; exact h
  | cons y ys ih =>
    have := ih (h.push y)
    rw [List.append_assoc] at this
    exact this

/-- Compaction replaces the slots and keeps the elements. -/
theorem compact (h : q.Holds xs) : q.compact.state.Holds xs := by
  show (q.items.extract q.head q.items.size).toList = _
  rw [Array.toList_extract, List.extract, h, List.drop_left' (List.length_replicate ..),
    h.size_items, Nat.add_sub_cancel_left,
    List.take_of_length_le (Nat.le_of_eq (List.length_map ..))]
  rfl

/-- There is nothing to take from an empty queue. -/
theorem pop_nil (h : q.Holds []) : q.pop = .done q none := by
  have h₀ := h.getElem?_items 0
  rw [Nat.add_zero] at h₀
  rw [pop, h₀]
  rfl

/-- Emptying the slot at the front and moving the mark takes the first element. -/
theorem tail {x : α} (h : q.Holds (x :: xs)) :
    Holds ⟨q.items.setIfInBounds q.head none, q.head + 1⟩ xs := by
  show (q.items.setIfInBounds q.head none).toList = List.replicate (q.head + 1) none ++ xs.map some
  rw [Array.toList_setIfInBounds, h,
    List.set_append_right _ _ (Nat.le_of_eq (List.length_replicate ..)), List.length_replicate,
    Nat.sub_self, List.replicate_succ', List.append_assoc]
  rfl

/-- Taking hands out the first element, and then compaction happens if it is due. -/
theorem pop_cons {x : α} (h : q.Holds (x :: xs)) :
    q.pop =
      let taken : ArrayQueue α := ⟨q.items.setIfInBounds q.head none, q.head + 1⟩
      if taken.compactionDue then taken.compact.map fun _ => some x else .done taken (some x) := by
  have h₀ := h.getElem?_items 0
  rw [Nat.add_zero] at h₀
  rw [pop, h₀]
  rfl

theorem answer_pop {x : α} (h : q.Holds (x :: xs)) : q.pop.answer = .ok (some x) := by
  rw [h.pop_cons]
  dsimp only
  split <;> rfl

theorem state_pop {x : α} (h : q.Holds (x :: xs)) : q.pop.state.Holds xs := by
  rw [h.pop_cons]
  dsimp only
  split
  · exact h.tail.compact
  · exact h.tail

end Holds

end Containers.ArrayQueue
