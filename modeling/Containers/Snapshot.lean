import Containers.Shape

/-!
# Snapshots

Whole-container reads hand out a copy, and the copy is consumed from both ends.  A `Snapshot` is the
copied array with two marks: what lies between them has not been taken yet.  Taking an element moves
a mark and never touches the array, so that every element is handed out at most once and the two
ends cannot pass each other.

* `Snapshot.next` and `Snapshot.nextBack` take one element from either end.
* `Snapshot.nth` skips elements from the front and takes the one after them.
* `Snapshot.slice` is what remains, in order; the lemmas say what each taking hands out of it and
  what it leaves.
-/

set_option autoImplicit false

namespace Containers

/-- A copy of a container's elements that is being consumed from both ends. -/
structure Snapshot (α : Type) where
  /-- The copied elements. -/
  items : Array α
  /-- How many elements have been taken or skipped at the front. -/
  front : Nat
  /-- Where the elements taken at the back begin. -/
  back : Nat
  front_le_back : front ≤ back
  back_le_size : back ≤ items.size

namespace Snapshot

variable {α : Type}

/-- A fresh copy, nothing taken. -/
def ofArray (items : Array α) : Snapshot α :=
  ⟨items, 0, items.size, Nat.zero_le _, Nat.le_refl _⟩

/-- The copy of an empty container. -/
def empty : Snapshot α := ofArray #[]

instance : Inhabited (Snapshot α) := ⟨empty⟩

/-- How many elements remain. -/
def length (s : Snapshot α) : Nat := s.back - s.front

/-- The least and the greatest number of elements still to come, which are both known exactly. -/
def sizeHint (s : Snapshot α) : Nat × Nat := (s.length, s.length)

/-- The remaining elements in order. -/
def slice (s : Snapshot α) : Array α := s.items.extract s.front s.back

/-- The snapshot with nothing left. -/
def exhausted (s : Snapshot α) : Snapshot α :=
  ⟨s.items, s.back, s.back, Nat.le_refl _, s.back_le_size⟩

/-- Takes the first remaining element. -/
def next (s : Snapshot α) : Option α × Snapshot α :=
  if h : s.front < s.back then
    (s.items[s.front]?,
      ⟨s.items, s.front + 1, s.back, h, s.back_le_size⟩)
  else (none, s)

/-- Takes the last remaining element. -/
def nextBack (s : Snapshot α) : Option α × Snapshot α :=
  if h : s.front < s.back then
    (s.items[s.back - 1]?,
      ⟨s.items, s.front, s.back - 1, by omega, by have := s.back_le_size; omega⟩)
  else (none, s)

/-- Skips `n` elements at the front and takes the next one; with at most `n` elements left, all of
them are skipped and none is taken. -/
def nth (s : Snapshot α) (n : Nat) : Option α × Snapshot α :=
  if h : s.front + n < s.back then
    (s.items[s.front + n]?, ⟨s.items, s.front + n + 1, s.back, h, s.back_le_size⟩)
  else (none, s.exhausted)

/-- Takes all remaining elements, front to back. -/
def takeRest (s : Snapshot α) : Array α × Snapshot α := (s.slice, s.exhausted)

/-- Takes all remaining elements, back to front. -/
def takeRestReversed (s : Snapshot α) : Array α × Snapshot α := (s.slice.reverse, s.exhausted)

/-- How a snapshot shows itself, given how its elements do. -/
def shape (element : α → Shape) (s : Snapshot α) : Shape :=
  .wrapper "Snapshot" (.list (s.slice.toList.map element))

/-! ## What remains -/

@[simp] theorem slice_ofArray (items : Array α) : (ofArray items).slice = items := by
  simp [slice, ofArray]

/-- The length is the number of remaining elements. -/
theorem size_slice (s : Snapshot α) : s.slice.size = s.length := by
  simp only [slice, length, Array.size_extract, Nat.min_eq_left s.back_le_size]

@[simp] theorem slice_exhausted (s : Snapshot α) : s.exhausted.slice = #[] :=
  Array.eq_empty_of_size_eq_zero (by rw [size_slice, length, exhausted, Nat.sub_self])

/-- Place `i` of what remains is place `front + i` of the copy. -/
theorem getElem?_slice (s : Snapshot α) (i : Nat) :
    s.slice[i]? = if s.front + i < s.back then s.items[s.front + i]? else none := by
  have := s.front_le_back
  rw [slice, Array.getElem?_extract, Nat.min_eq_left s.back_le_size]
  by_cases h : s.front + i < s.back
  · rw [if_pos h, if_pos (by omega)]
  · rw [if_neg h, if_neg (by omega)]

/-- Skipping and taking hands out the element at that place in what remains. -/
theorem nth_fst (s : Snapshot α) (n : Nat) : (s.nth n).1 = s.slice[n]? := by
  rw [getElem?_slice, nth]
  split <;> rfl

/-- Skipping and taking leaves what comes after. -/
theorem slice_nth (s : Snapshot α) (n : Nat) : (s.nth n).2.slice = s.slice.extract (n + 1) := by
  have h := s.front_le_back
  rw [size_slice, nth]
  split
  · rw [slice, slice, Array.extract_extract, length, Nat.add_sub_cancel' h, Nat.min_self]
    rfl
  · rw [slice_exhausted]
    exact (Array.extract_eq_empty_iff.2 (by rw [size_slice, length]; omega)).symm

/-- Taking from the front is taking without skipping, as long as something remains. -/
theorem next_eq_nth {s : Snapshot α} (h : s.front < s.back) : s.next = s.nth 0 := by
  rw [next, nth, dif_pos h, dif_pos (by omega)]
  rfl

/-- Taking from the front hands out the first of what remains. -/
theorem next_fst (s : Snapshot α) : s.next.1 = s.slice[0]? := by
  by_cases h : s.front < s.back
  · rw [next_eq_nth h, nth_fst]
  · rw [getElem?_slice, next, dif_neg h, if_neg (by omega)]

/-- Taking from the front leaves all but the first of what remained. -/
theorem slice_next (s : Snapshot α) : s.next.2.slice = s.slice.extract 1 := by
  by_cases h : s.front < s.back
  · rw [next_eq_nth h, slice_nth]
  · rw [next, dif_neg h]
    have hs : s.slice = #[] := Array.eq_empty_of_size_eq_zero (by rw [size_slice, length]; omega)
    rw [hs]
    rfl

/-- Taking from the back hands out the last of what remains. -/
theorem nextBack_fst (s : Snapshot α) : s.nextBack.1 = s.slice.back? := by
  rw [Array.back?_eq_getElem?, getElem?_slice, size_slice, length, nextBack]
  split
  · rw [show s.front + (s.back - s.front - 1) = s.back - 1 by omega, if_pos (by omega)]
  · rw [if_neg (by omega)]

/-- Taking from the back leaves all but the last of what remained. -/
theorem slice_nextBack (s : Snapshot α) : s.nextBack.2.slice = s.slice.pop := by
  refine Array.ext_getElem? fun i => ?_
  rw [Array.getElem?_pop, size_slice, length, getElem?_slice, getElem?_slice]
  by_cases h : s.front < s.back
  · rw [nextBack, dif_pos h]
    by_cases hi : s.front + i < s.back - 1
    · rw [if_pos hi, if_pos (by omega), if_pos (by omega)]
    · rw [if_neg hi, if_neg (by omega)]
  · rw [nextBack, dif_neg h]
    dsimp only
    rw [if_neg (by omega), if_neg (by omega)]

end Snapshot

end Containers
