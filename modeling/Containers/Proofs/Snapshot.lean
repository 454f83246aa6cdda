import Containers.Proofs.History
import Containers.Snapshot

/-!
# Snapshots are handed out once

A snapshot is consumed from both ends, in any order, and the two ends may meet anywhere.  To say that every
element is handed out once or skipped once, a record is kept beside the snapshot of what was taken at the front
and what was taken at the back (`Consumption`).  What is in the record and what remains make up the list that was
copied, after every history of questions (`Snapshot.accounted`).

To skip elements is to take them one after another and to let them go (`Snapshot.skip`), and then the next one is
taken (`Snapshot.nth_eq_skip`).  So a skip may overshoot by any number.  The first of the takings that finds
nothing is the last that changes anything, and nothing is found from then on, at either end
(`Snapshot.item_eq_none_of_mem_history`).
-/

set_option autoImplicit false

namespace Containers

variable {α : Type}

/-! ## Questions -/

/-- What can be asked of a snapshot. -/
inductive SnapshotCall where
  /-- Take the first remaining element. -/
  | next
  /-- Take the last remaining element. -/
  | nextBack
  /-- Skip `n` elements at the front and take the one after them. -/
  | nth (n : Nat)
  /-- Count the remaining elements. -/
  | length
  /-- Ask between which bounds the number of remaining elements is. -/
  | sizeHint
  /-- Look at the remaining elements. -/
  | slice

/-- What a snapshot answers. -/
inductive SnapshotReply (α : Type) where
  /-- An element, or none where there was none. -/
  | item (x : Option α)
  /-- A number of elements. -/
  | count (n : Nat)
  /-- The least and the greatest number of elements. -/
  | bounds (least greatest : Nat)
  /-- Elements in order. -/
  | items (xs : Array α)

namespace Snapshot

variable {s : Snapshot α}

/-- Puts a question to a snapshot. -/
def ask : SnapshotCall → Snapshot α → SnapshotReply α × Snapshot α
  | .next, s => (.item s.next.1, s.next.2)
  | .nextBack, s => (.item s.nextBack.1, s.nextBack.2)
  | .nth n, s => (.item (s.nth n).1, (s.nth n).2)
  | .length, s => (.count s.length, s)
  | .sizeHint, s => (.bounds s.sizeHint.1 s.sizeHint.2, s)
  | .slice, s => (.items s.slice, s)

/-! ## One element -/

/-- The element taken at the front and those that remain are those there were. -/
theorem next_append_slice (s : Snapshot α) :
    s.next.1.toList ++ s.next.2.slice.toList = s.slice.toList := by
  rw [next_fst, slice_next]
  rcases s.slice with ⟨_ | ⟨x, xs⟩⟩ <;> simp

/-- Those that remain and the element taken at the back are those there were. -/
theorem slice_append_nextBack (s : Snapshot α) :
    s.nextBack.2.slice.toList ++ s.nextBack.1.toList = s.slice.toList := by
  rw [nextBack_fst, slice_nextBack]
  cases hlast : s.slice.back? with
  | none => simp [Array.back?_eq_none_iff.1 hlast]
  | some x =>
    obtain ⟨ys, hys⟩ := Array.back?_eq_some_iff.1 hlast
    simp [hys]

theorem next_eq_none_iff : s.next.1 = none ↔ s.slice = #[] := by
  rw [next_fst, Array.getElem?_eq_none_iff, Nat.le_zero, Array.size_eq_zero_iff]

theorem nextBack_eq_none_iff : s.nextBack.1 = none ↔ s.slice = #[] := by
  rw [nextBack_fst, Array.back?_eq_none_iff]

theorem nth_eq_none_iff {n : Nat} : (s.nth n).1 = none ↔ s.slice.size ≤ n := by
  rw [nth_fst, Array.getElem?_eq_none_iff]

/-! ## Skipping -/

/-- Takes up to `n` elements at the front, one after another. -/
def skip : Nat → Snapshot α → List α × Snapshot α
  | 0, s => ([], s)
  | n + 1, s =>
    match s.next with
    | (some x, t) => (x :: (skip n t).1, (skip n t).2)
    | (none, t) => ([], t)

/-- Whatever number is skipped, the elements taken on the way and those that remain are those there were. -/
theorem skip_append_slice (n : Nat) (s : Snapshot α) :
    (s.skip n).1 ++ (s.skip n).2.slice.toList = s.slice.toList := by
  fun_induction skip n s with
  | case1 s => rfl
  | case2 n s x t hnext ih =>
    have hone := s.next_append_slice
    rw [hnext] at hone
    rw [List.cons_append, ih]
    exact hone
  | case3 n s t hnext =>
    have hone := s.next_append_slice
    rw [hnext] at hone
    exact hone

/-! Where the marks have met there is nothing to take, and they stay. -/

theorem next_of_met (h : ¬ s.front < s.back) : s.next = (none, s) := by
  rw [next, dif_neg h]

theorem nth_of_met (h : ¬ s.front < s.back) (n : Nat) : s.nth n = (none, s) := by
  obtain ⟨items, front, back, hle, hsize⟩ := s
  obtain rfl : front = back := Nat.le_antisymm hle (Nat.not_lt.1 h)
  rw [nth, dif_neg (by simp), exhausted]

theorem nth_zero (s : Snapshot α) : s.nth 0 = s.next := by
  by_cases h : s.front < s.back
  · rw [next_eq_nth h]
  · rw [nth_of_met h, next_of_met h]

theorem nth_succ (h : s.front < s.back) (n : Nat) : s.nth (n + 1) = s.next.2.nth n := by
  have hsum : s.front + 1 + n = s.front + (n + 1) := by omega
  rw [next, dif_pos h, nth, nth]
  simp only [hsum]
  rfl

/-- To skip and to take is to take one after another and to take the next one. -/
theorem nth_eq_skip (n : Nat) (s : Snapshot α) : s.nth n = (s.skip n).2.next := by
  fun_induction skip n s with
  | case1 s => exact s.nth_zero
  | case2 n s x t hnext ih =>
    have h : s.front < s.back := by
      by_contra h
      rw [next_of_met h] at hnext
      cases hnext
    rw [nth_succ h, hnext, ih]
  | case3 n s t hnext =>
    have h : ¬ s.front < s.back := by
      intro h
      have hlt : s.front < s.items.size := Nat.lt_of_lt_of_le h s.back_le_size
      rw [next, dif_pos h, Array.getElem?_eq_getElem hlt] at hnext
      cases hnext
    rw [next_of_met h] at hnext
    cases hnext
    rw [nth_of_met h, next_of_met h]

/-! ## Nothing left -/

/-- Where nothing is left, a question finds nothing and leaves nothing. -/
theorem ask_of_slice_eq_empty (h : s.slice = #[]) (c : SnapshotCall) :
    (∀ x, (s.ask c).1 = .item x → x = none) ∧ (s.ask c).2.slice = #[] := by
  cases c with
  | next =>
    refine ⟨fun x hx => ?_, ?_⟩
    · cases hx
      exact next_eq_none_iff.2 h
    · rw [ask, slice_next, h, Array.extract_empty]
  | nextBack =>
    refine ⟨fun x hx => ?_, ?_⟩
    · cases hx
      exact nextBack_eq_none_iff.2 h
    · rw [ask, slice_nextBack, h, Array.pop_empty]
  | nth n =>
    refine ⟨fun x hx => ?_, ?_⟩
    · cases hx
      exact nth_eq_none_iff.2 (by rw [h]; exact Nat.zero_le n)
    · rw [ask, slice_nth, h, Array.extract_empty]
  | length | sizeHint | slice =>
    refine ⟨fun x hx => ?_, h⟩
    cases hx

/-- Where nothing is left, nothing is found from then on, at either end. -/
theorem item_eq_none_of_mem_history (h : s.slice = #[]) (cs : List SnapshotCall) {x : Option α}
    (hx : .item x ∈ history ask cs s) : x = none := by
  induction cs generalizing s with
  | nil => simp [history] at hx
  | cons c cs ih =>
    obtain ⟨hnone, hleft⟩ := ask_of_slice_eq_empty h c
    rw [history, List.mem_cons] at hx
    rcases hx with hx | hx
    · exact hnone x hx.symm
    · exact ih hleft hx

/-! ## What is taken -/

/-- What a question takes at the front: what it hands out and, before that, what it skips. -/
def takenFront : SnapshotCall → Snapshot α → List α
  | .next, s => s.next.1.toList
  | .nth n, s => (s.skip n).1 ++ (s.nth n).1.toList
  | .nextBack, _ | .length, _ | .sizeHint, _ | .slice, _ => []

/-- What a question takes at the back. -/
def takenBack : SnapshotCall → Snapshot α → List α
  | .nextBack, s => s.nextBack.1.toList
  | .next, _ | .nth _, _ | .length, _ | .sizeHint, _ | .slice, _ => []

/-- What a question takes at either end and what it leaves are what there was. -/
theorem taken_append_slice (c : SnapshotCall) (s : Snapshot α) :
    s.takenFront c ++ (s.ask c).2.slice.toList ++ s.takenBack c = s.slice.toList := by
  cases c with
  | next => rw [takenFront, takenBack, List.append_nil, ask, next_append_slice]
  | nextBack => rw [takenFront, takenBack, List.nil_append, ask, slice_append_nextBack]
  | nth n =>
    rw [takenFront, takenBack, List.append_nil, ask, List.append_assoc, nth_eq_skip, next_append_slice,
      skip_append_slice]
  | length | sizeHint | slice => exact List.append_nil _

/-- At the back, at most one element is taken at a time. -/
theorem reverse_takenBack (c : SnapshotCall) (s : Snapshot α) :
    (s.takenBack c).reverse = s.takenBack c := by
  cases c with
  | nextBack => cases hitem : s.nextBack.1 <;> simp [takenBack, hitem]
  | _ => rfl

end Snapshot

/-! ## The record -/

/-- A snapshot with a record of what was taken from it. -/
structure Consumption (α : Type) where
  /-- The snapshot as it is now. -/
  rest : Snapshot α
  /-- What was handed out or skipped at the front, in the order of taking. -/
  front : List α
  /-- What was handed out at the back, in the order of taking. -/
  back : List α

namespace Consumption

/-- A fresh snapshot of a list, nothing taken. -/
def start (xs : List α) : Consumption α := ⟨.ofArray xs.toArray, [], []⟩

/-- Puts a question to the snapshot and records what it took. -/
def step (u : Consumption α) (c : SnapshotCall) : Consumption α :=
  ⟨(u.rest.ask c).2, u.front ++ u.rest.takenFront c, u.back ++ u.rest.takenBack c⟩

/-- All elements in order: those taken at the front, those that remain, and those taken at the back from the last
one taken to the first. -/
def whole (u : Consumption α) : List α := u.front ++ u.rest.slice.toList ++ u.back.reverse

theorem whole_start (xs : List α) : (start xs).whole = xs := by
  simp [whole, start]

theorem whole_step (u : Consumption α) (c : SnapshotCall) : (u.step c).whole = u.whole :=
  calc (u.step c).whole
    _ = u.front ++ (u.rest.takenFront c ++ (u.rest.ask c).2.slice.toList ++ u.rest.takenBack c)
          ++ u.back.reverse := by
        simp only [whole, step, List.reverse_append, u.rest.reverse_takenBack, List.append_assoc]
    _ = u.whole := by rw [u.rest.taken_append_slice, whole]

theorem whole_foldl_step (cs : List SnapshotCall) (u : Consumption α) :
    (cs.foldl step u).whole = u.whole := by
  induction cs generalizing u with
  | nil => rfl
  | cons c cs ih => rw [List.foldl_cons, ih, u.whole_step]

end Consumption

/-! ## The account -/

/-- A snapshot of a list, some of it taken, accounts for every element and for what it will still hand out. -/
structure Accounted (xs : List α) (u : Consumption α) : Prop where
  /-- The elements taken at the front, those that remain and those taken at the back are the list. -/
  whole : u.front ++ u.rest.slice.toList ++ u.back.reverse = xs
  /-- The length is the number of remaining elements. -/
  length : u.rest.length = u.rest.slice.size
  /-- So are both bounds of the number of elements to come. -/
  sizeHint : u.rest.sizeHint = (u.rest.slice.size, u.rest.slice.size)
  /-- A skip finds nothing just where it reaches past the remaining elements. -/
  nth_eq_none_iff : ∀ n, (u.rest.nth n).1 = none ↔ u.rest.slice.size ≤ n
  /-- A skip that finds nothing leaves nothing. -/
  slice_of_nth : ∀ n, (u.rest.nth n).1 = none → (u.rest.nth n).2.slice = #[]
  /-- Once nothing was found at one end, nothing is found at either, whatever is asked then. -/
  finished : ∀ c, c = .next ∨ c = .nextBack → (u.rest.ask c).1 = .item none →
    ∀ cs x, .item x ∈ history Snapshot.ask cs (u.rest.ask c).2 → x = none

namespace Snapshot

/-- A snapshot accounts for every element at every moment, whatever was asked of it. -/
theorem accounted (xs : List α) (cs : List SnapshotCall) :
    Accounted xs (cs.foldl Consumption.step (.start xs)) := by
  generalize hu : cs.foldl Consumption.step (.start xs) = u
  refine ⟨?whole, ?length, ?sizeHint, fun n => nth_eq_none_iff, fun n hn => ?leaves,
    fun c hc hnone ds x hx => ?finished⟩
  case whole =>
    have hwhole := Consumption.whole_foldl_step cs (.start xs)
    rw [hu, Consumption.whole_start] at hwhole
    exact hwhole
  case length => exact u.rest.size_slice.symm
  case sizeHint => rw [Snapshot.sizeHint, u.rest.size_slice]
  case leaves =>
    have hsize : u.rest.slice.size ≤ n := nth_eq_none_iff.1 hn
    rw [slice_nth, Array.extract_eq_empty_iff]
    omega
  case finished =>
    have hempty : u.rest.slice = #[] := by
      rcases hc with rfl | rfl
      · exact next_eq_none_iff.1 (SnapshotReply.item.inj hnone)
      · exact nextBack_eq_none_iff.1 (SnapshotReply.item.inj hnone)
    exact item_eq_none_of_mem_history (ask_of_slice_eq_empty hempty c).2 ds hx

-- the ends meet at the skip, which asks for more than is left
example : history ask [.next, .nextBack, .nth 5, .nextBack, .slice] (.ofArray #[1, 2, 3, 4]) =
    [.item (some 1), .item (some 4), .item none, .item none, .items #[]] := rfl

end Snapshot

end Containers
