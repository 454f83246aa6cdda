import Containers.Proofs.Heap.Departure
import Mathlib.Algebra.Order.Group.Multiset

/-!
# What comes in and what goes out

Whatever the priority answers, a call on a heap container changes the contents by what it is given and by
what it hands out, and by nothing else.  `Heap.given` and `Heap.taken` say what these are for each call,
and `Heap.carryOut_balance` is the one equation between them: what is there after the call and what was
taken make up what was there before and what was given.

A push gives its element also when it faults.  An extend gives the elements that it gets to
(`Heap.consumed`), which are all of them unless one precedes itself; that one is the last that is given.

* `AnyHeap.conserves` spells the equation out, call by call, for every container in every state.
* `AnyHeap.Traffic.balance` sums it up over a history.
-/

set_option autoImplicit false

namespace Containers

open Heap (Rules Storage)

variable {α ε : Type} {h : AnyHeap α ε}

namespace Heap

variable {r : Rules α ε} {s : Storage α ε} {less : Priority α}

/-! ## The two sides of a call -/

/-- The elements of an array, in no order. -/
def bag (items : Array α) : Multiset α := items.toList

/-- The elements that adding one after another gets to: none after the first that precedes itself. -/
def consumed (less : Priority α) : List α → List α
  | [] => []
  | x :: xs => x :: if less x x then [] else consumed less xs

/-- What a call gives to a heap of these elements. -/
def given (less : Priority α) (items : Array α) : IndexedCall α → Multiset α
  | .plain (.push x) => {x}
  | .plain (.extend xs) => consumed less xs
  | .updateAt index x => if index < items.size then {x} else 0
  | _ => 0

/-- What a call takes from a heap of these elements. -/
def taken (items : Array α) : IndexedCall α → Multiset α
  | .plain .pop => items[0]?.toList
  | .plain .clear => bag items
  | .removeAt index => items[index]?.toList
  | .updateAt index _ => items[index]?.toList
  | _ => 0

theorem consumed_of_irrefl {xs : List α} (hxs : ∀ x ∈ xs, less x x = false) :
    consumed less xs = xs := by
  induction xs with
  | nil => rfl
  | cons x xs ih =>
    rw [List.forall_mem_cons] at hxs
    rw [consumed, hxs.1, if_neg Bool.false_ne_true, ih hxs.2]

/-! ## Adding one after another -/

/-- A push faults exactly if its element precedes itself. -/
theorem push_fst (r : Rules α ε) (x : α) (s : Storage α ε) :
    (push r x s).1 = if r.less x x then .error .reflexivePriority else .ok () := by
  rw [push, Storage.compareAt_fst, size_append_sub_one, precedes_append_self]
  split <;> rfl

theorem pushAll_cons (r : Rules α ε) (x : α) (xs : List α) (s : Storage α ε) :
    pushAll r (x :: xs) s =
      if r.less x x then (.error .reflexivePriority, (push r x s).2)
      else pushAll r xs (push r x s).2 := by
  have hpush := push_fst r x s
  rw [pushAll]
  split
  · rename_i s' heq
    rw [heq] at hpush
    split at hpush
    · cases hpush
    · rename_i hx
      rw [if_neg hx, heq]
  · rename_i f s' heq
    rw [heq] at hpush
    split at hpush
    · rename_i hx
      rw [if_pos hx, heq]
      exact congrArg (·, s') hpush
    · cases hpush

theorem pushAll_fst (r : Rules α ε) (xs : List α) (s : Storage α ε) :
    (pushAll r xs s).1 =
      if xs.any fun x => r.less x x then .error .reflexivePriority else .ok () := by
  induction xs generalizing s with
  | nil => rfl
  | cons x xs ih =>
    rw [pushAll_cons, List.any_cons]
    cases r.less x x with
    | true => rfl
    | false => exact ih (push r x s).2

/-- An extend that has answered has got to all its elements. -/
theorem irrefl_of_pushAll {r : Rules α ε} {xs : List α} {s : Storage α ε}
    (hok : (pushAll r xs s).1 = .ok ()) : ∀ x ∈ xs, r.less x x = false := by
  rw [pushAll_fst] at hok
  split at hok
  · cases hok
  · rename_i hany
    simpa using hany

/-! ## Each call balances -/

theorem bag_of_perm {a b : Array α} (hab : a.Perm b) : bag a = bag b :=
  Multiset.coe_eq_coe.2 (Array.perm_iff_toList_perm.1 hab)

theorem bag_push (a : Array α) (x : α) : bag (a.push x) = x ::ₘ bag a := by
  rw [bag, bag, Array.toList_push, Multiset.cons_coe, Multiset.coe_eq_coe]
  exact List.perm_append_singleton x a.toList

/-- An element that is overwritten makes way for the one written. -/
theorem bag_setIfInBounds {items : Array α} {index : Nat} (hi : index < items.size) (x : α) :
    items[index] ::ₘ bag (items.setIfInBounds index x) = x ::ₘ bag items := by
  -- what is left of both lists is the list without the slot
  have hset := List.set_perm_cons_eraseIdx (l := items.toList) hi x
  have hitems := List.getElem_cons_eraseIdx_perm (l := items.toList) hi
  rw [bag, bag, Array.toList_setIfInBounds, Multiset.cons_coe, Multiset.cons_coe, Multiset.coe_eq_coe]
  exact ((hset.cons _).trans (.swap ..)).trans (hitems.cons x)

theorem pushAll_balance (r : Rules α ε) (xs : List α) (s : Storage α ε) :
    bag (pushAll r xs s).2.items = consumed r.less xs + bag s.items := by
  induction xs generalizing s with
  | nil => exact (zero_add _).symm
  | cons x xs ih =>
    have hpush : bag (push r x s).2.items = x ::ₘ bag s.items :=
      (bag_of_perm (push_perm r x s)).trans (bag_push s.items x)
    rw [pushAll_cons, consumed, ← Multiset.cons_coe]
    -- the element that precedes itself is in already when it is found out
    split
    · rw [hpush, Multiset.coe_nil, Multiset.cons_add, zero_add]
    · rw [ih, hpush, Multiset.cons_add, Multiset.add_cons]

theorem remove_balance (r : Rules α ε) (index : Nat) (s : Storage α ε) :
    (s.items[index]?.toList : Multiset α) + bag (remove r index s).2.items = bag s.items := by
  cases hx : s.items[index]? with
  | none =>
    rw [remove_of_size_le r (Array.getElem?_eq_none_iff.1 hx)]
    exact zero_add _
  | some x =>
    have hfst : (remove r index s).1 = some x := (remove_fst r index s).trans hx
    rw [← bag_of_perm (remove_perm hfst), bag_push]
    exact Multiset.singleton_add x _

/-- **What a call took and what is there after it make up what was given and what was there before.** -/
theorem carryOut_balance (r : Rules α ε) (c : IndexedCall α) (s : Storage α ε) :
    taken s.items c + bag (carryOut r c s).2.items = given r.less s.items c + bag s.items := by
  cases c with
  | plain c =>
    cases c with
    | push x =>
      show 0 + bag (push r x s).2.items = {x} + bag s.items
      rw [zero_add, Multiset.singleton_add, ← bag_push]
      exact bag_of_perm (push_perm r x s)
    | extend xs =>
      show 0 + bag (pushAll r xs s).2.items = consumed r.less xs + bag s.items
      rw [zero_add]
      exact pushAll_balance r xs s
    | pop =>
      show (s.items[0]?.toList : Multiset α) + bag (pop r s).2.items = 0 + bag s.items
      rw [zero_add, pop_eq_remove]
      exact remove_balance r 0 s
    | clear => exact add_comm (bag s.items) 0
    | peek | size | isEmpty | toArray => rfl
  | fix index =>
    show 0 + bag (fix r index s).items = 0 + bag s.items
    rw [bag_of_perm (fix_perm r index s)]
  | removeAt index =>
    show (s.items[index]?.toList : Multiset α) + bag (remove r index s).2.items = 0 + bag s.items
    rw [zero_add]
    exact remove_balance r index s
  | updateAt index x =>
    rw [taken, given, carryOut, Storage.size]
    by_cases hi : index < s.items.size
    · rw [if_pos hi, if_pos hi, Array.getElem?_eq_getElem hi, Multiset.singleton_add,
        bag_of_perm (fix_perm r index (s.set index x)), ← bag_setIfInBounds hi]
      exact Multiset.singleton_add s.items[index] _
    · rw [if_neg hi, if_neg hi, Array.getElem?_eq_none (Nat.le_of_not_lt hi)]
      rfl

/-! A slot that is not there leaves nothing to do. -/

theorem carryOut_fix_of_size_le {index : Nat} (hi : s.items.size ≤ index) :
    carryOut r (.fix index) s = (.ok .done, s) := by
  have hout : ¬ index < s.size := Nat.not_lt.2 hi
  rw [carryOut, fix, if_neg hout]

theorem carryOut_removeAt_of_size_le {index : Nat} (hi : s.items.size ≤ index) :
    carryOut r (.removeAt index) s = (.ok (.item none), s) := by
  rw [carryOut, remove_of_size_le r hi]

theorem carryOut_updateAt_of_size_le {index : Nat} (hi : s.items.size ≤ index) (x : α) :
    carryOut r (.updateAt index x) s = (.ok (.flag false), s) := by
  have hout : ¬ index < s.size := Nat.not_lt.2 hi
  rw [carryOut, if_neg hout]

end Heap

/-! ## Containers -/

namespace AnyHeap

theorem answer_runIndexed {c : IndexedCall α} {o : Outcome (AnyHeap α ε) ε (Reply α)}
    (ho : h.runIndexed? c = some o) :
    o.answer = (Heap.carryOut h.view.rules c (.ofArray h.toArray)).1 := by
  rw [toArray_eq_view]
  exact congrArg Outcome.answer (view_runIndexed ho)

theorem toArray_runIndexed {c : IndexedCall α} {o : Outcome (AnyHeap α ε) ε (Reply α)}
    (ho : h.runIndexed? c = some o) :
    o.state.toArray = (Heap.carryOut h.view.rules c (.ofArray h.toArray)).2.items := by
  rw [toArray_eq_view, toArray_eq_view]
  exact congrArg (fun o => o.state.items) (view_runIndexed ho)

theorem toArray_run (c : Call α) (h : AnyHeap α ε) :
    (h.run c).state.toArray = (Heap.carryOut h.view.rules (.plain c) (.ofArray h.toArray)).2.items := by
  rw [toArray_eq_view, toArray_eq_view, view_state_run]
  rfl

theorem balance_run (c : Call α) (h : AnyHeap α ε) :
    Heap.taken h.toArray (.plain c) + (h.run c).state.contents =
      Heap.given h.view.less h.toArray (.plain c) + h.contents := by
  have hbalance := Heap.carryOut_balance h.view.rules (.plain c) (.ofArray h.toArray)
  rwa [← toArray_run] at hbalance

theorem balance_runIndexed {c : IndexedCall α} {o : Outcome (AnyHeap α ε) ε (Reply α)}
    (ho : h.runIndexed? c = some o) :
    Heap.taken h.toArray c + o.state.contents = Heap.given h.view.less h.toArray c + h.contents := by
  have hbalance := Heap.carryOut_balance h.view.rules c (.ofArray h.toArray)
  rwa [← toArray_runIndexed ho] at hbalance

/-- The containers that calls on `h` lead to, with all that was given on the way and all that was
taken. -/
inductive Traffic (h : AnyHeap α ε) : AnyHeap α ε → Multiset α → Multiset α → Prop
  | start : Traffic h h 0 0
  | run (c : Call α) {h' : AnyHeap α ε} {ins outs : Multiset α} (ht : Traffic h h' ins outs) :
      Traffic h (h'.run c).state (ins + Heap.given h'.view.less h'.toArray (.plain c))
        (outs + Heap.taken h'.toArray (.plain c))
  | runIndexed (c : IndexedCall α) {h' : AnyHeap α ε} {ins outs : Multiset α}
      {o : Outcome (AnyHeap α ε) ε (Reply α)} (ht : Traffic h h' ins outs)
      (ho : h'.runIndexed? c = some o) :
      Traffic h o.state (ins + Heap.given h'.view.less h'.toArray c) (outs + Heap.taken h'.toArray c)

/-- **Over a history, what was taken and what is left make up what was given and what there was.** -/
theorem Traffic.balance {h' : AnyHeap α ε} {ins outs : Multiset α} (ht : Traffic h h' ins outs) :
    outs + h'.contents = ins + h.contents := by
  induction ht with
  | start => rfl
  | run c ht ih => rw [add_assoc, balance_run, add_left_comm, ih, add_left_comm, add_assoc]
  | runIndexed c ht ho ih =>
    rw [add_assoc, balance_runIndexed ho, add_left_comm, ih, add_left_comm, add_assoc]

theorem contents_ofArray (kind : HeapKind) (items : Array α) (less : Priority α) :
    (ofArray kind items less : AnyHeap α ε).contents = items.toList := by
  rw [contents_eq_view]
  rcases kind with lock | lock | - <;> exact Heap.bag_of_perm (Heap.heapify_perm _ _)

/-! What the equation comes to for each call. -/

theorem contents_push (x : α) (h : AnyHeap α ε) :
    (h.run (.push x)).state.contents = x ::ₘ h.contents := by
  have hbalance : 0 + (h.run (.push x)).state.contents = {x} + h.contents := balance_run (.push x) h
  rwa [zero_add, Multiset.singleton_add] at hbalance

theorem contents_extend (xs : List α) (h : AnyHeap α ε) :
    (h.run (.extend xs)).state.contents = Heap.consumed h.view.less xs + h.contents :=
  (zero_add _).symm.trans (balance_run (.extend xs) h)

/-- An extend that has not faulted has met no element that precedes itself. -/
theorem irrefl_of_extend {xs : List α} (hok : (h.run (.extend xs)).answer = .ok .done) :
    ∀ x ∈ xs, h.view.less x x = false := by
  have hanswer : (h.run (.extend xs)).answer = (h.view.run (.plain (.extend xs))).answer :=
    congrArg Outcome.answer (h.view_run (.extend xs))
  rw [hok] at hanswer
  cases hpush : (Heap.pushAll h.view.rules xs (.ofArray h.view.items)).1 with
  | ok => exact Heap.irrefl_of_pushAll hpush
  | error f =>
    rw [ArrayHeap.run, ArrayHeap.takeBack, Heap.carryOut, hpush] at hanswer
    cases hanswer

theorem answer_pop_eq_root (h : AnyHeap α ε) : (h.run .pop).answer = .ok (.item h.toArray[0]?) := by
  rw [answer_pop, toArray_eq_view]

theorem contents_removeAt {i : Nat} (hi : i < h.toArray.size) {o : Outcome (AnyHeap α ε) ε (Reply α)}
    (ho : h.runIndexed? (.removeAt i) = some o) :
    o.answer = .ok (.item (some h.toArray[i])) ∧ h.toArray[i] ::ₘ o.state.contents = h.contents := by
  have hslot : h.toArray[i]? = some h.toArray[i] := Array.getElem?_eq_getElem hi
  have hbalance : (h.toArray[i]?.toList : Multiset α) + o.state.contents = 0 + h.contents :=
    balance_runIndexed ho
  rw [hslot, zero_add] at hbalance
  refine ⟨?_, (Multiset.singleton_add _ _).symm.trans hbalance⟩
  rw [answer_runIndexed ho, Heap.carryOut, Heap.remove_fst, ← hslot]
  rfl

theorem contents_updateAt {i : Nat} {x : α} (hi : i < h.toArray.size)
    {o : Outcome (AnyHeap α ε) ε (Reply α)} (ho : h.runIndexed? (.updateAt i x) = some o) :
    o.answer = .ok (.flag true) ∧ h.toArray[i] ::ₘ o.state.contents = x ::ₘ h.contents := by
  have hslot : h.toArray[i]? = some h.toArray[i] := Array.getElem?_eq_getElem hi
  have hbalance := balance_runIndexed ho
  rw [Heap.taken, Heap.given, if_pos hi, hslot, Multiset.singleton_add] at hbalance
  refine ⟨?_, (Multiset.singleton_add _ _).symm.trans hbalance⟩
  rw [answer_runIndexed ho, Heap.carryOut, Heap.Storage.size_ofArray, if_pos hi]

theorem contents_fix {i : Nat} {o : Outcome (AnyHeap α ε) ε (Reply α)}
    (ho : h.runIndexed? (.fix i) = some o) : o.answer = .ok .done ∧ o.state.contents = h.contents := by
  have hbalance : 0 + o.state.contents = 0 + h.contents := balance_runIndexed ho
  rw [zero_add, zero_add] at hbalance
  exact ⟨answer_runIndexed ho, hbalance⟩

/-- No call loses an element, doubles one or makes one up. -/
structure Conserves (h : AnyHeap α ε) : Prop where
  /-- A push adds its element, whether it faults or not. -/
  push : ∀ x, (h.run (.push x)).state.contents = x ::ₘ h.contents
  /-- An extend adds the elements it gets to. -/
  extend : ∀ xs, (h.run (.extend xs)).state.contents = Heap.consumed h.view.less xs + h.contents
  /-- An extend that has not faulted adds all its elements. -/
  extend_ok : ∀ xs : List α, (h.run (.extend xs)).answer = .ok .done →
    (h.run (.extend xs)).state.contents = xs + h.contents
  /-- A pop hands out the element at the root, if there is one, and keeps the others. -/
  pop : (h.run .pop).answer = .ok (.item h.toArray[0]?) ∧
    (h.toArray[0]?.toList : Multiset α) + (h.run .pop).state.contents = h.contents
  /-- A clear drops everything. -/
  clear : (h.run .clear).state.contents = 0
  /-- Calls that only look leave every element in its slot. -/
  look : (h.run .peek).state.toArray = h.toArray ∧ (h.run .size).state.toArray = h.toArray ∧
    (h.run .isEmpty).state.toArray = h.toArray ∧ (h.run .toArray).state.toArray = h.toArray
  /-- What is removed from a slot is what was in it. -/
  removeAt : ∀ i (hi : i < h.toArray.size) o, h.runIndexed? (.removeAt i) = some o →
    o.answer = .ok (.item (some h.toArray[i])) ∧ h.toArray[i] ::ₘ o.state.contents = h.contents
  /-- What is put into a slot replaces what was in it. -/
  updateAt : ∀ i x (hi : i < h.toArray.size) o, h.runIndexed? (.updateAt i x) = some o →
    o.answer = .ok (.flag true) ∧ h.toArray[i] ::ₘ o.state.contents = x ::ₘ h.contents
  /-- A repair keeps the elements, whichever slot it starts at. -/
  fix : ∀ i o, h.runIndexed? (.fix i) = some o →
    o.answer = .ok .done ∧ o.state.contents = h.contents
  /-- Priority queues, and they alone, take the calls that name a slot. -/
  indexed : ∀ c, (h.runIndexed? c).isSome ↔ ∃ q, h = .queue q
  /-- A slot that is not there is no slot to remove from, to overwrite or to repair. -/
  out_of_bounds : ∀ i, h.toArray.size ≤ i →
    (∀ o, h.runIndexed? (.removeAt i) = some o →
      o.answer = .ok (.item none) ∧ o.state.toArray = h.toArray) ∧
    (∀ x o, h.runIndexed? (.updateAt i x) = some o →
      o.answer = .ok (.flag false) ∧ o.state.toArray = h.toArray) ∧
    (∀ o, h.runIndexed? (.fix i) = some o →
      o.answer = .ok .done ∧ o.state.toArray = h.toArray)

/-- **No call on a heap container loses an element, doubles one or makes one up**, in any state, whatever
the priority and whatever the kind; and a container made of given elements holds exactly these. -/
theorem conserves (kind : HeapKind) (less : Priority α) (items : Array α) (h : AnyHeap α ε) :
    (ofArray kind items less : AnyHeap α ε).contents = items.toList ∧ h.Conserves := by
  refine ⟨contents_ofArray kind items less, ?_⟩
  constructor
  case push => exact fun x => contents_push x h
  case extend => exact fun xs => contents_extend xs h
  case extend_ok =>
    intro xs hok
    rw [contents_extend, Heap.consumed_of_irrefl (irrefl_of_extend hok)]
  case pop => exact ⟨answer_pop_eq_root h, (balance_run .pop h).trans (zero_add _)⟩
  case clear =>
    rw [contents, toArray_run]
    rfl
  case look =>
    refine ⟨?_, ?_, ?_, ?_⟩ <;>
    · rw [toArray_run]
      rfl
  case removeAt => exact fun i hi o ho => contents_removeAt hi ho
  case updateAt => exact fun i x hi o ho => contents_updateAt hi ho
  case fix => exact fun i o ho => contents_fix ho
  case indexed =>
    intro c
    cases h with
    | plain h =>
      constructor
      · rintro ⟨⟩
      · rintro ⟨_, ⟨⟩⟩
    | queue q => exact ⟨fun _ => ⟨q, rfl⟩, fun _ => rfl⟩
  case out_of_bounds =>
    intro i hi
    refine ⟨fun o ho => ?_, fun x o ho => ?_, fun o ho => ?_⟩
    · rw [answer_runIndexed ho, toArray_runIndexed ho, Heap.carryOut_removeAt_of_size_le hi]
      exact ⟨rfl, rfl⟩
    · rw [answer_runIndexed ho, toArray_runIndexed ho, Heap.carryOut_updateAt_of_size_le hi]
      exact ⟨rfl, rfl⟩
    · rw [answer_runIndexed ho, toArray_runIndexed ho, Heap.carryOut_fix_of_size_le hi]
      exact ⟨rfl, rfl⟩

end AnyHeap

end Containers
