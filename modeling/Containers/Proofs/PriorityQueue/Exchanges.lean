import Containers.Proofs.Heap.Accesses
import Containers.Proofs.Heap.Reachable
import Containers.Proofs.History
import Mathlib.Data.List.Perm.Basic

/-!
# What a swap hook hears

A swap hook is enough to follow a queue from outside.  Whoever appends what is pushed, overwrites what is
replaced, drops the last slot when an element leaves, and makes every exchange that the hook is told of has
the elements of the queue, slot by slot, after every call.  `Replays` says it of the exchanges: each is of
two different slots that exist, each is told once and right after it is made, and none is left out.

* A comparison tells nothing and an exchange one thing, so `Traced`, which says of a storage that its log
  leads from some array to the present one, is `Kept` and survives the sifts.
* An element leaves by way of the last slot, and it is dropped before anything is sifted.  So it takes part
  in the first exchange or in none, and what is shown later are the other elements (`Departs`).
-/

set_option autoImplicit false

namespace Containers

open Heap (SwapHook Rules Storage Probe Kept)

variable {α ε : Type}

/-! ## Exchanges -/

/-- An exchange as a hook is told of it. -/
structure Exchange (α : Type) where
  /-- One of the slots. -/
  i : Nat
  /-- The other one. -/
  j : Nat
  /-- The elements right after it. -/
  items : Array α
  deriving DecidableEq

/-- What becomes of an exchange when a hook is told of it. -/
def Exchange.tell (hook : SwapHook α ε) (e : Exchange α) : ε := hook e.i e.j e.items

/-- Made one after another, the exchanges lead from one array to the other, each shows the array right
after it, and each is of two different slots. -/
inductive Replays : Array α → List (Exchange α) → Array α → Prop
  | done (a : Array α) : Replays a [] a
  | exchange {a b : Array α} {i j : Nat} {es : List (Exchange α)} (hi : i < a.size) (hj : j < a.size)
      (hij : i ≠ j) (rest : Replays (a.swap i j) es b) : Replays a (⟨i, j, a.swap i j⟩ :: es) b

/-- These exchanges show the elements of `a` but for the one in slot `k`, which has left. -/
def Unseen (a : Array α) (k : Nat) (es : List (Exchange α)) : Prop :=
  ∀ e ∈ es, e.items.size = a.size - 1 ∧ e.items.toList.Perm (a.toList.eraseIdx k)

/-- The exchanges by which the element in slot `k` leaves and the others close up. -/
inductive Departs (a : Array α) (k : Nat) : List (Exchange α) → Array α → Prop
  /-- There is no such slot, and nothing happens. -/
  | nowhere (hk : a.size ≤ k) : Departs a k [] a
  /-- The element is in the last slot and leaves without an exchange. -/
  | last {es : List (Exchange α)} {b : Array α} (hk : k + 1 = a.size) (rest : Replays a.pop es b)
      (unseen : Unseen a k es) : Departs a k es b
  /-- The element is exchanged for the last one, and leaves before any other exchange. -/
  | exchanged {es : List (Exchange α)} {b : Array α} (hk : k + 1 < a.size)
      (rest : Replays (a.swap k (a.size - 1)).pop es b) (unseen : Unseen a k es) :
      Departs a k (⟨k, a.size - 1, a.swap k (a.size - 1)⟩ :: es) b

namespace Replays

variable {a b : Array α} {es : List (Exchange α)}

/-- One more exchange at the end. -/
theorem concat (h : Replays a es b) {i j : Nat} (hi : i < b.size) (hj : j < b.size) (hij : i ≠ j) :
    Replays a (es ++ [⟨i, j, b.swap i j⟩]) (b.swap i j) := by
  induction h with
  | done a => exact .exchange hi hj hij (.done _)
  | exchange hi' hj' hij' _ ih => exact .exchange hi' hj' hij' (ih hi hj)

/-- No exchange brings in an element or takes one away. -/
theorem perm (h : Replays a es b) : ∀ e ∈ es, e.items.Perm a := by
  induction h with
  | done a => simp
  | exchange hi hj _ _ ih =>
    have hswap := Array.swap_perm hi hj
    refine List.forall_mem_cons.2 ⟨hswap, fun e he => ?_⟩
    exact (ih e he).trans hswap

/-- If the exchanges start when the element in slot `k` has left, none of them shows it. -/
theorem unseen {k : Nat} (h : Replays (Heap.vacate a k) es b) (hk : k < a.size) : Unseen a k es := by
  have hlast : (a.swapIfInBounds k (a.size - 1)).back? = some a[k] := by
    rw [Heap.back?_swapIfInBounds_last hk, Array.getElem?_eq_getElem hk]
  -- what is left and the element that has left make up what there was
  have hleft : (Heap.vacate a k).push a[k] = a.swapIfInBounds k (a.size - 1) := by
    obtain ⟨ys, hys⟩ := Array.back?_eq_some_iff.1 hlast
    rw [Heap.vacate, hys, Array.pop_push]
  have hall : ((Heap.vacate a k).toList ++ [a[k]]).Perm (a[k] :: a.toList.eraseIdx k) := by
    rw [← Array.toList_push, hleft]
    refine (Array.perm_iff_toList_perm.1 (Heap.swapIfInBounds_perm a k (a.size - 1))).trans ?_
    exact (List.getElem_cons_eraseIdx_perm (l := a.toList) hk).symm
  have hothers := ((List.perm_append_singleton _ _).symm.trans hall).cons_inv
  intro e he
  have hshown := h.perm e he
  refine ⟨?_, (Array.perm_iff_toList_perm.1 hshown).trans hothers⟩
  rw [hshown.size_eq, Heap.size_vacate]

end Replays

/-! ## Logs of a heap -/

namespace Heap

variable {less : Priority α} {hook : SwapHook α ε} {before : List (Exchange α)} {a : Array α}

/-- After the exchanges in `before` the log tells of those that lead from `a` to the present elements. -/
def Traced (hook : SwapHook α ε) (before : List (Exchange α)) (a : Array α) (s : Storage α ε) : Prop :=
  ∃ es, s.log.toList = (before ++ es).map (Exchange.tell hook) ∧ Replays a es s.items

/-- The rules of a heap that tells a hook of exchanges. -/
def telling (less : Priority α) (hook : SwapHook α ε) : Rules α ε := ⟨less, Probe.ofHook (some hook)⟩

theorem swapIfInBounds_eq_swap {i j : Nat} (hi : i < a.size) (hj : j < a.size) :
    a.swapIfInBounds i j = a.swap i j := by
  rw [Array.swapIfInBounds_def, dif_pos hi, dif_pos hj]

theorem kept_traced : Kept (telling less hook) (Traced hook before a) where
  compare _ _ _ _ _ h := h
  swap i j s hi hj hij h := by
    obtain ⟨es, hlog, hes⟩ := h
    have hitems : s.items.swapIfInBounds i j = s.items.swap i j hi hj := swapIfInBounds_eq_swap hi hj
    have hpush : (s.swapAt (telling less hook) i j).log =
        s.log.push (hook i j (s.items.swapIfInBounds i j)) := rfl
    refine ⟨es ++ [⟨i, j, s.items.swap i j hi hj⟩], ?_, ?_⟩
    · rw [hpush, hitems, Array.toList_push, hlog]
      simp [Exchange.tell]
    · rw [Storage.items_swapAt, hitems]
      exact hes.concat hi hj hij

theorem traced_push (a : Array α) (x : α) :
    Traced hook [] (a.push x) (push (telling less hook) x (.ofArray a)).2 :=
  kept_traced.push ⟨[], rfl, .done _⟩

theorem traced_fix (k : Nat) (a : Array α) :
    Traced hook [] a (fix (telling less hook) k (.ofArray a)) :=
  kept_traced.fix ⟨[], rfl, .done _⟩

/-! An element that leaves is exchanged for the last one, unless it is the last one. -/

theorem vacate_last {k : Nat} (hk : k + 1 = a.size) : vacate a k = a.pop := by
  rw [vacate, ← hk, Nat.add_sub_cancel, swapIfInBounds_self]

theorem vacate_of_lt {k : Nat} (hk : k + 1 < a.size) :
    vacate a k = (a.swap k (a.size - 1)).pop := by
  rw [vacate, swapIfInBounds_eq_swap]

variable (less hook) in
theorem traced_depart_last {k : Nat} (hk : k + 1 = a.size) :
    Traced hook [] (vacate a k) (depart (telling less hook) k (.ofArray a)) := by
  have hlast : k = (Storage.ofArray a : Storage α ε).size - 1 := by simp; omega
  rw [vacate_last hk, depart, if_pos hlast]
  exact ⟨[], rfl, .done _⟩

variable (less hook) in
theorem traced_depart {k : Nat} (hk : k + 1 < a.size) :
    Traced hook [⟨k, a.size - 1, a.swap k (a.size - 1)⟩] (vacate a k)
      (depart (telling less hook) k (.ofArray a)) := by
  have hlast : ¬ k = (Storage.ofArray a : Storage α ε).size - 1 := by simp; omega
  rw [depart, if_neg hlast, ← swapIfInBounds_eq_swap]
  exact ⟨[], rfl, .done _⟩

/-- The element leaves before the repair begins, so all exchanges but the first are the repair's. -/
theorem departs_remove (k : Nat) (a : Array α) :
    ∃ es, (remove (telling less hook) k (.ofArray a)).2.log.toList = es.map (Exchange.tell hook) ∧
      Departs a k es (remove (telling less hook) k (.ofArray a)).2.items := by
  rcases Nat.lt_trichotomy (k + 1) a.size with hk | hk | hk
  · have hin : k < a.size := by omega
    rw [remove_snd (telling less hook) hin]
    obtain ⟨es, hlog, hes⟩ := kept_traced.fix (traced_depart less hook hk)
    have hunseen := hes.unseen hin
    rw [vacate_of_lt hk] at hes
    exact ⟨_, hlog, .exchanged hk hes hunseen⟩
  · have hin : k < a.size := by omega
    rw [remove_snd (telling less hook) hin]
    obtain ⟨es, hlog, hes⟩ := kept_traced.fix (traced_depart_last less hook hk)
    have hunseen := hes.unseen hin
    rw [vacate_last hk] at hes
    exact ⟨es, hlog, .last hk hes hunseen⟩
  · have hout : a.size ≤ k := by omega
    rw [remove_of_size_le _ hout]
    exact ⟨[], rfl, .nowhere hout⟩

end Heap

/-! ## Queues -/

namespace PriorityQueue

variable {q : PriorityQueue α ε} {hook : SwapHook α ε}

theorem toArray_run (c : IndexedCall α) (q : PriorityQueue α ε) :
    (q.run c).state.toArray = (Heap.carryOut q.view.rules c (.ofArray q.toArray)).2.items := by
  rw [toArray_eq_view, toArray_eq_view]
  exact congrArg (fun o => o.state.items) (q.view_run c)

/-- What the hook is told is what bare storage writes down. -/
theorem log_run (c : IndexedCall α) (q : PriorityQueue α ε) :
    (q.run c).log = (Heap.carryOut q.view.rules c (.ofArray q.toArray)).2.log := by
  rw [toArray_eq_view]
  exact congrArg Outcome.log (q.view_run c)

theorem onSwap_run (c : IndexedCall α) (q : PriorityQueue α ε) :
    (q.run c).state.view.onSwap = q.view.onSwap :=
  congrArg (fun o => o.state.onSwap) (q.view_run c)

/-- During the call the hook was told of these exchanges and of nothing else. -/
def Told (hook : SwapHook α ε) (o : Outcome (PriorityQueue α ε) ε (Reply α)) (es : List (Exchange α)) :
    Prop :=
  o.log.toList = es.map (Exchange.tell hook)

/-- What a hook hears of the calls on a queue is enough to follow the elements. -/
structure Retells (q : PriorityQueue α ε) (hook : SwapHook α ε) : Prop where
  /-- A pushed element is appended, also by a push that faults, and then exchanged. -/
  push : ∀ x, ∃ es, Told hook (q.run (.plain (.push x))) es ∧
    Replays (q.toArray.push x) es (q.run (.plain (.push x))).state.toArray
  /-- The element at the root leaves. -/
  pop : ∃ es, Told hook (q.run (.plain .pop)) es ∧
    Departs q.toArray 0 es (q.run (.plain .pop)).state.toArray
  /-- The element in the slot leaves. -/
  removeAt : ∀ k, ∃ es, Told hook (q.run (.removeAt k)) es ∧
    Departs q.toArray k es (q.run (.removeAt k)).state.toArray
  /-- A repair makes exchanges only. -/
  fix : ∀ k, ∃ es, Told hook (q.run (.fix k)) es ∧
    Replays q.toArray es (q.run (.fix k)).state.toArray
  /-- A slot that exists is overwritten, of which the hook is not told, and then repaired. -/
  updateAt : ∀ k x, ∃ es, Told hook (q.run (.updateAt k x)) es ∧
    Replays (q.toArray.setIfInBounds k x) es (q.run (.updateAt k x)).state.toArray

/-- What is known of bare storage is known of a queue. -/
theorem exists_told {R : List (Exchange α) → Array α → Prop} (hq : q.view.onSwap = some hook)
    (c : IndexedCall α)
    (h : ∃ es, (Heap.carryOut (Heap.telling q.view.less hook) c (.ofArray q.toArray)).2.log.toList =
        es.map (Exchange.tell hook) ∧
      R es (Heap.carryOut (Heap.telling q.view.less hook) c (.ofArray q.toArray)).2.items) :
    ∃ es, Told hook (q.run c) es ∧ R es (q.run c).state.toArray := by
  have hrules : q.view.rules = Heap.telling q.view.less hook := by
    rw [ArrayHeap.rules, hq, Heap.telling]
  rw [← hrules] at h
  rw [toArray_run]
  simpa only [Told, log_run] using h

theorem retells_of_hook (hq : q.view.onSwap = some hook) : q.Retells hook where
  push x := exists_told hq (.plain (.push x)) (Heap.traced_push q.toArray x)
  pop := by
    refine exists_told hq (.plain .pop) ?_
    rw [Heap.carryOut, Heap.pop_eq_remove]
    exact Heap.departs_remove 0 q.toArray
  removeAt k := exists_told hq (.removeAt k) (Heap.departs_remove k q.toArray)
  fix k := exists_told hq (.fix k) (Heap.traced_fix k q.toArray)
  updateAt k x := by
    refine exists_told hq (.updateAt k x) ?_
    rw [Heap.carryOut, Heap.Storage.size_ofArray]
    split
    · exact Heap.traced_fix k (q.toArray.setIfInBounds k x)
    · rename_i hk
      rw [Array.setIfInBounds_eq_of_size_le (Nat.not_lt.1 hk)]
      exact ⟨[], rfl, .done _⟩

/-- **A hook hears everything that moves elements, when it moves them and once**, whatever the priority
answers, whichever kind the queue is of and whatever was asked of it before. -/
theorem retells_after (hook : SwapHook α ε) (q : PriorityQueue α ε) (cs : List (IndexedCall α)) :
    (after run cs (q.withOnSwap hook)).Retells hook := by
  have step : ∀ (c : IndexedCall α) (q : PriorityQueue α ε), q.view.onSwap = some hook →
      (q.run c).state.view.onSwap = some hook := fun c q hq => (onSwap_run c q).trans hq
  refine retells_of_hook (after_invariant step cs ?_)
  rw [view_withOnSwap]

/-- The root is exchanged for the last element and leaves; what has come to the root sinks. -/
example : (((ofArray .slots #[1, 4, 2, 9, 5] minFirst).withOnSwap Exchange.mk).run (.plain .pop)).log =
    #[⟨0, 4, #[5, 4, 2, 9, 1]⟩, ⟨0, 2, #[2, 4, 5, 9]⟩] := by
  decide +kernel

end PriorityQueue

end Containers
