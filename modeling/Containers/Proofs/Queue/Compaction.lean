import Containers.Proofs.Queue.Fifo
import Containers.Proofs.Queue.Room
import Mathlib.Algebra.GroupWithZero.Nat

/-!
# What compaction costs

Compaction moves every waiting element, so one pop may take as long as the queue is.  Over a history
this is made up for.  The elements are moved only when there are at least as many consumed slots as there
are elements, and more than `compactionThreshold` of them, and each consumed slot goes back to a pop of
its own.  So the mark of a queue is a credit: a pop adds one to it, an event spends all of it, clearing
forfeits it, and no other call touches it.

* `ArrayQueue.Holds.pop_reports` says what a pop reports and what becomes of the mark, and
  `LockedQueue.settles` says it of any call.
* `LockedQueue.Settles.charge` is the account of one call, for any charge on events that the mark can pay,
  and `LockedQueue.charge_le` is the account of a history.
* `LockedQueue.compaction_amortized` has the two charges that matter: one for each element that is moved,
  and 65 for each event.
-/

set_option autoImplicit false

namespace Containers

variable {α : Type}

/-- How many elements an event says were moved. -/
def Event.moved : Event → Nat
  | .compacting _ live => live
  | _ => 0

namespace ArrayQueue

theorem compactionDue_iff {q : ArrayQueue α} :
    q.compactionDue = true ↔ 65 ≤ q.head ∧ q.items.size ≤ 2 * q.head := by
  rw [← Bool.not_eq_false, compactionDue_eq_false_iff]
  omega

/-- Adding elements consumes no slots. -/
theorem head_extend (ys : List α) (q : ArrayQueue α) : (q.extend ys).head = q.head := by
  induction ys generalizing q with
  | nil => rfl
  | cons y ys ih => exact ih (q.push y)

namespace Holds

variable {q : ArrayQueue α} {x : α} {xs : List α}

/-- A pop leaves one more consumed slot and reports nothing, or else it leaves none, and then the
consumed slots were many and no fewer than the elements that were moved. -/
theorem pop_reports (h : q.Holds (x :: xs)) :
    (q.pop.log = #[] ∧ q.pop.state.head = q.head + 1) ∨
      (q.pop.log = #[.compacting (q.head + 1) xs.length] ∧ q.pop.state.head = 0 ∧
        65 ≤ q.head + 1 ∧ xs.length ≤ q.head + 1) := by
  have hsize := h.tail.size_items
  have hmoved := h.tail.compact.size_items
  rw [h.pop_cons]
  dsimp only at hsize hmoved ⊢
  split
  · rename_i hdue
    obtain ⟨hmany, hlittle⟩ := compactionDue_iff.1 hdue
    have hlive : (ArrayQueue.compact ⟨q.items.setIfInBounds q.head none, q.head + 1⟩).state.items.size =
        xs.length := hmoved.trans (Nat.zero_add _)
    refine .inr ⟨?_, rfl, hmany, by dsimp only at hlittle; omega⟩
    rw [← hlive]
    rfl
  · exact .inl ⟨rfl, rfl⟩

end Holds

end ArrayQueue

namespace LockedQueue

/-- A call and what it left behind. -/
abbrev Step (α : Type) : Type := Call α × Outcome (LockedQueue α) Event (Reply α)

/-- Whether a call took an element. -/
def took (p : Step α) : Bool :=
  match p.1, p.2.answer with
  | .pop, .ok (.item (some _)) => true
  | _, _ => false

/-- Everything that was reported. -/
def reports (ps : List (Step α)) : List Event := ps.flatMap fun p => p.2.log.toList

/-- What is reported in a history, and what it comes to. -/
structure Amortized (ps : List (Step α)) : Prop where
  /-- A call reports nothing, or else it has taken an element and reports the move of those that are
  left, which are no more than the consumed slots. -/
  reported : ∀ p ∈ ps, p.2.log = #[] ∨ ∃ x head, p.1 = .pop ∧ p.2.answer = .ok (.item (some x)) ∧
    65 ≤ head ∧ p.2.state.size ≤ head ∧ p.2.log = #[.compacting head p.2.state.size]
  /-- No more elements are moved than are taken. -/
  moved_le : ((reports ps).map Event.moved).sum ≤ ps.countP took
  /-- Moves are rare. -/
  events_le : 65 * (reports ps).length ≤ ps.countP took

variable {q : LockedQueue α} {xs : List α}

/-- The number of consumed slots. -/
def consumed (q : LockedQueue α) : Nat := q.guarded.contents.head

/-- What a call can do to the consumed slots, and what it reports. -/
inductive Settles (q : LockedQueue α) (p : Step α) : Prop
  /-- At most a pop adds one, and nobody is told. -/
  | quietly (hlog : p.2.log = #[]) (hmark : p.2.state.consumed ≤ q.consumed + (took p).toNat)
  /-- A pop adds one, and then all of them are given back. -/
  | compacting {x : α} (hcall : p.1 = .pop) (hanswer : p.2.answer = .ok (.item (some x)))
    (hlog : p.2.log = #[.compacting (q.consumed + 1) p.2.state.size])
    (hmark : p.2.state.consumed = 0) (hmany : 65 ≤ q.consumed + 1)
    (hlive : p.2.state.size ≤ q.consumed + 1)

/-- A call leaves the slots of a queue as they should look. -/
theorem holds_run (c : Call α) (h : q.guarded.contents.Holds xs) :
    ∃ ys, (q.run c).state.guarded.contents.Holds ys :=
  ⟨_, (ask_fifo (.call c) h).2⟩

theorem settles_pop (h : q.guarded.contents.Holds xs) : q.Settles (.pop, q.run .pop) := by
  cases xs with
  | nil =>
    have hpop : q.pop = .done q none := by
      rw [pop, Locked.call_eq, h.pop_nil]
      rfl
    rw [run, hpop]
    exact .quietly rfl (Nat.le_add_right _ _)
  | cons x xs =>
    obtain ⟨hanswer, hstate⟩ := pop_fifo h
    have hreply : (q.run .pop).answer = .ok (.item (some x)) := by
      rw [run, Outcome.answer_map, hanswer]
      rfl
    have htook : took (.pop, q.run .pop) = true := by simp [took, hreply]
    have hsize : (q.run .pop).state.size = xs.length := hstate.size_eq
    rcases h.pop_reports with ⟨hlog, hmark⟩ | ⟨hlog, hmark, hmany, hlive⟩
    · exact .quietly hlog (by rw [htook]; exact Nat.le_of_eq hmark)
    · exact .compacting rfl hreply (by rw [hsize]; exact hlog) hmark hmany (by rw [hsize]; exact hlive)

theorem settles (c : Call α) (h : q.guarded.contents.Holds xs) : q.Settles (c, q.run c) := by
  cases c with
  | pop => exact settles_pop h
  | extend ys =>
    refine .quietly rfl (Nat.le_of_eq ?_)
    cases ys with
    | nil => rfl
    | cons y ys => exact ArrayQueue.head_extend (y :: ys) q.guarded.contents
  | clear => exact .quietly rfl (Nat.zero_le _)
  | push | peek | size | isEmpty | toArray => exact .quietly rfl (Nat.le_refl _)

/-- The charge of a call and the mark that it leaves are paid by the mark that it finds and by the element
that it takes, if the mark can pay for one event. -/
theorem Settles.charge {charge : Event → Nat} {p : Step α} (h : q.Settles p)
    (hcharge : ∀ head live, 65 ≤ head → live ≤ head → charge (.compacting head live) ≤ head) :
    (p.2.log.toList.map charge).sum + p.2.state.consumed ≤ (took p).toNat + q.consumed := by
  cases h with
  | quietly hlog hmark =>
    rw [hlog]
    simpa [Nat.add_comm] using hmark
  | compacting hcall hanswer hlog hmark hmany hlive =>
    have htook : took p = true := by simp [took, hcall, hanswer]
    have hpaid := hcharge _ _ hmany hlive
    rw [hlog, hmark, htook]
    simpa [Nat.add_comm] using hpaid

/-- What a history is charged for its events is paid by its pops and by the mark at its beginning. -/
theorem charge_le (charge : Event → Nat)
    (hcharge : ∀ head live, 65 ≤ head → live ≤ head → charge (.compacting head live) ≤ head)
    (cs : List (Call α)) (h : q.guarded.contents.Holds xs) :
    ((reports (steps run cs q)).map charge).sum ≤ (steps run cs q).countP took + q.consumed := by
  -- the mark that a call leaves is the credit of the calls after it
  induction cs generalizing q xs with
  | nil => exact Nat.zero_le _
  | cons c cs ih =>
    obtain ⟨ys, hstate⟩ := holds_run c h
    have hrest := ih hstate
    have hfirst := (settles c h).charge hcharge
    dsimp only at hfirst
    have hcons : reports (steps run (c :: cs) q) =
        (q.run c).log.toList ++ reports (steps run cs (q.run c).state) := List.flatMap_cons
    have hcount : (steps run (c :: cs) q).countP took =
        (steps run cs (q.run c).state).countP took + (took (c, q.run c)).toNat := by
      rw [steps, List.countP_cons]
      cases took (c, q.run c) <;> rfl
    rw [hcons, List.map_append, List.sum_append, hcount]
    omega

theorem amortized_steps (cs : List (Call α)) (h : q.guarded.contents.Holds xs)
    (hnew : q.consumed = 0) : Amortized (steps run cs q) := by
  refine ⟨?_, ?_, ?_⟩
  · refine forall_mem_steps (P := fun q => ∃ xs, q.guarded.contents.Holds xs) ?_ cs ⟨xs, h⟩
    rintro c q ⟨xs, h⟩
    refine ⟨?_, holds_run c h⟩
    cases settles c h with
    | quietly hlog => exact .inl hlog
    | compacting hcall hanswer hlog _ hmany hlive =>
      exact .inr ⟨_, _, hcall, hanswer, hmany, hlive, hlog⟩
  · have hmoved := charge_le Event.moved (fun _ _ _ hlive => hlive) cs h
    rwa [hnew] at hmoved
  · have hevents := charge_le (fun _ => 65) (fun _ _ hmany _ => hmany) cs h
    rw [hnew, List.map_const', List.sum_replicate_nat, Nat.mul_comm] at hevents
    exact hevents

/-- **Compaction costs a constant amount a pop**, in every history of a queue, whichever way it was built
and whichever lock it has. -/
theorem compaction_amortized (kind : LockKind) (items : Array α) (cs : List (Call α)) :
    Amortized (steps run cs (.empty kind : LockedQueue α)) ∧
      Amortized (steps run cs (.ofArray kind items)) :=
  ⟨amortized_steps cs ArrayQueue.holds_empty rfl,
    amortized_steps cs (ArrayQueue.holds_ofArray items) rfl⟩

end LockedQueue

end Containers
