import Containers.Heap.Any
import Containers.Proofs.Queue.Compaction
import Containers.Proofs.Set.Members

/-!
# Walks over copies

A walk shows a visitor the items of a copy, one after another, until the visitor answers `false` or faults.
Before each answer the visitor may do to the container what it likes, and all of that counts, in the order
of the visits.  It does not reach the copy: the items that are shown are the first ones of the copy, and how
many they are depends on nothing but the answers.

* `shown` says which items those are, from the answers that the visitor gives (`answers`, `firstStop`).
* `visit_cons_cases` is what one visit does, and by induction `state_visit`, `log_visit` and the lemmas
  after them say what a whole walk does.
* `Walks` collects what can be said of a walk, and `range_walks` says it of the containers.

A copy has as many items as its container counts.  Queues and sets count apart from what they keep, so of
them this is said in the states that calls lead to (`LockedQueue.size_toArray_after`,
`AnySet.size_toArray_after`).  In which order a concurrent table lists its entries, and how it counts them, is
up to the table, so maps and sets may have any lawful one.
-/

set_option autoImplicit false

namespace Containers

variable {α γ ε κ ν ρ σ τ θ η : Type}

/-! ## What is shown -/

/-- Whether an answer asks for the next item.  A fault does not. -/
def goesOn : Except Fault Bool → Bool
  | .ok b => b
  | .error _ => false

/-- The answers of a visitor that is shown all the items. -/
def answers (visitor : α → σ → Outcome σ ε Bool) (xs : List α) (s : σ) : List (Except Fault Bool) :=
  (steps visitor xs s).map fun v => v.2.answer

/-- The place of the first answer that does not ask for the next item, counted from one.  Without such an
answer it is beyond the last one. -/
def firstStop (as : List (Except Fault Bool)) : Nat := as.findIdx (fun a => !goesOn a) + 1

/-- The items that are shown, up to the one at the first stop. -/
def shown (visitor : α → σ → Outcome σ ε Bool) (xs : List α) (s : σ) : List α :=
  xs.take (firstStop (answers visitor xs s))

/-- The calls that a visitor makes on its way over some items, if these are the ones of each visit. -/
def callsMade (visitor : α → σ → Outcome σ ε Bool) (calls : α → σ → List κ) : List α → σ → List κ
  | [], _ => []
  | x :: xs, s => calls x s ++ callsMade visitor calls xs (visitor x s).state

/-- How a walk goes over the items `xs` of a copy, from a container `c` and with a visitor that has a state
`t` of its own. -/
structure Walks (visitor : α → γ × τ → Outcome (γ × τ) ε Bool) (xs : List α) (c : γ) (t : τ)
    (o : Outcome (γ × τ) ε (List α)) : Prop where
  /-- As many items are shown as there are, or as the first stop allows. -/
  count : (shown visitor xs (c, t)).length = min xs.length (firstStop (answers visitor xs (c, t)))
  /-- Each item is shown in the state that the one before has led to, and nothing else happens. -/
  state : o.state = after visitor (shown visitor xs (c, t)) (c, t)
  /-- Observers are told what the visitor's doings tell them. -/
  log : o.log.toList = (steps visitor (shown visitor xs (c, t)) (c, t)).flatMap fun v => v.2.log.toList
  /-- If no visit faults, the walk answers with the items shown. -/
  visited : (∀ f, .error f ∉ answers visitor (shown visitor xs (c, t)) (c, t)) →
    o.answer = .ok (shown visitor xs (c, t))
  /-- A visit that faults takes the walk with it. -/
  faulted : ∀ f, .error f ∈ answers visitor (shown visitor xs (c, t)) (c, t) → o.answer = .error f
  /-- A visitor that keeps a record has recorded the items shown, also if the last visit faults. -/
  recorded : ∀ record : τ → List α,
    (∀ x p, record (visitor x p).state.2 = record p.2 ++ [x]) →
      record o.state.2 = record t ++ shown visitor xs (c, t)
  /-- What the visitor does besides answering makes no difference to what is visited. -/
  unmoved : ∀ {σ ε' : Type} (visitor' : α → σ → Outcome σ ε' Bool) (s : σ),
    answers visitor' xs s = answers visitor xs (c, t) → (visit visitor' xs s).answer = o.answer
  /-- If a visit does to the container what some calls do, the walk does what all of them do in a row. -/
  byCalls : ∀ {κ ρ : Type} (run : κ → γ → Outcome γ ε ρ) (calls : α → γ × τ → List κ),
    (∀ x p, (visitor x p).state.1 = after run (calls x p) p.1) →
      o.state.1 = after run (callsMade visitor calls (shown visitor xs (c, t)) (c, t)) c
  /-- If the visitor leaves the container alone, so does the walk. -/
  idle : (∀ x p, (visitor x p).state.1 = p.1) → o.state.1 = c

variable {visitor : α → σ → Outcome σ ε Bool}

/-! ## One visit -/

theorem shown_cons (x : α) (xs : List α) (s : σ) :
    shown visitor (x :: xs) s =
      if goesOn (visitor x s).answer then x :: shown visitor xs (visitor x s).state else [x] := by
  rw [shown, answers, steps, List.map_cons, firstStop, List.findIdx_cons]
  cases goesOn (visitor x s).answer <;> rfl

/-- A visitor that has not had enough is shown everything. -/
theorem shown_eq_self (h : ∀ x s, (visitor x s).answer = .ok true) (xs : List α) (s : σ) :
    shown visitor xs s = xs := by
  induction xs generalizing s with
  | nil => rfl
  | cons x xs ih => rw [shown_cons, h, ih]; rfl

/-- A visit either ends the walk or asks for the rest of it. -/
theorem visit_cons_cases (visitor : α → σ → Outcome σ ε Bool) (x : α) (xs : List α) (s : σ) :
    (shown visitor (x :: xs) s = [x] ∧
      visit visitor (x :: xs) s = (visitor x s).map fun _ => [x]) ∨
    ((visitor x s).answer = .ok true ∧
      shown visitor (x :: xs) s = x :: shown visitor xs (visitor x s).state ∧
      visit visitor (x :: xs) s =
        ⟨(visit visitor xs (visitor x s).state).state,
          (visit visitor xs (visitor x s).state).answer.map (x :: ·),
          (visitor x s).log ++ (visit visitor xs (visitor x s).state).log⟩) := by
  rw [shown_cons, visit_cons]
  obtain ⟨s', answer, log⟩ := visitor x s
  cases answer with
  | error f => exact .inl ⟨rfl, rfl⟩
  | ok goOn =>
    cases goOn with
    | false => exact .inl ⟨rfl, congrArg (Outcome.mk s' (.ok [x])) Array.append_empty⟩
    | true => exact .inr ⟨rfl, rfl, rfl⟩

/-! ## Whole walks -/

theorem state_visit (xs : List α) (s : σ) :
    (visit visitor xs s).state = after visitor (shown visitor xs s) s := by
  induction xs generalizing s with
  | nil => rfl
  | cons x xs ih =>
    rcases visit_cons_cases visitor x xs s with ⟨hshown, hvisit⟩ | ⟨-, hshown, hvisit⟩
    · rw [hshown, hvisit]
      rfl
    · rw [hshown, hvisit, after]
      exact ih _

theorem log_visit (xs : List α) (s : σ) :
    (visit visitor xs s).log.toList =
      (steps visitor (shown visitor xs s) s).flatMap fun v => v.2.log.toList := by
  induction xs generalizing s with
  | nil => rfl
  | cons x xs ih =>
    rcases visit_cons_cases visitor x xs s with ⟨hshown, hvisit⟩ | ⟨-, hshown, hvisit⟩
    · rw [hshown, hvisit, steps, steps, List.flatMap_singleton]
      rfl
    · rw [hshown, hvisit, steps, List.flatMap_cons, ← ih, Array.toList_append]

theorem answer_visit_of_fault (xs : List α) (s : σ) (f : Fault)
    (h : .error f ∈ answers visitor (shown visitor xs s) s) :
    (visit visitor xs s).answer = .error f := by
  induction xs generalizing s with
  | nil => cases h
  | cons x xs ih =>
    rcases visit_cons_cases visitor x xs s with ⟨hshown, hvisit⟩ | ⟨hanswer, hshown, hvisit⟩
    · rw [hshown] at h
      have hanswer : .error f = (visitor x s).answer := List.mem_singleton.1 h
      rw [hvisit, Outcome.answer_map, ← hanswer]
      rfl
    · rw [hshown, answers, steps, List.map_cons, hanswer] at h
      have hrest := (List.mem_cons.1 h).resolve_left (by simp)
      rw [hvisit, ih _ hrest]
      rfl

theorem answer_visit_of_no_fault (xs : List α) (s : σ)
    (h : ∀ f, .error f ∉ answers visitor (shown visitor xs s) s) :
    (visit visitor xs s).answer = .ok (shown visitor xs s) := by
  induction xs generalizing s with
  | nil => rfl
  | cons x xs ih =>
    rcases visit_cons_cases visitor x xs s with ⟨hshown, hvisit⟩ | ⟨-, hshown, hvisit⟩
    · rw [hshown] at h ⊢
      rw [hvisit, Outcome.answer_map]
      cases hanswer : (visitor x s).answer with
      | error f => exact absurd (List.mem_singleton.2 hanswer.symm) (h f)
      | ok goOn => rfl
    · rw [hshown] at h ⊢
      rw [hvisit, ih _ fun f hf => h f (List.mem_cons_of_mem _ hf)]
      rfl

/-! What is visited depends on the answers alone. -/

theorem answers_shown (xs : List α) (s : σ) :
    answers visitor (shown visitor xs s) s =
      (answers visitor xs s).take (firstStop (answers visitor xs s)) := by
  rw [answers, shown, steps_take, List.map_take]
  rfl

theorem answer_visit_congr {σ' ε' : Type} {visitor' : α → σ' → Outcome σ' ε' Bool} {xs : List α}
    {s : σ} {s' : σ'} (h : answers visitor' xs s' = answers visitor xs s) :
    (visit visitor' xs s').answer = (visit visitor xs s).answer := by
  -- both the items shown and the answers heard can be told from all the answers
  have hshown : shown visitor' xs s' = shown visitor xs s := by rw [shown, h, shown]
  have hheard : answers visitor' (shown visitor' xs s') s' = answers visitor (shown visitor xs s) s := by
    rw [answers_shown, h, answers_shown]
  by_cases hfault : ∃ f, .error f ∈ answers visitor (shown visitor xs s) s
  · obtain ⟨f, hf⟩ := hfault
    rw [answer_visit_of_fault xs s f hf, answer_visit_of_fault xs s' f (hheard ▸ hf)]
  · rw [not_exists] at hfault
    rw [answer_visit_of_no_fault xs s hfault, answer_visit_of_no_fault xs s' (hheard ▸ hfault), hshown]

/-! What the visits do, in terms of what each of them does. -/

section Pairs

variable {visitor : α → γ × τ → Outcome (γ × τ) ε Bool}

theorem after_recorded {record : τ → List α}
    (h : ∀ x p, record (visitor x p).state.2 = record p.2 ++ [x]) (xs : List α) (p : γ × τ) :
    record (after visitor xs p).2 = record p.2 ++ xs := by
  induction xs generalizing p with
  | nil => exact (List.append_nil _).symm
  | cons x xs ih => rw [after, ih, h, List.append_assoc, List.singleton_append]

theorem after_callsMade {run : κ → γ → Outcome γ ε ρ} {calls : α → γ × τ → List κ}
    (h : ∀ x p, (visitor x p).state.1 = after run (calls x p) p.1) (xs : List α) (p : γ × τ) :
    (after visitor xs p).1 = after run (callsMade visitor calls xs p) p.1 := by
  induction xs generalizing p with
  | nil => rfl
  | cons x xs ih => rw [after, ih, h, callsMade, after_append]

theorem walks_visit (visitor : α → γ × τ → Outcome (γ × τ) ε Bool) (xs : List α) (c : γ) (t : τ) :
    Walks visitor xs c t (visit visitor xs (c, t)) where
  count := by rw [shown, List.length_take, Nat.min_comm]
  state := state_visit xs (c, t)
  log := log_visit xs (c, t)
  visited := answer_visit_of_no_fault xs (c, t)
  faulted := answer_visit_of_fault xs (c, t)
  recorded record h := by
    rw [state_visit]
    exact after_recorded h _ _
  unmoved visitor' s := answer_visit_congr
  byCalls run calls h := by
    rw [state_visit]
    exact after_callsMade h _ _
  idle h := by
    rw [state_visit]
    exact after_invariant (P := fun p => p.1 = c) (fun x p hp => (h x p).trans hp) _
      (s := (c, t)) rfl

end Pairs

/-! ## As many as are counted -/

theorem LockedQueue.empty_eq_ofArray (kind : LockKind) : (empty kind : LockedQueue α) = ofArray kind #[] := by
  rw [empty, ofArray, ArrayQueue.ofArray, Array.map_empty, ArrayQueue.empty]

/-- A queue copies as many elements as it counts, whatever was asked of it before. -/
theorem LockedQueue.size_toArray_after (kind : LockKind) (items : Array α) (cs : List (Call α)) :
    (after run cs (ofArray kind items)).toArray.size = (after run cs (ofArray kind items)).size := by
  have step : ∀ (c : Call α) (q : LockedQueue α), (∃ xs, q.guarded.contents.Holds xs) →
      ∃ xs, (q.run c).state.guarded.contents.Holds xs := fun c q ⟨_, h⟩ => holds_run c h
  have start : (ofArray kind items).guarded.contents.Holds items.toList := ArrayQueue.holds_ofArray items
  obtain ⟨xs, hxs⟩ := after_invariant step cs ⟨_, start⟩
  exact (congrArg Array.size hxs.toArray_eq).trans hxs.size_eq.symm

theorem AnyMap.size_slice_all [BEq κ] [ConcurrentTable θ κ ν] [LawfulConcurrentTable θ]
    (m : AnyMap κ ν θ) : m.all.slice.size = m.size := by
  cases m with
  | locked m =>
    rw [all, LockedMap.all, Snapshot.slice_ofArray]
    rfl
  | concurrent m =>
    rw [all, ConcurrentMap.all, Snapshot.slice_ofArray, List.size_toArray]
    exact (LawfulConcurrentTable.size_eq m.table).symm

/-- **No visitor can change what it is shown.**  Heaps, queues, sets and maps of every kind show a visitor the
copy that was made when the walk began, in its order, and are afterwards as the visitor has left them.  The
copy has as many items as the container counted then. -/
theorem range_walks [BEq κ] [ConcurrentTable θ κ Unit] [LawfulConcurrentTable θ]
    [ConcurrentTable η κ ν] [LawfulConcurrentTable η] :
    (∀ h : LockedHeap α ε, (h.run .size).answer = .ok (.count h.toArray.size) ∧
      ∀ (t : τ) visitor, Walks visitor h.toArray.toList h t (h.range visitor t)) ∧
    (∀ q : PriorityQueue α ε, (q.run (.plain .size)).answer = .ok (.count q.toArray.size) ∧
      ∀ (t : τ) visitor, Walks visitor q.toArray.toList q t (q.range visitor t)) ∧
    (∀ h : AnyHeap α ε, (h.run .size).answer = .ok (.count h.toArray.size) ∧
      ∀ (t : τ) visitor, Walks visitor h.toArray.toList h t (h.range visitor t)) ∧
    (∀ kind : LockKind, (.empty kind : LockedQueue α) = .ofArray kind #[] ∧
      ∀ (items : Array α) (cs : List (Call α)),
        let q := after LockedQueue.run cs (.ofArray kind items)
        (q.run .size).answer = .ok (.count q.toArray.size) ∧
          ∀ (t : τ) visitor, Walks visitor q.toArray.toList q t (q.range visitor t)) ∧
    (∀ new : AnySet κ θ, new.New → ∀ cs : List (SetCall κ),
      let s := after AnySet.run cs new
      (s.run .size).answer = .ok (.count s.toArray.size) ∧
        ∀ (t : τ) visitor, Walks visitor s.toArray.toList s t (s.range visitor t)) ∧
    ∀ m : AnyMap κ ν η, (m.run .size).answer = .ok (.count m.all.slice.size) ∧
      ∀ (t : τ) visitor, Walks visitor m.all.slice.toList m t (m.range visitor t) := by
  refine ⟨?lockedHeap, ?priorityQueue, ?heap, ?queue, ?set, ?map⟩
  case lockedHeap => exact fun h => ⟨rfl, fun t visitor => walks_visit visitor _ h t⟩
  case priorityQueue =>
    intro q
    refine ⟨?_, fun t visitor => walks_visit visitor _ q t⟩
    cases q <;> rfl
  case heap =>
    intro h
    refine ⟨?_, fun t visitor => walks_visit visitor _ h t⟩
    rcases h with h | q | q <;> rfl
  case queue =>
    refine fun kind => ⟨LockedQueue.empty_eq_ofArray kind, fun items cs => ?_⟩
    dsimp only
    rw [LockedQueue.size_toArray_after]
    exact ⟨rfl, fun t visitor => walks_visit visitor _ _ t⟩
  case set =>
    intro new hnew cs
    dsimp only
    rw [AnySet.size_toArray_after hnew]
    refine ⟨?_, fun t visitor => walks_visit visitor _ _ t⟩
    cases after AnySet.run cs new <;> rfl
  case map =>
    intro m
    rw [AnyMap.size_slice_all]
    refine ⟨?_, fun t visitor => walks_visit visitor _ m t⟩
    cases m <;> rfl

/-- The visitor of a striped map drops all entries at each visit and is shown every one all the same.  That of
a striped set has had enough after one member, and the set is as it was. -/
theorem range_walks_cleared : ∃ (m : AnyMap FoldedKey Nat (StripedTable FoldedKey Nat))
    (s : AnySet FoldedKey (StripedTable FoldedKey Unit)),
    m = .ofList .concurrent [(⟨.text "A"⟩, 1), (⟨.text "b"⟩, 2)] ∧
    s = .ofList .concurrent [⟨.text "a"⟩] ∧ s.New ∧
    (m.run .size).answer = .ok (.count m.all.slice.size) ∧
    (m.range (fun e p => .done ((p.1.run .clear).state, p.2 ++ [e]) true) []).state.2 =
      m.all.slice.toList ∧
    (s.range (fun _ p => .done p false) ()).state.1 = s := by
  have hnew : (.ofList .concurrent [⟨.text "a"⟩] : AnySet FoldedKey (StripedTable FoldedKey Unit)).New :=
    ⟨_, .inr ⟨_, rfl⟩⟩
  obtain ⟨-, -, -, -, -, hmaps⟩ := range_walks (α := Unit) (ε := Unit) (τ := List (FoldedKey × Nat))
    (θ := StripedTable FoldedKey Unit) (η := StripedTable FoldedKey Nat)
  obtain ⟨-, -, -, -, hsets, -⟩ := range_walks (α := Unit) (ε := Unit) (τ := Unit)
    (θ := StripedTable FoldedKey Unit) (η := StripedTable FoldedKey Nat)
  obtain ⟨hcount, hwalks⟩ := hmaps (.ofList .concurrent [(⟨.text "A"⟩, 1), (⟨.text "b"⟩, 2)])
  have hrecorded := (hwalks [] fun e p => .done ((p.1.run .clear).state, p.2 ++ [e]) true).recorded id
    fun _ _ => rfl
  rw [shown_eq_self fun _ _ => rfl] at hrecorded
  exact ⟨_, _, rfl, rfl, hnew, hcount, hrecorded, ((hsets _ hnew []).2 () _).idle fun _ _ => rfl⟩

/-- The visitor empties the queue and is shown the copy all the same, until it has had enough. -/
example :
    let o := (LockedQueue.ofArray .exclusive #[1, 2, 3, 4]).range
      (fun x p => .done (p.1.clear.push x, p.2 ++ [x]) (x != 3)) []
    o.answer.toOption = some [1, 2, 3] ∧ o.state.1.toArray = #[3] ∧ o.state.2 = [1, 2, 3] := by
  decide +kernel

end Containers
