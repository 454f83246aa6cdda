import Containers.Fault

/-!
# Outcomes of calls

What a call on a container leaves behind has three parts: the container afterwards, the answer — or
the fault that cut the call short — and what observers were told on the way.  The three are kept
side by side in an `Outcome`, so that a call that faults still has a container and a log.

* `Outcome.andThen` runs a second call on what the first one left, unless the first one faulted.
* `visit` walks through items that were copied beforehand and lets a visitor act on the state before
  each answer.  Since the items are fixed when the walk starts, no visitor can change what is
  visited; it can only end the walk early.
-/

set_option autoImplicit false

namespace Containers

variable {σ τ α β γ ε : Type}

/-- What a call leaves behind. -/
structure Outcome (σ ε β : Type) where
  /-- The state after the call. -/
  state : σ
  /-- The answer, or the fault that cut the call short. -/
  answer : Except Fault β
  /-- What observers were told during the call, in order. -/
  log : Array ε

namespace Outcome

/-- A call that answers without telling anybody. -/
def done (s : σ) (b : β) : Outcome σ ε β := ⟨s, .ok b, #[]⟩

/-- A call that faults without telling anybody. -/
def fail (s : σ) (f : Fault) : Outcome σ ε β := ⟨s, .error f, #[]⟩

/-- The same call, seen from a container that holds the state as a part. -/
def mapState (f : σ → τ) (o : Outcome σ ε β) : Outcome τ ε β := ⟨f o.state, o.answer, o.log⟩

/-- The same call with its answer reworded. -/
def map (f : β → γ) (o : Outcome σ ε β) : Outcome σ ε γ := ⟨o.state, o.answer.map f, o.log⟩

/-- A second call on what the first one left; a fault of the first one ends the matter. -/
def andThen (o : Outcome σ ε β) (next : β → σ → Outcome σ ε γ) : Outcome σ ε γ :=
  match o with
  | ⟨s, .error f, log⟩ => ⟨s, .error f, log⟩
  | ⟨s, .ok b, log⟩ =>
    match next b s with
    | ⟨s', c, log'⟩ => ⟨s', c, log ++ log'⟩

@[simp] theorem state_done (s : σ) (b : β) : (done s b : Outcome σ ε β).state = s := rfl

@[simp] theorem answer_done (s : σ) (b : β) : (done s b : Outcome σ ε β).answer = .ok b := rfl

@[simp] theorem log_done (s : σ) (b : β) : (done s b : Outcome σ ε β).log = #[] := rfl

@[simp] theorem state_fail (s : σ) (f : Fault) : (fail s f : Outcome σ ε β).state = s := rfl

@[simp] theorem answer_fail (s : σ) (f : Fault) :
    (fail s f : Outcome σ ε β).answer = .error f := rfl

@[simp] theorem log_fail (s : σ) (f : Fault) : (fail s f : Outcome σ ε β).log = #[] := rfl

@[simp] theorem state_mapState (f : σ → τ) (o : Outcome σ ε β) :
    (o.mapState f).state = f o.state := rfl

@[simp] theorem answer_mapState (f : σ → τ) (o : Outcome σ ε β) :
    (o.mapState f).answer = o.answer := rfl

@[simp] theorem log_mapState (f : σ → τ) (o : Outcome σ ε β) : (o.mapState f).log = o.log := rfl

@[simp] theorem state_map (f : β → γ) (o : Outcome σ ε β) : (o.map f).state = o.state := rfl

@[simp] theorem answer_map (f : β → γ) (o : Outcome σ ε β) :
    (o.map f).answer = o.answer.map f := rfl

@[simp] theorem log_map (f : β → γ) (o : Outcome σ ε β) : (o.map f).log = o.log := rfl

/-- A call that has answered does not stand in the way of the next one. -/
@[simp] theorem done_andThen (s : σ) (b : β) (next : β → σ → Outcome σ ε γ) :
    (done s b).andThen next = next b s := by
  simp [done, andThen]

/-- After a fault nothing runs. -/
@[simp] theorem fail_andThen (s : σ) (f : Fault) (next : β → σ → Outcome σ ε γ) :
    (fail s f).andThen next = fail s f := rfl

end Outcome

/-! ## Visiting a copy -/

/-- Visits the items in order.  Before each answer the visitor may act on the state; `false` ends
the walk after the present item, and a fault of the visitor ends it at once.  The answer lists the
items that were visited. -/
def visit (visitor : α → σ → Outcome σ ε Bool) : List α → σ → Outcome σ ε (List α)
  | [], s => .done s []
  | x :: xs, s =>
    (visitor x s).andThen fun goOn s =>
      if goOn then (visit visitor xs s).map (x :: ·) else .done s [x]

@[simp] theorem visit_nil (visitor : α → σ → Outcome σ ε Bool) (s : σ) :
    visit visitor [] s = .done s [] := rfl

theorem visit_cons (visitor : α → σ → Outcome σ ε Bool) (x : α) (xs : List α) (s : σ) :
    visit visitor (x :: xs) s =
      (visitor x s).andThen fun goOn s =>
        if goOn then (visit visitor xs s).map (x :: ·) else .done s [x] := rfl

end Containers
