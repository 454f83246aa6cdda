import Containers.Outcome
import Mathlib.Data.List.Forall2

/-!
# Histories

A history is a list of questions put to something that has a state, one after another, and `history`
lists the answers.  Two things with states of their own give the same answers to every history if their
states can be related so that each question is answered alike and leaves related states behind
(`history_eq`, and `history_forall₂` if alike is less than equal).  A call is such a question, with its
answer or its fault as the answer (`asked`).

Where the state at the end is what matters, `after` is the state that a list of calls leads to, whether
or not some of them fault, and what every call keeps is kept by all of them (`after_invariant`).
-/

set_option autoImplicit false

namespace Containers

variable {κ ρ ρ' σ τ ε : Type}

/-- The answers to questions put one after another. -/
def history (ask : κ → σ → ρ × σ) : List κ → σ → List ρ
  | [], _ => []
  | c :: cs, s => (ask c s).1 :: history ask cs (ask c s).2

/-- What agrees question by question up to `Q` agrees up to `Q` on whole histories. -/
theorem history_forall₂ {ask : κ → σ → ρ × σ} {ask' : κ → τ → ρ' × τ} {R : σ → τ → Prop}
    {Q : ρ → ρ' → Prop}
    (step : ∀ c s t, R s t → Q (ask c s).1 (ask' c t).1 ∧ R (ask c s).2 (ask' c t).2)
    (cs : List κ) {s : σ} {t : τ} (h : R s t) :
    List.Forall₂ Q (history ask cs s) (history ask' cs t) := by
  induction cs generalizing s t with
  | nil => exact .nil
  | cons c cs ih =>
    obtain ⟨hanswer, hstate⟩ := step c s t h
    exact .cons hanswer (ih hstate)

/-- What agrees question by question agrees on whole histories. -/
theorem history_eq {ask : κ → σ → ρ × σ} {ask' : κ → τ → ρ × τ} {R : σ → τ → Prop}
    (step : ∀ c s t, R s t → (ask c s).1 = (ask' c t).1 ∧ R (ask c s).2 (ask' c t).2)
    (cs : List κ) {s : σ} {t : τ} (h : R s t) : history ask cs s = history ask' cs t := by
  rw [← List.forall₂_eq_eq_eq]
  exact history_forall₂ step cs h

/-- Puts a call as a question. -/
def asked (run : κ → σ → Outcome σ ε ρ) (c : κ) (s : σ) : Except Fault ρ × σ :=
  ((run c s).answer, (run c s).state)

/-! ## Step by step -/

/-- Calls put one after another, each with what it left behind. -/
def steps (run : κ → σ → Outcome σ ε ρ) : List κ → σ → List (κ × Outcome σ ε ρ)
  | [], _ => []
  | c :: cs, s => (c, run c s) :: steps run cs (run c s).state

/-- What every call does in a state of some kind, which it leaves so, it does in every history. -/
theorem forall_mem_steps {run : κ → σ → Outcome σ ε ρ} {P : σ → Prop} {Q : κ × Outcome σ ε ρ → Prop}
    (step : ∀ c s, P s → Q (c, run c s) ∧ P (run c s).state) (cs : List κ) {s : σ} (h : P s) :
    ∀ p ∈ steps run cs s, Q p := by
  induction cs generalizing s with
  | nil => simp [steps]
  | cons c cs ih =>
    obtain ⟨hcall, hstate⟩ := step c s h
    rw [steps, List.forall_mem_cons]
    exact ⟨hcall, ih hstate⟩

/-! ## The state at the end -/

/-- The state that calls put one after another lead to. -/
def after (run : κ → σ → Outcome σ ε ρ) : List κ → σ → σ
  | [], s => s
  | c :: cs, s => after run cs (run c s).state

theorem after_append (run : κ → σ → Outcome σ ε ρ) (cs cs' : List κ) (s : σ) :
    after run (cs ++ cs') s = after run cs' (after run cs s) := by
  induction cs generalizing s with
  | nil => rfl
  | cons c cs ih => exact ih (run c s).state

theorem steps_take (run : κ → σ → Outcome σ ε ρ) (n : Nat) (cs : List κ) (s : σ) :
    steps run (cs.take n) s = (steps run cs s).take n := by
  induction cs generalizing n s with
  | nil => rw [List.take_nil, steps, List.take_nil]
  | cons c cs ih =>
    cases n with
    | zero => rfl
    | succ n => exact congrArg ((c, run c s) :: ·) (ih n _)

/-- What every call keeps is kept by every history. -/
theorem after_invariant {run : κ → σ → Outcome σ ε ρ} {P : σ → Prop}
    (step : ∀ c s, P s → P (run c s).state) (cs : List κ) {s : σ} (h : P s) :
    P (after run cs s) := by
  induction cs generalizing s with
  | nil => exact h
  | cons c cs ih => exact ih (step c s h)

end Containers
