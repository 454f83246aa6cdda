/-!
# Priorities

A heap does not know what its elements mean.  It is given a `Priority`: a test `less a b` that says
whether `a` must leave before `b`.  Nothing in the heaps relies on the test being an order: an
inconsistent one spoils the sequence in which elements leave and nothing else.  What makes the
sequence meaningful is stated here as predicates on the test.

* `minFirst` and `maxFirst` are the two priorities that every ordered type brings along.
* `Priority.IsStrict` is the weaker of the two contracts: irreflexive and transitive.
* `Priority.IsStrictWeakOrder` adds that being incomparable is transitive too, so that the elements
  fall into ranks.
-/

set_option autoImplicit false

namespace Containers

/-- A priority test: `less a b` says that `a` must leave before `b`. -/
abbrev Priority (α : Type) := α → α → Bool

/-- The smallest element leaves first. -/
def minFirst {α : Type} [Ord α] : Priority α := fun a b => (compare a b).isLT

/-- The largest element leaves first. -/
def maxFirst {α : Type} [Ord α] : Priority α := fun a b => (compare a b).isGT

/-- Nothing precedes itself, and precedence is transitive. -/
structure Priority.IsStrict {α : Type} (less : Priority α) : Prop where
  /-- Nothing leaves before itself. -/
  irrefl : ∀ a, less a a = false
  /-- What leaves before something leaves before all that follows it. -/
  trans : ∀ a b c, less a b = true → less b c = true → less a c = true

/-- Two elements neither of which precedes the other. -/
def Priority.Incomparable {α : Type} (less : Priority α) (a b : α) : Prop :=
  less a b = false ∧ less b a = false

/-- A strict priority under which being incomparable is an equivalence: elements have ranks, and
`less` compares the ranks. -/
structure Priority.IsStrictWeakOrder {α : Type} (less : Priority α) : Prop
    extends Priority.IsStrict less where
  /-- Being incomparable is transitive. -/
  incomparable_trans : ∀ a b c,
    Priority.Incomparable less a b → Priority.Incomparable less b c →
      Priority.Incomparable less a c

namespace Priority.IsStrict

variable {α : Type} {less : Priority α}

/-- Of two elements at most one precedes the other. -/
theorem asymm (h : IsStrict less) {a b : α} (hab : less a b = true) : less b a = false := by
  cases hba : less b a with
  | false => rfl
  | true => exact (h.irrefl a).symm.trans (h.trans a b a hab hba) |>.symm

end Priority.IsStrict

namespace Priority.IsStrictWeakOrder

variable {α : Type} {less : Priority α}

/-- Not being outranked is transitive: this is how ranks are compared without naming them. -/
theorem not_less_trans (h : IsStrictWeakOrder less) {a b c : α} (hba : less b a = false)
    (hcb : less c b = false) : less c a = false := by
  cases hca : less c a with
  | false => rfl
  | true =>
    cases hab : less a b with
    | true => exact (h.trans c a b hca hab).symm.trans hcb
    | false =>
      cases hbc : less b c with
      | true => exact (h.trans b c a hbc hca).symm.trans hba
      | false =>
        exact hca.symm.trans (h.incomparable_trans a b c ⟨hab, hba⟩ ⟨hbc, hcb⟩).2

end Priority.IsStrictWeakOrder

end Containers
