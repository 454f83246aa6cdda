import Containers.Proofs.Heap.Slots

/-!
# The heap order under the sifts

`Ordered` speaks of pairs: a slot and the slot above it.  While an operation is under way the order
is lost at a few pairs, all of them around one slot, and it is the sifts' work to restore it there.
What they rely on is said once, for one slot in trouble:

* `Disturbed less W items node` — every pair that does not touch slot `node` is in order, and the
  elements below `node` could stand right under the one above `node`.  The second half is what makes
  an exchange safe: whatever moves past `node`, up or down, meets a neighbour it does not outrank.
* `Rising` adds that the element in `node` may stay above its children, so only the pair above it can
  be wrong; `Sinking` adds that it may stay below its parent, so only the pairs below it can be.

Each exchange of `siftUp` turns a `Rising` array into one that rises from the parent, and each
exchange of `descend` turns a `Disturbed` array into one that sinks from the preferred child.  Only
the pairs whose upper slot is in `W` are looked at.  With all slots in `W` this is about whole heaps;
with the slots from some number on it is about the half-ordered arrays of `heapify`; with the slots
of a subtree it is about that subtree.
-/

set_option autoImplicit false

namespace Containers

/-! ## Priorities that are strict weak orders -/

namespace Priority

/-- The smallest element first leaves open only what the comparison finds equal. -/
theorem incomparable_minFirst_iff {α : Type} [Ord α] [Std.OrientedOrd α] {a b : α} :
    Incomparable (minFirst : Priority α) a b ↔ compare a b = .eq := by
  rw [Incomparable, minFirst, minFirst, Std.OrientedOrd.eq_swap (a := b)]
  cases compare a b <;> decide

theorem isStrictWeakOrder_minFirst {α : Type} [Ord α] [Std.TransOrd α] :
    IsStrictWeakOrder (minFirst : Priority α) where
  irrefl a := by rw [minFirst, Std.ReflOrd.compare_self, Ordering.isLT_eq]
  trans a b c hab hbc := by
    rw [minFirst, Ordering.isLT_iff_eq_lt] at hab hbc ⊢
    exact Std.TransCmp.lt_trans hab hbc
  incomparable_trans a b c hab hbc := by
    rw [incomparable_minFirst_iff] at hab hbc ⊢
    exact Std.TransCmp.eq_trans hab hbc

/-- Elements can be compared by anything that they have. -/
theorem IsStrictWeakOrder.comap {α β : Type} {less : Priority α} (hl : less.IsStrictWeakOrder)
    (f : β → α) : IsStrictWeakOrder fun a b => less (f a) (f b) where
  irrefl a := hl.irrefl (f a)
  trans a b c := hl.trans (f a) (f b) (f c)
  incomparable_trans a b c := hl.incomparable_trans (f a) (f b) (f c)

/-- The same priority with one more element, which leaves after all others. -/
def noneLast {α : Type} (less : Priority α) : Priority (Option α)
  | some a, some b => less a b
  | some _, none => true
  | none, _ => false

theorem IsStrictWeakOrder.noneLast {α : Type} {less : Priority α} (hl : less.IsStrictWeakOrder) :
    IsStrictWeakOrder (noneLast less) where
  irrefl a := by
    cases a with
    | none => rfl
    | some a => exact hl.irrefl a
  trans a b c hab hbc := by
    obtain - | a := a
    · cases hab
    obtain - | b := b
    · cases hbc
    cases c with
    | none => rfl
    | some c => exact hl.trans a b c hab hbc
  incomparable_trans a b c hab hbc := by
    obtain - | a := a <;> obtain - | b := b
    · exact hbc
    · cases hab.2
    · cases hab.1
    cases c with
    | none => cases hbc.1
    | some c => exact hl.incomparable_trans a b c hab hbc

end Priority

namespace Heap

open Storage (precedes)

variable {α ε : Type} {less : Priority α} {items : Array α}

/-! ## Not being outranked -/

theorem precedes_irrefl (hl : less.IsStrict) (i : Nat) : precedes less items i i = false := by
  refine not_precedes_of_lt fun hi _ => ?_
  rw [precedes_eq hi hi, hl.irrefl]

theorem precedes_asymm (hl : less.IsStrict) {i j : Nat} (hij : precedes less items i j = true) :
    precedes less items j i = false := by
  obtain ⟨hi, hj⟩ := lt_size_of_precedes hij
  rw [precedes_eq hi hj] at hij
  rw [precedes_eq hj hi, hl.asymm hij]

/-- Not being outranked is transitive, provided there is an element in the slot between. -/
theorem not_precedes_trans (hl : less.IsStrictWeakOrder) {i j k : Nat} (hj : j < items.size)
    (hji : precedes less items j i = false) (hkj : precedes less items k j = false) :
    precedes less items k i = false := by
  refine not_precedes_of_lt fun hk hi => ?_
  rw [precedes_eq hj hi] at hji
  rw [precedes_eq hk hj] at hkj
  rw [precedes_eq hk hi, hl.not_less_trans hji hkj]

/-! ## Pairs of slots -/

/-- The order, read off comparisons of slots. -/
theorem ordered_iff :
    Ordered less items ↔ ∀ i p, IsChild i p → precedes less items i p = false := by
  constructor
  · rintro h i _ ⟨hi, rfl⟩
    refine not_precedes_of_lt fun h₁ h₂ => ?_
    rw [precedes_eq h₁ h₂]
    exact h i _ _ hi (Array.getElem?_eq_getElem h₁) (Array.getElem?_eq_getElem h₂)
  · intro h i a b hi ha hb
    have hip := h i _ (isChild_parent hi)
    rwa [precedes, ha, hb] at hip

/-- The pairs whose upper slot is in `W` are in order. -/
def OrderedOn (less : Priority α) (W : Nat → Prop) (items : Array α) : Prop :=
  ∀ i p, IsChild i p → W p → precedes less items i p = false

theorem ordered_iff_orderedOn : Ordered less items ↔ OrderedOn less (fun _ => True) items :=
  ordered_iff.trans
    ⟨fun h i p hip _ => h i p hip, fun h i p hip => h i p hip trivial⟩

/-- A set of slots that contains the children of its slots. -/
def Downward (W : Nat → Prop) : Prop := ∀ i p, IsChild i p → W p → W i

/-- Every pair off slot `node` is in order, and what is below `node` could be below its parent. -/
structure Disturbed (less : Priority α) (W : Nat → Prop) (items : Array α) (node : Nat) : Prop where
  pairs : ∀ i p, IsChild i p → W p → i ≠ node → p ≠ node → precedes less items i p = false
  grandparent : ∀ i p, IsChild i node → IsChild node p → W p → precedes less items i p = false

/-- Only the pair above slot `node` can be out of order. -/
structure Rising (less : Priority α) (items : Array α) (node : Nat) : Prop
    extends Disturbed less (fun _ => True) items node where
  children : ∀ i, IsChild i node → precedes less items i node = false

/-- Only the pairs below slot `node` can be out of order. -/
structure Sinking (less : Priority α) (W : Nat → Prop) (items : Array α) (node : Nat) : Prop
    extends Disturbed less W items node where
  above : ∀ p, IsChild node p → W p → precedes less items node p = false

variable {W : Nat → Prop}

/-- A slot in order with its parent and its children is no trouble at all. -/
theorem Disturbed.orderedOn {node : Nat} (h : Disturbed less W items node)
    (above : ∀ p, IsChild node p → W p → precedes less items node p = false)
    (children : ∀ i, IsChild i node → precedes less items i node = false) :
    OrderedOn less W items := by
  intro i p hip hp
  by_cases hi : i = node
  · subst hi
    exact above p hip hp
  · by_cases hpn : p = node
    · subst hpn
      exact children i hip
    · exact h.pairs i p hip hp hi hpn

/-- Changing what is in one slot disturbs that slot and no other.  The change may be of the array, of
the priority, or of both: `agree` only asks that no other two slots compare worse than before. -/
theorem Ordered.disturbed {less' : Priority α} {items' : Array α} {node : Nat}
    (hl : less.IsStrictWeakOrder) (h : Ordered less items)
    (agree : ∀ i j, i ≠ node → j ≠ node → precedes less items i j = false →
      precedes less' items' i j = false) :
    Disturbed less' W items' node := by
  rw [ordered_iff] at h
  refine ⟨fun i p hip _ hi hp => agree i p hi hp (h i p hip), fun i p hi hp _ => ?_⟩
  refine agree i p (Nat.ne_of_gt hi.lt) (Nat.ne_of_lt hp.lt) (not_precedes_of_lt fun hin _ => ?_)
  exact not_precedes_trans hl (Nat.lt_trans hi.lt hin) (h node p hp) (h i node hi)

/-- Where no pair above slot `node` is looked at, only the pairs right below it may be out of order. -/
theorem OrderedOn.disturbed {node : Nat} (htop : ∀ p, IsChild node p → ¬ W p)
    (h : OrderedOn less (fun p => W p ∧ p ≠ node) items) : Disturbed less W items node where
  pairs i p hip hp _ hpn := h i p hip ⟨hp, hpn⟩
  grandparent _ p _ hnp hp := absurd hp (htop p hnp)

/-- A slot that does not exist cannot be in trouble. -/
theorem Disturbed.ordered_of_size_le {node : Nat} (h : Disturbed less (fun _ => True) items node)
    (hn : items.size ≤ node) : Ordered less items := by
  refine ordered_iff.2 fun i p hip => not_precedes_of_lt fun hi hp => ?_
  exact h.pairs i p hip trivial (by omega) (by omega)

end Heap

end Containers
