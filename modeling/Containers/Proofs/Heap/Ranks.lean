import Containers.Proofs.Heap.Rest
import Containers.Value.Ranking

/-!
# Priorities that contents can be put in order by

A downward sift compares an element with one of its children only, the preferred one, and if that one stays the
other child is taken to stay as well.  For a strict weak order this is so.  It is not so for all priorities that
are irreflexive and transitive: if the preferred child is incomparable with both its sibling and the element above,
the sibling may precede that element and is not looked at.  Then contents that were put in order are found not to be.

`heapify_isOrdered_iff` says that there is no way around it.  The priorities that `heapify` puts all contents in
order by are the strict weak orders and no others.  Two elements show that the priority has to be asymmetric, and
three that not to precede has to be transitive; that is all there is to a strict weak order
(`isStrictWeakOrder_iff`).
-/

set_option autoImplicit false

namespace Containers

variable {α ε : Type}

/-- A strict weak order is asymmetric, and under it not to precede is transitive. -/
theorem Priority.isStrictWeakOrder_iff {less : Priority α} :
    less.IsStrictWeakOrder ↔ (∀ a b, less a b = true → less b a = false) ∧
      ∀ a b c, less b a = false → less c b = false → less c a = false := by
  constructor
  · exact fun h => ⟨fun a b => h.asymm, fun a b c => h.not_less_trans⟩
  · rintro ⟨hasymm, hnot⟩
    have hirrefl (a : α) : less a a = false := by
      cases h : less a a with
      | false => rfl
      | true => exact h.symm.trans (hasymm a a h)
    refine ⟨⟨hirrefl, fun a b c hab hbc => ?_⟩, fun a b c hab hbc => ?_⟩
    · cases hac : less a c with
      | true => rfl
      | false => exact (hnot b c a (hasymm b c hbc) hac).symm.trans hab
    · exact ⟨hnot c b a hbc.1 hab.1, hnot a b c hab.2 hbc.2⟩

namespace Heap

open Storage (precedes)

variable {r : Rules α ε} {a b c : α}

/-! ## Two elements and three -/

/-- Where only the root has children, only the root is sifted down. -/
theorem heapify_of_half_eq_one {s : Storage α ε} (hs : s.size / 2 = 1) :
    heapify r s = (siftDown r 0 s).2 := by
  rw [heapify, hs, heapifyFrom, heapifyFrom]

/-- Of two elements the one that precedes the other goes to the root. -/
theorem items_heapify_two (h : r.less b a = true) : (heapify r (.ofArray #[a, b])).items = #[b, a] := by
  have hlt : precedes r.less (Storage.ofArray #[a, b] : Storage α ε).items 1 0 = true := h
  have honly : preferredChild r 2 0 (.ofArray #[a, b]) = (1, .ofArray #[a, b]) := by
    simp [preferredChild, leftChild]
  have hleaf (s : Storage α ε) : descend r 2 1 s = (1, s) := by
    rw [descend, if_neg (by decide)]
  rw [heapify_of_half_eq_one (by simp), siftDown]
  show (descend r 2 0 (.ofArray #[a, b])).2.items = _
  rw [descend, if_pos (by decide), honly]
  dsimp only
  rw [Storage.compareAt_fst, if_pos hlt, hleaf, Storage.items_swapAt, Storage.items_compareAt]
  rfl

/-- A first child that neither precedes the root nor is preceded by the second hides the second. -/
theorem items_heapify_three (hb : r.less b a = false) (hc : r.less c b = false) :
    (heapify r (.ofArray #[a, b, c])).items = #[a, b, c] := by
  have hfirst : (preferredChild r 3 0 (.ofArray #[a, b, c])).1 = 1 := by
    have hsecond : precedes r.less #[a, b, c] 2 1 = false := hc
    simp [preferredChild, leftChild, Storage.ofArray, hsecond]
  have hstays : precedes r.less #[a, b, c] 1 0 = false := hb
  rw [heapify_of_half_eq_one (by simp)]
  refine (siftDown_of_not_precedes ?_).2.items_eq
  rw [Storage.size_ofArray]
  show precedes r.less #[a, b, c] (preferredChild r 3 0 (.ofArray #[a, b, c])).1 0 = false
  rwa [hfirst]

/-! ## All contents -/

/-- **What contents can be put in order by are the strict weak orders**, and no other priorities: by any other there
are two or three elements that are not found in order after they were put in order. -/
theorem heapify_isOrdered_iff (r : Rules α ε) :
    (∀ items : Array α, (isOrdered r (heapify r (.ofArray items))).1 = true) ↔
      r.less.IsStrictWeakOrder := by
  simp only [isOrdered_iff]
  refine ⟨fun h => Priority.isStrictWeakOrder_iff.2 ⟨fun b a hba => ?_, fun a b c hba hcb => ?_⟩,
    fun hl items => heapify_ordered hl _⟩
  · have htwo := h #[a, b]
    rw [items_heapify_two hba] at htwo
    exact htwo 1 a b Nat.one_pos rfl rfl
  · have hthree := h #[a, b, c]
    rw [items_heapify_three hba hcb] at hthree
    exact hthree 2 c a Nat.two_pos rfl rfl

/-- **Not every irreflexive and transitive priority will do.**  A negative key is comparable with nothing, so the
`-1` hides the `3` that should have gone to the root. -/
theorem heapify_not_isOrdered : Ranking.nonNegative.less.IsStrict ∧
    (heapify (recording Ranking.nonNegative.less) (.ofArray #[.int 5, .int (-1), .int 3])).items =
      #[.int 5, .int (-1), .int 3] ∧
    Ranking.nonNegative.less (.int 3) (.int 5) = true ∧
    ¬ ∀ (less : Priority Value) (items : Array Value), less.IsStrict →
      (isOrdered (recording less) (heapify (recording less) (.ofArray items))).1 = true := by
  have hstrict : Ranking.nonNegative.less.IsStrict := by
    constructor
    · intro a
      simp [Ranking.less]
    · intro a b c hab hbc
      simp only [Ranking.less, Bool.and_eq_true, decide_eq_true_eq] at hab hbc ⊢
      omega
  refine ⟨hstrict, by decide +kernel, by decide +kernel, fun h => ?_⟩
  have hfound := h Ranking.nonNegative.less #[.int 5, .int (-1), .int 3] hstrict
  revert hfound
  decide +kernel

end Heap

end Containers
