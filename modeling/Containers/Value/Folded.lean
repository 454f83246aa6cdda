import Containers.Value.Basic

/-!
# Keys compared without regard to case

A container of keys takes its notion of equal keys from the key type.  `FoldedKey` is a value as a
key under a coarser notion: two keys are equal when their values are, after the ASCII capital
letters of a top-level text have been made small.  The stored value keeps its spelling, which is how
one sees *which* of several equal keys a container has kept.

The two laws that hashed containers ask of a key type hold here: equality is an equivalence, and
equal keys have equal hashes.  Finer than `==` is `=`, which tells spellings apart.
-/

set_option autoImplicit false

namespace Containers

/-- The value with the ASCII capitals of a top-level text made small. -/
def Value.fold : Value → Value
  | .text s => .text (s.map Char.toLower)
  | v => v

/-- A value as a key that ignores the case of a top-level text. -/
structure FoldedKey where
  /-- The key as it was spelled. -/
  value : Value
  deriving DecidableEq

namespace FoldedKey

instance : BEq FoldedKey := ⟨fun a b => a.value.fold == b.value.fold⟩

instance : Hashable FoldedKey := ⟨fun a => hash a.value.fold⟩

theorem beq_iff (a b : FoldedKey) : (a == b) = true ↔ a.value.fold = b.value.fold := by
  show (a.value.fold == b.value.fold) = true ↔ _
  exact beq_iff_eq

/-- Texts are one key if they are the same text in small letters. -/
theorem text_beq_text {s t : String}
    (h : s.toList.map Char.toLower = t.toList.map Char.toLower) :
    ((⟨.text s⟩ : FoldedKey) == ⟨.text t⟩) = true := by
  rw [beq_iff, Value.fold, Value.fold, Value.text.injEq, ← String.toList_inj, String.toList_map,
    String.toList_map, h]

instance : EquivBEq FoldedKey where
  rfl := by intro a; rw [beq_iff]
  symm := by intro a b; rw [beq_iff, beq_iff]; exact Eq.symm
  trans := by intro a b c; rw [beq_iff, beq_iff, beq_iff]; exact Eq.trans

instance : LawfulHashable FoldedKey where
  hash_eq := by
    intro a b h
    show hash a.value.fold = hash b.value.fold
    rw [(beq_iff a b).1 h]

end FoldedKey

end Containers
