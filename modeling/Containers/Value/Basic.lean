/-!
# Values

The containers of this library are generic in what they hold.  This file fixes the one concrete
universe that documents are written in: `Value`, the JSON values without objects and
without fractional numbers.  Integers are 64-bit words, so a value is exactly what a document of
that kind can carry.

* `Value.compare` is the order of values: first by shape (`null`, truth values, integers, texts,
  lists, in this sequence), then inside one shape by the natural order, lists lexicographically.
* `Value.key` is the one number that the coarser comparisons look at.
* Equality of values is decidable (`Value.beq_iff_eq`), and equal values have equal hashes.
-/

set_option autoImplicit false

namespace Containers

/-- A JSON value without objects: `null`, a truth value, a 64-bit integer, a text or a list. -/
inductive Value where
  | null
  | bool (b : Bool)
  | int (i : Int64)
  | text (s : String)
  | list (vs : List Value)
  deriving Inhabited

namespace Value

/-! ## Equality -/

mutual

/-- Structural equality. -/
protected def beq : Value → Value → Bool
  | .null, .null => true
  | .bool a, .bool b => a == b
  | .int a, .int b => a == b
  | .text a, .text b => a == b
  | .list as, .list bs => beqList as bs
  | _, _ => false

/-- Structural equality, element by element. -/
def beqList : List Value → List Value → Bool
  | [], [] => true
  | a :: as, b :: bs => a.beq b && beqList as bs
  | _, _ => false

end

mutual

theorem beq_iff_eq : ∀ a b : Value, a.beq b = true ↔ a = b
  | .null, b => by cases b <;> simp [Value.beq]
  | .bool _, b => by cases b <;> simp [Value.beq]
  | .int _, b => by cases b <;> simp [Value.beq]
  | .text _, b => by cases b <;> simp [Value.beq]
  | .list as, b => by
    cases b with
    | list bs => simp [Value.beq, beqList_iff_eq as bs]
    | _ => simp [Value.beq]

theorem beqList_iff_eq : ∀ as bs : List Value, Value.beqList as bs = true ↔ as = bs
  | [], bs => by cases bs <;> simp [Value.beqList]
  | a :: as, bs => by
    cases bs with
    | nil => simp [Value.beqList]
    | cons b bs => simp [Value.beqList, beq_iff_eq a b, beqList_iff_eq as bs]

end

instance : DecidableEq Value := fun a b => decidable_of_iff _ (beq_iff_eq a b)

/-! ## Hashing -/

mutual

/-- A hash that looks at the whole value. -/
protected def hash : Value → UInt64
  | .null => 11
  | .bool b => mixHash 13 (Hashable.hash b)
  | .int i => mixHash 17 (Hashable.hash i.toInt)
  | .text s => mixHash 19 (Hashable.hash s)
  | .list vs => mixHash 23 (hashList vs)

/-- The hash of a list of values, mixed from its elements. -/
def hashList : List Value → UInt64
  | [] => 7
  | v :: vs => mixHash v.hash (hashList vs)

end

instance : Hashable Value := ⟨Value.hash⟩

/-! ## Order -/

/-- The place of a value's shape in the order. -/
def shape : Value → Nat
  | .null => 0
  | .bool _ => 1
  | .int _ => 2
  | .text _ => 3
  | .list _ => 4

mutual

/-- The order of values: by shape, then by content.  Truth values count `false` first, texts go by
code points, and a list comes after its proper initial segments. -/
protected def compare : Value → Value → Ordering
  | .bool a, .bool b => Ord.compare a b
  | .int a, .int b => Ord.compare a b
  | .text a, .text b => Ord.compare a b
  | .list as, .list bs => compareList as bs
  | a, b => Ord.compare a.shape b.shape

/-- Lexicographic order of lists of values. -/
def compareList : List Value → List Value → Ordering
  | [], [] => .eq
  | [], _ :: _ => .lt
  | _ :: _, [] => .gt
  | a :: as, b :: bs => (a.compare b).then (compareList as bs)

end

instance : Ord Value := ⟨Value.compare⟩

/-- The number a value stands for in coarse comparisons: an integer is its own key, `true` counts
one, a text counts its code points, and a list takes the key of its first element. -/
def key : Value → Int
  | .null => 0
  | .bool b => if b then 1 else 0
  | .int i => i.toInt
  | .text s => s.length
  | .list [] => 0
  | .list (v :: _) => v.key

/-- Values in their order. -/
def sort (vs : List Value) : List Value := vs.mergeSort fun a b => (a.compare b).isLE

/-- The order of entries: by key and, under equal keys, by value. -/
def compareEntries (a b : Value × Value) : Ordering :=
  (a.1.compare b.1).then (a.2.compare b.2)

/-- Entries in their order. -/
def sortEntries (es : List (Value × Value)) : List (Value × Value) :=
  es.mergeSort fun a b => (compareEntries a b).isLE

end Value

end Containers
