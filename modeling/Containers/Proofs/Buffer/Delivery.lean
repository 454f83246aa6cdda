import Containers.Buffer.Any
import Containers.Proofs.History

/-!
# Everything is handed out once

A buffer in one part, whether it is behind a lock or has a single shard, is a list to which elements are
appended until a flush takes all of them.  The list is `backlog`; it knows nothing of locks, of the counter
that chooses a shard, or of room that was asked for.

* `AnyBuffer.ask_backlog` compares one question, with `AnyBuffer.Holds` as the relation between the buffer
  and the list, and `AnyBuffer.history_backlog` compares whole histories.
* `handedOut_append_backlog` is the account of one question, and `exists_rest` that of a history: what was
  given is what was handed out and what is still there, in this order.
* `AnyBuffer.history_delivers` puts the two together, so that it is settled what each flush answers and what
  it leaves.

The counter of a sharded buffer may come round any number of times: with one shard its remainder is zero.
-/

set_option autoImplicit false

namespace Containers

variable {α : Type}

/-! ## Questions -/

/-- What can be asked of a buffer. -/
inductive BufferQuestion (α : Type) where
  /-- A call. -/
  | call (c : BufferCall α)
  /-- A copy of the elements, to be consumed. -/
  | all

/-- What a buffer answers. -/
inductive BufferAnswer (α : Type) where
  /-- The answer to a call, or its fault. -/
  | reply (answer : Except Fault (BufferReply α))
  /-- A copy of the elements. -/
  | snapshot (s : Snapshot α)

/-- Puts a question to a buffer. -/
def AnyBuffer.ask : BufferQuestion α → AnyBuffer α → BufferAnswer α × AnyBuffer α
  | .call c, b => (.reply (b.run c).answer, (b.run c).state)
  | .all, b => (.snapshot b.all, b)

/-- Puts a question to a plain list of the elements that have not been taken. -/
def backlog : BufferQuestion α → List α → BufferAnswer α × List α
  | .call (.append x), xs => (.reply (.ok .done), xs ++ [x])
  | .call (.extend ys), xs => (.reply (.ok .done), xs ++ ys)
  | .call .flush, xs => (.reply (.ok (.items xs.toArray)), [])
  | .call .peek, xs => (.reply (.ok (.items xs.toArray)), xs)
  | .call .size, xs => (.reply (.ok (.count xs.length)), xs)
  | .call .isEmpty, xs => (.reply (.ok (.flag xs.isEmpty)), xs)
  | .all, xs => (.snapshot (.ofArray xs.toArray), xs)

/-! ## Given and handed out -/

/-- The elements that a question brings. -/
def BufferQuestion.given : BufferQuestion α → List α
  | .call (.append x) => [x]
  | .call (.extend xs) => xs
  | _ => []

/-- The elements that are handed out for good: those that a flush answers. -/
def handedOut : BufferQuestion α × BufferAnswer α → List α
  | (.call .flush, .reply (.ok (.items xs))) => xs.toList
  | _ => []

/-- One question: what was there and what it brings is what it hands out and what is there then. -/
theorem handedOut_append_backlog (c : BufferQuestion α) (xs : List α) :
    handedOut (c, (backlog c xs).1) ++ (backlog c xs).2 = xs ++ c.given := by
  cases c with
  | all => exact (List.append_nil xs).symm
  | call c =>
    cases c with
    | append x => rfl
    | extend ys => rfl
    | flush => rfl
    | _ => exact (List.append_nil xs).symm

/-- A history: what is there at the end is what a last look shows, and it makes up for the rest. -/
theorem exists_rest (cs : List (BufferQuestion α)) (xs : List α) : ∃ rest : Array α,
    history backlog (cs ++ [.call .peek]) xs =
        history backlog cs xs ++ [.reply (.ok (.items rest))] ∧
      (cs.zip (history backlog cs xs)).flatMap handedOut ++ rest.toList =
        xs ++ cs.flatMap BufferQuestion.given := by
  induction cs generalizing xs with
  | nil => exact ⟨xs.toArray, rfl, (List.append_nil xs).symm⟩
  | cons c cs ih =>
    obtain ⟨rest, hlast, haccount⟩ := ih (backlog c xs).2
    refine ⟨rest, congrArg (_ :: ·) hlast, ?_⟩
    rw [history, List.zip_cons_cons, List.flatMap_cons, List.append_assoc, haccount,
      ← List.append_assoc, handedOut_append_backlog, List.append_assoc, ← List.flatMap_cons]

/-! ## Buffers in one part -/

namespace ShardedBuffer

/-- The buffer has one shard, and this one holds the elements. -/
def HoldsInOne (xs : List α) (b : ShardedBuffer α) : Prop :=
  ∃ shard : LockedBuffer α, b.shards = #[shard] ∧ shard.peek = xs.toArray

namespace HoldsInOne

variable {b : ShardedBuffer α} {xs : List α}

theorem peek_eq (h : b.HoldsInOne xs) : b.peek = xs.toArray := by
  obtain ⟨shard, hshards, hpeek⟩ := h
  rw [peek, hshards, ← hpeek]
  exact Array.empty_append

theorem size_eq (h : b.HoldsInOne xs) : b.size = xs.length := by
  obtain ⟨shard, hshards, hpeek⟩ := h
  have hsize : shard.size = shard.peek.size := rfl
  rw [size, hshards, ← List.size_toArray, ← hpeek, ← hsize]
  exact Nat.zero_add _

/-- Whatever the counter says, it is the turn of the only shard. -/
theorem addition (h : b.HoldsInOne xs) {ys : List α} {f : LockedBuffer α → LockedBuffer α}
    (hf : ∀ shard, (f shard).peek = shard.peek ++ ys) :
    (b.addition f).HoldsInOne (xs ++ ys) := by
  obtain ⟨shard, hshards, hpeek⟩ := h
  refine ⟨f shard, ?_, ?_⟩
  · show b.shards.modify (b.next.toNat % b.shards.size) f = _
    rw [hshards, List.size_toArray, List.length_singleton, Nat.mod_one]
    rfl
  · rw [hf, hpeek, List.toArray_appendList]

theorem flush (h : b.HoldsInOne xs) :
    b.flush.answer = .ok xs.toArray ∧ b.flush.state.HoldsInOne [] := by
  obtain ⟨shard, hshards, hpeek⟩ := id h
  refine ⟨congrArg Except.ok h.peek_eq, shard.flush.2, ?_, rfl⟩
  show b.shards.map (fun shard => shard.flush.2) = _
  rw [hshards, List.map_toArray]
  rfl

end HoldsInOne

end ShardedBuffer

namespace AnyBuffer

variable {b : AnyBuffer α} {xs : List α}

/-- The buffer is in one part and holds the elements. -/
def Holds (xs : List α) : AnyBuffer α → Prop
  | .locked b => b.peek = xs.toArray
  | .sharded b => b.HoldsInOne xs

theorem Holds.peek_eq (h : b.Holds xs) : b.peek = xs.toArray := by
  cases b with
  | locked b => exact h
  | sharded b => exact ShardedBuffer.HoldsInOne.peek_eq h

/-- A question is answered as the list answers it, and the buffer holds what the list becomes. -/
theorem ask_backlog (c : BufferQuestion α) (h : b.Holds xs) :
    (b.ask c).1 = (backlog c xs).1 ∧ (b.ask c).2.Holds (backlog c xs).2 := by
  have hempty : xs.isEmpty = (xs.length == 0) := by cases xs <;> rfl
  cases c with
  | all => exact ⟨congrArg (fun items => BufferAnswer.snapshot (.ofArray items)) h.peek_eq, h⟩
  | call c =>
    cases b with
    | locked b =>
      have hpeek : b.peek = xs.toArray := h
      have hsize : b.size = xs.length := congrArg Array.size hpeek
      cases c with
      | append x =>
        refine ⟨rfl, ?_⟩
        show (b.append x).peek = (xs ++ [x]).toArray
        rw [LockedBuffer.peek_append, hpeek, List.push_toArray]
      | extend ys =>
        refine ⟨rfl, ?_⟩
        show (b.extend ys).peek = (xs ++ ys).toArray
        rw [LockedBuffer.peek_extend, hpeek, List.toArray_appendList]
      | flush => exact ⟨congrArg (fun items => BufferAnswer.reply (.ok (.items items))) hpeek, rfl⟩
      | peek => exact ⟨congrArg (fun items => BufferAnswer.reply (.ok (.items items))) hpeek, h⟩
      | size => exact ⟨congrArg (fun n => BufferAnswer.reply (.ok (.count n))) hsize, h⟩
      | isEmpty =>
        rw [backlog, hempty, ← hsize]
        exact ⟨rfl, h⟩
    | sharded b =>
      have hone : b.HoldsInOne xs := h
      cases c with
      | append x => exact ⟨rfl, hone.addition fun shard => rfl⟩
      | extend ys =>
        refine ⟨rfl, ?_⟩
        cases ys with
        | nil => rwa [backlog, List.append_nil]
        | cons y ys => exact hone.addition (LockedBuffer.peek_extend (y :: ys))
      | flush =>
        obtain ⟨hanswer, hstate⟩ := hone.flush
        exact ⟨congrArg BufferAnswer.reply (congrArg (Except.map BufferReply.items) hanswer), hstate⟩
      | peek => exact ⟨congrArg (fun items => BufferAnswer.reply (.ok (.items items))) hone.peek_eq, h⟩
      | size => exact ⟨congrArg (fun n => BufferAnswer.reply (.ok (.count n))) hone.size_eq, h⟩
      | isEmpty =>
        rw [backlog, hempty, ← hone.size_eq]
        exact ⟨rfl, h⟩

/-- The buffer has just been built and is in one part: it is behind one lock, or no more than one shard was
asked for.  Any room may have been asked for that could be given, whatever the elements take of it. -/
def NewInOne (b : AnyBuffer α) : Prop :=
  ∃ (bytes : Footprint) (kind : BufferKind) (config : BufferConfig),
    (ofConfig bytes kind config).1 = .ok b ∧
    (kind = .sharded → config.shardCount = 0 ∨ config.shardCount = 1)

theorem NewInOne.holds (hb : b.NewInOne) : b.Holds [] := by
  obtain ⟨bytes, kind, config, hbuilt, hone⟩ := hb
  cases kind with
  | locked lock =>
    rw [ofConfig, LockedBuffer.ofConfig, LockedBuffer.ofCapacity] at hbuilt
    split at hbuilt <;> cases hbuilt
    rfl
  | sharded =>
    have hshards : config.effectiveShards = 1 := by
      rw [BufferConfig.effectiveShards]
      rcases hone rfl with h | h <;> rw [h] <;> rfl
    rw [ofConfig, ShardedBuffer.ofConfig, ShardedBuffer.ofConfig?, LockedBuffer.ofCapacity] at hbuilt
    split at hbuilt
    · split at hbuilt <;> cases hbuilt
      refine ⟨.empty .readWrite, ?_, rfl⟩
      show Array.replicate config.effectiveShards.toNat _ = _
      rw [hshards]
      rfl
    · cases hbuilt

theorem history_backlog (hb : b.NewInOne) (cs : List (BufferQuestion α)) :
    history ask cs b = history backlog cs [] :=
  history_eq (R := fun b xs => Holds xs b) (fun c _ _ h => ask_backlog c h) cs hb.holds

/-- **Buffers in one part are all alike, and each hands out once what it is given.**  Whatever is asked of
them, a new buffer answers as the list of what has not been taken does: a flush answers all of it and leaves
nothing.  So two new buffers answer the same; and what the flushes of a history answer, followed by what a
look at its end shows, is what was given, in the order in which it was given. -/
theorem history_delivers {b b' : AnyBuffer α} (hb : b.NewInOne) (hb' : b'.NewInOne)
    (cs : List (BufferQuestion α)) :
    history ask cs b = history backlog cs [] ∧ history ask cs b = history ask cs b' ∧
      ∃ rest : Array α,
        history ask (cs ++ [.call .peek]) b = history ask cs b ++ [.reply (.ok (.items rest))] ∧
        (cs.zip (history ask cs b)).flatMap handedOut ++ rest.toList =
          cs.flatMap BufferQuestion.given := by
  rw [history_backlog hb, history_backlog hb', history_backlog hb]
  exact ⟨rfl, rfl, exists_rest cs []⟩

/-- A buffer behind a mutex and one that was to have no shards, with two flushes, a batch of nothing and a
batch that nobody takes. -/
theorem history_delivers_no_shards : ∃ (b b' : AnyBuffer Nat) (cs : List (BufferQuestion Nat)),
    cs = [.call (.append 1), .call (.extend [2, 3]), .call .flush, .call (.extend []), .call .flush,
      .call (.append 4), .all, .call (.extend [5, 6])] ∧
    (ofConfig ⟨8, 128⟩ (.locked .exclusive) ⟨7, 5⟩).1 = .ok b ∧
    (ofConfig ⟨8, 128⟩ .sharded ⟨0, 0⟩).1 = .ok b' ∧
    b.NewInOne ∧ b'.NewInOne ∧ history ask cs b = history backlog cs [] ∧
    history ask cs b = history ask cs b' ∧ ∃ rest : Array Nat,
      history ask (cs ++ [.call .peek]) b = history ask cs b ++ [.reply (.ok (.items rest))] ∧
      (cs.zip (history ask cs b)).flatMap handedOut ++ rest.toList = [1, 2, 3, 4, 5, 6] := by
  obtain ⟨b, hb⟩ : ∃ b : AnyBuffer Nat, (ofConfig ⟨8, 128⟩ (.locked .exclusive) ⟨7, 5⟩).1 = .ok b :=
    ⟨_, rfl⟩
  obtain ⟨b', hb'⟩ : ∃ b : AnyBuffer Nat, (ofConfig ⟨8, 128⟩ .sharded ⟨0, 0⟩).1 = .ok b := ⟨_, rfl⟩
  have hnew : b.NewInOne := ⟨_, _, _, hb, fun h => by cases h⟩
  have hnew' : b'.NewInOne := ⟨_, _, _, hb', fun _ => .inl rfl⟩
  obtain ⟨hlist, hsame, rest, hlast, haccount⟩ := history_delivers hnew hnew'
    [.call (.append 1), .call (.extend [2, 3]), .call .flush, .call (.extend []), .call .flush,
      .call (.append 4), .all, .call (.extend [5, 6])]
  exact ⟨b, b', _, rfl, hb, hb', hnew, hnew', hlist, hsame, rest, hlast, haccount⟩

end AnyBuffer

end Containers
