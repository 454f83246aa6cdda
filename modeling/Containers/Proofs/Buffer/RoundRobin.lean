import Containers.Buffer.Any
import Containers.Proofs.History
import Mathlib.Algebra.BigOperators.Group.Finset.Piecewise
import Mathlib.Algebra.GroupWithZero.Nat

/-!
# Taking turns

The shards of a buffer are served in turn.  What that means is said here without shards and words that
wrap: the insertions are numbered from 0, and shard `s` of `n` gets those whose number leaves the
remainder `s`.  An `Intake` is the record of the insertions, made from the calls alone.

* `Intake.inTurn` is what is there at some time, in the order in which it comes out.
* `ShardedBuffer.Keeps` relates a buffer to a record; `ShardedBuffer.keeps_run` is one call and
  `ShardedBuffer.keeps_after` a history.
* `ShardedBuffer.delivers` is the result: a buffer comes out in turn as long as its counter has not come
  round.
-/

set_option autoImplicit false

namespace Containers

variable {α : Type}

/-! ## The record of insertions -/

/-- A record of insertions. -/
structure Intake (α : Type) where
  /-- How many insertions there were; also the number that the next one gets. -/
  count : Nat := 0
  /-- The insertions since the last flush, with their numbers. -/
  pending : List (Nat × List α) := []

namespace Intake

variable {t : Intake α} {n : Nat}

/-- One more insertion. -/
def insert (xs : List α) (t : Intake α) : Intake α := ⟨t.count + 1, t.pending ++ [(t.count, xs)]⟩

/-- What a call means for the record.  No elements are no insertion, and a flush does not begin the
numbering again. -/
def record : BufferCall α → Intake α → Intake α
  | .append x, t => t.insert [x]
  | .extend [], t => t
  | .extend (x :: xs), t => t.insert (x :: xs)
  | .flush, t => { t with pending := [] }
  | _, t => t

/-- The record of a history. -/
def ofCalls (cs : List (BufferCall α)) : Intake α := cs.foldl (fun t c => t.record c) {}

/-- The elements that are the share of one shard of `n`. -/
def share (n s : Nat) (t : Intake α) : List α :=
  (t.pending.filter fun p => p.1 % n = s).flatMap Prod.snd

/-- All elements in the order in which they come out of `n` shards. -/
def inTurn (n : Nat) (t : Intake α) : List α := (List.range n).flatMap fun s => t.share n s

/-- The number of elements. -/
def total (t : Intake α) : Nat := (t.pending.map fun p => p.2.length).sum

theorem share_append (n s count : Nat) (ps qs : List (Nat × List α)) :
    (⟨count, ps ++ qs⟩ : Intake α).share n s =
      (⟨count, ps⟩ : Intake α).share n s ++ (⟨count, qs⟩ : Intake α).share n s := by
  rw [share, share, share, List.filter_append, List.flatMap_append]

theorem share_singleton (n s count : Nat) (p : Nat × List α) :
    (⟨count, [p]⟩ : Intake α).share n s = if p.1 % n = s then p.2 else [] := by
  by_cases hs : p.1 % n = s
  · simp [share, hs]
  · simp [share, hs]

theorem share_insert (n s : Nat) (xs : List α) (t : Intake α) :
    (t.insert xs).share n s = t.share n s ++ if t.count % n = s then xs else [] := by
  rw [insert, share_append, share_singleton]
  rfl

theorem count_le_record (c : BufferCall α) (t : Intake α) : t.count ≤ (t.record c).count := by
  cases c with
  | append x => exact Nat.le_succ _
  | extend xs =>
    cases xs with
    | nil => exact Nat.le_refl _
    | cons x xs => exact Nat.le_succ _
  | _ => exact Nat.le_refl _

theorem count_le_foldl (cs : List (BufferCall α)) (t : Intake α) :
    t.count ≤ (cs.foldl (fun t c => t.record c) t).count := by
  induction cs generalizing t with
  | nil => exact Nat.le_refl _
  | cons c cs ih => exact Nat.le_trans (count_le_record c t) (ih (t.record c))

theorem inTurn_nil (n count : Nat) : (⟨count, []⟩ : Intake α).inTurn n = [] :=
  List.flatMap_eq_nil_iff.2 fun _ _ => rfl

/-! Every pending insertion is in the share of one shard: nothing is left out and nothing comes twice. -/

theorem length_inTurn (hn : 0 < n) (t : Intake α) : (t.inTurn n).length = t.total := by
  obtain ⟨count, pending⟩ := t
  rw [inTurn, total, List.length_flatMap]
  -- on the insertions, each of which adds its length to one summand
  induction pending with
  | nil => simp [share]
  | cons p ps ih =>
    have hlength : ((List.range n).map fun s => ((⟨count, p :: ps⟩ : Intake α).share n s).length) =
        (List.range n).map fun s => (if p.1 % n = s then p.2.length else 0) +
          ((⟨count, ps⟩ : Intake α).share n s).length := by
      refine List.map_congr_left fun s _ => ?_
      rw [← List.singleton_append, share_append, share_singleton, List.length_append]
      split <;> rfl
    have hturn : ((List.range n).map fun s => if p.1 % n = s then p.2.length else 0).sum = p.2.length := by
      show ∑ s ∈ Finset.range n, (if p.1 % n = s then p.2.length else 0) = _
      rw [Finset.sum_ite_eq, if_pos (Finset.mem_range.2 (Nat.mod_lt p.1 hn))]
    rw [hlength, List.sum_map_add, hturn, ih, List.map_cons, List.sum_cons]

end Intake

/-! ## Buffers that keep a record -/

theorem BufferConfig.toNat_effectiveShards (config : BufferConfig) :
    config.effectiveShards.toNat = max config.shardCount.toNat 1 := by
  show (if config.shardCount ≤ 1 then 1 else config.shardCount).toNat = _
  split
  · rename_i h
    exact (Nat.max_eq_right (UInt64.le_iff_toNat_le.1 h)).symm
  · rename_i h
    exact (Nat.max_eq_left (UInt64.le_iff_toNat_le.1 (UInt64.le_of_lt (UInt64.not_le.1 h)))).symm

namespace ShardedBuffer

variable {b : ShardedBuffer α} {n : Nat} {t : Intake α}

/-- The buffer has `n` shards, each with its share of the record, and its counter is the number of
insertions. -/
structure Keeps (n : Nat) (t : Intake α) (b : ShardedBuffer α) : Prop where
  size_shards : b.shards.size = n
  next : b.next.toNat = t.count
  shard : ∀ s (hs : s < b.shards.size), b.shards[s].peek.toList = t.share n s

/-- The shards are read one after another. -/
theorem peek_eq_flatten (b : ShardedBuffer α) : b.peek = (b.shards.map LockedBuffer.peek).flatten := by
  rw [peek, Array.foldl_append_eq_append, Array.empty_append]

/-- They are counted as they are read. -/
theorem size_eq_size_peek (b : ShardedBuffer α) : b.size = b.peek.size := by
  rw [peek_eq_flatten, Array.size_flatten, Array.map_map, Array.sum_eq_foldl, Array.foldl_map]
  rfl

theorem shards_addition (f : LockedBuffer α → LockedBuffer α) (b : ShardedBuffer α) :
    (b.addition f).shards = b.shards.modify b.nextShard f := rfl

theorem next_addition (f : LockedBuffer α → LockedBuffer α) (b : ShardedBuffer α) :
    (b.addition f).next = b.next + 1 := rfl

theorem shards_flush (b : ShardedBuffer α) :
    b.flush.state.shards = b.shards.map fun shard => shard.flush.2 := rfl

namespace Keeps

theorem pos (h : b.Keeps n t) : 0 < n := h.size_shards ▸ b.shards_pos

theorem toList_shards (h : b.Keeps n t) :
    (b.shards.toList.map fun shard => shard.peek.toList) = (List.range n).map fun s => t.share n s := by
  refine List.ext_getElem (by simp [h.size_shards]) fun s hs _ => ?_
  simpa using h.shard s (by simpa using hs)

theorem peek_eq (h : b.Keeps n t) : b.peek = (t.inTurn n).toArray := by
  refine Array.ext' ?_
  rw [peek_eq_flatten, Array.toList_flatten, Array.toList_map, List.map_map]
  exact congrArg List.flatten h.toList_shards

theorem size_eq (h : b.Keeps n t) : b.size = t.total := by
  rw [size_eq_size_peek, h.peek_eq, List.size_toArray, Intake.length_inTurn h.pos]

/-- The shard whose turn it is gets an insertion, and the counter goes on. -/
theorem addition (h : b.Keeps n t) {xs : List α} {f : LockedBuffer α → LockedBuffer α}
    (hf : ∀ shard, (f shard).peek.toList = shard.peek.toList ++ xs) (hc : t.count + 1 < 2 ^ 64) :
    (b.addition f).Keeps n (t.insert xs) := by
  constructor
  case size_shards => rw [shards_addition, Array.size_modify, h.size_shards]
  case next =>
    rw [next_addition, UInt64.toNat_add, h.next]
    exact Nat.mod_eq_of_lt hc
  case shard =>
    intro s hs
    have hs' : s < b.shards.size := by rwa [shards_addition, Array.size_modify] at hs
    have hturn : b.nextShard = t.count % n := by rw [nextShard, h.next, h.size_shards]
    simp only [shards_addition, Array.getElem_modify, hturn]
    rw [Intake.share_insert, ← h.shard s hs']
    split
    · exact hf b.shards[s]
    · exact (List.append_nil _).symm

theorem flush (h : b.Keeps n t) : b.flush.state.Keeps n { t with pending := [] } := by
  constructor
  case size_shards => rw [shards_flush, Array.size_map, h.size_shards]
  case next => exact h.next
  case shard =>
    intro s hs
    simp only [shards_flush, Array.getElem_map, LockedBuffer.peek_flush]
    rfl

end Keeps

/-- What one call does to the buffer, it does to the record. -/
theorem keeps_run (h : b.Keeps n t) (c : BufferCall α) (hc : (t.record c).count < 2 ^ 64) :
    (b.run c).state.Keeps n (t.record c) := by
  cases c with
  | append x => exact h.addition (fun shard => Array.toList_push) hc
  | extend xs =>
    cases xs with
    | nil => exact h
    | cons x xs =>
      refine h.addition (fun shard => ?_) hc
      rw [LockedBuffer.peek_extend]
      exact Array.toList_appendList
  | flush => exact h.flush
  | _ => exact h

theorem keeps_after (h : b.Keeps n t) {cs : List (BufferCall α)}
    (hcs : (cs.foldl (fun t c => t.record c) t).count < 2 ^ 64) :
    (after run cs b).Keeps n (cs.foldl (fun t c => t.record c) t) := by
  induction cs generalizing b t with
  | nil => exact h
  | cons c cs ih =>
    -- numbers never go back, so the counter does not come round on the way either
    exact ih (keeps_run h c (Nat.lt_of_le_of_lt (Intake.count_le_foldl cs _) hcs)) hcs

/-- A new buffer keeps the record of no insertions. -/
theorem keeps_ofConfig {bytes : Footprint} {config : BufferConfig}
    (hb : ofConfig? bytes config = .ok b) :
    b.Keeps (max config.shardCount.toNat 1) {} := by
  rw [ofConfig?, LockedBuffer.ofCapacity] at hb
  split at hb
  · split at hb
    · cases hb
      refine ⟨?_, rfl, fun s hs => ?_⟩
      · rw [Array.size_replicate, BufferConfig.toNat_effectiveShards]
      · rw [Array.getElem_replicate]
        rfl
    · cases hb
  · cases hb

/-- What comes out of a buffer of `n` shards after the insertions of a record. -/
structure Delivers (n : Nat) (t : Intake α) (b : ShardedBuffer α) : Prop where
  shardCount : b.shardCount = n
  peek : (b.run .peek).answer = .ok (.items (t.inTurn n).toArray)
  flush : (b.run .flush).answer = .ok (.items (t.inTurn n).toArray)
  size : (b.run .size).answer = .ok (.count t.total)
  /-- A flush leaves nothing. -/
  peek_flush : ((b.run .flush).state.run .peek).answer = .ok (.items #[])

/-- **Insertions come out in turn.**  However many batches of whatever sizes there were and whenever the
buffer was flushed, it holds what its record says, as long as there were fewer insertions than the
counter has values. -/
theorem delivers {bytes : Footprint} {config : BufferConfig} (hb : ofConfig? bytes config = .ok b)
    (cs : List (BufferCall α)) (hcs : (Intake.ofCalls cs).count < 2 ^ 64) :
    (after run cs b).Delivers (max config.shardCount.toNat 1) (Intake.ofCalls cs) := by
  have h : (after run cs b).Keeps _ (Intake.ofCalls cs) := keeps_after (keeps_ofConfig hb) hcs
  constructor
  case shardCount => exact h.size_shards
  case peek => exact congrArg (fun xs => Except.ok (BufferReply.items xs)) h.peek_eq
  case flush => exact congrArg (fun xs => Except.ok (BufferReply.items xs)) h.peek_eq
  case size => exact congrArg (fun k => Except.ok (BufferReply.count k)) h.size_eq
  case peek_flush =>
    refine congrArg (fun xs => Except.ok (BufferReply.items xs)) (h.flush.peek_eq.trans ?_)
    rw [Intake.inTurn_nil]

/-- Three shards, with a flush and an insertion of nothing on the way: the numbers go on over the flush,
so what comes out first is the second insertion after it. -/
theorem delivers_three_shards : ∃ (b : ShardedBuffer Nat) (cs : List (BufferCall Nat)),
    cs = [.append 1, .extend [2, 3], .flush, .extend [], .append 4, .extend [5, 6], .append 7,
        .append 8] ∧
      ofConfig? ⟨8, 128⟩ ⟨0, 3⟩ = .ok b ∧ (Intake.ofCalls cs).count < 2 ^ 64 ∧
      (after run cs b).Delivers 3 (Intake.ofCalls cs) ∧
      (Intake.ofCalls cs).inTurn 3 = [5, 6, 7, 4, 8] := by
  obtain ⟨b, hb⟩ : ∃ b : ShardedBuffer Nat, ofConfig? ⟨8, 128⟩ ⟨0, 3⟩ = .ok b := ⟨_, rfl⟩
  exact ⟨b, _, rfl, hb, by decide, delivers hb _ (by decide), by decide⟩

end ShardedBuffer

end Containers
