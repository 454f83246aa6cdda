import Containers.Json.MapDiff
import Containers.Proofs.Json.Objects
import Containers.Proofs.Map.Patch

/-!
# Reading back differences

The document of a difference may come in many forms: the two tables named in either order and among other
members, or as a list, with blanks anywhere, and with keys that come more than once.  It is written in one
form only, and this one is read back.

* What is read fits a document again: `fits_of_readTable` follows the bound on the nesting of values from
  the text through the tables to the difference.
* What fits is read back: `readDiff_diffText` is about the entries of both tables in any order, because the
  order in which a table lists its entries is nobody's business.
* The text is the same again: equal tables have the same entries in the order of their keys
  (`sortedEntries_eq_of_perm`).
-/

set_option autoImplicit false

namespace Containers.Json

variable {t u : Table String Value} {es es' : List (String × Value)} {rest cs : List Char}
  {d : MapDiff String Value}

/-! ## What fits a document -/

/-- No value is nested too deeply for a table inside a document. -/
def Fits (es : List (String × Value)) : Prop := ∀ e ∈ es, nestedWithin valueBudget e.2 = true

theorem fits_nil : Fits [] := List.forall_mem_nil _

theorem exists_of_readMemberValue {α : Type} {value : Reader α} {r : α × List Char}
    (hread : readMemberValue value cs = .ok r) : ∃ cs', value cs' = .ok r := by
  rw [readMemberValue] at hread
  split at hread
  · cases hread
  · exact ⟨_, hread⟩

theorem fits_of_readEntry {k : String} (ht : Fits t.entries) (hread : readEntry t k cs = .ok (u, rest)) :
    Fits u.entries := by
  obtain ⟨⟨v, after⟩, hvalue, hu⟩ := of_map_eq_ok hread
  obtain ⟨rfl, -⟩ := Prod.mk.inj hu
  obtain ⟨cs', hvalue⟩ := exists_of_readMemberValue hvalue
  intro e he
  rcases Table.mem_or_eq_of_mem_insert he with he | rfl
  · exact ht e he
  · exact nestedWithin_of_readValue hvalue

theorem fits_of_readTable (hread : readTable cs = .ok (t, rest)) : Fits t.entries := by
  rw [readTable] at hread
  split at hread
  · cases hread
  · split at hread
    · exact of_readMembers (P := fun t : Table String Value => Fits t.entries)
        (fun _ _ _ _ _ => fits_of_readEntry) fits_nil hread
    · cases hread

theorem fits_of_readMemberValue (hread : readMemberValue readTable cs = .ok (t, rest)) :
    Fits t.entries := by
  obtain ⟨cs', htable⟩ := exists_of_readMemberValue hread
  exact fits_of_readTable htable

theorem fits_of_readNextTable {first : Bool} (hread : readNextTable first cs = .ok (t, rest)) :
    Fits t.entries := by
  rw [readNextTable] at hread
  split at hread
  · cases hread
  · cases hread
  · exact fits_of_readTable hread

/-- Both tables of a difference fit a document. -/
def FitsBoth (d : MapDiff String Value) : Prop := Fits d.addedOrModified.entries ∧ Fits d.removed.entries

/-- So do the tables that a document has named so far. -/
def FitsNamed (n : NamedTables) : Prop :=
  (∀ t ∈ n.addedOrModified, Fits t.entries) ∧ ∀ t ∈ n.removed, Fits t.entries

theorem fits_of_readSide {n n' : NamedTables} {k : String} (hn : FitsNamed n)
    (hread : readSide n k cs = .ok (n', rest)) : FitsNamed n' := by
  rw [readSide] at hread
  split at hread
  · split at hread
    · cases hread
    · obtain ⟨r, hr, hn'⟩ := of_map_eq_ok hread
      cases hn'
      refine ⟨fun t ht => ?_, hn.2⟩
      obtain rfl := Option.some.inj ht
      exact fits_of_readMemberValue hr
  split at hread
  · split at hread
    · cases hread
    · obtain ⟨r, hr, hn'⟩ := of_map_eq_ok hread
      cases hn'
      refine ⟨hn.1, fun t ht => ?_⟩
      obtain rfl := Option.some.inj ht
      exact fits_of_readMemberValue hr
  · obtain ⟨r, -, hn'⟩ := of_map_eq_ok hread
    cases hn'
    exact hn

theorem fits_of_readSideList (hread : readSideList cs = .ok (d, rest)) : FitsBoth d := by
  rw [readSideList] at hread
  split at hread
  · cases hread
  · rename_i hadded
    split at hread
    · cases hread
    · rename_i hremoved
      obtain ⟨r, -, hd⟩ := of_map_eq_ok hread
      cases hd
      exact ⟨fits_of_readNextTable hadded, fits_of_readNextTable hremoved⟩

theorem fits_of_diff {n : NamedTables} (hn : FitsNamed n) (hd : n.diff = .ok d) : FitsBoth d := by
  rw [NamedTables.diff] at hd
  split at hd
  · rename_i hadded hremoved
    cases hd
    exact ⟨hn.1 _ hadded, hn.2 _ hremoved⟩
  · cases hd

theorem fits_of_readDiff (hread : readDiff cs = .ok (d, rest)) : FitsBoth d := by
  rw [readDiff] at hread
  split at hread
  · cases hread
  split at hread
  · exact fits_of_readSideList hread
  split at hread
  · split at hread
    · cases hread
    · rename_i hnamed
      obtain ⟨d', hd', hd⟩ := of_map_eq_ok hread
      cases hd
      refine fits_of_diff (of_readMembers (fun _ _ _ _ _ => fits_of_readSide) ?_ hnamed) hd'
      exact ⟨fun t ht => absurd ht (Option.not_mem_none t), fun t ht => absurd ht (Option.not_mem_none t)⟩
  · cases hread

theorem fits_of_parseDiff {text : String} (hread : parseDiff text = .ok d) : FitsBoth d := by
  rw [parseDiff, readDocument] at hread
  split at hread
  · cases hread
  · rename_i hdiff
    split at hread <;> cases hread
    exact fits_of_readDiff hdiff

/-! ## What is read back -/

/-- The compact JSON text of entries, as they are listed. -/
def writeEntries (es : List (String × Value)) : List Char := writeObject (es.map fun e => (e.1, write e.2))

/-- The compact JSON text of a difference whose entries are listed in a given order. -/
def diffText (added removed : List (String × Value)) : List Char :=
  writeObject [("added_or_modified", writeEntries added), ("removed", writeEntries removed)]

theorem takesUp_entries (hes : Fits es) (t : Table String Value) :
    TakesUp readEntry t (es.map fun e => (e.1, write e.2)) (t.insertAll es) := by
  induction es generalizing t with
  | nil => exact .nil t
  | cons e es ih =>
    obtain ⟨he, hes⟩ := List.forall_mem_cons.1 hes
    refine .cons (fun rest hrest => ?_) (ih hes (t.insert e.1 e.2))
    show (readValue valueBudget (write e.2 ++ rest)).map _ = _
    rw [readValue_write he hrest]
    rfl

theorem readTable_writeEntries (hes : Fits es) (rest : List Char) :
    readTable (writeEntries es ++ rest) = .ok (.ofList es, rest) := by
  rw [writeEntries, writeObject_append, readTable, skipBlank_cons (by decide)]
  dsimp only
  rw [if_pos rfl]
  exact readMembers_writeObject (takesUp_entries hes .empty) rest

/-- The two tables are named one after the other. -/
theorem takesUp_sides (hes : Fits es) (hes' : Fits es') :
    TakesUp readSide {} [("added_or_modified", writeEntries es), ("removed", writeEntries es')]
      ⟨some (.ofList es), some (.ofList es')⟩ := by
  have hadded : ∀ rest, readSide {} "added_or_modified" (':' :: (writeEntries es ++ rest)) =
      .ok (⟨some (.ofList es), none⟩, rest) := fun rest => by
    show (readTable (writeEntries es ++ rest)).map _ = _
    rw [readTable_writeEntries hes]
    rfl
  have hremoved : ∀ rest, readSide ⟨some (.ofList es), none⟩ "removed"
      (':' :: (writeEntries es' ++ rest)) = .ok (⟨some (.ofList es), some (.ofList es')⟩, rest) :=
    fun rest => by
      rw [readSide, if_neg (by decide), if_pos rfl]
      show (readTable (writeEntries es' ++ rest)).map _ = _
      rw [readTable_writeEntries hes']
      rfl
  exact .cons (fun rest _ => hadded rest) (.cons (fun rest _ => hremoved rest) (.nil _))

theorem readDiff_diffText (hes : Fits es) (hes' : Fits es') (rest : List Char) :
    readDiff (diffText es es' ++ rest) = .ok (⟨.ofList es, .ofList es'⟩, rest) := by
  rw [diffText, writeObject_append, readDiff, skipBlank_cons (by decide)]
  dsimp only
  rw [if_neg (by decide), if_pos rfl, readMembers_writeObject (takesUp_sides hes hes')]
  rfl

theorem parseDiff_diffText (hes : Fits es) (hes' : Fits es') :
    parseDiff (String.ofList (diffText es es')) = .ok ⟨.ofList es, .ofList es'⟩ := by
  have hread := readDiff_diffText hes hes' []
  rw [List.append_nil] at hread
  rw [parseDiff, readDocument, String.toList_ofList, hread]
  rfl

/-! ## One text -/

theorem pairwise_sortedEntries (t : Table String Value) :
    (sortedEntries t).Pairwise fun a b => (compare a.1 b.1).isLE = true := by
  refine List.pairwise_mergeSort (fun a b c => Std.TransCmp.isLE_trans) (fun a b => ?_) t.entries
  rw [Std.OrientedOrd.eq_swap (a := b.1)]
  cases compare a.1 b.1 <;> rfl

/-- The order in which a table lists its entries is lost in the order of their keys. -/
theorem sortedEntries_eq_of_perm (h : t.entries.Perm u.entries) : sortedEntries t = sortedEntries u := by
  have hperm : (sortedEntries t).Perm (sortedEntries u) :=
    ((List.mergeSort_perm ..).trans h).trans (List.mergeSort_perm ..).symm
  refine hperm.eq_of_pairwise (fun a b ha hb hab hba => ?_) (pairwise_sortedEntries t)
    (pairwise_sortedEntries u)
  -- entries that neither key puts first have the same key, and a table has one entry with it
  have hkeys : compare a.1 b.1 = .eq := by
    rw [Std.OrientedOrd.eq_swap (a := b.1)] at hba
    revert hab hba
    cases compare a.1 b.1 <;> decide
  have hat := (List.mergeSort_perm t.entries _).mem_iff.1 ha
  have hbt := (List.mergeSort_perm t.entries _).mem_iff.1 (hperm.mem_iff.2 hb)
  exact Table.eq_of_mem hat hbt (beq_iff_eq.2 (Std.LawfulEqOrd.eq_of_compare hkeys))

theorem Fits.of_perm (h : Fits es) (hperm : es'.Perm es) : Fits es' := fun e he => h e (hperm.mem_iff.1 he)

/-- **What has been read once is read again.**  The text of a difference that some document says is
accepted, it says an equal difference, and the text of that one is the same.  This does not depend on the
order in which the entries of the tables were written. -/
theorem parseDiff_writeDiff {text : String} (hread : parseDiff text = .ok d) :
    (∃ d', parseDiff (writeDiff d) = .ok d' ∧ d'.sameAs d = true ∧ writeDiff d' = writeDiff d) ∧
    ∀ es es', es.Perm d.addedOrModified.entries → es'.Perm d.removed.entries →
      ∃ d', parseDiff (String.ofList (diffText es es')) = .ok d' ∧ d'.sameAs d = true ∧
        writeDiff d' = writeDiff d := by
  have hany : ∀ es es', es.Perm d.addedOrModified.entries → es'.Perm d.removed.entries →
      ∃ d', parseDiff (String.ofList (diffText es es')) = .ok d' ∧ d'.sameAs d = true ∧
        writeDiff d' = writeDiff d := by
    intro es es' h h'
    obtain ⟨hadded, hremoved⟩ := fits_of_parseDiff hread
    refine ⟨_, parseDiff_diffText (hadded.of_perm h) (hremoved.of_perm h'), ?_, ?_⟩
    · rw [MapDiff.sameAs, Table.sameAs_ofList_of_perm h, Table.sameAs_ofList_of_perm h']
      rfl
    · have hsorted : sortedEntries (.ofList es) = sortedEntries d.addedOrModified :=
        sortedEntries_eq_of_perm (by rwa [Table.entries_ofList_of_perm h])
      have hsorted' : sortedEntries (.ofList es') = sortedEntries d.removed :=
        sortedEntries_eq_of_perm (by rwa [Table.entries_ofList_of_perm h'])
      rw [writeDiff, writeDiff, writeTable, writeTable, writeTable, writeTable, hsorted, hsorted']
  exact ⟨hany _ _ (List.mergeSort_perm ..) (List.mergeSort_perm ..), hany⟩

-- The tables are named in the other order, with a member in between that nobody asked for; a key comes
-- twice, and its last value reaches both ends of the integers and holds a character that is written as a
-- pair of numbers.
example :
    (parseDiff ("\x7b\"removed\": \x7b\x7d, \"note\": [\x7b\"x\": 1.5e3\x7d], \"added_or_modified\": " ++
      "\x7b\"k\": 1, \"\\u006b\": [-9223372036854775808, [9223372036854775807], " ++
      "\"\\ud83d\\ude00\\n\"]\x7d \x7d")).map (fun d => (d.addedOrModified.entries, d.removed.entries)) =
    .ok ([("k", .list [.int (-9223372036854775808), .list [.int 9223372036854775807], .text "😀\n"])], []) := by
  decide +kernel

end Containers.Json
