/-
What a scan shows, and how the pages of a collection follow each other.

A scan shows the records of a collection in the order of their ids, and in a collection the id
is the key. Whoever asks for the records after the last one that was shown goes on where the page
ended: the pages are the collection, one piece after the other.
-/
import TegoNext.MemoryTransaction
import TegoNext.SortedPages
import TegoNext.TextOrder

set_option autoImplicit false

namespace TegoNext

open List

abbrev RecordEntry (V : Type) : Type := Sigma fun _ : StateKey => StoredRecord V

section Scans

variable {V : Type}

/-- `LIMIT ?`, or `slice(0, limit)`. -/
def cut {α : Type} (limit : Option Int) (rows : List α) : List α :=
  match limit with
  | some limit => rows.take limit.toNat
  | none => rows

def compareIds (left right : RecordEntry V) : Ordering := Text.compareText left.1.id right.1.id

instance : Std.TransCmp (compareIds (V := V)) :=
  transCmp_comap Text.compareText fun row : RecordEntry V => row.1.id

variable (records : Records V) (query : StateQuery)

def matchingRecords : List (RecordEntry V) := records.entries.filter (matchesQuery query)

theorem eq_of_id_eq {records : Records V} {query : StateQuery} {row row' : RecordEntry V}
    (hrow : row ∈ matchingRecords records query) (hrow' : row' ∈ matchingRecords records query)
    (hid : row.1.id = row'.1.id) : row = row' := by
  obtain ⟨hmem, hmatches⟩ := mem_filter.mp hrow
  obtain ⟨hmem', hmatches'⟩ := mem_filter.mp hrow'
  unfold matchesQuery at hmatches hmatches'
  simp only [Bool.and_eq_true, beq_iff_eq] at hmatches hmatches'
  have hkey : row.1 = row'.1 := by
    obtain ⟨⟨_, _, _⟩, _⟩ := row
    obtain ⟨⟨_, _, _⟩, _⟩ := row'
    rw [StateKey.mk.injEq]
    exact ⟨hmatches.1.1.1.trans hmatches'.1.1.1.symm,
      hmatches.1.1.2.trans hmatches'.1.1.2.symm, hid⟩
  exact List.NodupKeys.eq_of_fst_eq records.nodupKeys hmem hmem' hkey

theorem nodup_ids : ((matchingRecords records query).map fun row => row.1.id).Nodup := by
  have hnodup : (matchingRecords records query).Nodup :=
    (List.Nodup.of_map _ records.nodupKeys).filter _
  exact List.Nodup.map_on (fun _ hrow _ hrow' hid => eq_of_id_eq hrow hrow' hid) hnodup

theorem toldApart_matchingRecords : ToldApart compareIds (matchingRecords records query) :=
  @ToldApart.of_keys _ _ Text.compareText _ (fun row : RecordEntry V => row.1.id) _
    (nodup_ids records query)

def sortedRecords : List (RecordEntry V) :=
  (matchingRecords records query).insertionSort fun left right => compareIds left right ≠ .gt

theorem strictlySorted_sortedRecords : StrictlySorted compareIds (sortedRecords records query) :=
  (toldApart_matchingRecords records query).strictlySorted

theorem mem_sortedRecords {records : Records V} {query : StateQuery} {row : RecordEntry V} :
    row ∈ sortedRecords records query ↔ row ∈ records.entries ∧ matchesQuery query row = true := by
  rw [sortedRecords, mem_insertionSort, matchingRecords, mem_filter]

theorem scanRecords_eq :
    scanRecords records query = (cut query.limit (sortedRecords records query)).map fun row =>
      ⟨row.1, row.2.value, row.2.revision⟩ := rfl

/-- **The next page.** The records after the last one of the first `n` are the rest. -/
theorem sortedRecords_after (limit : Option Int) {n : Nat} {last : RecordEntry V}
    (hlast : ((sortedRecords records query).take n).getLast? = some last) :
    sortedRecords records { query with afterId := some last.1.id, limit := limit } =
      (sortedRecords records query).drop n := by
  refine (strictlySorted_sortedRecords _ _).eq_of_mem_iff
    ((strictlySorted_sortedRecords records query).sublist (drop_sublist _ _)) fun row => ?_
  -- the last one is itself after what the query asks for
  have hmatches := (mem_sortedRecords.mp (mem_of_mem_take (mem_of_getLast? hlast))).2
  rw [(strictlySorted_sortedRecords records query).mem_drop_iff hlast, mem_sortedRecords,
    mem_sortedRecords, and_assoc]
  refine and_congr_right' ?_
  unfold matchesQuery at hmatches ⊢
  simp only [Option.all_some, Bool.and_eq_true, beq_iff_eq] at hmatches ⊢
  refine ⟨fun h => ⟨⟨h.1, ?_⟩, h.2⟩, fun h => ⟨h.1.1, h.2⟩⟩
  cases hafter : query.afterId with
  | none => rfl
  | some after =>
    rw [hafter, Option.all_some, beq_iff_eq] at hmatches
    rw [Option.all_some, beq_iff_eq]
    exact Std.TransCmp.gt_trans h.2 hmatches.2

end Scans

end TegoNext
