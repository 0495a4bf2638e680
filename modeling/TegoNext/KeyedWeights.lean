/-
The total weight of the entries of a map.

A counter kept beside a map is right as long as it follows every change of the map by the
weight of what came or went. A key that is there and is written again is not among the changes:
what it held before leaves the map without leaving the counter.
-/
import Mathlib.Data.List.AList
import Mathlib.Algebra.BigOperators.Group.List.Basic
import Mathlib.Algebra.GroupWithZero.Nat

set_option autoImplicit false

namespace TegoNext

open List AList

variable {κ β : Type}

def totalWeight (weight : β → Nat) (entries : AList fun _ : κ => β) : Nat :=
  (entries.entries.map fun entry => weight entry.2).sum

variable [DecidableEq κ] {weight : β → Nat} {entries : AList fun _ : κ => β} {key : κ} {b b' : β}

theorem totalWeight_insert_new (hnone : entries.lookup key = none) (b : β) :
    totalWeight weight (entries.insert key b) = weight b + totalWeight weight entries := by
  rw [totalWeight, entries_insert_of_notMem (AList.lookup_eq_none.mp hnone), map_cons,
    sum_cons, totalWeight]

theorem totalWeight_erase (hsome : entries.lookup key = some b) :
    totalWeight weight entries = weight b + totalWeight weight (entries.erase key) := by
  have hmem : key ∈ entries := lookup_isSome.mp (by rw [hsome]; rfl)
  obtain ⟨c, before, after, hbefore, hentries, herased⟩ := exists_of_kerase hmem
  have hc : c = b := by
    have hin : (⟨key, c⟩ : Sigma fun _ : κ => β) ∈ entries.entries := by
      rw [hentries]
      exact mem_append_right _ mem_cons_self
    have hlookup := mem_lookup_iff.mpr hin
    exact (Option.some.inj (hsome.symm.trans hlookup)).symm
  rw [totalWeight, totalWeight, hentries, show (entries.erase key).entries = before ++ after from
    herased, map_append, map_append, map_cons, sum_append, sum_append,
    sum_cons, hc]
  exact Nat.add_left_comm _ _ _

theorem totalWeight_insert_same (hsome : entries.lookup key = some b) (hweight : weight b' = weight b) :
    totalWeight weight (entries.insert key b') = totalWeight weight entries := by
  rw [totalWeight_erase hsome, totalWeight, entries_insert, map_cons, sum_cons, hweight]
  rfl

end TegoNext
