/-
Pages: the first elements of what is sorted.

Whether an element is on a page is a matter of how many others come before it. Who fetches a page
from a list that some elements are then taken away from, and others put into, has fetched enough
if the page is longer by the number of those taken away.
-/
import TegoNext.Sorting
import Mathlib.Data.List.Perm.Subperm

set_option autoImplicit false

namespace TegoNext

open List

variable {α κ : Type}

/-- `ORDER BY` with `LIMIT`. -/
def page (cmp : α → α → Ordering) (n : Nat) (l : List α) : List α :=
  (l.insertionSort fun a b => cmp a b ≠ .gt).take n

section Pages

variable {cmp : α → α → Ordering}

theorem StrictlySorted.mem_take_iff [Std.OrientedCmp cmp] {l : List α}
    (h : StrictlySorted cmp l) {n : Nat} {e : α} :
    e ∈ l.take n ↔ e ∈ l ∧ l.countP (fun a => cmp a e = .lt) < n := by
  induction l generalizing n with
  | nil => simp
  | cons a l ih =>
    obtain ⟨ha, hl⟩ := pairwise_cons.mp h
    cases n with
    | zero => simp
    | succ n =>
      rw [take_succ_cons, mem_cons, ih hl, mem_cons, countP_cons]
      by_cases he : e = a
      · subst he
        have hself : cmp e e = .eq := Std.ReflCmp.compare_self
        have hnone : l.countP (fun b => cmp b e = .lt) = 0 := by
          rw [countP_eq_zero]
          intro b hb
          rw [Std.OrientedCmp.gt_of_lt (ha b hb)]
          decide
        simp [hself, hnone]
      · by_cases hmem : e ∈ l
        · simp [he, hmem, ha e hmem]
        · simp [he, hmem]

theorem StrictlySorted.mem_drop_iff [Std.OrientedCmp cmp] {l : List α}
    (h : StrictlySorted cmp l) {n : Nat} {last : α} (hlast : (l.take n).getLast? = some last) {a : α} :
    a ∈ l.drop n ↔ a ∈ l ∧ cmp a last = .gt := by
  have hsplit : l.take n ++ l.drop n = l := take_append_drop n l
  have hpairs := h
  rw [← hsplit, StrictlySorted, pairwise_append] at hpairs
  obtain ⟨hfront, -, hacross⟩ := hpairs
  have hmem : last ∈ l.take n := mem_of_getLast? hlast
  constructor
  · intro ha
    exact ⟨mem_of_mem_drop ha, Std.OrientedCmp.gt_of_lt (hacross last hmem a ha)⟩
  · rintro ⟨ha, hgt⟩
    rw [← hsplit, mem_append] at ha
    refine ha.resolve_left fun hin => ?_
    -- the others of the first elements come before the last one
    obtain ⟨init, hinit⟩ := getLast?_eq_some_iff.mp hlast
    rw [hinit, pairwise_append] at hfront
    rw [hinit, mem_append, mem_singleton] at hin
    rcases hin with hin | rfl
    · rw [hfront.2.2 a hin last (mem_singleton_self _)] at hgt
      cases hgt
    · have hself : cmp a a = .eq := Std.ReflCmp.compare_self
      rw [hself] at hgt
      cases hgt

/-- No element comes twice, and the comparison tells them apart. -/
structure ToldApart (cmp : α → α → Ordering) (l : List α) : Prop where
  nodup : l.Nodup
  eq_of_cmp : ∀ a ∈ l, ∀ b ∈ l, cmp a b = .eq → a = b

theorem ToldApart.of_subset {part all : List α} (h : ToldApart cmp all) (hpart : part.Nodup)
    (hsub : part ⊆ all) : ToldApart cmp part :=
  ⟨hpart, fun a ha b hb => h.eq_of_cmp a (hsub ha) b (hsub hb)⟩

theorem ToldApart.of_keys {cmp : κ → κ → Ordering} [Std.LawfulEqCmp cmp] {key : α → κ}
    {l : List α} (h : (l.map key).Nodup) : ToldApart (fun a b => cmp (key a) (key b)) l :=
  ⟨h.of_map key, fun _ ha _ hb heq =>
    inj_on_of_nodup_map h ha hb (Std.LawfulEqCmp.eq_of_compare heq)⟩

variable [Std.TransCmp cmp]

theorem ToldApart.strictlySorted {l : List α} (h : ToldApart cmp l) :
    StrictlySorted cmp (l.insertionSort fun a b => cmp a b ≠ .gt) :=
  strictlySorted_insertionSort
    (h.nodup.pairwise_of_forall_ne fun a ha b hb hne heq => hne (h.eq_of_cmp a ha b hb heq))

theorem mem_page_iff {l : List α} (h : ToldApart cmp l) {n : Nat} {e : α} :
    e ∈ page cmp n l ↔ e ∈ l ∧ l.countP (fun a => cmp a e = .lt) < n := by
  rw [page, h.strictlySorted.mem_take_iff, mem_insertionSort, (perm_insertionSort _ l).countP_eq]

open Classical in
theorem page_eq_of_mem {part all : List α} {n : Nat} (hall : ToldApart cmp all)
    (hpart : part.Nodup) (hsub : part ⊆ all) (hmem : ∀ e ∈ page cmp n all, e ∈ part) :
    page cmp n part = page cmp n all := by
  let sorted := all.insertionSort fun a b => cmp a b ≠ .gt
  -- sorting the part is leaving out of the sorted list what the part has not
  have hfiltered : (part.insertionSort fun a b => cmp a b ≠ .gt) =
      sorted.filter fun a => decide (a ∈ part) := by
    apply (hall.of_subset hpart hsub).strictlySorted.eq_of_mem_iff
    · exact hall.strictlySorted.filter _
    · intro a
      rw [mem_insertionSort, mem_filter, mem_insertionSort, decide_eq_true_eq]
      exact ⟨fun ha => ⟨hsub ha, ha⟩, And.right⟩
  have hkept : (sorted.take n).filter (fun a => decide (a ∈ part)) = sorted.take n := by
    rw [filter_eq_self]
    intro a ha
    rw [decide_eq_true_eq]
    exact hmem a ha
  have hsplit : sorted.filter (fun a => decide (a ∈ part)) =
      sorted.take n ++ (sorted.drop n).filter fun a => decide (a ∈ part) := by
    rw [← take_append_drop n sorted, filter_append, hkept]
    simp
  show (part.insertionSort _).take n = sorted.take n
  rw [hfiltered, hsplit, take_append, take_take, Nat.min_self]
  by_cases hlength : n ≤ sorted.length
  · rw [length_take_of_le hlength, Nat.sub_self, take_zero, append_nil]
  · rw [drop_eq_nil_of_le (Nat.le_of_not_le hlength), filter_nil, take_nil, append_nil]

end Pages

/-- An element of the page of `all` that is in `base` is on the page of `base` that is longer by
the keys that are gone, if `all` has all others of `base`. -/
theorem mem_page_of_overfetch {cmp : κ → κ → Ordering} [Std.TransCmp cmp] [Std.LawfulEqCmp cmp]
    {key : α → κ} {base all : List α} {gone : List κ} {n : Nat} (hbase : (base.map key).Nodup)
    (hall : (all.map key).Nodup) (hkeys : ∀ a ∈ base, key a ∈ gone ∨ key a ∈ all.map key) {e : α}
    (he : e ∈ page (fun a b => cmp (key a) (key b)) n all) (hmem : e ∈ base) :
    e ∈ page (fun a b => cmp (key a) (key b)) (n + gone.length) base := by
  have := transCmp_comap cmp key
  rw [mem_page_iff (ToldApart.of_keys hall)] at he
  rw [mem_page_iff (ToldApart.of_keys hbase)]
  refine ⟨hmem, ?_⟩
  -- a key that is before that of `e` in `base` is gone, or it is before it in `all`
  let before : α → Bool := fun a => cmp (key a) (key e) = .lt
  have hsub : (base.filter before).map key ⊆ (all.filter before).map key ++ gone := by
    intro k hk
    obtain ⟨a, ha, rfl⟩ := mem_map.mp hk
    obtain ⟨ha, hbefore⟩ := mem_filter.mp ha
    rw [mem_append]
    rcases hkeys a ha with hgone | hkept
    · exact .inr hgone
    · obtain ⟨b, hb, hkey⟩ := mem_map.mp hkept
      refine .inl (mem_map.mpr ⟨b, mem_filter.mpr ⟨hb, ?_⟩, hkey⟩)
      simpa only [before, hkey] using hbefore
  have hnodup : ((base.filter before).map key).Nodup := hbase.sublist (filter_sublist.map key)
  have hlength := (hnodup.subperm hsub).length_le
  rw [length_append, length_map, length_map, ← countP_eq_length_filter,
    ← countP_eq_length_filter] at hlength
  have hlt : all.countP before < n := he.2
  show base.countP before < n + gone.length
  omega

end TegoNext
