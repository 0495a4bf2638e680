/-
Stable sorting of rows whose keys may tie.

A stable sort keeps rows that compare as equal in the order in which they came. So what is read
off the sorted rows is the same for every order of the rows only if rows that tie read the same,
and then it is. The rows may be rearranged inside as well: what is read off each must not
depend on that (`sorted_rows_iff`).
-/
import TegoNext.Sorting

set_option autoImplicit false

namespace TegoNext

open List

section StableSorting

variable {α τ : Type} {cmp : α → α → Ordering}

/-- The rows come in another order, and each of them may have been rearranged. -/
def RowsRearranged (rearranged : α → α → Prop) (rows rows' : List α) : Prop :=
  ∃ middle, List.Forall₂ rearranged rows middle ∧ middle.Perm rows'

variable {rows rows' : List α}

theorem RowsRearranged.of_perm {rearranged : α → α → Prop} (hrefl : ∀ a, rearranged a a)
    (h : rows.Perm rows') : RowsRearranged rearranged rows rows' :=
  ⟨rows, forall₂_same.mpr fun a _ => hrefl a, h⟩

theorem RowsRearranged.of_row {rearranged : α → α → Prop} (hrefl : ∀ a, rearranged a a) {a a' : α}
    (h : rearranged a a') (front back : List α) :
    RowsRearranged rearranged (front ++ a :: back) (front ++ a' :: back) := by
  have hsame : ∀ rows : List α, List.Forall₂ rearranged rows rows := fun rows =>
    forall₂_same.mpr fun a _ => hrefl a
  exact ⟨_, rel_append (hsame front) (.cons h (hsame back)), .refl _⟩

theorem rowsRearranged_eq_iff : RowsRearranged (fun a b => a = b) rows rows' ↔ rows.Perm rows' := by
  constructor
  · rintro ⟨middle, hmiddle, hperm⟩
    rw [forall₂_eq_eq_eq] at hmiddle
    exact hmiddle ▸ hperm
  · exact .of_perm fun _ => rfl

theorem RowsRearranged.forall_mem {rearranged : α → α → Prop} {p : α → Prop}
    (hp : ∀ a a', rearranged a a' → p a → p a')
    (h : RowsRearranged rearranged rows rows') (hrows : ∀ a ∈ rows, p a) : ∀ a ∈ rows', p a := by
  obtain ⟨middle, hmiddle, hperm⟩ := h
  intro a ha
  obtain ⟨b, hb, hba⟩ := forall₂_exists_left hmiddle (hperm.mem_iff.mpr ha)
  exact hp b a hba (hrows b hb)

section Ties

variable [Std.TransCmp cmp]

theorem orderedInsert_tie {a b : α} (htie : cmp a b = .eq) (l : List α) :
    ∃ front back, (l.orderedInsert (fun a b => cmp a b ≠ .gt) b).orderedInsert
        (fun a b => cmp a b ≠ .gt) a = front ++ a :: b :: back ∧
      (l.orderedInsert (fun a b => cmp a b ≠ .gt) a).orderedInsert
        (fun a b => cmp a b ≠ .gt) b = front ++ b :: a :: back := by
  have hab : cmp a b ≠ .gt := by rw [htie]; decide
  have hba : cmp b a ≠ .gt := by rw [Std.OrientedCmp.eq_symm htie]; decide
  induction l with
  | nil => exact ⟨[], [], by simp [hab], by simp [hba]⟩
  | cons c l ih =>
    have hsame : cmp a c ≠ .gt ↔ cmp b c ≠ .gt := by
      rw [Std.TransCmp.congr_left htie]
    by_cases hc : cmp b c ≠ .gt
    · refine ⟨[], c :: l, ?_, ?_⟩
      · rw [orderedInsert_cons, if_pos hc, orderedInsert_cons, if_pos hab]
        rfl
      · rw [orderedInsert_cons, if_pos (hsame.mpr hc), orderedInsert_cons, if_pos hba]
        rfl
    · obtain ⟨front, back, hfirst, hsecond⟩ := ih
      have hnot : ¬cmp a c ≠ .gt := fun h => hc (hsame.mp h)
      refine ⟨c :: front, back, ?_, ?_⟩
      · rw [orderedInsert_cons, if_neg hc, orderedInsert_cons, if_neg hnot, hfirst]
        rfl
      · rw [orderedInsert_cons, if_neg hnot, orderedInsert_cons, if_neg hc, hsecond]
        rfl

theorem eq_of_sorted_eq {a b : α} (htie : cmp a b = .eq) {l : List α}
    (h : ((a :: b :: l).insertionSort fun a b => cmp a b ≠ .gt) =
      (b :: a :: l).insertionSort fun a b => cmp a b ≠ .gt) : a = b := by
  obtain ⟨front, back, hfirst, hsecond⟩ := orderedInsert_tie htie
    (l.insertionSort fun a b => cmp a b ≠ .gt)
  simp only [insertionSort_cons] at h
  rw [hfirst, hsecond, append_right_inj] at h
  exact (List.cons.inj h).1

end Ties

variable {key : τ → τ → Ordering} [Std.TransCmp key] {rearranged : α → α → Prop} {read : α → τ}

/-- **What is read off the sorted rows is the same however they are rearranged**, exactly when it
does not depend on how a single row is rearranged and rows that tie read the same. -/
theorem sorted_rows_iff (hrefl : ∀ a, rearranged a a) {rows : List α} :
    (∀ rows', RowsRearranged rearranged rows rows' →
      ((rows'.map read).insertionSort fun a b => key a b ≠ .gt) =
        (rows.map read).insertionSort fun a b => key a b ≠ .gt) ↔
    (∀ a ∈ rows, ∀ a', rearranged a a' → read a' = read a) ∧
      ∀ a ∈ rows, ∀ b ∈ rows, key (read a) (read b) = .eq → read a = read b := by
  constructor
  · intro hsame
    refine ⟨fun a ha a' haa' => ?_, fun a ha b hb htie => ?_⟩
    · -- the rows next to the one that is rearranged are the same
      obtain ⟨front, back, rfl⟩ := append_of_mem ha
      have hsorted := hsame _ (.of_row hrefl haa' front back)
      have hperm : ((front ++ a' :: back).map read).Perm ((front ++ a :: back).map read) := by
        refine (perm_insertionSort (fun a b => key a b ≠ .gt) _).symm.trans ?_
        rw [hsorted]
        exact perm_insertionSort _ _
      rw [map_append, map_append, map_cons, map_cons] at hperm
      have hfront := (perm_middle.symm.trans hperm).trans perm_middle
      have hrow : ([read a'] ++ (front.map read ++ back.map read)).Perm
          ([read a] ++ (front.map read ++ back.map read)) := hfront
      exact singleton_perm_singleton.mp ((perm_append_right_iff _).mp hrow)
    · by_cases hab : a = b
      · rw [hab]
      -- both may come first, in either order
      obtain ⟨front, back, rfl⟩ := append_of_mem ha
      have hb' : b ∈ front ++ back := by
        rw [mem_append, mem_cons] at hb
        rw [mem_append]
        rcases hb with hb | rfl | hb
        · exact .inl hb
        · exact absurd rfl hab
        · exact .inr hb
      obtain ⟨front', back', hrest⟩ := append_of_mem hb'
      have hfirst : (front ++ a :: back).Perm (a :: b :: (front' ++ back')) := by
        refine perm_middle.trans (.cons a ?_)
        rw [hrest]
        exact perm_middle
      have hab' := hsame _ (.of_perm hrefl hfirst)
      have hba' := hsame _ (.of_perm hrefl (hfirst.trans (.swap b a _)))
      rw [← hba'] at hab'
      exact eq_of_sorted_eq htie hab'
  · rintro ⟨hrow, hties⟩ rows' ⟨middle, hmiddle, hperm⟩
    have hread : middle.map read = rows.map read := by
      clear hperm hties
      induction hmiddle with
      | nil => rfl
      | @cons a a' rows middle haa' hmiddle ih =>
        rw [map_cons, map_cons, hrow a mem_cons_self a' haa',
          ih fun b hb => hrow b (mem_cons_of_mem _ hb)]
    have hsorted : (rows.map read).Perm (rows'.map read) := hread ▸ hperm.map read
    refine (insertionSort_eq_of_perm hsorted fun x hx y hy htie => ?_).symm
    obtain ⟨a, ha, rfl⟩ := mem_map.mp hx
    obtain ⟨b, hb, rfl⟩ := mem_map.mp hy
    exact hties a ha b hb htie

/-- Where rows read the same exactly if they are rearrangements of each other, all depends on
the rows that tie. -/
theorem sorted_alike_rows_iff (hread : ∀ a b, rearranged a b ↔ read a = read b) {rows : List α} :
    (∀ rows', RowsRearranged rearranged rows rows' →
      ((rows'.map read).insertionSort fun a b => key a b ≠ .gt) =
        (rows.map read).insertionSort fun a b => key a b ≠ .gt) ↔
    ∀ a ∈ rows, ∀ b ∈ rows, key (read a) (read b) = .eq → rearranged a b := by
  rw [sorted_rows_iff fun a => (hread a a).mpr rfl]
  constructor
  · rintro ⟨-, hties⟩ a ha b hb htie
    exact (hread a b).mpr (hties a ha b hb htie)
  · intro hties
    refine ⟨fun a _ a' haa' => ((hread a a').mp haa').symm, fun a ha b hb htie => ?_⟩
    exact (hread a b).mp (hties a ha b hb htie)

theorem insertionSort_map_insertionSort {f : τ → τ} (hf : ∀ a, f (f a) = f a) (rows : List τ) :
    ((((rows.map f).insertionSort fun a b => key a b ≠ .gt).map f).insertionSort fun a b =>
      key a b ≠ .gt) = (rows.map f).insertionSort fun a b => key a b ≠ .gt := by
  have hfixed : (((rows.map f).insertionSort fun a b => key a b ≠ .gt).map f) =
      (rows.map f).insertionSort fun a b => key a b ≠ .gt := by
    rw [map_congr_left (g := id), map_id]
    intro a ha
    rw [mem_insertionSort] at ha
    obtain ⟨b, -, rfl⟩ := mem_map.mp ha
    exact hf b
  rw [hfixed]
  exact List.Pairwise.insertionSort_eq (pairwise_insertionSort _ _)

end StableSorting

end TegoNext
