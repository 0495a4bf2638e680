/-
`sortedUnique` sorts and drops what equals its left neighbour. Where only equal elements
compare as equal, the result is the one strictly sorted list with the members of the input:
neither the order in which they came nor how often each of them came can be told from it, and
sorting it once more changes nothing.
-/
import TegoNext.TextOrder
import TegoNext.JsValue

set_option autoImplicit false

namespace TegoNext

open List

/-! ## `sortedUnique` -/

section SortedUnique

variable {α : Type} {cmp : α → α → Ordering}

variable {l : List α}

theorem dropRepeated_of_strictlySorted (previous : Option α)
    (hprevious : ∀ p ∈ previous, ∀ a ∈ l, cmp p a = .lt) (h : StrictlySorted cmp l) :
    dropRepeated cmp previous l = l := by
  induction l generalizing previous with
  | nil => rw [dropRepeated]
  | cons a l ih =>
    obtain ⟨ha, hl⟩ := pairwise_cons.mp h
    have hrest : dropRepeated cmp (some a) l = l := by
      apply ih _ _ hl
      rintro p ⟨⟩ b hb
      exact ha b hb
    cases previous with
    | none => rw [dropRepeated, hrest]
    | some p =>
      have hlt := hprevious p rfl a mem_cons_self
      rw [dropRepeated, hlt, if_neg (by decide), hrest]

variable {previous : Option α}

theorem mem_of_mem_dropRepeated {a : α} (h : a ∈ dropRepeated cmp previous l) : a ∈ l := by
  induction l generalizing previous with
  | nil => rwa [dropRepeated] at h
  | cons b l ih =>
    cases previous with
    | none =>
      rw [dropRepeated] at h
      rcases mem_cons.mp h with rfl | h
      · exact mem_cons_self
      · exact mem_cons_of_mem _ (ih h)
    | some p =>
      rw [dropRepeated] at h
      split at h
      · exact mem_cons_of_mem _ (ih h)
      rcases mem_cons.mp h with rfl | h
      · exact mem_cons_self
      · exact mem_cons_of_mem _ (ih h)

theorem mem_dropRepeated [Std.LawfulEqCmp cmp] {a : α}
    (h : a ∈ l) : previous = some a ∨ a ∈ dropRepeated cmp previous l := by
  induction l generalizing previous with
  | nil => cases h
  | cons b l ih =>
    have hrest : a ∈ b :: dropRepeated cmp (some b) l := by
      rcases mem_cons.mp h with rfl | h
      · exact mem_cons_self
      · rcases (ih h : some b = some a ∨ _) with heq | hmem
        · rw [Option.some.inj heq]
          exact mem_cons_self
        · exact mem_cons_of_mem _ hmem
    cases previous with
    | none =>
      rw [dropRepeated]
      exact .inr hrest
    | some p =>
      rw [dropRepeated]
      split
      · next heq =>
        have hpb : p = b := Std.LawfulEqCmp.eq_of_compare heq
        rcases mem_cons.mp hrest with hab | hmem
        · exact .inl (by rw [hpb, hab])
        · exact .inr hmem
      · exact .inr hrest

theorem strictlySorted_dropRepeated [Std.TransCmp cmp]
    (hprevious : ∀ p ∈ previous, ∀ a ∈ l, cmp p a ≠ .gt)
    (h : l.Pairwise fun a b => cmp a b ≠ .gt) :
    StrictlySorted cmp (dropRepeated cmp previous l) ∧
      ∀ p ∈ previous, ∀ a ∈ dropRepeated cmp previous l, cmp p a = .lt := by
  induction l generalizing previous with
  | nil =>
    rw [dropRepeated]
    exact ⟨List.Pairwise.nil, by simp⟩
  | cons a l ih =>
    obtain ⟨ha, hl⟩ := pairwise_cons.mp h
    have hnext : ∀ p ∈ some a, ∀ b ∈ l, cmp p b ≠ .gt := by
      rintro p ⟨⟩
      exact ha
    obtain ⟨hsorted, hbelow⟩ := ih hnext hl
    have hcons : StrictlySorted cmp (a :: dropRepeated cmp (some a) l) :=
      pairwise_cons.mpr ⟨hbelow a rfl, hsorted⟩
    cases previous with
    | none =>
      rw [dropRepeated]
      exact ⟨hcons, by simp⟩
    | some p =>
      rw [dropRepeated]
      have hpa := hprevious p rfl a mem_cons_self
      by_cases heq : cmp p a = .eq
      · rw [if_pos heq]
        refine ⟨hsorted, ?_⟩
        rintro _ ⟨⟩ b hb
        exact Std.TransCmp.lt_of_eq_of_lt heq (hbelow a rfl b hb)
      · have hlt : cmp p a = .lt := by
          cases hcmp : cmp p a with
          | lt => rfl
          | eq => exact absurd hcmp heq
          | gt => exact absurd hcmp hpa
        rw [if_neg heq]
        refine ⟨hcons, ?_⟩
        rintro _ ⟨⟩ b hb
        rcases mem_cons.mp hb with rfl | hb
        · exact hlt
        · exact Std.TransCmp.lt_trans hlt (hbelow a rfl b hb)

theorem sortedUnique_strictlySorted [Std.TransCmp cmp] (l : List α) :
    StrictlySorted cmp (sortedUnique cmp l) := by
  apply (strictlySorted_dropRepeated _ (pairwise_insertionSort _ l)).1
  simp

@[simp] theorem mem_sortedUnique [Std.LawfulEqCmp cmp] {a : α} :
    a ∈ sortedUnique cmp l ↔ a ∈ l := by
  rw [sortedUnique]
  refine ⟨fun h => (mem_insertionSort _).mp (mem_of_mem_dropRepeated h), fun h => ?_⟩
  have hmem : a ∈ l.insertionSort fun left right => cmp left right ≠ .gt :=
    (mem_insertionSort _).mpr h
  rcases (mem_dropRepeated hmem : none = some a ∨ a ∈ dropRepeated cmp none _) with heq | hmem
  · cases heq
  · exact hmem

theorem sortedUnique_congr [Std.TransCmp cmp] [Std.LawfulEqCmp cmp] {l' : List α}
    (h : ∀ a, a ∈ l ↔ a ∈ l') : sortedUnique cmp l = sortedUnique cmp l' := by
  apply (sortedUnique_strictlySorted l).eq_of_mem_iff (sortedUnique_strictlySorted l')
  intro a
  rw [mem_sortedUnique, mem_sortedUnique, h]

theorem StrictlySorted.sortedUnique_eq (h : StrictlySorted cmp l) : sortedUnique cmp l = l := by
  rw [sortedUnique, h.insertionSort_eq]
  apply dropRepeated_of_strictlySorted none _ h
  simp

end SortedUnique

end TegoNext
