/-
Lists sorted by a comparison: when the elements alone decide what the sorted list is.

Sorting forgets in which order the elements came as long as no two of them compare as equal
without being equal, and it keeps two lists related that were related element by element. A
list of entries sorted by a key is strictly sorted as long as no key comes twice.
-/
import Mathlib.Data.List.Sort

set_option autoImplicit false

namespace TegoNext

open List

theorem find?_of_nodup {α κ : Type} [BEq κ] [LawfulBEq κ] (key : α → κ) {values : List α}
    (hnd : (values.map key).Nodup) {a : α} (ha : a ∈ values) :
    values.find? (fun b => key b == key a) = some a := by
  cases hfind : values.find? (fun b => key b == key a) with
  | none => simpa using find?_eq_none.mp hfind a ha
  | some b =>
    have hkey : key b = key a := by simpa using find?_some hfind
    rw [inj_on_of_nodup_map hnd (mem_of_find?_eq_some hfind) ha hkey]

theorem mem_of_lookup {α κ : Type} [BEq κ] [LawfulBEq κ] {entries : List (κ × α)} {key : κ}
    {value : α} (h : entries.lookup key = some value) : (key, value) ∈ entries := by
  induction entries with
  | nil => simp at h
  | cons entry entries ih =>
    rw [lookup_cons] at h
    split at h
    · next heq =>
      rw [← Option.some.inj h, beq_iff_eq.mp heq]
      exact mem_cons_self
    · exact mem_cons_of_mem _ (ih h)

theorem lookup_of_mem {α κ : Type} [BEq κ] [LawfulBEq κ] {entries : List (κ × α)}
    (hnd : (entries.map (·.1)).Nodup) {entry : κ × α} (h : entry ∈ entries) :
    entries.lookup entry.1 = some entry.2 := by
  induction entries with
  | nil => cases h
  | cons head rest ih =>
    rw [map_cons, nodup_cons] at hnd
    rw [lookup_cons]
    rcases mem_cons.mp h with rfl | h
    · rw [beq_self_eq_true]
    · have hne : entry.1 ≠ head.1 := by
        intro heq
        rw [← heq] at hnd
        exact hnd.1 (mem_map_of_mem h)
      rw [beq_eq_false_iff_ne.mpr hne]
      exact ih hnd.2 h

/-! ## Sorting by a comparison -/

section Sorting

variable {α β : Type} {cmp : α → α → Ordering}

instance total_ne_gt [Std.OrientedCmp cmp] : Std.Total (fun a b => cmp a b ≠ .gt) where
  total a b := by
    by_cases h : cmp a b = .gt
    · right
      rw [Std.OrientedCmp.lt_of_gt h]
      decide
    · exact .inl h

instance isTrans_ne_gt [Std.TransCmp cmp] : IsTrans α (fun a b => cmp a b ≠ .gt) where
  trans a b c hab hbc := by
    exact Ordering.ne_gt_iff_isLE.mpr (Std.TransCmp.isLE_trans (Ordering.ne_gt_iff_isLE.mp hab)
      (Ordering.ne_gt_iff_isLE.mp hbc))

theorem insertionSort_eq_of_perm [Std.TransCmp cmp] {l l' : List α} (hperm : l.Perm l')
    (heq : ∀ a ∈ l, ∀ b ∈ l, cmp a b = .eq → a = b) :
    (l.insertionSort fun a b => cmp a b ≠ .gt) = l'.insertionSort fun a b => cmp a b ≠ .gt := by
  have hsorted : ∀ l : List α,
      (l.insertionSort fun a b => cmp a b ≠ .gt).Pairwise fun a b => cmp a b ≠ .gt :=
    pairwise_insertionSort _
  refine List.Perm.eq_of_pairwise ?_ (hsorted l) (hsorted l')
    ((perm_insertionSort _ l).trans (hperm.trans (perm_insertionSort _ l').symm))
  intro a b ha hb hab hba
  rw [mem_insertionSort] at ha hb
  exact heq a ha b (hperm.mem_iff.mpr hb) (Std.OrientedCmp.isLE_antisymm
    (Ordering.ne_gt_iff_isLE.mp hab) (Ordering.ne_gt_iff_isLE.mp hba))

theorem insertionSort_filter {r : α → α → Prop} [DecidableRel r] [Std.Total r] [IsTrans α r]
    (p : α → Bool) {l : List α} (hanti : ∀ a ∈ l, ∀ b ∈ l, r a b → r b a → a = b) :
    (l.filter p).insertionSort r = (l.insertionSort r).filter p := by
  refine List.Perm.eq_of_pairwise ?_ (pairwise_insertionSort r _)
    ((pairwise_insertionSort r l).filter p)
    ((perm_insertionSort r _).trans ((perm_insertionSort r l).filter p).symm)
  intro a b ha hb
  rw [mem_insertionSort, mem_filter] at ha
  rw [mem_filter, mem_insertionSort] at hb
  exact hanti a ha.1 b hb.1

theorem transCmp_comap (cmp : α → α → Ordering) [Std.TransCmp cmp] (f : β → α) :
    Std.TransCmp fun a b => cmp (f a) (f b) where
  eq_swap := Std.OrientedCmp.eq_swap
  isLE_trans := Std.TransCmp.isLE_trans

end Sorting

/-! ## Related lists -/

theorem forall₂_exists_left {α β : Type} {R : α → β → Prop} {l : List α} {l' : List β}
    (h : List.Forall₂ R l l') {b : β} (hb : b ∈ l') : ∃ a ∈ l, R a b := by
  induction h with
  | nil => cases hb
  | @cons a c l l' hac h ih =>
    rcases mem_cons.mp hb with rfl | hb
    · exact ⟨a, mem_cons_self, hac⟩
    · obtain ⟨a', ha', hrel⟩ := ih hb
      exact ⟨a', mem_cons_of_mem _ ha', hrel⟩

section Related

variable {α β : Type} {R : α → β → Prop} {r : α → α → Prop} {s : β → β → Prop}
  [DecidableRel r] [DecidableRel s]

theorem forall₂_orderedInsert {a : α} {b : β} {l : List α} {l' : List β} (hab : R a b)
    (h : List.Forall₂ R l l') (hrel : ∀ c d, R c d → (r a c ↔ s b d)) :
    List.Forall₂ R (l.orderedInsert r a) (l'.orderedInsert s b) := by
  induction h with
  | nil => exact .cons hab .nil
  | @cons c d l l' hcd h ih =>
    rw [orderedInsert_cons, orderedInsert_cons]
    by_cases hr : r a c
    · rw [if_pos hr, if_pos ((hrel c d hcd).mp hr)]
      exact .cons hab (.cons hcd h)
    · rw [if_neg hr, if_neg (mt (hrel c d hcd).mpr hr)]
      exact .cons hcd ih

theorem forall₂_insertionSort {l : List α} {l' : List β} (h : List.Forall₂ R l l')
    (hrel : ∀ a b c d, R a b → R c d → (r a c ↔ s b d)) :
    List.Forall₂ R (l.insertionSort r) (l'.insertionSort s) := by
  induction h with
  | nil => exact .nil
  | @cons a b l l' hab h ih =>
    rw [insertionSort_cons, insertionSort_cons]
    exact forall₂_orderedInsert hab ih fun c d hcd => hrel a b c d hab hcd

end Related

/-! ## Strictly sorted lists -/

section StrictlySorted

variable {α β : Type} {cmp : α → α → Ordering}

/-- Every element is before all that follow it. -/
def StrictlySorted (cmp : α → α → Ordering) (l : List α) : Prop :=
  l.Pairwise fun a b => cmp a b = .lt

instance irrefl_lt [Std.OrientedCmp cmp] : Std.Irrefl fun a b => cmp a b = .lt where
  irrefl a h := by
    have hself : cmp a a = .eq := Std.ReflCmp.compare_self
    rw [hself] at h
    cases h

instance antisymm_lt [Std.OrientedCmp cmp] : Std.Antisymm fun a b => cmp a b = .lt where
  antisymm a b hab hba := by
    rw [Std.OrientedCmp.gt_of_lt hab] at hba
    cases hba

variable {l : List α}

theorem StrictlySorted.eq_of_mem_iff [Std.OrientedCmp cmp] {l' : List α}
    (hl : StrictlySorted cmp l) (hl' : StrictlySorted cmp l') (hmem : ∀ a, a ∈ l ↔ a ∈ l') :
    l = l' :=
  List.Pairwise.eq_of_mem_iff hl hl' hmem

theorem StrictlySorted.sorted (h : StrictlySorted cmp l) : l.Pairwise fun a b => cmp a b ≠ .gt := by
  apply List.Pairwise.imp ?_ h
  intro a b hab
  rw [hab]
  decide

theorem StrictlySorted.insertionSort_eq (h : StrictlySorted cmp l) :
    (l.insertionSort fun a b => cmp a b ≠ .gt) = l :=
  List.Pairwise.insertionSort_eq h.sorted

theorem strictlySorted_insertionSort [Std.TransCmp cmp] (h : l.Pairwise fun a b => cmp a b ≠ .eq) :
    StrictlySorted cmp (l.insertionSort fun a b => cmp a b ≠ .gt) := by
  have hsymm : ∀ {a b : α}, cmp a b ≠ .eq → cmp b a ≠ .eq := fun hab hba =>
    hab (Std.OrientedCmp.eq_symm hba)
  have hne := (List.Perm.pairwise_iff hsymm
    (perm_insertionSort (fun a b => cmp a b ≠ .gt) l).symm).mp h
  apply List.Pairwise.imp ?_ ((pairwise_insertionSort (fun a b => cmp a b ≠ .gt) l).and hne)
  rintro a b ⟨hle, hne⟩
  cases hcmp : cmp a b with
  | lt => rfl
  | eq => exact absurd hcmp hne
  | gt => exact absurd hcmp hle

end StrictlySorted

end TegoNext
