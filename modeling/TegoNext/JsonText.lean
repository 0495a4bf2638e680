/-
JSON texts can be read back.

`JSON.stringify` writes a value with its keys as they stand. A text determines the value it was
written from, the order of the keys included. How a number is printed is a parameter, of which it
is needed that different numbers are printed differently, and none as nothing.
-/
import TegoNext.CanonicalJson

set_option autoImplicit false

namespace TegoNext

open Text List

namespace CanonicalJson

/-- What printing numbers does. -/
structure PrintsApart (numberText : NumberText) : Prop where
  injective : ∀ p q, (numberText p).val = (numberText q).val → p = q
  nonempty : ∀ q, (numberText q).val ≠ []

section Stringify

variable (numberText : NumberText)

mutual

/-- `JSON.stringify`; the fields are in the order of the properties. -/
def stringify : JsonValue → JsString
  | .null => js "null"
  | .bool true => js "true"
  | .bool false => js "false"
  | .number q => (numberText q).val
  | .string s => quoted s
  | .array items => 91 :: joinParts [44] (stringifyItems items) ++ [93]
  | .object fields => 123 :: joinParts [44] (stringifyFields fields) ++ [125]

def stringifyItems : List JsonValue → List JsString
  | [] => []
  | item :: items => stringify item :: stringifyItems items

def stringifyFields : List (JsString × JsonValue) → List JsString
  | [] => []
  | (key, value) :: fields => member key (stringify value) :: stringifyFields fields

end

theorem stringifyItems_eq_map (items : List JsonValue) :
    stringifyItems numberText items = items.map (stringify numberText) := by
  induction items with
  | nil => rfl
  | cons item items ih => rw [stringifyItems, map_cons, ih]

theorem stringifyFields_eq_map (fields : List (JsString × JsonValue)) :
    stringifyFields numberText fields =
      fields.map fun field => member field.1 (stringify numberText field.2) := by
  induction fields with
  | nil => rfl
  | cons field fields ih => rw [stringifyFields, map_cons, ih]

end Stringify

/-! ## Strings -/

def shortEscapes : List (UInt16 × UInt16) :=
  [(34, 34), (92, 92), (8, 98), (9, 116), (10, 110), (12, 102), (13, 114)]

/-- The ways in which a unit may be written. -/
inductive Written : UInt16 → JsString → Prop
  | plain {u : UInt16} (hslash : u ≠ 92) (hquote : u ≠ 34) : Written u [u]
  | short {u v : UInt16} (h : (u, v) ∈ shortEscapes) : Written u [92, v]
  | unicode (u : UInt16) : Written u (unicodeEscape u)

theorem hexUnit_inj {m n : Nat} (hm : m < 16) (hn : n < 16) (h : hexUnit m = hexUnit n) :
    m = n := by
  have hall : ∀ j k : Fin 16, hexUnit j = hexUnit k → j = k := by decide
  exact congrArg Fin.val (hall ⟨m, hm⟩ ⟨n, hn⟩ h)

variable {s t : JsString}

theorem unicodeEscape_append_inj {u v : UInt16}
    (h : unicodeEscape u ++ s = unicodeEscape v ++ t) : u = v ∧ s = t := by
  have hmod : ∀ n : Nat, n % 16 < 16 := fun n => Nat.mod_lt n (by decide)
  simp only [unicodeEscape, cons_append, nil_append, List.cons.injEq, true_and] at h
  obtain ⟨h₃, h₂, h₁, h₀, hrest⟩ := h
  have h₃ := hexUnit_inj (hmod _) (hmod _) h₃
  have h₂ := hexUnit_inj (hmod _) (hmod _) h₂
  have h₁ := hexUnit_inj (hmod _) (hmod _) h₁
  have h₀ := hexUnit_inj (hmod _) (hmod _) h₀
  have hu := u.toNat_lt
  have hv := v.toNat_lt
  refine ⟨UInt16.toNat_inj.mp ?_, hrest⟩
  omega

theorem Written.append_inj {u v : UInt16} {p q : JsString} (hp : Written u p)
    (hq : Written v q) (h : p ++ s = q ++ t) : u = v ∧ s = t := by
  have hletters : ∀ a ∈ shortEscapes, ∀ b ∈ shortEscapes, a.2 = b.2 → a.1 = b.1 := by
    have hall : shortEscapes.all (fun a => shortEscapes.all fun b =>
        decide (a.2 = b.2 → a.1 = b.1)) = true := by decide
    intro a ha b hb
    exact of_decide_eq_true (all_eq_true.mp (all_eq_true.mp hall a ha) b hb)
  have hother : ∀ a ∈ shortEscapes, a.2 ≠ 117 := by
    have hall : shortEscapes.all (fun a => decide (a.2 ≠ 117)) = true := by decide
    intro a ha
    exact of_decide_eq_true (all_eq_true.mp hall a ha)
  have hslash : ∀ {w : UInt16} {r : JsString}, unicodeEscape w ++ r = 92 :: 117 ::
      ((unicodeEscape w).drop 2 ++ r) := fun {w r} => rfl
  cases hp with
  | plain hu _ =>
    cases hq with
    | plain hv _ =>
      obtain ⟨rfl, hrest⟩ := List.cons.inj h
      exact ⟨rfl, hrest⟩
    | short hv => exact absurd (List.cons.inj h).1 hu
    | unicode =>
      rw [hslash] at h
      exact absurd (List.cons.inj h).1 hu
  | short hu =>
    cases hq with
    | plain hv _ => exact absurd (List.cons.inj h).1.symm hv
    | short hv =>
      obtain ⟨-, htail⟩ := List.cons.inj h
      obtain ⟨hletter, hrest⟩ := List.cons.inj htail
      exact ⟨hletters _ hu _ hv hletter, hrest⟩
    | unicode =>
      rw [hslash] at h
      obtain ⟨-, htail⟩ := List.cons.inj h
      exact absurd (List.cons.inj htail).1 (hother _ hu)
  | unicode =>
    cases hq with
    | plain hv _ =>
      rw [hslash] at h
      exact absurd (List.cons.inj h).1.symm hv
    | short hv =>
      rw [hslash] at h
      obtain ⟨-, htail⟩ := List.cons.inj h
      exact absurd (List.cons.inj htail).1.symm (hother _ hv)
    | unicode => exact unicodeEscape_append_inj h

theorem Written.head_ne {u : UInt16} {p : JsString} (h : Written u p) : p ++ s ≠ 34 :: t := by
  intro heq
  cases h with
  | plain _ hquote => exact hquote (List.cons.inj heq).1
  | short _ | unicode => exact absurd (List.cons.inj heq).1 (by decide)

theorem written_escapeUnit (u : UInt16) : Written u (escapeUnit u) := by
  have hshort : ∀ a ∈ shortEscapes, u = a.1 → Written u [92, a.2] := by
    rintro a ha rfl
    exact .short ha
  unfold escapeUnit
  split
  · next h => exact hshort (34, 34) (by decide) h
  next hquote =>
  split
  · next h => exact hshort (92, 92) (by decide) h
  next hslash =>
    split
    · next h => exact hshort (8, 98) (by decide) h
    split
    · next h => exact hshort (9, 116) (by decide) h
    split
    · next h => exact hshort (10, 110) (by decide) h
    split
    · next h => exact hshort (12, 102) (by decide) h
    split
    · next h => exact hshort (13, 114) (by decide) h
    split
    · exact .unicode u
    · exact .plain hslash hquote

theorem written_stringBody (s : JsString) :
    ∃ pieces, List.Forall₂ Written s pieces ∧ pieces.flatten = stringBody s := by
  refine stringBody_rec (P := fun s body => ∃ pieces, List.Forall₂ Written s pieces ∧
    pieces.flatten = body) ⟨[], .nil, rfl⟩ ?_ ?_ ?_ s
  · rintro u v _ _ hlead htrail ⟨pieces, hpieces, rfl⟩
    have hunit : ∀ w : UInt16, 0xd800 ≤ w → Written w [w] := by
      intro w hw
      apply Written.plain <;> rintro rfl <;> exact absurd hw (by decide)
    have htrail' : (0xd800 : UInt16) ≤ v := UInt16.le_trans (by decide) htrail.1
    exact ⟨[u] :: [v] :: pieces, .cons (hunit u hlead.1) (.cons (hunit v htrail') hpieces), rfl⟩
  · rintro u _ _ ⟨pieces, hpieces, rfl⟩
    exact ⟨unicodeEscape u :: pieces, .cons (.unicode u) hpieces, rfl⟩
  · rintro u _ _ _ _ ⟨pieces, hpieces, rfl⟩
    exact ⟨escapeUnit u :: pieces, .cons (written_escapeUnit u) hpieces, rfl⟩

theorem eq_of_written {x y : JsString} {ps qs : List JsString}
    (hs : List.Forall₂ Written s ps) (ht : List.Forall₂ Written t qs)
    (h : ps.flatten ++ 34 :: x = qs.flatten ++ 34 :: y) : s = t ∧ x = y := by
  induction hs generalizing t qs with
  | nil =>
    cases ht with
    | nil => exact ⟨rfl, (List.cons.inj h).2⟩
    | cons hq _ =>
      rw [flatten_nil, nil_append, flatten_cons, append_assoc] at h
      exact absurd h.symm hq.head_ne
  | cons hp _ ih =>
    cases ht with
    | nil =>
      rw [flatten_nil, nil_append, flatten_cons, append_assoc] at h
      exact absurd h hp.head_ne
    | cons hq ht =>
      rw [flatten_cons, flatten_cons, append_assoc, append_assoc] at h
      obtain ⟨rfl, hrest⟩ := hp.append_inj hq h
      obtain ⟨rfl, hxy⟩ := ih ht hrest
      exact ⟨rfl, hxy⟩

/-- **A string can be read back**, and where it ends. -/
theorem quoted_append_inj {x y : JsString} (h : quoted s ++ x = quoted t ++ y) : s = t ∧ x = y := by
  obtain ⟨ps, hps, hs⟩ := written_stringBody s
  obtain ⟨qs, hqs, ht⟩ := written_stringBody t
  rw [quoted, quoted, cons_append, cons_append, cons_append, cons_append,
    append_assoc, append_assoc] at h
  apply eq_of_written hps hqs
  rw [hs, ht]
  exact (List.cons.inj h).2

theorem quoted_injective (h : quoted s = quoted t) : s = t := by
  have happend : quoted s ++ [] = quoted t ++ [] := by rw [h]
  exact (quoted_append_inj happend).1

/-! ## Values -/

section Values

variable {numberText : NumberText}

theorem neutral_stringify (value : JsonValue) : Neutral (stringify numberText value) := by
  induction value using JsonValue.induction with
  | null =>
    rw [stringify]
    exact neutral_of_inert (by decide)
  | bool b => cases b <;> rw [stringify] <;> exact neutral_of_inert (by decide)
  | number q =>
    rw [stringify]
    refine neutral_of_inert (all_eq_true.mpr fun u hu => ?_)
    exact isInert_of_isNumberUnit (all_eq_true.mp (numberText q).property u hu)
  | string s =>
    rw [stringify]
    exact neutral_quoted s
  | array items ih =>
    rw [stringify, stringifyItems_eq_map]
    exact neutral_bracketed (.inl rfl) (.inl rfl) (scan_joinParts (forall_mem_map.mpr ih))
  | object fields ih =>
    rw [stringify, stringifyFields_eq_map]
    exact neutral_bracketed (.inr rfl) (.inr rfl) (scan_joinParts
      (forall_mem_map.mpr fun field hfield => neutral_member (ih field hfield)))

/-- What the text of a value that is no number begins with. -/
def opener : JsonValue → Option UInt16
  | .null => some 110
  | .bool true => some 116
  | .bool false => some 102
  | .number _ => none
  | .string _ => some 34
  | .array _ => some 91
  | .object _ => some 123

theorem stringify_of_opener {value : JsonValue} {u : UInt16} (h : opener value = some u) :
    ∃ rest, stringify numberText value = u :: rest := by
  cases value with
  | bool b => cases b <;> cases h <;> exact ⟨_, rfl⟩
  | number q => cases h
  | _ =>
    cases h
    exact ⟨_, rfl⟩

theorem isNumberUnit_opener {value : JsonValue} {u : UInt16} (h : opener value = some u) :
    isNumberUnit u = false := by
  cases value with
  | bool b => cases b <;> cases h <;> decide
  | number q => cases h
  | _ =>
    cases h
    decide

theorem stringify_ne_nil (hprints : PrintsApart numberText) (value : JsonValue) :
    stringify numberText value ≠ [] := by
  cases hopener : opener value with
  | some u =>
    obtain ⟨rest, htext⟩ := @stringify_of_opener numberText _ _ hopener
    rw [htext]
    exact cons_ne_nil _ _
  | none =>
    cases value with
    | number q => exact hprints.nonempty q
    | bool b => cases b <;> cases hopener
    | _ => cases hopener

theorem opener_eq {a b : JsonValue} (h : stringify numberText a = stringify numberText b) :
    opener a = opener b := by
  have hnumber : ∀ {q : Rat} {value : JsonValue} {u : UInt16}, opener value = some u →
      (numberText q).val ≠ stringify numberText value := by
    intro q value u hopener heq
    obtain ⟨rest, htext⟩ := @stringify_of_opener numberText _ _ hopener
    have hmem : u ∈ (numberText q).val := by
      rw [heq, htext]
      exact mem_cons_self
    have hunit := all_eq_true.mp (numberText q).property u hmem
    rw [isNumberUnit_opener hopener] at hunit
    cases hunit
  have hnone : ∀ {value : JsonValue}, opener value = none → ∃ q, value = .number q := by
    intro value hnone
    cases value with
    | number q => exact ⟨q, rfl⟩
    | bool b => cases b <;> cases hnone
    | _ => cases hnone
  cases ha : opener a with
  | none =>
    obtain ⟨q, rfl⟩ := hnone ha
    cases hb : opener b with
    | none => rfl
    | some v => exact absurd h (hnumber hb)
  | some u =>
    cases hb : opener b with
    | none =>
      obtain ⟨q, rfl⟩ := hnone hb
      exact absurd h.symm (hnumber ha)
    | some v =>
      obtain ⟨restA, htextA⟩ := @stringify_of_opener numberText _ _ ha
      obtain ⟨restB, htextB⟩ := @stringify_of_opener numberText _ _ hb
      rw [htextA, htextB] at h
      rw [(List.cons.inj h).1]

theorem rows_eq {opening closing : UInt16} (hclosing : closing = 93 ∨ closing = 125)
    {parts others : List JsString} (hparts : ∀ part ∈ parts, part ≠ [] ∧ Neutral part)
    (hothers : ∀ part ∈ others, part ≠ [] ∧ Neutral part)
    (h : opening :: joinParts [44] parts ++ [closing] =
      opening :: joinParts [44] others ++ [closing]) : parts = others := by
  have hjoined : joinParts [44] parts ++ [closing] = joinParts [44] others ++ [closing] :=
    (List.cons.inj h).2
  have hempty : ∀ {row : List JsString}, (∀ part ∈ row, part ≠ [] ∧ Neutral part) →
      joinParts [44] row = [] → row = [] := by
    intro row hrow hnil
    cases row with
    | nil => rfl
    | cons part rest =>
      have hpart := (hrow part mem_cons_self).1
      cases rest with
      | nil => exact absurd hnil hpart
      | cons next rest =>
        rw [joinParts, append_assoc] at hnil
        exact absurd (append_eq_nil_iff.mp hnil).1 hpart
  by_cases hp : parts = []
  · subst hp
    exact (hempty hothers (append_cancel_right hjoined).symm).symm
  by_cases ho : others = []
  · subst ho
    exact hempty hparts (append_cancel_right hjoined)
  · exact joinParts_inj hclosing hp ho (fun part hm => (hparts part hm).2)
      (fun part hm => (hothers part hm).2) hjoined

theorem items_spec (hprints : PrintsApart numberText) (items : List JsonValue) :
    ∀ part ∈ stringifyItems numberText items, part ≠ [] ∧ Neutral part := by
  rw [stringifyItems_eq_map]
  exact forall_mem_map.mpr fun item _ => ⟨stringify_ne_nil hprints item, neutral_stringify item⟩

theorem fields_spec (fields : List (JsString × JsonValue)) :
    ∀ part ∈ stringifyFields numberText fields, part ≠ [] ∧ Neutral part := by
  rw [stringifyFields_eq_map]
  exact forall_mem_map.mpr fun field _ => ⟨cons_ne_nil _ _, neutral_member (neutral_stringify _)⟩

theorem eq_of_map_eq {α β : Type} {f : α → β} {row others : List α}
    (hf : ∀ a ∈ row, ∀ b, f a = f b → a = b) (h : row.map f = others.map f) : row = others := by
  induction row generalizing others with
  | nil => exact (map_eq_nil_iff.mp h.symm).symm
  | cons a row ih =>
    cases others with
    | nil => cases h
    | cons b others =>
      obtain ⟨hhead, htail⟩ := List.cons.inj h
      obtain ⟨ha, hrow⟩ := forall_mem_cons.mp hf
      rw [ha b hhead, ih hrow htail]

/-- **A value can be read back**, with its keys in their order. -/
theorem stringify_injective (hprints : PrintsApart numberText) (a b : JsonValue)
    (h : stringify numberText a = stringify numberText b) : a = b := by
  have hopener := opener_eq h
  induction a using JsonValue.induction generalizing b with
  | null =>
    cases b with
    | null => rfl
    | bool b => cases b <;> cases hopener
    | _ => cases hopener
  | bool x =>
    cases b with
    | bool y => cases x <;> cases y <;> first | rfl | cases hopener
    | _ => cases x <;> cases hopener
  | number q =>
    cases b with
    | number q' =>
      rw [stringify, stringify] at h
      rw [hprints.injective q q' h]
    | bool b => cases b <;> cases hopener
    | _ => cases hopener
  | string s =>
    cases b with
    | string t =>
      rw [stringify, stringify] at h
      rw [quoted_injective h]
    | bool b => cases b <;> cases hopener
    | _ => cases hopener
  | array items ih =>
    cases b with
    | array items' =>
      rw [stringify, stringify] at h
      have hrows := rows_eq (.inl rfl) (items_spec hprints items) (items_spec hprints items') h
      rw [stringifyItems_eq_map, stringifyItems_eq_map] at hrows
      rw [eq_of_map_eq (fun item hitem other heq => ih item hitem other heq (opener_eq heq)) hrows]
    | bool b => cases b <;> cases hopener
    | _ => cases hopener
  | object fields ih =>
    cases b with
    | object fields' =>
      rw [stringify, stringify] at h
      have hrows := rows_eq (.inr rfl) (fields_spec fields) (fields_spec fields') h
      rw [stringifyFields_eq_map, stringifyFields_eq_map] at hrows
      rw [eq_of_map_eq (fun field hfield other heq => ?_) hrows]
      obtain ⟨hkey, hvalue⟩ := quoted_append_inj heq
      have htext := (List.cons.inj hvalue).2
      exact Prod.ext hkey (ih field hfield other.2 htext (opener_eq htext))
    | bool b => cases b <;> cases hopener
    | _ => cases hopener

end Values

end CanonicalJson

end TegoNext
