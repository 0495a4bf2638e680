/-
What a canonical text says of the value it was written from.

`canonical` writes what `JSON.stringify` writes of the value whose members are in the order of
their keys, which is what `serializeWireValue` makes of it. As such a text can be read back, two
values have one canonical text only if they are the same up to the order of their members.
-/
import TegoNext.CapabilityRouter
import TegoNext.JsonNormalForm

set_option autoImplicit false

namespace TegoNext

open Text JsonNormalForm List

namespace CanonicalJson

variable {numberText : NumberText}

theorem serializeItems_eq_map (items : List JsonValue) :
    serializeItems items = items.map serializeWireValue := by
  induction items with
  | nil => rfl
  | cons item items ih => rw [serializeItems, ih, map_cons]

theorem serializeFields_eq_map (fields : List (JsString × JsonValue)) :
    serializeFields fields = fields.map fun field => (field.1, serializeWireValue field.2) := by
  induction fields with
  | nil => rfl
  | cons field fields ih => rw [serializeFields, ih, map_cons]

/-- **A canonical text** is the text of the value with its members in order. -/
theorem canonical_eq_stringify (value : JsonValue) :
    canonical numberText value = stringify numberText (serializeWireValue value) := by
  induction value using JsonValue.induction with
  | bool b => cases b <;> rfl
  | array items ih =>
    rw [canonical, serializeWireValue, stringify, canonicalItems_eq_map, serializeItems_eq_map,
      stringifyItems_eq_map, map_map, map_congr_left ih]
    rfl
  | object fields ih =>
    have hfields : canonicalFields numberText fields =
        (serializeFields fields).map fun field => (field.1, stringify numberText field.2) := by
      rw [canonicalFields_eq_map, serializeFields_eq_map, map_map]
      exact map_congr_left fun field hfield => congrArg (field.1, ·) (ih field hfield)
    have hsorted : sortMembers ((serializeFields fields).map fun field =>
          (field.1, stringify numberText field.2)) =
        ((serializeFields fields).insertionSort fun left right =>
          compareText left.1 right.1 ≠ .gt).map fun field =>
            (field.1, stringify numberText field.2) := by
      rw [sortMembers]
      exact (map_insertionSort _ _ _ _ fun left _ right _ => by rfl).symm
    rw [canonical, serializeWireValue, stringify, stringifyFields_eq_map, hfields, hsorted, map_map]
    rfl
  | _ => rfl

/-- **Values with one canonical text** are the same, up to the order of their members. -/
theorem canonical_eq_iff (hprints : PrintsApart numberText) {a b : JsonValue} :
    canonical numberText a = canonical numberText b ↔
      serializeWireValue a = serializeWireValue b := by
  rw [canonical_eq_stringify, canonical_eq_stringify]
  constructor
  · exact stringify_injective hprints _ _
  · intro h
    rw [h]

/-! ## Values with the same members -/

theorem serializeWireValue_array_iff {items items' : List JsonValue} :
    serializeWireValue (.array items) = serializeWireValue (.array items') ↔
      items.map serializeWireValue = items'.map serializeWireValue := by
  rw [serializeWireValue, serializeWireValue, serializeItems_eq_map, serializeItems_eq_map,
    JsonValue.array.injEq]

theorem eq_of_perm_of_keys {α κ : Type} {entries entries' : List (κ × α)}
    (hkeys : entries.map Prod.fst = entries'.map Prod.fst) (hnodup : (entries.map Prod.fst).Nodup)
    (h : entries.Perm entries') : entries = entries' := by
  induction entries generalizing entries' with
  | nil => exact h.nil_eq
  | cons entry entries ih =>
    cases entries' with
    | nil => cases hkeys
    | cons entry' entries' =>
      rw [map_cons, map_cons] at hkeys
      obtain ⟨hkey, hrest⟩ := List.cons.inj hkeys
      rw [map_cons, nodup_cons] at hnodup
      have hentry : entry = entry' := by
        rcases mem_cons.mp (h.mem_iff.mp mem_cons_self) with heq | hmem
        · exact heq
        · have hmem' := mem_map_of_mem (f := Prod.fst) hmem
          rw [← hrest] at hmem'
          exact absurd hmem' hnodup.1
      subst hentry
      rw [ih hrest hnodup.2 h.cons_inv]

theorem serializeWireValue_object_iff {fields fields' : List (JsString × JsonValue)}
    (hkeys : fields.map Prod.fst = fields'.map Prod.fst) (hnodup : (fields.map Prod.fst).Nodup) :
    serializeWireValue (.object fields) = serializeWireValue (.object fields') ↔
      fields.map (fun field => serializeWireValue field.2) =
        fields'.map fun field => serializeWireValue field.2 := by
  have hmapKeys : ∀ entries : List (JsString × JsonValue),
      (serializeFields entries).map Prod.fst = entries.map Prod.fst := fun entries => by
    rw [serializeFields_eq_map, map_map]
    rfl
  have hmapValues : ∀ entries : List (JsString × JsonValue),
      (serializeFields entries).map Prod.snd =
        entries.map fun field => serializeWireValue field.2 := fun entries => by
    rw [serializeFields_eq_map, map_map]
    rfl
  rw [serializeWireValue, serializeWireValue, JsonValue.object.injEq, ← hmapValues, ← hmapValues]
  constructor
  · intro h
    have hperm : (serializeFields fields).Perm (serializeFields fields') := by
      have hsorted := perm_insertionSort (fun left right : JsString × JsonValue =>
        compareText left.1 right.1 ≠ .gt)
      refine (hsorted _).symm.trans ?_
      rw [h]
      exact hsorted _
    have hsame := eq_of_perm_of_keys (by rw [hmapKeys, hmapKeys, hkeys])
      (by rw [hmapKeys]; exact hnodup) hperm
    rw [hsame]
  · intro h
    have hsame : serializeFields fields = serializeFields fields' := by
      rw [← zip_unzip (serializeFields fields), ← zip_unzip (serializeFields fields'),
        unzip_eq_map, unzip_eq_map, hmapKeys, hmapKeys, hkeys, h]
    rw [hsame]

end CanonicalJson

end TegoNext
