/-
The copy of a JSON value that `serializeWireValue` makes, and equality of JSON values.

The copy has the keys of every object sorted by code units when they are put in; the properties
of an object then stand as the language has them, array indices first and by number. Two values
have the same copy just when they are equal as JSON values.
-/
import TegoNext.Bytes
import TegoNext.JsonText
import TegoNext.JsValue

set_option autoImplicit false

namespace TegoNext

open Text CanonicalJson List

namespace JsonNormalForm

/-! ## The order of properties -/

def arrayIndex (key : JsString) : Option Nat :=
  if isNumeric key then (digits key).filter (· < 4294967295) else none

/-- The properties of an object to which the fields were added one after the other. -/
def propertyOrder {α : Type} (fields : List (JsString × α)) : List (JsString × α) :=
  ((fields.filter fun field => (arrayIndex field.1).isSome).insertionSort fun left right =>
    (arrayIndex left.1).getD 0 ≤ (arrayIndex right.1).getD 0) ++
  fields.filter fun field => (arrayIndex field.1).isNone

mutual

/-- `serializeWireValue` of JSON data. -/
def cloneJson : JsonValue → JsonValue
  | .null => .null
  | .bool b => .bool b
  | .number q => .number q
  | .string s => .string s
  | .array items => .array (cloneItems items)
  | .object fields => .object (propertyOrder (JsValue.sortFields (cloneFields fields)))

def cloneItems : List JsonValue → List JsonValue
  | [] => []
  | item :: items => cloneJson item :: cloneItems items

def cloneFields : List (JsString × JsonValue) → List (JsString × JsonValue)
  | [] => []
  | (key, value) :: fields => (key, cloneJson value) :: cloneFields fields

end

/-! ## Equality of JSON values -/

mutual

/-- Equal as JSON values: the keys of an object have no order. -/
def SameValue : JsonValue → JsonValue → Prop
  | .null, .null => True
  | .bool a, .bool b => a = b
  | .number p, .number q => p = q
  | .string s, .string t => s = t
  | .array items, .array others => SameItems items others
  | .object fields, .object others => fields.length = others.length ∧ SameFields fields others
  | _, _ => False

def SameItems : List JsonValue → List JsonValue → Prop
  | [], [] => True
  | item :: items, other :: others => SameValue item other ∧ SameItems items others
  | _, _ => False

def SameFields : List (JsString × JsonValue) → List (JsString × JsonValue) → Prop
  | [], _ => True
  | (key, value) :: fields, others =>
    (∃ other, others.lookup key = some other ∧ SameValue value other) ∧ SameFields fields others

end

mutual

/-- No key comes twice, in any object of the value. -/
def DistinctKeys : JsonValue → Prop
  | .array items => DistinctItems items
  | .object fields => (fields.map (·.1)).Nodup ∧ DistinctFields fields
  | _ => True

def DistinctItems : List JsonValue → Prop
  | [] => True
  | item :: items => DistinctKeys item ∧ DistinctItems items

def DistinctFields : List (JsString × JsonValue) → Prop
  | [] => True
  | (_, value) :: fields => DistinctKeys value ∧ DistinctFields fields

end

/-! ## The copy is the same value -/

theorem propertyOrder_perm {α : Type} (fields : List (JsString × α)) :
    (propertyOrder fields).Perm fields := by
  have hnone : (fun field : JsString × α => (arrayIndex field.1).isNone) =
      fun field => !(arrayIndex field.1).isSome := by
    funext field
    cases arrayIndex field.1 <;> rfl
  unfold propertyOrder
  rw [hnone]
  exact ((perm_insertionSort _ _).append_right _).trans (filter_append_perm _ _)

theorem properties_perm {α : Type} (fields : List (JsString × α)) :
    (propertyOrder (JsValue.sortFields fields)).Perm fields :=
  (propertyOrder_perm _).trans (perm_insertionSort _ _)

theorem properties_eq_iff {α : Type} {fields others : List (JsString × α)}
    (hdistinct : (fields.map (·.1)).Nodup) :
    propertyOrder (JsValue.sortFields fields) = propertyOrder (JsValue.sortFields others) ↔
      fields.Perm others := by
  constructor
  · intro heq
    exact (properties_perm fields).symm.trans (heq ▸ properties_perm others)
  · intro hperm
    have := transCmp_comap compareText fun field : JsString × α => field.1
    have hsorted : JsValue.sortFields fields = JsValue.sortFields others := by
      refine insertionSort_eq_of_perm hperm fun field hfield other hother heq => ?_
      exact inj_on_of_nodup_map hdistinct hfield hother (eq_of_compareText heq)
    rw [hsorted]

variable {fields : List (JsString × JsonValue)}

theorem cloneItems_eq_map (items : List JsonValue) : cloneItems items = items.map cloneJson := by
  induction items with
  | nil => rfl
  | cons item items ih => rw [cloneItems, map_cons, ih]

theorem cloneFields_eq_map (fields : List (JsString × JsonValue)) :
    cloneFields fields = fields.map fun field => (field.1, cloneJson field.2) := by
  induction fields with
  | nil => rfl
  | cons field fields ih => rw [cloneFields, map_cons, ih]

theorem mem_cloneFields {key : JsString} {value : JsonValue} :
    (key, value) ∈ cloneFields fields ↔ ∃ v, (key, v) ∈ fields ∧ value = cloneJson v := by
  rw [cloneFields_eq_map, mem_map]
  constructor
  · rintro ⟨field, hfield, heq⟩
    obtain ⟨rfl, rfl⟩ := Prod.mk.inj heq
    exact ⟨field.2, hfield, rfl⟩
  · rintro ⟨v, hv, rfl⟩
    exact ⟨(key, v), hv, rfl⟩

@[simp] theorem keys_cloneFields (fields : List (JsString × JsonValue)) :
    (cloneFields fields).map (·.1) = fields.map (·.1) := by
  rw [cloneFields_eq_map, map_map]
  rfl

@[simp] theorem length_cloneFields (fields : List (JsString × JsonValue)) :
    (cloneFields fields).length = fields.length := by
  have := congrArg List.length (keys_cloneFields fields)
  rwa [length_map, length_map] at this

theorem distinctItems_iff {items : List JsonValue} :
    DistinctItems items ↔ ∀ item ∈ items, DistinctKeys item := by
  induction items with
  | nil => simp [DistinctItems]
  | cons item items ih => rw [DistinctItems, ih, forall_mem_cons]

theorem distinctFields_iff : DistinctFields fields ↔ ∀ field ∈ fields, DistinctKeys field.2 := by
  induction fields with
  | nil => simp [DistinctFields]
  | cons field fields ih => rw [DistinctFields, ih, forall_mem_cons]

theorem DistinctFields.of_mem (h : DistinctFields fields)
    {key : JsString} {value : JsonValue} (hmem : (key, value) ∈ fields) : DistinctKeys value :=
  distinctFields_iff.mp h _ hmem

/-- Objects have the same copy if they have as many fields, and each of one is copied as one of
the other. -/
theorem clone_object_iff {others : List (JsString × JsonValue)}
    (hfields : (fields.map (·.1)).Nodup) :
    cloneJson (.object fields) = cloneJson (.object others) ↔
      fields.length = others.length ∧ cloneFields fields ⊆ cloneFields others := by
  have hdistinct : ((cloneFields fields).map (·.1)).Nodup := by
    rw [keys_cloneFields]
    exact hfields
  rw [cloneJson, cloneJson, JsonValue.object.injEq, properties_eq_iff hdistinct]
  constructor
  · intro hperm
    refine ⟨?_, hperm.subset⟩
    have := hperm.length_eq
    rwa [length_cloneFields, length_cloneFields] at this
  · rintro ⟨hlength, hsub⟩
    apply ((hdistinct.of_map _).subperm hsub).perm_of_length_le
    rw [length_cloneFields, length_cloneFields, hlength]

mutual

/-- **Values have the same copy just when they are equal.** -/
theorem cloneJson_eq_iff : ∀ a b : JsonValue, DistinctKeys a → DistinctKeys b →
    (cloneJson a = cloneJson b ↔ SameValue a b)
  | .null, b, _, _ => by cases b <;> simp [cloneJson, SameValue]
  | .bool x, b, _, _ => by cases b <;> simp [cloneJson, SameValue]
  | .number q, b, _, _ => by cases b <;> simp [cloneJson, SameValue]
  | .string s, b, _, _ => by cases b <;> simp [cloneJson, SameValue]
  | .array items, b, ha, hb => by
    cases b with
    | array others =>
      rw [cloneJson, cloneJson, JsonValue.array.injEq, SameValue]
      exact cloneItems_eq_iff items others ha hb
    | _ => simp [cloneJson, SameValue]
  | .object fields, b, ha, hb => by
    cases b with
    | object others =>
      rw [clone_object_iff ha.1, SameValue, cloneFields_subset_iff fields others ha.2 hb.2 hb.1]
    | _ => simp [cloneJson, SameValue]

theorem cloneItems_eq_iff : ∀ items others : List JsonValue, DistinctItems items →
    DistinctItems others → (cloneItems items = cloneItems others ↔ SameItems items others)
  | [], [], _, _ => by simp [cloneItems, SameItems]
  | [], _ :: _, _, _ => by simp [cloneItems, SameItems]
  | _ :: _, [], _, _ => by simp [cloneItems, SameItems]
  | item :: items, other :: others, ha, hb => by
    rw [cloneItems, cloneItems, List.cons.injEq, SameItems,
      cloneJson_eq_iff item other ha.1 hb.1, cloneItems_eq_iff items others ha.2 hb.2]

theorem cloneFields_subset_iff : ∀ fields others : List (JsString × JsonValue),
    DistinctFields fields → DistinctFields others → (others.map (·.1)).Nodup →
      (cloneFields fields ⊆ cloneFields others ↔ SameFields fields others)
  | [], _, _, _, _ => by simp [cloneFields, SameFields]
  | (key, value) :: fields, others, ha, hb, hkeys => by
    rw [cloneFields, cons_subset, SameFields, mem_cloneFields,
      cloneFields_subset_iff fields others ha.2 hb hkeys]
    refine and_congr_left' ?_
    constructor
    · rintro ⟨other, hmem, heq⟩
      exact ⟨other, lookup_of_mem hkeys hmem,
        (cloneJson_eq_iff value other ha.1 (hb.of_mem hmem)).mp heq⟩
    · rintro ⟨other, hlookup, hsame⟩
      have hmem := mem_of_lookup hlookup
      exact ⟨other, hmem, (cloneJson_eq_iff value other ha.1 (hb.of_mem hmem)).mpr hsame⟩

end

theorem DistinctKeys.cloneJson (value : JsonValue) (h : DistinctKeys value) :
    DistinctKeys (JsonNormalForm.cloneJson value) := by
  induction value using JsonValue.induction with
  | array items ih =>
    rw [DistinctKeys, distinctItems_iff] at h
    rw [JsonNormalForm.cloneJson, cloneItems_eq_map, DistinctKeys, distinctItems_iff]
    exact forall_mem_map.mpr fun item hitem => ih item hitem (h item hitem)
  | object fields ih =>
    rw [DistinctKeys, distinctFields_iff] at h
    have hperm := properties_perm (cloneFields fields)
    rw [JsonNormalForm.cloneJson, DistinctKeys, (hperm.map _).nodup_iff, keys_cloneFields,
      distinctFields_iff]
    refine ⟨h.1, fun field hfield => ?_⟩
    obtain ⟨value, hvalue, heq⟩ := mem_cloneFields.mp (hperm.mem_iff.mp hfield)
    rw [heq]
    exact ih _ hvalue (h.2 _ hvalue)
  | _ => exact h

theorem cloneJson_cloneJson (value : JsonValue) (h : DistinctKeys value) :
    cloneJson (cloneJson value) = cloneJson value := by
  induction value using JsonValue.induction with
  | array items ih =>
    rw [DistinctKeys, distinctItems_iff] at h
    rw [cloneJson, cloneJson, JsonValue.array.injEq, cloneItems_eq_map, cloneItems_eq_map, map_map]
    exact map_congr_left fun item hitem => ih item hitem (h item hitem)
  | object fields ih =>
    rw [DistinctKeys, distinctFields_iff] at h
    have hperm := properties_perm (cloneFields fields)
    rw [cloneJson, cloneJson, JsonValue.object.injEq]
    refine (properties_eq_iff ?_).mpr ?_
    · rw [keys_cloneFields, (hperm.map _).nodup_iff, keys_cloneFields]
      exact h.1
    · have hmap := hperm.map fun field => (field.1, cloneJson field.2)
      have hsame : (cloneFields fields).map (fun field => (field.1, cloneJson field.2)) =
          cloneFields fields := by
        rw [cloneFields_eq_map, map_map]
        exact map_congr_left fun field hfield => congrArg (field.1, ·)
          (ih field hfield (h.2 field hfield))
      rwa [hsame, ← cloneFields_eq_map] at hmap
  | _ => rfl

theorem sameValue_cloneJson_iff {a b : JsonValue} (ha : DistinctKeys a) (hb : DistinctKeys b) :
    SameValue a (cloneJson b) ↔ cloneJson a = cloneJson b := by
  rw [← cloneJson_eq_iff a _ ha (.cloneJson b hb), cloneJson_cloneJson b hb]

/-! ## How long a text is -/

theorem utf8_append_ascii {u : UInt16} (hu : u < 128) (s t : JsString) :
    utf8 (s ++ u :: t) = utf8 s ++ u.toNat :: utf8 t := by
  have hhigh : ¬ 0xd800 ≤ u := fun h =>
    absurd (UInt16.lt_of_lt_of_le hu (by decide)) (UInt16.not_lt.mpr h)
  have hlow : ¬ 0xdc00 ≤ u := fun h => hhigh (UInt16.le_trans (by decide) h)
  have hcons : utf8 (u :: t) = u.toNat :: utf8 t := by
    cases t with
    | nil => exact utf8Unit_of_lt hu
    | cons v t =>
      rw [utf8, if_neg fun h => hhigh h.1, utf8Unit_of_lt hu]
      rfl
  induction s using utf8.induct with
  | case1 => exact hcons
  | case2 v =>
    show utf8 (v :: u :: t) = _
    have hpair : ¬(0xd800 ≤ v ∧ v ≤ 0xdbff ∧ 0xdc00 ≤ u ∧ u ≤ 0xdfff) := fun h => hlow h.2.2.1
    have hunit : utf8 [v] = utf8Unit v := by rw [utf8]
    rw [hunit, utf8, if_neg hpair, hcons]
  | case3 v w rest hpair ih =>
    show utf8 (v :: w :: (rest ++ u :: t)) = _
    rw [utf8, if_pos hpair, ih, utf8, if_pos hpair, append_assoc]
  | case4 v w rest hpair ih =>
    rw [cons_append] at ih
    show utf8 (v :: w :: (rest ++ u :: t)) = _
    rw [utf8, if_neg hpair, ih, utf8, if_neg hpair, append_assoc]

/-- `Buffer.byteLength` of a text. -/
def byteLength (s : JsString) : Nat := (utf8 s).length

theorem byteLength_append_ascii {u : UInt16} (hu : u < 128) (s t : JsString) :
    byteLength (s ++ u :: t) = byteLength s + 1 + byteLength t := by
  rw [byteLength, utf8_append_ascii hu, length_append, length_cons, byteLength, byteLength]
  omega

theorem byteLength_cons_ascii {u : UInt16} (hu : u < 128) (t : JsString) :
    byteLength (u :: t) = 1 + byteLength t := by
  have h := byteLength_append_ascii hu [] t
  rwa [nil_append, show byteLength [] = 0 from rfl, Nat.zero_add] at h

theorem byteLength_joinParts (parts : List JsString) :
    byteLength (joinParts [44] parts) = (parts.map byteLength).sum + (parts.length - 1) := by
  induction parts with
  | nil => rfl
  | cons part rest ih =>
    cases rest with
    | nil => simp [joinParts]
    | cons next rest =>
      rw [joinParts, append_assoc, singleton_append,
        byteLength_append_ascii (by decide), ih, @List.map_cons _ _ byteLength part,
        sum_cons, @List.length_cons _ part, length_cons]
      omega

theorem byteLength_row {opening closing : UInt16} (hopening : opening < 128)
    (hclosing : closing < 128) (parts : List JsString) :
    byteLength (opening :: joinParts [44] parts ++ [closing]) =
      (parts.map byteLength).sum + (parts.length - 1) + 2 := by
  rw [byteLength_append_ascii hclosing, byteLength_cons_ascii hopening, byteLength_joinParts,
    show byteLength [] = 0 from rfl]
  omega

section Bytes

variable (numberText : NumberText)

def jsonBytes (value : JsonValue) : Nat := byteLength (stringify numberText value)

def fieldBytes (field : JsString × JsonValue) : Nat :=
  byteLength (member field.1 (stringify numberText field.2))

theorem fieldBytes_eq (key : JsString) (value : JsonValue) :
    fieldBytes numberText (key, value) =
      byteLength (quoted key) + 1 + jsonBytes numberText value := by
  rw [fieldBytes, member, byteLength_append_ascii (by decide), jsonBytes]

theorem jsonBytes_array (items : List JsonValue) :
    jsonBytes numberText (.array items) =
      (items.map (jsonBytes numberText)).sum + (items.length - 1) + 2 := by
  rw [jsonBytes, stringify, byteLength_row (by decide) (by decide), stringifyItems_eq_map,
    map_map, length_map]
  rfl

theorem jsonBytes_object (fields : List (JsString × JsonValue)) :
    jsonBytes numberText (.object fields) =
      (fields.map (fieldBytes numberText)).sum + (fields.length - 1) + 2 := by
  rw [jsonBytes, stringify, byteLength_row (by decide) (by decide), stringifyFields_eq_map,
    map_map, length_map]
  rfl

/-- **A copy is as long as the value.** -/
theorem jsonBytes_cloneJson (value : JsonValue) :
    jsonBytes numberText (cloneJson value) = jsonBytes numberText value := by
  induction value using JsonValue.induction with
  | array items ih =>
    rw [cloneJson, jsonBytes_array, jsonBytes_array, cloneItems_eq_map, map_map, length_map]
    have hitems : items.map (jsonBytes numberText ∘ cloneJson) =
        items.map (jsonBytes numberText) := map_congr_left ih
    rw [hitems]
  | object fields ih =>
    have hperm := properties_perm (cloneFields fields)
    rw [cloneJson, jsonBytes_object, jsonBytes_object, hperm.length_eq, length_cloneFields,
      (hperm.map _).sum_nat, cloneFields_eq_map, map_map]
    congr 3
    refine map_congr_left fun field hfield => ?_
    show fieldBytes numberText (field.1, cloneJson field.2) = _
    rw [fieldBytes_eq, ih field hfield, ← fieldBytes_eq]
  | _ => rfl

end Bytes

end JsonNormalForm

end TegoNext
