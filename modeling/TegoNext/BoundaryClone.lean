/-
What the clone at a boundary returns.

`clonePermissionBoundaryValue` carries a path for its errors and copies an object with its keys
sorted. Whether it succeeds, and with what, can be told from the value alone: `Cloned` relates
the value to its copy, one step of the structure at a time.

The language gives no object two properties of one name; `DistinctNames` says so of a whole
value, and the clone keeps it.
-/
import TegoNext.PermissionReading

set_option autoImplicit false

namespace TegoNext

open Text JsValue List Except

/-- Fields under the same names, with related values. -/
def FieldsRelated {α β : Type} (R : α → β → Prop) :
    List (JsString × α) → List (JsString × β) → Prop :=
  List.Forall₂ fun f g => f.1 = g.1 ∧ R f.2 g.2

theorem FieldsRelated.sortFields {α β : Type} {R : α → β → Prop} {fields : List (JsString × α)}
    {fields' : List (JsString × β)} (h : FieldsRelated R fields fields') :
    FieldsRelated R (sortFields fields) (sortFields fields') := by
  apply forall₂_insertionSort h
  intro a b c d hab hcd
  rw [hab.1, hcd.1]

variable {α : Type}

theorem FieldsRelated.names {β : Type} {R : α → β → Prop} {fields : List (JsString × α)}
    {fields' : List (JsString × β)} (h : FieldsRelated R fields fields') :
    fields.map (·.1) = fields'.map (·.1) := by
  induction h with
  | nil => rfl
  | cons hfield h ih => rw [map_cons, map_cons, hfield.1, ih]

theorem FieldsRelated.trans {β γ : Type} {R : α → β → Prop} {S : β → γ → Prop} {T : α → γ → Prop}
    {fields : List (JsString × α)} {middle : List (JsString × β)} {fields' : List (JsString × γ)}
    (h : FieldsRelated R fields middle) (h' : FieldsRelated S middle fields')
    (htrans : ∀ a b c, R a b → S b c → T a c) : FieldsRelated T fields fields' := by
  induction h generalizing fields' with
  | nil =>
    cases h'
    exact .nil
  | @cons f g l l' hfg h ih =>
    cases h' with
    | @cons _ g' _ l'' hgg h' =>
      exact .cons ⟨hfg.1.trans hgg.1, htrans _ _ _ hfg.2 hgg.2⟩ (ih h')

theorem sequenceFields_eq_ok
    {fields : List (JsString × Except PermissionInputError α)} {results : List (JsString × α)} :
    sequenceFields fields = .ok results ↔ FieldsRelated (fun x a => x = .ok a) fields results := by
  induction fields generalizing results with
  | nil => simp [sequenceFields, FieldsRelated, eq_comm]
  | cons field fields ih =>
    obtain ⟨name, value⟩ := field
    simp only [sequenceFields, bind_eq_ok, ih, pure_eq_ok, FieldsRelated, forall₂_cons_left_iff]
    constructor
    · rintro ⟨a, ha, rest, hrest, rfl⟩
      exact ⟨(name, a), rest, ⟨rfl, ha⟩, hrest, rfl⟩
    · rintro ⟨⟨key, a⟩, rest, ⟨rfl, ha⟩, hrest, rfl⟩
      exact ⟨a, ha, rest, hrest, rfl⟩

/-! ## The path matters to errors only -/

mutual

theorem clone_path (p q : JsString) (w : JsValue) :
    ∀ v : JsValue, clone p v = .ok w → clone q v = .ok w
  | .null, h => by rwa [clone] at h ⊢
  | .bool _, h => by rwa [clone] at h ⊢
  | .number _, h => by rwa [clone] at h ⊢
  | .string _, h => by rwa [clone] at h ⊢
  | .foreign _, h => by
    rw [clone] at h
    cases h
  | .array items, h => by
    rw [clone, bind_eq_ok] at h ⊢
    obtain ⟨copies, hcopies, hw⟩ := h
    exact ⟨copies, cloneItems_path p q 0 copies items hcopies, hw⟩
  | .object fields, h => by
    rw [clone, bind_eq_ok] at h ⊢
    obtain ⟨copies, hcopies, hw⟩ := h
    refine ⟨copies, ?_, hw⟩
    rw [sequenceFields_eq_ok] at hcopies ⊢
    exact (cloneFields_path q p fields).sortFields.trans hcopies fun x y a hxy hy => hxy a hy

theorem cloneItems_path (p q : JsString) (index : Nat) (copies : List JsValue) :
    ∀ items : List JsValue, cloneItems p index items = .ok copies → cloneItems q index items = .ok copies
  | [], h => by rwa [cloneItems] at h ⊢
  | item :: items, h => by
    simp only [cloneItems, bind_eq_ok, pure_eq_ok] at h ⊢
    obtain ⟨copy, hcopy, rest, hrest, rfl⟩ := h
    exact ⟨copy, clone_path _ _ copy item hcopy, rest, cloneItems_path p q _ rest items hrest, rfl⟩

theorem cloneFields_path (p q : JsString) :
    ∀ fields : Fields, FieldsRelated (fun x y => ∀ a, y = Except.ok a → x = .ok a)
      (cloneFields p fields) (cloneFields q fields)
  | [] => by
    rw [cloneFields, cloneFields]
    exact .nil
  | (key, value) :: fields => by
    rw [cloneFields, cloneFields]
    exact .cons ⟨rfl, fun a => clone_path _ _ a value⟩ (cloneFields_path p q fields)

end

/-! ## The copy -/

def Cloned (value copy : JsValue) : Prop := ∀ path, clone path value = .ok copy

theorem clone_eq_ok {path : JsString} {value copy : JsValue} :
    clone path value = .ok copy ↔ Cloned value copy :=
  ⟨fun h q => clone_path path q copy value h, fun h => h path⟩

variable {copy : JsValue}

theorem Cloned.unique {value copy' : JsValue} (h : Cloned value copy)
    (h' : Cloned value copy') : copy = copy' :=
  ok.inj ((h (js "$")).symm.trans (h' (js "$")))

theorem cloneItems_eq_ok {path : JsString} {index : Nat} {items copies : List JsValue} :
    cloneItems path index items = .ok copies ↔ List.Forall₂ Cloned items copies := by
  induction items generalizing index copies with
  | nil => simp [cloneItems, eq_comm]
  | cons item items ih =>
    simp only [cloneItems, bind_eq_ok, clone_eq_ok, ih, pure_eq_ok, forall₂_cons_left_iff]
    constructor
    · rintro ⟨copy, hcopy, rest, hrest, rfl⟩
      exact ⟨copy, rest, hcopy, hrest, rfl⟩
    · rintro ⟨copy, rest, hcopy, hrest, rfl⟩
      exact ⟨copy, hcopy, rest, hrest, rfl⟩

theorem cloned_array {items : List JsValue} :
    Cloned (.array items) copy ↔ ∃ copies, copy = .array copies ∧ List.Forall₂ Cloned items copies := by
  simp only [← @clone_eq_ok (js "$"), clone, bind_eq_ok, cloneItems_eq_ok, pure_eq_ok]
  constructor
  · rintro ⟨copies, hcopies, rfl⟩
    exact ⟨copies, rfl, hcopies⟩
  · rintro ⟨copies, rfl, hcopies⟩
    exact ⟨copies, hcopies, rfl⟩

theorem fieldsRelated_cloneFields {path : JsString} {fields copies : Fields} :
    FieldsRelated (fun x copy => x = .ok copy) (cloneFields path fields) copies ↔
      FieldsRelated Cloned fields copies := by
  induction fields generalizing copies with
  | nil => simp [cloneFields, FieldsRelated]
  | cons field fields ih =>
    obtain ⟨name, value⟩ := field
    simp only [FieldsRelated] at ih ⊢
    simp only [cloneFields, forall₂_cons_left_iff, ih, clone_eq_ok]

theorem cloned_object {fields : Fields} :
    Cloned (.object fields) copy ↔
      ∃ copies, copy = .object (sortFields copies) ∧ FieldsRelated Cloned fields copies := by
  simp only [← @clone_eq_ok (js "$"), clone, bind_eq_ok, sequenceFields_eq_ok, pure_eq_ok]
  constructor
  · rintro ⟨results, hresults, rfl⟩
    obtain ⟨copies, hcopies, -⟩ := perm_comp_forall₂ (perm_insertionSort _ _).symm hresults
    have hrelated : FieldsRelated (fun x copy => x = Except.ok copy)
        (cloneFields (js "$") fields) copies := hcopies
    refine ⟨copies, ?_, fieldsRelated_cloneFields.mp hrelated⟩
    -- a result belongs to one copy only, so the sorted copies are the results
    have hsorted := hrelated.sortFields
    congr 1
    apply right_unique_forall₂' ?_ hresults hsorted
    rintro ⟨name, x⟩ ⟨key, a⟩ ⟨key', a'⟩ ⟨hkey, ha⟩ ⟨hkey', ha'⟩
    rw [Prod.mk.injEq]
    exact ⟨hkey.symm.trans hkey', ok.inj (ha.symm.trans ha')⟩
  · rintro ⟨copies, rfl, hcopies⟩
    exact ⟨sortFields copies, (fieldsRelated_cloneFields.mpr hcopies).sortFields, rfl⟩

/-! ## Names of properties -/

/-- No object of the value has two properties of one name. -/
inductive DistinctNames : JsValue → Prop where
  | null : DistinctNames .null
  | bool (b : Bool) : DistinctNames (.bool b)
  | number (q : Rat) : DistinctNames (.number q)
  | string (s : JsString) : DistinctNames (.string s)
  | array {items : List JsValue} (hitems : ∀ item ∈ items, DistinctNames item) :
      DistinctNames (.array items)
  | object {fields : Fields} (hnames : (fields.map (·.1)).Nodup)
      (hfields : ∀ field ∈ fields, DistinctNames field.2) : DistinctNames (.object fields)
  | foreign (message : String) : DistinctNames (.foreign message)

theorem perm_sortFields (fields : List (JsString × α)) : (sortFields fields).Perm fields :=
  perm_insertionSort _ fields

theorem nodup_sortFields {fields : List (JsString × α)}
    (h : (fields.map (·.1)).Nodup) : ((sortFields fields).map (·.1)).Nodup :=
  ((perm_sortFields fields).map (·.1)).nodup_iff.mpr h

theorem DistinctNames.cloned {value : JsValue} (h : DistinctNames value)
    (hcopy : Cloned value copy) : DistinctNames copy := by
  induction h generalizing copy with
  | null =>
    rw [← ok.inj (hcopy (js "$"))]
    exact .null
  | bool b =>
    rw [← ok.inj (hcopy (js "$"))]
    exact .bool b
  | number q =>
    rw [← ok.inj (hcopy (js "$"))]
    exact .number q
  | string s =>
    rw [← ok.inj (hcopy (js "$"))]
    exact .string s
  | foreign message => cases hcopy (js "$")
  | array hitems ih =>
    obtain ⟨copies, rfl, hcopies⟩ := cloned_array.mp hcopy
    apply DistinctNames.array
    intro copy hmem
    obtain ⟨item, hitem, hitemCopy⟩ := forall₂_exists_left hcopies hmem
    exact ih item hitem hitemCopy
  | object hnames hfields ih =>
    obtain ⟨copies, rfl, hcopies⟩ := cloned_object.mp hcopy
    apply DistinctNames.object
    · apply nodup_sortFields
      rwa [← hcopies.names]
    · intro copy hmem
      obtain ⟨field, hfield, -, hvalue⟩ :=
        forall₂_exists_left hcopies ((mem_insertionSort _).mp hmem)
      exact ih field hfield hvalue

end TegoNext
