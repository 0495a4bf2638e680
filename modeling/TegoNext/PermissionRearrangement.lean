/-
Permission sets that differ by the order or repetition of the entries in their lists.

`Rearranged` is this difference as a relation of values: entries of a list come in another order,
an entry that is no object comes once more, and the same inside an entry or a property. An entry
that is an object carries a key (its kind, name or path): it may move but not come twice.
-/
import TegoNext.PermissionIdempotence

set_option autoImplicit false

namespace TegoNext

open Text JsValue List

/-! ## Order and repetition -/

def JsValue.isObject : JsValue → Bool
  | .object _ => true
  | _ => false

/-- The values differ only by the order of the entries of their lists and by how often entries
come that are no objects. -/
inductive Rearranged : JsValue → JsValue → Prop where
  | refl (value : JsValue) : Rearranged value value
  | symm {value value' : JsValue} (h : Rearranged value value') : Rearranged value' value
  | trans {value value' value'' : JsValue} (h : Rearranged value value')
      (h' : Rearranged value' value'') : Rearranged value value''
  | order {items items' : List JsValue} (h : items.Perm items') :
      Rearranged (.array items) (.array items')
  | again {item : JsValue} {items : List JsValue} (hmem : item ∈ items)
      (hitem : item.isObject = false) : Rearranged (.array items) (.array (item :: items))
  | entry {item item' : JsValue} (before after : List JsValue) (h : Rearranged item item') :
      Rearranged (.array (before ++ item :: after)) (.array (before ++ item' :: after))
  | property {value value' : JsValue} (before after : Fields) (name : JsString)
      (h : Rearranged value value') :
      Rearranged (.object (before ++ (name, value) :: after))
        (.object (before ++ (name, value') :: after))

variable {fields : Fields}

theorem rearranged_object {fields' : Fields} (h : FieldsRelated Rearranged fields fields') :
    Rearranged (.object fields) (.object fields') := by
  have hbefore : ∀ before : Fields,
      Rearranged (.object (before ++ fields)) (.object (before ++ fields')) := by
    induction h with
    | nil => exact fun before => .refl _
    | @cons field field' fields fields' hfield h ih =>
      intro before
      obtain ⟨name, value⟩ := field
      obtain ⟨name', value'⟩ := field'
      obtain ⟨hname, hvalue⟩ := hfield
      cases hname
      have hrest := ih (before ++ [(name, value')])
      rw [append_assoc, append_assoc, singleton_append, singleton_append] at hrest
      exact (Rearranged.property before fields name hvalue).trans hrest
  exact hbefore []

variable {value : JsValue}

theorem fieldsRelated_property {value' : JsValue} (before after : Fields) (name : JsString)
    (h : Rearranged value value') :
    FieldsRelated Rearranged (before ++ (name, value) :: after)
      (before ++ (name, value') :: after) := by
  have hrefl : ∀ fields : Fields, FieldsRelated Rearranged fields fields := fun fields =>
    forall₂_same.mpr fun field _ => ⟨rfl, .refl field.2⟩
  exact rel_append (hrefl before) (.cons ⟨rfl, h⟩ (hrefl after))

/-! ## Related lists -/

section Lists

variable {α β : Type} {R : α → β → Prop}

theorem forall₂_append_cons {before after : List α} {a : α} {read : List β} :
    List.Forall₂ R (before ++ a :: after) read ↔
      ∃ first b last, List.Forall₂ R before first ∧ R a b ∧ List.Forall₂ R after last ∧
        read = first ++ b :: last := by
  induction before generalizing read with
  | nil =>
    rw [nil_append, forall₂_cons_left_iff]
    constructor
    · rintro ⟨b, last, hab, hlast, rfl⟩
      exact ⟨[], b, last, .nil, hab, hlast, rfl⟩
    · rintro ⟨first, b, last, hfirst, hab, hlast, rfl⟩
      cases hfirst
      exact ⟨b, last, hab, hlast, rfl⟩
  | cons c before ih =>
    rw [cons_append, forall₂_cons_left_iff]
    constructor
    · rintro ⟨d, rest, hcd, hrest, rfl⟩
      obtain ⟨first, b, last, hfirst, hab, hlast, rfl⟩ := ih.mp hrest
      exact ⟨d :: first, b, last, .cons hcd hfirst, hab, hlast, rfl⟩
    · rintro ⟨first, b, last, hfirst, hab, hlast, rfl⟩
      cases hfirst with
      | @cons _ d _ first hcd hfirst =>
        exact ⟨d, first ++ b :: last, hcd, ih.mpr ⟨first, b, last, hfirst, hab, hlast, rfl⟩, rfl⟩

theorem forall₂_exists_right {l : List α} {l' : List β} (h : List.Forall₂ R l l') {a : α}
    (ha : a ∈ l) : ∃ b ∈ l', R a b :=
  forall₂_exists_left (R := flip R) h.flip ha

end Lists

/-! ## The copies -/

theorem cloned_isObject {copy : JsValue} (h : Cloned value copy) :
    copy.isObject = value.isObject := by
  cases value with
  | array items =>
    obtain ⟨copies, rfl, -⟩ := cloned_array.mp h
    rfl
  | object fields =>
    obtain ⟨copies, rfl, -⟩ := cloned_object.mp h
    rfl
  | foreign message => cases h (js "$")
  | null | bool | number | string =>
    rw [← Except.ok.inj (h (js "$"))]

theorem Rearranged.cloned {value' : JsValue} (h : Rearranged value value') :
    (∀ copy, Cloned value copy → ∃ copy', Cloned value' copy' ∧ Rearranged copy copy') ∧
      ∀ copy', Cloned value' copy' → ∃ copy, Cloned value copy ∧ Rearranged copy' copy := by
  induction h with
  | refl value =>
    exact ⟨fun copy hcopy => ⟨copy, hcopy, .refl copy⟩, fun copy hcopy => ⟨copy, hcopy, .refl copy⟩⟩
  | symm _ ih => exact ih.symm
  | trans _ _ ih ih' =>
    constructor
    · intro copy hcopy
      obtain ⟨copy', hcopy', hrel⟩ := ih.1 copy hcopy
      obtain ⟨copy'', hcopy'', hrel'⟩ := ih'.1 copy' hcopy'
      exact ⟨copy'', hcopy'', hrel.trans hrel'⟩
    · intro copy'' hcopy''
      obtain ⟨copy', hcopy', hrel'⟩ := ih'.2 copy'' hcopy''
      obtain ⟨copy, hcopy, hrel⟩ := ih.2 copy' hcopy'
      exact ⟨copy, hcopy, hrel'.trans hrel⟩
  | @order items items' hperm =>
    have hforward : ∀ {l l' : List JsValue}, l.Perm l' → ∀ copy, Cloned (.array l) copy →
        ∃ copy', Cloned (.array l') copy' ∧ Rearranged copy copy' := by
      intro l l' hperm copy hcopy
      obtain ⟨copies, rfl, hcopies⟩ := cloned_array.mp hcopy
      obtain ⟨copies', hcopies', hperm'⟩ := perm_comp_forall₂ hperm.symm hcopies
      exact ⟨.array copies', cloned_array.mpr ⟨copies', rfl, hcopies'⟩, .order hperm'.symm⟩
    exact ⟨hforward hperm, hforward hperm.symm⟩
  | @again item items hmem hitem =>
    constructor
    · intro copy hcopy
      obtain ⟨copies, rfl, hcopies⟩ := cloned_array.mp hcopy
      obtain ⟨itemCopy, hmemCopy, hitemCopy⟩ := forall₂_exists_right hcopies hmem
      refine ⟨.array (itemCopy :: copies),
        cloned_array.mpr ⟨_, rfl, .cons hitemCopy hcopies⟩, .again hmemCopy ?_⟩
      rw [cloned_isObject hitemCopy, hitem]
    · intro copy hcopy
      obtain ⟨copies, rfl, hcopies⟩ := cloned_array.mp hcopy
      cases hcopies with
      | @cons _ itemCopy _ copies hitemCopy hcopies =>
        obtain ⟨itemCopy', hmemCopy, hitemCopy'⟩ := forall₂_exists_right hcopies hmem
        rw [hitemCopy'.unique hitemCopy] at hmemCopy
        refine ⟨.array copies, cloned_array.mpr ⟨copies, rfl, hcopies⟩,
          (Rearranged.again hmemCopy ?_).symm⟩
        rw [cloned_isObject hitemCopy, hitem]
  | @entry item item' before after _ ih =>
    have hforward : ∀ {a b : JsValue},
        (∀ copy, Cloned a copy → ∃ copy', Cloned b copy' ∧ Rearranged copy copy') →
        ∀ copy, Cloned (.array (before ++ a :: after)) copy →
          ∃ copy', Cloned (.array (before ++ b :: after)) copy' ∧ Rearranged copy copy' := by
      intro a b hab copy hcopy
      obtain ⟨copies, rfl, hcopies⟩ := cloned_array.mp hcopy
      obtain ⟨first, itemCopy, last, hfirst, hitem, hlast, rfl⟩ := forall₂_append_cons.mp hcopies
      obtain ⟨itemCopy', hitem', hrel⟩ := hab itemCopy hitem
      exact ⟨.array (first ++ itemCopy' :: last),
        cloned_array.mpr ⟨_, rfl, forall₂_append_cons.mpr
          ⟨first, itemCopy', last, hfirst, hitem', hlast, rfl⟩⟩, .entry first last hrel⟩
    exact ⟨hforward ih.1, hforward ih.2⟩
  | @property value value' before after name _ ih =>
    have hforward : ∀ {a b : JsValue},
        (∀ copy, Cloned a copy → ∃ copy', Cloned b copy' ∧ Rearranged copy copy') →
        ∀ copy, Cloned (.object (before ++ (name, a) :: after)) copy →
          ∃ copy', Cloned (.object (before ++ (name, b) :: after)) copy' ∧
            Rearranged copy copy' := by
      intro a b hab copy hcopy
      obtain ⟨copies, rfl, hcopies⟩ := cloned_object.mp hcopy
      obtain ⟨first, ⟨key, fieldCopy⟩, last, hfirst, ⟨hkey, hfield⟩, hlast, rfl⟩ :=
        forall₂_append_cons.mp hcopies
      cases hkey
      obtain ⟨fieldCopy', hfield', hrel⟩ := hab fieldCopy hfield
      refine ⟨.object (sortFields (first ++ (name, fieldCopy') :: last)),
        cloned_object.mpr ⟨_, rfl, forall₂_append_cons.mpr
          ⟨first, (name, fieldCopy'), last, hfirst, ⟨rfl, hfield'⟩, hlast, rfl⟩⟩, ?_⟩
      exact rearranged_object (fieldsRelated_property first last name hrel).sortFields
    exact ⟨hforward ih.1, hforward ih.2⟩

/-! ## Readings that see no difference -/

variable {α : Type} {Reads : JsValue → α → Prop}

def ReadAlike (Reads : JsValue → α → Prop) : Prop :=
  ∀ value value', Rearranged value value' → ∀ a, Reads value a ↔ Reads value' a

/-- A reading of lists need only be followed through the three ways a list changes; `symm` gives
the ways back. -/
theorem readAlike_of_array (hobject : ∀ fields a, ¬Reads (.object fields) a)
    (horder : ∀ items items' a, items.Perm items' → Reads (.array items) a →
      Reads (.array items') a)
    (hagain : ∀ item items a, item ∈ items → item.isObject = false →
      (Reads (.array items) a ↔ Reads (.array (item :: items)) a))
    (hentry : ∀ item item' before after a, Rearranged item item' →
      Reads (.array (before ++ item :: after)) a → Reads (.array (before ++ item' :: after)) a) :
    ReadAlike Reads := by
  intro value value' h
  induction h with
  | refl => exact fun a => Iff.rfl
  | symm _ ih => exact fun a => (ih a).symm
  | trans _ _ ih ih' => exact fun a => (ih a).trans (ih' a)
  | order hperm => exact fun a => ⟨horder _ _ a hperm, horder _ _ a hperm.symm⟩
  | again hmem hitem => exact fun a => hagain _ _ a hmem hitem
  | entry before after hitem =>
    exact fun a => ⟨hentry _ _ before after a hitem, hentry _ _ before after a hitem.symm⟩
  | property => exact fun a => iff_of_false (hobject _ a) (hobject _ a)

theorem readAlike_of_scalar
    (harray : ∀ items a, ¬Reads (.array items) a) (hobject : ∀ fields a, ¬Reads (.object fields) a) :
    ReadAlike Reads :=
  readAlike_of_array hobject (fun _ _ a _ h => absurd h (harray _ a))
    (fun _ _ a _ _ => iff_of_false (harray _ a) (harray _ a))
    fun _ _ _ _ a _ h => absurd h (harray _ a)

theorem readAlike_text (check : JsString → Bool) : ReadAlike (TextReads check) :=
  readAlike_of_scalar (by simp [TextReads]) (by simp [TextReads])

theorem readAlike_integer (check : Int → Prop) : ReadAlike (IntegerReads check) :=
  readAlike_of_scalar (by simp [IntegerReads, safeInteger]) (by simp [IntegerReads, safeInteger])

variable (domainToASCII : JsString → JsString)

theorem readAlike_host : ReadAlike (HostReads domainToASCII) :=
  readAlike_of_scalar (by simp [HostReads]) (by simp [HostReads])

theorem readAlike_root : ReadAlike RootReads :=
  readAlike_of_scalar (by simp [RootReads]) (by simp [RootReads])

theorem readAlike_method : ReadAlike MethodReads :=
  readAlike_of_scalar (by simp [MethodReads]) (by simp [MethodReads])

theorem readAlike_member (ofText : JsString → Option α) : ReadAlike (MemberReads ofText) :=
  readAlike_of_scalar (by simp [MemberReads]) (by simp [MemberReads])

def Unique (Reads : JsValue → α → Prop) : Prop := ∀ value a b, Reads value a → Reads value b → a = b

theorem unique_text (check : JsString → Bool) : Unique (TextReads check) := by
  rintro _ a b ⟨rfl, -⟩ ⟨heq, -⟩
  exact JsValue.string.inj heq

theorem unique_integer (check : Int → Prop) : Unique (IntegerReads check) := by
  rintro value a b ⟨ha, -⟩ ⟨hb, -⟩
  exact Option.some.inj (ha.symm.trans hb)

theorem unique_host : Unique (HostReads domainToASCII) := by
  rintro _ a b ⟨source, rfl, -, -, ha, -⟩ ⟨source', heq, -, -, hb, -⟩
  cases heq
  rw [ha, hb]

theorem unique_method : Unique MethodReads := by
  rintro _ a b ⟨source, rfl, ha⟩ ⟨source', heq, hb⟩
  cases heq
  exact Option.some.inj (ha.symm.trans hb)

theorem unique_member (ofText : JsString → Option α) : Unique (MemberReads ofText) := by
  rintro _ a b ⟨source, rfl, ha⟩ ⟨source', heq, hb⟩
  cases heq
  exact Option.some.inj (ha.symm.trans hb)

theorem forall₂_entry {item item' : JsValue}
    {before after : List JsValue} (h : ∀ a, Reads item a ↔ Reads item' a) {read : List α} :
    List.Forall₂ Reads (before ++ item :: after) read ↔
      List.Forall₂ Reads (before ++ item' :: after) read := by
  rw [forall₂_append_cons, forall₂_append_cons]
  simp only [h]

theorem readAlike_listOf {compare : α → α → Ordering}
    [Std.TransCmp compare] [Std.LawfulEqCmp compare] (halike : ReadAlike Reads)
    (hunique : Unique Reads) : ReadAlike (ListOf Reads compare) := by
  apply readAlike_of_array
  · rintro fields entries ⟨_, _, ⟨⟩, _⟩
  · rintro items items' _ hperm ⟨_, read, ⟨⟩, hread, rfl⟩
    obtain ⟨read', hread', hperm'⟩ := perm_comp_forall₂ hperm.symm hread
    exact ⟨items', read', rfl, hread', sortedUnique_congr fun a => hperm'.mem_iff⟩
  · intro item items entries hmem _
    constructor
    · rintro ⟨_, read, ⟨⟩, hread, rfl⟩
      obtain ⟨a, ha, hreads⟩ := forall₂_exists_right hread hmem
      refine ⟨item :: items, a :: read, rfl, .cons hreads hread, sortedUnique_congr fun b => ?_⟩
      rw [mem_cons, or_iff_right_of_imp]
      rintro rfl
      exact ha
    · rintro ⟨_, read, ⟨⟩, hread, rfl⟩
      cases hread with
      | @cons _ a _ read hreads hread =>
        -- what the repetition is read as is read in the list already
        obtain ⟨a', ha', hreads'⟩ := forall₂_exists_right hread hmem
        rw [hunique item a' a hreads' hreads] at ha'
        refine ⟨items, read, rfl, hread, sortedUnique_congr fun b => ?_⟩
        rw [mem_cons, or_iff_right_of_imp]
        rintro rfl
        exact ha'
  · rintro item item' before after _ hitem ⟨_, read, ⟨⟩, hread, rfl⟩
    exact ⟨_, read, rfl, (forall₂_entry (halike _ _ hitem)).mp hread, rfl⟩

/-- A list of entries with keys is read alike in any order; its entries are objects, so none of
them comes again. -/
theorem readAlike_keyedOf {α κ : Type} {Reads : JsValue → α → Prop} {key : α → κ}
    {compare : κ → κ → Ordering} [Std.TransCmp compare] [Std.LawfulEqCmp compare]
    (halike : ReadAlike Reads) (hobject : ∀ value a, Reads value a → value.isObject = true) :
    ReadAlike (KeyedOf Reads key compare) := by
  apply readAlike_of_array
  · rintro fields entries ⟨_, _, ⟨⟩, _⟩
  · rintro items items' _ hperm ⟨_, read, ⟨⟩, hread, hnodup, rfl⟩
    obtain ⟨read', hread', hperm'⟩ := perm_comp_forall₂ hperm.symm hread
    have hnodup' := (hperm'.map key).nodup_iff.mpr hnodup
    refine ⟨items', read', rfl, hread', hnodup', ?_⟩
    have := transCmp_comap compare key
    -- no two entries have one key, so the sort has no ties to keep in order
    apply insertionSort_eq_of_perm hperm'
    intro a ha b hb heq
    exact inj_on_of_nodup_map hnodup' ha hb (Std.LawfulEqCmp.eq_of_compare heq)
  · intro item items entries hmem hitem
    have hnone : ∀ a, ¬Reads item a := fun a ha => by
      rw [hobject item a ha] at hitem
      cases hitem
    apply iff_of_false
    · rintro ⟨_, read, ⟨⟩, hread, -⟩
      obtain ⟨a, -, hreads⟩ := forall₂_exists_right hread hmem
      exact hnone a hreads
    · rintro ⟨_, read, ⟨⟩, hread, -⟩
      obtain ⟨a, -, hreads⟩ := forall₂_exists_right hread mem_cons_self
      exact hnone a hreads
  · rintro item item' before after _ hitem ⟨_, read, ⟨⟩, hread, hrest⟩
    exact ⟨_, read, rfl, (forall₂_entry (halike _ _ hitem)).mp hread, hrest⟩

def ObjectOf (Reads : Fields → α → Prop) (value : JsValue) (a : α) : Prop :=
  ∃ fields, value = .object fields ∧ Reads fields a

theorem readAlike_objectOf {Reads : Fields → α → Prop}
    (halike : ∀ fields fields', FieldsRelated Rearranged fields fields' →
      ∀ a, Reads fields a ↔ Reads fields' a) : ReadAlike (ObjectOf Reads) := by
  have harray : ∀ items a, ¬ObjectOf Reads (.array items) a := by
    rintro items a ⟨_, ⟨⟩, -⟩
  intro value value' h
  induction h with
  | refl => exact fun a => Iff.rfl
  | symm _ ih => exact fun a => (ih a).symm
  | trans _ _ ih ih' => exact fun a => (ih a).trans (ih' a)
  | order | again | entry => exact fun a => iff_of_false (harray _ a) (harray _ a)
  | property before after name h ih =>
    intro a
    have hfields := halike _ _ (fieldsRelated_property before after name h) a
    constructor
    · rintro ⟨_, ⟨⟩, hreads⟩
      exact ⟨_, rfl, hfields.mp hreads⟩
    · rintro ⟨_, ⟨⟩, hreads⟩
      exact ⟨_, rfl, hfields.mpr hreads⟩

/-! ## Permissions -/

theorem FieldsRelated.hasKeys_iff {fields' : Fields}
    (h : FieldsRelated Rearranged fields fields') (keys : List String) :
    HasKeys fields keys ↔ HasKeys fields' keys := by
  rw [HasKeys, HasKeys, h.sortFields.names]

theorem FieldsRelated.get {fields fields' : Fields} (h : FieldsRelated Rearranged fields fields')
    (name : String) : Rearranged (get fields name) (get fields' name) := by
  induction h with
  | nil => exact .refl _
  | @cons field field' fields fields' hfield h ih =>
    obtain ⟨key, value⟩ := field
    obtain ⟨key', value'⟩ := field'
    obtain ⟨hkey, hvalue⟩ := hfield
    cases hkey
    rw [JsValue.get, JsValue.get, lookup_cons, lookup_cons]
    cases js name == key with
    | true => exact hvalue
    | false => exact ih

theorem readAlike_capability : ReadAlike CapabilityReads := by
  apply readAlike_objectOf
  intro fields fields' h entry
  rw [h.hasKeys_iff, readAlike_text _ _ _ (h.get "name"),
    readAlike_listOf (readAlike_text _) (unique_text _) _ _ (h.get "methods")]

theorem readAlike_filesystemRoot : ReadAlike FilesystemRootReads := by
  apply readAlike_objectOf
  intro fields fields' h root
  rw [h.hasKeys_iff, readAlike_root _ _ (h.get "path"),
    readAlike_listOf (readAlike_member _) (unique_member _) _ _ (h.get "access")]

theorem readAlike_resources : ReadAlike ResourcesRead := by
  apply readAlike_objectOf
  intro fields fields' h ceilings
  rw [h.hasKeys_iff, readAlike_integer _ _ _ (h.get "cpuMillis"),
    readAlike_integer _ _ _ (h.get "memoryBytes"), readAlike_integer _ _ _ (h.get "storageBytes")]

theorem readAlike_labels : ReadAlike LabelsRead := by
  apply readAlike_objectOf
  intro source source' h labels
  have hsorted := h.sortFields
  generalize sortFields source = sorted at hsorted ⊢
  generalize sortFields source' = sorted' at hsorted ⊢
  induction hsorted generalizing labels with
  | nil => exact Iff.rfl
  | cons hfield _ ih =>
    rw [forall₂_cons_left_iff, forall₂_cons_left_iff]
    simp only [ih, LabelReads, hfield.1, readAlike_text _ _ _ hfield.2]

theorem readAlike_permission : ReadAlike (PermissionReads domainToASCII) := by
  apply readAlike_objectOf
  intro fields fields' h p
  have hkind : get fields "kind" = .string p.kindText ↔ get fields' "kind" = .string p.kindText := by
    have htext := readAlike_text (fun _ => true) _ _ (h.get "kind") p.kindText
    simpa [TextReads] using htext
  rw [hkind]
  apply and_congr_right
  intro _
  cases p with
  | capability capabilities =>
    exact and_congr (h.hasKeys_iff _) (readAlike_keyedOf readAlike_capability
      (by rintro _ a ⟨fields, rfl, -⟩; rfl) _ _ (h.get "capabilities") _)
  | environment names =>
    exact and_congr (h.hasKeys_iff _)
      (readAlike_listOf (readAlike_text _) (unique_text _) _ _ (h.get "names") _)
  | executor executors =>
    exact and_congr (h.hasKeys_iff _)
      (readAlike_listOf (readAlike_member _) (unique_member _) _ _ (h.get "executors") _)
  | filesystem roots =>
    exact and_congr (h.hasKeys_iff _) (readAlike_keyedOf readAlike_filesystemRoot
      (by rintro _ a ⟨fields, rfl, -⟩; rfl) _ _ (h.get "roots") _)
  | network hosts methods ports =>
    exact and_congr (h.hasKeys_iff _) (and_congr
      (readAlike_listOf (readAlike_host _) (unique_host _) _ _ (h.get "hosts") _) (and_congr
      (readAlike_listOf (readAlike_integer _) (unique_integer _) _ _ (h.get "ports") _)
      (readAlike_listOf readAlike_method unique_method _ _ (h.get "methods") _)))
  | secret names =>
    exact and_congr (h.hasKeys_iff _)
      (readAlike_listOf (readAlike_text _) (unique_text _) _ _ (h.get "names") _)
  | worker labels resources =>
    exact and_congr (h.hasKeys_iff _) (and_congr (readAlike_labels _ _ (h.get "labels") _)
      (readAlike_resources _ _ (h.get "resources") _))

theorem readAlike_set : ReadAlike (SetReads domainToASCII) :=
  readAlike_keyedOf (readAlike_permission domainToASCII) (by rintro _ a ⟨fields, rfl, -⟩; rfl)

theorem canonicalizePermissionSet_rearranged {domainToASCII : JsString → JsString}
    {input input' : JsValue} (h : Rearranged input input') {permissions : List Permission} :
    canonicalizePermissionSet domainToASCII input = .ok permissions ↔
      canonicalizePermissionSet domainToASCII input' = .ok permissions := by
  have hforward : ∀ {v v' : JsValue}, Rearranged v v' →
      canonicalizePermissionSet domainToASCII v = .ok permissions →
        canonicalizePermissionSet domainToASCII v' = .ok permissions := by
    intro v v' h hv
    obtain ⟨stable, halike, hreads⟩ := canonicalizePermissionSet_eq_ok.mp hv
    obtain ⟨stable', halike', hrel⟩ := h.cloned.1 stable (clone_eq_ok.mp halike)
    exact canonicalizePermissionSet_eq_ok.mpr
      ⟨stable', halike' _, (readAlike_set domainToASCII stable stable' hrel permissions).mp hreads⟩
  exact ⟨hforward h, hforward h.symm⟩

/-! ## Entries that come twice -/

/-- Somewhere in the value a list has one object twice. -/
inductive RepeatsEntry : JsValue → Prop where
  | here (fields : Fields) (before between after : List JsValue) :
      RepeatsEntry (.array (before ++ .object fields :: between ++ .object fields :: after))
  | entry {item : JsValue} {items : List JsValue} (hmem : item ∈ items) (h : RepeatsEntry item) :
      RepeatsEntry (.array items)
  | property {name : JsString} {value : JsValue} {fields : Fields} (hmem : (name, value) ∈ fields)
      (h : RepeatsEntry value) : RepeatsEntry (.object fields)

theorem RepeatsEntry.cloned {copy : JsValue} (h : RepeatsEntry value)
    (hcopy : Cloned value copy) : RepeatsEntry copy := by
  induction h generalizing copy with
  | here fields before between after =>
    obtain ⟨copies, rfl, hcopies⟩ := cloned_array.mp hcopy
    rw [append_assoc, cons_append] at hcopies
    obtain ⟨first, copy, rest, -, hfirst, hrest, rfl⟩ := forall₂_append_cons.mp hcopies
    obtain ⟨middle, copy', last, -, hsecond, -, rfl⟩ := forall₂_append_cons.mp hrest
    rw [hsecond.unique hfirst]
    obtain ⟨copies, rfl, -⟩ := cloned_object.mp hfirst
    have hhere := RepeatsEntry.here (sortFields copies) first middle last
    rwa [append_assoc, cons_append] at hhere
  | entry hmem _ ih =>
    obtain ⟨copies, rfl, hcopies⟩ := cloned_array.mp hcopy
    obtain ⟨itemCopy, hmemCopy, hitemCopy⟩ := forall₂_exists_right hcopies hmem
    exact .entry hmemCopy (ih hitemCopy)
  | property hmem _ ih =>
    obtain ⟨copies, rfl, hcopies⟩ := cloned_object.mp hcopy
    obtain ⟨⟨key, fieldCopy⟩, hmemCopy, -, hfieldCopy⟩ := forall₂_exists_right hcopies hmem
    exact .property ((mem_insertionSort _).mpr hmemCopy) (ih hfieldCopy)

/-- Nothing that is read has one object twice in a list. -/
def NoneTwice (Reads : JsValue → α → Prop) : Prop := ∀ value a, Reads value a → ¬RepeatsEntry value

/-- What is read is a text or a number. -/
def Scalar (Reads : JsValue → α → Prop) : Prop :=
  ∀ value a, Reads value a → value.isObject = false ∧ ¬RepeatsEntry value

theorem scalar_of_string
    (h : ∀ value a, Reads value a → ∃ s, value = .string s) : Scalar Reads := by
  intro value a ha
  obtain ⟨s, rfl⟩ := h value a ha
  exact ⟨rfl, by rintro ⟨⟩⟩

theorem scalar_text (check : JsString → Bool) : Scalar (TextReads check) :=
  scalar_of_string fun _ s h => ⟨s, h.1⟩

theorem scalar_integer (check : Int → Prop) : Scalar (IntegerReads check) := by
  rintro value n ⟨hvalue, -⟩
  cases value with
  | number q => exact ⟨rfl, by rintro ⟨⟩⟩
  | _ => cases hvalue

theorem noneTwice_listOf {compare : α → α → Ordering}
    (hscalar : Scalar Reads) : NoneTwice (ListOf Reads compare) := by
  rintro _ _ ⟨items, read, rfl, hread, -⟩ hrepeats
  cases hrepeats with
  | here fields before between after =>
    obtain ⟨a, -, ha⟩ := forall₂_exists_right (a := .object fields) hread (by simp)
    cases (hscalar _ a ha).1
  | entry hmem h =>
    obtain ⟨a, -, ha⟩ := forall₂_exists_right hread hmem
    exact (hscalar _ a ha).2 h

theorem noneTwice_keyedOf {α κ : Type} {Reads : JsValue → α → Prop} {key : α → κ}
    {compare : κ → κ → Ordering} (hnone : NoneTwice Reads)
    (hkey : ∀ item a b, Reads item a → Reads item b → key a = key b) :
    NoneTwice (KeyedOf Reads key compare) := by
  rintro _ _ ⟨items, read, rfl, hread, hnodup, -⟩ hrepeats
  cases hrepeats with
  | here fields before between after =>
    -- one object has one key, and here it is read twice
    rw [append_assoc, cons_append] at hread
    obtain ⟨first, a, rest, -, ha, hrest, rfl⟩ := forall₂_append_cons.mp hread
    obtain ⟨middle, b, last, -, hb, -, rfl⟩ := forall₂_append_cons.mp hrest
    rw [map_append, map_cons, nodup_append] at hnodup
    apply (nodup_cons.mp hnodup.2.1).1
    rw [hkey _ a b ha hb]
    simp
  | entry hmem h =>
    obtain ⟨a, -, ha⟩ := forall₂_exists_right hread hmem
    exact hnone _ a ha h

theorem exists_get_of_hasKeys {keys : List String} (h : HasKeys fields keys)
    (hnodup : (keys.map js).Nodup) {name : JsString}
    (hmem : (name, value) ∈ fields) : ∃ key ∈ keys, get fields key = value := by
  have hperm : (fields.map (·.1)).Perm (keys.map js) := by
    rw [← h]
    exact ((perm_sortFields fields).map (·.1)).symm
  obtain ⟨key, hkey, rfl⟩ := mem_map.mp (hperm.mem_iff.mp (mem_map_of_mem (f := (·.1)) hmem))
  refine ⟨key, hkey, ?_⟩
  rw [JsValue.get, lookup_of_nodup (hperm.nodup_iff.mpr hnodup) hmem]
  rfl

theorem not_repeatsEntry_object {keys : List String} (h : HasKeys fields keys)
    (hnodup : (keys.map js).Nodup) (hget : keys.Forall fun key => ¬RepeatsEntry (get fields key)) :
    ¬RepeatsEntry (.object fields) := by
  rintro (_ | _ | ⟨hmem, hrepeats⟩)
  obtain ⟨key, hkey, hvalue⟩ := exists_get_of_hasKeys h hnodup hmem
  rw [← hvalue] at hrepeats
  exact forall_iff_forall_mem.mp hget key hkey hrepeats

theorem noneTwice_capability : NoneTwice CapabilityReads := by
  rintro _ entry ⟨fields, rfl, hkeys, hname, hmethods⟩
  apply not_repeatsEntry_object hkeys (by decide)
  exact ⟨noneTwice_listOf (scalar_text _) _ _ hmethods, (scalar_text _ _ _ hname).2⟩

theorem noneTwice_filesystemRoot : NoneTwice FilesystemRootReads := by
  rintro _ root ⟨fields, rfl, hkeys, hpath, haccess⟩
  apply not_repeatsEntry_object hkeys (by decide)
  refine ⟨noneTwice_listOf (scalar_of_string ?_) _ _ haccess, (scalar_of_string ?_ _ _ hpath).2⟩
  · exact fun _ _ ⟨source, h, _⟩ => ⟨source, h⟩
  · exact fun _ _ ⟨source, _, h, _⟩ => ⟨source, h⟩

theorem noneTwice_resources : NoneTwice ResourcesRead := by
  rintro _ ceilings ⟨fields, rfl, hkeys, hcpu, hmemory, hstorage⟩
  apply not_repeatsEntry_object hkeys (by decide)
  exact ⟨(scalar_integer _ _ _ hcpu).2, (scalar_integer _ _ _ hmemory).2,
    (scalar_integer _ _ _ hstorage).2⟩

theorem noneTwice_labels : NoneTwice LabelsRead := by
  rintro _ labels ⟨source, rfl, hlabels⟩ (_ | _ | ⟨hmem, hrepeats⟩)
  obtain ⟨label, -, -, -, htext⟩ := forall₂_exists_right hlabels ((mem_insertionSort _).mpr hmem)
  exact (scalar_text _ _ _ htext).2 hrepeats

theorem noneTwice_permission : NoneTwice (PermissionReads domainToASCII) := by
  rintro _ p ⟨fields, rfl, hkind, hbody⟩
  have hkindClean : ¬RepeatsEntry (get fields "kind") := by
    rw [hkind]
    rintro ⟨⟩
  cases p with
  | capability capabilities =>
    apply not_repeatsEntry_object hbody.1 (by decide)
    refine ⟨noneTwice_keyedOf noneTwice_capability ?_ _ _ hbody.2, hkindClean⟩
    rintro _ a b ⟨_, rfl, -, ha, -⟩ ⟨_, heq, -, hb, -⟩
    cases heq
    exact unique_text _ _ _ _ ha hb
  | environment names =>
    apply not_repeatsEntry_object hbody.1 (by decide)
    exact ⟨hkindClean, noneTwice_listOf (scalar_text _) _ _ hbody.2⟩
  | executor executors =>
    apply not_repeatsEntry_object hbody.1 (by decide)
    exact ⟨noneTwice_listOf (scalar_of_string fun _ _ ⟨source, h, _⟩ => ⟨source, h⟩) _ _ hbody.2,
      hkindClean⟩
  | filesystem roots =>
    apply not_repeatsEntry_object hbody.1 (by decide)
    refine ⟨hkindClean, noneTwice_keyedOf noneTwice_filesystemRoot ?_ _ _ hbody.2⟩
    rintro _ a b ⟨_, rfl, -, ⟨source, _, ha, -, -, ha'⟩, -⟩ ⟨_, heq, -, ⟨source', _, hb, -, -, hb'⟩, -⟩
    cases heq
    cases ha.symm.trans hb
    rw [ha', hb']
  | network hosts methods ports =>
    apply not_repeatsEntry_object hbody.1 (by decide)
    exact ⟨noneTwice_listOf (scalar_of_string fun _ _ ⟨source, h, _⟩ => ⟨source, h⟩) _ _ hbody.2.1,
      hkindClean,
      noneTwice_listOf (scalar_of_string fun _ _ ⟨source, h, _⟩ => ⟨source, h⟩) _ _ hbody.2.2.2,
      noneTwice_listOf (scalar_integer _) _ _ hbody.2.2.1⟩
  | secret names =>
    apply not_repeatsEntry_object hbody.1 (by decide)
    exact ⟨hkindClean, noneTwice_listOf (scalar_text _) _ _ hbody.2⟩
  | worker labels resources =>
    apply not_repeatsEntry_object hbody.1 (by decide)
    exact ⟨hkindClean, noneTwice_labels _ _ hbody.2.1, noneTwice_resources _ _ hbody.2.2⟩

theorem canonicalizePermissionSet_repeatsEntry {domainToASCII : JsString → JsString}
    {input : JsValue} (h : RepeatsEntry input) (permissions : List Permission) :
    canonicalizePermissionSet domainToASCII input ≠ .ok permissions := by
  intro haccepted
  obtain ⟨stable, halike, hreads⟩ := canonicalizePermissionSet_eq_ok.mp haccepted
  apply noneTwice_keyedOf (noneTwice_permission domainToASCII) ?_ stable permissions hreads
    (h.cloned (clone_eq_ok.mp halike))
  rintro _ a b ⟨_, rfl, ha, -⟩ ⟨_, heq, hb, -⟩
  cases heq
  exact JsValue.string.inj (ha.symm.trans hb)

/-! ## Canonical sets -/

/-- **Canonical forms.** A canonical set is its own; rearranged sets have one or none; and no set
has one in which an object comes twice in a list. -/
theorem canonicalizePermissionSet_canonical
    (hidempotent : ∀ s, domainToASCII (domainToASCII s) = domainToASCII s)
    (hlower : ∀ s, lowerAscii (domainToASCII s) = domainToASCII s) :
    (∀ input permissions, canonicalizePermissionSet domainToASCII input = .ok permissions →
      canonicalizePermissionSet domainToASCII (permissionsValue permissions) = .ok permissions) ∧
    (∀ input input', Rearranged input input' → ∀ permissions,
      canonicalizePermissionSet domainToASCII input = .ok permissions ↔
        canonicalizePermissionSet domainToASCII input' = .ok permissions) ∧
    ∀ input, RepeatsEntry input → ∀ permissions,
      canonicalizePermissionSet domainToASCII input ≠ .ok permissions :=
  ⟨fun _ _ h => canonicalizePermissionSet_permissionsValue hidempotent hlower h,
    fun _ _ h _ => canonicalizePermissionSet_rearranged h,
    fun _ h permissions => canonicalizePermissionSet_repeatsEntry h permissions⟩

def hostPermission (hosts : List String) : JsValue :=
  .object [field "kind" (text "network"), field "hosts" (.array (hosts.map text)),
    field "methods" (.array [text "get"]), field "ports" (.array [integer 443])]

theorem lowerAscii_lowerAscii (s : JsString) : lowerAscii (lowerAscii s) = lowerAscii s := by
  rw [lowerAscii, lowerAscii, map_map]
  apply map_congr_left
  intro u _
  simp only [Function.comp, Bool.and_eq_true, decide_eq_true_eq]
  by_cases h : 65 ≤ u ∧ u ≤ 90
  · rw [if_pos h, if_neg]
    rintro ⟨-, hle⟩
    have hlow := UInt16.le_iff_toNat_le.mp h.1
    have hhigh := UInt16.le_iff_toNat_le.mp h.2
    have hsum := UInt16.le_iff_toNat_le.mp hle
    rw [UInt16.toNat_add] at hsum
    simp at hlow hhigh hsum
    omega
  · rw [if_neg h, if_neg h]

/-- Two hosts in the other order, one of them twice. -/
theorem canonicalizePermissionSet_canonical_hosts :
    (∃ permissions,
      canonicalizePermissionSet lowerAscii (.array [hostPermission ["b.org", "A.org"]]) =
        .ok permissions ∧
      canonicalizePermissionSet lowerAscii (.array [hostPermission ["A.org", "A.org", "b.org"]]) =
        .ok permissions ∧
      canonicalizePermissionSet lowerAscii (permissionsValue permissions) = .ok permissions) ∧
    ∀ permissions, canonicalizePermissionSet lowerAscii
      (.array [hostPermission ["b.org"], hostPermission ["b.org"]]) ≠ .ok permissions := by
  obtain ⟨hidempotent, hrearranged, hrepeats⟩ :=
    canonicalizePermissionSet_canonical lowerAscii lowerAscii_lowerAscii lowerAscii_lowerAscii
  constructor
  · cases haccepted : canonicalizePermissionSet lowerAscii
      (.array [hostPermission ["b.org", "A.org"]]) with
    | error e =>
      have hok : (canonicalizePermissionSet lowerAscii
        (.array [hostPermission ["b.org", "A.org"]])).isOk = true := by decide +kernel
      rw [haccepted] at hok
      cases hok
    | ok permissions =>
      refine ⟨permissions, rfl, ?_, hidempotent _ _ haccepted⟩
      apply (hrearranged _ _ ?_ permissions).mp haccepted
      apply Rearranged.entry [] []
      apply Rearranged.property [field "kind" (text "network")] _ (js "hosts")
      exact (Rearranged.order (List.Perm.swap _ _ [])).trans
        (.again mem_cons_self rfl)
  · intro permissions
    exact hrepeats _ (.here _ [] [] []) permissions

/-- A permission that comes twice is rejected, though once it is accepted. -/
theorem canonicalizePermissionSet_twice :
    (canonicalizePermissionSet lowerAscii (.array [hostPermission ["b.org"]])).isOk = true ∧
      (canonicalizePermissionSet lowerAscii
        (.array [hostPermission ["b.org"], hostPermission ["b.org"]])).isOk = false := by
  constructor <;> decide +kernel

end TegoNext
