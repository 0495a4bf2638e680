/-
Grants form a preorder.

A grant is checked category by category, and in each category by containment, which is reflexive
and transitive by itself. That the whole is reflexive takes more: the check looks an entry up by
its key and takes the first that has it, so an entry finds itself only because no key comes twice
in a canonical set.
-/
import TegoNext.BoundaryClone
import TegoNext.PermissionGate

set_option autoImplicit false

namespace TegoNext

open Text JsValue List

/-! ## Keys of a canonical set -/

variable {α : Type} {value : JsValue}

theorem KeyedOf.nodup {κ : Type} {Reads : JsValue → α → Prop} {key : α → κ}
    {compare : κ → κ → Ordering} {entries : List α}
    (h : KeyedOf Reads key compare value entries) : (entries.map key).Nodup := by
  obtain ⟨items, read, -, -, hnodup, rfl⟩ := h
  exact ((perm_insertionSort _ read).map key).nodup_iff.mpr hnodup

theorem KeyedOf.exists_read {κ : Type} {Reads : JsValue → α → Prop} {key : α → κ}
    {compare : κ → κ → Ordering} {entries : List α}
    (h : KeyedOf Reads key compare value entries) {a : α} (ha : a ∈ entries) :
    ∃ items, value = .array items ∧ ∃ item ∈ items, Reads item a := by
  obtain ⟨items, read, hvalue, hread, -, rfl⟩ := h
  exact ⟨items, hvalue, forall₂_exists_left hread ((mem_insertionSort _).mp ha)⟩

theorem lookup_of_nodup {fields : List (JsString × α)}
    (hnodup : (fields.map (·.1)).Nodup) {field : JsString × α} (h : field ∈ fields) :
    fields.lookup field.1 = some field.2 := by
  induction fields with
  | nil => cases h
  | cons other fields ih =>
    rw [map_cons, nodup_cons] at hnodup
    rw [lookup_cons]
    rcases mem_cons.mp h with rfl | h
    · simp
    · have hne : field.1 ≠ other.1 := fun heq =>
        hnodup.1 (heq ▸ mem_map_of_mem h)
      rw [beq_false_of_ne hne]
      exact ih hnodup.2 h

def Permission.DistinctKeys : Permission → Prop
  | .capability capabilities => (capabilities.map (·.name)).Nodup
  | .worker labels _ => (labels.map (·.1)).Nodup
  | _ => True

theorem labels_names {source : Fields} {labels : List (JsString × JsString)}
    (h : List.Forall₂ LabelReads source labels) : source.map (·.1) = labels.map (·.1) := by
  induction h with
  | nil => rfl
  | cons hlabel h ih => rw [map_cons, map_cons, hlabel.1, ih]

theorem distinctNames_get {fields : Fields} (h : DistinctNames (.object fields)) (name : String) :
    DistinctNames (get fields name) := by
  cases h with
  | object _ hfields =>
    rw [JsValue.get]
    cases hlookup : fields.lookup (js name) with
    | none => exact .foreign _
    | some value => exact hfields (js name, value) (mem_of_lookup hlookup)

variable {domainToASCII : JsString → JsString}

theorem PermissionReads.distinctKeys
    {p : Permission} (h : PermissionReads domainToASCII value p) (hvalue : DistinctNames value) :
    p.DistinctKeys := by
  obtain ⟨fields, rfl, -, hbody⟩ := h
  cases p with
  | capability capabilities => exact hbody.2.nodup
  | worker labels resources =>
    obtain ⟨-, ⟨source, hsource, hlabels⟩, -⟩ := hbody
    have hdistinct := distinctNames_get hvalue "labels"
    rw [hsource] at hdistinct
    cases hdistinct with
    | object hnames _ =>
      rw [Permission.DistinctKeys, ← labels_names hlabels]
      exact nodup_sortFields hnames
  | environment | executor | filesystem | network | secret => trivial

theorem distinctKeys_of_canonicalizePermissionSet
    {input : JsValue} {permissions : List Permission} (hinput : DistinctNames input)
    (h : canonicalizePermissionSet domainToASCII input = .ok permissions) :
    (permissions.map Permission.kind).Nodup ∧ ∀ p ∈ permissions, p.DistinctKeys := by
  obtain ⟨stable, hclone, hset⟩ := canonicalizePermissionSet_eq_ok.mp h
  have hstable := hinput.cloned (clone_eq_ok.mp hclone)
  constructor
  · have hkinds := hset.nodup
    rw [show Permission.kindText = (fun kind => js (PermissionKind.text kind)) ∘ Permission.kind
      from rfl, ← map_map] at hkinds
    exact hkinds.of_map _
  · intro p hp
    obtain ⟨items, rfl, item, hitem, hreads⟩ := hset.exists_read hp
    cases hstable with
    | array hitems => exact hreads.distinctKeys (hitems item hitem)

/-! ## Containment, category by category -/

theorem containsAll_refl [BEq α] [LawfulBEq α] (values : List α) :
    containsAll values values = true :=
  all_eq_true.mpr fun _ h => contains_iff_mem.mpr h

theorem containsAll_trans [BEq α] [LawfulBEq α] {requested middle granted : List α}
    (h₁ : containsAll requested middle = true) (h₂ : containsAll middle granted = true) :
    containsAll requested granted = true :=
  all_eq_true.mpr fun a ha => contains_of_containsAll h₁ (all_eq_true.mp h₂ a ha)

theorem containsLogicalPath_refl (root : LogicalPath) : containsLogicalPath root root = true := by
  simp [containsLogicalPath]

theorem categorySubset_refl {p : Permission} (h : p.DistinctKeys) : categorySubset p p = true := by
  cases p with
  | capability capabilities =>
    apply all_eq_true.mpr
    intro entry hentry
    rw [find?_of_nodup _ h hentry]
    exact containsAll_refl entry.methods
  | environment names => exact containsAll_refl names
  | executor executors => exact containsAll_refl executors
  | filesystem roots =>
    apply all_eq_true.mpr
    intro root hroot
    apply any_eq_true.mpr
    refine ⟨root, hroot, ?_⟩
    rw [containsLogicalPath_refl, containsAll_refl, Bool.and_true]
  | network hosts methods ports =>
    rw [categorySubset, containsAll_refl, containsAll_refl, containsAll_refl]
    rfl
  | secret names => exact containsAll_refl names
  | worker labels resources =>
    have hlabels : (labels.all fun label => labels.lookup label.1 == some label.2) = true := by
      apply all_eq_true.mpr
      intro label hlabel
      rw [lookup_of_nodup h hlabel, beq_self_eq_true]
    simp [categorySubset, hlabels]

theorem categorySubset_trans {requested middle granted : Permission}
    (h₁ : categorySubset requested middle = true) (h₂ : categorySubset middle granted = true) :
    categorySubset requested granted = true := by
  cases requested <;> cases middle <;> cases granted <;>
    first
    | cases h₁
    | cases h₂
    | skip
  case capability.capability.capability requested middle granted =>
      apply all_eq_true.mpr
      intro entry hentry
      have hmiddle := all_eq_true.mp h₂ entry hentry
      split at hmiddle
      · next found hfind =>
        have hname : found.name = entry.name := by simpa using find?_some hfind
        have hrequested := all_eq_true.mp h₁ found (mem_of_find?_eq_some hfind)
        rw [hname] at hrequested
        split at hrequested
        · exact containsAll_trans hrequested hmiddle
        · cases hrequested
      · cases hmiddle
  case environment.environment.environment => exact containsAll_trans h₁ h₂
  case executor.executor.executor => exact containsAll_trans h₁ h₂
  case filesystem.filesystem.filesystem requested middle granted =>
      apply all_eq_true.mpr
      intro root hroot
      obtain ⟨between, hbetween, hcontains⟩ := any_eq_true.mp (all_eq_true.mp h₂ root hroot)
      obtain ⟨maximum, hmaximum, hcontains'⟩ := any_eq_true.mp (all_eq_true.mp h₁ between hbetween)
      rw [Bool.and_eq_true] at hcontains hcontains'
      apply any_eq_true.mpr
      refine ⟨maximum, hmaximum, ?_⟩
      rw [Bool.and_eq_true]
      exact ⟨containsLogicalPath_trans hcontains'.1 hcontains.1,
        containsAll_trans hcontains'.2 hcontains.2⟩
  case network.network.network =>
      simp only [categorySubset, Bool.and_eq_true] at h₁ h₂ ⊢
      exact ⟨⟨containsAll_trans h₁.1.1 h₂.1.1, containsAll_trans h₁.1.2 h₂.1.2⟩,
        containsAll_trans h₁.2 h₂.2⟩
  case secret.secret.secret => exact containsAll_trans h₁ h₂
  case worker.worker.worker =>
      simp only [categorySubset, Bool.and_eq_true, decide_eq_true_eq] at h₁ h₂ ⊢
      obtain ⟨⟨⟨hlabels, hcpu⟩, hmemory⟩, hstorage⟩ := h₁
      obtain ⟨⟨⟨hlabels', hcpu'⟩, hmemory'⟩, hstorage'⟩ := h₂
      exact ⟨⟨⟨labels_trans hlabels hlabels', hcpu'.trans hcpu⟩, hmemory'.trans hmemory⟩,
        hstorage'.trans hstorage⟩

/-! ## Sets -/

theorem exceeding_eq_none {requested granted : List Permission} :
    exceeding requested granted = none ↔
      ∀ p ∈ granted, ∃ maximum,
        (requested.find? fun candidate => candidate.kind == p.kind) = some maximum ∧
          categorySubset maximum p = true := by
  rw [exceeding, find?_eq_none]
  apply forall_congr'
  intro p
  apply imp_congr_right
  intro _
  cases requested.find? fun candidate => candidate.kind == p.kind <;> simp

theorem exceeding_refl {permissions : List Permission}
    (hkinds : (permissions.map Permission.kind).Nodup)
    (hkeys : ∀ p ∈ permissions, p.DistinctKeys) : exceeding permissions permissions = none := by
  apply exceeding_eq_none.mpr
  intro p hp
  exact ⟨p, find?_of_nodup _ hkinds hp, categorySubset_refl (hkeys p hp)⟩

theorem exceeding_trans {requested middle granted : List Permission}
    (h₁ : exceeding requested middle = none) (h₂ : exceeding middle granted = none) :
    exceeding requested granted = none := by
  rw [exceeding_eq_none] at h₁ h₂ ⊢
  intro p hp
  obtain ⟨between, hfind, hsubset⟩ := h₂ p hp
  obtain ⟨maximum, hmaximum, hsubset'⟩ := h₁ between (mem_of_find?_eq_some hfind)
  have hkind : between.kind = p.kind := by simpa using find?_some hfind
  rw [hkind] at hmaximum
  exact ⟨maximum, hmaximum, categorySubset_trans hsubset' hsubset⟩

theorem validatePermissionGrant_of_exceeding
    {requested granted : JsValue} {requested' granted' : List Permission}
    (hr : canonicalizePermissionSet domainToASCII requested = .ok requested')
    (hg : canonicalizePermissionSet domainToASCII granted = .ok granted')
    (h : exceeding requested' granted' = none) :
    (validatePermissionGrant domainToASCII requested granted).allowed = true := by
  simp [validatePermissionGrant, hr, hg, bind, Except.bind, pure, Except.pure, h]

/-- **Grants form a preorder.** Every accepted set may be granted to itself, and a grant of a
grant is a grant. -/
theorem validatePermissionGrant_preorder (domainToASCII : JsString → JsString) :
    (∀ set, DistinctNames set → (canonicalizePermissionSet domainToASCII set).isOk = true →
      (validatePermissionGrant domainToASCII set set).allowed = true) ∧
    ∀ first second third,
      (validatePermissionGrant domainToASCII first second).allowed = true →
      (validatePermissionGrant domainToASCII second third).allowed = true →
        (validatePermissionGrant domainToASCII first third).allowed = true := by
  constructor
  · intro set hnames haccepted
    cases hset : canonicalizePermissionSet domainToASCII set with
    | error e => simp [hset, Except.isOk, Except.toBool] at haccepted
    | ok permissions =>
      obtain ⟨hkinds, hkeys⟩ := distinctKeys_of_canonicalizePermissionSet hnames hset
      exact validatePermissionGrant_of_exceeding hset hset (exceeding_refl hkinds hkeys)
  · intro first second third h₁ h₂
    obtain ⟨first', second', hfirst, hsecond, hexceeding⟩ := validatePermissionGrant_allowed h₁
    obtain ⟨second'', third', hsecond', hthird, hexceeding'⟩ := validatePermissionGrant_allowed h₂
    cases hsecond.symm.trans hsecond'
    exact validatePermissionGrant_of_exceeding hfirst hthird
      (exceeding_trans hexceeding hexceeding')

theorem distinctNames_rootEnvelope (path : String) (access : List String) :
    DistinctNames (rootEnvelope path access) := by
  have hscalars : ∀ item ∈ access.map text, DistinctNames item := by
    intro item hitem
    obtain ⟨s, -, rfl⟩ := mem_map.mp hitem
    exact .string _
  apply DistinctNames.array
  intro entry hentry
  rw [mem_singleton.mp hentry]
  refine DistinctNames.object ?_ ?_
  · exact (by decide : [js "kind", js "roots"].Nodup)
  · simp only [mem_cons, not_mem_nil, or_false, field, text]
    rintro _ (rfl | rfl)
    · exact .string _
    · apply DistinctNames.array
      intro root hroot
      rw [mem_singleton.mp hroot]
      refine DistinctNames.object ?_ ?_
      · exact (by decide : [js "path", js "access"].Nodup)
      · simp only [mem_cons, not_mem_nil, or_false]
        rintro _ (rfl | rfl)
        · exact .string _
        · exact .array hscalars

/-- Everything below the root, some of it, and a part of that. -/
theorem validatePermissionGrant_preorder_roots :
    (validatePermissionGrant id (rootEnvelope "/data" ["write", "read"])
        (rootEnvelope "/data" ["write", "read"])).allowed = true ∧
      (validatePermissionGrant id (rootEnvelope "/" ["read", "write"])
        (rootEnvelope "/data/in" ["read"])).allowed = true :=
  ⟨(validatePermissionGrant_preorder id).1 _ (distinctNames_rootEnvelope _ _)
      (by decide +kernel),
    (validatePermissionGrant_preorder id).2 (rootEnvelope "/" ["read", "write"])
      (rootEnvelope "/data" ["write", "read"]) (rootEnvelope "/data/in" ["read"])
      (by decide +kernel) (by decide +kernel)⟩

end TegoNext
