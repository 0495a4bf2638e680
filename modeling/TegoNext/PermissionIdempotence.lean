/-
Canonicalising a canonical permission set.

The canonical set is a value again: `Permission.toJs` writes it as the parser returns it. Read
once more, it gives itself; every relation of the reading has this property, which is what
`Settles` says. About the platform's domain conversion two facts are used: that it changes nothing
it has converted, and that its results are in lower case.
-/
import TegoNext.PermissionOrder

set_option autoImplicit false

namespace TegoNext

open Text JsValue List

/-! ## Canonical sets as values -/

def CapabilityEntry.toJs (entry : CapabilityEntry) : JsValue :=
  .object [field "name" (.string entry.name), field "methods" (.array (entry.methods.map .string))]

def FilesystemRoot.toJs (root : FilesystemRoot) : JsValue :=
  .object [field "path" (.string root.path.text),
    field "access" (.array (root.access.map fun access => text access.text))]

def integer (n : Int) : JsValue := .number n

def ResourceCeilings.toJs (ceilings : ResourceCeilings) : JsValue :=
  .object [field "cpuMillis" (integer ceilings.cpuMillis),
    field "memoryBytes" (integer ceilings.memoryBytes),
    field "storageBytes" (integer ceilings.storageBytes)]

def labelsObject (labels : List (JsString × JsString)) : JsValue :=
  .object (labels.map fun label => (label.1, .string label.2))

def Permission.toJs : Permission → JsValue
  | .capability capabilities =>
    .object [field "kind" (text "capability"),
      field "capabilities" (.array (capabilities.map CapabilityEntry.toJs))]
  | .environment names =>
    .object [field "kind" (text "environment"), field "names" (.array (names.map .string))]
  | .executor executors =>
    .object [field "kind" (text "executor"),
      field "executors" (.array (executors.map fun executor => text executor.text))]
  | .filesystem roots =>
    .object [field "kind" (text "filesystem"),
      field "roots" (.array (roots.map FilesystemRoot.toJs))]
  | .network hosts methods ports =>
    .object [field "kind" (text "network"), field "hosts" (.array (hosts.map .string)),
      field "methods" (.array (methods.map fun method => text method.text)),
      field "ports" (.array (ports.map integer))]
  | .secret names =>
    .object [field "kind" (text "secret"), field "names" (.array (names.map .string))]
  | .worker labels resources =>
    .object [field "kind" (text "worker"), field "labels" (labelsObject labels),
      field "resources" resources.toJs]

def permissionsValue (permissions : List Permission) : JsValue :=
  .array (permissions.map Permission.toJs)

/-! ## Readings that settle -/

/-- What was read once can be written and is read as the same again. -/
def Settles {α : Type} (Reads : JsValue → α → Prop) (toValue : α → JsValue) : Prop :=
  ∀ value a, Reads value a → ∃ copy, Cloned (toValue a) copy ∧ Reads copy a

theorem cloned_string (s : JsString) : Cloned (.string s) (.string s) := fun _ => by rw [clone]

theorem cloned_number (q : Rat) : Cloned (.number q) (.number q) := fun _ => by rw [clone]

theorem settles_text (check : JsString → Bool) : Settles (TextReads check) .string := by
  rintro _ s ⟨-, hcheck⟩
  exact ⟨.string s, cloned_string s, rfl, hcheck⟩

theorem settles_integer (check : Int → Prop) : Settles (IntegerReads check) integer := by
  rintro value n ⟨hvalue, hcheck⟩
  refine ⟨.number n, cloned_number n, ?_, hcheck⟩
  cases value with
  | number q =>
    rw [safeInteger] at hvalue
    split at hvalue
    · next hsafe =>
      have hn : q.num = n := Option.some.inj hvalue
      rw [hn] at hsafe
      simp [safeInteger, hsafe.2]
    · cases hvalue
  | _ => cases hvalue

variable {α : Type}

theorem settles_member {ofText : JsString → Option α} {text : α → String}
    (hmember : ∀ a, ofText (js (text a)) = some a) :
    Settles (MemberReads ofText) fun a => .string (js (text a)) := by
  rintro _ a -
  exact ⟨_, cloned_string _, js (text a), rfl, hmember a⟩

theorem settles_method : Settles MethodReads fun method => text method.text := by
  rintro _ method -
  refine ⟨_, cloned_string _, js method.text, rfl, ?_⟩
  cases method <;> decide

/-! ### Roots and hosts -/

theorem getLast?_intercalate {u : UInt16} {parts : List JsString}
    (hparts : ∀ part ∈ parts, part ≠ []) (hne : parts ≠ []) :
    ∃ part ∈ parts, ([u].intercalate parts).getLast? = part.getLast? := by
  induction parts with
  | nil => exact absurd rfl hne
  | cons part parts ih =>
    cases parts with
    | nil => exact ⟨part, mem_cons_self, by rw [intercalate_singleton]⟩
    | cons next rest =>
      obtain ⟨last, hlast, heq⟩ := ih (fun p hp => hparts p (mem_cons_of_mem _ hp)) (by simp)
      refine ⟨last, mem_cons_of_mem _ hlast, ?_⟩
      have hsome : last.getLast? ≠ none := by
        simpa using hparts last (mem_cons_of_mem _ hlast)
      rw [intercalate_cons_cons, getLast?_append, heq]
      cases hl : last.getLast? with
      | none => exact absurd hl hsome
      | some v => rfl

theorem mem_intercalate {u v : UInt16} {parts : List JsString} (h : v ∈ [u].intercalate parts) :
    v = u ∨ ∃ part ∈ parts, v ∈ part := by
  induction parts with
  | nil => cases h
  | cons part parts ih =>
    cases parts with
    | nil =>
      rw [intercalate_singleton] at h
      exact .inr ⟨part, mem_cons_self, h⟩
    | cons next rest =>
      rw [intercalate_cons_cons, append_assoc, mem_append, singleton_append, mem_cons] at h
      rcases h with h | h | h
      · exact .inr ⟨part, mem_cons_self, h⟩
      · exact .inl h
      · rcases ih h with h | ⟨p, hp, hv⟩
        · exact .inl h
        · exact .inr ⟨p, mem_cons_of_mem _ hp, hv⟩

theorem getLast?_ne_of_splitOn {u : UInt16} {s : JsString}
    (hparts : ∀ part ∈ s.splitOn u, part ≠ [] ∧ part.getLast? ≠ some u) :
    s.getLast? ≠ some u := by
  obtain ⟨part, hpart, heq⟩ := getLast?_intercalate (u := u) (fun p hp => (hparts p hp).1)
    (splitOn_ne_nil u s)
  rw [intercalate_splitOn] at heq
  rw [heq]
  exact (hparts part hpart).2

theorem not_mem_of_isPathSegment {segment : JsString} (h : isPathSegment segment = true) :
    segment ≠ [] ∧ slash ∉ segment := by
  simp only [isPathSegment, Bool.and_eq_true, all_eq_true, Bool.not_eq_true',
    isEmpty_eq_false_iff] at h
  refine ⟨h.1.1.1, fun hmem => ?_⟩
  exact absurd (h.2 slash hmem) (by decide)

theorem trimmed_eq_self {root : LogicalPath}
    (h : ((root.text.splitOn slash).drop 1).all isPathSegment = true ∨ root.text = js "/") :
    root.trimmed = root := by
  rw [LogicalPath.trimmed]
  apply dif_neg
  rintro ⟨hlength, hlast⟩
  rcases h with hsegments | hroot
  · obtain ⟨source, habsolute⟩ := root
    cases source with
    | nil => cases habsolute
    | cons first rest =>
      cases Option.some.inj habsolute
      have hsplit : (slash :: rest).splitOn slash = [] :: rest.splitOn slash := by
        rw [List.splitOn, splitOnP_cons_eq_if_modifyHead, if_pos (by simp)]
        rfl
      rw [hsplit, drop_one, tail_cons, all_eq_true] at hsegments
      have hrest : rest.getLast? ≠ some slash := by
        apply getLast?_ne_of_splitOn
        intro segment hsegment
        obtain ⟨hne, hmem⟩ := not_mem_of_isPathSegment (hsegments segment hsegment)
        exact ⟨hne, fun heq => hmem (mem_of_getLast? heq)⟩
      cases rest with
      | nil => simp at hlength
      | cons second rest => exact hrest (by simpa using hlast)
  · rw [hroot] at hlength
    exact absurd hlength (by decide)

theorem settles_root : Settles RootReads fun root => .string root.text := by
  rintro _ root ⟨source, habsolute, -, htext, hsegments, rfl⟩
  have htrimmed := @trimmed_eq_self ⟨source, habsolute⟩ hsegments
  rw [htrimmed]
  exact ⟨_, cloned_string _, source, habsolute, rfl, htext, hsegments, htrimmed.symm⟩

theorem isHostName_spec {host : JsString} (h : isHostName host = true) :
    (host.contains 42 || host.contains 0 || host.isEmpty) = false ∧ host.getLast? ≠ some 46 := by
  rw [isHostName, Bool.not_eq_true', Bool.or_eq_false_iff, Bool.or_eq_false_iff,
    Bool.not_eq_false', all_eq_true] at h
  obtain ⟨⟨hempty, -⟩, hlabels⟩ := h
  have hmem : ∀ u ∈ host, u ≠ 42 ∧ u ≠ 0 := by
    intro u hu
    rw [← @List.intercalate_splitOn _ host _ _ 46] at hu
    rcases mem_intercalate hu with rfl | ⟨label, hlabel, hu⟩
    · decide
    · have hlabel' := hlabels label hlabel
      simp only [isHostLabel, Bool.and_eq_true, all_eq_true] at hlabel'
      have hunit := hlabel'.1.1.2 u hu
      constructor
      · rintro rfl
        exact absurd hunit (by decide)
      · rintro rfl
        exact absurd hunit (by decide)
  constructor
  · rw [hempty, Bool.or_false, Bool.or_eq_false_iff]
    constructor
    · rw [← Bool.not_eq_true, contains_iff_mem]
      exact fun h42 => (hmem 42 h42).1 rfl
    · rw [← Bool.not_eq_true, contains_iff_mem]
      exact fun h0 => (hmem 0 h0).2 rfl
  · apply getLast?_ne_of_splitOn
    intro label hlabel
    have hlabel' := hlabels label hlabel
    simp only [isHostLabel, Bool.and_eq_true, decide_eq_true_eq] at hlabel'
    refine ⟨fun hnil => ?_, fun hlast => ?_⟩
    · rw [hnil] at hlabel'
      exact absurd hlabel'.1.1.1.1 (by decide)
    · have hlower := hlabel'.2
      rw [hlast] at hlower
      exact absurd hlower (by decide)

theorem settles_host {domainToASCII : JsString → JsString}
    (hidempotent : ∀ s, domainToASCII (domainToASCII s) = domainToASCII s)
    (hlower : ∀ s, lowerAscii (domainToASCII s) = domainToASCII s) :
    Settles (HostReads domainToASCII) .string := by
  rintro _ host ⟨source, -, -, -, hhost, hname⟩
  obtain ⟨hexact, hdot⟩ := isHostName_spec hname
  have hwithout : withoutTrailing 46 host = host := by rw [withoutTrailing, if_neg hdot]
  refine ⟨_, cloned_string host, host, rfl, hexact, ?_, ?_, hname⟩
  · rw [hwithout]
    rintro (hlast | hempty)
    · exact hdot hlast
    · rw [hempty, Bool.or_true] at hexact
      cases hexact
  · rw [hwithout, hhost, hlower, hidempotent, hlower]

/-! ### Lists -/

theorem forall₂_settles {Reads : JsValue → α → Prop} {toValue : α → JsValue}
    (hsettles : Settles Reads toValue) {entries : List α}
    (hread : ∀ a ∈ entries, ∃ item, Reads item a) :
    ∃ copies, Cloned (.array (entries.map toValue)) (.array copies) ∧
      List.Forall₂ Reads copies entries := by
  have hcopies : ∃ copies, List.Forall₂ Cloned (entries.map toValue) copies ∧
      List.Forall₂ Reads copies entries := by
    induction entries with
    | nil => exact ⟨[], .nil, .nil⟩
    | cons a entries ih =>
      obtain ⟨item, hitem⟩ := hread a mem_cons_self
      obtain ⟨copy, hcopy, hreads⟩ := hsettles item a hitem
      obtain ⟨copies, hcopies, hrest⟩ := ih fun b hb => hread b (mem_cons_of_mem _ hb)
      exact ⟨copy :: copies, .cons hcopy hcopies, .cons hreads hrest⟩
  obtain ⟨copies, hcopies, hreads⟩ := hcopies
  exact ⟨copies, cloned_array.mpr ⟨copies, rfl, hcopies⟩, hreads⟩

theorem settles_listOf {Reads : JsValue → α → Prop} {toValue : α → JsValue}
    {compare : α → α → Ordering} [Std.TransCmp compare] [Std.LawfulEqCmp compare]
    (hsettles : Settles Reads toValue) :
    Settles (ListOf Reads compare) fun entries => .array (entries.map toValue) := by
  rintro _ _ ⟨items, read, rfl, hread, rfl⟩
  have hentries : ∀ a ∈ sortedUnique compare read, ∃ item, Reads item a := by
    intro a ha
    obtain ⟨item, -, hitem⟩ := forall₂_exists_left hread (mem_sortedUnique.mp ha)
    exact ⟨item, hitem⟩
  obtain ⟨copies, hcopies, hreads⟩ := forall₂_settles hsettles hentries
  have hsorted : StrictlySorted compare (sortedUnique compare read) :=
    sortedUnique_strictlySorted read
  exact ⟨_, hcopies, copies, _, rfl, hreads, hsorted.sortedUnique_eq⟩

theorem settles_keyedOf {κ : Type} {Reads : JsValue → α → Prop} {toValue : α → JsValue}
    {key : α → κ} {compare : κ → κ → Ordering} [Std.TransCmp compare]
    (hsettles : Settles Reads toValue) :
    Settles (KeyedOf Reads key compare) fun entries => .array (entries.map toValue) := by
  rintro value entries h
  have hentries : ∀ a ∈ entries, ∃ item, Reads item a := by
    intro a ha
    obtain ⟨items, -, item, -, hitem⟩ := h.exists_read ha
    exact ⟨item, hitem⟩
  obtain ⟨copies, hcopies, hreads⟩ := forall₂_settles hsettles hentries
  refine ⟨_, hcopies, copies, entries, rfl, hreads, h.nodup, ?_⟩
  -- the entries were sorted when they were read
  obtain ⟨items, read, -, -, -, rfl⟩ := h
  have := transCmp_comap compare key
  exact List.Pairwise.insertionSort_eq
    (pairwise_insertionSort (fun left right => compare (key left) (key right) ≠ .gt) read)

/-! ### Objects -/

theorem cloned_fields {fields : Fields} (copies : Fields) (h : FieldsRelated Cloned fields copies) :
    Cloned (.object fields) (.object (sortFields copies)) :=
  cloned_object.mpr ⟨copies, rfl, h⟩

theorem cloned_kind (kind : String) : Cloned (text kind) (text kind) := cloned_string _

theorem settles_capability : Settles CapabilityReads CapabilityEntry.toJs := by
  rintro _ entry ⟨fields, rfl, -, hname, hmethods⟩
  obtain ⟨name, hname', hnameReads⟩ := settles_text isPortableName _ _ hname
  obtain ⟨methods, hmethods', hmethodsRead⟩ :=
    settles_listOf (settles_text isPortableName) _ _ hmethods
  refine ⟨_, cloned_fields [field "name" name, field "methods" methods]
    (.cons ⟨rfl, hname'⟩ (.cons ⟨rfl, hmethods'⟩ .nil)), ?_⟩
  exact ⟨_, rfl, rfl, hnameReads, hmethodsRead⟩

instance {α : Type} (text : α → String) : Std.TransCmp (compareBy text) :=
  transCmp_comap compareText fun a => js (text a)

theorem lawfulEqCmp_compareBy {text : α → String} {ofText : JsString → Option α}
    (h : ∀ a, ofText (js (text a)) = some a) : Std.LawfulEqCmp (compareBy text) where
  compare_self := compareText_self _
  eq_of_compare heq := by
    have htext := congrArg ofText (eq_of_compareText heq)
    rw [h, h] at htext
    exact Option.some.inj htext

theorem FilesystemAccess.ofText_text (access : FilesystemAccess) :
    ofText (js access.text) = some access := by
  cases access <;> decide

theorem ExecutorKind.ofText_text (kind : ExecutorKind) : ofText (js kind.text) = some kind := by
  cases kind <;> decide

theorem HttpMethod.ofText_text (method : HttpMethod) : ofText (js method.text) = some method := by
  cases method <;> decide

instance : Std.LawfulEqCmp (compareBy FilesystemAccess.text) :=
  lawfulEqCmp_compareBy FilesystemAccess.ofText_text

instance : Std.LawfulEqCmp (compareBy ExecutorKind.text) :=
  lawfulEqCmp_compareBy ExecutorKind.ofText_text

instance : Std.LawfulEqCmp (compareBy HttpMethod.text) :=
  lawfulEqCmp_compareBy HttpMethod.ofText_text

instance : Std.TransCmp compareRoots := transCmp_comap compareText LogicalPath.text

instance : Std.LawfulEqCmp compareRoots where
  compare_self := compareText_self _
  eq_of_compare {left right} heq := by
    obtain ⟨left, hleft⟩ := left
    obtain ⟨right, hright⟩ := right
    rw [LogicalPath.mk.injEq]
    exact eq_of_compareText heq

theorem settles_filesystemRoot : Settles FilesystemRootReads FilesystemRoot.toJs := by
  rintro _ root ⟨fields, rfl, -, hpath, haccess⟩
  obtain ⟨path, hpath', hpathReads⟩ := settles_root _ _ hpath
  obtain ⟨access, haccess', haccessRead⟩ :=
    settles_listOf (settles_member FilesystemAccess.ofText_text) _ _ haccess
  refine ⟨_, cloned_fields [field "path" path, field "access" access]
    (.cons ⟨rfl, hpath'⟩ (.cons ⟨rfl, haccess'⟩ .nil)), ?_⟩
  exact ⟨_, rfl, rfl, hpathReads, haccessRead⟩

theorem settles_resources : Settles ResourcesRead ResourceCeilings.toJs := by
  rintro _ ceilings ⟨fields, rfl, -, hcpu, hmemory, hstorage⟩
  obtain ⟨cpu, hcpu', hcpuReads⟩ := settles_integer (0 ≤ ·) _ _ hcpu
  obtain ⟨memory, hmemory', hmemoryReads⟩ := settles_integer (0 ≤ ·) _ _ hmemory
  obtain ⟨storage, hstorage', hstorageReads⟩ := settles_integer (0 ≤ ·) _ _ hstorage
  refine ⟨_, cloned_fields
    [field "cpuMillis" cpu, field "memoryBytes" memory, field "storageBytes" storage]
    (.cons ⟨rfl, hcpu'⟩ (.cons ⟨rfl, hmemory'⟩ (.cons ⟨rfl, hstorage'⟩ .nil))), ?_⟩
  exact ⟨_, rfl, rfl, hcpuReads, hmemoryReads, hstorageReads⟩

theorem settles_labels : Settles LabelsRead labelsObject := by
  rintro value labels ⟨source, -, hlabels⟩
  have hcopies : FieldsRelated Cloned (labels.map fun label => (label.1, .string label.2))
      (labels.map fun label => (label.1, .string label.2)) := by
    apply forall₂_same.mpr
    intro field hfield
    obtain ⟨label, -, rfl⟩ := mem_map.mp hfield
    exact ⟨rfl, cloned_string _⟩
  have hsorted : sortFields (labels.map fun label => (label.1, JsValue.string label.2)) =
      labels.map fun label => (label.1, .string label.2) := by
    have := transCmp_comap compareText (Prod.fst : JsString × JsValue → JsString)
    have hnames : ((sortFields source).map (·.1)).Pairwise fun a b => compareText a b ≠ .gt :=
      pairwise_map.mpr (pairwise_insertionSort _ source)
    rw [labels_names hlabels] at hnames
    apply List.Pairwise.insertionSort_eq
    rw [pairwise_map]
    exact pairwise_map.mp hnames
  have hreads : List.Forall₂ LabelReads
      (labels.map fun label => (label.1, .string label.2)) labels := by
    rw [forall₂_map_left_iff, forall₂_same]
    intro label hlabel
    obtain ⟨field, -, -, hname, -, hcheck⟩ := forall₂_exists_left hlabels hlabel
    exact ⟨rfl, hname, rfl, hcheck⟩
  refine ⟨_, cloned_fields _ hcopies, _, rfl, ?_⟩
  rw [hsorted, hsorted]
  exact hreads

/-! ### Permissions -/

section Permissions

variable {domainToASCII : JsString → JsString}

theorem settles_permission (hidempotent : ∀ s, domainToASCII (domainToASCII s) = domainToASCII s)
    (hlower : ∀ s, lowerAscii (domainToASCII s) = domainToASCII s) :
    Settles (PermissionReads domainToASCII) Permission.toJs := by
  rintro _ p ⟨fields, rfl, -, hbody⟩
  cases p with
  | capability capabilities =>
    obtain ⟨copy, hcopy, hreads⟩ := settles_keyedOf settles_capability _ _ hbody.2
    exact ⟨_, cloned_fields [field "kind" (text "capability"),
      field "capabilities" copy] (.cons ⟨rfl, cloned_kind _⟩ (.cons ⟨rfl, hcopy⟩ .nil)),
      _, rfl, rfl, rfl, hreads⟩
  | environment names =>
    obtain ⟨copy, hcopy, hreads⟩ := settles_listOf (settles_text isEnvironmentName) _ _ hbody.2
    exact ⟨_, cloned_fields [field "kind" (text "environment"), field "names" copy]
      (.cons ⟨rfl, cloned_kind _⟩ (.cons ⟨rfl, hcopy⟩ .nil)), _, rfl, rfl, rfl, hreads⟩
  | executor executors =>
    obtain ⟨copy, hcopy, hreads⟩ :=
      settles_listOf (settles_member ExecutorKind.ofText_text) _ _ hbody.2
    exact ⟨_, cloned_fields [field "kind" (text "executor"), field "executors" copy]
      (.cons ⟨rfl, cloned_kind _⟩ (.cons ⟨rfl, hcopy⟩ .nil)), _, rfl, rfl, rfl, hreads⟩
  | filesystem roots =>
    obtain ⟨copy, hcopy, hreads⟩ := settles_keyedOf settles_filesystemRoot _ _ hbody.2
    exact ⟨_, cloned_fields [field "kind" (text "filesystem"), field "roots" copy]
      (.cons ⟨rfl, cloned_kind _⟩ (.cons ⟨rfl, hcopy⟩ .nil)), _, rfl, rfl, rfl, hreads⟩
  | network hosts methods ports =>
    obtain ⟨hostCopy, hhostCopy, hhosts⟩ :=
      settles_listOf (settles_host hidempotent hlower) _ _ hbody.2.1
    obtain ⟨portCopy, hportCopy, hports⟩ := settles_listOf (settles_integer isPort) _ _ hbody.2.2.1
    obtain ⟨methodCopy, hmethodCopy, hmethods⟩ := settles_listOf settles_method _ _ hbody.2.2.2
    exact ⟨_, cloned_fields [field "kind" (text "network"), field "hosts" hostCopy,
        field "methods" methodCopy, field "ports" portCopy]
      (.cons ⟨rfl, cloned_kind _⟩ (.cons ⟨rfl, hhostCopy⟩ (.cons ⟨rfl, hmethodCopy⟩
        (.cons ⟨rfl, hportCopy⟩ .nil)))), _, rfl, rfl, rfl, hhosts, hports, hmethods⟩
  | secret names =>
    obtain ⟨copy, hcopy, hreads⟩ := settles_listOf (settles_text isPortableName) _ _ hbody.2
    exact ⟨_, cloned_fields [field "kind" (text "secret"), field "names" copy]
      (.cons ⟨rfl, cloned_kind _⟩ (.cons ⟨rfl, hcopy⟩ .nil)), _, rfl, rfl, rfl, hreads⟩
  | worker labels resources =>
    obtain ⟨labelCopy, hlabelCopy, hlabels⟩ := settles_labels _ _ hbody.2.1
    obtain ⟨resourceCopy, hresourceCopy, hresources⟩ := settles_resources _ _ hbody.2.2
    exact ⟨_, cloned_fields [field "kind" (text "worker"), field "labels" labelCopy,
        field "resources" resourceCopy]
      (.cons ⟨rfl, cloned_kind _⟩ (.cons ⟨rfl, hlabelCopy⟩ (.cons ⟨rfl, hresourceCopy⟩ .nil))),
      _, rfl, rfl, rfl, hlabels, hresources⟩

theorem canonicalizePermissionSet_permissionsValue
    (hidempotent : ∀ s, domainToASCII (domainToASCII s) = domainToASCII s)
    (hlower : ∀ s, lowerAscii (domainToASCII s) = domainToASCII s) {input : JsValue}
    {permissions : List Permission}
    (h : canonicalizePermissionSet domainToASCII input = .ok permissions) :
    canonicalizePermissionSet domainToASCII (permissionsValue permissions) = .ok permissions := by
  obtain ⟨stable, -, hset⟩ := canonicalizePermissionSet_eq_ok.mp h
  obtain ⟨copy, hcopy, hreads⟩ := settles_keyedOf (settles_permission hidempotent hlower) _ _ hset
  exact canonicalizePermissionSet_eq_ok.mpr ⟨copy, hcopy _, hreads⟩

end Permissions

end TegoNext
