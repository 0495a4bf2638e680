/-
What the permission parser accepts, said without paths, errors and the order of its checks.

Which values it accepts and what it makes of them can be told from the value alone: a list whose
entries are read one by one, a list of entries with a key none of which comes twice, an object with
exactly these fields.
-/
import TegoNext.SortedUnique
import TegoNext.StatePrograms
import TegoNext.PermissionSet

set_option autoImplicit false

namespace TegoNext

open Text JsValue List

/-! ## Values -/

variable {value : JsValue} {path : JsString}

theorem stringAt_eq_ok {s : JsString} : stringAt value path = .ok s ↔ value = .string s := by
  cases value <;> simp [stringAt]

variable {items : List JsValue}

theorem arrayAt_eq_ok : arrayAt value path = .ok items ↔ value = .array items := by
  cases value <;> simp [arrayAt]

variable {fields : Fields}

theorem objectAt_eq_ok : objectAt value path = .ok fields ↔ value = .object fields := by
  cases value <;> simp [objectAt]

/-- The object has these fields and no others. -/
def HasKeys (fields : Fields) (keys : List String) : Prop :=
  (sortFields fields).map (·.1) = keys.map js

theorem exactKeys_eq_ok {keys : List String} {u : Unit} :
    exactKeys fields keys path = .ok u ↔ HasKeys fields keys := by
  rw [exactKeys, HasKeys]
  split <;> simp_all

def TextReads (check : JsString → Bool) (value : JsValue) (s : JsString) : Prop :=
  value = .string s ∧ check s = true

theorem checkedText_eq_ok {check : JsString → Bool} {value : JsValue} {path s : JsString}
    {e : PermissionInputError} :
    (do
      let text ← stringAt value path
      if check text then pure text else throw e) = .ok s ↔ TextReads check value s := by
  simp only [TextReads, bind_eq_ok, stringAt_eq_ok]
  constructor
  · rintro ⟨text, rfl, h⟩
    split at h
    · next htext =>
      rw [pure_eq_ok] at h
      rw [← h]
      exact ⟨rfl, htext⟩
    · simp at h
  · rintro ⟨rfl, htext⟩
    exact ⟨s, rfl, by rw [if_pos htext, pure_eq_ok]⟩

theorem portableName_eq_ok {value : JsValue} {path s : JsString} :
    portableName value path = .ok s ↔ TextReads isPortableName value s := checkedText_eq_ok

theorem environmentName_eq_ok {value : JsValue} {path s : JsString} :
    environmentName value path = .ok s ↔ TextReads isEnvironmentName value s := checkedText_eq_ok

def isHostName (ascii : JsString) : Bool :=
  !(ascii.isEmpty || 253 < ascii.length || !(ascii.splitOn 46).all isHostLabel)

/-- A host, converted and in lower case. -/
def HostReads (domainToASCII : JsString → JsString) (value : JsValue) (host : JsString) : Prop :=
  ∃ source, value = .string source ∧
    (source.contains 42 || source.contains 0 || source.isEmpty) = false ∧
    ¬((withoutTrailing 46 source).getLast? = some 46 ∨ (withoutTrailing 46 source).isEmpty) ∧
    host = lowerAscii (domainToASCII (withoutTrailing 46 source)) ∧ isHostName host = true

variable {domainToASCII : JsString → JsString}

theorem canonicalHost_eq_ok
    {host : JsString} :
    canonicalHost domainToASCII value path = .ok host ↔ HostReads domainToASCII value host := by
  simp only [canonicalHost, HostReads, bind_eq_ok, stringAt_eq_ok, guard_bind_eq_ok, pure_eq_ok]
  constructor
  · rintro ⟨source, hvalue, hexact, hdot, hname, rfl⟩
    refine ⟨source, hvalue, Bool.eq_false_iff.mpr hexact, by simpa using hdot, rfl, ?_⟩
    rw [isHostName, Bool.eq_false_iff.mpr hname]
    rfl
  · rintro ⟨source, hvalue, hexact, hdot, rfl, hname⟩
    refine ⟨source, hvalue, Bool.eq_false_iff.mp hexact, by simpa using hdot, ?_, rfl⟩
    rw [isHostName, Bool.not_eq_true'] at hname
    exact Bool.eq_false_iff.mp hname

def isPathText (source : JsString) : Bool :=
  !(source.contains 92 || source.contains 0 ||
    source.tails.any (fun rest => startsWith rest (js "//")))

def RootReads (value : JsValue) (root : LogicalPath) : Prop :=
  ∃ (source : JsString) (h : source.head? = some slash), value = .string source ∧
    isPathText source = true ∧
    (((source.splitOn slash).drop 1).all isPathSegment = true ∨ source = js "/") ∧
    root = (LogicalPath.mk source h).trimmed

theorem canonicalRoot_eq_ok {root : LogicalPath} :
    canonicalRoot value path = .ok root ↔ RootReads value root := by
  simp only [canonicalRoot, RootReads, bind_eq_ok, stringAt_eq_ok]
  constructor
  · rintro ⟨source, hvalue, h⟩
    split at h
    · next habs =>
      simp only [guard_bind_eq_ok, pure_eq_ok] at h
      obtain ⟨htext, hsegments, rfl⟩ := h
      refine ⟨source, habs, hvalue, ?_, ?_, rfl⟩
      · rw [isPathText, Bool.eq_false_iff.mpr htext]
        rfl
      · by_cases hroot : source = js "/"
        · exact .inr hroot
        · exact .inl (by simpa [hroot] using hsegments)
    · simp at h
  · rintro ⟨source, habs, hvalue, htext, hsegments, rfl⟩
    refine ⟨source, hvalue, ?_⟩
    rw [isPathText, Bool.not_eq_true'] at htext
    rw [dif_pos habs]
    apply guard_bind_eq_ok.mpr
    refine ⟨Bool.eq_false_iff.mp htext, guard_bind_eq_ok.mpr ⟨?_, rfl⟩⟩
    rcases hsegments with hsegments | hroot
    · rw [hsegments]
      simp
    · simp [hroot]

def MethodReads (value : JsValue) (method : HttpMethod) : Prop :=
  ∃ source, value = .string source ∧ HttpMethod.ofText (source.flatMap upperUnit) = some method

def MemberReads {α : Type} (ofText : JsString → Option α) (value : JsValue) (member : α) : Prop :=
  ∃ source, value = .string source ∧ ofText source = some member

/-- An integer with a property. -/
def IntegerReads (check : Int → Prop) (value : JsValue) (n : Int) : Prop :=
  safeInteger value = some n ∧ check n

def isPort (port : Int) : Prop := 1 ≤ port ∧ port ≤ 65535

theorem canonicalPort_eq_ok {port : Int} :
    canonicalPort value path = .ok port ↔ IntegerReads isPort value port := by
  simp only [canonicalPort, IntegerReads, isPort]
  cases safeInteger value with
  | none => simp
  | some n =>
    split <;> grind

theorem resourceCeiling_eq_ok {n : Int} :
    resourceCeiling value path = .ok n ↔ IntegerReads (0 ≤ ·) value n := by
  simp only [resourceCeiling, IntegerReads]
  cases safeInteger value with
  | none => simp
  | some m =>
    split <;> grind

/-! ## Lists -/

/-- A list whose entries are read one by one, sorted and without repetitions. -/
def ListOf {α : Type} (Reads : JsValue → α → Prop) (compare : α → α → Ordering) (value : JsValue)
    (entries : List α) : Prop :=
  ∃ items read, value = .array items ∧ List.Forall₂ Reads items read ∧
    sortedUnique compare read = entries

def KeyedOf {α κ : Type} (Reads : JsValue → α → Prop) (key : α → κ)
    (compare : κ → κ → Ordering) (value : JsValue) (entries : List α) : Prop :=
  ∃ items read, value = .array items ∧ List.Forall₂ Reads items read ∧ (read.map key).Nodup ∧
    (read.insertionSort fun left right => compare (key left) (key right) ≠ .gt) = entries

variable {α : Type} {index : Nat}

theorem mapIndexed_eq_ok {β : Type} {f : Nat → α → Except PermissionInputError β}
    {Reads : α → β → Prop} (hf : ∀ index a b, f index a = .ok b ↔ Reads a b)
    {items : List α} {read : List β} :
    mapIndexed f index items = .ok read ↔ List.Forall₂ Reads items read := by
  induction items generalizing index read with
  | nil => simp [mapIndexed, eq_comm]
  | cons item items ih =>
    simp only [mapIndexed, bind_eq_ok, hf, ih, pure_eq_ok, forall₂_cons_left_iff]
    constructor
    · rintro ⟨b, hb, bs, hbs, rfl⟩
      exact ⟨b, bs, hb, hbs, rfl⟩
    · rintro ⟨b, bs, hb, hbs, rfl⟩
      exact ⟨b, hb, bs, hbs, rfl⟩

theorem listOf_eq_ok {f : Nat → JsValue → Except PermissionInputError α}
    {Reads : JsValue → α → Prop} {compare : α → α → Ordering}
    {entries : List α} (hf : ∀ index item a, f index item = .ok a ↔ Reads item a) :
    (do
      let items ← arrayAt value path
      let read ← mapIndexed f 0 items
      pure (sortedUnique compare read)) = .ok entries ↔ ListOf Reads compare value entries := by
  simp only [ListOf, bind_eq_ok, arrayAt_eq_ok, mapIndexed_eq_ok hf, pure_eq_ok, exists_and_left]

theorem canonicalNameList_eq_ok {parse : JsValue → JsString → Except PermissionInputError JsString}
    {Reads : JsValue → JsString → Prop} (hparse : ∀ v path s, parse v path = .ok s ↔ Reads v s)
    {names : List JsString} :
    canonicalNameList parse value path = .ok names ↔ ListOf Reads compareText value names :=
  listOf_eq_ok fun _ item s => hparse item _ s

theorem canonicalMembers_eq_ok {ofText : JsString → Option α} {text : α → String}
    {message : String} {members : List α} :
    canonicalMembers ofText text message value path = .ok members ↔
      ListOf (MemberReads ofText) (compareBy text) value members := by
  apply listOf_eq_ok
  intro index item member
  cases item with
  | string s =>
    cases hs : ofText s with
    | none => simp [MemberReads, hs]
    | some found => simp [MemberReads, hs]
  | _ => simp [MemberReads]

theorem canonicalMethods_eq_ok {methods : List HttpMethod} :
    canonicalMethods value path = .ok methods ↔
      ListOf MethodReads (compareBy HttpMethod.text) value methods := by
  apply listOf_eq_ok
  intro index item method
  simp only [bind_eq_ok, stringAt_eq_ok, MethodReads]
  apply exists_congr
  intro source
  apply and_congr_right
  intro _
  cases HttpMethod.ofText (source.flatMap upperUnit) <;> simp

/-- The entries from `index` on are read one by one, each with a key of its own. -/
theorem keyed_cons {κ : Type} {Reads : JsValue → α → Prop} {key : α → κ} {seen : List κ}
    {item : JsValue} {a : α} {read : List α} :
    (List.Forall₂ Reads (item :: items) (a :: read) ∧ ((a :: read).map key).Nodup ∧
        ∀ b ∈ a :: read, key b ∉ seen) ↔
      Reads item a ∧ key a ∉ seen ∧ List.Forall₂ Reads items read ∧ (read.map key).Nodup ∧
        ∀ b ∈ read, key b ∉ key a :: seen := by
  simp only [forall₂_cons, map_cons, nodup_cons, mem_map, mem_cons]
  constructor
  · rintro ⟨⟨ha, hread⟩, ⟨hne, hnodup⟩, hseen⟩
    refine ⟨ha, hseen a (.inl rfl), hread, hnodup, ?_⟩
    rintro b hb (heq | hmem)
    · exact hne ⟨b, hb, heq⟩
    · exact hseen b (.inr hb) hmem
  · rintro ⟨ha, hkey, hread, hnodup, hseen⟩
    refine ⟨⟨ha, hread⟩, ⟨?_, hnodup⟩, ?_⟩
    · rintro ⟨b, hb, heq⟩
      exact hseen b hb (.inl heq)
    · rintro b (rfl | hb)
      · exact hkey
      · exact fun hmem => hseen b hb (.inr hmem)

/-! ## Permissions -/

def CapabilityReads (value : JsValue) (entry : CapabilityEntry) : Prop :=
  ∃ fields, value = .object fields ∧ HasKeys fields ["methods", "name"] ∧
    TextReads isPortableName (get fields "name") entry.name ∧
    ListOf (TextReads isPortableName) compareText (get fields "methods") entry.methods

theorem capabilityEntries_eq_ok {seen : List JsString}
    {entries : List CapabilityEntry} :
    capabilityEntries path index seen items = .ok entries ↔
      List.Forall₂ CapabilityReads items entries ∧ (entries.map (·.name)).Nodup ∧
        ∀ entry ∈ entries, entry.name ∉ seen := by
  induction items generalizing index seen entries with
  | nil => cases entries <;> simp [capabilityEntries]
  | cons item items ih =>
    simp only [capabilityEntries, bind_eq_ok, objectAt_eq_ok, exactKeys_eq_ok,
      portableName_eq_ok, guard_bind_eq_ok, canonicalNameList_eq_ok
        (fun v path s => @portableName_eq_ok v path s), ih, pure_eq_ok]
    constructor
    · rintro ⟨fields, rfl, u, hkeys, name, hname, hseen, methods, hmethods, rest, hrest, rfl⟩
      apply keyed_cons.mpr
      exact ⟨⟨fields, rfl, hkeys, hname, hmethods⟩, by simpa using hseen, hrest⟩
    · intro h
      cases entries with
      | nil => cases h.1
      | cons entry rest =>
        obtain ⟨⟨fields, hitem, hkeys, hname, hmethods⟩, hseen, hrest⟩ := keyed_cons.mp h
        exact ⟨fields, hitem, (), hkeys, entry.name, hname, by simpa using hseen,
          entry.methods, hmethods, rest, hrest, rfl⟩

/-- An entry of a filesystem permission. -/
def FilesystemRootReads (value : JsValue) (root : FilesystemRoot) : Prop :=
  ∃ fields, value = .object fields ∧ HasKeys fields ["access", "path"] ∧
    RootReads (get fields "path") root.path ∧
    ListOf (MemberReads FilesystemAccess.ofText) (compareBy FilesystemAccess.text)
      (get fields "access") root.access

theorem filesystemRoots_eq_ok {seen : List LogicalPath}
    {roots : List FilesystemRoot} :
    filesystemRoots path index seen items = .ok roots ↔
      List.Forall₂ FilesystemRootReads items roots ∧ (roots.map (·.path)).Nodup ∧
        ∀ root ∈ roots, root.path ∉ seen := by
  induction items generalizing index seen roots with
  | nil => cases roots <;> simp [filesystemRoots]
  | cons item items ih =>
    simp only [filesystemRoots, bind_eq_ok, objectAt_eq_ok, exactKeys_eq_ok,
      canonicalRoot_eq_ok, guard_bind_eq_ok, canonicalMembers_eq_ok, ih, pure_eq_ok]
    constructor
    · rintro ⟨fields, rfl, u, hkeys, root, hroot, hseen, access, haccess, rest, hrest, rfl⟩
      apply keyed_cons.mpr
      exact ⟨⟨fields, rfl, hkeys, hroot, haccess⟩, by simpa using hseen, hrest⟩
    · intro h
      cases roots with
      | nil => cases h.1
      | cons entry rest =>
        obtain ⟨⟨fields, hitem, hkeys, hroot, haccess⟩, hseen, hrest⟩ := keyed_cons.mp h
        exact ⟨fields, hitem, (), hkeys, entry.path, hroot, by simpa using hseen,
          entry.access, haccess, rest, hrest, rfl⟩

def LabelReads (field : JsString × JsValue) (label : JsString × JsString) : Prop :=
  field.1 = label.1 ∧ isPortableName label.1 = true ∧ TextReads isPortableName field.2 label.2

theorem workerLabels_eq_ok
    {labels : List (JsString × JsString)} :
    workerLabels path fields = .ok labels ↔ List.Forall₂ LabelReads fields labels := by
  induction fields generalizing labels with
  | nil => simp [workerLabels, eq_comm]
  | cons field fields ih =>
    obtain ⟨name, value⟩ := field
    simp only [workerLabels, bind_eq_ok, portableName_eq_ok, ih, pure_eq_ok,
      forall₂_cons_left_iff, LabelReads]
    constructor
    · rintro ⟨key, ⟨hkey, hportable⟩, text, htext, rest, hrest, rfl⟩
      cases hkey
      exact ⟨(name, text), rest, ⟨rfl, hportable, htext⟩, hrest, rfl⟩
    · rintro ⟨⟨key, text⟩, rest, ⟨hkey, hportable, htext⟩, hrest, rfl⟩
      cases hkey
      exact ⟨key, ⟨rfl, hportable⟩, text, htext, rest, hrest, rfl⟩

/-- The ceilings of a worker permission. -/
def ResourcesRead (value : JsValue) (ceilings : ResourceCeilings) : Prop :=
  ∃ fields, value = .object fields ∧ HasKeys fields ["cpuMillis", "memoryBytes", "storageBytes"] ∧
    IntegerReads (0 ≤ ·) (get fields "cpuMillis") ceilings.cpuMillis ∧
    IntegerReads (0 ≤ ·) (get fields "memoryBytes") ceilings.memoryBytes ∧
    IntegerReads (0 ≤ ·) (get fields "storageBytes") ceilings.storageBytes

/-- The labels of a worker permission, in the order of their names. -/
def LabelsRead (value : JsValue) (labels : List (JsString × JsString)) : Prop :=
  ∃ source, value = .object source ∧ List.Forall₂ LabelReads (sortFields source) labels

/-- Roots are sorted by their texts. -/
def compareRoots (left right : LogicalPath) : Ordering := compareText left.text right.text

/-- The fields of a permission, its kind aside. -/
def BodyReads (domainToASCII : JsString → JsString) (fields : Fields) : Permission → Prop
  | .capability capabilities =>
    HasKeys fields ["capabilities", "kind"] ∧
      KeyedOf CapabilityReads CapabilityEntry.name compareText (get fields "capabilities")
        capabilities
  | .environment names =>
    HasKeys fields ["kind", "names"] ∧
      ListOf (TextReads isEnvironmentName) compareText (get fields "names") names
  | .executor executors =>
    HasKeys fields ["executors", "kind"] ∧
      ListOf (MemberReads ExecutorKind.ofText) (compareBy ExecutorKind.text)
        (get fields "executors") executors
  | .filesystem roots =>
    HasKeys fields ["kind", "roots"] ∧
      KeyedOf FilesystemRootReads FilesystemRoot.path compareRoots (get fields "roots") roots
  | .network hosts methods ports =>
    HasKeys fields ["hosts", "kind", "methods", "ports"] ∧
      ListOf (HostReads domainToASCII) compareText (get fields "hosts") hosts ∧
      ListOf (IntegerReads isPort) compare (get fields "ports") ports ∧
      ListOf MethodReads (compareBy HttpMethod.text) (get fields "methods") methods
  | .secret names =>
    HasKeys fields ["kind", "names"] ∧
      ListOf (TextReads isPortableName) compareText (get fields "names") names
  | .worker labels resources =>
    HasKeys fields ["kind", "labels", "resources"] ∧ LabelsRead (get fields "labels") labels ∧
      ResourcesRead (get fields "resources") resources

variable {p : Permission}

theorem canonicalCapability_eq_ok :
    canonicalCapability fields path = .ok p ↔
      p.kind = .capability ∧ BodyReads domainToASCII fields p := by
  simp only [canonicalCapability, bind_eq_ok, exactKeys_eq_ok, arrayAt_eq_ok,
    capabilityEntries_eq_ok, pure_eq_ok]
  constructor
  · rintro ⟨u, hkeys, items, hitems, read, ⟨hread, hnodup, -⟩, rfl⟩
    exact ⟨rfl, hkeys, items, read, hitems, hread, hnodup, rfl⟩
  · rintro ⟨hkind, hbody⟩
    cases p <;> cases hkind
    obtain ⟨hkeys, items, read, hitems, hread, hnodup, rfl⟩ := hbody
    exact ⟨(), hkeys, items, hitems, read, ⟨hread, hnodup, by simp⟩, rfl⟩

theorem canonicalEnvironment_eq_ok :
    canonicalEnvironment fields path = .ok p ↔
      p.kind = .environment ∧ BodyReads domainToASCII fields p := by
  simp only [canonicalEnvironment, bind_eq_ok, exactKeys_eq_ok, pure_eq_ok,
    canonicalNameList_eq_ok fun v path s => @environmentName_eq_ok v path s]
  constructor
  · rintro ⟨u, hkeys, names, hnames, rfl⟩
    exact ⟨rfl, hkeys, hnames⟩
  · rintro ⟨hkind, hbody⟩
    cases p <;> cases hkind
    exact ⟨(), hbody.1, _, hbody.2, rfl⟩

theorem canonicalSecret_eq_ok :
    canonicalSecret fields path = .ok p ↔ p.kind = .secret ∧ BodyReads domainToASCII fields p := by
  simp only [canonicalSecret, bind_eq_ok, exactKeys_eq_ok, pure_eq_ok,
    canonicalNameList_eq_ok fun v path s => @portableName_eq_ok v path s]
  constructor
  · rintro ⟨u, hkeys, names, hnames, rfl⟩
    exact ⟨rfl, hkeys, hnames⟩
  · rintro ⟨hkind, hbody⟩
    cases p <;> cases hkind
    exact ⟨(), hbody.1, _, hbody.2, rfl⟩

theorem canonicalExecutor_eq_ok :
    canonicalExecutor fields path = .ok p ↔
      p.kind = .executor ∧ BodyReads domainToASCII fields p := by
  simp only [canonicalExecutor, bind_eq_ok, exactKeys_eq_ok, canonicalMembers_eq_ok, pure_eq_ok]
  constructor
  · rintro ⟨u, hkeys, executors, hexecutors, rfl⟩
    exact ⟨rfl, hkeys, hexecutors⟩
  · rintro ⟨hkind, hbody⟩
    cases p <;> cases hkind
    exact ⟨(), hbody.1, _, hbody.2, rfl⟩

theorem canonicalFilesystem_eq_ok :
    canonicalFilesystem fields path = .ok p ↔
      p.kind = .filesystem ∧ BodyReads domainToASCII fields p := by
  simp only [canonicalFilesystem, bind_eq_ok, exactKeys_eq_ok, arrayAt_eq_ok,
    filesystemRoots_eq_ok, pure_eq_ok]
  constructor
  · rintro ⟨u, hkeys, items, hitems, read, ⟨hread, hnodup, -⟩, rfl⟩
    exact ⟨rfl, hkeys, items, read, hitems, hread, hnodup, rfl⟩
  · rintro ⟨hkind, hbody⟩
    cases p <;> cases hkind
    obtain ⟨hkeys, items, read, hitems, hread, hnodup, rfl⟩ := hbody
    exact ⟨(), hkeys, items, hitems, read, ⟨hread, hnodup, by simp⟩, rfl⟩

theorem canonicalNetwork_eq_ok :
    canonicalNetwork domainToASCII fields path = .ok p ↔
      p.kind = .network ∧ BodyReads domainToASCII fields p := by
  have hhost : ∀ (index : Nat) (item : JsValue) (host : JsString),
      canonicalHost domainToASCII item (child (at' path "hosts") (indexText index)) = .ok host ↔
        HostReads domainToASCII item host := fun _ _ _ => canonicalHost_eq_ok
  have hport : ∀ (index : Nat) (item : JsValue) (port : Int),
      canonicalPort item (child (at' path "ports") (indexText index)) = .ok port ↔
        IntegerReads isPort item port := fun _ _ _ => canonicalPort_eq_ok
  simp only [canonicalNetwork, bind_eq_ok, exactKeys_eq_ok, arrayAt_eq_ok,
    mapIndexed_eq_ok hhost, mapIndexed_eq_ok hport, canonicalMethods_eq_ok, pure_eq_ok]
  constructor
  · rintro ⟨u, hkeys, hostItems, hhosts, hosts, hhostsRead, portItems, hports, ports, hportsRead,
      methods, hmethods, rfl⟩
    exact ⟨rfl, hkeys, ⟨hostItems, hosts, hhosts, hhostsRead, rfl⟩,
      ⟨portItems, ports, hports, hportsRead, rfl⟩, hmethods⟩
  · rintro ⟨hkind, hbody⟩
    cases p <;> cases hkind
    obtain ⟨hkeys, ⟨hostItems, hosts, hhosts, hhostsRead, rfl⟩,
      ⟨portItems, ports, hports, hportsRead, rfl⟩, hmethods⟩ := hbody
    exact ⟨(), hkeys, hostItems, hhosts, hosts, hhostsRead, portItems, hports, ports, hportsRead,
      _, hmethods, rfl⟩

theorem canonicalWorker_eq_ok :
    canonicalWorker fields path = .ok p ↔ p.kind = .worker ∧ BodyReads domainToASCII fields p := by
  simp only [canonicalWorker, bind_eq_ok, exactKeys_eq_ok, objectAt_eq_ok, workerLabels_eq_ok,
    resourceCeiling_eq_ok, pure_eq_ok]
  constructor
  · rintro ⟨u, hkeys, source, hsource, labels, hlabels, resources, hresources, u', hkeys',
      cpuMillis, hcpu, memoryBytes, hmemory, storageBytes, hstorage, rfl⟩
    exact ⟨rfl, hkeys, ⟨source, hsource, hlabels⟩, resources, hresources, hkeys', hcpu, hmemory,
      hstorage⟩
  · rintro ⟨hkind, hbody⟩
    cases p <;> cases hkind
    obtain ⟨hkeys, ⟨source, hsource, hlabels⟩, resources, hresources, hkeys', hcpu, hmemory,
      hstorage⟩ := hbody
    exact ⟨(), hkeys, source, hsource, _, hlabels, resources, hresources, (), hkeys', _, hcpu, _,
      hmemory, _, hstorage, rfl⟩

/-! ## Sets of permissions -/

theorem text_of_ofText {all : List α} {text : α → String} {s : JsString} {a : α}
    (h : ofText all text s = some a) : js (text a) = s :=
  beq_iff_eq.mp (find?_some (p := fun a => js (text a) == s) h)

theorem PermissionKind.ofText_text (kind : PermissionKind) : ofText (js kind.text) = some kind := by
  cases kind <;> decide

theorem PermissionKind.ofText_eq_some {s : JsString} {kind : PermissionKind} :
    ofText s = some kind ↔ js kind.text = s := by
  constructor
  · exact text_of_ofText
  · rintro rfl
    exact ofText_text kind

theorem canonicalPermission_eq_ok {kind : JsString} :
    canonicalPermission domainToASCII kind fields path = .ok p ↔
      js p.kind.text = kind ∧ BodyReads domainToASCII fields p := by
  rw [← PermissionKind.ofText_eq_some, canonicalPermission]
  cases PermissionKind.ofText kind with
  | none => simp
  | some found =>
    rw [Option.some.injEq, eq_comm (a := found)]
    cases found
    · exact canonicalCapability_eq_ok
    · exact canonicalEnvironment_eq_ok
    · exact canonicalExecutor_eq_ok
    · exact canonicalFilesystem_eq_ok
    · exact canonicalNetwork_eq_ok
    · exact canonicalSecret_eq_ok
    · exact canonicalWorker_eq_ok

def Permission.kindText (p : Permission) : JsString := js p.kind.text

/-- An entry of a permission set. -/
def PermissionReads (domainToASCII : JsString → JsString) (value : JsValue) (p : Permission) :
    Prop :=
  ∃ fields, value = .object fields ∧ get fields "kind" = .string p.kindText ∧
    BodyReads domainToASCII fields p

theorem canonicalEntries_eq_ok
    {seen : List JsString} {permissions : List Permission} :
    canonicalEntries domainToASCII index seen items = .ok permissions ↔
      List.Forall₂ (PermissionReads domainToASCII) items permissions ∧
        (permissions.map Permission.kindText).Nodup ∧ ∀ p ∈ permissions, p.kindText ∉ seen := by
  induction items generalizing index seen permissions with
  | nil => cases permissions <;> simp [canonicalEntries]
  | cons item items ih =>
    simp only [canonicalEntries, bind_eq_ok, objectAt_eq_ok, stringAt_eq_ok, guard_bind_eq_ok,
      canonicalPermission_eq_ok, ih, pure_eq_ok]
    constructor
    · rintro ⟨fields, rfl, kind, hkind, hseen, p, ⟨rfl, hbody⟩, rest, hrest, rfl⟩
      apply keyed_cons.mpr
      exact ⟨⟨fields, rfl, hkind, hbody⟩, by simpa [Permission.kindText] using hseen, hrest⟩
    · intro h
      cases permissions with
      | nil => cases h.1
      | cons p rest =>
        obtain ⟨⟨fields, hitem, hkind, hbody⟩, hseen, hrest⟩ := keyed_cons.mp h
        exact ⟨fields, hitem, p.kindText, hkind, by simpa using hseen, p, ⟨rfl, hbody⟩, rest,
          hrest, rfl⟩

def SetReads (domainToASCII : JsString → JsString) (stable : JsValue)
    (permissions : List Permission) : Prop :=
  KeyedOf (PermissionReads domainToASCII) Permission.kindText compareText stable permissions

/-- **What the parser accepts.** -/
theorem canonicalizePermissionSet_eq_ok {input : JsValue}
    {permissions : List Permission} :
    canonicalizePermissionSet domainToASCII input = .ok permissions ↔
      ∃ stable, clone (js "$") input = .ok stable ∧ SetReads domainToASCII stable permissions := by
  simp only [canonicalizePermissionSet, bind_eq_ok, arrayAt_eq_ok, canonicalEntries_eq_ok,
    pure_eq_ok, SetReads, KeyedOf]
  apply exists_congr
  intro stable
  apply and_congr_right
  intro _
  constructor
  · rintro ⟨items, hitems, read, ⟨hread, hnodup, -⟩, hsorted⟩
    exact ⟨items, read, hitems, hread, hnodup, hsorted⟩
  · rintro ⟨items, read, hitems, hread, hnodup, hsorted⟩
    exact ⟨items, hitems, read, ⟨hread, hnodup, by simp⟩, hsorted⟩

end TegoNext
