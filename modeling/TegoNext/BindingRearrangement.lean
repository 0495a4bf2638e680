/-
The normal form of the content of a binding, and what it forgets.

Content may come with its lists in another order, at any depth: these are the same facts
(`ContentRearranged`). The canonical content of the normal form is the same for all such orders
exactly if entries that tie under the comparison of their list agree (`canonical_rearranged_iff`).
-/
import TegoNext.ExecutionBindings

set_option autoImplicit false

namespace TegoNext

open List Function

namespace ExecutionBindings

open Text CanonicalJson

/-! ## The same facts in another order -/

/-- The methods of the entry come in another order. -/
structure EntryRearranged (entry entry' : CapabilityPermissionEntry) : Prop where
  name : entry.name = entry'.name
  methods : entry.methods.Perm entry'.methods

/-- The modes of access to the root come in another order. -/
structure RootRearranged (root root' : FilesystemRootPermission) : Prop where
  path : root.path = root'.path
  access : root.access.Perm root'.access

/-- The lists inside a permission come in another order, at any depth. -/
inductive PermissionRearranged : Permission → Permission → Prop where
  | capability {capabilities capabilities' : List CapabilityPermissionEntry}
      (h : RowsRearranged EntryRearranged capabilities capabilities') :
      PermissionRearranged (.capability capabilities) (.capability capabilities')
  | executor {executors executors' : List ExecutorKind} (h : executors.Perm executors') :
      PermissionRearranged (.executor executors) (.executor executors')
  | network {hosts hosts' : List JsString} {ports ports' : List Rat}
      {methods methods' : List HttpMethod} (hhosts : hosts.Perm hosts')
      (hports : ports.Perm ports') (hmethods : methods.Perm methods') :
      PermissionRearranged (.network hosts ports methods) (.network hosts' ports' methods')
  | filesystem {roots roots' : List FilesystemRootPermission}
      (h : RowsRearranged RootRearranged roots roots') :
      PermissionRearranged (.filesystem roots) (.filesystem roots')
  | secret {names names' : List JsString} (h : names.Perm names') :
      PermissionRearranged (.secret names) (.secret names')
  | environment {names names' : List JsString} (h : names.Perm names') :
      PermissionRearranged (.environment names) (.environment names')
  | worker (labels : List (JsString × JsString)) (resources : WorkerResourceCeilings) :
      PermissionRearranged (.worker labels resources) (.worker labels resources)

/-- The same facts: grants, definitions and bindings in another order, and so the lists inside
the grants. -/
structure ContentRearranged (content content' : ExecutionBindingContent) : Prop where
  configuration : content.configuration = content'.configuration
  permissionGrants : RowsRearranged PermissionRearranged content.permissionGrants
    content'.permissionGrants
  capabilityDefinitions : content.capabilityDefinitions.Perm content'.capabilityDefinitions
  capabilityBindings : content.capabilityBindings.Perm content'.capabilityBindings

theorem EntryRearranged.refl (entry : CapabilityPermissionEntry) : EntryRearranged entry entry :=
  ⟨rfl, .refl _⟩

theorem RootRearranged.refl (root : FilesystemRootPermission) : RootRearranged root root :=
  ⟨rfl, .refl _⟩

theorem PermissionRearranged.refl : ∀ permission : Permission,
    PermissionRearranged permission permission
  | .capability capabilities => .capability (.of_perm EntryRearranged.refl (.refl capabilities))
  | .executor _ => .executor (.refl _)
  | .network _ _ _ => .network (.refl _) (.refl _) (.refl _)
  | .filesystem roots => .filesystem (.of_perm RootRearranged.refl (.refl roots))
  | .secret _ => .secret (.refl _)
  | .environment _ => .environment (.refl _)
  | .worker labels resources => .worker labels resources

/-! ## Sorted lists of texts -/

section SortedStrings

variable {α : Type} {text : α → JsString}

theorem sortedStrings_perm (values : List α) : (sortedStrings text values).Perm values :=
  sortBy_perm _ values

theorem sortedStrings_eq_iff (htext : Function.Injective text) {values values' : List α} :
    sortedStrings text values = sortedStrings text values' ↔ values.Perm values' := by
  have := transCmp_comap compareText text
  constructor
  · intro h
    have hperm : ∀ l : List α, (sortedStrings text l).Perm l := sortedStrings_perm
    refine (hperm values).symm.trans ?_
    rw [h]
    exact hperm values'
  · intro h
    apply insertionSort_eq_of_perm h
    intro a _ b _ heq
    exact htext (compareText_eq_iff.mp heq)

end SortedStrings

theorem executorText_injective : Function.Injective fun executor : ExecutorKind => js executor.text := by
  intro a b h
  cases a <;> cases b <;> first | rfl | exact absurd h (by decide)

theorem accessText_injective : Function.Injective fun access : FilesystemAccess => js access.text := by
  intro a b h
  cases a <;> cases b <;> first | rfl | exact absurd h (by decide)

theorem methodText_injective : Function.Injective fun method : HttpMethod => js method.text := by
  intro a b h
  cases a <;> cases b <;> first | rfl | exact absurd h (by decide)

/-! ## Rows of a permission -/

def normalEntry (entry : CapabilityPermissionEntry) : CapabilityPermissionEntry :=
  ⟨entry.name, sortedStrings id entry.methods⟩

def normalRoot (root : FilesystemRootPermission) : FilesystemRootPermission :=
  ⟨root.path, sortedStrings (fun access => js access.text) root.access⟩

theorem normalEntry_eq_iff {entry entry' : CapabilityPermissionEntry} :
    normalEntry entry = normalEntry entry' ↔ EntryRearranged entry entry' := by
  rw [normalEntry, normalEntry, CapabilityPermissionEntry.mk.injEq,
    sortedStrings_eq_iff injective_id]
  exact ⟨fun h => ⟨h.1, h.2⟩, fun h => ⟨h.1, h.2⟩⟩

theorem normalRoot_eq_iff {root root' : FilesystemRootPermission} :
    normalRoot root = normalRoot root' ↔ RootRearranged root root' := by
  rw [normalRoot, normalRoot, FilesystemRootPermission.mk.injEq,
    sortedStrings_eq_iff accessText_injective]
  exact ⟨fun h => ⟨h.1, h.2⟩, fun h => ⟨h.1, h.2⟩⟩

/-! ## What can be read off the values -/

@[simp] theorem serializeWireValue_string_iff {s t : JsString} :
    serializeWireValue (.string s) = serializeWireValue (.string t) ↔ s = t := by
  simp [serializeWireValue]

@[simp] theorem serializeWireValue_textArray_iff {values values' : List JsString} :
    serializeWireValue (textArray values) = serializeWireValue (textArray values') ↔
      values = values' := by
  rw [textArray, textArray, serializeWireValue_array_iff, map_map, map_map]
  constructor
  · exact fun h => map_injective_iff.mpr (fun a b hab => JsonValue.string.inj hab) h
  · intro h
    rw [h]

@[simp] theorem serializeWireValue_entry_iff {entry entry' : CapabilityPermissionEntry} :
    serializeWireValue entry.toValue = serializeWireValue entry'.toValue ↔ entry = entry' := by
  cases entry
  cases entry'
  rw [CapabilityPermissionEntry.toValue, CapabilityPermissionEntry.toValue,
    serializeWireValue_object_iff]
  · simp [textMember]
  · rfl
  · show [js "name", js "methods"].Nodup
    decide

theorem accessTexts_injective : Function.Injective fun access : List FilesystemAccess =>
    access.map fun access => js access.text :=
  map_injective_iff.mpr accessText_injective

@[simp] theorem serializeWireValue_root_iff {root root' : FilesystemRootPermission} :
    serializeWireValue root.toValue = serializeWireValue root'.toValue ↔ root = root' := by
  cases root
  cases root'
  rw [FilesystemRootPermission.toValue, FilesystemRootPermission.toValue,
    serializeWireValue_object_iff]
  · simp [textMember, accessTexts_injective.eq_iff]
  · rfl
  · show [js "path", js "access"].Nodup
    decide

@[simp] theorem serializeWireValue_identity_iff {identity identity' : CapabilityIdentity} :
    serializeWireValue identity.toValue = serializeWireValue identity'.toValue ↔
      identity = identity' := by
  cases identity
  cases identity'
  rw [CapabilityIdentity.toValue, CapabilityIdentity.toValue, serializeWireValue_object_iff]
  · simp [textMember]
  · rfl
  · show [js "name", js "protocolVersion"].Nodup
    decide

@[simp] theorem serializeWireValue_deployment_iff
    {deployment deployment' : PluginDeploymentIdentity} :
    serializeWireValue deployment.toValue = serializeWireValue deployment'.toValue ↔
      deployment = deployment' := by
  cases deployment
  cases deployment'
  rw [PluginDeploymentIdentity.toValue, PluginDeploymentIdentity.toValue,
    serializeWireValue_object_iff]
  · simp [textMember]
  · rfl
  · show [js "applicationId", js "pluginId"].Nodup
    decide

@[simp] theorem serializeWireValue_binding_iff {binding binding' : CapabilityBinding} :
    serializeWireValue binding.toValue = serializeWireValue binding'.toValue ↔
      binding = binding' := by
  cases binding
  cases binding'
  rw [CapabilityBinding.toValue, CapabilityBinding.toValue, serializeWireValue_object_iff]
  · simp
  · rfl
  · show [js "capability", js "providerDeployment"].Nodup
    decide

def canonicalDefinition (definition : CapabilityDefinition) : CapabilityDefinition :=
  { definition with
    requestSchema := serializeWireValue definition.requestSchema
    responseSchema := serializeWireValue definition.responseSchema }

theorem serializeWireValue_definition_iff {definition definition' : CapabilityDefinition} :
    serializeWireValue definition.toValue = serializeWireValue definition'.toValue ↔
      canonicalDefinition definition = canonicalDefinition definition' := by
  rw [CapabilityDefinition.toValue, CapabilityDefinition.toValue, serializeWireValue_object_iff]
  · simp [canonicalDefinition]
  · rfl
  · show [js "identity", js "methods", js "requestSchema", js "responseSchema"].Nodup
    decide

theorem map_eq_iff_map_eq {α β γ : Type} {f : α → β} {g : α → γ}
    (h : ∀ a b, f a = f b ↔ g a = g b) {l l' : List α} :
    l.map f = l'.map f ↔ l.map g = l'.map g := by
  induction l generalizing l' with
  | nil => rw [map_nil, map_nil, nil_eq, nil_eq, map_eq_nil_iff, map_eq_nil_iff]
  | cons a l ih =>
    cases l' with
    | nil => simp
    | cons b l' =>
      rw [map_cons, map_cons, map_cons, map_cons, List.cons.injEq, List.cons.injEq, h a b, ih]

theorem serializeWireValue_content_iff {content content' : ExecutionBindingContent} :
    serializeWireValue content.toValue = serializeWireValue content'.toValue ↔
      serializeWireValue content.configuration = serializeWireValue content'.configuration ∧
      content.permissionGrants.map (fun grant => serializeWireValue grant.toValue) =
        content'.permissionGrants.map (fun grant => serializeWireValue grant.toValue) ∧
      content.capabilityDefinitions.map canonicalDefinition =
        content'.capabilityDefinitions.map canonicalDefinition ∧
      content.capabilityBindings = content'.capabilityBindings := by
  have hdefinitions := @map_eq_iff_map_eq _ _ _
    (fun definition : CapabilityDefinition => serializeWireValue definition.toValue)
    canonicalDefinition (fun _ _ => serializeWireValue_definition_iff)
    content.capabilityDefinitions content'.capabilityDefinitions
  have hbindings := @map_eq_iff_map_eq _ _ _
    (fun binding : CapabilityBinding => serializeWireValue binding.toValue) id
    (fun _ _ => serializeWireValue_binding_iff)
    content.capabilityBindings content'.capabilityBindings
  rw [map_id, map_id] at hbindings
  rw [ExecutionBindingContent.toValue, ExecutionBindingContent.toValue,
    serializeWireValue_object_iff]
  · rw [← hdefinitions, ← hbindings]
    simp only [map_cons, map_nil, List.cons.injEq, serializeWireValue_array_iff, map_map, and_true]
    rfl
  · rfl
  · show [js "configuration", js "permissionGrants", js "capabilityDefinitions",
      js "capabilityBindings"].Nodup
    decide

/-! ## The normal form -/

section NormalForm

variable (platform : BindingPlatform)

def grantText (grant : Permission) : JsString :=
  canonicalJson platform (normalizedPermission platform grant).toValue

/-- What `normalizeExecutionBindingContent` makes of content it accepts. -/
def normalForm (content : ExecutionBindingContent) : ExecutionBindingContent where
  configuration := content.configuration
  permissionGrants := sortBy (comparePermissions platform)
    (content.permissionGrants.map (normalizedPermission platform))
  capabilityDefinitions := sortBy (compareDefinitions platform) content.capabilityDefinitions
  capabilityBindings := sortBy (compareBindings platform) content.capabilityBindings

def canonicalContent (content : ExecutionBindingContent) : JsonValue :=
  serializeWireValue content.toValue

/-- Entries of one capability, or of one root, that tie are the same up to the order inside. -/
def RowsAgree : Permission → Prop
  | .capability capabilities =>
    ∀ entry ∈ capabilities, ∀ entry' ∈ capabilities,
      platform.localeCompare entry.name entry'.name = .eq → EntryRearranged entry entry'
  | .filesystem roots =>
    ∀ root ∈ roots, ∀ root' ∈ roots,
      platform.localeCompare root.path root'.path = .eq → RootRearranged root root'
  | _ => True

/-- What ties under the comparison of its list agrees in content. -/
structure TiesAgree (content : ExecutionBindingContent) : Prop where
  rows : ∀ grant ∈ content.permissionGrants, RowsAgree platform grant
  permissionGrants : ∀ grant ∈ content.permissionGrants, ∀ grant' ∈ content.permissionGrants,
    platform.localeCompare (grantText platform grant) (grantText platform grant') = .eq →
      grantText platform grant = grantText platform grant'
  capabilityDefinitions : ∀ definition ∈ content.capabilityDefinitions,
    ∀ definition' ∈ content.capabilityDefinitions,
      compareDefinitions platform definition definition' = .eq →
        canonicalDefinition definition = canonicalDefinition definition'
  capabilityBindings : ∀ binding ∈ content.capabilityBindings,
    ∀ binding' ∈ content.capabilityBindings,
      compareBindings platform binding binding' = .eq → binding = binding'

theorem canonicalContent_normalForm_iff {platform : BindingPlatform}
    (hprints : PrintsApart platform.numberText) {content content' : ExecutionBindingContent} :
    canonicalContent (normalForm platform content) =
        canonicalContent (normalForm platform content') ↔
      serializeWireValue content.configuration = serializeWireValue content'.configuration ∧
      sortBy platform.localeCompare (content.permissionGrants.map (grantText platform)) =
        sortBy platform.localeCompare (content'.permissionGrants.map (grantText platform)) ∧
      sortBy (compareDefinitions platform) (content.capabilityDefinitions.map canonicalDefinition) =
        sortBy (compareDefinitions platform)
          (content'.capabilityDefinitions.map canonicalDefinition) ∧
      sortBy (compareBindings platform) content.capabilityBindings =
        sortBy (compareBindings platform) content'.capabilityBindings := by
  have hgrants : ∀ grants : List Permission,
      (sortBy (comparePermissions platform) (grants.map (normalizedPermission platform))).map
          (fun grant => canonicalJson platform grant.toValue) =
        sortBy platform.localeCompare (grants.map (grantText platform)) := by
    intro grants
    have hmap := map_insertionSort
      (fun left right => comparePermissions platform left right ≠ .gt)
      (fun left right => platform.localeCompare left right ≠ .gt)
      (fun grant : Permission => canonicalJson platform grant.toValue)
      (grants.map (normalizedPermission platform)) fun _ _ _ _ => Iff.rfl
    rw [sortBy, hmap, map_map]
    rfl
  have hdefinitions : ∀ definitions : List CapabilityDefinition,
      (sortBy (compareDefinitions platform) definitions).map canonicalDefinition =
        sortBy (compareDefinitions platform) (definitions.map canonicalDefinition) := by
    intro definitions
    exact map_insertionSort _ _ _ _ fun _ _ _ _ => Iff.rfl
  rw [canonicalContent, canonicalContent, serializeWireValue_content_iff,
    map_eq_iff_map_eq fun a b : Permission => (canonical_eq_iff hprints).symm]
  rw [← hgrants, ← hgrants, ← hdefinitions, ← hdefinitions]
  rfl

end NormalForm

/-! ## Rearranging the content -/

section Rearranging

variable {platform : BindingPlatform}

theorem serializeWireValue_list_iff {α : Type} {toValue : α → JsonValue}
    (h : ∀ a b, serializeWireValue (toValue a) = serializeWireValue (toValue b) ↔ a = b)
    {l l' : List α} :
    serializeWireValue (.array (l.map toValue)) = serializeWireValue (.array (l'.map toValue)) ↔
      l = l' := by
  rw [serializeWireValue_array_iff, map_map, map_map]
  exact (map_injective_iff.mpr fun a b hab => (h a b).mp hab).eq_iff

theorem serializeWireValue_capability_iff {capabilities capabilities' : List CapabilityPermissionEntry} :
    serializeWireValue (Permission.capability capabilities).toValue =
        serializeWireValue (Permission.capability capabilities').toValue ↔
      capabilities = capabilities' := by
  rw [Permission.toValue, Permission.toValue, serializeWireValue_object_iff]
  · simp [textMember, serializeWireValue_list_iff fun a b => @serializeWireValue_entry_iff a b]
  · rfl
  · show [js "kind", js "capabilities"].Nodup
    decide

theorem serializeWireValue_filesystem_iff {roots roots' : List FilesystemRootPermission} :
    serializeWireValue (Permission.filesystem roots).toValue =
        serializeWireValue (Permission.filesystem roots').toValue ↔
      roots = roots' := by
  rw [Permission.toValue, Permission.toValue, serializeWireValue_object_iff]
  · simp [textMember, serializeWireValue_list_iff fun a b => @serializeWireValue_root_iff a b]
  · rfl
  · show [js "kind", js "roots"].Nodup
    decide

theorem normalizedPermission_of_rearranged {grant grant' : Permission}
    (h : PermissionRearranged grant grant')
    (hcapability : ∀ capabilities, grant ≠ .capability capabilities)
    (hfilesystem : ∀ roots, grant ≠ .filesystem roots) :
    normalizedPermission platform grant = normalizedPermission platform grant' := by
  cases h with
  | capability h => exact absurd rfl (hcapability _)
  | filesystem h => exact absurd rfl (hfilesystem _)
  | executor h =>
    rw [normalizedPermission, normalizedPermission,
      (sortedStrings_eq_iff executorText_injective).mpr h]
  | @network _ _ ports ports' _ _ hhosts hports hmethods =>
    have hsorted : sortBy compare ports = sortBy compare ports' :=
      insertionSort_eq_of_perm hports fun a _ b _ heq => compare_eq_iff_eq.mp heq
    rw [normalizedPermission, normalizedPermission,
      (sortedStrings_eq_iff injective_id).mpr hhosts,
      (sortedStrings_eq_iff methodText_injective).mpr hmethods, hsorted]
  | secret h | environment h =>
    rw [normalizedPermission, normalizedPermission, (sortedStrings_eq_iff injective_id).mpr h]
  | worker labels resources => rfl

theorem permissionRearranged_normalizedPermission : ∀ grant : Permission,
    PermissionRearranged grant (normalizedPermission platform grant)
  | .capability capabilities => .capability ⟨capabilities.map normalEntry,
      forall₂_map_right_iff.mpr (forall₂_same.mpr fun entry _ =>
        ⟨rfl, (sortedStrings_perm entry.methods).symm⟩), (sortBy_perm _ _).symm⟩
  | .executor executors => .executor (sortedStrings_perm executors).symm
  | .network hosts ports methods => .network (sortedStrings_perm hosts).symm
      (sortBy_perm compare ports).symm (sortedStrings_perm methods).symm
  | .filesystem roots => .filesystem ⟨roots.map normalRoot,
      forall₂_map_right_iff.mpr (forall₂_same.mpr fun root _ =>
        ⟨rfl, (sortedStrings_perm root.access).symm⟩), (sortBy_perm _ _).symm⟩
  | .secret names => .secret (sortedStrings_perm names).symm
  | .environment names => .environment (sortedStrings_perm names).symm
  | .worker labels resources => .worker labels resources

theorem contentRearranged_normalForm (content : ExecutionBindingContent) :
    ContentRearranged content (normalForm platform content) where
  configuration := rfl
  permissionGrants := ⟨content.permissionGrants.map (normalizedPermission platform),
    forall₂_map_right_iff.mpr (forall₂_same.mpr fun grant _ =>
      permissionRearranged_normalizedPermission grant), (sortBy_perm _ _).symm⟩
  capabilityDefinitions := (sortBy_perm _ _).symm
  capabilityBindings := (sortBy_perm _ _).symm

variable [Std.TransCmp platform.localeCompare]

/-- The text of a grant is the same however the grant is rearranged, exactly when its rows
agree. -/
theorem grantText_rearranged_iff (hprints : PrintsApart platform.numberText) (grant : Permission) :
    (∀ grant', PermissionRearranged grant grant' →
      grantText platform grant' = grantText platform grant) ↔ RowsAgree platform grant := by
  have htext : ∀ a b : Permission, grantText platform a = grantText platform b ↔
      serializeWireValue (normalizedPermission platform a).toValue =
        serializeWireValue (normalizedPermission platform b).toValue :=
    fun a b => canonical_eq_iff hprints
  cases grant with
  | capability capabilities =>
    have := transCmp_comap platform.localeCompare CapabilityPermissionEntry.name
    have hrows := @sorted_alike_rows_iff _ _
      (fun left right : CapabilityPermissionEntry =>
        platform.localeCompare left.name right.name) this EntryRearranged normalEntry
      (fun _ _ => normalEntry_eq_iff.symm) capabilities
    refine Iff.trans ?_ hrows
    constructor
    · intro h capabilities' hcapabilities
      exact serializeWireValue_capability_iff.mp ((htext _ _).mp (h _ (.capability hcapabilities)))
    · intro h _ hgrant
      cases hgrant with
      | capability hcapabilities =>
        exact (htext _ _).mpr (serializeWireValue_capability_iff.mpr (h _ hcapabilities))
  | filesystem roots =>
    have := transCmp_comap platform.localeCompare FilesystemRootPermission.path
    have hrows := @sorted_alike_rows_iff _ _
      (fun left right : FilesystemRootPermission =>
        platform.localeCompare left.path right.path) this RootRearranged normalRoot
      (fun _ _ => normalRoot_eq_iff.symm) roots
    refine Iff.trans ?_ hrows
    constructor
    · intro h roots' hroots
      exact serializeWireValue_filesystem_iff.mp ((htext _ _).mp (h _ (.filesystem hroots)))
    · intro h _ hgrant
      cases hgrant with
      | filesystem hroots =>
        exact (htext _ _).mpr (serializeWireValue_filesystem_iff.mpr (h _ hroots))
  | _ =>
    refine ⟨fun _ => trivial, fun _ grant' h => ?_⟩
    rw [grantText, grantText, normalizedPermission_of_rearranged h]
    · simp
    · simp

instance : Std.TransCmp (comparePermissions platform) :=
  transCmp_comap platform.localeCompare fun grant : Permission =>
    canonicalJson platform grant.toValue

instance : Std.TransCmp (compareCapabilities platform) :=
  have := transCmp_comap platform.localeCompare CapabilityIdentity.name
  have := transCmp_comap platform.localeCompare CapabilityIdentity.protocolVersion
  inferInstanceAs (Std.TransCmp (compareLex
    (fun left right : CapabilityIdentity => platform.localeCompare left.name right.name)
    fun left right : CapabilityIdentity =>
      platform.localeCompare left.protocolVersion right.protocolVersion))

instance : Std.TransCmp (compareDefinitions platform) :=
  transCmp_comap (compareCapabilities platform) CapabilityDefinition.identity

instance : Std.TransCmp (compareBindings platform) :=
  have := transCmp_comap (compareCapabilities platform) CapabilityBinding.capability
  have := transCmp_comap platform.localeCompare fun binding : CapabilityBinding =>
    binding.providerDeployment.applicationId
  have := transCmp_comap platform.localeCompare fun binding : CapabilityBinding =>
    binding.providerDeployment.pluginId
  inferInstanceAs (Std.TransCmp (compareLex
    (fun left right : CapabilityBinding =>
      compareCapabilities platform left.capability right.capability)
    (compareLex
      (fun left right : CapabilityBinding =>
        platform.localeCompare left.providerDeployment.applicationId
          right.providerDeployment.applicationId)
      fun left right : CapabilityBinding =>
        platform.localeCompare left.providerDeployment.pluginId right.providerDeployment.pluginId)))

/-- **The canonical content forgets the order** in which the content came, exactly when what ties
agrees. -/
theorem canonical_rearranged_iff (hprints : PrintsApart platform.numberText)
    (content : ExecutionBindingContent) :
    (∀ content', ContentRearranged content content' →
      canonicalContent (normalForm platform content') =
        canonicalContent (normalForm platform content)) ↔ TiesAgree platform content := by
  have hgrants := @sorted_rows_iff _ _ platform.localeCompare _ PermissionRearranged
    (grantText platform) PermissionRearranged.refl content.permissionGrants
  have hdefinitions := @sorted_rows_iff _ _ (compareDefinitions platform) _
    (fun a b => a = b) canonicalDefinition (fun _ => rfl) content.capabilityDefinitions
  have hbindings := @sorted_rows_iff _ _ (compareBindings platform) _ (fun a b => a = b) id
    (fun _ => rfl) content.capabilityBindings
  constructor
  · intro hsame
    have hlists := fun content' h => (canonicalContent_normalForm_iff hprints).mp (hsame content' h)
    -- each list is rearranged alone
    have hgrants' := hgrants.mp fun grants h =>
      (hlists { content with permissionGrants := grants } ⟨rfl, h, .refl _, .refl _⟩).2.1
    have hdefinitions' := hdefinitions.mp fun definitions h =>
      (hlists { content with capabilityDefinitions := definitions }
        ⟨rfl, .of_perm PermissionRearranged.refl (.refl _), rowsRearranged_eq_iff.mp h,
          .refl _⟩).2.2.1
    have hbindings' := hbindings.mp fun bindings h => by
      rw [map_id, map_id]
      exact (hlists { content with capabilityBindings := bindings }
        ⟨rfl, .of_perm PermissionRearranged.refl (.refl _), .refl _,
          rowsRearranged_eq_iff.mp h⟩).2.2.2
    exact ⟨fun grant hgrant => (grantText_rearranged_iff hprints grant).mp
      (hgrants'.1 grant hgrant), hgrants'.2, hdefinitions'.2, hbindings'.2⟩
  · rintro hties content' ⟨hconfiguration, hpermissions, hdefs, hbinds⟩
    have hgrants' := hgrants.mpr ⟨fun grant hgrant =>
      (grantText_rearranged_iff hprints grant).mpr (hties.rows grant hgrant),
      hties.permissionGrants⟩
    have hdefinitions' := hdefinitions.mpr ⟨fun a _ b hab => by rw [hab],
      hties.capabilityDefinitions⟩
    have hbindings' := hbindings.mpr ⟨fun a _ b hab => by rw [hab], hties.capabilityBindings⟩
    refine (canonicalContent_normalForm_iff hprints).mpr ⟨by rw [hconfiguration],
      hgrants' _ hpermissions, hdefinitions' _ (rowsRearranged_eq_iff.mpr hdefs), ?_⟩
    have hsorted := hbindings' _ (rowsRearranged_eq_iff.mpr hbinds)
    rw [map_id, map_id] at hsorted
    exact hsorted

/-! ## The normal form of a normal form -/

theorem normalEntry_normalEntry (entry : CapabilityPermissionEntry) :
    normalEntry (normalEntry entry) = normalEntry entry :=
  normalEntry_eq_iff.mpr ⟨rfl, sortedStrings_perm entry.methods⟩

theorem normalRoot_normalRoot (root : FilesystemRootPermission) :
    normalRoot (normalRoot root) = normalRoot root :=
  normalRoot_eq_iff.mpr ⟨rfl, sortedStrings_perm root.access⟩

theorem normalizedPermission_normalizedPermission (grant : Permission) :
    normalizedPermission platform (normalizedPermission platform grant) =
      normalizedPermission platform grant := by
  cases grant with
  | capability capabilities =>
    have := transCmp_comap platform.localeCompare CapabilityPermissionEntry.name
    exact congrArg Permission.capability
      (insertionSort_map_insertionSort normalEntry_normalEntry capabilities)
  | filesystem roots =>
    have := transCmp_comap platform.localeCompare FilesystemRootPermission.path
    exact congrArg Permission.filesystem
      (insertionSort_map_insertionSort normalRoot_normalRoot roots)
  | _ => exact (normalizedPermission_of_rearranged
      (permissionRearranged_normalizedPermission _) (by simp) (by simp)).symm

/-- **The normal form of a normal form** is that form. -/
theorem normalForm_normalForm (content : ExecutionBindingContent) :
    normalForm platform (normalForm platform content) = normalForm platform content := by
  have hgrants := @insertionSort_map_insertionSort _ (comparePermissions platform) _
    (normalizedPermission platform) normalizedPermission_normalizedPermission
    content.permissionGrants
  have hdefinitions := @insertionSort_map_insertionSort _ (compareDefinitions platform) _ id
    (fun _ => rfl) content.capabilityDefinitions
  have hbindings := @insertionSort_map_insertionSort _ (compareBindings platform) _ id
    (fun _ => rfl) content.capabilityBindings
  rw [map_id, map_id] at hdefinitions hbindings
  rw [normalForm, normalForm, ExecutionBindingContent.mk.injEq]
  exact ⟨rfl, hgrants, hdefinitions, hbindings⟩

end Rearranging

end ExecutionBindings

end TegoNext
