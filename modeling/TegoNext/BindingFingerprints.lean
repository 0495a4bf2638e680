/-
Bindings that are made, checked and told apart by their fingerprints.

`createExecutionBinding` returns the normal form of the content it accepts. Whether the fingerprint
forgets the order of the content depends on what ties under the comparisons: the sort is stable, so
entries that tie stay in the order in which they came. A hash keeps no infinite set of texts apart,
so the statement is about a set that it does.
-/
import TegoNext.BindingRearrangement
import TegoNext.ResultBuffer

set_option autoImplicit false

namespace TegoNext

open Except

namespace ExecutionBindings

open Text CanonicalJson
open ResultBuffer (naturalText naturalText_printsApart)

/-! ## What the parsers accept -/

theorem parseWithValidator_eq_ok {α : Type} {validate : α → Bool} {input parsed : α}
    {code : BindingCode} {message kind id : String} :
    parseWithValidator validate input code message kind id = .ok parsed ↔
      validate input = true ∧ parsed = input := by
  unfold parseWithValidator
  by_cases h : validate input = true
  · rw [if_pos h, ok.injEq]
    exact ⟨fun heq => ⟨h, heq.symm⟩, fun heq => heq.2.symm⟩
  · rw [if_neg h]
    exact ⟨nofun, fun heq => absurd heq.1 h⟩

theorem parseCapabilityDefinition_eq_ok {input parsed : CapabilityDefinition} :
    parseCapabilityDefinition input = .ok parsed ↔
      (validateCapabilityDefinition input = true ∧ canonicalMethods input.methods = true) ∧
        parsed = input := by
  unfold parseCapabilityDefinition
  rw [bind_eq_ok]
  simp only [parseWithValidator_eq_ok]
  constructor
  · rintro ⟨definition, ⟨hvalid, rfl⟩, h⟩
    rw [guard_bind_eq_ok, Bool.not_eq_true', Bool.not_eq_false, pure_eq_ok] at h
    exact ⟨⟨hvalid, h.1⟩, h.2.symm⟩
  · rintro ⟨⟨hvalid, hmethods⟩, rfl⟩
    refine ⟨parsed, ⟨hvalid, rfl⟩, ?_⟩
    rw [guard_bind_eq_ok, hmethods]
    exact ⟨by decide, rfl⟩

theorem mapM_eq_ok_self {α ε : Type} {f : α → Except ε α} {valid : α → Prop}
    (hf : ∀ a b, f a = .ok b ↔ valid a ∧ b = a) {l parsed : List α} :
    l.mapM f = .ok parsed ↔ (∀ a ∈ l, valid a) ∧ parsed = l := by
  induction l generalizing parsed with
  | nil =>
    rw [List.mapM_nil, pure_eq_ok]
    exact ⟨fun h => ⟨nofun, h.symm⟩, fun h => h.2.symm⟩
  | cons a l ih =>
    rw [List.mapM_cons, bind_eq_ok]
    constructor
    · rintro ⟨b, hb, h⟩
      obtain ⟨rest, hrest, hparsed⟩ := bind_eq_ok.mp h
      obtain ⟨ha, rfl⟩ := (hf a b).mp hb
      obtain ⟨hl, rfl⟩ := ih.mp hrest
      rw [pure_eq_ok] at hparsed
      exact ⟨List.forall_mem_cons.mpr ⟨ha, hl⟩, hparsed.symm⟩
    · rintro ⟨hvalid, rfl⟩
      obtain ⟨ha, hl⟩ := List.forall_mem_cons.mp hvalid
      exact ⟨a, (hf a a).mpr ⟨ha, rfl⟩, bind_eq_ok.mpr ⟨l, ih.mpr ⟨hl, rfl⟩, rfl⟩⟩

/-- Content that passes all checks. -/
structure ValidContent (content : ExecutionBindingContent) : Prop where
  permissionGrants : validatePermissionSet content.permissionGrants = true
  capabilityDefinitions : ∀ definition ∈ content.capabilityDefinitions,
    validateCapabilityDefinition definition = true ∧ canonicalMethods definition.methods = true
  capabilityBindings : ∀ binding ∈ content.capabilityBindings,
    validateCapabilityBinding binding = true

section Normalizing

variable {platform : BindingPlatform}

variable {content : ExecutionBindingContent}

theorem normalizeExecutionBindingContent_eq_ok {normalized : ExecutionBindingContent} :
    normalizeExecutionBindingContent platform content = .ok normalized ↔
      ValidContent content ∧ normalized = normalForm platform content := by
  have hdefinitions := @mapM_eq_ok_self _ _ parseCapabilityDefinition _
    (fun _ _ => parseCapabilityDefinition_eq_ok) content.capabilityDefinitions
  have hbindings := @mapM_eq_ok_self _ _ parseCapabilityBinding _
    (fun _ _ => parseWithValidator_eq_ok) content.capabilityBindings
  unfold normalizeExecutionBindingContent
  simp only [bind_eq_ok, pure_eq_ok, parsePermissionSet, parseWithValidator_eq_ok, hdefinitions,
    hbindings]
  constructor
  · rintro ⟨_, ⟨hgrants, rfl⟩, _, ⟨hdefs, rfl⟩, _, ⟨hbinds, rfl⟩, rfl⟩
    exact ⟨⟨hgrants, hdefs, hbinds⟩, rfl⟩
  · rintro ⟨⟨hgrants, hdefs, hbinds⟩, rfl⟩
    exact ⟨_, ⟨hgrants, rfl⟩, _, ⟨hdefs, rfl⟩, _, ⟨hbinds, rfl⟩, rfl⟩

theorem isSha256Hex_hexDigits (digest : Vector (Fin 16) 64) :
    isSha256Hex (digest.toList.map hexDigit) = true := by
  have hdigit : ∀ d : Fin 16, (isDigit (hexDigit d) ||
      (97 ≤ hexDigit d && hexDigit d ≤ 102)) = true := by decide
  rw [isSha256Hex, List.length_map, Vector.length_toList, Bool.and_eq_true, List.all_map,
    List.all_eq_true]
  exact ⟨rfl, fun d _ => hdigit d⟩

theorem validateExecutionBinding_of_valid {fingerprint : JsString}
    (h : ValidContent content) (hfingerprint : isSha256Hex fingerprint = true) :
    validateExecutionBinding ⟨content, fingerprint⟩ = true := by
  simp only [validateExecutionBinding, Bool.and_eq_true, List.all_eq_true]
  exact ⟨⟨⟨h.permissionGrants, fun definition hd => (h.capabilityDefinitions definition hd).1⟩,
    h.capabilityBindings⟩, hfingerprint⟩

/-! ## The same facts are accepted -/

theorem validatePermission_rearranged {grant grant' : Permission}
    (h : PermissionRearranged grant grant') (hvalid : validatePermission grant = true) :
    validatePermission grant' = true := by
  cases h with
  | capability h =>
    simp only [validatePermission, List.all_eq_true, Bool.and_eq_true] at hvalid ⊢
    refine h.forall_mem (fun entry entry' hentry hok => ?_) hvalid
    rw [← hentry.name]
    exact ⟨hok.1, fun method hmethod => hok.2 method (hentry.methods.mem_iff.mpr hmethod)⟩
  | filesystem h =>
    simp only [validatePermission, List.all_eq_true] at hvalid ⊢
    refine h.forall_mem (fun root root' hroot hok => ?_) hvalid
    rw [← hroot.path]
    exact hok
  | executor h => rfl
  | network hhosts hports hmethods =>
    rw [validatePermission, ← hhosts.all_eq, ← hports.all_eq]
    exact hvalid
  | secret h | environment h =>
    rw [validatePermission, ← h.all_eq]
    exact hvalid
  | worker labels resources => exact hvalid

theorem ValidContent.rearranged {content' : ExecutionBindingContent}
    (hvalid : ValidContent content) (h : ContentRearranged content content') :
    ValidContent content' where
  permissionGrants := by
    have hgrants := hvalid.permissionGrants
    rw [validatePermissionSet, List.all_eq_true] at hgrants ⊢
    exact h.permissionGrants.forall_mem (fun _ _ hgrant => validatePermission_rearranged hgrant)
      hgrants
  capabilityDefinitions := fun definition hd =>
    hvalid.capabilityDefinitions definition (h.capabilityDefinitions.mem_iff.mpr hd)
  capabilityBindings := fun binding hb =>
    hvalid.capabilityBindings binding (h.capabilityBindings.mem_iff.mpr hb)

/-! ## Creating -/

/-- The parts of an identity, one after the other. -/
def parseBindingIdentity (input : ExecutionBindingIdentity) :
    Except BindingThrown ExecutionBindingIdentity := do
  let applicationId ← parseIdentity input.applicationId "ApplicationId"
  let pluginId ← parseIdentity input.pluginId "PluginId"
  let componentId ← parseIdentity input.componentId "ComponentId"
  let target ← parseTaskExecutionTarget input.target
  pure ⟨applicationId, pluginId, componentId, target⟩

theorem parseIdentity_eq_ok {value parsed : JsString} {name : String}
    (h : parseIdentity value name = .ok parsed) : parsed = value := by
  unfold parseIdentity at h
  by_cases hname : isPortableName value = true
  · rw [if_pos hname, ok.injEq] at h
    exact h.symm
  · rw [if_neg hname] at h
    cases h

theorem parseTaskExecutionTarget_eq_ok {input parsed : TaskExecutionTarget}
    (h : parseTaskExecutionTarget input = .ok parsed) : parsed = input := by
  obtain ⟨instanceId, deploymentGeneration, artifactDigest, id, type, workerId⟩ := input
  unfold parseTaskExecutionTarget at h
  rw [guard_bind_eq_ok] at h
  simp only [bind_eq_ok, pure_eq_ok] at h
  obtain ⟨-, id', hid, workerId', hworker, instanceId', hinstance, generation', hgeneration,
    digest', hdigest, rfl⟩ := h
  have hid' : id' = id := by
    unfold parseExecutorId at hid
    split at hid
    · exact (ok.inj hid).symm
    · cases hid
  have hworker' : workerId' = workerId := by
    cases workerId with
    | none => exact (ok.inj hworker).symm
    | some worker =>
      obtain ⟨parsed, hparsed, hsome⟩ := bind_eq_ok.mp hworker
      rw [← parseIdentity_eq_ok hparsed]
      exact (ok.inj hsome).symm
  have hgeneration' : generation' = deploymentGeneration := by
    unfold parseGeneration at hgeneration
    split at hgeneration
    · cases hgeneration
    split at hgeneration
    · cases hgeneration
    · exact (ok.inj hgeneration).symm
  have hdigest' : digest' = artifactDigest := by
    unfold parseArtifactDigest at hdigest
    split at hdigest
    · exact (ok.inj hdigest).symm
    · cases hdigest
  rw [hid', hworker', hgeneration', hdigest', parseIdentity_eq_ok hinstance]

theorem parseBindingIdentity_eq_ok {input parsed : ExecutionBindingIdentity}
    (h : parseBindingIdentity input = .ok parsed) : parsed = input := by
  unfold parseBindingIdentity at h
  simp only [bind_eq_ok, pure_eq_ok] at h
  obtain ⟨_, happlication, _, hplugin, _, hcomponent, _, htarget, rfl⟩ := h
  rw [parseIdentity_eq_ok happlication, parseIdentity_eq_ok hplugin,
    parseIdentity_eq_ok hcomponent, parseTaskExecutionTarget_eq_ok htarget]

def createdBinding (platform : BindingPlatform) (identity : ExecutionBindingIdentity)
    (content : ExecutionBindingContent) : ExecutionBinding :=
  ⟨normalForm platform content,
    executionBindingFingerprint platform identity (normalForm platform content)⟩

/-- **What is accepted, and what is made of it.** -/
theorem createExecutionBinding_eq_ok {identity : ExecutionBindingIdentity}
    {binding : ExecutionBinding} :
    createExecutionBinding platform identity content = .ok binding ↔
      parseBindingIdentity identity = .ok identity ∧ ValidContent content ∧
        binding = createdBinding platform identity content := by
  have hcreate : createExecutionBinding platform identity content =
      parseBindingIdentity identity >>= fun identity =>
        parseExecutionBinding ⟨content, List.replicate 64 48⟩ >>= fun candidate =>
          normalizeExecutionBindingContent platform candidate.toExecutionBindingContent >>=
            fun content => pure
              ⟨content, executionBindingFingerprint platform identity content⟩ := by
    simp only [createExecutionBinding, parseBindingIdentity, bind_assoc, pure_bind]
  rw [hcreate]
  simp only [bind_eq_ok, pure_eq_ok, parseExecutionBinding, parseWithValidator_eq_ok,
    normalizeExecutionBindingContent_eq_ok]
  constructor
  · rintro ⟨parsed, hparsed, _, ⟨-, rfl⟩, _, ⟨hvalid, rfl⟩, rfl⟩
    have hsame := parseBindingIdentity_eq_ok hparsed
    subst hsame
    exact ⟨hparsed, hvalid, rfl⟩
  · rintro ⟨hidentity, hvalid, rfl⟩
    exact ⟨identity, hidentity, _,
      ⟨validateExecutionBinding_of_valid hvalid (by decide), rfl⟩, _, ⟨hvalid, rfl⟩, rfl⟩

/-! ## Checking -/

theorem assertExecutionBindingMatches_created [Std.TransCmp platform.localeCompare]
    (identity : ExecutionBindingIdentity)
    (hvalid : ValidContent content) :
    assertExecutionBindingMatches platform identity (createdBinding platform identity content) =
      .ok (createdBinding platform identity content) := by
  have hnormal : ValidContent (normalForm platform content) :=
    hvalid.rearranged (contentRearranged_normalForm content)
  have hparse : parseExecutionBinding (createdBinding platform identity content) =
      .ok (createdBinding platform identity content) :=
    parseWithValidator_eq_ok.mpr
      ⟨validateExecutionBinding_of_valid hnormal (isSha256Hex_hexDigits _), rfl⟩
  have hnormalize : normalizeExecutionBindingContent platform (normalForm platform content) =
      .ok (normalForm platform content) :=
    normalizeExecutionBindingContent_eq_ok.mpr ⟨hnormal, (normalForm_normalForm content).symm⟩
  unfold assertExecutionBindingMatches
  rw [bind_eq_ok]
  refine ⟨_, hparse, bind_eq_ok.mpr ⟨_, hnormalize, ?_⟩⟩
  rw [if_neg fun h => h rfl]
  rfl

end Normalizing

/-! ## Fingerprints -/

section Fingerprints

variable {platform : BindingPlatform}

theorem bindingText_eq_iff (hprints : PrintsApart platform.numberText)
    {identity identity' : ExecutionBindingIdentity} {content content' : ExecutionBindingContent} :
    bindingText platform identity content = bindingText platform identity' content' ↔
      serializeWireValue identity.toValue = serializeWireValue identity'.toValue ∧
        canonicalContent content = canonicalContent content' := by
  rw [bindingText, bindingText, canonical_eq_iff hprints, serializeWireValue_object_iff]
  · simp [textMember, canonicalContent]
  · rfl
  · show [js "domain", js "identity", js "binding"].Nodup
    decide

theorem executionBindingFingerprint_eq_iff {texts : Set JsString}
    (hsha : Set.InjOn platform.sha256 texts) {identity identity' : ExecutionBindingIdentity}
    {content content' : ExecutionBindingContent}
    (htext : bindingText platform identity content ∈ texts)
    (htext' : bindingText platform identity' content' ∈ texts) :
    executionBindingFingerprint platform identity content =
        executionBindingFingerprint platform identity' content' ↔
      bindingText platform identity content = bindingText platform identity' content' := by
  constructor
  · intro h
    have hlist := List.map_injective_iff.mpr hexDigit_injective h
    exact hsha htext htext' (Vector.toList_inj.mp hlist)
  · intro h
    rw [executionBindingFingerprint, executionBindingFingerprint, h]

/-- A binding made for an identity passes the check; the same facts, in any order, give its
fingerprint; and a binding with its fingerprint has its content, if the hash keeps their texts
apart. -/
structure BindingFaithful (platform : BindingPlatform) (texts : Set JsString)
    (identity : ExecutionBindingIdentity) (content : ExecutionBindingContent)
    (binding : ExecutionBinding) : Prop where
  accepted : assertExecutionBindingMatches platform identity binding = .ok binding
  orderFree : ∀ content', ContentRearranged content content' →
    ∃ binding', createExecutionBinding platform identity content' = .ok binding' ∧
      binding'.fingerprint = binding.fingerprint
  determined : ∀ identity' content' binding',
    createExecutionBinding platform identity' content' = .ok binding' →
      bindingText platform identity' binding'.toExecutionBindingContent ∈ texts →
        binding'.fingerprint = binding.fingerprint →
          canonicalContent binding'.toExecutionBindingContent =
            canonicalContent binding.toExecutionBindingContent

/-- **Bindings are faithful to the facts they are made of**, exactly when what ties under the
comparisons of their lists agrees. -/
theorem execution_binding_faithful_iff (platform : BindingPlatform)
    (hprints : PrintsApart platform.numberText) (hlocale : Std.TransCmp platform.localeCompare)
    (texts : Set JsString) (hsha : Set.InjOn platform.sha256 texts)
    (identity : ExecutionBindingIdentity) (content : ExecutionBindingContent)
    (htexts : ∀ content', ContentRearranged content content' →
      bindingText platform identity (normalForm platform content') ∈ texts)
    (binding : ExecutionBinding)
    (hcreate : createExecutionBinding platform identity content = .ok binding) :
    BindingFaithful platform texts identity content binding ↔ TiesAgree platform content := by
  obtain ⟨hidentity, hvalid, rfl⟩ := createExecutionBinding_eq_ok.mp hcreate
  have htext := htexts content
    ⟨rfl, .of_perm PermissionRearranged.refl (.refl _), .refl _, .refl _⟩
  rw [← canonical_rearranged_iff hprints content]
  -- of the same facts a binding is made, and its fingerprint tells its content
  have hrearranged : ∀ content', ContentRearranged content content' →
      (createExecutionBinding platform identity content' =
        .ok (createdBinding platform identity content')) ∧
      ((createdBinding platform identity content').fingerprint =
          (createdBinding platform identity content).fingerprint ↔
        canonicalContent (normalForm platform content') =
          canonicalContent (normalForm platform content)) := by
    intro content' h
    refine ⟨createExecutionBinding_eq_ok.mpr ⟨hidentity, hvalid.rearranged h, rfl⟩, ?_⟩
    refine (executionBindingFingerprint_eq_iff hsha (htexts content' h) htext).trans ?_
    rw [bindingText_eq_iff hprints]
    exact ⟨fun hboth => hboth.2, fun hcontent => ⟨rfl, hcontent⟩⟩
  constructor
  · intro hfaithful content' h
    obtain ⟨hcreate', hfingerprint⟩ := hrearranged content' h
    obtain ⟨binding', hbinding', hsame⟩ := hfaithful.orderFree content' h
    rw [hcreate', ok.injEq] at hbinding'
    rw [← hbinding'] at hsame
    exact hfingerprint.mp hsame
  · intro hsame
    refine ⟨assertExecutionBindingMatches_created identity hvalid, fun content' h => ?_, ?_⟩
    · obtain ⟨hcreate', hfingerprint⟩ := hrearranged content' h
      exact ⟨_, hcreate', hfingerprint.mpr (hsame content' h)⟩
    · intro identity' content' binding' hcreate' htext' hfingerprint
      obtain ⟨-, -, rfl⟩ := createExecutionBinding_eq_ok.mp hcreate'
      have htextEq := (executionBindingFingerprint_eq_iff hsha htext' htext).mp hfingerprint
      exact ((bindingText_eq_iff hprints).mp htextEq).2

end Fingerprints

def threadIdentity : ExecutionBindingIdentity where
  applicationId := js "main"
  pluginId := js "tasks"
  componentId := js "worker"
  target :=
    { instanceId := js "main.tasks.worker"
      deploymentGeneration := js "1"
      artifactDigest := js "sha256:" ++ List.replicate 64 48
      executor := ⟨js "thread", .thread, none⟩ }

/-- Two grants, nothing in order. -/
def unorderedGrants : ExecutionBindingContent where
  configuration := .null
  permissionGrants := [.secret [js "zeta", js "alpha"], .executor [.thread, .process]]
  capabilityDefinitions := []
  capabilityBindings := []

/-- A platform that compares by units and gives every text one digest. -/
def plainPlatform : BindingPlatform where
  numberText := naturalText
  sha256 := fun _ => Vector.replicate 64 0
  localeCompare := compareText

theorem parseBindingIdentity_threadIdentity :
    parseBindingIdentity threadIdentity = .ok threadIdentity := by
  decide

theorem unorderedGrants_ties : TiesAgree plainPlatform unorderedGrants where
  rows := by
    intro grant hgrant
    rcases List.mem_pair.mp hgrant with rfl | rfl <;> trivial
  permissionGrants := fun _ _ _ _ h => eq_of_compareText h
  capabilityDefinitions := nofun
  capabilityBindings := nofun

theorem execution_binding_faithful_unorderedGrants :
    BindingFaithful plainPlatform
      {bindingText plainPlatform threadIdentity (normalForm plainPlatform unorderedGrants)}
      threadIdentity unorderedGrants
      (createdBinding plainPlatform threadIdentity unorderedGrants) := by
  have hlocale : Std.TransCmp plainPlatform.localeCompare :=
    inferInstanceAs (Std.TransCmp compareText)
  refine (execution_binding_faithful_iff plainPlatform naturalText_printsApart hlocale _
    (Set.injOn_singleton _ _) threadIdentity unorderedGrants (fun content' h => ?_) _
    (createExecutionBinding_eq_ok.mpr ⟨parseBindingIdentity_threadIdentity,
      ⟨by decide, nofun, nofun⟩, rfl⟩)).mpr unorderedGrants_ties
  have hcontent := (canonical_rearranged_iff naturalText_printsApart unorderedGrants).mpr
    unorderedGrants_ties content' h
  exact (bindingText_eq_iff naturalText_printsApart).mpr ⟨rfl, hcontent⟩

/-- One root twice, to be read and to be written, in either order. -/
def dataRoots (first second : FilesystemAccess) : ExecutionBindingContent where
  configuration := .null
  permissionGrants := [.filesystem [⟨js "/data", [first]⟩, ⟨js "/data", [second]⟩]]
  capabilityDefinitions := []
  capabilityBindings := []

/-- The platform with a hash that tells one text from all others. -/
def telling (platform : BindingPlatform) (text : JsString) : BindingPlatform :=
  { platform with
    sha256 := fun other =>
      if other = text then Vector.replicate 64 0 else Vector.replicate 64 1 }

theorem telling_self (platform : BindingPlatform) (text : JsString) :
    (telling platform text).sha256 text = Vector.replicate 64 0 := if_pos rfl

theorem telling_other (platform : BindingPlatform) {text other : JsString} (h : other ≠ text) :
    (telling platform text).sha256 other = Vector.replicate 64 1 := if_neg h

theorem fingerprint_telling (platform : BindingPlatform) (text : JsString)
    (identity : ExecutionBindingIdentity) (content : ExecutionBindingContent) :
    (createdBinding (telling platform text) identity content).fingerprint =
      ((telling platform text).sha256
        (bindingText platform identity (normalForm platform content))).toList.map hexDigit := rfl

theorem fingerprint_telling_ne {platform : BindingPlatform} {identity : ExecutionBindingIdentity}
    {content content' : ExecutionBindingContent} {text : JsString}
    (htext : bindingText platform identity (normalForm platform content) = text)
    (h : bindingText platform identity (normalForm platform content') ≠ text) :
    (createdBinding (telling platform text) identity content').fingerprint ≠
      (createdBinding (telling platform text) identity content).fingerprint := by
  intro hsame
  rw [fingerprint_telling, fingerprint_telling] at hsame
  have hdigest := Vector.toList_inj.mp (List.map_injective_iff.mpr hexDigit_injective hsame)
  rw [htext, telling_self, telling_other platform h] at hdigest
  revert hdigest
  decide

theorem normalForm_dataRoots (first second : FilesystemAccess) :
    (normalForm plainPlatform (dataRoots first second)).permissionGrants =
      [.filesystem [⟨js "/data", [first]⟩, ⟨js "/data", [second]⟩]] := by
  cases first <;> cases second <;> rfl

theorem bindingText_dataRoots_ne :
    bindingText plainPlatform threadIdentity (normalForm plainPlatform (dataRoots .write .read)) ≠
      bindingText plainPlatform threadIdentity
        (normalForm plainPlatform (dataRoots .read .write)) := by
  intro h
  have hcontent := ((bindingText_eq_iff naturalText_printsApart).mp h).2
  have hgrants := (serializeWireValue_content_iff.mp hcontent).2.1
  rw [normalForm_dataRoots, normalForm_dataRoots, List.map_cons, List.map_cons,
    List.cons.injEq, serializeWireValue_filesystem_iff] at hgrants
  exact absurd hgrants.1 (by decide)

/-- A platform whose hash tells the text for the roots in one order from all others. -/
def rootsPlatform : BindingPlatform :=
  telling plainPlatform (bindingText plainPlatform threadIdentity
    (normalForm plainPlatform (dataRoots .read .write)))

/-- The fingerprint keeps the order of roots that tie. -/
theorem createExecutionBinding_keeps_order : ∃ binding binding',
    ContentRearranged (dataRoots .read .write) (dataRoots .write .read) ∧
    createExecutionBinding rootsPlatform threadIdentity (dataRoots .read .write) = .ok binding ∧
    createExecutionBinding rootsPlatform threadIdentity (dataRoots .write .read) = .ok binding' ∧
    binding'.fingerprint ≠ binding.fingerprint := by
  have hrearranged : ContentRearranged (dataRoots .read .write) (dataRoots .write .read) :=
    ⟨rfl, ⟨_, .cons (.filesystem (.of_perm RootRearranged.refl (.swap _ _ _))) .nil, .refl _⟩,
      .refl _, .refl _⟩
  have hvalid : ValidContent (dataRoots .read .write) := ⟨by decide, nofun, nofun⟩
  refine ⟨_, _, hrearranged,
    createExecutionBinding_eq_ok.mpr ⟨parseBindingIdentity_threadIdentity, hvalid, rfl⟩,
    createExecutionBinding_eq_ok.mpr
      ⟨parseBindingIdentity_threadIdentity, hvalid.rearranged hrearranged, rfl⟩, ?_⟩
  exact fingerprint_telling_ne rfl bindingText_dataRoots_ne

end ExecutionBindings

end TegoNext
