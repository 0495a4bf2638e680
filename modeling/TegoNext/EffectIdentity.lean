/-
The identities of effects are faithful.

An effect of the reconciler is named by the deployment, the component, the generation, the
activation and its own kind; the instance it works on by all of these but the kind. The names are
joined with dots when they are short and cut and hashed when they are not. SHA-256 has to keep the
texts at hand apart, nothing more.
-/
import TegoNext.StableIdentity

set_option autoImplicit false

namespace TegoNext

open Text List

/-! ## The parser -/

/-- `parseIdentity`, which `parseOperationId` and `parseMessageId` call. -/
def parseIdentity (value : JsString) : Option PortableId :=
  if h : isPortableName value = true then some ⟨value, h⟩ else none

theorem parseIdentity_text (id : PortableId) : parseIdentity id.text = some id :=
  dif_pos id.portable

def effectIdentities (sha256 : Sha256) (deployment : PluginDeployment) (componentId : PortableId)
    (kind : ReconcileEffectKind) : Option Activation → EffectIdentities
  | none => legacyReconcileEffectIdentities sha256 deployment componentId kind
  | some activation => reconcileEffectIdentities sha256 deployment componentId kind activation

section Effect

variable (sha256 : Sha256) (deployment : PluginDeployment) (componentId : PortableId)
  (kind : ReconcileEffectKind) (activation : Option Activation)

/-! ## What the identities are made from -/

def instancePartsOf : List JsString :=
  instanceParts deployment.applicationId deployment.pluginId componentId deployment.generation
    activation

def effectPartsOf : List JsString :=
  js "reconcile" :: instancePartsOf deployment componentId activation ++ [js kind.text]

/-- The texts that are hashed if the identities are too long. -/
def hashedTexts : List JsString :=
  [jsonTexts (instancePartsOf deployment componentId activation),
    jsonTexts (effectPartsOf deployment componentId kind activation)]

theorem effectIdentities_instanceId :
    (effectIdentities sha256 deployment componentId kind activation).instanceId =
      portableStableId sha256 (instancePartsOf deployment componentId activation) := by
  cases activation <;> rfl

theorem effectIdentities_operationId :
    (effectIdentities sha256 deployment componentId kind activation).operationId.text =
      portableStableId sha256 (effectPartsOf deployment componentId kind activation) := by
  cases activation <;> rfl

theorem effectIdentities_messageId :
    (effectIdentities sha256 deployment componentId kind activation).messageId =
      (effectIdentities sha256 deployment componentId kind activation).operationId := by
  cases activation <;> rfl

theorem nameText_instancePartsOf :
    ∀ part ∈ instancePartsOf deployment componentId activation, NameText part :=
  nameText_instanceParts _ _ _ _ _

theorem nameText_effectPartsOf :
    ∀ part ∈ effectPartsOf deployment componentId kind activation, NameText part := by
  intro part hpart
  rcases mem_append.mp hpart with hfront | hlast
  · rcases mem_cons.mp hfront with rfl | hinstance
    · show ∀ u ∈ js "reconcile", isNameUnit u = true
      exact all_eq_true.mp (by decide)
    · exact nameText_instancePartsOf deployment componentId activation part hinstance
  · rw [mem_singleton.mp hlast]
    cases kind <;> exact all_eq_true.mp (by decide)

theorem instanceId_portable :
    isPortableName (portableStableId sha256 (instancePartsOf deployment componentId activation)) =
      true := by
  have hportable := deployment.applicationId.portable
  cases hhead : deployment.applicationId.text with
  | nil =>
    rw [hhead] at hportable
    cases hportable
  | cons u rest =>
    rw [hhead] at hportable
    simp only [isPortableName, Bool.and_eq_true] at hportable
    exact portableStableId_portable sha256 (by rw [hhead]; rfl) hportable.1.1
      (nameText_instancePartsOf deployment componentId activation)

theorem notDigest_kind : NotDigest (js kind.text) := by
  intro digest h
  have hlen := congrArg List.length h
  rw [length_map, Vector.length_toList] at hlen
  have hkind : (escapePart (js kind.text)).length ≤ 7 := by
    cases kind <;> decide
  omega

end Effect

/-! ## Effects of one identity -/

section Pair

variable {sha256 : Sha256} {deployment deployment' : PluginDeployment}
  {componentId componentId' : PortableId} {kind kind' : ReconcileEffectKind}
  {activation activation' : Option Activation}

def SameInstance (deployment deployment' : PluginDeployment) (componentId componentId' : PortableId)
    (activation activation' : Option Activation) : Prop :=
  deployment.applicationId = deployment'.applicationId ∧
    deployment.pluginId = deployment'.pluginId ∧ componentId = componentId' ∧
      deployment.generation = deployment'.generation ∧ activation = activation'

variable (hsha : KeepsApart sha256 (hashedTexts deployment componentId kind activation ++
  hashedTexts deployment' componentId' kind' activation'))
include hsha

theorem sameInstance_of_instanceId
    (h : portableStableId sha256 (instancePartsOf deployment componentId activation) =
      portableStableId sha256 (instancePartsOf deployment' componentId' activation')) :
    SameInstance deployment deployment' componentId componentId' activation activation' := by
  apply instanceIdentity_inj sha256 _ h
  apply hsha
  · exact mem_append_left _ mem_cons_self
  · exact mem_append_right _ mem_cons_self

theorem sameEffect_of_operationId
    (h : portableStableId sha256 (effectPartsOf deployment componentId kind activation) =
      portableStableId sha256 (effectPartsOf deployment' componentId' kind' activation')) :
    SameInstance deployment deployment' componentId componentId' activation activation' ∧
      kind = kind' := by
  have hparts : effectPartsOf deployment componentId kind activation =
      effectPartsOf deployment' componentId' kind' activation' := by
    apply portableStableId_inj sha256 (cons_ne_nil _ _) (cons_ne_nil _ _)
      (nameText_effectPartsOf deployment componentId kind activation)
      (nameText_effectPartsOf deployment' componentId' kind' activation')
      (notDigest_kind kind) (notDigest_kind kind') _ h
    apply hsha
    · exact mem_append_left _ (mem_cons_of_mem _ mem_cons_self)
    · exact mem_append_right _ (mem_cons_of_mem _ mem_cons_self)
  -- the kind is the last part, and what stands between it and the first one names the instance
  obtain ⟨hfront, hkind⟩ := append_inj' hparts rfl
  refine ⟨instanceParts_inj (List.cons.inj hfront).2, ?_⟩
  have htext := (List.cons.inj hkind).1
  cases kind <;> cases kind' <;> first | rfl | exact absurd htext (by decide)

end Pair

/-- **Effect identities are faithful.** The parsers accept them, and two effects with one
instance identity are of one instance; with one operation or message identity, of one kind as
well. A legacy effect is one without an activation. -/
theorem effectIdentities_faithful (sha256 : Sha256) (deployment deployment' : PluginDeployment)
    (componentId componentId' : PortableId) (kind kind' : ReconcileEffectKind)
    (activation activation' : Option Activation)
    (hsha : KeepsApart sha256 (hashedTexts deployment componentId kind activation ++
      hashedTexts deployment' componentId' kind' activation')) :
    let ids := effectIdentities sha256 deployment componentId kind activation
    let ids' := effectIdentities sha256 deployment' componentId' kind' activation'
    let effect := portableStableId sha256 (effectPartsOf deployment componentId kind activation)
    ((parseIdentity ids.instanceId).isSome = true ∧
      parseIdentity effect = some ids.operationId ∧ parseIdentity effect = some ids.messageId) ∧
    (ids.instanceId = ids'.instanceId →
      SameInstance deployment deployment' componentId componentId' activation activation') ∧
    (ids.operationId = ids'.operationId ∨ ids.messageId = ids'.messageId →
      SameInstance deployment deployment' componentId componentId' activation activation' ∧
        kind = kind') := by
  intro ids ids' effect
  have hinstance : ids.instanceId =
      portableStableId sha256 (instancePartsOf deployment componentId activation) :=
    effectIdentities_instanceId sha256 deployment componentId kind activation
  have hinstance' : ids'.instanceId =
      portableStableId sha256 (instancePartsOf deployment' componentId' activation') :=
    effectIdentities_instanceId sha256 deployment' componentId' kind' activation'
  have hoperation : ids.operationId.text = effect :=
    effectIdentities_operationId sha256 deployment componentId kind activation
  have hoperation' : ids'.operationId.text =
      portableStableId sha256 (effectPartsOf deployment' componentId' kind' activation') :=
    effectIdentities_operationId sha256 deployment' componentId' kind' activation'
  have hmessage : ids.messageId = ids.operationId :=
    effectIdentities_messageId sha256 deployment componentId kind activation
  have hmessage' : ids'.messageId = ids'.operationId :=
    effectIdentities_messageId sha256 deployment' componentId' kind' activation'
  refine ⟨⟨?_, ?_, ?_⟩, fun h => ?_, fun h => ?_⟩
  · rw [hinstance]
    exact Option.isSome_of_eq_some
      (dif_pos (instanceId_portable sha256 deployment componentId activation))
  · rw [← hoperation]
    exact parseIdentity_text ids.operationId
  · rw [← hoperation, hmessage]
    exact parseIdentity_text ids.operationId
  · rw [hinstance, hinstance'] at h
    exact sameInstance_of_instanceId hsha h
  · have hids : ids.operationId = ids'.operationId := by
      rw [hmessage, hmessage'] at h
      exact h.elim id id
    apply sameEffect_of_operationId hsha
    rw [← hoperation', ← hids, hoperation]

def stopDeployment : PluginDeployment where
  applicationId := ⟨js "app", by decide⟩
  pluginId := ⟨js "plugin", by decide⟩
  artifactDigest := js "sha256:00"
  generation := 1
  state := .active

def mainComponent : PortableId := ⟨js "main", by decide⟩

/-- The digests of what the identities of its stop are made from, the legacy ones first. -/
def stopDigests : Sha256 := fun text =>
  if text = js "[\"app\",\"plugin\",\"main\",\"g1\"]" then
    #v[8, 2, 12, 9, 7, 2, 11, 3, 13, 2, 4, 13, 14, 4, 7, 1,
      10, 13, 11, 5, 14, 0, 2, 1, 12, 6, 9, 5, 10, 12, 0, 11,
      15, 12, 4, 2, 2, 15, 8, 1, 12, 14, 2, 0, 0, 10, 4, 5,
      2, 13, 10, 13, 1, 13, 1, 13, 1, 5, 5, 12, 6, 4, 1, 6]
  else if text = js "[\"reconcile\",\"app\",\"plugin\",\"main\",\"g1\",\"stop\"]" then
    #v[6, 2, 11, 11, 9, 3, 0, 8, 3, 4, 15, 2, 4, 15, 5, 15,
      12, 7, 7, 0, 4, 6, 13, 2, 13, 3, 10, 0, 1, 15, 4, 15,
      0, 3, 11, 0, 3, 10, 10, 11, 1, 5, 12, 13, 10, 2, 13, 1,
      6, 10, 8, 12, 3, 3, 13, 13, 12, 7, 12, 9, 13, 11, 4, 3]
  else if text = js "[\"app\",\"plugin\",\"main\",\"g1\",\"a1\"]" then
    #v[13, 12, 9, 2, 13, 1, 14, 4, 14, 13, 6, 13, 13, 9, 5, 14,
      12, 7, 6, 7, 4, 5, 0, 0, 11, 14, 7, 4, 2, 15, 1, 14,
      10, 8, 0, 3, 12, 7, 5, 15, 15, 3, 9, 3, 8, 0, 5, 15,
      15, 12, 9, 0, 11, 0, 12, 15, 0, 10, 3, 1, 2, 4, 10, 14]
  else
    #v[4, 8, 8, 3, 3, 10, 13, 2, 3, 15, 8, 9, 6, 4, 0, 5,
      11, 6, 4, 15, 12, 0, 6, 3, 6, 4, 9, 0, 9, 15, 12, 2,
      14, 9, 0, 2, 11, 3, 13, 6, 2, 9, 1, 2, 0, 6, 10, 13,
      12, 5, 2, 15, 4, 5, 1, 15, 10, 6, 14, 10, 2, 1, 8, 1]

/-- A legacy stop and the stop of the first activation are told apart. -/
theorem effectIdentities_faithful_stop :
    (effectIdentities stopDigests stopDeployment mainComponent .stop none).operationId ≠
      (effectIdentities stopDigests stopDeployment mainComponent .stop (some 1)).operationId := by
  intro h
  have hfaithful := effectIdentities_faithful stopDigests stopDeployment stopDeployment
    mainComponent mainComponent .stop .stop none (some 1) (by unfold KeepsApart; decide +kernel)
  obtain ⟨-, -, -, -, hactivation⟩ := (hfaithful.2.2 (.inl h)).1
  cases hactivation

end TegoNext
