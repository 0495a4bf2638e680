/-
The capability resolver does not depend on the order of its input.

A repeated key is reported at every meeting but the first, so the reports of a loop over keys
depend on how often each key occurs and not on where; reports that the sorting does not tell apart
are the same. An input that reports nothing has distinct keys throughout: then its sorted
deployments and requirements are one list whatever their order was.
-/
import TegoNext.CapabilitySoundness

set_option autoImplicit false

namespace TegoNext

open Text List

/-! ## Loops that report repeated keys -/

section Repeats

variable {α κ δ : Type} [BEq κ] [LawfulBEq κ] {key : α → κ} {report more : α → List δ}
  {run : List κ → List α → List δ}

variable (hnil : ∀ seen, run seen [] = [])
  (hcons : ∀ seen a rest, run seen (a :: rest) =
    (if seen.contains (key a) then report a else []) ++ more a ++ run (key a :: seen) rest)
include hcons

include hnil in
theorem run_congr_seen (values : List α) {seen seen' : List κ} (h : ∀ k, k ∈ seen ↔ k ∈ seen') :
    run seen values = run seen' values := by
  induction values generalizing seen seen' with
  | nil => rw [hnil, hnil]
  | cons a rest ih =>
    have hsame : seen.contains (key a) = seen'.contains (key a) := by
      rw [Bool.eq_iff_iff, contains_iff_mem, contains_iff_mem]
      exact h _
    rw [hcons, hcons, hsame, @ih (key a :: seen) (key a :: seen') fun k => by
      rw [mem_cons, mem_cons, h k]]

include hnil in
/-- Where the report of a repetition depends on the key only, the reports do not depend on the
order of the list. -/
theorem run_perm (hreport : ∀ a b, key a = key b → report a = report b) {values values' : List α}
    (h : values.Perm values') (seen : List κ) : (run seen values).Perm (run seen values') := by
  induction h generalizing seen with
  | nil => exact .refl _
  | cons a _ ih =>
    rw [hcons, hcons]
    exact (ih _).append_left _
  | swap a b rest =>
    have hrest : run (key b :: key a :: seen) rest = run (key a :: key b :: seen) rest :=
      run_congr_seen hnil hcons rest fun k => by
        simp only [mem_cons]
        tauto
    rw [hcons, hcons, hcons, hcons, hrest]
    -- the second of two equal keys is reported, whichever comes first
    have hheads : ((if seen.contains (key b) then report b else []) ++
        (if (key b :: seen).contains (key a) then report a else [])).Perm
        ((if seen.contains (key a) then report a else []) ++
          (if (key a :: seen).contains (key b) then report b else [])) := by
      by_cases hkeys : key a = key b
      · rw [hkeys, hreport a b hkeys]
      rw [contains_cons, contains_cons, beq_false_of_ne hkeys,
        beq_false_of_ne (Ne.symm hkeys), Bool.false_or, Bool.false_or]
      exact perm_append_comm
    classical
    rw [perm_iff_count] at hheads ⊢
    intro d
    have hcount := hheads d
    simp only [count_append] at hcount ⊢
    omega
  | trans _ _ ih ih' => exact (ih seen).trans (ih' seen)

omit [LawfulBEq κ] in
/-- The same where each element is replaced by one with the same key that adds the same
reports. -/
theorem run_forall₂ {R : α → α → Prop}
    (hkey : ∀ a b, R a b → key a = key b) (hreport : ∀ a b, R a b → report a = report b)
    (hmore : ∀ a b, R a b → (more a).Perm (more b)) {values values' : List α}
    (h : List.Forall₂ R values values') (seen : List κ) :
    (run seen values).Perm (run seen values') := by
  induction h generalizing seen with
  | nil => exact .refl _
  | @cons a b _ _ hab _ ih =>
    rw [hcons, hcons, hkey a b hab, hreport a b hab]
    exact ((hmore a b hab).append_left _).append (ih _)

include hnil in
omit [LawfulBEq κ] in
theorem forall_mem_run {P : δ → Prop}
    (hreport : ∀ a, ∀ d ∈ report a, P d) (hmore : ∀ a, ∀ d ∈ more a, P d) {values : List α}
    {seen : List κ} : ∀ d ∈ run seen values, P d := by
  induction values generalizing seen with
  | nil =>
    rw [hnil]
    exact fun _ h => absurd h not_mem_nil
  | cons a rest ih =>
    intro d hd
    rw [hcons, mem_append, mem_append] at hd
    rcases hd with (hd | hd) | hd
    · split at hd
      · exact hreport a d hd
      · cases hd
    · exact hmore a d hd
    · exact ih d hd

end Repeats

/-! ## Sorting -/

/-- `sortBy` depends on the elements only, as long as equal keys are of equal elements. -/
theorem sortBy_eq_of_perm {α : Type} {compare : α → α → Ordering} [Std.TransCmp compare]
    {values values' : List α} (hperm : values.Perm values')
    (heq : ∀ a ∈ values, ∀ b ∈ values, compare a b = .eq → a = b) :
    sortBy compare values = sortBy compare values' :=
  insertionSort_eq_of_perm hperm heq

instance : Std.TransCmp compareIdentity :=
  have := transCmp_comap compareText fun identity : PluginDeploymentIdentity =>
    identity.applicationId.text
  have := transCmp_comap compareText fun identity : PluginDeploymentIdentity =>
    identity.pluginId.text
  inferInstanceAs (Std.TransCmp (compareLex
    (fun left right : PluginDeploymentIdentity =>
      compareText left.applicationId.text right.applicationId.text)
    fun left right : PluginDeploymentIdentity =>
      compareText left.pluginId.text right.pluginId.text))

theorem eq_of_compareIdentity {left right : PluginDeploymentIdentity}
    (h : compareIdentity left right = .eq) : left = right := by
  rw [compareIdentity, Ordering.then_eq_eq] at h
  obtain ⟨happlication, hplugin⟩ := h
  obtain ⟨_, _⟩ := left
  obtain ⟨_, _⟩ := right
  rw [PluginDeploymentIdentity.mk.injEq]
  exact ⟨PortableId.ext (eq_of_compareText happlication),
    PortableId.ext (eq_of_compareText hplugin)⟩

instance : Std.TransCmp compareDiagnostic :=
  have := transCmp_comap compareText fun d : CapabilityResolutionDiagnostic => js d.code.text
  have := transCmp_comap compareText fun d : CapabilityResolutionDiagnostic =>
    (d.consumer.map identityKey).getD []
  have := transCmp_comap compareText fun d : CapabilityResolutionDiagnostic =>
    (d.capability.map PortableId.text).getD []
  inferInstanceAs (Std.TransCmp (compareLex
    (fun left right : CapabilityResolutionDiagnostic =>
      compareText (js left.code.text) (js right.code.text))
    (compareLex
      (fun left right : CapabilityResolutionDiagnostic =>
        compareText ((left.consumer.map identityKey).getD [])
          ((right.consumer.map identityKey).getD []))
      fun left right : CapabilityResolutionDiagnostic =>
        compareText ((left.capability.map PortableId.text).getD [])
          ((right.capability.map PortableId.text).getD []))))

/-! ## Inputs in another order -/

/-- A deployment with its provisions and its requirements in another order. -/
structure CapabilityResolutionDeployment.Permuted
    (deployment deployment' : CapabilityResolutionDeployment) : Prop where
  identity : deployment.identity = deployment'.identity
  activated : deployment.activated = deployment'.activated
  ready : deployment.ready = deployment'.ready
  bindings : deployment.bindings = deployment'.bindings
  provides : deployment.provides.Perm deployment'.provides
  requires : deployment.requires.Perm deployment'.requires

/-- An input with its deployments, what each of them provides and requires, and its previous
bindings in another order. -/
structure CapabilityResolutionInput.Permuted (input input' : CapabilityResolutionInput) : Prop where
  deployments : ∃ deployments, input.deployments.Perm deployments ∧
    List.Forall₂ CapabilityResolutionDeployment.Permuted deployments input'.deployments
  previousBindings : input.previousBindings.Perm input'.previousBindings

/-! ## The reports on the input -/

section Reports

/-- A text without `@` is told apart from what follows an `@`. -/
theorem providerKey_injective {left right : CapabilityResolutionProvision}
    (h : left.name.text ++ js "@" ++ left.protocolVersion =
      right.name.text ++ js "@" ++ right.protocolVersion) : left = right := by
  have hat : ∀ id : PortableId, (64 : UInt16) ∉ id.text := fun id hmem =>
    absurd (NameText.of_portable id 64 hmem) (by decide)
  rw [append_assoc, append_assoc] at h
  obtain ⟨hname, hversion⟩ := append_cons_inj_of_first (hat left.name) (hat right.name) h
  obtain ⟨_, _⟩ := left
  obtain ⟨_, _⟩ := right
  rw [CapabilityResolutionProvision.mk.injEq]
  exact ⟨PortableId.ext hname, hversion⟩

theorem providerDiagnostics_perm (identity : PluginDeploymentIdentity)
    {provides provides' : List CapabilityResolutionProvision} (h : provides.Perm provides') :
    (providerDiagnostics identity [] provides).Perm (providerDiagnostics identity [] provides') := by
  refine run_perm (fun _ => rfl) (fun seen provider rest => rfl) (fun a b hkey => ?_) h []
  rw [providerKey_injective hkey]

theorem requirementDiagnostics_perm (identity : PluginDeploymentIdentity)
    {requires requires' : List PluginCapabilityRequirement} (h : requires.Perm requires') :
    (requirementDiagnostics identity [] requires).Perm
      (requirementDiagnostics identity [] requires') := by
  refine run_perm (fun _ => rfl) (fun seen requirement rest => rfl) (fun a b hkey => ?_) h []
  replace hkey : a.name = b.name := hkey
  rw [hkey]

theorem any_eq_of_perm {α : Type} {values values' : List α} (h : values.Perm values')
    (p : α → Bool) : values.any p = values'.any p := by
  rw [Bool.eq_iff_iff, any_eq_true, any_eq_true]
  simp only [h.mem_iff]

variable {deployment deployment' : CapabilityResolutionDeployment}

theorem bindingDiagnostics_permuted (h : deployment.Permuted deployment') :
    bindingDiagnostics deployment = bindingDiagnostics deployment' := by
  have hnames : ∀ binding : CapabilityName × PluginDeploymentIdentity,
      (deployment.requires.any fun requirement => requirement.name == binding.1) =
        deployment'.requires.any fun requirement => requirement.name == binding.1 :=
    fun binding => any_eq_of_perm h.requires _
  unfold bindingDiagnostics
  rw [h.identity, h.bindings]
  simp only [hnames]

variable {deployments : List CapabilityResolutionDeployment}

theorem deploymentDiagnostics_perm {deployments' : List CapabilityResolutionDeployment}
    (h : deployments.Perm deployments') :
    (deploymentDiagnostics [] deployments).Perm (deploymentDiagnostics [] deployments') := by
  refine run_perm (fun _ => rfl) (fun seen deployment rest => rfl) (fun a b hkey => ?_) h []
  rw [identityKey_injective hkey]

theorem deploymentDiagnostics_permuted
    {deployments' : List CapabilityResolutionDeployment}
    (h : List.Forall₂ CapabilityResolutionDeployment.Permuted deployments deployments') :
    (deploymentDiagnostics [] deployments).Perm (deploymentDiagnostics [] deployments') := by
  refine run_forall₂ (fun seen deployment rest => rfl) (fun a b hab => ?_) (fun a b hab => ?_)
    (fun a b hab => ?_) h []
  · rw [hab.identity]
  · rw [hab.identity]
  · rw [bindingDiagnostics_permuted hab, hab.identity]
    exact ((providerDiagnostics_perm _ hab.provides).append
      (requirementDiagnostics_perm _ hab.requires)).append_right _

/-- What the reports on deployments say. -/
def inputMessage : CapabilityResolutionDiagnosticCode → String
  | .CAPABILITY_DUPLICATE_DEPLOYMENT =>
    "Capability resolution input contains a duplicate deployment"
  | .CAPABILITY_DUPLICATE_PROVIDER => "Deployment contains a duplicate capability provider"
  | .CAPABILITY_PROTOCOL_VERSION_INVALID => "Capability provider protocol version is invalid"
  | .CAPABILITY_DUPLICATE_REQUIREMENT => "Deployment contains a duplicate capability requirement"
  | .CAPABILITY_PROTOCOL_RANGE_INVALID => "Capability requirement protocol range is invalid"
  | _ => "Explicit capability binding has no matching requirement"

/-- A report on a deployment: its code, its consumer and its capability say everything. -/
structure InputReport (d : CapabilityResolutionDiagnostic) : Prop where
  message : d.message = inputMessage d.code
  consumer : d.consumer.isSome
  capability : d.capability = none ↔ d.code = .CAPABILITY_DUPLICATE_DEPLOYMENT
  candidates : d.candidates = []

theorem inputReport_diagnostic {code : CapabilityResolutionDiagnosticCode}
    (hcode : code ≠ .CAPABILITY_DUPLICATE_DEPLOYMENT) (identity : PluginDeploymentIdentity)
    (capability : CapabilityName) :
    InputReport (diagnostic code (inputMessage code) (some identity) (some capability) []) where
  message := rfl
  consumer := rfl
  capability := iff_of_false nofun hcode
  candidates := rfl

theorem inputReport_of_mem {seen : List JsString} :
    ∀ d ∈ deploymentDiagnostics seen deployments, InputReport d := by
  have hsplit : ∀ {p : Prop} [Decidable p] {d d' : CapabilityResolutionDiagnostic},
      InputReport d' → d ∈ (if p then [] else [d']) → InputReport d := by
    intro p _ d d' hd' hd
    split at hd
    · cases hd
    · exact mem_singleton.mp hd ▸ hd'
  refine forall_mem_run (fun _ => rfl) (fun seen deployment rest => rfl) (fun a d hd => ?_)
    (fun a d hd => ?_)
  · rw [mem_singleton.mp hd]
    exact ⟨rfl, rfl, iff_of_true rfl rfl, rfl⟩
  · rcases mem_append.mp hd with hd | hd
    · rcases mem_append.mp hd with hd | hd
      · refine forall_mem_run (fun _ => rfl) (fun seen provider rest => rfl) (fun b d hd => ?_)
          (fun b d hd => ?_) d hd
        · rw [mem_singleton.mp hd]
          exact inputReport_diagnostic (by decide) a.identity b.name
        · exact hsplit (inputReport_diagnostic (by decide) a.identity b.name) hd
      · refine forall_mem_run (fun _ => rfl) (fun seen requirement rest => rfl) (fun b d hd => ?_)
          (fun b d hd => ?_) d hd
        · rw [mem_singleton.mp hd]
          exact inputReport_diagnostic (by decide) a.identity b.name
        · exact hsplit (inputReport_diagnostic (by decide) a.identity b.name) hd
    · obtain ⟨binding, _, rfl⟩ := mem_map.mp hd
      exact inputReport_diagnostic (by decide) a.identity binding.1

theorem code_text_injective {code code' : CapabilityResolutionDiagnosticCode}
    (h : js code.text = js code'.text) : code = code' := by
  let codes : List CapabilityResolutionDiagnosticCode :=
    [.CAPABILITY_AMBIGUOUS, .CAPABILITY_BINDING_UNKNOWN, .CAPABILITY_DUPLICATE_DEPLOYMENT,
      .CAPABILITY_DUPLICATE_PROVIDER, .CAPABILITY_DUPLICATE_PREVIOUS_BINDING,
      .CAPABILITY_DUPLICATE_REQUIREMENT, .CAPABILITY_EXPLICIT_PROVIDER_INCOMPATIBLE,
      .CAPABILITY_EXPLICIT_PROVIDER_MISSING, .CAPABILITY_EXPLICIT_PROVIDER_UNREADY,
      .CAPABILITY_PROTOCOL_RANGE_INVALID, .CAPABILITY_PROTOCOL_VERSION_INVALID,
      .CAPABILITY_REQUIRED_CYCLE, .CAPABILITY_REQUIRED_MISSING, .CAPABILITY_REQUIRED_UNAVAILABLE]
  have hall : ∀ code : CapabilityResolutionDiagnosticCode, code ∈ codes := by
    intro code
    cases code <;> decide
  have hnodup : (codes.map fun code => js code.text).Nodup := by decide +kernel
  exact inj_on_of_nodup_map hnodup (hall code) (hall code') h

theorem eq_of_compareDiagnostic {d d' : CapabilityResolutionDiagnostic} (hd : InputReport d)
    (hd' : InputReport d') (h : compareDiagnostic d d' = .eq) : d = d' := by
  unfold compareDiagnostic at h
  dsimp only at h
  rw [Ordering.then_eq_eq, Ordering.then_eq_eq] at h
  obtain ⟨hcode, hconsumer, hcapability⟩ := h
  have hcodes := code_text_injective (eq_of_compareText hcode)
  have hmessage := hd.message.trans ((congrArg inputMessage hcodes).trans hd'.message.symm)
  have hcandidates := hd.candidates.trans hd'.candidates.symm
  have hnone : d.capability = none ↔ d'.capability = none := by
    rw [hd.capability, hd'.capability, hcodes]
  obtain ⟨consumer, hsome⟩ := Option.isSome_iff_exists.mp hd.consumer
  obtain ⟨consumer', hsome'⟩ := Option.isSome_iff_exists.mp hd'.consumer
  rw [hsome, hsome'] at hconsumer
  have hconsumers := identityKey_injective (eq_of_compareText hconsumer)
  have hcapabilities : d.capability = d'.capability := by
    cases hcap : d.capability with
    | none => exact (hnone.mp hcap).symm
    | some capability =>
      cases hcap' : d'.capability with
      | none => exact absurd (hnone.mpr hcap') (by rw [hcap]; exact nofun)
      | some capability' =>
        rw [hcap, hcap'] at hcapability
        exact congrArg some (PortableId.ext (eq_of_compareText hcapability))
  obtain ⟨_, _, _, _, _⟩ := d
  obtain ⟨_, _, _, _, _⟩ := d'
  rw [CapabilityResolutionDiagnostic.mk.injEq]
  exact ⟨hcodes, hmessage, hsome.trans ((congrArg some hconsumers).trans hsome'.symm),
    hcapabilities, hcandidates⟩

end Reports

/-! ## What the resolver reads of a deployment -/

/-- Two deployments the resolver cannot tell apart. -/
structure SameView (deployment deployment' : CapabilityResolutionDeployment) : Prop where
  identity : deployment.identity = deployment'.identity
  activated : deployment.activated = deployment'.activated
  ready : deployment.ready = deployment'.ready
  bindings : deployment.bindings = deployment'.bindings
  compatible : ∀ requirement, compatibleProvisions deployment requirement =
    compatibleProvisions deployment' requirement
  provides : ∀ name : CapabilityName, (deployment.provides.any fun p => p.name == name) =
    deployment'.provides.any fun p => p.name == name
  requires : sortRequirements deployment.requires = sortRequirements deployment'.requires
  required : ∀ name : CapabilityName, (deployment.requires.find? fun r => r.name == name) =
    deployment'.requires.find? fun r => r.name == name

theorem find?_eq_of_perm {α κ : Type} [BEq κ] [LawfulBEq κ] (key : α → κ) {values values' : List α}
    (hperm : values.Perm values') (hnodup : (values.map key).Nodup) (k : κ) :
    values.find? (fun a => key a == k) = values'.find? fun a => key a == k := by
  have hnodup' := (hperm.map key).nodup_iff.mp hnodup
  cases hfind : values.find? (fun a => key a == k) with
  | none =>
    rw [find?_eq_none] at hfind
    exact (find?_eq_none.mpr fun a ha => hfind a (hperm.mem_iff.mpr ha)).symm
  | some a =>
    have hkey : key a = k := eq_of_beq (find?_some hfind :)
    rw [← hkey]
    exact (find?_of_nodup key hnodup' (hperm.mem_iff.mp (mem_of_find?_eq_some hfind))).symm

/-- The order of what a deployment provides and requires is not read, if it requires nothing
twice. -/
theorem CapabilityResolutionDeployment.Permuted.sameView
    {deployment deployment' : CapabilityResolutionDeployment}
    (h : deployment.Permuted deployment') (hnodup : (deployment.requires.map (·.name)).Nodup) :
    SameView deployment deployment' where
  identity := h.identity
  activated := h.activated
  ready := h.ready
  bindings := h.bindings
  compatible := by
    intro requirement
    have := transCmp_comap compareText CapabilityResolutionProvision.protocolVersion
    refine sortBy_eq_of_perm (h.provides.filter _) fun provision hmem provision' hmem' heq => ?_
    -- both have the name that is required
    rw [mem_filter, Bool.and_eq_true, beq_iff_eq] at hmem hmem'
    obtain ⟨_, _⟩ := provision
    obtain ⟨_, _⟩ := provision'
    rw [CapabilityResolutionProvision.mk.injEq]
    exact ⟨hmem.2.1.trans hmem'.2.1.symm, eq_of_compareText heq⟩
  provides name := any_eq_of_perm h.provides _
  requires := by
    have := transCmp_comap compareText fun requirement : PluginCapabilityRequirement =>
      requirement.name.text
    refine sortBy_eq_of_perm h.requires fun requirement hmem requirement' hmem' heq => ?_
    exact inj_on_of_nodup_map hnodup hmem hmem' (PortableId.ext (eq_of_compareText heq))
  required name := find?_eq_of_perm PluginCapabilityRequirement.name h.requires hnodup name

section Views

variable {deployments deployments' : List CapabilityResolutionDeployment}

theorem byIdentity_sameView (h : List.Forall₂ SameView deployments deployments')
    (identity : PluginDeploymentIdentity) :
    Option.Rel SameView (byIdentity deployments identity) (byIdentity deployments' identity) := by
  unfold byIdentity
  induction h with
  | nil => exact .none
  | @cons deployment deployment' _ _ hview _ ih =>
    rw [find?_cons, find?_cons, hview.identity]
    cases identityKey deployment'.identity == identityKey identity with
    | true => exact .some hview
    | false => exact ih

variable {consumer consumer' : CapabilityResolutionDeployment}

theorem attach_sameView {provider provider' : CapabilityResolutionDeployment}
    (hconsumer : SameView consumer consumer') (hprovider : SameView provider provider')
    (requirement : NormalizedCapabilityRequirement)
    (before : List CapabilityResolutionDiagnostic) :
    attach consumer provider requirement before = attach consumer' provider' requirement before := by
  unfold attach unbound edge
  rw [hprovider.compatible, hprovider.ready, hprovider.identity, hconsumer.identity]

section

variable (h : List.Forall₂ SameView deployments deployments')
include h

theorem resolveSelected_sameView (hconsumer : SameView consumer consumer')
    (requirement : NormalizedCapabilityRequirement) (selected : PluginDeploymentIdentity)
    (persistedOnly : Bool) :
    resolveSelected deployments consumer requirement selected persistedOnly =
      resolveSelected deployments' consumer' requirement selected persistedOnly := by
  have hfound : Option.Rel SameView
      ((byIdentity deployments selected).filter fun provider =>
        provider.identity.applicationId == consumer.identity.applicationId)
      ((byIdentity deployments' selected).filter fun provider =>
        provider.identity.applicationId == consumer'.identity.applicationId) := by
    have hbyIdentity := byIdentity_sameView h selected
    generalize byIdentity deployments selected = found at hbyIdentity ⊢
    generalize byIdentity deployments' selected = found' at hbyIdentity ⊢
    cases hbyIdentity with
    | none => exact .none
    | some hprovider =>
      rw [Option.filter_some, Option.filter_some, hprovider.identity, hconsumer.identity]
      split
      · exact .some hprovider
      · exact .none
  unfold resolveSelected
  generalize Option.filter _ (byIdentity deployments selected) = found at hfound ⊢
  generalize Option.filter _ (byIdentity deployments' selected) = found' at hfound ⊢
  cases hfound with
  | none =>
    rw [hconsumer.identity]
  | some hprovider =>
    dsimp only
    rw [hprovider.provides, hprovider.compatible, hprovider.ready, hprovider.identity,
      attach_sameView hconsumer hprovider, attach_sameView hconsumer hprovider, unbound, unbound,
      edge, edge, hconsumer.identity, hprovider.identity]

theorem compatibleDeployments_sameView (hconsumer : SameView consumer consumer')
    (requirement : NormalizedCapabilityRequirement) :
    List.Forall₂ SameView (compatibleDeployments deployments consumer requirement)
      (compatibleDeployments deployments' consumer' requirement) := by
  unfold compatibleDeployments
  induction h with
  | nil => exact .nil
  | @cons deployment deployment' _ _ hview _ ih =>
    rw [filter_cons, filter_cons, hview.identity, hview.compatible, hconsumer.identity]
    rw [hconsumer.identity] at ih
    split
    · exact .cons hview ih
    · exact ih

theorem map_identity_sameView : deployments.map (·.identity) = deployments'.map (·.identity) := by
  induction h with
  | nil => rfl
  | cons hview _ ih => rw [map_cons, map_cons, ih, hview.identity]

theorem identityOf_sameView (key : JsString) :
    (deployments.find? fun deployment => identityKey deployment.identity == key).map (·.identity) =
      (deployments'.find? fun deployment => identityKey deployment.identity == key).map
        (·.identity) := by
  induction h with
  | nil => rfl
  | @cons deployment deployment' _ _ hview _ ih =>
    rw [find?_cons, find?_cons, hview.identity]
    cases identityKey deployment'.identity == key with
    | true => exact congrArg some hview.identity
    | false => exact ih

theorem filter_ready_sameView :
    List.Forall₂ SameView (deployments.filter (·.ready)) (deployments'.filter (·.ready)) := by
  induction h with
  | nil => exact .nil
  | cons hview _ ih =>
    rw [filter_cons, filter_cons, hview.ready]
    split
    · exact .cons hview ih
    · exact ih

theorem resolveUnselected_sameView (hconsumer : SameView consumer consumer')
    (requirement : NormalizedCapabilityRequirement) :
    resolveUnselected deployments consumer requirement =
      resolveUnselected deployments' consumer' requirement := by
  have hcompatible := compatibleDeployments_sameView h hconsumer requirement
  unfold resolveUnselected
  generalize compatibleDeployments deployments consumer requirement = compatible at hcompatible ⊢
  generalize compatibleDeployments deployments' consumer' requirement = compatible' at hcompatible ⊢
  have hidentities := map_identity_sameView hcompatible
  have hready := filter_ready_sameView hcompatible
  dsimp only
  rw [hidentities, hconsumer.identity]
  cases hcompatible with
  | nil =>
    rw [unbound, unbound, hconsumer.identity]
  | @cons only only' others others' honly hothers =>
    have hempty : others.isEmpty = others'.isEmpty := by
      cases hothers <;> rfl
    generalize (only :: others).filter (·.ready) = ready at hready ⊢
    generalize (only' :: others').filter (·.ready) = ready' at hready ⊢
    have hnames := map_identity_sameView hready
    cases hready with
    | nil =>
      dsimp only
      rw [hempty, attach_sameView hconsumer honly, unbound, unbound, hconsumer.identity]
    | @cons provider provider' more more' hprovider hmore =>
      cases hmore with
      | nil => exact attach_sameView hconsumer hprovider requirement []
      | cons _ _ =>
        dsimp only
        rw [hnames]

theorem resolveRequirement_sameView
    {previousBindings previousBindings' : List PreviousCapabilityBinding}
    (hprevious : previousByRequirement previousBindings = previousByRequirement previousBindings')
    (hconsumer : SameView consumer consumer')
    (source : PluginCapabilityRequirement) :
    resolveRequirement deployments previousBindings consumer source =
      resolveRequirement deployments' previousBindings' consumer' source := by
  unfold resolveRequirement
  dsimp only
  rw [hprevious, hconsumer.identity, hconsumer.bindings]
  split
  · exact resolveSelected_sameView h hconsumer _ _ _
  · exact resolveUnselected_sameView h hconsumer _

theorem requirementOutcomes_sameView
    {previousBindings previousBindings' : List PreviousCapabilityBinding}
    (hprevious : previousByRequirement previousBindings = previousByRequirement previousBindings') :
    requirementOutcomes deployments previousBindings =
      requirementOutcomes deployments' previousBindings' := by
  suffices hconsumers : ∀ {consumers consumers' : List CapabilityResolutionDeployment},
      List.Forall₂ SameView consumers consumers' →
      (consumers.flatMap fun consumer => (sortRequirements consumer.requires).map
        (resolveRequirement deployments previousBindings consumer)) =
      consumers'.flatMap fun consumer => (sortRequirements consumer.requires).map
        (resolveRequirement deployments' previousBindings' consumer) from hconsumers h
  intro consumers consumers' hconsumers
  induction hconsumers with
  | nil => rfl
  | @cons consumer consumer' _ _ hconsumer _ ih =>
    have hresolve : resolveRequirement deployments previousBindings consumer =
        resolveRequirement deployments' previousBindings' consumer' :=
      funext fun source => resolveRequirement_sameView h hprevious hconsumer source
    rw [flatMap_cons, flatMap_cons, ih, hconsumer.requires, hresolve]

theorem providerLossDecision_sameView (previous : PreviousCapabilityBinding) :
    providerLossDecision deployments previous = providerLossDecision deployments' previous := by
  have hconsumer := byIdentity_sameView h previous.consumer
  have hprovider := byIdentity_sameView h previous.provider
  unfold providerLossDecision
  generalize byIdentity deployments previous.consumer = consumer at hconsumer ⊢
  generalize byIdentity deployments' previous.consumer = consumer' at hconsumer ⊢
  generalize byIdentity deployments previous.provider = provider at hprovider ⊢
  generalize byIdentity deployments' previous.provider = provider' at hprovider ⊢
  cases hconsumer with
  | none => rfl
  | @some consumer consumer' hconsumer =>
    have havailable : ∀ requirement, (provider.any fun provider => provider.ready &&
          !(compatibleProvisions provider requirement).isEmpty) =
        provider'.any fun provider => provider.ready &&
          !(compatibleProvisions provider requirement).isEmpty := by
      intro requirement
      cases hprovider with
      | none => rfl
      | some hview => rw [Option.any_some, Option.any_some, hview.ready, hview.compatible]
    simp only [Option.bind_eq_bind, Option.bind_some, hconsumer.required, hconsumer.activated,
      hconsumer.bindings, hconsumer.identity, havailable]

end

end Views

/-! ## The decisions on lost providers -/

/-- How `providerLossDecisions` sorts. -/
def compareDecision (left right : ProviderLossDecision) : Ordering :=
  (compareIdentity left.consumer right.consumer).then
    ((compareText left.capability.text right.capability.text).then
      ((compareIdentity left.provider right.provider).then
        (compareText (js left.action.text) (js right.action.text))))

instance : Std.TransCmp compareDecision :=
  have := transCmp_comap compareIdentity ProviderLossDecision.consumer
  have := transCmp_comap compareText fun d : ProviderLossDecision => d.capability.text
  have := transCmp_comap compareIdentity ProviderLossDecision.provider
  have := transCmp_comap compareText fun d : ProviderLossDecision => js d.action.text
  inferInstanceAs (Std.TransCmp (compareLex
    (fun left right : ProviderLossDecision => compareIdentity left.consumer right.consumer)
    (compareLex
      (fun left right : ProviderLossDecision =>
        compareText left.capability.text right.capability.text)
      (compareLex
        (fun left right : ProviderLossDecision => compareIdentity left.provider right.provider)
        fun left right : ProviderLossDecision =>
          compareText (js left.action.text) (js right.action.text)))))

theorem eq_of_compareDecision {left right : ProviderLossDecision}
    (h : compareDecision left right = .eq) : left = right := by
  unfold compareDecision at h
  rw [Ordering.then_eq_eq, Ordering.then_eq_eq, Ordering.then_eq_eq] at h
  obtain ⟨hconsumer, hcapability, hprovider, haction⟩ := h
  have hactions : ∀ action action' : ProviderLossAction,
      js action.text = js action'.text → action = action' := by
    intro action action'
    cases action <;> cases action' <;> decide
  obtain ⟨_, _, _, _⟩ := left
  obtain ⟨_, _, _, _⟩ := right
  rw [ProviderLossDecision.mk.injEq]
  exact ⟨hactions _ _ (eq_of_compareText haction), PortableId.ext (eq_of_compareText hcapability),
    eq_of_compareIdentity hconsumer, eq_of_compareIdentity hprovider⟩

theorem providerLossDecisions_permuted
    {deployments deployments' : List CapabilityResolutionDeployment}
    (h : List.Forall₂ SameView deployments deployments')
    {previousBindings previousBindings' : List PreviousCapabilityBinding}
    (hperm : previousBindings.Perm previousBindings') :
    providerLossDecisions deployments previousBindings =
      providerLossDecisions deployments' previousBindings' := by
  have hsame : providerLossDecision deployments = providerLossDecision deployments' :=
    funext fun previous => providerLossDecision_sameView h previous
  show sortBy compareDecision _ = sortBy compareDecision _
  rw [hsame]
  exact sortBy_eq_of_perm (hperm.filterMap _) fun _ _ _ _ heq => eq_of_compareDecision heq

/-! ## The law -/

section Law

variable {input input' : CapabilityResolutionInput}

theorem previous_keys_nodup {previousBindings : List PreviousCapabilityBinding}
    (h : (previousBindings.map fun binding => (binding.consumer, binding.capability)).Nodup) :
    (previousBindings.map fun binding =>
      requirementKey binding.consumer binding.capability).Nodup := by
  have hkeys := h.map (f := fun key : PluginDeploymentIdentity × CapabilityName =>
    requirementKey key.1 key.2) fun a b heq => by
      obtain ⟨hconsumer, hcapability⟩ := requirementKey_injective heq
      exact Prod.ext hconsumer hcapability
  rwa [map_map] at hkeys

theorem previousDiagnostics_eq_nil {previousBindings : List PreviousCapabilityBinding}
    (h : (previousBindings.map fun binding =>
      requirementKey binding.consumer binding.capability).Nodup) {seen : List JsString}
    (hseen : ∀ binding ∈ previousBindings,
      requirementKey binding.consumer binding.capability ∉ seen) :
    previousDiagnostics seen previousBindings = [] := by
  induction previousBindings generalizing seen with
  | nil => rfl
  | cons binding rest ih =>
    rw [map_cons, nodup_cons] at h
    have hfresh := hseen binding mem_cons_self
    rw [previousDiagnostics, if_neg (mt contains_iff_mem.mp hfresh), nil_append]
    refine ih h.2 fun other hother hmem => ?_
    rcases mem_cons.mp hmem with heq | hmem
    · exact h.1 (mem_map.mpr ⟨other, hother, heq⟩)
    · exact hseen other (mem_cons_of_mem _ hother) hmem

theorem inputDiagnostics_permuted (h : input.Permuted input')
    (hprevious : (input.previousBindings.map fun binding =>
      requirementKey binding.consumer binding.capability).Nodup) :
    inputDiagnostics (sortDeployments input.deployments) input.previousBindings =
      inputDiagnostics (sortDeployments input'.deployments) input'.previousBindings := by
  obtain ⟨deployments, hperm, hrelated⟩ := h.deployments
  have hprevious' := (h.previousBindings.map fun binding =>
    requirementKey binding.consumer binding.capability).nodup_iff.mp hprevious
  have htwice : ∀ deployments : List CapabilityResolutionDeployment,
      (sortDeployments (sortDeployments deployments)).Perm deployments :=
    fun deployments => (sortBy_perm _ _).trans (sortBy_perm _ _)
  unfold inputDiagnostics
  rw [previousDiagnostics_eq_nil hprevious fun _ _ => not_mem_nil,
    previousDiagnostics_eq_nil hprevious' fun _ _ => not_mem_nil, append_nil,
    append_nil]
  refine sortBy_eq_of_perm ?_ fun d hd d' hd' heq =>
    eq_of_compareDiagnostic (inputReport_of_mem d hd) (inputReport_of_mem d' hd') heq
  calc (deploymentDiagnostics [] (sortDeployments (sortDeployments input.deployments))).Perm
        (deploymentDiagnostics [] deployments) :=
        deploymentDiagnostics_perm ((htwice _).trans hperm)
    _ |>.Perm (deploymentDiagnostics [] input'.deployments) :=
        deploymentDiagnostics_permuted hrelated
    _ |>.Perm (deploymentDiagnostics [] (sortDeployments (sortDeployments input'.deployments))) :=
        deploymentDiagnostics_perm (htwice _).symm

theorem sortDeployments_permuted (h : input.Permuted input') (haccepted : input.Accepted) :
    List.Forall₂ SameView (sortDeployments input.deployments)
      (sortDeployments input'.deployments) := by
  obtain ⟨deployments, hperm, hrelated⟩ := h.deployments
  have := transCmp_comap compareIdentity CapabilityResolutionDeployment.identity
  have hsorted : sortDeployments input.deployments = sortDeployments deployments :=
    sortBy_eq_of_perm hperm fun deployment hmem deployment' hmem' heq =>
      eq_of_identity_eq haccepted hmem hmem' (eq_of_compareIdentity heq)
  have hviews : List.Forall₂ SameView deployments input'.deployments := by
    refine (forall₂_iff_get.mp hrelated).elim fun hlength hget => ?_
    refine forall₂_iff_get.mpr ⟨hlength, fun i hi hi' => (hget i hi hi').sameView ?_⟩
    exact haccepted.requirements _ (hperm.mem_iff.mpr (get_mem _ _))
  rw [hsorted]
  refine forall₂_insertionSort hviews fun a b a' b' hab hab' => ?_
  dsimp only
  rw [hab.identity, hab'.identity]

/-- **The order of the input does not matter.** -/
theorem resolveCapabilities_permuted (h : input.Permuted input')
    (hprevious : (input.previousBindings.map fun binding =>
      (binding.consumer, binding.capability)).Nodup) :
    resolveCapabilities input = resolveCapabilities input' := by
  have hkeys := previous_keys_nodup hprevious
  have hinput := inputDiagnostics_permuted h hkeys
  unfold resolveCapabilities
  dsimp only
  rw [← hinput]
  by_cases hempty : inputDiagnostics (sortDeployments input.deployments) input.previousBindings = []
  · -- an input without reports: everything is read from the same sorted lists
    have hviews := sortDeployments_permuted h (accepted_of_inputDiagnostics hempty)
    have hlookup : previousByRequirement input.previousBindings =
        previousByRequirement input'.previousBindings := by
      funext consumer capability
      exact find?_eq_of_perm (fun binding : PreviousCapabilityBinding =>
        requirementKey binding.consumer binding.capability) h.previousBindings hkeys _
    have hidentities := map_identity_sameView hviews
    have hgraphKeys : ((sortDeployments input.deployments).map fun deployment =>
          identityKey deployment.identity) =
        (sortDeployments input'.deployments).map fun deployment =>
          identityKey deployment.identity := by
      have hkeys := congrArg (List.map identityKey) hidentities
      rwa [map_map, map_map] at hkeys
    rw [providerLossDecisions_permuted hviews h.previousBindings,
      requirementOutcomes_sameView hviews hlookup, hgraphKeys]
    simp only [identityOf_sameView hviews]
  · have hreported : (!(inputDiagnostics (sortDeployments input.deployments)
        input.previousBindings).isEmpty) = true := by
      rw [Bool.not_eq_true', isEmpty_eq_false_iff]
      exact hempty
    rw [if_pos hreported, if_pos hreported]

end Law

/-! ## Two orders of one input -/

def versionedProvider (provides : List CapabilityResolutionProvision) :
    CapabilityResolutionDeployment :=
  { providerDeployment true with provides := provides }

def provisionOne : CapabilityResolutionProvision := ⟨capabilityStore, js "1.2.0"⟩

def provisionTwo : CapabilityResolutionProvision := ⟨capabilityStore, js "2.0.0"⟩

def consumerFirst : CapabilityResolutionInput where
  deployments := [consumerDeployment, versionedProvider [provisionOne, provisionTwo]]
  previousBindings := [⟨consumerIdentity, capabilityStore, providerIdentity⟩]

def providerFirst : CapabilityResolutionInput where
  deployments := [versionedProvider [provisionTwo, provisionOne], consumerDeployment]
  previousBindings := [⟨consumerIdentity, capabilityStore, providerIdentity⟩]

theorem resolveCapabilities_permuted_providerFirst :
    resolveCapabilities consumerFirst = resolveCapabilities providerFirst := by
  have hrefl : ∀ deployment : CapabilityResolutionDeployment, deployment.Permuted deployment :=
    fun deployment => ⟨rfl, rfl, rfl, rfl, .refl _, .refl _⟩
  have hprovider : (versionedProvider [provisionOne, provisionTwo]).Permuted
      (versionedProvider [provisionTwo, provisionOne]) :=
    ⟨rfl, rfl, rfl, rfl, .swap _ _ _, .refl _⟩
  exact resolveCapabilities_permuted
    ⟨⟨_, .swap _ _ _, .cons hprovider (.cons (hrefl _) .nil)⟩, .refl _⟩ (by decide +kernel)

end TegoNext
