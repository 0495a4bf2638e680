/-
What a successful capability resolution guarantees.

A resolution that reports no diagnostic has bound every requirement exactly once, and a binding
with a provider is what it should be. A binding without one is meant for optional requirements and
for running consumers whose persisted provider went away; `resolveRequirement` makes the same
exemption for a consumer that has never been activated (`newConsumer_left_unbound`).
-/
import TegoNext.CapabilityResolver
import TegoNext.TextOrder

set_option autoImplicit false

namespace TegoNext

open Text List

/-! ## The guarantee -/

/-- A provider of a binding is a ready deployment of the same application with a
provision that satisfies the requirement. -/
def CapabilityResolutionInput.Provides (input : CapabilityResolutionInput)
    (binding : ResolvedCapabilityBinding) (provider : ResolvedCapabilityProvider) : Prop :=
  ∃ deployment ∈ input.deployments, deployment.identity = provider.deployment ∧
    deployment.identity.applicationId = binding.consumer.applicationId ∧
    deployment.ready = true ∧ provider.capability ∈ deployment.provides ∧
    provider.capability.name = binding.requirement.name ∧
    satisfiesVersionRange provider.capability.protocolVersion
      binding.requirement.protocolRange = true

def CapabilityResolutionInput.LostProvider (input : CapabilityResolutionInput)
    (binding : ResolvedCapabilityBinding) : Prop :=
  (∃ consumer ∈ input.deployments, consumer.identity = binding.consumer ∧
    consumer.activated = true) ∧
  ∃ previous ∈ input.previousBindings, previous.consumer = binding.consumer ∧
    previous.capability = binding.requirement.name ∧
    ∃ provider ∈ input.deployments, provider.identity = previous.provider ∧ provider.ready = false

/-- **Soundness of a list of bindings.** -/
structure CapabilityResolutionInput.Sound (input : CapabilityResolutionInput)
    (bindings : List ResolvedCapabilityBinding) : Prop where
  bound : ∀ consumer ∈ input.deployments, ∀ requirement ∈ consumer.requires,
    (bindings.map fun binding => (binding.consumer, binding.requirement.name)).count
      (consumer.identity, requirement.name) = 1
  required : ∀ binding ∈ bindings, ∃ consumer ∈ input.deployments,
    consumer.identity = binding.consumer ∧
      ∃ requirement ∈ consumer.requires, binding.requirement = normalizeRequirement requirement
  provided : ∀ binding ∈ bindings, ∀ provider, binding.provider = some provider →
    input.Provides binding provider
  unprovided : ∀ binding ∈ bindings, binding.provider = none →
    binding.requirement.optional = true ∨ input.LostProvider binding

/-- No consumer that was never activated has, for a mandatory requirement
without an explicit binding, a persisted provider that is not ready. -/
def CapabilityResolutionInput.NewConsumersServed (input : CapabilityResolutionInput) : Prop :=
  ∀ consumer ∈ input.deployments, consumer.activated = false →
    ∀ requirement ∈ consumer.requires, (normalizeRequirement requirement).optional = false →
      ownBinding consumer.bindings requirement.name = none →
        ∀ previous ∈ input.previousBindings, previous.consumer = consumer.identity →
          previous.capability = requirement.name →
            ∀ provider ∈ input.deployments, provider.identity = previous.provider →
              provider.ready = true

/-! ## What accepted inputs look like -/

/-- A run over a list with the keys seen so far that reports nothing has met no
key twice. -/
theorem nodup_of_unreported {α κ : Type} [BEq κ] [LawfulBEq κ] {δ : Type} (key : α → κ)
    (report : α → List δ) (more : α → List δ) (run : List κ → List α → List δ)
    (hcons : ∀ seen a rest, run seen (a :: rest) =
      (if seen.contains (key a) then report a else []) ++ more a ++ run (key a :: seen) rest)
    (hreport : ∀ a, report a ≠ []) {seen : List κ} {values : List α} (h : run seen values = []) :
    (values.map key).Nodup ∧ ∀ a ∈ values, key a ∉ seen := by
  induction values generalizing seen with
  | nil => exact ⟨nodup_nil, fun _ h => absurd h not_mem_nil⟩
  | cons a rest ih =>
    rw [hcons, append_eq_nil_iff, append_eq_nil_iff] at h
    obtain ⟨⟨hseen, -⟩, hrest⟩ := h
    obtain ⟨hnd, hnot⟩ := ih hrest
    have ha : key a ∉ seen := by
      intro hmem
      rw [if_pos (contains_iff_mem.mpr hmem)] at hseen
      exact hreport a hseen
    refine ⟨?_, fun b hb => ?_⟩
    · rw [map_cons, nodup_cons]
      refine ⟨fun hmem => ?_, hnd⟩
      obtain ⟨b, hb, heq⟩ := mem_map.mp hmem
      exact hnot b hb (heq ▸ mem_cons_self)
    · rcases mem_cons.mp hb with rfl | hb
      · exact ha
      · exact fun hmem => hnot b hb (mem_cons_of_mem _ hmem)

theorem requirementDiagnostics_nil {identity : PluginDeploymentIdentity}
    {requirements : List PluginCapabilityRequirement}
    (h : requirementDiagnostics identity [] requirements = []) :
    (requirements.map (·.name)).Nodup := by
  refine (nodup_of_unreported (fun r : PluginCapabilityRequirement => r.name) _ _
    (requirementDiagnostics identity) (fun seen a rest => rfl) (fun a => ?_) h).1
  exact cons_ne_nil _ _

variable {previousBindings : List PreviousCapabilityBinding}

theorem previousDiagnostics_nil (h : previousDiagnostics [] previousBindings = []) :
    (previousBindings.map fun b => requirementKey b.consumer b.capability).Nodup := by
  refine (nodup_of_unreported
    (fun b : PreviousCapabilityBinding => requirementKey b.consumer b.capability)
    (fun b => [duplicatePrevious b]) (fun _ => []) previousDiagnostics (fun seen a rest => ?_)
    (fun a => cons_ne_nil _ _) h).1
  rw [append_nil]
  rfl

variable {deployments : List CapabilityResolutionDeployment}

theorem deploymentDiagnostics_nil
    {seen : List JsString} (h : deploymentDiagnostics seen deployments = []) :
    (deployments.map fun d => identityKey d.identity).Nodup ∧
      ∀ d ∈ deployments, (d.requires.map (·.name)).Nodup := by
  refine ⟨(nodup_of_unreported
    (fun d : CapabilityResolutionDeployment => identityKey d.identity) _ _ deploymentDiagnostics
    (fun seen a rest => rfl) (fun a => cons_ne_nil _ _) h).1, ?_⟩
  induction deployments generalizing seen with
  | nil => exact fun _ h => absurd h not_mem_nil
  | cons a rest ih =>
    simp only [deploymentDiagnostics, append_eq_nil_iff] at h
    intro d hd
    rcases mem_cons.mp hd with rfl | hd
    · exact requirementDiagnostics_nil h.1.2.1.2
    · exact ih h.2 d hd

/-- What it means for an input to pass its diagnostics. -/
structure CapabilityResolutionInput.Accepted (input : CapabilityResolutionInput) : Prop where
  deployments : (input.deployments.map fun d => identityKey d.identity).Nodup
  requirements : ∀ d ∈ input.deployments, (d.requires.map (·.name)).Nodup
  previous : (input.previousBindings.map fun b => requirementKey b.consumer b.capability).Nodup

theorem accepted_of_inputDiagnostics {input : CapabilityResolutionInput}
    (h : inputDiagnostics (sortDeployments input.deployments) input.previousBindings = []) :
    input.Accepted := by
  rw [inputDiagnostics, sortBy_eq_nil, append_eq_nil_iff] at h
  obtain ⟨hdeployments, hprevious⟩ := h
  obtain ⟨hkeys, hnames⟩ := deploymentDiagnostics_nil hdeployments
  have hperm : (sortDeployments (sortDeployments input.deployments)).Perm input.deployments :=
    (sortBy_perm _ _).trans (sortBy_perm _ _)
  have hmap := hperm.map fun d => identityKey d.identity
  exact ⟨hmap.nodup_iff.mp hkeys, fun d hd => hnames d (hperm.mem_iff.mpr hd),
    previousDiagnostics_nil hprevious⟩

/-! ## Lookups by key -/

theorem requirementKey_injective {c c' : PluginDeploymentIdentity} {n n' : CapabilityName}
    (h : requirementKey c n = requirementKey c' n') : c = c' ∧ n = n' := by
  simp only [requirementKey, identityKey, append_assoc, cons_append] at h
  obtain ⟨happ, hrest⟩ := join_injective h
  obtain ⟨hplugin, hname⟩ := join_injective hrest
  refine ⟨?_, PortableId.ext hname⟩
  cases c
  cases c'
  exact PluginDeploymentIdentity.mk.injEq .. ▸ ⟨happ, hplugin⟩

theorem byIdentity_some
    {identity : PluginDeploymentIdentity} {deployment : CapabilityResolutionDeployment}
    (h : byIdentity deployments identity = some deployment) :
    deployment ∈ deployments ∧ deployment.identity = identity :=
  ⟨mem_of_find?_eq_some h, identityKey_injective (by simpa using find?_some h)⟩

theorem previousByRequirement_some
    {consumer : PluginDeploymentIdentity} {capability : CapabilityName}
    {previous : PreviousCapabilityBinding}
    (h : previousByRequirement previousBindings consumer capability = some previous) :
    previous ∈ previousBindings ∧ previous.consumer = consumer ∧ previous.capability = capability :=
  ⟨mem_of_find?_eq_some h, requirementKey_injective (by simpa using find?_some h)⟩

/-! ## One requirement -/

variable {requirement : NormalizedCapabilityRequirement}

theorem mem_compatibleProvisions {deployment : CapabilityResolutionDeployment}
    {provision : CapabilityResolutionProvision} :
    provision ∈ compatibleProvisions deployment requirement ↔
      provision ∈ deployment.provides ∧ provision.name = requirement.name ∧
        satisfiesVersionRange provision.protocolVersion requirement.protocolRange = true := by
  simp [compatibleProvisions, mem_sortBy]

/-- The requirement is bound to a ready compatible provider, or left unbound
because it is optional. -/
def Served (deployments : List CapabilityResolutionDeployment)
    (consumer : CapabilityResolutionDeployment) (requirement : NormalizedCapabilityRequirement)
    (bindings : List ResolvedCapabilityBinding) : Prop :=
  (∃ provider ∈ deployments, ∃ provision ∈ compatibleProvisions provider requirement,
    provider.identity.applicationId = consumer.identity.applicationId ∧ provider.ready = true ∧
      bindings = [⟨consumer.identity, requirement, some ⟨provider.identity, provision⟩⟩]) ∨
  (requirement.optional = true ∧ bindings = [unbound consumer requirement])

/-- The requirement is left unbound because its persisted provider is not
ready. -/
def Lost (deployments : List CapabilityResolutionDeployment)
    (consumer : CapabilityResolutionDeployment) (requirement : NormalizedCapabilityRequirement)
    (selected : PluginDeploymentIdentity) (bindings : List ResolvedCapabilityBinding) : Prop :=
  bindings = [unbound consumer requirement] ∧
    ∃ provider ∈ deployments, provider.identity = selected ∧ provider.ready = false

variable {consumer provider : CapabilityResolutionDeployment}

theorem served_attach (before : List CapabilityResolutionDiagnostic) (hmem : provider ∈ deployments)
    (happ : provider.identity.applicationId = consumer.identity.applicationId)
    (hcompatible : (compatibleProvisions provider requirement).isEmpty = false)
    (h : provider.ready = true ∨ requirement.optional = true) :
    Served deployments consumer requirement (attach consumer provider requirement before).bindings := by
  unfold attach
  cases hprovisions : compatibleProvisions provider requirement with
  | nil => simp [hprovisions] at hcompatible
  | cons provision rest =>
    dsimp only
    by_cases hready : provider.ready = true
    · rw [if_pos hready]
      exact .inl ⟨provider, hmem, provision, hprovisions ▸ mem_cons_self, happ, hready, rfl⟩
    have hoptional := h.resolve_left hready
    rw [if_neg hready, if_pos hoptional]
    exact .inr ⟨hoptional, rfl⟩

theorem attach_diagnostics
    {before : List CapabilityResolutionDiagnostic} :
    (attach consumer provider requirement before).diagnostics = before := by
  unfold attach
  split <;> rfl

theorem resolveSelected_nil

    {selected : PluginDeploymentIdentity} {persistedOnly : Bool}
    (h : (resolveSelected deployments consumer requirement selected persistedOnly).diagnostics = []) :
    Served deployments consumer requirement
        (resolveSelected deployments consumer requirement selected persistedOnly).bindings ∨
      persistedOnly = true ∧ Lost deployments consumer requirement selected
        (resolveSelected deployments consumer requirement selected persistedOnly).bindings := by
  unfold resolveSelected at h ⊢
  split at h
  · cases h
  next provider hprovider =>
  rw [Option.filter_eq_some_iff] at hprovider
  obtain ⟨hfound, happ⟩ := hprovider
  obtain ⟨hmem, hidentity⟩ := byIdentity_some hfound
  split at h
  · cases h
  split at h
  · cases h
  next hnames hcompatible =>
  rw [if_neg hnames, if_neg hcompatible]
  have hcompatible' := eq_false_of_ne_true hcompatible
  have happ' := beq_iff_eq.mp happ
  by_cases hready : provider.ready = true
  · rw [if_pos hready]
    exact .inl (served_attach [] hmem happ' hcompatible' (.inl hready))
  rw [if_neg hready] at h ⊢
  by_cases honly : persistedOnly = true
  · rw [if_pos honly]
    exact .inr ⟨honly, rfl, provider, hmem, hidentity, eq_false_of_ne_true hready⟩
  · rw [if_neg honly, attach_diagnostics] at h
    cases h

/-- A persisted provider that is not ready leaves the requirement unbound,
whatever else is known of the consumer. -/
theorem resolveSelected_unready
    {selected : PluginDeploymentIdentity}
    (hfound : byIdentity deployments selected = some provider) (hready : provider.ready = false)
    (h : (resolveSelected deployments consumer requirement selected true).diagnostics = []) :
    (resolveSelected deployments consumer requirement selected true).bindings =
      [unbound consumer requirement] := by
  unfold resolveSelected at h ⊢
  split at h
  · cases h
  next provider' hprovider =>
  obtain ⟨hsome, -⟩ := Option.filter_eq_some_iff.mp hprovider
  cases hfound.symm.trans hsome
  split at h
  · cases h
  split at h
  · cases h
  next hnames hcompatible =>
  rw [if_neg hnames, if_neg hcompatible, hready]
  rfl

theorem served_of_mem_compatible {deployments : List CapabilityResolutionDeployment}
    {consumer provider : CapabilityResolutionDeployment}
    {requirement : NormalizedCapabilityRequirement} (before : List CapabilityResolutionDiagnostic)
    (hmem : provider ∈ compatibleDeployments deployments consumer requirement)
    (h : provider.ready = true ∨ requirement.optional = true) :
    Served deployments consumer requirement
      (attach consumer provider requirement before).bindings := by
  obtain ⟨hmem, hboth⟩ := mem_filter.mp hmem
  rw [Bool.and_eq_true, beq_iff_eq, Bool.not_eq_true'] at hboth
  exact served_attach before hmem hboth.1 hboth.2 h

theorem resolveUnselected_nil

    (h : (resolveUnselected deployments consumer requirement).diagnostics = []) :
    Served deployments consumer requirement
      (resolveUnselected deployments consumer requirement).bindings := by
  have hserved := fun provider before => @served_of_mem_compatible deployments consumer provider
    requirement before
  unfold resolveUnselected at h ⊢
  -- a mandatory requirement without a ready provider is always reported
  have hoptional : ∀ {d : CapabilityResolutionDiagnostic},
      (if requirement.optional = true then [] else [d]) = [] → requirement.optional = true := by
    intro d hd
    split at hd
    · assumption
    · cases hd
  cases hcompatible : compatibleDeployments deployments consumer requirement with
  | nil =>
    rw [hcompatible] at h
    dsimp only at h ⊢
    split at h
    · next hopt =>
      rw [if_pos hopt]
      exact .inr ⟨hopt, rfl⟩
    · cases h
  | cons only others =>
    rw [hcompatible] at h hserved
    dsimp only at h ⊢
    cases hready : (only :: others).filter (·.ready) with
    | nil =>
      rw [hready] at h
      dsimp only at h ⊢
      split at h
      · next hempty =>
        rw [attach_diagnostics] at h
        rw [if_pos hempty]
        exact hserved only _ mem_cons_self (.inr (hoptional h))
      · next hmany =>
        rw [if_neg hmany]
        exact .inr ⟨hoptional h, rfl⟩
    | cons provider more =>
      have hmem : provider ∈ (only :: others).filter (·.ready) := hready ▸ mem_cons_self
      obtain ⟨hmem, hprovider⟩ := mem_filter.mp hmem
      rw [hready] at h
      cases more with
      | nil => exact hserved provider [] hmem (.inl hprovider)
      | cons second more => cases h

theorem resolveRequirement_nil
    {source : PluginCapabilityRequirement}
    (h : (resolveRequirement deployments previousBindings consumer source).diagnostics = []) :
    Served deployments consumer (normalizeRequirement source)
        (resolveRequirement deployments previousBindings consumer source).bindings ∨
      ownBinding consumer.bindings source.name = none ∧
        ∃ previous, previousByRequirement previousBindings consumer.identity source.name =
            some previous ∧
          Lost deployments consumer (normalizeRequirement source) previous.provider
            (resolveRequirement deployments previousBindings consumer source).bindings := by
  unfold resolveRequirement at h ⊢
  have hname : (normalizeRequirement source).name = source.name := rfl
  dsimp only at h ⊢
  rw [hname] at h ⊢
  cases hexplicit : ownBinding consumer.bindings source.name with
  | some explicit =>
    rw [hexplicit] at h
    rcases resolveSelected_nil h with hserved | ⟨honly, -⟩
    · exact .inl hserved
    · cases honly
  | none =>
    rw [hexplicit] at h
    cases hpersisted : previousByRequirement previousBindings consumer.identity source.name with
    | none =>
      rw [hpersisted] at h
      exact .inl (resolveUnselected_nil h)
    | some previous =>
      rw [hpersisted] at h
      rcases resolveSelected_nil h with hserved | ⟨-, hlost⟩
      · exact .inl hserved
      · exact .inr ⟨rfl, previous, rfl, hlost⟩

/-! ## The whole resolution -/

/-- A resolution that succeeds found nothing to report in its input or for any
requirement. -/
theorem resolveCapabilities_ok {input : CapabilityResolutionInput}
    (h : (resolveCapabilities input).ok = true) :
    input.Accepted ∧
    (∀ consumer ∈ sortDeployments input.deployments, ∀ source ∈ sortRequirements consumer.requires,
      (resolveRequirement (sortDeployments input.deployments) input.previousBindings consumer
        source).diagnostics = []) ∧
    (resolveCapabilities input).bindings =
      some ((requirementOutcomes (sortDeployments input.deployments)
        input.previousBindings).flatMap (·.bindings)) := by
  unfold resolveCapabilities at h ⊢
  dsimp only at h ⊢
  split at h
  · cases h
  next hinput =>
  split at h
  · cases h
  next hdiagnostics =>
  rw [if_neg hinput, if_neg hdiagnostics]
  rw [Bool.not_eq_true, Bool.not_eq_false', List.isEmpty_iff] at hinput hdiagnostics
  rw [sortBy_eq_nil, append_eq_nil_iff] at hdiagnostics
  refine ⟨accepted_of_inputDiagnostics hinput, fun consumer hconsumer source hsource => ?_, ?_⟩
  · refine flatMap_eq_nil_iff.mp hdiagnostics.1 _ ?_
    exact mem_flatMap.mpr ⟨consumer, hconsumer, mem_map_of_mem hsource⟩
  · split at h
    · cases h
    · rfl

section Resolved

variable {input : CapabilityResolutionInput}

/-- The outcome of one requirement of a resolution that reported nothing. -/
structure ResolvedOne (input : CapabilityResolutionInput)
    (consumer : CapabilityResolutionDeployment) (source : PluginCapabilityRequirement)
    (binding : ResolvedCapabilityBinding) : Prop where
  consumer_eq : binding.consumer = consumer.identity
  requirement_eq : binding.requirement = normalizeRequirement source
  provided : ∀ provider, binding.provider = some provider → input.Provides binding provider
  unprovided : binding.provider = none → binding.requirement.optional = true ∨
    ownBinding consumer.bindings source.name = none ∧
    ∃ previous ∈ input.previousBindings, previous.consumer = consumer.identity ∧
      previous.capability = source.name ∧
      ∃ provider ∈ input.deployments, provider.identity = previous.provider ∧ provider.ready = false

theorem resolvedOne_of_nil {consumer : CapabilityResolutionDeployment}
    {source : PluginCapabilityRequirement}
    (h : (resolveRequirement (sortDeployments input.deployments) input.previousBindings consumer
      source).diagnostics = []) :
    ∃ binding, (resolveRequirement (sortDeployments input.deployments) input.previousBindings
        consumer source).bindings = [binding] ∧ ResolvedOne input consumer source binding := by
  rcases resolveRequirement_nil h with (⟨provider, hmem, provision, hprovision, happ, hready, heq⟩ |
      ⟨hoptional, heq⟩) | ⟨hexplicit, previous, hprevious, heq, provider, hmem, hidentity, hready⟩
  · obtain ⟨hprovides, hname, hversion⟩ := mem_compatibleProvisions.mp hprovision
    refine ⟨_, heq, rfl, rfl, fun p hp => ?_, fun hnone => by cases hnone⟩
    cases Option.some.inj hp
    exact ⟨provider, mem_sortBy.mp hmem, rfl, happ, hready, hprovides, hname, hversion⟩
  · exact ⟨_, heq, rfl, rfl, (fun p hp => by cases hp), fun _ => .inl hoptional⟩
  · obtain ⟨hmem', hconsumer, hcapability⟩ := previousByRequirement_some hprevious
    exact ⟨_, heq, rfl, rfl, (fun p hp => by cases hp), fun _ => .inr ⟨hexplicit, previous, hmem',
      hconsumer, hcapability, provider, mem_sortBy.mp hmem, hidentity, hready⟩⟩

theorem mem_bindings {binding : ResolvedCapabilityBinding}
    (h : ∀ consumer ∈ sortDeployments input.deployments,
      ∀ source ∈ sortRequirements consumer.requires,
        (resolveRequirement (sortDeployments input.deployments) input.previousBindings consumer
          source).diagnostics = []) :
    binding ∈ (requirementOutcomes (sortDeployments input.deployments)
        input.previousBindings).flatMap (·.bindings) ↔
      ∃ consumer ∈ input.deployments, ∃ source ∈ consumer.requires,
        (resolveRequirement (sortDeployments input.deployments) input.previousBindings consumer
          source).bindings = [binding] ∧ ResolvedOne input consumer source binding := by
  simp only [requirementOutcomes, mem_flatMap, mem_map]
  constructor
  · rintro ⟨outcome, ⟨consumer, hconsumer, source, hsource, rfl⟩, hmem⟩
    obtain ⟨b, heq, hresolved⟩ := resolvedOne_of_nil (h consumer hconsumer source hsource)
    rw [heq, mem_singleton] at hmem
    subst hmem
    exact ⟨consumer, mem_sortBy.mp hconsumer, source, mem_sortBy.mp hsource, heq, hresolved⟩
  · rintro ⟨consumer, hconsumer, source, hsource, heq, -⟩
    exact ⟨_, ⟨consumer, mem_sortBy.mpr hconsumer, source, mem_sortBy.mpr hsource, rfl⟩,
      heq ▸ mem_singleton_self _⟩

theorem binding_keys
    (h : ∀ consumer ∈ sortDeployments input.deployments,
      ∀ source ∈ sortRequirements consumer.requires,
        (resolveRequirement (sortDeployments input.deployments) input.previousBindings consumer
          source).diagnostics = []) :
    (((requirementOutcomes (sortDeployments input.deployments)
        input.previousBindings).flatMap (·.bindings)).map
      fun binding => (binding.consumer, binding.requirement.name)) =
    (sortDeployments input.deployments).flatMap fun consumer =>
      (sortRequirements consumer.requires).map fun source => (consumer.identity, source.name) := by
  rw [requirementOutcomes, flatMap_assoc, map_flatMap]
  refine flatMap_congr fun consumer hconsumer => ?_
  rw [flatMap_map, map_flatMap, map_eq_flatMap]
  refine flatMap_congr fun source hsource => ?_
  obtain ⟨binding, heq, hresolved⟩ := resolvedOne_of_nil (h consumer hconsumer source hsource)
  rw [heq, map_singleton, hresolved.consumer_eq, hresolved.requirement_eq]
  rfl

theorem nodup_requirements (h : input.Accepted) :
    ((sortDeployments input.deployments).flatMap fun consumer =>
      (sortRequirements consumer.requires).map fun source =>
        (consumer.identity, source.name)).Nodup := by
  rw [nodup_flatMap]
  refine ⟨fun consumer hconsumer => ?_, ?_⟩
  · have hnames := h.requirements consumer (mem_sortBy.mp hconsumer)
    have hperm := (sortBy_perm (fun left right : PluginCapabilityRequirement =>
      compareText left.name.text right.name.text) consumer.requires).map fun source => source.name
    have hsorted : ((sortRequirements consumer.requires).map fun source => source.name).Nodup :=
      hperm.nodup_iff.mpr hnames
    have hpair := hsorted.map (f := fun name => (consumer.identity, name))
      fun _ _ heq => (Prod.mk.inj heq).2
    rwa [map_map] at hpair
  · have hperm := (sortBy_perm (fun left right : CapabilityResolutionDeployment =>
      compareIdentity left.identity right.identity) input.deployments).map
        fun deployment => identityKey deployment.identity
    have hkeys : ((sortDeployments input.deployments).map fun deployment =>
        identityKey deployment.identity).Nodup := hperm.nodup_iff.mpr h.deployments
    refine (pairwise_map.mp hkeys).imp fun {a b} hne => ?_
    refine disjoint_left.mpr fun pair ha hb => hne ?_
    obtain ⟨_, -, rfl⟩ := mem_map.mp ha
    obtain ⟨_, -, heq⟩ := mem_map.mp hb
    rw [(Prod.mk.inj heq).1]

theorem eq_of_identity_eq (h : input.Accepted) {a b : CapabilityResolutionDeployment}
    (ha : a ∈ input.deployments) (hb : b ∈ input.deployments) (heq : a.identity = b.identity) :
    a = b :=
  inj_on_of_nodup_map h.deployments ha hb (congrArg identityKey heq)

theorem unbound_of_unready (haccepted : input.Accepted)
    {consumer : CapabilityResolutionDeployment} {source : PluginCapabilityRequirement}
    (hnil : (resolveRequirement (sortDeployments input.deployments) input.previousBindings consumer
      source).diagnostics = [])
    (hexplicit : ownBinding consumer.bindings source.name = none)
    {previous : PreviousCapabilityBinding} (hprevious : previous ∈ input.previousBindings)
    (hprevC : previous.consumer = consumer.identity) (hprevN : previous.capability = source.name)
    {provider : CapabilityResolutionDeployment} (hprovider : provider ∈ input.deployments)
    (hidentity : provider.identity = previous.provider) (hready : provider.ready = false) :
    (resolveRequirement (sortDeployments input.deployments) input.previousBindings consumer
      source).bindings = [unbound consumer (normalizeRequirement source)] := by
  have hpersisted : previousByRequirement input.previousBindings consumer.identity source.name =
      some previous := by
    rw [← hprevC, ← hprevN]
    exact find?_of_nodup (fun b : PreviousCapabilityBinding =>
      requirementKey b.consumer b.capability) haccepted.previous hprevious
  have hperm := (sortBy_perm (fun left right : CapabilityResolutionDeployment =>
    compareIdentity left.identity right.identity) input.deployments).map
      fun deployment => identityKey deployment.identity
  have hfound : byIdentity (sortDeployments input.deployments) previous.provider =
      some provider := by
    rw [← hidentity]
    exact find?_of_nodup (fun d : CapabilityResolutionDeployment => identityKey d.identity)
      (hperm.nodup_iff.mpr haccepted.deployments) (mem_sortBy.mpr hprovider)
  have hname : (normalizeRequirement source).name = source.name := rfl
  unfold resolveRequirement at hnil ⊢
  dsimp only at hnil ⊢
  rw [hname, hexplicit, hpersisted] at hnil ⊢
  exact resolveSelected_unready hfound hready hnil

/-- **Soundness, exactly.** A successful resolution keeps the guarantee if and
only if no consumer that was never activated has a persisted provider that is
not ready. -/
theorem resolveCapabilities_sound_iff (input : CapabilityResolutionInput)
    (hok : (resolveCapabilities input).ok = true) :
    (∃ bindings, (resolveCapabilities input).bindings = some bindings ∧ input.Sound bindings) ↔
      input.NewConsumersServed := by
  obtain ⟨haccepted, hnil, hbindings⟩ := resolveCapabilities_ok hok
  rw [hbindings]
  simp only [Option.some.injEq, exists_eq_left']
  constructor
  · intro hsound consumer hconsumer hnew source hsource hmandatory hexplicit previous hprevious
      hprevC hprevN provider hprovider hidentity
    by_contra hunready
    have hone := hnil consumer (mem_sortBy.mpr hconsumer) source (mem_sortBy.mpr hsource)
    have hunbound := unbound_of_unready haccepted hone hexplicit hprevious hprevC hprevN hprovider
      hidentity (eq_false_of_ne_true hunready)
    obtain ⟨binding, heq, hresolved⟩ := resolvedOne_of_nil hone
    obtain rfl : binding = unbound consumer (normalizeRequirement source) :=
      singleton_inj.mp (heq.symm.trans hunbound)
    have hmem := (mem_bindings hnil).mpr ⟨consumer, hconsumer, source, hsource, heq, hresolved⟩
    rcases hsound.unprovided _ hmem rfl with hoptional | ⟨⟨other, hother, hsame, hactivated⟩, -⟩
    · rw [show (normalizeRequirement source).optional = true from hoptional] at hmandatory
      cases hmandatory
    · cases eq_of_identity_eq haccepted hother hconsumer hsame
      rw [hnew] at hactivated
      cases hactivated
  · intro hserved
    refine ⟨?_, ?_, ?_, ?_⟩
    · intro consumer hconsumer source hsource
      rw [binding_keys hnil]
      refine count_eq_one_of_mem (nodup_requirements haccepted) ?_
      exact mem_flatMap.mpr ⟨consumer, mem_sortBy.mpr hconsumer,
        mem_map.mpr ⟨source, mem_sortBy.mpr hsource, rfl⟩⟩
    · intro binding hbinding
      obtain ⟨consumer, hconsumer, source, hsource, -, hresolved⟩ := (mem_bindings hnil).mp hbinding
      exact ⟨consumer, hconsumer, hresolved.consumer_eq.symm, source, hsource,
        hresolved.requirement_eq⟩
    · intro binding hbinding provider hprovider
      obtain ⟨consumer, -, source, -, -, hresolved⟩ := (mem_bindings hnil).mp hbinding
      exact hresolved.provided provider hprovider
    · intro binding hbinding hnone
      obtain ⟨consumer, hconsumer, source, hsource, -, hresolved⟩ := (mem_bindings hnil).mp hbinding
      rcases hresolved.unprovided hnone with hoptional | ⟨hexplicit, previous, hprevious, hprevC,
          hprevN, provider, hprovider, hidentity, hunready⟩
      · exact .inl hoptional
      · by_cases hoptional : binding.requirement.optional = true
        · exact .inl hoptional
        · have hmandatory : (normalizeRequirement source).optional = false := by
            rw [← hresolved.requirement_eq]
            exact eq_false_of_ne_true hoptional
          have hactivated : consumer.activated = true := by
            by_contra hnew
            have := hserved consumer hconsumer (eq_false_of_ne_true hnew) source hsource hmandatory
              hexplicit previous hprevious hprevC hprevN provider hprovider hidentity
            rw [hunready] at this
            cases this
          refine .inr ⟨⟨consumer, hconsumer, hresolved.consumer_eq.symm, hactivated⟩, previous,
            hprevious, ?_, ?_, provider, hprovider, hidentity, hunready⟩
          · rw [hprevC, hresolved.consumer_eq]
          · rw [hprevN, hresolved.requirement_eq]
            rfl

end Resolved

/-! ## A resolution with the guarantee, and one without -/

/-- Identities for the inputs below. -/
def applicationA : PortableId := ⟨js "a", by decide⟩

def capabilityStore : CapabilityName := ⟨js "store", by decide⟩

def providerIdentity : PluginDeploymentIdentity := ⟨applicationA, ⟨js "provider", by decide⟩⟩

def consumerIdentity : PluginDeploymentIdentity := ⟨applicationA, ⟨js "consumer", by decide⟩⟩

def providerDeployment (ready : Bool) : CapabilityResolutionDeployment where
  identity := providerIdentity
  activated := true
  ready := ready
  provides := [⟨capabilityStore, js "1.2.0"⟩]
  requires := []
  bindings := []

/-- A deployment that was never activated and requires the capability. -/
def consumerDeployment : CapabilityResolutionDeployment where
  identity := consumerIdentity
  activated := false
  ready := false
  provides := []
  requires := [⟨capabilityStore, js "^1.0.0", none, none⟩]
  bindings := []

def persistedInput (ready : Bool) : CapabilityResolutionInput where
  deployments := [consumerDeployment, providerDeployment ready]
  previousBindings := [⟨consumerIdentity, capabilityStore, providerIdentity⟩]

theorem resolveCapabilities_sound_iff_ready :
    (∃ bindings, (resolveCapabilities (persistedInput true)).bindings = some bindings ∧
      (persistedInput true).Sound bindings) ↔ (persistedInput true).NewConsumersServed :=
  resolveCapabilities_sound_iff (persistedInput true) (by decide +kernel)

/-- **A new consumer is left without its mandatory provider**: its persisted
provider is not ready, and the resolution succeeds without one. -/
theorem newConsumer_left_unbound :
    ¬ ∀ input : CapabilityResolutionInput, (resolveCapabilities input).ok = true →
      ∃ bindings, (resolveCapabilities input).bindings = some bindings ∧ input.Sound bindings := by
  intro hlaw
  have hok : (resolveCapabilities (persistedInput false)).ok = true := by decide +kernel
  obtain ⟨bindings, hbindings, hsound⟩ := hlaw (persistedInput false) hok
  have hunbound : (resolveCapabilities (persistedInput false)).bindings =
      some [unbound consumerDeployment (normalizeRequirement
        ⟨capabilityStore, js "^1.0.0", none, none⟩)] := by decide +kernel
  cases hbindings.symm.trans hunbound
  rcases hsound.unprovided _ mem_cons_self rfl with hoptional |
      ⟨⟨consumer, hconsumer, hidentity, hactivated⟩, -⟩
  · cases hoptional
  · rcases mem_cons.mp hconsumer with rfl | hconsumer
    · cases hactivated
    · rw [mem_singleton.mp hconsumer] at hidentity
      exact absurd hidentity (by decide +kernel)

end TegoNext
