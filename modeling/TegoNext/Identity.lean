/-
Portable identities.

Applications, plugins, components and most other things are named by an alphanumeric unit followed
by at most 127 units out of letters, digits, dot, underscore and hyphen. A value of `PortableId`
carries the proof that it matches. The source joins identities with a slash to build keys; that is
injective because no identity contains one.
-/
import TegoNext.Text

set_option autoImplicit false

namespace TegoNext

open Text List

/-- A text that matches the identity pattern. -/
structure PortableId where
  text : JsString
  portable : isPortableName text = true
  deriving DecidableEq

theorem portable_t : isPortableName (js "t") = true := by decide

theorem portable_a : isPortableName (js "a") = true := by decide

theorem PortableId.ext {left right : PortableId} (h : left.text = right.text) : left = right := by
  cases left
  cases right
  simpa using h

def NameText (s : JsString) : Prop := ∀ u ∈ s, isNameUnit u = true

instance (s : JsString) : Decidable (NameText s) :=
  decidable_of_iff (s.all isNameUnit = true) all_eq_true

theorem NameText.of_portable (id : PortableId) : NameText id.text := by
  obtain ⟨text, portable⟩ := id
  cases text with
  | nil => cases portable
  | cons u rest =>
    simp only [isPortableName, Bool.and_eq_true] at portable
    intro v hv
    rcases mem_cons.mp hv with rfl | hv
    · simp [isNameUnit, portable.1.1]
    · exact all_eq_true.mp portable.2 v hv

/-- `/` joins identities to keys. -/
def keySeparator : UInt16 := 47

theorem keySeparator_notMem (id : PortableId) : keySeparator ∉ id.text := by
  obtain ⟨text, portable⟩ := id
  intro hmem
  cases text with
  | nil => cases hmem
  | cons u rest =>
    simp only [isPortableName, Bool.and_eq_true] at portable
    rcases mem_cons.mp hmem with heq | hrest
    · subst heq
      exact absurd portable.1.1 (by decide)
    · exact absurd (all_eq_true.mp portable.2 _ hrest) (by decide)

theorem append_cons_inj_of_first {u : UInt16} {x y restX restY : JsString} (hx : u ∉ x)
    (hy : u ∉ y) (h : x ++ u :: restX = y ++ u :: restY) : x = y ∧ restX = restY := by
  induction x generalizing y with
  | nil =>
    cases y with
    | nil => exact ⟨rfl, (List.cons.inj h).2⟩
    | cons b y => exact absurd mem_cons_self ((List.cons.inj h).1 ▸ hy)
  | cons a x ih =>
    cases y with
    | nil => exact absurd mem_cons_self ((List.cons.inj h).1.symm ▸ hx)
    | cons b y =>
      obtain ⟨hab, htail⟩ := List.cons.inj h
      obtain ⟨hxy, hrest⟩ := ih (fun hm => hx (mem_cons_of_mem _ hm))
        (fun hm => hy (mem_cons_of_mem _ hm)) htail
      exact ⟨by rw [hab, hxy], hrest⟩

theorem join_injective {left right : PortableId} {leftRest rightRest : JsString}
    (h : left.text ++ keySeparator :: leftRest = right.text ++ keySeparator :: rightRest) :
    left = right ∧ leftRest = rightRest := by
  obtain ⟨htext, hrest⟩ := append_cons_inj_of_first (keySeparator_notMem left)
    (keySeparator_notMem right) h
  exact ⟨PortableId.ext htext, hrest⟩

structure PluginDeploymentIdentity where
  applicationId : PortableId
  pluginId : PortableId
  deriving DecidableEq

def identityKey (identity : PluginDeploymentIdentity) : JsString :=
  identity.applicationId.text ++ keySeparator :: identity.pluginId.text

theorem identityKey_injective {left right : PluginDeploymentIdentity}
    (h : identityKey left = identityKey right) : left = right := by
  obtain ⟨happ, hplugin⟩ := join_injective h
  cases left
  cases right
  exact PluginDeploymentIdentity.mk.injEq .. ▸ ⟨happ, PortableId.ext hplugin⟩

def compareIdentity (left right : PluginDeploymentIdentity) : Ordering :=
  (compareText left.applicationId.text right.applicationId.text).then
    (compareText left.pluginId.text right.pluginId.text)

end TegoNext
