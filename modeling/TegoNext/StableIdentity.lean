/-
Stable identities are one-to-one.

A stable identity joins its parts with dots. Escaping takes the dots out of a part, so the
parts can be read back from the joined text, and a text that is too long is cut and ends in
the digest of all parts. The last part of an instance's identity is a tagged decimal and
never looks like a digest, so a cut identity is never one that was not cut.
-/
import TegoNext.DecimalText

set_option autoImplicit false

namespace TegoNext

open Text

/-! ## Joined texts -/

theorem append_cons_inj_last {u : UInt16} {s t s' t' : JsString} (hs : u ∉ s') (ht : u ∉ t')
    (h : s ++ u :: s' = t ++ u :: t') : s' = t' := by
  have hreverse := congrArg List.reverse h
  rw [List.reverse_append, List.reverse_append, List.reverse_cons, List.reverse_cons,
    List.append_assoc, List.append_assoc, List.singleton_append, List.singleton_append] at hreverse
  exact List.reverse_inj.mp (append_cons_inj_of_first (fun hm => hs (List.mem_reverse.mp hm))
    (fun hm => ht (List.mem_reverse.mp hm)) hreverse).1

variable {parts others : List JsString}

theorem joinParts_separator_inj {u : UInt16} (hne : parts ≠ [])
    (hne' : others ≠ []) (hparts : ∀ part ∈ parts, u ∉ part) (hothers : ∀ part ∈ others, u ∉ part)
    (h : joinParts [u] parts = joinParts [u] others) : parts = others := by
  have hcons : ∀ (a b : JsString) (rest : List JsString),
      joinParts [u] (a :: b :: rest) = a ++ u :: joinParts [u] (b :: rest) := fun a b rest => by
    rw [joinParts, List.append_assoc, List.singleton_append]
  induction parts generalizing others with
  | nil => exact absurd rfl hne
  | cons a parts ih =>
    cases others with
    | nil => exact absurd rfl hne'
    | cons b others =>
      have ha := hparts a List.mem_cons_self
      have hb := hothers b List.mem_cons_self
      cases parts with
      | nil =>
        cases others with
        | nil => exact congrArg (fun s => [s]) h
        | cons d others =>
          rw [hcons b d others] at h
          have hin : u ∈ a := by
            have ha' : a = b ++ u :: joinParts [u] (d :: others) := h
            rw [ha']
            exact List.mem_append_right _ List.mem_cons_self
          exact absurd hin ha
      | cons c parts =>
        cases others with
        | nil =>
          rw [hcons a c parts] at h
          have hin : u ∈ b := by
            have hb' : a ++ u :: joinParts [u] (c :: parts) = b := h
            rw [← hb']
            exact List.mem_append_right _ List.mem_cons_self
          exact absurd hin hb
        | cons d others =>
          rw [hcons a c parts, hcons b d others] at h
          obtain ⟨rfl, hrest⟩ := append_cons_inj_of_first ha hb h
          have htail := ih (List.cons_ne_nil _ _) (List.cons_ne_nil _ _)
            (fun p hp => hparts p (List.mem_cons_of_mem _ hp))
            (fun p hp => hothers p (List.mem_cons_of_mem _ hp)) hrest
          rw [htail]

/-! ## Escaped parts -/

def escapeUnit (u : UInt16) : JsString :=
  if u = 95 then js "_u" else if u = 46 then js "_d" else [u]

theorem escapePart_cons (u : UInt16) (part : JsString) :
    escapePart (u :: part) = escapeUnit u ++ escapePart part := by
  unfold escapePart replaceAll escapeUnit
  rw [List.flatMap_cons, List.flatMap_append]
  by_cases hdash : u = 95
  · rw [if_pos hdash, if_pos hdash]
    rfl
  · rw [if_neg hdash, if_neg hdash, List.flatMap_singleton]

theorem escapeUnit_cases (u : UInt16) :
    (u = 95 ∧ escapeUnit u = [95, 117]) ∨ (u = 46 ∧ escapeUnit u = [95, 100]) ∨
      (u ≠ 95 ∧ u ≠ 46 ∧ escapeUnit u = [u]) := by
  unfold escapeUnit
  split
  · next h => exact .inl ⟨h, rfl⟩
  next h =>
  split
  · next h' => exact .inr (.inl ⟨h', rfl⟩)
  · next h' => exact .inr (.inr ⟨h, h', rfl⟩)

theorem escapeUnit_append_inj {u v : UInt16} {s t : JsString}
    (h : escapeUnit u ++ s = escapeUnit v ++ t) : u = v ∧ s = t := by
  rcases escapeUnit_cases u with ⟨rfl, hu⟩ | ⟨rfl, hu⟩ | ⟨hdash, hdot, hu⟩ <;>
    rcases escapeUnit_cases v with ⟨rfl, hv⟩ | ⟨rfl, hv⟩ | ⟨hdash', hdot', hv⟩ <;>
    simp only [hu, hv, List.cons_append, List.nil_append, List.cons.injEq] at h
  · exact ⟨rfl, h.2.2⟩
  · exact absurd h.2.1 (by decide)
  · exact absurd h.1.symm hdash'
  · exact absurd h.2.1 (by decide)
  · exact ⟨rfl, h.2.2⟩
  · exact absurd h.1.symm hdash'
  · exact absurd h.1 hdash
  · exact absurd h.1 hdash
  · exact h

theorem escapePart_inj {s t : JsString} (h : escapePart s = escapePart t) : s = t := by
  have hempty : ∀ (u : UInt16) (part : JsString), escapePart (u :: part) ≠ [] := by
    intro u part hnil
    rw [escapePart_cons] at hnil
    have hunit := (List.append_eq_nil_iff.mp hnil).1
    rcases escapeUnit_cases u with ⟨-, hu⟩ | ⟨-, hu⟩ | ⟨-, -, hu⟩ <;> rw [hu] at hunit <;> cases hunit
  induction s generalizing t with
  | nil =>
    cases t with
    | nil => rfl
    | cons v t => exact absurd h.symm (hempty v t)
  | cons u s ih =>
    cases t with
    | nil => exact absurd h (hempty u s)
    | cons v t =>
      rw [escapePart_cons, escapePart_cons] at h
      obtain ⟨rfl, hrest⟩ := escapeUnit_append_inj h
      rw [ih hrest]

theorem dot_notMem_escapePart (part : JsString) : 46 ∉ escapePart part := by
  induction part with
  | nil => exact List.not_mem_nil
  | cons u part ih =>
    rw [escapePart_cons, List.mem_append, not_or]
    refine ⟨?_, ih⟩
    rcases escapeUnit_cases u with ⟨-, hu⟩ | ⟨-, hu⟩ | ⟨-, hdot, hu⟩
    · rw [hu]
      decide
    · rw [hu]
      decide
    · rw [hu, List.mem_singleton]
      exact fun h => hdot h.symm

/-! ## The parts of an identity -/

theorem jsonTexts_inj (hne : parts ≠ []) (hne' : others ≠ [])
    (hparts : ∀ part ∈ parts, NameText part) (hothers : ∀ part ∈ others, NameText part)
    (h : jsonTexts parts = jsonTexts others) : parts = others := by
  unfold jsonTexts at h
  rw [List.append_assoc, List.append_assoc] at h
  have hjoined := List.append_cancel_right (List.append_cancel_left h)
  have hcomma : ∀ part, NameText part → (44 : UInt16) ∉ js "\"" ++ part ++ js "\"" := by
    intro part hname hin
    have hquote : (44 : UInt16) ∉ js "\"" := by decide
    rw [List.mem_append, List.mem_append] at hin
    rcases hin with (hin | hin) | hin
    · exact hquote hin
    · exact absurd (hname 44 hin) (by decide)
    · exact hquote hin
  have hquoted := joinParts_separator_inj (u := 44)
    (fun hnil => hne (List.map_eq_nil_iff.mp hnil)) (fun hnil => hne' (List.map_eq_nil_iff.mp hnil))
    (fun quoted hq => by
      obtain ⟨part, hpart, rfl⟩ := List.mem_map.mp hq
      exact hcomma part (hparts part hpart))
    (fun quoted hq => by
      obtain ⟨part, hpart, rfl⟩ := List.mem_map.mp hq
      exact hcomma part (hothers part hpart)) hjoined
  refine (List.map_injective_iff.mpr fun a b hab => ?_) hquoted
  exact List.append_cancel_left (List.append_cancel_right hab)

theorem hexDigit_injective : Function.Injective hexDigit := by
  intro a b
  revert a b
  decide

def NotDigest (part : JsString) : Prop :=
  ∀ digest : Vector (Fin 16) 64, escapePart part ≠ digest.toList.map hexDigit

/-- **Stable identities are one-to-one** on name texts whose last part is not a digest, as
far as the hash is. -/
theorem portableStableId_inj (sha256 : Sha256) {last last' : JsString}
    (hne : parts ≠ []) (hne' : others ≠ [])
    (hparts : ∀ part ∈ parts ++ [last], NameText part)
    (hothers : ∀ part ∈ others ++ [last'], NameText part) (hlast : NotDigest last)
    (hlast' : NotDigest last')
    (hsha : sha256 (jsonTexts (parts ++ [last])) = sha256 (jsonTexts (others ++ [last'])) →
      jsonTexts (parts ++ [last]) = jsonTexts (others ++ [last']))
    (h : portableStableId sha256 (parts ++ [last]) = portableStableId sha256 (others ++ [last'])) :
    parts ++ [last] = others ++ [last'] := by
  -- a text that was not cut ends in the last part
  have hend : ∀ (ps : List JsString) (l : JsString), ps ≠ [] →
      ∃ front, joinParts (js ".") ((ps ++ [l]).map escapePart) = front ++ 46 :: escapePart l := by
    intro ps l hps
    induction ps with
    | nil => exact absurd rfl hps
    | cons p ps ih =>
      cases ps with
      | nil => exact ⟨escapePart p, List.append_assoc _ _ _⟩
      | cons q ps =>
        obtain ⟨front, hfront⟩ := ih (List.cons_ne_nil _ _)
        refine ⟨escapePart p ++ js "." ++ front, ?_⟩
        rw [List.append_assoc, ← hfront]
        rfl
  have hhex : ∀ digest : Vector (Fin 16) 64, (46 : UInt16) ∉ digest.toList.map hexDigit := by
    intro digest hin
    obtain ⟨d, -, hd⟩ := List.mem_map.mp hin
    revert hd
    revert d
    decide
  unfold portableStableId at h
  dsimp only at h
  split at h
  · split at h
    · -- neither was cut: read the parts back
      have hescaped := joinParts_separator_inj (u := 46)
        (fun hnil => List.append_ne_nil_of_right_ne_nil parts (List.cons_ne_nil last [])
          (List.map_eq_nil_iff.mp hnil))
        (fun hnil => List.append_ne_nil_of_right_ne_nil others (List.cons_ne_nil last' [])
          (List.map_eq_nil_iff.mp hnil))
        (fun part hpart => by
          obtain ⟨p, -, rfl⟩ := List.mem_map.mp hpart
          exact dot_notMem_escapePart p)
        (fun part hpart => by
          obtain ⟨p, -, rfl⟩ := List.mem_map.mp hpart
          exact dot_notMem_escapePart p) h
      exact List.map_injective_iff.mpr (fun a b hab => escapePart_inj hab) hescaped
    · obtain ⟨front, hfront⟩ := hend parts last hne
      rw [hfront, List.append_assoc] at h
      have hdigest := append_cons_inj_last (dot_notMem_escapePart last) (hhex _) h
      exact absurd hdigest (hlast _)
  · split at h
    · obtain ⟨front, hfront⟩ := hend others last' hne'
      rw [hfront, List.append_assoc] at h
      have hdigest := append_cons_inj_last (hhex _) (dot_notMem_escapePart last') h
      exact absurd hdigest.symm (hlast' _)
    · -- both were cut: the digests agree
      rw [List.append_assoc, List.append_assoc] at h
      have hdigest := append_cons_inj_last (hhex _) (hhex _) h
      have hlists := List.map_injective_iff.mpr hexDigit_injective hdigest
      have htexts := hsha (Vector.toList_inj.mp hlists)
      exact jsonTexts_inj (List.append_ne_nil_of_right_ne_nil parts (List.cons_ne_nil last []))
        (List.append_ne_nil_of_right_ne_nil others (List.cons_ne_nil last' [])) hparts hothers htexts

/-! ## Identities of instances -/

/-- The parts of an instance's identity after the deployment's; a legacy identity has no
activation. -/
def instanceParts (applicationId pluginId componentId : PortableId) (generation : Generation)
    (activation : Option Activation) : List JsString :=
  [applicationId.text, pluginId.text, componentId.text, tagged "g" generation] ++
    (activation.map fun a => tagged "a" a.toNat).toList

theorem escapePart_tagged {tag : String} (htag : ∀ u ∈ js tag, u ≠ 95 ∧ u ≠ 46) (n : Nat) :
    escapePart (tagged tag n) = tagged tag n := by
  have hplain : ∀ part : JsString, (∀ u ∈ part, u ≠ 95 ∧ u ≠ 46) → escapePart part = part := by
    intro part
    induction part with
    | nil => exact fun _ => rfl
    | cons u part ih =>
      intro h
      obtain ⟨hdash, hdot⟩ := h u List.mem_cons_self
      rw [escapePart_cons, escapeUnit, if_neg hdash, if_neg hdot,
        ih fun v hv => h v (List.mem_cons_of_mem _ hv)]
      rfl
  refine hplain _ fun u hu => ?_
  rcases List.mem_append.mp hu with hu | hu
  · exact htag u hu
  · obtain ⟨c, hc, rfl⟩ := List.mem_map.mp hu
    have hdigit : c.isDigit = true := Nat.isDigit_of_mem_toDigits (by decide) (by decide) hc
    simp only [Char.isDigit, Bool.and_eq_true, decide_eq_true_eq] at hdigit
    have hlow : 48 ≤ c.toNat := hdigit.1
    have hhigh : c.toNat ≤ 57 := hdigit.2
    have hval : (UInt16.ofNat c.toNat).toNat = c.toNat :=
      UInt16.toNat_ofNat_of_lt' (by rw [UInt16.size]; omega)
    refine ⟨fun heq => ?_, fun heq => ?_⟩
    · have hnat := congrArg UInt16.toNat heq
      rw [hval, show UInt16.toNat 95 = 95 from rfl] at hnat
      omega
    · have hnat := congrArg UInt16.toNat heq
      rw [hval, show UInt16.toNat 46 = 46 from rfl] at hnat
      omega

/-- No digest begins with `g`. -/
theorem notDigest_generation (n : Nat) : NotDigest (tagged "g" n) := by
  intro digest h
  have hplain : ∀ u ∈ js "g", u ≠ 95 ∧ u ≠ 46 := by
    intro u hu
    obtain rfl := List.mem_singleton.mp (show u ∈ [103] from hu)
    exact ⟨by decide, by decide⟩
  rw [escapePart_tagged hplain] at h
  have hin : (103 : UInt16) ∈ digest.toList.map hexDigit := h ▸ List.mem_cons_self
  obtain ⟨d, -, hd⟩ := List.mem_map.mp hin
  revert hd
  revert d
  decide

theorem notDigest_activation (activation : Activation) :
    NotDigest (tagged "a" activation.toNat) := by
  intro digest h
  have hplain : ∀ u ∈ js "a", u ≠ 95 ∧ u ≠ 46 := by
    intro u hu
    obtain rfl := List.mem_singleton.mp (show u ∈ [97] from hu)
    exact ⟨by decide, by decide⟩
  rw [escapePart_tagged hplain] at h
  have hlen := congrArg List.length h
  have hdecimal : (decimal activation.toNat).length ≤ 20 := by
    rw [decimal, List.length_map]
    exact (Nat.length_toDigits_le_iff (by decide) (by decide)).mpr
      (Nat.lt_of_lt_of_le activation.toNat_lt (by decide))
  rw [tagged, List.length_append, List.length_map, Vector.length_toList,
    show (js "a").length = 1 from rfl] at hlen
  omega

theorem nameText_instanceParts (applicationId pluginId componentId : PortableId)
    (generation : Generation) (activation : Option Activation) :
    ∀ part ∈ instanceParts applicationId pluginId componentId generation activation,
      NameText part := by
  have hfront : ∀ part ∈ [applicationId.text, pluginId.text, componentId.text,
      tagged "g" generation], NameText part := by
    intro part hpart
    simp only [List.mem_cons, List.not_mem_nil, or_false] at hpart
    rcases hpart with rfl | rfl | rfl | rfl
    exacts [.of_portable _, .of_portable _, .of_portable _, nameText_tagged (by decide) _]
  intro part hpart
  rcases List.mem_append.mp hpart with hpart | hpart
  · exact hfront part hpart
  · cases activation with
    | none => exact absurd hpart List.not_mem_nil
    | some a =>
      rw [List.mem_singleton.mp hpart]
      exact nameText_tagged (by decide) _

def KeepsApart (sha256 : Sha256) (texts : List JsString) : Prop :=
  ∀ text ∈ texts, ∀ other ∈ texts, sha256 text = sha256 other → text = other

theorem instanceParts_inj {applicationId pluginId componentId applicationId' pluginId'
    componentId' : PortableId} {generation generation' : Generation}
    {activation activation' : Option Activation}
    (h : instanceParts applicationId pluginId componentId generation activation =
      instanceParts applicationId' pluginId' componentId' generation' activation') :
    applicationId = applicationId' ∧ pluginId = pluginId' ∧ componentId = componentId' ∧
      generation = generation' ∧ activation = activation' := by
  obtain ⟨hfour, hrest⟩ := List.append_inj h rfl
  simp only [List.cons.injEq, and_true] at hfour
  obtain ⟨happlication, hplugin, hcomponent, hgeneration⟩ := hfour
  refine ⟨PortableId.ext happlication, PortableId.ext hplugin, PortableId.ext hcomponent,
    decimal_injective (List.append_cancel_left hgeneration), ?_⟩
  cases activation with
  | none =>
    cases activation' with
    | none => rfl
    | some a' => cases hrest
  | some a =>
    cases activation' with
    | none => cases hrest
    | some a' =>
      have htags := (List.cons.inj hrest).1
      exact congrArg some (UInt64.toNat_inj.mp (decimal_injective (List.append_cancel_left htags)))

theorem exists_instanceParts (applicationId pluginId componentId : PortableId)
    (generation : Generation) (activation : Option Activation) :
    ∃ front last, front ≠ [] ∧
      instanceParts applicationId pluginId componentId generation activation = front ++ [last] ∧
        NotDigest last := by
  cases activation with
  | none => exact ⟨[applicationId.text, pluginId.text, componentId.text], tagged "g" generation,
      List.cons_ne_nil _ _, rfl, notDigest_generation generation⟩
  | some a => exact ⟨[applicationId.text, pluginId.text, componentId.text, tagged "g" generation],
      tagged "a" a.toNat, List.cons_ne_nil _ _, rfl, notDigest_activation a⟩

/-- **Instances with one identity** are of one deployment, component, generation and
activation. -/
theorem instanceIdentity_inj (sha256 : Sha256)
    {applicationId pluginId componentId applicationId' pluginId' componentId' : PortableId}
    {generation generation' : Generation} {activation activation' : Option Activation}
    (hsha : sha256 (jsonTexts (instanceParts applicationId pluginId componentId generation activation)) =
        sha256 (jsonTexts (instanceParts applicationId' pluginId' componentId' generation' activation')) →
      jsonTexts (instanceParts applicationId pluginId componentId generation activation) =
        jsonTexts (instanceParts applicationId' pluginId' componentId' generation' activation'))
    (h : portableStableId sha256
        (instanceParts applicationId pluginId componentId generation activation) =
      portableStableId sha256
        (instanceParts applicationId' pluginId' componentId' generation' activation')) :
    applicationId = applicationId' ∧ pluginId = pluginId' ∧ componentId = componentId' ∧
      generation = generation' ∧ activation = activation' := by
  have hnames := nameText_instanceParts applicationId pluginId componentId generation activation
  have hnames' := nameText_instanceParts applicationId' pluginId' componentId' generation' activation'
  obtain ⟨front, last, hne, hparts, hlast⟩ :=
    exists_instanceParts applicationId pluginId componentId generation activation
  obtain ⟨front', last', hne', hparts', hlast'⟩ :=
    exists_instanceParts applicationId' pluginId' componentId' generation' activation'
  apply instanceParts_inj
  rw [hparts] at hsha h hnames ⊢
  rw [hparts'] at hsha h hnames' ⊢
  exact portableStableId_inj sha256 hne hne' hnames hnames' hlast hlast' hsha h

end TegoNext
