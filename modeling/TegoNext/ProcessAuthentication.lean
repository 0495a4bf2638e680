/-
The signatures of the messages between the process executor and its child.

A signature covers the canonical text of the direction, the number and the content. The message is
read back with the same content, with one exception: a property called `__proto__` is lost when
the content is copied, and may be put into a signed message on its way.

`JSON.parse` gives back what `JSON.stringify` has written. That nobody else makes signatures is
said of the codes that were issued.
-/
import TegoNext.CanonicalValue
import TegoNext.ResultBuffer

set_option autoImplicit false

namespace TegoNext

open Text CanonicalJson List
open JsonNormalForm (arrayIndex)

namespace ProcessChannel

/-! ## What is signed and read back -/

/-- The order of the properties of an object: array indices first, and by number. -/
def comesBefore (left right : JsString) : Bool :=
  match arrayIndex left, arrayIndex right with
  | some i, some j => decide (i < j)
  | none, some _ => false
  | _, none => true

/-- JSON data as a program has it. -/
inductive IsJsValue : JsonValue → Prop
  | null : IsJsValue .null
  | bool (b : Bool) : IsJsValue (.bool b)
  | number (q : Rat) : IsJsValue (.number q)
  | string (s : JsString) : IsJsValue (.string s)
  | array (items : List JsonValue) (h : ∀ item ∈ items, IsJsValue item) : IsJsValue (.array items)
  | object (fields : JsonFields) (hkeys : (fields.map (·.1)).Nodup)
      (horder : fields.Pairwise fun left right => comesBefore left.1 right.1 = true)
      (h : ∀ field ∈ fields, IsJsValue field.2) : IsJsValue (.object fields)

/-- `JSON.parse` gives back what `JSON.stringify` has written. -/
def ReadsBack (numberText : NumberText) (parse : JsString → Option JsonValue) : Prop :=
  ∀ value, IsJsValue value → parse (stringify numberText value) = some value

structure SignedMessage where
  direction : ProcessMessageDirection
  sequence : Nat
  value : JsonFields

/-- What `digest` covers. -/
def signedText (numberText : NumberText) (m : SignedMessage) : JsString :=
  canonical numberText (.object [(js "direction", .string m.direction.text),
    (js "sequence", .number m.sequence), (js "value", .object (unsigned m.value))])

variable (fields : JsonFields)

/-- The properties of a message that its sender has set. -/
def content : JsonFields :=
  fields.filter fun field => field.1 != js "mac" && field.1 != js "sequence"

/-- The same properties with the same values, in whatever order. -/
def SameContent (fields others : JsonFields) : Prop :=
  serializeWireValue (.object fields) = serializeWireValue (.object others)

/-- There is a property called `__proto__`. -/
def setsPrototype : Bool := fields.any fun field => field.1 == js "__proto__"

variable (platform : ProcessPlatform) (parse : JsString → Option JsonValue) (key : JsString)

/-- The message, signed, written and read, is accepted with exactly the value it was made of. -/
def RoundTrips (m : SignedMessage) : Prop :=
  ∃ input, parse (stringify platform.numberText
      (.object (signProcessMessage platform key m.direction m.sequence m.value))) =
        some (.object input) ∧
    authenticateProcessMessage platform key m.direction m.sequence input = some m.value

/-- Nobody forges codes: what is accepted has the code of something signed, and no two texts have
one code. -/
structure Unforged (signed : List SignedMessage) (m : SignedMessage) : Prop where
  issued : (authenticateProcessMessage platform key m.direction m.sequence m.value).isSome →
    ∃ issued ∈ signed, platform.hmac key (signedText platform.numberText m) =
      platform.hmac key (signedText platform.numberText issued)
  apart : ∀ issued ∈ signed, platform.hmac key (signedText platform.numberText m) =
      platform.hmac key (signedText platform.numberText issued) →
    signedText platform.numberText m = signedText platform.numberText issued

def IsSigned (signed : List SignedMessage) (m : SignedMessage) : Prop :=
  ∃ issued ∈ signed, issued.direction = m.direction ∧ issued.sequence = m.sequence ∧
    SameContent (content issued.value) (content m.value)

/-! ## The round trip -/

theorem unsigned_eq_filter :
    unsigned fields = (content fields).filter fun field => field.1 != js "__proto__" := by
  rw [unsigned, content, filter_filter]
  refine filter_congr fun field _ => ?_
  rw [Bool.and_comm]

theorem unsigned_eq_content_iff :
    unsigned fields = content fields ↔ setsPrototype (content fields) = false := by
  rw [unsigned_eq_filter, filter_eq_self, setsPrototype, any_eq_false]
  simp only [bne_iff_ne, beq_iff_eq, ne_eq]

theorem setsPrototype_content : setsPrototype (content fields) = setsPrototype fields := by
  unfold setsPrototype content
  rw [any_filter]
  congr 1
  funext field
  by_cases h : field.1 = js "__proto__"
  · rw [h]
    decide
  · rw [beq_eq_false_iff_ne.mpr h, Bool.and_false]

theorem content_eq_self {fields : JsonFields} (hmac : js "mac" ∉ fields.map (·.1))
    (hsequence : js "sequence" ∉ fields.map (·.1)) : content fields = fields := by
  rw [content, filter_eq_self]
  intro field hfield
  have hkey := mem_map_of_mem (f := (·.1)) hfield
  rw [Bool.and_eq_true, bne_iff_ne, bne_iff_ne]
  exact ⟨fun h => hmac (h ▸ hkey), fun h => hsequence (h ▸ hkey)⟩

theorem isJsValue_signProcessMessage {m : SignedMessage} (h : IsJsValue (.object m.value)) :
    IsJsValue (.object (signProcessMessage platform key m.direction m.sequence m.value)) := by
  cases h with
  | object _ hkeys horder hvalues =>
    have hlater : ∀ left : JsString, comesBefore left (js "sequence") = true ∧
        comesBefore left (js "mac") = true := by
      intro left
      have hsequence : arrayIndex (js "sequence") = none := by decide
      have hmac : arrayIndex (js "mac") = none := by decide
      rw [comesBefore, comesBefore, hsequence, hmac]
      cases arrayIndex left with
      | none => exact ⟨rfl, rfl⟩
      | some i => exact ⟨rfl, rfl⟩
    have hsub : (unsigned m.value).Sublist m.value := filter_sublist
    have hfresh : ∀ added, added = js "mac" ∨ added = js "sequence" →
        added ∉ (unsigned m.value).map (·.1) := by
      intro added hadded hmem
      obtain ⟨field, hfield, hkey⟩ := mem_map.mp hmem
      have hnone := lookup_eq_none_iff.mp (lookup_unsigned m.value hadded) field hfield
      rw [bne_iff_ne] at hnone
      exact hnone hkey.symm
    rw [signProcessMessage]
    refine .object _ ?_ ?_ ?_
    · rw [map_append, nodup_append]
      have hadded : ([js "sequence", js "mac"] : List JsString).Nodup := by decide
      refine ⟨hkeys.sublist (hsub.map _), hadded, fun left hleft right hright heq => ?_⟩
      subst heq
      simp only [map_cons, map_nil, mem_cons, not_mem_nil, or_false] at hright
      exact hfresh left hright.symm hleft
    · rw [pairwise_append]
      refine ⟨horder.sublist hsub, ?_, fun left _ right hright => ?_⟩
      · simp only [pairwise_cons, mem_singleton, forall_eq, (hlater _).2,
          not_mem_nil, false_imp_iff, implies_true, true_and]
        exact .nil
      · simp only [mem_cons, not_mem_nil, or_false] at hright
        rcases hright with rfl | rfl
        · exact (hlater _).1
        · exact (hlater _).2
    · intro field hfield
      simp only [mem_append, mem_cons, not_mem_nil, or_false] at hfield
      rcases hfield with hold | rfl | rfl
      · exact hvalues field (hsub.subset hold)
      · exact .number _
      · exact .string _

variable {platform parse key}

theorem roundTrips_iff (hparse : ReadsBack platform.numberText parse) {m : SignedMessage}
    (hvalue : IsJsValue (.object m.value)) (hmac : js "mac" ∉ m.value.map (·.1))
    (hsequence : js "sequence" ∉ m.value.map (·.1)) :
    RoundTrips platform parse key m ↔ setsPrototype m.value = false ∧ m.sequence < 2 ^ 53 := by
  unfold RoundTrips
  rw [hparse _ (isJsValue_signProcessMessage platform key hvalue)]
  have hcontent := content_eq_self hmac hsequence
  constructor
  · rintro ⟨input, hinput, haccepted⟩
    obtain rfl := JsonValue.object.inj (Option.some.inj hinput)
    rw [authenticate_signProcessMessage] at haccepted
    by_cases hsafe : m.sequence < 2 ^ 53
    · rw [if_pos hsafe] at haccepted
      rw [← hcontent]
      refine ⟨(unsigned_eq_content_iff _).mp ?_, hsafe⟩
      rw [Option.some.inj haccepted, hcontent]
    · rw [if_neg hsafe] at haccepted
      cases haccepted
  · rintro ⟨hplain, hsafe⟩
    refine ⟨_, rfl, ?_⟩
    rw [← hcontent] at hplain
    rw [authenticate_signProcessMessage, if_pos hsafe, (unsigned_eq_content_iff _).mpr hplain,
      hcontent]

/-! ## The signed text determines the message -/

/-- **One text, one message**, up to the order of the properties of its content. -/
theorem eq_of_signedText (hprints : PrintsApart platform.numberText) {m n : SignedMessage}
    (h : signedText platform.numberText m = signedText platform.numberText n) :
    m.direction = n.direction ∧ m.sequence = n.sequence ∧
      SameContent (unsigned m.value) (unsigned n.value) := by
  have hsame := (canonical_eq_iff hprints).mp h
  rw [serializeWireValue_object_iff] at hsame
  · simp only [map_cons, map_nil, List.cons.injEq, and_true] at hsame
    obtain ⟨hdirection, hsequence, hvalue⟩ := hsame
    refine ⟨?_, Nat.cast_injective (JsonValue.number.inj hsequence), hvalue⟩
    have htext := JsonValue.string.inj hdirection
    cases hm : m.direction <;> cases hn : n.direction <;> rw [hm, hn] at htext
    · exact absurd htext (by decide)
    · exact absurd htext (by decide)
  · rfl
  · have hkeys : [js "direction", js "sequence", js "value"].Nodup := by decide
    exact hkeys

theorem setsPrototype_eq {fields others : JsonFields} (h : SameContent fields others) :
    setsPrototype fields = setsPrototype others := by
  have hkept : ∀ entries : JsonFields, setsPrototype entries =
      (JsValue.sortFields (serializeFields entries)).any fun field => field.1 == js "__proto__" := by
    intro entries
    rw [JsValue.sortFields, (perm_insertionSort _ _).any_eq, serializeFields_eq_map, any_map]
    rfl
  unfold SameContent at h
  rw [serializeWireValue, serializeWireValue] at h
  rw [hkept, hkept, show JsValue.sortFields (serializeFields fields) = _ from
    JsonValue.object.inj h]
  rfl

/-- **When messages are authentic.** A message goes through unchanged just when it does not set
`__proto__` and its number is a safe integer; where nobody forges codes and nothing that was
signed sets `__proto__`, the accepted messages that do not either are what was signed. -/
theorem messages_authentic_iff (hprints : PrintsApart platform.numberText)
    (hparse : ReadsBack platform.numberText parse) :
    (∀ m : SignedMessage, IsJsValue (.object m.value) → js "mac" ∉ m.value.map (·.1) →
      js "sequence" ∉ m.value.map (·.1) →
      (RoundTrips platform parse key m ↔ setsPrototype m.value = false ∧ m.sequence < 2 ^ 53)) ∧
    ∀ (signed : List SignedMessage) (m : SignedMessage),
      (∀ issued ∈ signed, setsPrototype issued.value = false) →
      (authenticateProcessMessage platform key m.direction m.sequence m.value).isSome →
      Unforged platform key signed m → (IsSigned signed m ↔ setsPrototype m.value = false) := by
  refine ⟨fun m => roundTrips_iff hparse, fun signed m hsigned haccepted hunforged => ?_⟩
  constructor
  · rintro ⟨issued, hissued, -, -, hsame⟩
    rw [← setsPrototype_content, ← setsPrototype_eq hsame, setsPrototype_content]
    exact hsigned issued hissued
  · intro hplain
    obtain ⟨issued, hissued, hcode⟩ := hunforged.issued haccepted
    obtain ⟨hdirection, hsequence, hsame⟩ :=
      eq_of_signedText hprints (hunforged.apart issued hissued hcode)
    have hkept : ∀ n : SignedMessage, setsPrototype n.value = false →
        unsigned n.value = content n.value := fun n hn => by
      rw [unsigned_eq_content_iff, setsPrototype_content, hn]
    rw [hkept m hplain, hkept issued (hsigned issued hissued)] at hsame
    exact ⟨issued, hissued, hdirection.symm, hsequence.symm, hsame.symm⟩

/-! ## A message that sets `__proto__` -/

def naturalPlatform : ProcessPlatform :=
  { samplePlatform with numberText := ResultBuffer.naturalText }

open Classical in
/-- The inverse of `JSON.stringify`. -/
noncomputable def readText (text : JsString) : Option JsonValue :=
  if h : ∃ value, stringify naturalPlatform.numberText value = text then some h.choose else none

theorem readsBack_readText : ReadsBack naturalPlatform.numberText readText := by
  intro value _
  have h : ∃ other, stringify naturalPlatform.numberText other =
      stringify naturalPlatform.numberText value := ⟨value, rfl⟩
  rw [readText, dif_pos h]
  exact congrArg some (stringify_injective ResultBuffer.naturalText_printsApart _ _ h.choose_spec)

def commandMessage (property : String) : SignedMessage where
  direction := .parentToChild
  sequence := 4
  value := [(js property, .string (js "drain"))]

theorem isJsValue_commandMessage (property : String) :
    IsJsValue (.object (commandMessage property).value) := by
  refine .object _ (nodup_singleton _) (pairwise_singleton _ _) fun field hfield => ?_
  rw [mem_singleton.mp hfield]
  exact .string _

def receivedCommand : SignedMessage :=
  { commandMessage "command" with
    value := signProcessMessage naturalPlatform [] .parentToChild 4
      (commandMessage "command").value }

theorem messages_authentic_command :
    RoundTrips naturalPlatform readText [] (commandMessage "command") ∧
      IsSigned [commandMessage "command"] receivedCommand := by
  have hall := @messages_authentic_iff naturalPlatform readText []
    ResultBuffer.naturalText_printsApart readsBack_readText
  have htext : signedText naturalPlatform.numberText receivedCommand =
      signedText naturalPlatform.numberText (commandMessage "command") := by
    rw [signedText, signedText, show unsigned receivedCommand.value = _ from
      unsigned_signProcessMessage _ _ _ _ _]
    rfl
  refine ⟨(hall.1 _ (isJsValue_commandMessage _) (by decide) (by decide)).mpr (by decide),
    (hall.2 [commandMessage "command"] receivedCommand (by decide) ?_ ⟨fun _ => ?_,
      fun issued hissued _ => ?_⟩).mpr (by decide +kernel)⟩
  · rw [show authenticateProcessMessage naturalPlatform [] receivedCommand.direction
      receivedCommand.sequence receivedCommand.value = _ from
        authenticate_signProcessMessage _ _ _ _ _]
    rfl
  · exact ⟨_, mem_singleton_self _, congrArg _ htext⟩
  · rw [mem_singleton.mp hissued, htext]

/-- **A property is lost.** The message is accepted without it. -/
theorem prototype_not_returned :
    ¬ RoundTrips naturalPlatform readText [] (commandMessage "__proto__") := by
  rw [roundTrips_iff readsBack_readText (isJsValue_commandMessage _) (by decide) (by decide)]
  decide

end ProcessChannel

end TegoNext
