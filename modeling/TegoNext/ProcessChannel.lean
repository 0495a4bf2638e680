/-
The channel from the process executor to its child.

Every frame after the bootstrap is signed with the number of frames before it, and the child closes
the channel at a frame whose number it does not expect. The number is taken, and the request is
registered, before the frame is encoded: a value the encoder refuses leaves a gap in the numbers and
a request that is never answered.

A message is the list of its fields; `none` stands for a value that is not JSON data.
-/
import TegoNext.Machine
import TegoNext.CanonicalJson
import TegoNext.ReconcilePlan

set_option autoImplicit false

namespace TegoNext

open Text CanonicalJson

abbrev JsonFields : Type := List (JsString × JsonValue)

structure ProcessPlatform where
  numberText : NumberText
  /-- HMAC-SHA-256. -/
  hmac : JsString → JsString → Vector (Fin 16) 64
  /-- The bytes of `JSON.stringify` in UTF-8. -/
  jsonBytes : JsonFields → Nat

open List

inductive ProcessMessageDirection where
  | childToParent
  | parentToChild

def ProcessMessageDirection.text : ProcessMessageDirection → JsString
  | .childToParent => js "child-to-parent"
  | .parentToChild => js "parent-to-child"

namespace ProcessChannel

variable (platform : ProcessPlatform)

/-! ## Authentication -/

/-- `unsigned`. What is assigned under `__proto__` becomes the prototype, if anything, and not a
property. -/
def unsigned (fields : JsonFields) : JsonFields :=
  fields.filter fun field =>
    field.1 != js "mac" && field.1 != js "sequence" && field.1 != js "__proto__"

def digest (key : JsString) (direction : ProcessMessageDirection) (sequence : Nat)
    (value : JsonFields) : JsString :=
  (platform.hmac key (canonical platform.numberText (.object
    [(js "direction", .string direction.text), (js "sequence", .number sequence),
      (js "value", .object value)]))).toList.map hexDigit

def signProcessMessage (key : JsString) (direction : ProcessMessageDirection) (sequence : Nat)
    (value : JsonFields) : JsonFields :=
  unsigned value ++ [(js "sequence", .number sequence),
    (js "mac", .string (digest platform key direction sequence (unsigned value)))]

/-- `authenticateProcessMessage`; `none` when it throws. A message authentication code in
another form than the one `digest` has differs from it. -/
def authenticateProcessMessage (key : JsString) (direction : ProcessMessageDirection)
    (expectedSequence : Nat) (input : JsonFields) : Option JsonFields :=
  match input.lookup (js "mac"), input.lookup (js "sequence") with
  | some (.string mac), some (.number sequence) =>
    if sequence = expectedSequence ∧ expectedSequence < 2 ^ 53 ∧
        mac = digest platform key direction expectedSequence (unsigned input) then
      some (unsigned input)
    else none
  | _, _ => none

/-! ## The channel -/

/-- `PROCESS_EXECUTOR_MAX_FRAME_BYTES`. -/
def maxFrameBytes : Nat := 1024 * 1024

/-- `PROCESS_CHANNEL_MAX_PENDING`. -/
def maxPending : Nat := 64

/-- `encodeProcessFrame`; `none` when it throws. -/
def encodeProcessFrame (fields : JsonFields) : Option JsonFields :=
  if platform.jsonBytes fields = 0 ∨ maxFrameBytes < platform.jsonBytes fields then none
  else some fields

structure Frame where
  signed : Bool
  fields : JsonFields

end ProcessChannel

open ProcessChannel in
/-- `pending` are the numbers of the requests that wait for their answers. -/
structure ProcessChannel where
  pending : List Nat
  nextId : Nat
  closed : Bool
  authenticationActive : Bool
  outboundSequence : Nat
  written : List Frame

namespace ProcessChannel

variable (platform : ProcessPlatform) (channelKey : JsString)

def initial : ProcessChannel where
  pending := []
  nextId := 0
  closed := false
  authenticationActive := false
  outboundSequence := 0
  written := []

section

variable (c : ProcessChannel)

/-- `#write`; `false` when it throws. -/
def write (message : Option JsonFields) (unsigned : Bool) : Bool × ProcessChannel :=
  let value := if unsigned then message
    else message.map (signProcessMessage platform channelKey .parentToChild c.outboundSequence)
  let c := if unsigned then c else { c with outboundSequence := c.outboundSequence + 1 }
  match value.bind (encodeProcessFrame platform) with
  | some fields => (true, { c with written := c.written ++ [⟨!unsigned, fields⟩] })
  | none => (false, c)

/-- `{ ...fields, key: value }`. -/
def setField (fields : JsonFields) (key : JsString) (value : JsonValue) : JsonFields :=
  if fields.any fun field => field.1 == key then
    fields.map fun field => if field.1 = key then (key, value) else field
  else fields ++ [(key, value)]

structure ProcessMessage where
  kind : JsString
  fields : Option JsonFields

def ProcessMessage.isBootstrap (message : ProcessMessage) : Bool := message.kind == js "bootstrap"

/-- What `request` writes. -/
def requestValue (message : ProcessMessage) (id : Nat) : Option JsonFields :=
  message.fields.map fun fields =>
    let value := setField (setField fields (js "kind") (.string message.kind)) (js "id")
      (.string (js "message-" ++ decimal id))
    if message.isBootstrap then setField value (js "channelKey") (.string channelKey) else value

/-- `request`, until its answer is waited for; `false` when it is rejected. -/
def request (message : ProcessMessage) : Bool × ProcessChannel :=
  if c.closed then (false, c)
  else if maxPending ≤ c.pending.length then (false, c)
  else
    let id := c.nextId + 1
    let c := { c with nextId := id, pending := c.pending ++ [id] }
    if message.isBootstrap && c.authenticationActive then
      (false, { c with pending := c.pending.filter (· != id) })
    else
      let c := if message.isBootstrap then { c with authenticationActive := true } else c
      c.write platform channelKey (requestValue channelKey message id) message.isBootstrap

/-- What happens to a channel: a request, a `#write` of an answer to the child, an answer of
the child, and the end of the channel. -/
inductive ChannelOp where
  | request (message : ProcessMessage)
  | respond (message : Option JsonFields)
  | answered (id : Nat)
  | fail

/-- One operation; `false` when a send is rejected. -/
def perform : ChannelOp → Bool × ProcessChannel
  | .request message => c.request platform channelKey message
  | .respond message => c.write platform channelKey message false
  | .answered id => (true, { c with pending := c.pending.filter (· != id) })
  | .fail => (true, { c with
      closed := true
      pending := [] })

def performAll (c : ProcessChannel) : List ChannelOp → ProcessChannel
  | [] => c
  | op :: ops => performAll (c.perform platform channelKey op).2 ops

/-- Something holds of every operation, in the state it is made in. -/
def Every (P : ProcessChannel → ChannelOp → Prop) : ProcessChannel → List ChannelOp → Prop
  | _, [] => True
  | c, op :: ops => P c op ∧ Every P (c.perform platform channelKey op).2 ops

/-! ## What the claim is about -/

def signedFrames : List JsonFields := (c.written.filter (·.signed)).map (·.fields)

/-- A rejected send leaves the numbers and the requests as they were. -/
def Harmless (op : ChannelOp) : Prop :=
  (c.perform platform channelKey op).1 = false →
    (c.perform platform channelKey op).2.outboundSequence = c.outboundSequence ∧
      (c.perform platform channelKey op).2.pending = c.pending

/-- The child accepts the signed frames one after the other, and rejected sends are
harmless. -/
def Sequenced (ops : List ChannelOp) : Prop :=
  (∀ (k : Nat) (frame : JsonFields),
    (performAll platform channelKey initial ops).signedFrames[k]? = some frame →
      frame.lookup (js "sequence") = some (.number k) ∧
        (authenticateProcessMessage platform channelKey .parentToChild k frame).isSome) ∧
  Every platform channelKey (Harmless platform channelKey) initial ops

/-- What an operation has encoded, and whether it is signed; `none` when there is nothing. -/
def outgoing : ChannelOp → Option (Bool × Option JsonFields)
  | .request message =>
    if c.closed || maxPending ≤ c.pending.length ||
        message.isBootstrap && c.authenticationActive then none
    else some (!message.isBootstrap, requestValue channelKey message (c.nextId + 1))
  | .respond message => some (true, message)
  | .answered _ => none
  | .fail => none

/-- The encoder takes the value: it is JSON data that fits into a frame, with its signature. -/
def Encodes (signed : Bool) (value : Option JsonFields) : Prop :=
  ∃ fields, value = some fields ∧ (encodeProcessFrame platform (if signed then
    signProcessMessage platform channelKey .parentToChild c.outboundSequence fields
    else fields)).isSome

/-- Nothing the operation sends is refused by the encoder. -/
def Encodable (op : ChannelOp) : Prop :=
  ∀ signed value, outgoing channelKey c op = some (signed, value) →
    Encodes platform channelKey c signed value

/-- How many signed frames a sequence of operations asks for. -/
def signedSends (c : ProcessChannel) : List ChannelOp → Nat
  | [] => 0
  | op :: ops =>
    (if (outgoing channelKey c op).any (·.1) then 1 else 0) +
      signedSends (c.perform platform channelKey op).2 ops

end

/-! ## Signed messages are accepted -/

theorem lookup_unsigned (fields : JsonFields) {key : JsString}
    (hkey : key = js "mac" ∨ key = js "sequence") : (unsigned fields).lookup key = none := by
  rw [lookup_eq_none_iff]
  intro field hfield
  obtain ⟨-, hother⟩ := mem_filter.mp hfield
  rw [Bool.and_eq_true, Bool.and_eq_true, bne_iff_ne, bne_iff_ne] at hother
  rw [bne_iff_ne]
  rcases hkey with rfl | rfl
  · exact fun h => hother.1.1 h.symm
  · exact fun h => hother.1.2 h.symm

theorem unsigned_unsigned (fields : JsonFields) : unsigned (unsigned fields) = unsigned fields := by
  rw [unsigned, unsigned, filter_filter]
  simp only [Bool.and_self]

section

variable (key : JsString) (direction : ProcessMessageDirection) (sequence : Nat)
  (value : JsonFields)

theorem unsigned_signProcessMessage :
    unsigned (signProcessMessage platform key direction sequence value) = unsigned value := by
  rw [signProcessMessage, unsigned, filter_append, ← unsigned, unsigned_unsigned]
  have hnone : ([(js "sequence", .number sequence),
      (js "mac", .string (digest platform key direction sequence (unsigned value)))] :
        JsonFields).filter (fun field => field.1 != js "mac" && field.1 != js "sequence" &&
          field.1 != js "__proto__") = [] := by
    simp
  rw [hnone, append_nil]

theorem sequence_signProcessMessage :
    (signProcessMessage platform key direction sequence value).lookup (js "sequence") =
      some (.number sequence) := by
  rw [signProcessMessage, lookup_append, lookup_unsigned value (.inr rfl), Option.none_or,
    lookup_cons_self]

theorem mac_signProcessMessage :
    (signProcessMessage platform key direction sequence value).lookup (js "mac") =
      some (.string (digest platform key direction sequence (unsigned value))) := by
  have hne : (js "mac" == js "sequence") = false := by decide
  rw [signProcessMessage, lookup_append, lookup_unsigned value (.inl rfl), Option.none_or,
    lookup_cons, hne, lookup_cons_self]

theorem authenticate_signProcessMessage :
    authenticateProcessMessage platform key direction sequence
      (signProcessMessage platform key direction sequence value) =
        if sequence < 2 ^ 53 then some (unsigned value) else none := by
  rw [authenticateProcessMessage, mac_signProcessMessage, sequence_signProcessMessage]
  dsimp only
  rw [unsigned_signProcessMessage]
  by_cases h : sequence < 2 ^ 53
  · rw [if_pos ⟨rfl, h, rfl⟩, if_pos h]
  · rw [if_neg fun hall => h hall.2.1, if_neg h]

end

/-! ## One operation -/

theorem eq_of_encodeProcessFrame {platform : ProcessPlatform} {fields frame : JsonFields}
    (h : encodeProcessFrame platform fields = some frame) : frame = fields := by
  unfold encodeProcessFrame at h
  split at h
  · cases h
  · exact (Option.some.inj h).symm

section

variable {platform channelKey} {c : ProcessChannel} {op : ChannelOp} {ops : List ChannelOp}
  {signed : Bool} {value : Option JsonFields}

theorem outboundSequence_write : (c.write platform channelKey value (!signed)).2.outboundSequence =
    c.outboundSequence + if signed then 1 else 0 := by
  unfold write
  cases signed with
  | false =>
    dsimp only [Bool.not_false]
    split
    · rfl
    · rfl
  | true =>
    dsimp only [Bool.not_true]
    split
    · rfl
    · rfl

theorem pending_write {isUnsigned : Bool} :
    (c.write platform channelKey value isUnsigned).2.pending = c.pending ∧
      (c.write platform channelKey value isUnsigned).2.nextId = c.nextId := by
  unfold write
  cases isUnsigned with
  | false | true =>
    dsimp only
    split
    · exact ⟨rfl, rfl⟩
    · exact ⟨rfl, rfl⟩

theorem write_of_encodes {fields : JsonFields}
    (h : (encodeProcessFrame platform (if signed then
      signProcessMessage platform channelKey .parentToChild c.outboundSequence fields
      else fields)).isSome) :
    c.write platform channelKey (some fields) (!signed) = (true, { c with
      outboundSequence := c.outboundSequence + if signed then 1 else 0
      written := c.written ++ [⟨signed, if signed then
        signProcessMessage platform channelKey .parentToChild c.outboundSequence fields
        else fields⟩] }) := by
  obtain ⟨frame, hframe⟩ := Option.isSome_iff_exists.mp h
  obtain rfl := eq_of_encodeProcessFrame hframe
  unfold write
  cases signed with
  | false =>
    simp only [Bool.false_eq_true, if_false] at hframe
    simp only [Bool.not_false, if_true, Option.bind_some, hframe, Bool.not_true,
      Bool.false_eq_true, if_false]
    rfl
  | true =>
    simp only [if_true] at hframe
    simp only [Bool.not_true, Bool.false_eq_true, if_false, Option.map_some, Option.bind_some,
      hframe, Bool.not_false, if_true]

theorem write_of_not_encodes (h : ¬ Encodes platform channelKey c signed value) :
    (c.write platform channelKey value (!signed)).1 = false := by
  unfold write
  have hnone : ((if (!signed) = true then value else value.map
      (signProcessMessage platform channelKey .parentToChild c.outboundSequence)).bind
        (encodeProcessFrame platform)) = none := by
    rw [Option.eq_none_iff_forall_ne_some]
    intro frame hframe
    obtain ⟨fields, hfields, hencoded⟩ := Option.bind_eq_some_iff.mp hframe
    refine h ?_
    cases signed with
    | false =>
      rw [Bool.not_false, if_pos rfl] at hfields
      exact ⟨fields, hfields, by
        rw [if_neg Bool.false_ne_true, hencoded]
        rfl⟩
    | true =>
      rw [Bool.not_true, if_neg Bool.false_ne_true] at hfields
      obtain ⟨content, hcontent, rfl⟩ := Option.map_eq_some_iff.mp hfields
      exact ⟨content, hcontent, by
        rw [if_pos rfl, hencoded]
        rfl⟩
  dsimp only
  rw [hnone]

/-- The channel as an operation finds it when it encodes its value. -/
def prepared (c : ProcessChannel) : ChannelOp → ProcessChannel
  | .request message => { c with
      nextId := c.nextId + 1
      pending := c.pending ++ [c.nextId + 1]
      authenticationActive := message.isBootstrap || c.authenticationActive }
  | _ => c

theorem perform_of_outgoing (h : outgoing channelKey c op = some (signed, value)) :
    c.perform platform channelKey op =
      (prepared c op).write platform channelKey value (!signed) := by
  cases op with
  | request message =>
    rw [outgoing] at h
    split at h
    · cases h
    next hopen =>
    obtain ⟨rfl, rfl⟩ := Prod.mk.inj (Option.some.inj h)
    simp only [Bool.or_eq_true, not_or, decide_eq_true_eq] at hopen
    obtain ⟨⟨hclosed, hroom⟩, hfirst⟩ := hopen
    rw [perform, request, if_neg hclosed, if_neg hroom]
    rw [if_neg hfirst, Bool.not_not]
    cases hboot : message.isBootstrap with
    | false => rw [prepared, hboot, if_neg Bool.false_ne_true, Bool.false_or]
    | true => rw [prepared, hboot, if_pos rfl, Bool.true_or]
  | respond message =>
    obtain ⟨rfl, rfl⟩ := Prod.mk.inj (Option.some.inj h)
    rfl
  | answered id => cases h
  | fail => cases h

theorem outboundSequence_prepared : (prepared c op).outboundSequence = c.outboundSequence := by
  cases op with
  | request _ | respond _ | answered _ | fail => rfl

theorem written_prepared : (prepared c op).written = c.written := by
  cases op with
  | request _ | respond _ | answered _ | fail => rfl

def Numbered (c : ProcessChannel) : Prop := ∀ id ∈ c.pending, id ≤ c.nextId

/-- An operation that encodes nothing changes no number, and no request when it is
rejected. -/
theorem perform_of_outgoing_none (hnumbered : c.Numbered) (h : outgoing channelKey c op = none) :
    (c.perform platform channelKey op).2.outboundSequence = c.outboundSequence ∧
      (c.perform platform channelKey op).2.written = c.written ∧
      ((c.perform platform channelKey op).1 = false →
        (c.perform platform channelKey op).2.pending = c.pending) ∧
      (c.perform platform channelKey op).2.Numbered := by
  cases op with
  | respond message => cases h
  | answered id =>
    exact ⟨rfl, rfl, fun h => (nomatch h), fun k hk => hnumbered k (mem_of_mem_filter hk)⟩
  | fail => exact ⟨rfl, rfl, fun h => (nomatch h), fun k hk => nomatch hk⟩
  | request message =>
    rw [perform, request]
    split
    · exact ⟨rfl, rfl, fun _ => rfl, hnumbered⟩
    next hclosed =>
    split
    · exact ⟨rfl, rfl, fun _ => rfl, hnumbered⟩
    next hroom =>
    rw [outgoing] at h
    split at h
    · next hrefused =>
      simp only [Bool.or_eq_true, decide_eq_true_eq] at hrefused
      have hsecond : (message.isBootstrap && c.authenticationActive) = true := by
        rcases hrefused with (h₁ | h₂) | h₃
        · exact absurd h₁ hclosed
        · exact absurd h₂ hroom
        · exact h₃
      rw [if_pos hsecond]
      -- the request that is taken back was the only one with its number
      have hback : (c.pending ++ [c.nextId + 1]).filter (· != c.nextId + 1) = c.pending := by
        rw [filter_append, filter_eq_self.mpr fun k hk => ?_]
        · simp
        · rw [bne_iff_ne]
          have := hnumbered k hk
          omega
      refine ⟨rfl, rfl, fun _ => hback, fun k hk => ?_⟩
      rw [hback] at hk
      exact (hnumbered k hk).trans (Nat.le_succ _)
    · cases h

theorem outboundSequence_perform (hnumbered : c.Numbered) :
    (c.perform platform channelKey op).2.outboundSequence =
      c.outboundSequence + if (outgoing channelKey c op).any (·.1) then 1 else 0 := by
  cases h : outgoing channelKey c op with
  | none => exact (perform_of_outgoing_none hnumbered h).1
  | some sent =>
    obtain ⟨signed, value⟩ := sent
    rw [perform_of_outgoing h, outboundSequence_write, outboundSequence_prepared, Option.any_some]

theorem Numbered.perform (hnumbered : c.Numbered) :
    (c.perform platform channelKey op).2.Numbered := by
  cases h : outgoing channelKey c op with
  | none => exact (perform_of_outgoing_none hnumbered h).2.2.2
  | some sent =>
    obtain ⟨signed, value⟩ := sent
    intro k hk
    rw [perform_of_outgoing h] at hk ⊢
    rw [pending_write.1] at hk
    rw [pending_write.2]
    cases op with
    | request message =>
      rcases mem_append.mp hk with hk | hk
      · exact (hnumbered k hk).trans (Nat.le_succ _)
      · rw [mem_singleton.mp hk]
        exact Nat.le_refl _
    | respond _ => exact hnumbered k hk
    | answered _ => cases h
    | fail => cases h

theorem harmless_iff (hnumbered : c.Numbered) :
    Harmless platform channelKey c op ↔ Encodable platform channelKey c op := by
  cases h : outgoing channelKey c op with
  | none =>
    obtain ⟨hsequence, -, hpending, -⟩ := @perform_of_outgoing_none platform channelKey c op hnumbered h
    refine ⟨fun _ signed value hsome => ?_, fun _ hrejected => ⟨hsequence, hpending hrejected⟩⟩
    rw [h] at hsome
    cases hsome
  | some sent =>
    obtain ⟨signed, value⟩ := sent
    have hprepared : Encodes platform channelKey (prepared c op) signed value ↔
        Encodes platform channelKey c signed value := by
      unfold Encodes
      rw [outboundSequence_prepared]
    constructor
    · intro hharmless signed' value' hsome
      obtain ⟨rfl, rfl⟩ := Prod.mk.inj (Option.some.inj (h.symm.trans hsome))
      by_contra hnot
      have hrejected : (c.perform platform channelKey op).1 = false := by
        rw [perform_of_outgoing h]
        exact write_of_not_encodes fun hencodes => hnot (hprepared.mp hencodes)
      obtain ⟨hsequence, hpending⟩ := hharmless hrejected
      rw [outboundSequence_perform hnumbered, h, Option.any_some] at hsequence
      rw [perform_of_outgoing h, pending_write.1] at hpending
      cases op with
      | request message =>
        have hlength := congrArg List.length hpending
        rw [prepared, length_append, length_singleton] at hlength
        omega
      | respond message =>
        obtain ⟨rfl, -⟩ := Prod.mk.inj (Option.some.inj h)
        rw [if_pos rfl] at hsequence
        omega
      | answered _ => cases h
      | fail => cases h
    · intro hencodable hrejected
      obtain ⟨fields, rfl, hencoded⟩ := hprepared.mpr (hencodable signed value h)
      rw [perform_of_outgoing h, write_of_encodes hencoded] at hrejected
      cases hrejected

/-! ## All operations -/

/-- The signed frames carry their numbers. -/
structure Consecutive (platform : ProcessPlatform) (channelKey : JsString) (c : ProcessChannel) :
    Prop where
  numbered : c.Numbered
  length : c.signedFrames.length = c.outboundSequence
  signed : ∀ (k : Nat) (frame : JsonFields), c.signedFrames[k]? = some frame →
    ∃ value, frame = signProcessMessage platform channelKey .parentToChild k value

theorem Consecutive.perform (hc : Consecutive platform channelKey c)
    (hop : Encodable platform channelKey c op) :
    Consecutive platform channelKey (c.perform platform channelKey op).2 := by
  cases h : outgoing channelKey c op with
  | none =>
    obtain ⟨hsequence, hwritten, -, hnumbered⟩ :=
      @perform_of_outgoing_none platform channelKey c op hc.numbered h
    refine ⟨hnumbered, ?_, ?_⟩
    · rw [signedFrames, hwritten, hsequence]
      exact hc.length
    · rw [signedFrames, hwritten]
      exact hc.signed
  | some sent =>
    obtain ⟨signed, value⟩ := sent
    obtain ⟨fields, rfl, hencoded⟩ := hop signed value h
    rw [← @outboundSequence_prepared c op] at hencoded
    have hperform := (@perform_of_outgoing platform channelKey c op _ _ h).trans
      (write_of_encodes hencoded)
    have hnumbered : (c.perform platform channelKey op).2.Numbered := hc.numbered.perform
    rw [hperform] at hnumbered ⊢
    refine ⟨hnumbered, ?_, fun k frame hframe => ?_⟩
    · rw [signedFrames, written_prepared, outboundSequence_prepared, filter_append,
        map_append, length_append, ← signedFrames, hc.length]
      cases signed with
      | false => rfl
      | true => rfl
    · rw [signedFrames, written_prepared, outboundSequence_prepared, filter_append,
        map_append, ← signedFrames] at hframe
      cases signed with
      | false =>
        have hold : c.signedFrames[k]? = some frame := by simpa using hframe
        exact hc.signed k frame hold
      | true =>
        rcases getElem?_concat_cases hframe with hold | ⟨rfl, rfl⟩
        · exact hc.signed k frame hold
        · rw [hc.length]
          exact ⟨fields, rfl⟩

theorem consecutive_initial : Consecutive platform channelKey initial where
  numbered _ h := nomatch h
  length := rfl
  signed _ _ h := nomatch h

theorem Consecutive.performAll : ∀ {c : ProcessChannel} {ops : List ChannelOp},
    Consecutive platform channelKey c →
    Every platform channelKey (Encodable platform channelKey) c ops →
    Consecutive platform channelKey (performAll platform channelKey c ops)
  | _, [], hc, _ => hc
  | _, _ :: _, hc, hops => (hc.perform hops.1).performAll hops.2

theorem every_harmless_iff : ∀ {c : ProcessChannel} {ops : List ChannelOp}, c.Numbered →
    (Every platform channelKey (Harmless platform channelKey) c ops ↔
      Every platform channelKey (Encodable platform channelKey) c ops)
  | _, [], _ => Iff.rfl
  | _, _ :: _, hc => and_congr (harmless_iff hc) (every_harmless_iff hc.perform)

theorem outboundSequence_performAll : ∀ {c : ProcessChannel} {ops : List ChannelOp}, c.Numbered →
    (performAll platform channelKey c ops).outboundSequence =
      c.outboundSequence + signedSends platform channelKey c ops
  | _, [], _ => rfl
  | _, _ :: _, hc => by
    rw [performAll, outboundSequence_performAll hc.perform, outboundSequence_perform hc,
      signedSends, Nat.add_assoc]

end

/-- **When sends are sequenced**: exactly when the encoder refuses nothing that reaches it, and no
more than 2 ^ 53 frames are signed. -/
theorem sends_sequenced_iff (ops : List ChannelOp) :
    Sequenced platform channelKey ops ↔
      Every platform channelKey (Encodable platform channelKey) initial ops ∧
        signedSends platform channelKey initial ops ≤ 2 ^ 53 := by
  have hinitial : Consecutive platform channelKey initial := consecutive_initial
  have hsequence : (performAll platform channelKey initial ops).outboundSequence =
      signedSends platform channelKey initial ops := by
    rw [outboundSequence_performAll hinitial.numbered]
    exact Nat.zero_add _
  rw [Sequenced, every_harmless_iff hinitial.numbered, and_comm]
  refine and_congr_right fun hops => ?_
  have hall := hinitial.performAll hops
  constructor
  · intro haccepted
    by_contra hmany
    -- the frame with the first number that is not safe is refused
    have hlength : 2 ^ 53 < (performAll platform channelKey initial ops).signedFrames.length := by
      rw [hall.length, hsequence]
      exact Nat.lt_of_not_le hmany
    have hframe := getElem?_eq_getElem hlength
    obtain ⟨value, hvalue⟩ := hall.signed _ _ hframe
    have hsome := (haccepted _ _ hframe).2
    rw [hvalue, authenticate_signProcessMessage, if_neg (Nat.lt_irrefl _)] at hsome
    cases hsome
  · intro hfew k frame hframe
    obtain ⟨value, rfl⟩ := hall.signed k frame hframe
    have hk : k < 2 ^ 53 := by
      have hlt := (List.getElem?_eq_some_iff.mp hframe).1
      rw [hall.length, hsequence] at hlt
      omega
    refine ⟨sequence_signProcessMessage _ _ _ _ _, ?_⟩
    rw [authenticate_signProcessMessage, if_pos hk]
    rfl

/-! ## A refused command -/

def samplePlatform : ProcessPlatform where
  numberText _ := ⟨js "0", isNumberUnit_zero⟩
  hmac _ _ := Vector.replicate 64 0
  jsonBytes fields := fields.length

/-- The channel is bootstrapped; a command that is not JSON data is followed by one that is. -/
def refusedCommand : List ChannelOp :=
  [.request ⟨js "bootstrap", some [(js "now", .string [])]⟩, .request ⟨js "command", none⟩,
    .request ⟨js "command", some [(js "command", .null)]⟩]

/-- **A refused send is not taken back.** The second frame the child gets has number one. -/
theorem refusedCommand_not_sequenced :
    ¬ Sequenced samplePlatform [] refusedCommand ∧
      (performAll samplePlatform [] initial refusedCommand).signedFrames.map
        (fun frame => (authenticateProcessMessage samplePlatform [] .parentToChild 0 frame).isSome) =
          [false] := by
  refine ⟨fun h => ?_, by decide +kernel⟩
  have hrejected : ((performAll samplePlatform [] initial (refusedCommand.take 1)).perform
      samplePlatform [] (.request ⟨js "command", none⟩)).1 = false := by
    decide +kernel
  have hsequence := (h.2.2.1 hrejected).1
  have hchanged : ((performAll samplePlatform [] initial (refusedCommand.take 1)).perform
      samplePlatform [] (.request ⟨js "command", none⟩)).2.outboundSequence = 1 ∧
      (performAll samplePlatform [] initial (refusedCommand.take 1)).outboundSequence = 0 := by
    decide +kernel
  have : (1 : Nat) = 0 := hchanged.1.symm.trans (hsequence.trans hchanged.2)
  cases this

end ProcessChannel

end TegoNext
