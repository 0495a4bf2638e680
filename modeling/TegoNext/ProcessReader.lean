/-
The loop that reads what the child of the process executor writes.

`#readStdout` takes the frames one after the other and waits for `#dispatch` before it takes the
next. The handler of an rpc-request is waited for, with the call it makes and the answer it
writes: a response that is received meanwhile stays where it is (`held_by_capability`). What the
handlers check before they call the host is a parameter, as are the host's answers.
-/
import TegoNext.ProcessChannel

set_option autoImplicit false

namespace TegoNext

open Text ProcessChannel Option

/-- What the next chunks hold: a frame, or something `ProcessFrameDecoder` throws at. -/
inductive Arrival where
  | frame (value : JsonValue)
  | malformed

/-- What the loop waits for. -/
inductive Dispatching where
  | idle
  /-- `#rpc` waits for the secret provider or the capability boundary. -/
  | calling (id : JsString)
  /-- `#rpc` waits for its answer to be written; the second one reports that the first failed. -/
  | answering (id : JsString) (second : Bool)
  /-- `events.emit`. -/
  | emitting
  | ended

structure ProcessReader where
  channel : ProcessChannel
  inbox : List Arrival
  inboundSequence : Nat
  dispatching : Dispatching
  /-- How requests are settled: with the result, or with the code of an error. -/
  settled : List (Nat × Except JsString (Option JsonValue))

namespace ProcessReader

variable (platform : ProcessPlatform) (channelKey : JsString)

section

variable (s : ProcessReader) (fields : JsonFields)

/-- A field of an `IncomingMessage` that is kept when it is a text. -/
def textField (key : String) : Option JsString :=
  match fields.lookup (js key) with
  | some (.string text) => some text
  | _ => none

/-- The error ends the loop; `#fail` closes the channel. -/
def fail : ProcessReader :=
  { s with channel := (s.channel.perform platform channelKey .fail).2, dispatching := .ended }

def isResponse : Bool :=
  textField fields "kind" == some (js "response") ||
    textField fields "kind" == some (js "response-error")

def responseOutcome : Except JsString (Option JsonValue) :=
  if textField fields "kind" = some (js "response-error") then
    .error (if textField fields "code" = some (js "EXECUTOR_OUTPUT_LIMIT_EXCEEDED") then
      js "EXECUTOR_OUTPUT_LIMIT_EXCEEDED" else js "PROTOCOL_PROCESS_FRAME_INVALID")
  else .ok (fields.lookup (js "result"))

def respond : ProcessReader :=
  match textField fields "id" with
  | none => s.fail platform channelKey
  | some id =>
    match s.channel.pending.find? fun n => js "message-" ++ decimal n == id with
    | none => s
    | some n => { s with
        channel := (s.channel.perform platform channelKey (.answered n)).2
        settled := s.settled ++ [(n, responseOutcome fields)] }

/-- What `#rpc` answers. -/
def rpcAnswer (id : JsString) : Except JsString (Option JsonValue) → JsonFields
  | .ok value => [(js "kind", .string (js "rpc-response")), (js "id", .string id),
      (js "ok", .bool true)] ++ (value.map fun value => (js "value", value)).toList
  | .error message => [(js "kind", .string (js "rpc-response")), (js "id", .string id),
      (js "ok", .bool false), (js "message", .string message)]

/-- The answer with an error is handed to `#write`; when that throws, the loop ends. -/
def answerError (id message : JsString) : ProcessReader :=
  match s.channel.perform platform channelKey (.respond (some (rpcAnswer id (.error message)))) with
  | (true, channel) => { s with channel, dispatching := .answering id true }
  | (false, channel) => { s with channel }.fail platform channelKey

/-- The host has answered; a value that does not fit into a frame is answered with an error. -/
def answer (id : JsString) : Except JsString (Option JsonValue) → ProcessReader
  | .error message => s.answerError platform channelKey id message
  | .ok value =>
    match s.channel.perform platform channelKey (.respond (some (rpcAnswer id (.ok value)))) with
    | (true, channel) => { s with channel, dispatching := .answering id false }
    | (false, channel) => { s with channel }.answerError platform channelKey id
        (js "Process frame exceeds the configured wire limit")

/-- The rpc-requests `#rpc` does not throw at: their id, type and payload. -/
def rpcRequest : Option (JsString × JsString × JsonValue) :=
  if textField fields "kind" = some (js "rpc-request") then
    match textField fields "id", textField fields "type", fields.lookup (js "payload") with
    | some id, some type, some payload => some (id, type, payload)
    | _, _, _ => none
  else none

end

/-- `#dispatch`, until it waits. The checks of `#rpc` throw a message, or let it call. -/
def dispatch (checks : JsString → JsonValue → Option JsString) (s : ProcessReader)
    (fields : JsonFields) : ProcessReader :=
  if isResponse fields then s.respond platform channelKey fields
  else
    match rpcRequest fields with
    | some (id, type, payload) =>
      match checks type payload with
      | some message => s.answerError platform channelKey id message
      | none => { s with dispatching := .calling id }
    | none =>
      if textField fields "kind" = some (js "diagnostic") then s
      else if textField fields "kind" = some (js "event") ∧
          (textField fields "type").isSome ∧ (fields.lookup (js "payload")).isSome then
        { s with dispatching := .emitting }
      else s.fail platform channelKey

def authenticated (s : ProcessReader) : Arrival → Option JsonFields
  | .frame (.object fields) =>
    authenticateProcessMessage platform channelKey .childToParent s.inboundSequence fields
  | _ => none

/-- What happens to the reader, in the host, in the loop and in the child. -/
inductive ReaderStep where
  | request (message : ProcessMessage)
  | receive (arrival : Arrival)
  | read
  | returned (outcome : Except JsString (Option JsonValue))
  | written (failure : Option JsString)
  | emitted (succeeded : Bool)
  | exited

def step (checks : JsString → JsonValue → Option JsString) (s : ProcessReader) :
    ReaderStep → Option ProcessReader
  | .request message => some { s with
      channel := (s.channel.perform platform channelKey (.request message)).2 }
  | .receive arrival => some { s with inbox := s.inbox ++ [arrival] }
  | .read =>
    match s.dispatching, s.inbox with
    | .idle, arrival :: inbox =>
      let t := { s with inbox, inboundSequence := s.inboundSequence + 1 }
      match s.authenticated platform channelKey arrival with
      | some fields => some (t.dispatch platform channelKey checks fields)
      | none => some (t.fail platform channelKey)
    | _, _ => none
  | .returned outcome =>
    match s.dispatching with
    | .calling id => some (s.answer platform channelKey id outcome)
    | _ => none
  | .written failure =>
    match s.dispatching, failure with
    | .answering _ _, none => some { s with dispatching := .idle }
    | .answering id false, some message => some (s.answerError platform channelKey id message)
    | .answering _ true, some _ => some (s.fail platform channelKey)
    | _, _ => none
  | .emitted succeeded =>
    match s.dispatching with
    | .emitting => some (if succeeded then { s with dispatching := .idle }
        else s.fail platform channelKey)
    | _ => none
  | .exited => some { s with channel := (s.channel.perform platform channelKey .fail).2 }

def initial : ProcessReader where
  channel := ProcessChannel.initial
  inbox := []
  inboundSequence := 0
  dispatching := .idle
  settled := []

def machine (checks : JsString → JsonValue → Option JsString) : Machine ProcessReader ReaderStep where
  Init s := s = initial
  step := step platform channelKey checks

/-! ## What the claim is about -/

def holdsResponse : Arrival → Bool
  | .frame (.object fields) => isResponse fields
  | _ => false

/-- The loop waits for the handler of an rpc-request. -/
def handling (s : ProcessReader) : Bool :=
  match s.dispatching with
  | .calling _ => true
  | .answering _ _ => true
  | _ => false

/-- No response that has been received waits for the handler of an rpc-request. -/
def NotHeld (s : ProcessReader) : Prop :=
  s.handling = true → ∀ arrival ∈ s.inbox, holdsResponse arrival = false

/-- No response arrives while a handler runs, and no handler starts in front of a response. -/
def clear (s : ProcessReader) : ReaderStep → Bool
  | .receive arrival => !(s.handling && holdsResponse arrival)
  | .read =>
    match s.inbox with
    | arrival :: inbox =>
      !((s.authenticated platform channelKey arrival).any (fun fields => (rpcRequest fields).isSome) &&
        inbox.any holdsResponse)
    | [] => true
  | _ => true

/-! ## What a step keeps -/

section

variable {platform channelKey} {s : ProcessReader} {id message : JsString} {fields : JsonFields}

@[simp] theorem handling_fail : (s.fail platform channelKey).handling = false := rfl

theorem inbox_answerError : (s.answerError platform channelKey id message).inbox = s.inbox := by
  unfold answerError
  split
  · rfl
  · rfl

theorem inbox_answer {outcome : Except JsString (Option JsonValue)} :
    (s.answer platform channelKey id outcome).inbox = s.inbox := by
  unfold answer
  split
  · exact inbox_answerError
  split
  · rfl
  · rw [inbox_answerError]

theorem respond_frame : (s.respond platform channelKey fields).inbox = s.inbox ∧
    ((s.respond platform channelKey fields).handling = true → s.handling = true) := by
  unfold respond
  split
  · rw [handling_fail]
    exact ⟨rfl, nofun⟩
  split
  · exact ⟨rfl, id⟩
  · exact ⟨rfl, id⟩

/-- **A dispatch leaves the inbox alone**, and only an rpc-request makes the loop wait for a
handler. -/
theorem dispatch_frame {checks : JsString → JsonValue → Option JsString}
    (hidle : s.handling = false) :
    (s.dispatch platform channelKey checks fields).inbox = s.inbox ∧
      ((s.dispatch platform channelKey checks fields).handling = true →
        (rpcRequest fields).isSome) := by
  unfold dispatch
  by_cases hresponse : isResponse fields = true
  · rw [if_pos hresponse]
    refine ⟨respond_frame.1, fun h => ?_⟩
    have hold := respond_frame.2 h
    rw [hidle] at hold
    cases hold
  · rw [if_neg hresponse]
    cases hrpc : rpcRequest fields with
    | some request =>
      dsimp only
      split
      · exact ⟨inbox_answerError, fun _ => rfl⟩
      · exact ⟨rfl, fun _ => rfl⟩
    | none =>
      dsimp only
      split
      · exact ⟨rfl, fun h => by rw [hidle] at h; cases h⟩
      split
      · exact ⟨rfl, nofun⟩
      · rw [handling_fail]
        exact ⟨rfl, nofun⟩

end

variable {platform channelKey}

theorem NotHeld.step {checks : JsString → JsonValue → Option JsString} {s s' : ProcessReader}
    {label : ReaderStep} (h : NotHeld s) (hs : step platform channelKey checks s label = some s')
    (hclear : s.clear platform channelKey label = true) : NotHeld s' := by
  cases label with
  | request message =>
    obtain rfl := some.inj hs
    exact h
  | receive arrival =>
    obtain rfl := some.inj hs
    intro hhandling later hlater
    rcases List.mem_append.mp hlater with hold | hnew
    · exact h hhandling later hold
    · rw [List.mem_singleton.mp hnew]
      rw [clear, show s.handling = true from hhandling] at hclear
      simpa using hclear
  | read =>
    simp only [ProcessReader.step] at hs
    split at hs
    · next arrival inbox hdispatching hinbox =>
      have hidle : s.handling = false := by rw [handling, hdispatching]
      split at hs
      · next fields hfields =>
        obtain rfl := some.inj hs
        intro hhandling
        obtain ⟨hkept, hstarted⟩ := @dispatch_frame platform channelKey
          { s with inbox, inboundSequence := s.inboundSequence + 1 } fields checks hidle
        rw [hkept]
        rw [clear, hinbox] at hclear
        dsimp only at hclear
        rw [hfields, any_some, hstarted hhandling, Bool.true_and, Bool.not_eq_true',
          List.any_eq_false] at hclear
        exact fun later hlater => Bool.eq_false_iff.mpr (hclear later hlater)
      · obtain rfl := some.inj hs
        intro hhandling
        rw [handling_fail] at hhandling
        cases hhandling
    · cases hs
  | returned outcome =>
    simp only [ProcessReader.step] at hs
    split at hs
    · next id hdispatching =>
      obtain rfl := some.inj hs
      intro _
      rw [inbox_answer]
      exact h (by rw [handling, hdispatching])
    · cases hs
  | written failure =>
    simp only [ProcessReader.step] at hs
    split at hs
    · obtain rfl := some.inj hs
      exact nofun
    · next id message hdispatching =>
      obtain rfl := some.inj hs
      intro _
      rw [inbox_answerError]
      exact h (by rw [handling, hdispatching])
    · obtain rfl := some.inj hs
      intro hhandling
      rw [handling_fail] at hhandling
      cases hhandling
    · cases hs
  | emitted succeeded =>
    simp only [ProcessReader.step] at hs
    split at hs
    · obtain rfl := some.inj hs
      cases succeeded with
      | true => exact nofun
      | false => exact nofun
    · cases hs
  | exited =>
    obtain rfl := some.inj hs
    exact h

/-- **When responses are not held back.** In a run in which no response arrives while a handler
runs and no handler starts in front of one, no response waits for a handler. -/
theorem responses_not_held {checks : JsString → JsonValue → Option JsString} {s : ProcessReader}
    (hr : (machine platform channelKey checks).ReachableVia
      (fun s label _ => s.clear platform channelKey label = true) s) : NotHeld s :=
  hr.invariant (fun s h0 => by
    rw [show s = initial from h0]
    exact nofun) fun _ _ _ _ h hs hclear => h.step hs hclear

/-! ## A capability call in front of a response -/

def childFrame (sequence : Nat) (fields : List (String × JsString)) : ReaderStep :=
  .receive (.frame (.object (signProcessMessage ProcessChannel.samplePlatform [] .childToParent
    sequence (fields.map fun field => (js field.1, .string field.2)))))

/-- The child asks for a capability before it answers the bootstrap. -/
def capabilityFirst : List ReaderStep :=
  [.request ⟨js "bootstrap", some []⟩,
    childFrame 0 [("kind", js "rpc-request"), ("id", js "rpc-1"), ("type", js "capability"),
      ("payload", js "call")],
    .read]

def bootstrapAnswer (sequence : Nat) : ReaderStep :=
  childFrame sequence [("kind", js "response"), ("id", js "message-1"), ("result", js "ready")]

def answeredFirst : List ReaderStep :=
  capabilityFirst ++ [.returned (.ok none), .written none, bootstrapAnswer 1]

theorem responses_not_held_answeredFirst :
    ∃ s, (machine ProcessChannel.samplePlatform [] fun _ _ => none).runIf
        (clear ProcessChannel.samplePlatform []) initial answeredFirst = some s ∧
      s.inbox.any holdsResponse = true ∧ NotHeld s := by
  have hrun : ((machine ProcessChannel.samplePlatform [] fun _ _ => none).runIf
      (clear ProcessChannel.samplePlatform []) initial answeredFirst).any (fun s => s.inbox.any holdsResponse) = true := by
    decide +kernel
  rw [any_eq_true] at hrun
  obtain ⟨s, hs, hinbox⟩ := hrun
  exact ⟨s, hs, hinbox, responses_not_held (.of_runIf (.init rfl) hs)⟩

/-- **A response waits for a handler**: the loop cannot go on before the call of the capability
returns. -/
theorem held_by_capability :
    ¬ ∀ s, (machine ProcessChannel.samplePlatform [] fun _ _ => none).Reachable s → NotHeld s := by
  intro hall
  have hrun : ((machine ProcessChannel.samplePlatform [] fun _ _ => none).run initial
      (capabilityFirst ++ [bootstrapAnswer 1])).any (fun s =>
        s.handling && s.inbox.any holdsResponse) = true := by
    decide +kernel
  rw [any_eq_true] at hrun
  obtain ⟨s, hs, hboth⟩ := hrun
  rw [Bool.and_eq_true, List.any_eq_true] at hboth
  obtain ⟨hhandling, later, hlater, hresponse⟩ := hboth
  have hfree := hall s (.of_init_run rfl hs) hhandling later hlater
  rw [hresponse] at hfree
  cases hfree

end ProcessReader

end TegoNext
