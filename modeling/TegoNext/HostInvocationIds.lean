/-
The identities component hosts give to capability calls.

A host numbers the calls its plugin makes outside of runs; the calls of a run carry a
digest of the task, the attempt and a number of their own. Both counters live in the
host, which is created anew whenever the component is started again, while the router
remembers invocations for good. The hosts here are those of one activation of one
component.
-/
import TegoNext.CapabilityRouter
import TegoNext.DecimalText

set_option autoImplicit false

namespace TegoNext

open Text CanonicalJson Option

/-! ## Calls of a plugin -/

structure HostFailure where
  code : String
  message : JsString

/-- `requestGate` is the capability boundary's: the value that passed, or the first
diagnostic. -/
structure HostPlatform where
  router : RouterPlatform
  requestGate : (name protocolVersion : JsString) → JsonValue → Except HostFailure JsonValue

/-- `parseOperationId`, `parseCapabilityName`. -/
def parseOperationId (text : JsString) : Option PortableId :=
  if h : isPortableName text = true then some ⟨text, h⟩ else none

structure CapabilityCallFields where
  name : JsString
  protocolVersion : JsString
  method : JsString
  input : JsonValue

/-- The call's fields, if these and no others are there. -/
def capabilityCallFields : JsonValue → Except HostFailure CapabilityCallFields
  | .object fields =>
    match fields.lookup (js "name"), fields.lookup (js "protocolVersion"),
      fields.lookup (js "method"), fields.lookup (js "input") with
    | some (.string name), some (.string protocolVersion), some (.string method), some input =>
      if (fields.map (·.1)).insertionSort (fun left right => compareText left right ≠ .gt) =
          [js "input", js "method", js "name", js "protocolVersion"] then
        .ok ⟨name, protocolVersion, method, input⟩
      else .error ⟨"CAPABILITY_REQUEST_INVALID", js "Capability call fields are invalid"⟩
    | _, _, _, _ =>
      .error ⟨"CAPABILITY_REQUEST_INVALID", js "Capability call fields are invalid"⟩
  | _ => .error ⟨"CAPABILITY_REQUEST_INVALID", js "Capability call must be an object"⟩

/-- `#boundaryError` of a permission decision. -/
def permissionError (diagnostics : List PermissionDecisionDiagnostic) : HostFailure :=
  match diagnostics with
  | [] => ⟨"PERMISSION_BOUNDARY_REJECTED", js "permission boundary rejected the operation"⟩
  | first :: _ =>
    { code :=
        match first.code with
        | .PERMISSION_ENVELOPE_INVALID => "PERMISSION_ENVELOPE_INVALID"
        | .PERMISSION_GRANT_EXCEEDS_REQUEST => "PERMISSION_GRANT_EXCEEDS_REQUEST"
      message := first.message.getD (js "permission boundary rejected the operation") }

/-- `#capabilityCall`, up to the fields and the input it passes on. `secret` is whether
the input contains a secret the plugin has read. -/
def capabilityCall (platform : HostPlatform) (permissionGrants : JsValue) (request : JsonValue)
    (secret : Bool) : Except HostFailure CapabilityCallFields := do
  let fields ← capabilityCallFields request
  if secret then
    throw ⟨"PERMISSION_SECRET_EXFILTRATION_BLOCKED",
      js "Secret values cannot be sent through capability calls"⟩
  let permission := gatePermission platform.router.domainToASCII permissionGrants
    (.object [(js "kind", .string (js "capability")), (js "name", .string fields.name),
      (js "method", .string fields.method)])
  if !permission.allowed then
    throw (permissionError permission.diagnostics)
  let input ← platform.requestGate fields.name fields.protocolVersion fields.input
  pure { fields with input := input }

/-! ## Hosts and runs -/

/-- `n + 1` on the numbers of JavaScript. -/
def increment (n : Nat) : Nat := if n < 2 ^ 53 then n + 1 else n

structure HostRun where
  host : Nat
  taskId : PortableId
  attemptId : PortableId
  /-- `capabilityCallSequence`. -/
  sequence : Nat

/-- How the router takes a call: it is new, it is answered from the record of its key,
or it conflicts with that record. -/
inductive RouterVerdict where
  | claimed
  | recorded
  | conflict
  deriving DecidableEq

structure HostCall where
  invocation : RoutedCapabilityInvocation
  verdict : RouterVerdict

structure HostWorld where
  /-- `#capabilityInvocationSequence` of the hosts created so far. -/
  hosts : List Nat
  runs : List HostRun
  /-- The calls that reached the router, newest first. -/
  calls : List HostCall
  /-- The router's records: the fingerprints of the calls they are bound to. -/
  bound : JsString → Option JsString

def HostWorld.initial : HostWorld where
  hosts := []
  runs := []
  calls := []
  bound _ := none

/-- What the hosts do. The router's reservation of a call may fail. -/
inductive HostLabel where
  | create
  | run (host : Nat) (taskId attemptId : PortableId)
  | hostCall (host : Nat) (request : JsonValue) (secret reserved : Bool)
  | runCall (run : Nat) (request : JsonValue) (secret reserved : Bool)

/-- `cap.host.${n}`. -/
def hostInvocationText (n : Nat) : JsString := js "cap.host." ++ decimal n

/-- `${taskId.length}:${taskId}${attemptId}:${n}`. -/
def runText (taskId attemptId : PortableId) (n : Nat) : JsString :=
  decimal taskId.text.length ++ 58 :: (taskId.text ++ (attemptId.text ++ 58 :: decimal n))

/-- The identity of the `n`-th call of a run. -/
def runInvocationText (sha256 : Sha256) (taskId attemptId : PortableId) (n : Nat) : JsString :=
  js "cap." ++ (sha256 (runText taskId attemptId n)).toList.map hexDigit

namespace ComponentHosts

variable (platform : HostPlatform) (permissionGrants : JsValue)
  (consumer : ComponentInstanceIdentity)

def reachRouter (w : HostWorld) (invocation : RoutedCapabilityInvocation) (reserved : Bool) :
    HostWorld :=
  let call := invocation.normalizeCall
  let invoked := invocationKey platform.router consumer call.invocationId
  let key := durableInvocationKey platform.router invoked
  let fingerprint := callFingerprint platform.router consumer call
  match w.bound key with
  | some bound =>
    { w with calls := ⟨call, if bound = fingerprint then .recorded else .conflict⟩ :: w.calls }
  | none =>
    { w with
      calls := ⟨call, .claimed⟩ :: w.calls
      bound := if reserved then Function.update w.bound key (some fingerprint) else w.bound }

/-- A plugin makes a call. A name that is no identity does not get to the router. -/
def makeCall (w : HostWorld) (request : JsonValue) (secret reserved : Bool) (id : JsString) :
    HostWorld :=
  match parseOperationId id, capabilityCall platform permissionGrants request secret with
  | some invocationId, .ok fields =>
    match parseOperationId fields.name with
    | none => w
    | some name =>
      reachRouter platform consumer w
        { invocationId := invocationId
          identity := ⟨name, fields.protocolVersion⟩
          method := fields.method
          input := fields.input } reserved
  | _, _ => w

def step (w : HostWorld) : HostLabel → Option HostWorld
  | .create => some { w with hosts := w.hosts ++ [0] }
  | .run host taskId attemptId =>
    if host < w.hosts.length then
      some { w with runs := w.runs ++ [⟨host, taskId, attemptId, 0⟩] }
    else none
  | .hostCall host request secret reserved =>
    (w.hosts[host]?).map fun sequence =>
      makeCall platform permissionGrants consumer
        { w with hosts := w.hosts.set host (increment sequence) } request secret reserved
        (hostInvocationText (increment sequence))
  | .runCall run request secret reserved =>
    (w.runs[run]?).map fun context =>
      let sequence := increment context.sequence
      makeCall platform permissionGrants consumer
        { w with runs := w.runs.set run { context with sequence := sequence } }
        request secret reserved
        (runInvocationText platform.router.sha256 context.taskId context.attemptId sequence)

def machine : Machine HostWorld HostLabel where
  Init w := w = .initial
  step := step platform permissionGrants consumer

end ComponentHosts

/-! ## Identities are texts of their counters -/

theorem hexText_injective {v v' : Vector (Fin 16) 64}
    (h : v.toList.map hexDigit = v'.toList.map hexDigit) : v = v' := by
  have hinj : Function.Injective hexDigit := by
    intro d d'
    revert d d'
    decide
  exact Vector.toList_inj.mp (List.map_injective_iff.mpr hinj h)

theorem hostInvocationText_injective {m n : Nat}
    (h : hostInvocationText m = hostInvocationText n) : m = n :=
  decimal_injective (List.append_cancel_left h)

theorem notMem_nameText {s : JsString} (h : NameText s) : (58 : UInt16) ∉ s := by
  intro hmem
  have hunit := h 58 hmem
  revert hunit
  decide

theorem runText_injective {taskId attemptId taskId' attemptId' : PortableId} {n n' : Nat}
    (h : runText taskId attemptId n = runText taskId' attemptId' n') :
    taskId = taskId' ∧ attemptId = attemptId' ∧ n = n' := by
  obtain ⟨hlength, hrest⟩ :=
    append_cons_inj_of_first (colon_notMem_decimal _) (colon_notMem_decimal _) h
  obtain ⟨htask, hrest⟩ := List.append_inj hrest (decimal_injective hlength)
  obtain ⟨hattempt, hnumber⟩ := append_cons_inj_of_first
    (notMem_nameText (NameText.of_portable attemptId))
    (notMem_nameText (NameText.of_portable attemptId')) hrest
  exact ⟨PortableId.ext htask, PortableId.ext hattempt, decimal_injective hnumber⟩

theorem hostInvocationText_ne (sha256 : Sha256) (n m : Nat) (taskId attemptId : PortableId) :
    hostInvocationText n ≠ runInvocationText sha256 taskId attemptId m := by
  intro h
  have hsplit : js "cap.host." = js "cap." ++ js "host." := by decide
  rw [hostInvocationText, runInvocationText, hsplit, List.append_assoc] at h
  have hrest := List.append_cancel_left h
  have hmem : (104 : UInt16) ∈ (sha256 (runText taskId attemptId m)).toList.map hexDigit := by
    rw [← hrest]
    exact List.mem_append_left _ (by decide)
  obtain ⟨d, -, hd⟩ := List.mem_map.mp hmem
  revert hd
  revert d
  decide

/-- The members of the key, in the order of their names. -/
def keyMembers (platform : RouterPlatform) (consumer : ComponentInstanceIdentity)
    (id : PortableId) : List JsString :=
  [member (js "activation") (quoted (decimal consumer.activation.toNat)),
    member (js "applicationId") (quoted consumer.applicationId.text),
    member (js "bindingFingerprint") (quoted consumer.bindingFingerprint),
    member (js "componentId") (quoted consumer.componentId.text),
    member (js "invocationId") (quoted id.text),
    member (js "pluginId") (quoted consumer.pluginId.text),
    member (js "target") (canonical platform.numberText consumer.target.toValue)]

theorem invocationKey_injective {platform : RouterPlatform} {consumer : ComponentInstanceIdentity}
    {id id' : PortableId}
    (h : invocationKey platform consumer id = invocationKey platform consumer id') : id = id' := by
  have hkey : ∀ id : PortableId, invocationKey platform consumer id =
      123 :: joinParts [44] (keyMembers platform consumer id) ++ [125] := by
    intro id
    unfold invocationKey keyMembers
    rw [canonical, sortMembers_of_sorted]
    · simp [canonicalFields, canonical, textMember]
    · have hsorted : [js "activation", js "applicationId", js "bindingFingerprint",
          js "componentId", js "invocationId", js "pluginId", js "target"].Pairwise
            fun left right => compareText left right ≠ .gt := by decide +kernel
      exact hsorted
  have hneutral : ∀ id : PortableId, ∀ part ∈ keyMembers platform consumer id, Neutral part := by
    intro id part hpart
    unfold keyMembers at hpart
    simp only [List.mem_cons, List.not_mem_nil, or_false] at hpart
    rcases hpart with rfl | rfl | rfl | rfl | rfl | rfl | rfl
    all_goals first
      | exact neutral_member (neutral_quoted _)
      | exact neutral_member (neutral_canonical _ _)
  rw [hkey id, hkey id', List.cons_append, List.cons_append] at h
  have hparts := joinParts_inj (.inr rfl) (List.cons_ne_nil _ _) (List.cons_ne_nil _ _) (hneutral id)
    (hneutral id') (List.cons.inj h).2
  have hmember : member (js "invocationId") (quoted id.text) =
      member (js "invocationId") (quoted id'.text) := by
    simp only [List.cons.injEq, true_and, and_true] at hparts
    exact hparts
  have hquoted : quoted id.text = quoted id'.text :=
    (List.cons.inj (List.append_cancel_left hmember)).2
  rw [quoted_of_nameText (NameText.of_portable id), quoted_of_nameText (NameText.of_portable id'),
    List.cons_append, List.cons_append] at hquoted
  exact PortableId.ext (List.append_cancel_right (List.cons.inj hquoted).2)

/-! ## Fresh calls -/

namespace ComponentHosts

variable (platform : HostPlatform) (permissionGrants : JsValue)
  (consumer : ComponentInstanceIdentity)

def recordKey (id : PortableId) : JsString :=
  durableInvocationKey platform.router (invocationKey platform.router consumer id)

/-- The digest in a record's key tells an identity from those of earlier calls. -/
def KeyApart (w : HostWorld) (text : JsString) : Prop :=
  ∀ c ∈ w.calls, ∀ id : PortableId, id.text = text →
    recordKey platform consumer c.invocation.invocationId = recordKey platform consumer id →
      invocationKey platform.router consumer c.invocation.invocationId =
        invocationKey platform.router consumer id

/-- The digest of a run's call is that of no other text a run has had digested. -/
def DigestApart (w : HostWorld) (text : JsString) : Prop :=
  ∀ run ∈ w.runs, ∀ n ≤ run.sequence,
    platform.router.sha256 (runText run.taskId run.attemptId n) = platform.router.sha256 text →
      runText run.taskId run.attemptId n = text

/-- Before a call: the counter still counts, no host (for a run: no run of the same
attempt) has counted further, and the digests tell what is digested apart. -/
def FreshCall (w : HostWorld) : HostLabel → Prop
  | .create => True
  | .run .. => True
  | .hostCall host .. => ∀ sequence, w.hosts[host]? = some sequence →
      sequence < 2 ^ 53 ∧ (∀ other ∈ w.hosts, other ≤ sequence) ∧
        KeyApart platform consumer w (hostInvocationText (sequence + 1))
  | .runCall run .. => ∀ context, w.runs[run]? = some context →
      context.sequence < 2 ^ 53 ∧
        (∀ other ∈ w.runs, other.taskId = context.taskId → other.attemptId = context.attemptId →
          other.sequence ≤ context.sequence) ∧
        DigestApart platform w (runText context.taskId context.attemptId (context.sequence + 1)) ∧
        KeyApart platform consumer w (runInvocationText platform.router.sha256 context.taskId
          context.attemptId (context.sequence + 1))

/-! ## What holds of the calls -/

/-- An identity some host or run has given out. -/
def Numbered (w : HostWorld) (text : JsString) : Prop :=
  (∃ sequence ∈ w.hosts, ∃ n ≤ sequence, text = hostInvocationText n) ∨
  (∃ run ∈ w.runs, ∃ n ≤ run.sequence,
    text = runInvocationText platform.router.sha256 run.taskId run.attemptId n)

structure HostInv (w : HostWorld) : Prop where
  numbered : ∀ c ∈ w.calls, Numbered platform w c.invocation.invocationId.text
  distinct : (w.calls.map fun c => c.invocation.invocationId).Nodup
  recorded : ∀ key fingerprint, w.bound key = some fingerprint →
    ∃ c ∈ w.calls, key = recordKey platform consumer c.invocation.invocationId
  claimed : ∀ c ∈ w.calls, c.verdict = .claimed

variable {platform permissionGrants consumer}

theorem HostInv.initial : HostInv platform consumer .initial where
  numbered _ hc := by simp [HostWorld.initial] at hc
  distinct := List.nodup_nil
  recorded _ _ h := by simp [HostWorld.initial] at h
  claimed _ hc := by simp [HostWorld.initial] at hc

variable {w : HostWorld}

theorem HostInv.counted (hinv : HostInv platform consumer w) {hosts : List Nat}
    {runs : List HostRun}
    (hhosts : ∀ sequence ∈ w.hosts, ∃ sequence' ∈ hosts, sequence ≤ sequence')
    (hruns : ∀ run ∈ w.runs, ∃ run' ∈ runs, run'.taskId = run.taskId ∧
      run'.attemptId = run.attemptId ∧ run.sequence ≤ run'.sequence) :
    HostInv platform consumer { w with hosts := hosts, runs := runs } where
  numbered c hc := by
    rcases hinv.numbered c hc with ⟨sequence, hmem, n, hn, htext⟩ | ⟨run, hmem, n, hn, htext⟩
    · obtain ⟨sequence', hmem', hle⟩ := hhosts sequence hmem
      exact .inl ⟨sequence', hmem', n, hn.trans hle, htext⟩
    · obtain ⟨run', hmem', htask, hattempt, hle⟩ := hruns run hmem
      exact .inr ⟨run', hmem', n, hn.trans hle, by rw [htask, hattempt]; exact htext⟩
  distinct := hinv.distinct
  recorded := hinv.recorded
  claimed := hinv.claimed

theorem HostInv.reachRouter (hinv : HostInv platform consumer w)
    {invocation : RoutedCapabilityInvocation} {reserved : Bool}
    (hnumbered : Numbered platform w invocation.invocationId.text)
    (hnew : ∀ c ∈ w.calls, c.invocation.invocationId ≠ invocation.invocationId)
    (hkey : KeyApart platform consumer w invocation.invocationId.text) :
    HostInv platform consumer (reachRouter platform consumer w invocation reserved) := by
  have hid : invocation.normalizeCall.invocationId = invocation.invocationId := rfl
  have hunbound : w.bound (recordKey platform consumer invocation.invocationId) = none := by
    rw [eq_none_iff_forall_ne_some]
    intro fingerprint hbound
    obtain ⟨c, hc, hsame⟩ := hinv.recorded _ _ hbound
    exact hnew c hc (invocationKey_injective (hkey c hc _ rfl hsame.symm))
  have hnext : ComponentHosts.reachRouter platform consumer w invocation reserved =
      { w with
        calls := ⟨invocation.normalizeCall, .claimed⟩ :: w.calls
        bound := if reserved then Function.update w.bound
            (recordKey platform consumer invocation.invocationId)
            (some (callFingerprint platform.router consumer invocation.normalizeCall))
          else w.bound } := by
    unfold recordKey at hunbound
    unfold ComponentHosts.reachRouter
    simp only [hid, hunbound]
    rfl
  rw [hnext]
  refine ⟨?_, ?_, ?_, ?_⟩
  · intro c hc
    rcases List.mem_cons.mp hc with rfl | hc
    · exact hnumbered
    · exact hinv.numbered c hc
  · refine List.nodup_cons.mpr ⟨?_, hinv.distinct⟩
    rintro hmem
    obtain ⟨c, hc, hsame⟩ := List.mem_map.mp hmem
    exact hnew c hc hsame
  · intro key fingerprint hbound
    by_cases hrecord : reserved = true ∧ key = recordKey platform consumer invocation.invocationId
    · exact ⟨_, List.mem_cons_self, hrecord.2⟩
    have hold : w.bound key = some fingerprint := by
      by_cases hreserved : reserved = true
      · have hne : key ≠ recordKey platform consumer invocation.invocationId := fun h =>
          hrecord ⟨hreserved, h⟩
        simpa [hreserved, Function.update_of_ne hne] using hbound
      · simpa [hreserved] using hbound
    obtain ⟨c, hc, hsame⟩ := hinv.recorded key fingerprint hold
    exact ⟨c, List.mem_cons_of_mem _ hc, hsame⟩
  · intro c hc
    rcases List.mem_cons.mp hc with rfl | hc
    · rfl
    · exact hinv.claimed c hc

theorem HostInv.makeCall (hinv : HostInv platform consumer w)
    {request : JsonValue} {secret reserved : Bool} {text : JsString}
    (hnumbered : Numbered platform w text)
    (hnew : ∀ c ∈ w.calls, c.invocation.invocationId.text ≠ text)
    (hkey : KeyApart platform consumer w text) :
    HostInv platform consumer
      (makeCall platform permissionGrants consumer w request secret reserved text) := by
  unfold ComponentHosts.makeCall
  split
  · next invocationId fields hid _ =>
    split
    · exact hinv
    next name _ =>
    have htext : invocationId.text = text := by
      rw [parseOperationId] at hid
      split at hid
      · rw [← some.inj hid]
      · cases hid
    subst htext
    exact hinv.reachRouter hnumbered (fun c hc hsame => hnew c hc (by rw [hsame])) hkey
  · exact hinv

theorem increment_of_lt {n : Nat} (h : n < 2 ^ 53) : increment n = n + 1 := if_pos h

theorem HostInv.host_new (hinv : HostInv platform consumer w) {sequence : Nat}
    (hleast : ∀ other ∈ w.hosts, other ≤ sequence) (c : HostCall) (hc : c ∈ w.calls) :
    c.invocation.invocationId.text ≠ hostInvocationText (sequence + 1) := by
  intro hsame
  rcases hinv.numbered c hc with ⟨other, hmem, n, hn, htext⟩ | ⟨run, -, n, -, htext⟩
  · have hnumber : n = sequence + 1 := hostInvocationText_injective (htext.symm.trans hsame)
    have hle := hleast other hmem
    omega
  · exact hostInvocationText_ne platform.router.sha256 _ _ _ _ (hsame.symm.trans htext)

theorem HostInv.run_new (hinv : HostInv platform consumer w) {context : HostRun}
    (hleast : ∀ other ∈ w.runs, other.taskId = context.taskId →
      other.attemptId = context.attemptId → other.sequence ≤ context.sequence)
    (hdigest : DigestApart platform w
      (runText context.taskId context.attemptId (context.sequence + 1)))
    (c : HostCall) (hc : c ∈ w.calls) :
    c.invocation.invocationId.text ≠ runInvocationText platform.router.sha256 context.taskId
      context.attemptId (context.sequence + 1) := by
  intro hsame
  rcases hinv.numbered c hc with ⟨other, -, n, -, htext⟩ | ⟨run, hmem, n, hn, htext⟩
  · exact hostInvocationText_ne platform.router.sha256 _ _ _ _ (htext.symm.trans hsame)
  · have hhex := List.append_cancel_left (htext.symm.trans hsame)
    have hrun := hdigest run hmem n hn (hexText_injective hhex)
    obtain ⟨htask, hattempt, hnumber⟩ := runText_injective hrun
    have hle := hleast run hmem htask hattempt
    omega

theorem HostInv.step {w w' : HostWorld} (hinv : HostInv platform consumer w) {l : HostLabel}
    (hstep : step platform permissionGrants consumer w l = some w')
    (hfresh : FreshCall platform consumer w l) : HostInv platform consumer w' := by
  cases l with
  | create =>
    rw [← some.inj hstep]
    exact hinv.counted (fun sequence h => ⟨sequence, List.mem_append_left _ h, le_rfl⟩)
      fun run h => ⟨run, h, rfl, rfl, le_rfl⟩
  | run host taskId attemptId =>
    rw [ComponentHosts.step] at hstep
    split at hstep
    · rw [← some.inj hstep]
      exact hinv.counted (fun sequence h => ⟨sequence, h, le_rfl⟩)
        fun run h => ⟨run, List.mem_append_left _ h, rfl, rfl, le_rfl⟩
    · cases hstep
  | hostCall host request secret reserved =>
    obtain ⟨sequence, hhost, rfl⟩ := map_eq_some_iff.mp hstep
    obtain ⟨hlt, hleast, hkey⟩ := hfresh sequence hhost
    rw [increment_of_lt hlt]
    obtain ⟨hindex, hvalue⟩ := List.getElem?_eq_some_iff.mp hhost
    have hnumber : sequence + 1 ∈ w.hosts.set host (sequence + 1) := List.mem_set hindex _
    have hcounted := hinv.counted
      (fun other h => ⟨sequence + 1, hnumber, (hleast other h).trans (Nat.le_succ _)⟩)
      fun run h => ⟨run, h, rfl, rfl, le_rfl⟩
    exact hcounted.makeCall (.inl ⟨_, hnumber, _, le_rfl, rfl⟩) (hinv.host_new hleast) hkey
  | runCall run request secret reserved =>
    obtain ⟨context, hrun, rfl⟩ := map_eq_some_iff.mp hstep
    obtain ⟨hlt, hleast, hdigest, hkey⟩ := hfresh context hrun
    rw [increment_of_lt hlt]
    obtain ⟨hindex, hvalue⟩ := List.getElem?_eq_some_iff.mp hrun
    have hnumber : { context with sequence := context.sequence + 1 } ∈
        w.runs.set run { context with sequence := context.sequence + 1 } :=
      List.mem_set hindex _
    have hruns : ∀ other ∈ w.runs,
        ∃ other' ∈ w.runs.set run { context with sequence := context.sequence + 1 },
          other'.taskId = other.taskId ∧ other'.attemptId = other.attemptId ∧
            other.sequence ≤ other'.sequence := by
      intro other hother
      obtain ⟨k, hk, rfl⟩ := List.getElem_of_mem hother
      by_cases hsame : run = k
      · subst hsame
        rw [hvalue]
        exact ⟨_, hnumber, rfl, rfl, Nat.le_succ _⟩
      have hkept : (w.runs.set run { context with sequence := context.sequence + 1 })[k]? =
          some w.runs[k] := by
        rw [List.getElem?_set_ne hsame, List.getElem?_eq_getElem hk]
      exact ⟨_, List.mem_of_getElem? hkept, rfl, rfl, le_rfl⟩
    have hcounted := hinv.counted (fun other h => ⟨other, h, le_rfl⟩) hruns
    exact hcounted.makeCall (.inr ⟨_, hnumber, _, le_rfl, rfl⟩) (hinv.run_new hleast hdigest) hkey

/-- **Distinct calls have distinct keys**, in the runs whose calls are fresh, and the
router takes each as a new one. -/
theorem invocationKeys_distinct {w : HostWorld}
    (hreach : (machine platform permissionGrants consumer).ReachableVia
      (fun w l _ => FreshCall platform consumer w l) w) :
    (w.calls.map fun c =>
        invocationKey platform.router consumer c.invocation.invocationId).Nodup ∧
      ∀ c ∈ w.calls, c.verdict = .claimed := by
  have hinv : HostInv platform consumer w := by
    refine hreach.invariant ?_ ?_
    · rintro s rfl
      exact .initial
    · intro s l s' _ hinv hstep hfresh
      exact hinv.step hstep hfresh
  refine ⟨?_, hinv.claimed⟩
  have hkeys : (w.calls.map fun c =>
      invocationKey platform.router consumer c.invocation.invocationId) =
        (w.calls.map fun c => c.invocation.invocationId).map
          (invocationKey platform.router consumer) := by
    rw [List.map_map]
    rfl
  rw [hkeys]
  exact hinv.distinct.map fun _ _ => invocationKey_injective

/-! ## Two calls of one host, and one of each of two hosts -/

def samplePlatform : HostPlatform where
  router :=
    { numberText _ := ⟨js "1", rfl⟩
      sha256 text := Vector.replicate 64 ⟨(text.map UInt16.toNat).sum % 16, Nat.mod_lt _ (by decide)⟩
      domainToASCII host := host
      schemaGate _ := .ok ⟨.ok, .ok⟩ }
  requestGate _ _ input := .ok input

def sampleGrants : JsValue :=
  .array [.object [(js "kind", .string (js "capability")),
    (js "capabilities", .array [.object [(js "name", .string (js "store")),
      (js "methods", .array [.string (js "get")])]])]]

def sampleName : PortableId := ⟨js "host", rfl⟩

def sampleConsumer : ComponentInstanceIdentity where
  applicationId := sampleName
  pluginId := sampleName
  componentId := sampleName
  activation := 1
  target := ⟨sampleName, 1, js "d", ⟨js "e", .process, none, by decide⟩⟩
  bindingFingerprint := js "b"

/-- A call for the record of a key. -/
def sampleRequest (key : String) : JsonValue :=
  .object [(js "name", .string (js "store")), (js "protocolVersion", .string (js "1.0.0")),
    (js "method", .string (js "get")), (js "input", .string (js key))]

def firstCall : HostLabel := .hostCall 0 (sampleRequest "a") false true

def secondCall : HostLabel := .hostCall 0 (sampleRequest "b") false true

/-- `KeyApart`, of the one identity the text can be of. -/
def keysApart (w : HostWorld) (text : JsString) : Bool :=
  match parseOperationId text with
  | some id => w.calls.all fun c =>
    recordKey samplePlatform sampleConsumer c.invocation.invocationId !=
      recordKey samplePlatform sampleConsumer id
  | none => true

/-- `FreshCall`, of hosts. -/
def freshHostCall (w : HostWorld) : HostLabel → HostWorld → Bool
  | .create, _ => true
  | .hostCall host .., _ => (w.hosts[host]?).all fun sequence =>
    sequence < 2 ^ 53 && w.hosts.all (· ≤ sequence) &&
      keysApart w (hostInvocationText (sequence + 1))
  | _, _ => false

theorem freshCall_of_freshHostCall (w : HostWorld) (l : HostLabel) (w' : HostWorld)
    (h : freshHostCall w l w' = true) : FreshCall samplePlatform sampleConsumer w l := by
  cases l with
  | create => trivial
  | run => trivial
  | runCall => cases h
  | hostCall host request secret reserved =>
    intro sequence hhost
    rw [freshHostCall, hhost, all_some] at h
    simp only [Bool.and_eq_true, decide_eq_true_eq, List.all_eq_true] at h
    obtain ⟨⟨hlt, hleast⟩, hkeys⟩ := h
    refine ⟨hlt, hleast, ?_⟩
    intro c hc id htext hsame
    have hparse : parseOperationId (hostInvocationText (sequence + 1)) = some id := by
      rw [← htext, parseOperationId, dif_pos id.portable]
    rw [keysApart, hparse] at hkeys
    exact absurd hsame (by simpa using List.all_eq_true.mp hkeys c hc)

theorem invocationKeys_distinct_twoCalls :
    ∃ w : HostWorld, w.calls.length = 2 ∧
      (w.calls.map fun c =>
        invocationKey samplePlatform.router sampleConsumer c.invocation.invocationId).Nodup ∧
      ∀ c ∈ w.calls, c.verdict = .claimed := by
  have hrun : ((machine samplePlatform sampleGrants sampleConsumer).runVia freshHostCall .initial
      [.create, firstCall, secondCall]).map (fun w => w.calls.length) = some 2 := by
    decide +kernel
  obtain ⟨w, hw, hlength⟩ := map_eq_some_iff.mp hrun
  exact ⟨w, hlength, invocationKeys_distinct
    (Machine.ReachableVia.of_steps (.init rfl)
      (Machine.steps_of_runVia freshCall_of_freshHostCall hw))⟩

/-- **A host that replaces another repeats its key.** The first call of the new host
conflicts with the first call of the old one. -/
theorem newHost_repeats_key :
    ¬ ∀ (es : List HostLabel) (w : HostWorld),
      (machine samplePlatform sampleGrants sampleConsumer).run .initial es = some w →
      (w.calls.map fun c =>
        invocationKey samplePlatform.router sampleConsumer c.invocation.invocationId).Nodup ∧
      ∀ c ∈ w.calls, c.verdict = .claimed := by
  intro hlaw
  have hrun : ((machine samplePlatform sampleGrants sampleConsumer).run .initial
      [.create, firstCall, .create, .hostCall 1 (sampleRequest "b") false true]).map
      (fun w => w.calls.map HostCall.verdict) = some [.conflict, .claimed] := by
    decide +kernel
  obtain ⟨w, hw, hverdicts⟩ := map_eq_some_iff.mp hrun
  have hmem : RouterVerdict.conflict ∈ w.calls.map HostCall.verdict := by
    rw [hverdicts]
    exact List.mem_cons_self
  obtain ⟨c, hc, hconflict⟩ := List.mem_map.mp hmem
  rw [(hlaw _ w hw).2 c hc] at hconflict
  cases hconflict

end ComponentHosts

end TegoNext
