/-
The permission gate, and why a validated grant attenuates.

`gatePermission` decides one call: it canonicalises the granted envelope and the call, the latter
as an envelope of its own, and matches the call against the permission of its kind. Grant validation
compares envelopes list by list, written independently; what connects the two is an inclusion of the
sets of calls they admit (`calls_subset_of_exceeding`).
-/
import TegoNext.PermissionSet

set_option autoImplicit false

namespace TegoNext

open Text JsValue List

/-! ## Calls -/

inductive PermissionCallAttempt where
  | capability (name method : JsString)
  | environment (name : JsString)
  | executor (executor : ExecutorKind)
  | filesystem (path : LogicalPath) (access : FilesystemAccess)
  | network (host : JsString) (port : Int) (method : HttpMethod)
  | secret (name : JsString)
  | worker (labels : List (JsString × JsString)) (resources : ResourceCeilings)

def PermissionCallAttempt.kind : PermissionCallAttempt → PermissionKind
  | capability _ _ => .capability
  | environment _ => .environment
  | executor _ => .executor
  | filesystem _ _ => .filesystem
  | network _ _ _ => .network
  | secret _ => .secret
  | worker _ _ => .worker

/-- Why a call is not normalised; `TypeError`s are the platform's. -/
inductive CallError where
  | input (e : PermissionInputError)
  | error (message : String)
  | typeError

def expectedFields : PermissionKind → List String
  | .capability => ["kind", "method", "name"]
  | .environment => ["kind", "name"]
  | .executor => ["executor", "kind"]
  | .filesystem => ["access", "kind", "path"]
  | .network => ["host", "kind", "method", "port"]
  | .secret => ["kind", "name"]
  | .worker => ["kind", "labels", "resources"]

/-- The `length` of what a record inherits under a name that is no kind: the
lookup of the expected fields finds a method of `Object.prototype` there. -/
def inheritedLength (kind : JsString) : Option Nat :=
  [("constructor", 1), ("__defineGetter__", 2), ("__defineSetter__", 2), ("hasOwnProperty", 1),
    ("__lookupGetter__", 1), ("__lookupSetter__", 1), ("isPrototypeOf", 1),
    ("propertyIsEnumerable", 1), ("toString", 0), ("valueOf", 0), ("toLocaleString", 0)].findSome?
    fun entry => if js entry.1 = kind then some entry.2 else none

def callKind (call : Fields) : Except CallError PermissionKind :=
  match get call "kind" with
  | .string kind =>
    match PermissionKind.ofText kind with
    | some kind =>
      if (sortFields call).map (·.1) = (expectedFields kind).map js then .ok kind
      else .error (.error "Permission call fields are invalid")
    | none =>
      if inheritedLength kind = some call.length then .error .typeError
      else .error (.error "Permission call fields are invalid")
  | _ => .error (.error "Permission call kind is invalid")

def field (name : String) (value : JsValue) : JsString × JsValue := (js name, value)

def callEnvelope (call : Fields) (kind : PermissionKind) : JsValue :=
  let tag := field "kind" (.string (js kind.text))
  .array [.object (match kind with
    | .network =>
      [tag, field "hosts" (.array [get call "host"]), field "ports" (.array [get call "port"]),
        field "methods" (.array [get call "method"])]
    | .filesystem =>
      [tag, field "roots" (.array [.object [field "path" (get call "path"),
        field "access" (.array [get call "access"])]])]
    | .worker => [tag, field "labels" (get call "labels"), field "resources" (get call "resources")]
    | .capability =>
      [tag, field "capabilities" (.array [.object [field "name" (get call "name"),
        field "methods" (.array [get call "method"])]])]
    | .executor => [tag, field "executors" (.array [get call "executor"])]
    | .environment => [tag, field "names" (.array [get call "name"])]
    | .secret => [tag, field "names" (.array [get call "name"])])]

/-- The call in an envelope of one permission; its lists have one element. -/
def callOf : Permission → Option PermissionCallAttempt
  | .capability ({ name := name, methods := method :: _ } :: _) => some (.capability name method)
  | .environment (name :: _) => some (.environment name)
  | .secret (name :: _) => some (.secret name)
  | .executor (member :: _) => some (.executor member)
  | .filesystem ({ path := path, access := access :: _ } :: _) => some (.filesystem path access)
  | .network (host :: _) (method :: _) (port :: _) => some (.network host port method)
  | .worker labels resources => some (.worker labels resources)
  | _ => none

def normalizeCall (domainToASCII : JsString → JsString) (input : JsValue) :
    Except CallError PermissionCallAttempt := do
  let stable ← (clone (js "$") input).mapError CallError.input
  match stable with
  | .object call =>
    let kind ← callKind call
    let holders ← (canonicalizePermissionSet domainToASCII (callEnvelope call kind)).mapError CallError.input
    match holders.head?.bind callOf with
    | some attempt => pure attempt
    | none => throw (.error "Permission call could not be normalized")
  | _ => throw (.error "Permission call must be an object")

/-! ## The gate -/

structure PermissionGateDecision where
  allowed : Bool
  diagnostics : List PermissionDecisionDiagnostic

def denied (message : String) : PermissionGateDecision where
  allowed := false
  diagnostics := [⟨.PERMISSION_GRANT_EXCEEDS_REQUEST, some (js message), js "$/attempt"⟩]

def invalidPermission (error : CallError) : PermissionGateDecision where
  allowed := false
  diagnostics := [⟨.PERMISSION_ENVELOPE_INVALID,
    match error with
    | .input e => some e.message
    | .error message => some (js message)
    | .typeError => none,
    js "$/attempt"⟩]

/-- The `switch` of the gate: does the permission match the call? -/
def Permission.admits : Permission → PermissionCallAttempt → Bool
  | .capability capabilities, .capability name method =>
    capabilities.any fun entry => entry.name == name && entry.methods.contains method
  | .environment names, .environment name => names.contains name
  | .secret names, .secret name => names.contains name
  | .executor executors, .executor member => executors.contains member
  | .filesystem roots, .filesystem path access =>
    roots.any fun root => containsLogicalPath root.path path && root.access.contains access
  | .network hosts methods ports, .network host port method =>
    hosts.contains host && ports.contains port && methods.contains method
  | .worker labels maximum, .worker labels' resources =>
    labels.all (fun label => labels'.lookup label.1 == some label.2) &&
      resources.cpuMillis ≤ maximum.cpuMillis && resources.memoryBytes ≤ maximum.memoryBytes &&
      resources.storageBytes ≤ maximum.storageBytes
  | _, _ => false

def gatePermission (domainToASCII : JsString → JsString) (grantedInput attemptInput : JsValue) :
    PermissionGateDecision :=
  let parsed := do
    let granted ← (canonicalizePermissionSet domainToASCII grantedInput).mapError CallError.input
    let attempt ← normalizeCall domainToASCII attemptInput
    pure (granted, attempt)
  match parsed with
  | .error e => invalidPermission e
  | .ok (granted, attempt) =>
    match granted.find? fun candidate => candidate.kind == attempt.kind with
    | none => denied ("No " ++ attempt.kind.text ++ " permission was granted")
    | some permission =>
      if permission.admits attempt then { allowed := true, diagnostics := [] }
      else denied (attempt.kind.text ++ " call is outside the granted permission envelope")

/-! ## Envelopes as sets of calls -/

def envelopeCalls (permissions : List Permission) : Set PermissionCallAttempt :=
  { attempt | ∃ permission,
      permissions.find? (fun candidate => candidate.kind == attempt.kind) = some permission ∧
      permission.admits attempt = true }

theorem gatePermission_allowed {domainToASCII : JsString → JsString} {granted attempt : JsValue} :
    (gatePermission domainToASCII granted attempt).allowed = true ↔
      ∃ permissions call, canonicalizePermissionSet domainToASCII granted = .ok permissions ∧
        normalizeCall domainToASCII attempt = .ok call ∧ call ∈ envelopeCalls permissions := by
  unfold gatePermission
  cases hset : canonicalizePermissionSet domainToASCII granted with
  | error e =>
    simp [Except.mapError, bind, Except.bind, invalidPermission]
  | ok permissions =>
    cases hcall : normalizeCall domainToASCII attempt with
    | error e => simp [Except.mapError, bind, Except.bind, invalidPermission]
    | ok call =>
      simp only [Except.mapError, bind, Except.bind, pure, Except.pure, Except.ok.injEq,
        exists_and_left, exists_eq_left', envelopeCalls, Set.mem_ofPred_eq]
      cases hfind : permissions.find? fun candidate => candidate.kind == call.kind with
      | none => simp [denied]
      | some permission =>
        dsimp only
        split
        · next hadmits => simpa using hadmits
        · next hadmits => simpa [denied] using hadmits

/-! ## Attenuation, category by category -/

theorem contains_of_containsAll {α : Type} [BEq α] [LawfulBEq α] {requested granted : List α}
    (h : containsAll requested granted = true) {a : α} (ha : granted.contains a = true) :
    requested.contains a = true :=
  all_eq_true.mp h a (contains_iff_mem.mp ha)

theorem containsLogicalPath_trans {root middle target : LogicalPath}
    (h₁ : containsLogicalPath root middle = true) (h₂ : containsLogicalPath middle target = true) :
    containsLogicalPath root target = true := by
  simp only [containsLogicalPath, Bool.or_eq_true, beq_iff_eq] at h₁ h₂ ⊢
  rcases h₁ with (h₁ | h₁) | h₁
  · exact .inl (.inl h₁)
  · rw [h₁] at h₂
    exact h₂
  · have hpre : root.text ++ [slash] <+: middle.text := isPrefixOf_iff_prefix.mp h₁
    rcases h₂ with (h₂ | h₂) | h₂
    · -- only the empty text would be a proper ancestor of "/"
      have hlen := hpre.length_le
      rw [h₂] at hlen
      have habs := root.absolute
      cases hroot : root.text with
      | nil => simp [hroot] at habs
      | cons a rest => simp [hroot, js, encodeUtf16] at hlen
    · rw [h₂]
      exact .inr h₁
    · have htarget : middle.text ++ [slash] <+: target.text := isPrefixOf_iff_prefix.mp h₂
      refine .inr <| isPrefixOf_iff_prefix.mpr ?_
      exact hpre.trans ((prefix_append middle.text [slash]).trans htarget)

/-- Labels required by the request are required by the grant, hence by the
call. -/
theorem labels_trans {labels labels' labels'' : List (JsString × JsString)}
    (h₁ : (labels.all fun label => labels'.lookup label.1 == some label.2) = true)
    (h₂ : (labels'.all fun label => labels''.lookup label.1 == some label.2) = true) :
    (labels.all fun label => labels''.lookup label.1 == some label.2) = true := by
  rw [all_eq_true] at h₁ h₂ ⊢
  intro label hlabel
  have hlookup := beq_iff_eq.mp (h₁ label hlabel)
  exact h₂ (label.1, label.2) (mem_of_lookup hlookup)

/-- **A category subset admits no more calls.** -/
theorem admits_of_categorySubset {requested granted : Permission} {attempt : PermissionCallAttempt}
    (hsub : categorySubset requested granted = true) (h : granted.admits attempt = true) :
    requested.admits attempt = true := by
  cases granted <;> cases requested <;> cases attempt <;>
    first
    | cases hsub
    | cases h
    | skip
  case capability.capability.capability granted requested name method =>
      obtain ⟨entry, hentry, hmatch⟩ := any_eq_true.mp h
      rw [Bool.and_eq_true, beq_iff_eq] at hmatch
      have hfound := all_eq_true.mp hsub entry hentry
      split at hfound
      · next found hfind =>
        refine any_eq_true.mpr ⟨found, mem_of_find?_eq_some hfind, ?_⟩
        have hname : found.name = entry.name := by simpa using find?_some hfind
        rw [Bool.and_eq_true, beq_iff_eq, hname]
        exact ⟨hmatch.1, contains_of_containsAll hfound hmatch.2⟩
      · cases hfound
  case environment.environment.environment => exact contains_of_containsAll hsub h
  case executor.executor.executor => exact contains_of_containsAll hsub h
  case filesystem.filesystem.filesystem granted requested path access =>
      obtain ⟨root, hroot, hmatch⟩ := any_eq_true.mp h
      obtain ⟨maximum, hmaximum, hcontains⟩ := any_eq_true.mp (all_eq_true.mp hsub root hroot)
      rw [Bool.and_eq_true] at hmatch hcontains
      refine any_eq_true.mpr ⟨maximum, hmaximum, ?_⟩
      rw [Bool.and_eq_true]
      exact ⟨containsLogicalPath_trans hcontains.1 hmatch.1,
        contains_of_containsAll hcontains.2 hmatch.2⟩
  case network.network.network =>
      simp only [categorySubset, Permission.admits, Bool.and_eq_true] at hsub h ⊢
      exact ⟨⟨contains_of_containsAll hsub.1.1 h.1.1, contains_of_containsAll hsub.1.2 h.1.2⟩,
        contains_of_containsAll hsub.2 h.2⟩
  case secret.secret.secret => exact contains_of_containsAll hsub h
  case worker.worker.worker =>
      simp only [categorySubset, Permission.admits, Bool.and_eq_true, decide_eq_true_eq] at hsub h ⊢
      obtain ⟨⟨⟨hlabels, hcpu⟩, hmemory⟩, hstorage⟩ := hsub
      obtain ⟨⟨⟨hlabels', hcpu'⟩, hmemory'⟩, hstorage'⟩ := h
      exact ⟨⟨⟨labels_trans hlabels hlabels', hcpu'.trans hcpu⟩, hmemory'.trans hmemory⟩,
        hstorage'.trans hstorage⟩

theorem kind_of_admits {permission : Permission} {attempt : PermissionCallAttempt}
    (h : permission.admits attempt = true) : permission.kind = attempt.kind := by
  cases permission <;> cases attempt <;> first | rfl | cases h

/-- **A grant that exceeds nothing is a smaller set of calls.** -/
theorem calls_subset_of_exceeding {requested granted : List Permission}
    (h : exceeding requested granted = none) : envelopeCalls granted ⊆ envelopeCalls requested := by
  rintro attempt ⟨permission, hfind, hadmits⟩
  have hkind := kind_of_admits hadmits
  have hwithin := find?_eq_none.mp h permission (mem_of_find?_eq_some hfind)
  rw [hkind] at hwithin
  split at hwithin
  · next maximum hmaximum =>
    exact ⟨maximum, hmaximum, admits_of_categorySubset (by simpa using hwithin) hadmits⟩
  · simp at hwithin

theorem validatePermissionGrant_allowed {domainToASCII : JsString → JsString}
    {requested granted : JsValue}
    (h : (validatePermissionGrant domainToASCII requested granted).allowed = true) :
    ∃ requested' granted', canonicalizePermissionSet domainToASCII requested = .ok requested' ∧
      canonicalizePermissionSet domainToASCII granted = .ok granted' ∧
      exceeding requested' granted' = none := by
  unfold validatePermissionGrant at h
  cases hr : canonicalizePermissionSet domainToASCII requested with
  | error e => simp [hr, bind, Except.bind] at h
  | ok requested' =>
    cases hg : canonicalizePermissionSet domainToASCII granted with
    | error e => simp [hr, hg, bind, Except.bind] at h
    | ok granted' =>
      refine ⟨requested', granted', rfl, rfl, ?_⟩
      simp only [hr, hg, bind, Except.bind, pure, Except.pure] at h
      cases hx : exceeding requested' granted' with
      | none => rfl
      | some permission => simp [hx] at h

/-- **Attenuation.** Whatever a validated grant allows, the request it was
validated against allows too. -/
theorem gatePermission_of_validatePermissionGrant (domainToASCII : JsString → JsString)
    (requested granted attempt : JsValue)
    (hgrant : (validatePermissionGrant domainToASCII requested granted).allowed = true)
    (hgate : (gatePermission domainToASCII granted attempt).allowed = true) :
    (gatePermission domainToASCII requested attempt).allowed = true := by
  obtain ⟨requested', granted', hr, hg, hwithin⟩ := validatePermissionGrant_allowed hgrant
  obtain ⟨permissions, call, hset, hcall, hmem⟩ := gatePermission_allowed.mp hgate
  cases hg.symm.trans hset
  exact gatePermission_allowed.mpr
    ⟨requested', call, hr, hcall, calls_subset_of_exceeding hwithin hmem⟩

def text (s : String) : JsValue := .string (js s)

def rootEnvelope (path : String) (access : List String) : JsValue :=
  .array [.object [field "kind" (text "filesystem"),
    field "roots" (.array [.object [field "path" (text path),
      field "access" (.array (access.map text))]])]]

/-- Reading below a granted root, where the request was for the root above it. -/
theorem gatePermission_of_validatePermissionGrant_root :
    (gatePermission id (rootEnvelope "/data" ["write", "read"])
      (.object [field "kind" (text "filesystem"), field "path" (text "/data/in/a.txt"),
        field "access" (text "read")])).allowed = true :=
  gatePermission_of_validatePermissionGrant id (rootEnvelope "/data" ["write", "read"])
    (rootEnvelope "/data/in" ["read"]) _ (by decide +kernel) (by decide +kernel)

end TegoNext
