/-
Permission envelopes: what the parser accepts, and when a granted envelope stays within a requested
one.

`canonicalizePermissionSet` accepts lists of at most one permission per kind and returns them with
sorted, duplicate-free lists. `validatePermissionGrant` canonicalises both envelopes and compares
them category by category. `LogicalPath` is an absolute path: containment of roots is transitive
only among these. The international-domain conversion is a parameter.
-/
import TegoNext.JsValue

set_option autoImplicit false

namespace TegoNext

open Text JsValue

/-! ## Canonical permissions -/

inductive HttpMethod where
  | DELETE
  | GET
  | HEAD
  | OPTIONS
  | PATCH
  | POST
  | PUT
  deriving DecidableEq

inductive ExecutorKind where
  | process
  | remote
  | thread
  deriving DecidableEq

inductive FilesystemAccess where
  | read
  | write
  deriving DecidableEq

def HttpMethod.text : HttpMethod → String
  | DELETE => "DELETE"
  | GET => "GET"
  | HEAD => "HEAD"
  | OPTIONS => "OPTIONS"
  | PATCH => "PATCH"
  | POST => "POST"
  | PUT => "PUT"

def ExecutorKind.text : ExecutorKind → String
  | process => "process"
  | remote => "remote"
  | thread => "thread"

def FilesystemAccess.text : FilesystemAccess → String
  | read => "read"
  | write => "write"

def ofText {α : Type} (all : List α) (text : α → String) (s : JsString) : Option α :=
  all.find? fun a => js (text a) == s

def HttpMethod.ofText : JsString → Option HttpMethod :=
  TegoNext.ofText [DELETE, GET, HEAD, OPTIONS, PATCH, POST, PUT] text

def ExecutorKind.ofText : JsString → Option ExecutorKind :=
  TegoNext.ofText [process, remote, thread] text

def FilesystemAccess.ofText : JsString → Option FilesystemAccess :=
  TegoNext.ofText [read, write] text

/-- Enumerations are sorted by their texts. -/
def compareBy {α : Type} (text : α → String) (left right : α) : Ordering :=
  compareText (js (text left)) (js (text right))

/-- `/`. -/
def slash : UInt16 := 47

structure LogicalPath where
  text : JsString
  absolute : text.head? = some slash
  deriving DecidableEq

structure CapabilityEntry where
  name : JsString
  methods : List JsString

structure FilesystemRoot where
  path : LogicalPath
  access : List FilesystemAccess

structure ResourceCeilings where
  cpuMillis : Int
  memoryBytes : Int
  storageBytes : Int

inductive PermissionKind where
  | capability
  | environment
  | executor
  | filesystem
  | network
  | secret
  | worker
  deriving DecidableEq

def PermissionKind.text : PermissionKind → String
  | capability => "capability"
  | environment => "environment"
  | executor => "executor"
  | filesystem => "filesystem"
  | network => "network"
  | secret => "secret"
  | worker => "worker"

def PermissionKind.ofText : JsString → Option PermissionKind :=
  TegoNext.ofText [capability, environment, executor, filesystem, network, secret, worker] text

inductive Permission where
  | capability (capabilities : List CapabilityEntry)
  | environment (names : List JsString)
  | executor (executors : List ExecutorKind)
  | filesystem (roots : List FilesystemRoot)
  | network (hosts : List JsString) (methods : List HttpMethod) (ports : List Int)
  | secret (names : List JsString)
  | worker (labels : List (JsString × JsString)) (resources : ResourceCeilings)

def Permission.kind : Permission → PermissionKind
  | capability _ => .capability
  | environment _ => .environment
  | executor _ => .executor
  | filesystem _ => .filesystem
  | network _ _ _ => .network
  | secret _ => .secret
  | worker _ _ => .worker

/-! ## Texts -/

def portableName (value : JsValue) (path : JsString) : Except PermissionInputError JsString := do
  let name ← stringAt value path
  if isPortableName name then pure name
  else throw ⟨path, js "value must be a portable name"⟩

/-- `[A-Za-z_]`, the first unit of an environment name. -/
def isEnvironmentInitial (u : UInt16) : Bool := (65 ≤ u && u ≤ 90) || (97 ≤ u && u ≤ 122) || u == 95

/-- `/^[A-Za-z_][A-Za-z0-9_]{0,127}$/u`. -/
def isEnvironmentName : JsString → Bool
  | [] => false
  | u :: rest =>
    isEnvironmentInitial u && rest.length ≤ 127 && rest.all fun v => isAlphanumeric v || v == 95

def environmentName (value : JsValue) (path : JsString) :
    Except PermissionInputError JsString := do
  let name ← stringAt value path
  if isEnvironmentName name then pure name
  else throw ⟨path, js "value must be a portable environment name"⟩

/-- `source.endsWith(".") ? source.slice(0, -1) : source`. -/
def withoutTrailing (u : UInt16) (s : JsString) : JsString :=
  if s.getLast? = some u then s.dropLast else s

/-- `toLowerCase` of ASCII texts. -/
def lowerAscii (s : JsString) : JsString := s.map fun u => if 65 ≤ u && u ≤ 90 then u + 32 else u

def isHostLabel (label : JsString) : Bool :=
  let lower (u : UInt16) : Bool := isDigit u || (97 ≤ u && u ≤ 122)
  1 ≤ label.length && label.length ≤ 63 && label.all (fun u => lower u || u == 45) &&
    label.head?.all lower && label.getLast?.all lower

/-- `canonicalHost`, over the platform's `domainToASCII`. -/
def canonicalHost (domainToASCII : JsString → JsString) (value : JsValue) (path : JsString) :
    Except PermissionInputError JsString := do
  let source ← stringAt value path
  if source.contains 42 || source.contains 0 || source.isEmpty then
    throw ⟨path, js "network host must be an exact DNS name"⟩
  let withoutDot := withoutTrailing 46 source
  if withoutDot.getLast? = some 46 || withoutDot.isEmpty then
    throw ⟨path, js "network host has an invalid trailing dot"⟩
  let ascii := lowerAscii (domainToASCII withoutDot)
  if ascii.isEmpty || 253 < ascii.length || !(ascii.splitOn 46).all isHostLabel then
    throw ⟨path, js "network host is not a valid exact DNS name"⟩
  pure ascii

def isPathSegment (segment : JsString) : Bool :=
  !segment.isEmpty && segment != js "." && segment != js ".." && segment.all isNameUnit

/-- The root with a trailing slash removed, which keeps it absolute. -/
def LogicalPath.trimmed (root : LogicalPath) : LogicalPath :=
  if h : root.text.length > 1 ∧ root.text.getLast? = some slash then
    ⟨root.text.dropLast, by rw [List.head?_dropLast, if_pos h.1, root.absolute]⟩
  else root

def canonicalRoot (value : JsValue) (path : JsString) :
    Except PermissionInputError LogicalPath := do
  let source ← stringAt value path
  if h : source.head? = some slash then
    if source.contains 92 || source.contains 0 || 
        source.tails.any (fun rest => startsWith rest (js "//")) then
      throw ⟨path, js "filesystem root must be an absolute POSIX logical path"⟩
    if !((source.splitOn slash).drop 1).all isPathSegment && source ≠ js "/" then
      throw ⟨path, js "filesystem root contains an invalid path segment"⟩
    pure (LogicalPath.mk source h).trimmed
  else throw ⟨path, js "filesystem root must be an absolute POSIX logical path"⟩

/-- `toUpperCase` of one code unit, as far as the method names can tell: what becomes
ASCII letters. Any other non-ASCII character keeps a non-ASCII upper case. -/
def upperUnit (u : UInt16) : List UInt16 :=
  if 97 ≤ u && u ≤ 122 then [u - 32]
  else if u = 0xdf then js "SS"
  else if u = 0x131 then js "I"
  else if u = 0x17f then js "S"
  else if u = 0xfb00 then js "FF"
  else if u = 0xfb01 then js "FI"
  else if u = 0xfb02 then js "FL"
  else if u = 0xfb03 then js "FFI"
  else if u = 0xfb04 then js "FFL"
  else if u = 0xfb05 || u = 0xfb06 then js "ST"
  else [u]

def canonicalMethods (value : JsValue) (path : JsString) :
    Except PermissionInputError (List HttpMethod) := do
  let items ← arrayAt value path
  let methods ← mapIndexed (fun index item => do
    let source ← stringAt item (child path (indexText index))
    match HttpMethod.ofText (source.flatMap upperUnit) with
    | some method => pure method
    | none => throw ⟨child path (indexText index), js "HTTP method is not allowed"⟩) 0 items
  pure (sortedUnique (compareBy HttpMethod.text) methods)

def canonicalMembers {α : Type} (ofText : JsString → Option α) (text : α → String)
    (message : String) (value : JsValue) (path : JsString) :
    Except PermissionInputError (List α) := do
  let items ← arrayAt value path
  let members ← mapIndexed (fun index item =>
    match item with
    | .string s =>
      match ofText s with
      | some member => pure member
      | none => throw ⟨child path (indexText index), js message⟩
    | _ => throw ⟨child path (indexText index), js message⟩) 0 items
  pure (sortedUnique (compareBy text) members)

/-! ## Canonical forms, kind by kind -/

/-- An array of names, each checked by `parse`, sorted and without repetitions. -/
def canonicalNameList (parse : JsValue → JsString → Except PermissionInputError JsString)
    (value : JsValue) (path : JsString) : Except PermissionInputError (List JsString) := do
  let items ← arrayAt value path
  let names ← mapIndexed (fun index item => parse item (child path (indexText index))) 0 items
  pure (sortedUnique compareText names)

/-- The entries of a capability permission from `index` on; `seen` are the names
of the ones before. -/
def capabilityEntries (path : JsString) (index : Nat) (seen : List JsString) :
    List JsValue → Except PermissionInputError (List CapabilityEntry)
  | [] => .ok []
  | item :: items => do
    let itemPath := child (at' path "capabilities") (indexText index)
    let entry ← objectAt item itemPath
    exactKeys entry ["methods", "name"] itemPath
    let name ← portableName (get entry "name") (at' itemPath "name")
    if seen.contains name then
      throw ⟨itemPath, js "capability permission is duplicated"⟩
    let methods ← canonicalNameList portableName (get entry "methods") (at' itemPath "methods")
    let rest ← capabilityEntries path (index + 1) (name :: seen) items
    pure (⟨name, methods⟩ :: rest)

def canonicalCapability (value : Fields) (path : JsString) :
    Except PermissionInputError Permission := do
  exactKeys value ["capabilities", "kind"] path
  let items ← arrayAt (get value "capabilities") (at' path "capabilities")
  let capabilities ← capabilityEntries path 0 [] items
  pure (.capability (capabilities.insertionSort fun left right =>
    compareText left.name right.name ≠ .gt))

def canonicalExecutor (value : Fields) (path : JsString) :
    Except PermissionInputError Permission := do
  exactKeys value ["executors", "kind"] path
  let executors ← canonicalMembers ExecutorKind.ofText ExecutorKind.text
    "executor kind is invalid" (get value "executors") (at' path "executors")
  pure (.executor executors)

def canonicalPort (value : JsValue) (path : JsString) : Except PermissionInputError Int :=
  match safeInteger value with
  | some port =>
    if 1 ≤ port ∧ port ≤ 65535 then .ok port
    else .error ⟨path, js "port must be between 1 and 65535"⟩
  | none => .error ⟨path, js "port must be between 1 and 65535"⟩

def canonicalNetwork (domainToASCII : JsString → JsString) (value : Fields) (path : JsString) :
    Except PermissionInputError Permission := do
  exactKeys value ["hosts", "kind", "methods", "ports"] path
  let hostItems ← arrayAt (get value "hosts") (at' path "hosts")
  let hosts ← mapIndexed (fun index host =>
    canonicalHost domainToASCII host (child (at' path "hosts") (indexText index))) 0 hostItems
  let portItems ← arrayAt (get value "ports") (at' path "ports")
  let ports ← mapIndexed (fun index port =>
    canonicalPort port (child (at' path "ports") (indexText index))) 0 portItems
  let methods ← canonicalMethods (get value "methods") (at' path "methods")
  pure (.network (sortedUnique compareText hosts) methods (sortedUnique compare ports))

/-- The entries of a filesystem permission from `index` on; `seen` are the roots
of the ones before. -/
def filesystemRoots (path : JsString) (index : Nat) (seen : List LogicalPath) :
    List JsValue → Except PermissionInputError (List FilesystemRoot)
  | [] => .ok []
  | item :: items => do
    let itemPath := child (at' path "roots") (indexText index)
    let entry ← objectAt item itemPath
    exactKeys entry ["access", "path"] itemPath
    let root ← canonicalRoot (get entry "path") (at' itemPath "path")
    if seen.contains root then throw ⟨itemPath, js "filesystem root is duplicated"⟩
    let access ← canonicalMembers FilesystemAccess.ofText FilesystemAccess.text
      "access mode is invalid" (get entry "access") (at' itemPath "access")
    let rest ← filesystemRoots path (index + 1) (root :: seen) items
    pure (⟨root, access⟩ :: rest)

def canonicalFilesystem (value : Fields) (path : JsString) :
    Except PermissionInputError Permission := do
  exactKeys value ["kind", "roots"] path
  let items ← arrayAt (get value "roots") (at' path "roots")
  let roots ← filesystemRoots path 0 [] items
  pure (.filesystem (roots.insertionSort fun left right =>
    compareText left.path.text right.path.text ≠ .gt))

/-- `canonicalNames` for environment variables. -/
def canonicalEnvironment (value : Fields) (path : JsString) :
    Except PermissionInputError Permission := do
  exactKeys value ["kind", "names"] path
  let names ← canonicalNameList environmentName (get value "names") (at' path "names")
  pure (.environment names)

/-- `canonicalNames` for secrets. -/
def canonicalSecret (value : Fields) (path : JsString) :
    Except PermissionInputError Permission := do
  exactKeys value ["kind", "names"] path
  let names ← canonicalNameList portableName (get value "names") (at' path "names")
  pure (.secret names)

/-- `resource`. -/
def resourceCeiling (value : JsValue) (path : JsString) : Except PermissionInputError Int :=
  match safeInteger value with
  | some n =>
    if 0 ≤ n then .ok n
    else .error ⟨path, js "resource ceiling must be a nonnegative safe integer"⟩
  | none => .error ⟨path, js "resource ceiling must be a nonnegative safe integer"⟩

def workerLabels (path : JsString) : Fields → Except PermissionInputError (List (JsString × JsString))
  | [] => .ok []
  | (name, value) :: fields => do
    let key ← portableName (.string name) (child (at' path "labels") name)
    let value ← portableName value (child (at' path "labels") name)
    let labels ← workerLabels path fields
    pure ((key, value) :: labels)

def canonicalWorker (value : Fields) (path : JsString) :
    Except PermissionInputError Permission := do
  exactKeys value ["kind", "labels", "resources"] path
  let sourceLabels ← objectAt (get value "labels") (at' path "labels")
  let labels ← workerLabels path (sortFields sourceLabels)
  let resources ← objectAt (get value "resources") (at' path "resources")
  exactKeys resources ["cpuMillis", "memoryBytes", "storageBytes"] (at' path "resources")
  let cpuMillis ← resourceCeiling (get resources "cpuMillis")
    (at' (at' path "resources") "cpuMillis")
  let memoryBytes ← resourceCeiling (get resources "memoryBytes")
    (at' (at' path "resources") "memoryBytes")
  let storageBytes ← resourceCeiling (get resources "storageBytes")
    (at' (at' path "resources") "storageBytes")
  pure (.worker labels ⟨cpuMillis, memoryBytes, storageBytes⟩)

def canonicalPermission (domainToASCII : JsString → JsString) (kind : JsString) (entry : Fields)
    (path : JsString) : Except PermissionInputError Permission :=
  match PermissionKind.ofText kind with
  | some .capability => canonicalCapability entry path
  | some .environment => canonicalEnvironment entry path
  | some .secret => canonicalSecret entry path
  | some .executor => canonicalExecutor entry path
  | some .filesystem => canonicalFilesystem entry path
  | some .network => canonicalNetwork domainToASCII entry path
  | some .worker => canonicalWorker entry path
  | none => .error ⟨at' path "kind", js "permission kind is invalid"⟩

/-- The entries of the set from `index` on; `seen` are the kinds of the ones
before. -/
def canonicalEntries (domainToASCII : JsString → JsString) (index : Nat) (seen : List JsString) :
    List JsValue → Except PermissionInputError (List Permission)
  | [] => .ok []
  | item :: items => do
    let path := child (js "$") (indexText index)
    let entry ← objectAt item path
    let kind ← stringAt (get entry "kind") (at' path "kind")
    if seen.contains kind then
      throw ⟨path, js "permission kind " ++ kind ++ js " is duplicated"⟩
    let permission ← canonicalPermission domainToASCII kind entry path
    let rest ← canonicalEntries domainToASCII (index + 1) (kind :: seen) items
    pure (permission :: rest)

def canonicalizePermissionSet (domainToASCII : JsString → JsString) (input : JsValue) :
    Except PermissionInputError (List Permission) := do
  let stable ← clone (js "$") input
  let entries ← arrayAt stable (js "$")
  let permissions ← canonicalEntries domainToASCII 0 [] entries
  pure (permissions.insertionSort fun left right =>
    compareBy PermissionKind.text left.kind right.kind ≠ .gt)

/-! ## Grants -/

def containsAll {α : Type} [BEq α] (requested granted : List α) : Bool :=
  granted.all fun value => requested.contains value

def containsLogicalPath (root target : LogicalPath) : Bool :=
  root.text == js "/" || target.text == root.text || startsWith target.text (root.text ++ [slash])

def categorySubset : Permission → Permission → Bool
  | .capability requested, .capability granted =>
    granted.all fun capability =>
      match requested.find? fun candidate => candidate.name == capability.name with
      | some requestedCapability => containsAll requestedCapability.methods capability.methods
      | none => false
  | .environment requested, .environment granted => containsAll requested granted
  | .executor requested, .executor granted => containsAll requested granted
  | .filesystem requested, .filesystem granted =>
    granted.all fun root => requested.any fun requestedRoot =>
      containsLogicalPath requestedRoot.path root.path &&
        containsAll requestedRoot.access root.access
  | .network hosts methods ports, .network hosts' methods' ports' =>
    containsAll hosts hosts' && containsAll ports ports' && containsAll methods methods'
  | .secret requested, .secret granted => containsAll requested granted
  | .worker labels maximum, .worker labels' granted =>
    labels.all (fun label => labels'.lookup label.1 == some label.2) &&
      granted.cpuMillis ≤ maximum.cpuMillis && granted.memoryBytes ≤ maximum.memoryBytes &&
      granted.storageBytes ≤ maximum.storageBytes
  | _, _ => false

inductive PermissionDecisionCode where
  | PERMISSION_ENVELOPE_INVALID
  | PERMISSION_GRANT_EXCEEDS_REQUEST
  deriving DecidableEq

/-- A diagnostic of a decision; a message the platform itself words is `none`. -/
structure PermissionDecisionDiagnostic where
  code : PermissionDecisionCode
  message : Option JsString
  path : JsString
  deriving DecidableEq

structure PermissionDecision where
  allowed : Bool
  diagnostics : List PermissionDecisionDiagnostic
  requested : Option (List Permission)
  granted : Option (List Permission)

def exceeding (requested granted : List Permission) : Option Permission :=
  granted.find? fun permission =>
    match requested.find? fun candidate => candidate.kind == permission.kind with
    | some maximum => !categorySubset maximum permission
    | none => true

def validatePermissionGrant (domainToASCII : JsString → JsString)
    (requestedInput grantedInput : JsValue) : PermissionDecision :=
  let canonical := do
    let requested ← canonicalizePermissionSet domainToASCII requestedInput
    let granted ← canonicalizePermissionSet domainToASCII grantedInput
    pure (requested, granted)
  match canonical with
  | .error invalid =>
    { allowed := false
      diagnostics := [⟨.PERMISSION_ENVELOPE_INVALID, some invalid.message, invalid.path⟩]
      requested := none
      granted := none }
  | .ok (requested, granted) =>
    match exceeding requested granted with
    | some permission =>
      { allowed := false
        diagnostics :=
          [⟨.PERMISSION_GRANT_EXCEEDS_REQUEST,
            some (js ("Granted " ++ permission.kind.text ++
              " permission exceeds the manifest request")),
            js ("$/granted/" ++ permission.kind.text)⟩]
        requested := some requested
        granted := some granted }
    | none =>
      { allowed := true, diagnostics := [], requested := some requested, granted := some granted }

end TegoNext
