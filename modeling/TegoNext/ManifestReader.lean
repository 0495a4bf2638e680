/-
The reader of plugin archives.

An archive arrives in chunks, cut anywhere. The reader puts blocks together, hashes what it
consumes, hands the bytes of each entry to an observer and captures two files; when the archive has
ended it checks the files against `metadata/files.json` and the manifest. The hash of a stream is
represented by the bytes that went into it. The loops go round as often as they are given rounds.
-/
import TegoNext.ArchiveCodec
import TegoNext.ExecutionBindings
import TegoNext.JsMap

set_option autoImplicit false

namespace TegoNext

open Text CanonicalJson
open ExecutionBindings (isSha256Hex)

/-! ## The platform -/

structure ArtifactComponent where
  componentId : JsString
  kind : JsString
  entrypoint : JsString

structure ArtifactProvision where
  name : JsString
  protocolVersion : JsString
  componentId : JsString
  methods : List JsString

/-- A `PluginManifest`, with the fields the reader looks at. -/
structure ArtifactManifest where
  document : JsonValue
  components : List ArtifactComponent
  provides : List ArtifactProvision

structure ArtifactPlatform where
  unicode : UnicodeTables
  /-- `createHash("sha256")` of bytes, as sixty-four hexadecimal digits. -/
  sha256 : List UInt8 → Vector (Fin 16) 64
  parseJson : JsString → Option JsonValue
  textOf : JsonValue → JsString
  /-- `parseWithValidator` with the compiled schema of a manifest. -/
  validatePluginManifest : JsonValue → Except ArtifactDiagnostic ArtifactManifest

/-- `sha256:` and the digits of a hash; this is always a digest. -/
def ArtifactPlatform.digest (platform : ArtifactPlatform) (bytes : List UInt8) : JsString :=
  js "sha256:" ++ (platform.sha256 bytes).toList.map hexDigit

/-! ## Streams -/

structure ReadState (ω : Type) where
  /-- The chunks that are still to come. -/
  source : List (List UInt8)
  /-- What is left of the current chunk. -/
  chunk : List UInt8
  consumed : Nat
  hashed : List UInt8
  observer : ω

def ReadState.opened {ω : Type} (source : List (List UInt8)) (o : ω) : ReadState ω :=
  ⟨source, [], 0, [], o⟩

abbrev ReadM (ω α : Type) : Type := EStateM ArtifactThrown (ReadState ω) α

section Streams

variable {ω : Type}

def archiveTruncated : ArtifactThrown :=
  artifactError .ARTIFACT_ARCHIVE_TRUNCATED "Plugin archive is truncated" none

def archiveMalformed (message : String) : ArtifactThrown :=
  artifactError .ARTIFACT_ARCHIVE_MALFORMED message none

def numberDetail (name : String) (n : Nat) : JsString × JsonValue := (js name, .number n)

def archiveTooLarge (maxBytes : Nat) : ArtifactThrown :=
  artifactError .ARTIFACT_ARCHIVE_TOO_LARGE "Plugin archive exceeds the configured byte limit"
    (some [numberDetail "maxArchiveBytes" maxBytes])

/-- A piece has been taken; `chunk` is what is left of the current chunk. -/
def ReadState.took (s : ReadState ω) (source : List (List UInt8)) (chunk piece : List UInt8) :
    ReadState ω :=
  { s with
    source := source
    chunk := chunk
    hashed := s.hashed ++ piece
    consumed := s.consumed + piece.length }

/-- The loop of `readExact`: a round takes what it needs from the current chunk, if anything is
left, and asks for the next one if that was not enough. -/
def fill (maxBytes length : Nat) (eofAllowed : Bool) :
    List (List UInt8) → List UInt8 → List UInt8 → ReadState ω →
      EStateM.Result ArtifactThrown (ReadState ω) (Option (List UInt8))
  | source, chunk, output, s =>
    let piece := chunk.take (length - output.length)
    let output := output ++ piece
    let s := s.took source (chunk.drop piece.length) piece
    if maxBytes < s.consumed then .error (archiveTooLarge maxBytes) s
    else if output.length = length then .ok (some output) s
    else
      match source with
      | [] => if output.isEmpty && eofAllowed then .ok none s else .error archiveTruncated s
      | next :: source =>
        if next.isEmpty then
          .error (archiveMalformed "Plugin archive yielded an empty byte chunk")
            { s with source := source }
        else fill maxBytes length eofAllowed source next output s

def readExact (maxBytes length : Nat) (eofAllowed : Bool) : ReadM ω (Option (List UInt8)) :=
  fun s => fill maxBytes length eofAllowed s.source s.chunk [] s

def isZeroBlock (bytes : List UInt8) : Bool := bytes.all (· == 0)

/-- `assertZeroRemainder`, if it ends within so many rounds. -/
def assertZeroRemainder (maxBytes : Nat) : Nat → ReadM ω (Option Unit)
  | 0 => pure none
  | rounds + 1 => do
    match ← readExact maxBytes tarBlockSize true with
    | none => pure (some ())
    | some block =>
      if isZeroBlock block then assertZeroRemainder maxBytes rounds
      else throw (archiveMalformed "Plugin archive contains data after its end marker")

end Streams

/-! ## Headers -/

/-- `bytes.subarray(start, end)` -/
def subarray (bytes : List UInt8) (start stop : Nat) : List UInt8 := (bytes.take stop).drop start

def decodeNullTerminated (bytes : List UInt8) (fieldName : String) :
    Except ArtifactThrown JsString :=
  let text := bytes.takeWhile (· != 0)
  if (bytes.drop text.length).any (· != 0) then
    .error (archiveMalformed ("Tar " ++ fieldName ++ " contains bytes after its terminator"))
  else
    match decodeText text with
    | some text => .ok text
    | none => .error (archiveMalformed ("Tar " ++ fieldName ++ " is not valid UTF-8"))

def parseOctal (bytes : List UInt8) (fieldName : String) : Except ArtifactThrown Nat := do
  let text := trim (← decodeNullTerminated bytes fieldName)
  if !isOctal text then
    throw (archiveMalformed ("Tar " ++ fieldName ++ " is not a canonical octal number"))
  if maxSafeInteger < octalValue text then
    throw (archiveMalformed ("Tar " ++ fieldName ++ " exceeds the safe integer range"))
  pure (octalValue text)

/-- `readChecksum`: a byte is the character with its number. -/
def readChecksum (header : List UInt8) : Except ArtifactThrown Nat :=
  let text := trim (((subarray header 148 156).map UInt8.toUInt16).filter (· != 0))
  if isOctal text then .ok (octalValue text)
  else .error (archiveMalformed "Tar checksum is not a canonical octal number")

def checksumOf (header : List UInt8) : Nat := byteSum (setBytes header 148 (List.replicate 8 0x20))

def validateChecksum (header : List UInt8) : Except ArtifactThrown Unit := do
  let expected ← readChecksum header
  let actual := checksumOf header
  if actual ≠ expected then
    throw (artifactError .ARTIFACT_HEADER_CHECKSUM_INVALID "Tar header checksum does not match"
      (some [numberDetail "actual" actual, numberDetail "expected" expected]))

structure ParsedHeader where
  path : JsString
  size : Nat

def parseHeader (unicode : UnicodeTables) (header : List UInt8) :
    Except ArtifactThrown ParsedHeader := do
  validateChecksum header
  let type := (header[156]?).getD 0
  if type ≠ 0 ∧ type ≠ 48 then
    throw (artifactError .ARTIFACT_ENTRY_TYPE_UNSUPPORTED "Only regular file entries are supported"
      (some [(js "type", .string [type.toUInt16])]))
  let magic ← decodeNullTerminated (subarray header 257 263) "magic"
  if magic ≠ js "ustar" then
    throw (archiveMalformed "Plugin archive must use the POSIX ustar format")
  let version ← decodeNullTerminated (subarray header 263 265) "version"
  if version ≠ js "00" then
    throw (archiveMalformed "Plugin archive must use the POSIX ustar format")
  let name ← decodeNullTerminated (subarray header 0 100) "name"
  let pre ← decodeNullTerminated (subarray header 345 500) "prefix"
  let path := if pre.isEmpty then name else pre ++ js "/" ++ name
  assertPortableArtifactPath unicode path
  let size ← parseOctal (subarray header 124 136) "size"
  pure ⟨path, size⟩

/-! ## Entries -/

/-- `ArtifactReadObserver` and its writers; a call may throw and may have done something before. -/
structure ArtifactReadObserver (ω : Type) where
  openEntry : JsString → Nat → ω → Except ArtifactThrown Unit × ω
  write : List UInt8 → ω → Except ArtifactThrown Unit × ω
  close : ω → Except ArtifactThrown Unit × ω
  abort : ArtifactThrown → ω → Except ArtifactThrown Unit × ω

section Entries

variable {ω : Type} (observer : ArtifactReadObserver ω) (maxBytes : Nat)

def tell (call : ω → Except ArtifactThrown Unit × ω) : ReadM ω Unit := fun s =>
  match call s.observer with
  | (.ok (), o) => .ok () { s with observer := o }
  | (.error thrown, o) => .error thrown { s with observer := o }

def readLengths (size : Nat) : List Nat :=
  List.replicate (size / 65536) 65536 ++ if size % 65536 = 0 then [] else [size % 65536]

/-- The loop of `readEntry`, with what has been read before. -/
def readContents : List Nat → List UInt8 → ReadM ω (List UInt8)
  | [], contents => pure contents
  | length :: lengths, contents => do
    match ← readExact maxBytes length false with
    | none => throw archiveTruncated
    | some chunk =>
      tell (observer.write chunk)
      readContents lengths (contents ++ chunk)

/-- The `catch` of `readEntry`. -/
def orAbort {α : Type} (m : ReadM ω α) : ReadM ω α := fun s =>
  match m s with
  | .ok a s => .ok a s
  | .error thrown s =>
    match observer.abort thrown s.observer with
    | (.ok (), o) => .error thrown { s with observer := o }
    | (.error cleanup, o) => .error (.notAborted thrown cleanup) { s with observer := o }

/-- The end of `readEntry`: the zeros after an entry. -/
def readPadding (size : Nat) : ReadM ω Unit :=
  if paddingOf size = 0 then pure ()
  else do
    match ← readExact maxBytes (paddingOf size) false with
    | none => throw (archiveMalformed "Tar entry padding must contain only zero bytes")
    | some padding =>
      if isZeroBlock padding then pure ()
      else throw (archiveMalformed "Tar entry padding must contain only zero bytes")

/-- `readEntry`: the bytes of an entry. -/
def readEntry (path : JsString) (size : Nat) : ReadM ω (List UInt8) := do
  tell (observer.openEntry path size)
  let contents ← orAbort observer do
    let contents ← readContents observer maxBytes (readLengths size) []
    tell observer.close
    pure contents
  readPadding maxBytes size
  pure contents

end Entries

/-! ## The loop over the archive -/

structure EntryRecord where
  digest : JsString
  size : Nat

/-- What the loop over the archive has found. -/
structure ArchiveScan where
  zeroBlocks : Nat
  entries : JsMap JsString EntryRecord
  collisionKeys : JsMap JsString JsString
  manifestBytes : Option (List UInt8)
  filesBytes : Option (List UInt8)

def ArchiveScan.start : ArchiveScan where
  zeroBlocks := 0
  entries := .empty
  collisionKeys := .empty
  manifestBytes := none
  filesBytes := none

structure ArtifactReadLimits where
  maxArchiveBytes : Option Int
  maxEntries : Option Int
  maxEntryBytes : Option Int

def maxMetadataBytes : Nat := 4 * 1024 * 1024
def maxManifestBytes : Nat := 1024 * 1024

def manifestPath : JsString := js "manifest.json"
def filesPath : JsString := js "metadata/files.json"
def sbomPath : JsString := js "metadata/sbom.json"

/-- How many bytes of an entry may be captured, if it is to be captured. -/
def captureLimit (path : JsString) : Option Nat :=
  if path = manifestPath then some maxManifestBytes
  else if path = filesPath then some maxMetadataBytes
  else none

section Scan

variable {ω : Type} (platform : ArtifactPlatform) (observer : ArtifactReadObserver ω)
  (maxBytes maxEntries maxEntryBytes : Nat)

def admitEntry (scan : ArchiveScan) (parsed : ParsedHeader) : Except ArtifactThrown JsString := do
  let collisionKey ← portableArtifactCollisionKey platform.unicode parsed.path
  match scan.collisionKeys.get collisionKey with
  | some previous =>
    let details : JsonFields :=
      [(js "path", .string parsed.path), (js "previous", .string previous)]
    if previous = parsed.path then
      .error (artifactError .ARTIFACT_ENTRY_DUPLICATE "Artifact contains a duplicate entry" details)
    else
      .error (artifactError .ARTIFACT_ENTRY_COLLISION
        "Artifact entries collide on a portable filesystem" details)
  | none =>
    if maxEntries ≤ scan.entries.size then
      .error (artifactError .ARTIFACT_ENTRY_COUNT_EXCEEDED "Artifact contains too many entries"
        (some [numberDetail "maxEntries" maxEntries]))
    else if maxEntryBytes < parsed.size then
      .error (artifactError .ARTIFACT_ENTRY_TOO_LARGE
        "Artifact entry exceeds the configured byte limit"
        (some [numberDetail "maxEntryBytes" maxEntryBytes, (js "path", .string parsed.path),
          numberDetail "size" parsed.size]))
    else
      match captureLimit parsed.path with
      | some limit =>
        if limit < parsed.size then
          .error (artifactError .ARTIFACT_ENTRY_TOO_LARGE
            "Artifact metadata entry exceeds its byte limit"
            (some [numberDetail "maxEntryBytes" limit, (js "path", .string parsed.path),
              numberDetail "size" parsed.size]))
        else .ok collisionKey
      | none => .ok collisionKey

def ArchiveScan.record (scan : ArchiveScan) (parsed : ParsedHeader) (collisionKey : JsString)
    (contents : List UInt8) : ArchiveScan :=
  { scan with
    entries := scan.entries.set parsed.path ⟨platform.digest contents, parsed.size⟩
    collisionKeys := scan.collisionKeys.set collisionKey parsed.path
    manifestBytes := if parsed.path = manifestPath then some contents else scan.manifestBytes
    filesBytes := if parsed.path = filesPath then some contents else scan.filesBytes }

def orThrow {α : Type} : Except ArtifactThrown α → ReadM ω α
  | .ok a => pure a
  | .error thrown => throw thrown

/-- A round of the loop. -/
def scanBlock (scan : ArchiveScan) : ReadM ω ArchiveScan := do
  match ← readExact maxBytes tarBlockSize true with
  | none =>
    throw (artifactError .ARTIFACT_ARCHIVE_TRUNCATED "Plugin archive has no complete end marker"
      none)
  | some header =>
    if isZeroBlock header then pure { scan with zeroBlocks := scan.zeroBlocks + 1 }
    else if scan.zeroBlocks ≠ 0 then
      throw (archiveMalformed "Tar end marker contains only one zero block")
    else do
      let parsed ← orThrow (parseHeader platform.unicode header)
      let collisionKey ← orThrow (admitEntry platform maxEntries maxEntryBytes scan parsed)
      let contents ← readEntry observer maxBytes parsed.path parsed.size
      pure (scan.record platform parsed collisionKey contents)

/-- The loop, if it ends within so many rounds. -/
def scanLoop : Nat → ArchiveScan → ReadM ω (Option ArchiveScan)
  | 0, _ => pure none
  | rounds + 1, scan =>
    if 2 ≤ scan.zeroBlocks then pure (some scan)
    else do
      let scan ← scanBlock platform observer maxBytes maxEntries maxEntryBytes scan
      scanLoop rounds scan

def scanArchive (rounds : Nat) : ReadM ω (Option ArchiveScan) := do
  match ← scanLoop platform observer maxBytes maxEntries maxEntryBytes rounds .start with
  | none => pure none
  | some scan =>
    match ← assertZeroRemainder maxBytes rounds with
    | none => pure none
    | some () => pure (some scan)

end Scan

/-! ## The manifest and the list of files -/

section Checks

variable (platform : ArtifactPlatform)

def parseJson (bytes : List UInt8) (path : JsString) : Except ArtifactThrown JsonValue :=
  match (decodeText bytes).bind platform.parseJson with
  | some value => .ok value
  | none => .error (.diagnostic ⟨.ARTIFACT_METADATA_INVALID, path ++ js " is not valid JSON",
      ⟨"artifact", "archive"⟩, pathDetails path⟩)

/-- `field` -/
def ownField (input : JsonValue) (key : String) : Option JsonValue :=
  match input with
  | .object fields => fields.lookup (js key)
  | _ => none

def manifestError (code : ArtifactCode) (message : JsString) : ArtifactThrown :=
  .diagnostic ⟨code, message, ⟨"artifact", "manifest.json"⟩, none⟩

def manifestInvalid (message : String) : ArtifactThrown :=
  manifestError .ARTIFACT_MANIFEST_INVALID (js message)

/-- The loop of `parsePluginManifest` over what a plugin provides. -/
def checkProvisions (components : JsMap JsString ArtifactComponent) :
    List JsString → List ArtifactProvision → Except ArtifactThrown Unit
  | _, [] => .ok ()
  | provisions, provision :: rest =>
    let key := decimal provision.name.length ++ js ":" ++ provision.name ++
      provision.protocolVersion
    if !ExecutionBindings.canonicalMethods provision.methods then
      .error (manifestInvalid
        "Capability provision methods must be canonical, non-empty, and unique")
    else if key ∈ provisions then
      .error (manifestInvalid "Capability provision is duplicated")
    else if (components.get provision.componentId).any (·.kind = js "task") then
      checkProvisions components (provisions ++ [key]) rest
    else .error (manifestInvalid "Capability provider component must be a declared task")

def parsePluginManifest (input : JsonValue) : Except ArtifactThrown ArtifactManifest := do
  match ownField input "moduleFormat" with
  | none => pure ()
  | some (.string format) =>
    if format ≠ js "esm" then
      throw (manifestError .ARTIFACT_MODULE_FORMAT_UNSUPPORTED
        (js "Plugin module format " ++ format ++ js " is unsupported; expected esm"))
  | some format =>
    throw (manifestError .ARTIFACT_MODULE_FORMAT_UNSUPPORTED
      (js "Plugin module format " ++ platform.textOf format ++ js " is unsupported; expected esm"))
  match ownField input "schemaVersion" with
  | none => pure ()
  | some (.string version) =>
    if version ≠ js "1.0" then
      throw (manifestError .ARTIFACT_SCHEMA_VERSION_UNSUPPORTED
        (js "Plugin schema version " ++ version ++ js " is unsupported"))
  | some version =>
    throw (manifestError .ARTIFACT_SCHEMA_VERSION_UNSUPPORTED
      (js "Plugin schema version " ++ platform.textOf version ++ js " is unsupported"))
  let manifest ←
    match platform.validatePluginManifest input with
    | .ok manifest => pure manifest
    | .error d => throw (.diagnostic d)
  let components := manifest.components.foldl (fun components component =>
    components.set component.componentId component) JsMap.empty
  checkProvisions components [] manifest.provides
  pure manifest

structure ArtifactFileRecord where
  path : JsString
  sha256 : JsString
  size : Nat

def metadataInvalid (message : String) (details : Option JsonFields) : ArtifactThrown :=
  artifactError .ARTIFACT_METADATA_INVALID message details

def sizeOf : Option JsonValue → Option Nat
  | some (.number q) =>
    if q.den = 1 ∧ 0 ≤ q.num ∧ q.num ≤ maxSafeInteger then some q.num.toNat else none
  | _ => none

def fileFields (value : JsonValue) : Option (JsString × JsString × Nat) :=
  match ownField value "path", ownField value "sha256", sizeOf (ownField value "size") with
  | some (.string path), some (.string sha256), some size => some (path, sha256, size)
  | _, _, _ => none

/-- `invalidIdentity` of a digest -/
def digestInvalid (value : JsString) : ArtifactThrown :=
  .diagnostic ⟨.PROTOCOL_IDENTITY_INVALID,
    js "ArtifactDigest must be a non-empty portable identifier", ⟨"protocol", "ArtifactDigest"⟩,
    some [(js "name", .string (js "ArtifactDigest")), (js "value", .string value)]⟩

/-- The loop of `parseFilesMetadata`. -/
def parseFileRecords : JsMap JsString JsString → List JsonValue →
    Except ArtifactThrown (List ArtifactFileRecord)
  | _, [] => .ok []
  | seen, value :: values =>
    match fileFields value with
    | none => .error (metadataInvalid "metadata/files.json contains an invalid file record" none)
    | some (path, sha256, size) => do
      let collisionKey ← portableArtifactCollisionKey platform.unicode path
      if path = filesPath then
        .error (metadataInvalid "metadata/files.json contains a self declaration"
          (pathDetails path))
      else
        match seen.get collisionKey with
        | some previous =>
          let details : JsonFields := [(js "path", .string path), (js "previous", .string previous)]
          if previous = path then
            .error (metadataInvalid "metadata/files.json contains a duplicate declaration" details)
          else
            .error (artifactError .ARTIFACT_ENTRY_COLLISION
              "Artifact declarations collide on a portable filesystem" details)
        | none =>
          if startsWith sha256 (js "sha256:") && isSha256Hex (sha256.drop 7) then do
            let records ← parseFileRecords (seen.set collisionKey path) values
            pure (⟨path, sha256, size⟩ :: records)
          else .error (digestInvalid sha256)

def parseFilesMetadata (input : JsonValue) : Except ArtifactThrown (List ArtifactFileRecord) :=
  match ownField input "schemaVersion", ownField input "files" with
  | some (.string version), some (.array files) =>
    if version = js "1.0" then parseFileRecords platform .empty files
    else .error (metadataInvalid "metadata/files.json has an invalid shape" none)
  | _, _ => .error (metadataInvalid "metadata/files.json has an invalid shape" none)

def checkDeclared (declared : JsMap JsString ArtifactFileRecord) :
    List (JsString × EntryRecord) → Except ArtifactThrown Unit
  | [] => .ok ()
  | (path, actual) :: entries =>
    if path = filesPath then checkDeclared declared entries
    else
      match declared.get path with
      | none => .error (artifactError .ARTIFACT_FILE_UNDECLARED
          "Artifact contains an undeclared file" (pathDetails path))
      | some declaration =>
        if declaration.size ≠ actual.size ∨ declaration.sha256 ≠ actual.digest then
          .error (artifactError .ARTIFACT_FILE_DIGEST_MISMATCH
            "Artifact file does not match metadata/files.json" (pathDetails path))
        else checkDeclared declared entries

/-- The declarations against the files. -/
def checkPresent (entries : JsMap JsString EntryRecord) : List JsString → Except ArtifactThrown Unit
  | [] => .ok ()
  | path :: paths =>
    match entries.get path with
    | none => .error (artifactError .ARTIFACT_FILE_MISSING
        "A declared artifact file is missing" (pathDetails path))
    | some _ => checkPresent entries paths

def checkEntrypoints (entries : JsMap JsString EntryRecord) :
    List ArtifactComponent → Except ArtifactThrown Unit
  | [] => .ok ()
  | component :: components => do
    assertPortableArtifactPath platform.unicode component.entrypoint
    match entries.get component.entrypoint with
    | none => .error (artifactError .ARTIFACT_ENTRYPOINT_MISSING
        "A component entrypoint is missing from the artifact"
        (some [(js "componentId", .string component.componentId),
          (js "entrypoint", .string component.entrypoint)]))
    | some _ => checkEntrypoints entries components

def declaredFiles (files : List ArtifactFileRecord) : JsMap JsString ArtifactFileRecord :=
  files.foldl (fun declared file => declared.set file.path file) .empty

/-- What `readPluginArtifact` checks when the archive has been read. -/
def checkArchive (scan : ArchiveScan) :
    Except ArtifactThrown (ArtifactManifest × List ArtifactFileRecord) :=
  match scan.manifestBytes, scan.filesBytes with
  | some manifestBytes, some filesBytes => do
    let manifest ← parsePluginManifest platform (← parseJson platform manifestBytes manifestPath)
    let files ← parseFilesMetadata platform (← parseJson platform filesBytes filesPath)
    let declared := declaredFiles files
    checkDeclared declared scan.entries.entries
    checkPresent scan.entries (declared.entries.map Prod.fst)
    if (scan.entries.get sbomPath).isNone then
      .error (artifactError .ARTIFACT_REQUIRED_FILE_MISSING
        "Artifact must contain metadata/sbom.json" none)
    else do
      checkEntrypoints platform scan.entries manifest.components
      pure (manifest, files)
  | _, _ => .error (artifactError .ARTIFACT_REQUIRED_FILE_MISSING
      "Artifact must contain one manifest.json and one metadata/files.json" none)

end Checks

/-! ## Reading -/

structure ReadPluginArtifact where
  archiveDigest : JsString
  manifest : ArtifactManifest
  files : List ArtifactFileRecord

section Reading

variable {ω : Type} (platform : ArtifactPlatform) (observer : ArtifactReadObserver ω)

/-- What is left to do with the source: `closing` is what its `return` does. -/
def closeSource (closing : Except ArtifactThrown Unit) :
    Except ArtifactThrown ReadPluginArtifact → Except ArtifactThrown ReadPluginArtifact
  | .ok result =>
    match closing with
    | .ok () => .ok result
    | .error cleanup => .error cleanup
  | .error thrown =>
    match closing with
    | .ok () => .error thrown
    | .error cleanup => .error (.notClosed thrown cleanup)

/-- The limits of the caller or the defaults: of the archive, an entry and the entries. -/
def ArtifactReadLimits.bounds (limits : ArtifactReadLimits) :
    Except ArtifactThrown (Nat × Nat × Nat) := do
  let maxArchiveBytes ←
    boundedPositiveInteger limits.maxArchiveBytes defaultMaxArchiveBytes "maxArchiveBytes"
  let maxEntryBytes ←
    boundedPositiveInteger limits.maxEntryBytes defaultMaxEntryBytes "maxEntryBytes"
  let maxEntries ← boundedPositiveInteger limits.maxEntries defaultMaxEntries "maxEntries"
  pure (maxArchiveBytes, maxEntryBytes, maxEntries)

def concludeRead (closing : Except ArtifactThrown Unit) :
    EStateM.Result ArtifactThrown (ReadState ω) (Option ArchiveScan) →
      Option (Except ArtifactThrown ReadPluginArtifact × ω)
  | .error thrown s => some (closeSource closing (.error thrown), s.observer)
  | .ok none _ => none
  | .ok (some scan) s =>
    let result := (checkArchive platform scan).map fun (manifest, files) =>
      (⟨platform.digest s.hashed, manifest, files⟩ : ReadPluginArtifact)
    some (closeSource closing result, s.observer)

/-- `readPluginArtifact` of a stream in chunks, with the observer's state at the end; `none` if it
takes more rounds. -/
def readPluginArtifact (limits : ArtifactReadLimits) (source : List (List UInt8))
    (closing : Except ArtifactThrown Unit) (o : ω) (rounds : Nat) :
    Option (Except ArtifactThrown ReadPluginArtifact × ω) :=
  match limits.bounds with
  | .error thrown => some (.error thrown, o)
  | .ok (maxArchiveBytes, maxEntryBytes, maxEntries) =>
    concludeRead platform closing
      (scanArchive platform observer maxArchiveBytes maxEntries maxEntryBytes rounds
        (.opened source o))

end Reading

end TegoNext
