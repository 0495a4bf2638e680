/-
Deterministic plugin archives.

An archive is a tar file in the POSIX ustar format: for each entry a header of 512 bytes, the
bytes, and zeros up to the next multiple of 512; two blocks of zeros at the end. Entries stand in
the order of their paths and everything else in a header is fixed. A path is written as UTF-8, in
one field of 100 bytes or, split at a slash, in two. Normalization and case are the platform's.
-/
import TegoNext.EncodedText
import TegoNext.OctalText
import TegoNext.ProcessChannel

set_option autoImplicit false

namespace TegoNext

open Text CanonicalJson

/-! ## Errors -/

inductive ArtifactCode where
  | ARTIFACT_ARCHIVE_MALFORMED
  | ARTIFACT_ARCHIVE_TOO_LARGE
  | ARTIFACT_ARCHIVE_TRUNCATED
  | ARTIFACT_ENTRY_COLLISION
  | ARTIFACT_ENTRY_COUNT_EXCEEDED
  | ARTIFACT_ENTRY_DUPLICATE
  | ARTIFACT_ENTRY_TOO_LARGE
  | ARTIFACT_ENTRY_TYPE_UNSUPPORTED
  | ARTIFACT_ENTRYPOINT_MISSING
  | ARTIFACT_FILE_DIGEST_MISMATCH
  | ARTIFACT_FILE_MISSING
  | ARTIFACT_FILE_UNDECLARED
  | ARTIFACT_HEADER_CHECKSUM_INVALID
  | ARTIFACT_MANIFEST_INVALID
  | ARTIFACT_METADATA_INVALID
  | ARTIFACT_MODULE_FORMAT_UNSUPPORTED
  | ARTIFACT_PATH_TOO_LONG
  | ARTIFACT_PATH_UNSAFE
  | ARTIFACT_REQUIRED_FILE_MISSING
  | ARTIFACT_SCHEMA_VERSION_UNSUPPORTED
  | PROTOCOL_IDENTITY_INVALID
  deriving DecidableEq

structure ArtifactSource where
  kind : String
  id : String
  deriving DecidableEq

structure ArtifactDiagnostic where
  code : ArtifactCode
  message : JsString
  source : ArtifactSource
  details : Option JsonFields

inductive ArtifactThrown where
  | diagnostic (d : ArtifactDiagnostic)
  | range (message : String)
  /-- An error of the caller's observer or source, by its message. -/
  | outside (message : JsString)
  /-- The `AggregateError` of an entry whose writer could not be aborted. -/
  | notAborted (thrown cleanup : ArtifactThrown)
  /-- `ARTIFACT_READER_CLEANUP_FAILED`, with its two causes. -/
  | notClosed (thrown cleanup : ArtifactThrown)

def artifactError (code : ArtifactCode) (message : String) (details : Option JsonFields) :
    ArtifactThrown := .diagnostic ⟨code, js message, ⟨"artifact", "archive"⟩, details⟩

def pathDetails (path : JsString) : Option JsonFields := some [(js "path", .string path)]

/-! ## Portable paths -/

structure UnicodeTables where
  /-- `value.normalize("NFC")` -/
  normalize : JsString → JsString
  toLowerCase : JsString → JsString

/-- `[1-9]`, `¹`, `²` and `³`. -/
def deviceDigits : List UInt16 := [49, 50, 51, 52, 53, 54, 55, 56, 57, 0xb9, 0xb2, 0xb3]

def deviceNames : List JsString :=
  [js "aux", js "con", js "nul", js "prn"] ++ deviceDigits.map (js "com" ++ [·]) ++
    deviceDigits.map (js "lpt" ++ [·])

/-- `WINDOWS_DEVICE_SEGMENT.test(segment)`; by its `i` flag no other character folds to a letter
of a device than the ASCII ones. -/
def isWindowsDeviceSegment (segment : JsString) : Bool :=
  deviceNames.any fun name => name.isPrefixOf (lowerAscii segment) &&
    (segment.drop name.length).head?.all (· == 46)

/-- `PORTABLE_DRIVE_PATH.test(path)` -/
def isDrivePath : JsString → Bool
  | letter :: 58 :: _ => (65 ≤ letter && letter ≤ 90) || (97 ≤ letter && letter ≤ 122)
  | _ => false

def isUnsafeSegment (segment : JsString) : Bool :=
  segment.isEmpty || segment == js "." || segment == js ".." || segment.contains 58 ||
    segment.getLast? == some 46 || segment.getLast? == some 32 || isWindowsDeviceSegment segment

variable (unicode : UnicodeTables)

def assertPortableArtifactPath (path : JsString) : Except ArtifactThrown Unit :=
  if path.isEmpty || path != unicode.normalize path || startsWith path (js "/") ||
      startsWith path (js "\\\\") || isDrivePath path || path.contains 92 ||
      (path.any fun u => u ≤ 0x1f || u == 0x7f) || (path.splitOn 47).any isUnsafeSegment then
    .error (artifactError .ARTIFACT_PATH_UNSAFE "Artifact entry path is not portable"
      (pathDetails path))
  else .ok ()

def portableArtifactCollisionKey (path : JsString) : Except ArtifactThrown JsString := do
  assertPortableArtifactPath unicode path
  pure (unicode.toLowerCase (unicode.normalize path))

/-! ## Headers -/

def tarBlockSize : Nat := 512

def setBytes (target : List UInt8) (offset : Nat) (bytes : List UInt8) : List UInt8 :=
  target.take offset ++ bytes ++ target.drop (offset + bytes.length)

def pathTooLong (path : JsString) : ArtifactThrown :=
  artifactError .ARTIFACT_PATH_TOO_LONG
    "Artifact path cannot be represented by the POSIX ustar format" (pathDetails path)

def writeText (target : List UInt8) (offset length : Nat) (text : JsString) :
    Except ArtifactThrown (List UInt8) :=
  let bytes := encodeText text
  if length < bytes.length then .error (pathTooLong text) else .ok (setBytes target offset bytes)

def writeOctal (target : List UInt8) (offset length value : Nat) :
    Except ArtifactThrown (List UInt8) :=
  let text := octal value
  if length - 1 < text.length then
    .error (artifactError .ARTIFACT_ENTRY_TOO_LARGE
      "Artifact entry metadata cannot be represented by POSIX ustar" none)
  else writeText target offset (length - 1) (padStart text (length - 1))

/-- The slashes that `lastIndexOf` finds, from the last one to the first, but not at the start. -/
def slashes (path : JsString) : List Nat :=
  ((List.range path.length).filter fun index => 0 < index && path[index]? == some 47).reverse

/-- `splitUstarPath`: the name and the prefix. -/
def splitUstarPath (path : JsString) : Except ArtifactThrown (JsString × JsString) :=
  if (encodeText path).length ≤ 100 then .ok (path, [])
  else
    match (slashes path).find? fun index => (encodeText (path.take index)).length ≤ 155 &&
        (encodeText (path.drop (index + 1))).length ≤ 100 with
    | some index => .ok (path.drop (index + 1), path.take index)
    | none => .error (pathTooLong path)

def byteSum (bytes : List UInt8) : Nat := (bytes.map UInt8.toNat).sum

def createHeader (path : JsString) (size : Nat) : Except ArtifactThrown (List UInt8) := do
  let (name, pre) ← splitUstarPath path
  let header := List.replicate tarBlockSize 0
  let header ← writeText header 0 100 name
  let header ← writeOctal header 100 8 0o644
  let header ← writeOctal header 108 8 0
  let header ← writeOctal header 116 8 0
  let header ← writeOctal header 124 12 size
  let header ← writeOctal header 136 12 0
  -- the checksum counts itself as spaces
  let header := setBytes header 148 (List.replicate 8 0x20)
  let header ← writeText header 156 1 (js "0")
  let header ← writeText header 257 6 (js "ustar" ++ [0])
  let header ← writeText header 263 2 (js "00")
  let header ← writeText header 345 155 pre
  let header ← writeText header 148 6 (padStart (octal (byteSum header)) 6)
  pure (setBytes (setBytes header 154 [0]) 155 [0x20])

/-! ## Archives -/

structure DeterministicArchiveEntry where
  path : JsString
  bytes : List UInt8
  deriving DecidableEq

structure DeterministicArchiveLimits where
  maxArchiveBytes : Option Int
  maxEntries : Option Int
  maxEntryBytes : Option Int

def defaultMaxArchiveBytes : Nat := 64 * 1024 * 1024
def defaultMaxEntryBytes : Nat := 16 * 1024 * 1024
def defaultMaxEntries : Nat := 1024

/-- A limit of the caller, or the default. -/
def boundedPositiveInteger (value : Option Int) (fallback : Nat) (name : String) :
    Except ArtifactThrown Nat :=
  let selected := value.getD fallback
  if selected ≤ 0 || maxSafeInteger < selected then
    .error (.range (name ++ " must be a positive safe integer"))
  else .ok selected.toNat

/-- The zeros up to the next block. -/
def paddingOf (size : Nat) : Nat := (tarBlockSize - size % tarBlockSize) % tarBlockSize

/-- The check of the sizes, from the bytes counted so far. -/
def checkSizes (maxArchiveBytes maxEntryBytes : Nat) :
    Nat → List DeterministicArchiveEntry → Except ArtifactThrown Unit
  | _, [] => .ok ()
  | totalBytes, entry :: entries =>
    if maxEntryBytes < entry.bytes.length then
      .error (artifactError .ARTIFACT_ENTRY_TOO_LARGE
        "Artifact entry exceeds the configured byte limit" (pathDetails entry.path))
    else
      let totalBytes := totalBytes +
        (tarBlockSize + (entry.bytes.length + paddingOf entry.bytes.length))
      if maxSafeInteger < totalBytes || maxArchiveBytes < totalBytes then
        .error (artifactError .ARTIFACT_ARCHIVE_TOO_LARGE
          "Artifact exceeds the configured byte limit" none)
      else checkSizes maxArchiveBytes maxEntryBytes totalBytes entries

/-- The blocks of the entries; `paths` are those of the entries before, by their keys. -/
def entryBlocks :
    List (JsString × JsString) → List DeterministicArchiveEntry → Except ArtifactThrown (List UInt8)
  | _, [] => .ok []
  | paths, entry :: entries => do
    let collisionKey ← portableArtifactCollisionKey unicode entry.path
    match paths.lookup collisionKey with
    | some previous =>
      if previous = entry.path then
        throw (artifactError .ARTIFACT_ENTRY_DUPLICATE "Artifact contains a duplicate entry"
          (pathDetails entry.path))
      else
        throw (artifactError .ARTIFACT_ENTRY_COLLISION
          "Artifact entries collide on a portable filesystem" (pathDetails entry.path))
    | none =>
      let header ← createHeader entry.path entry.bytes.length
      let rest ← entryBlocks (paths ++ [(collisionKey, entry.path)]) entries
      pure (header ++ (entry.bytes ++ (List.replicate (paddingOf entry.bytes.length) 0 ++ rest)))

def sortEntries (input : List DeterministicArchiveEntry) : List DeterministicArchiveEntry :=
  input.insertionSort fun left right => compareText left.path right.path ≠ .gt

def endMarker : List UInt8 := List.replicate (tarBlockSize * 2) 0

def createDeterministicArchive (input : List DeterministicArchiveEntry)
    (limits : DeterministicArchiveLimits) : Except ArtifactThrown (List UInt8) := do
  let entries := sortEntries input
  let maxArchiveBytes ←
    boundedPositiveInteger limits.maxArchiveBytes defaultMaxArchiveBytes "maxArchiveBytes"
  let maxEntries ← boundedPositiveInteger limits.maxEntries defaultMaxEntries "maxEntries"
  let maxEntryBytes ←
    boundedPositiveInteger limits.maxEntryBytes defaultMaxEntryBytes "maxEntryBytes"
  if maxEntries < entries.length then
    throw (artifactError .ARTIFACT_ENTRY_COUNT_EXCEEDED "Artifact contains too many entries" none)
  checkSizes maxArchiveBytes maxEntryBytes (tarBlockSize * 2) entries
  let blocks ← entryBlocks unicode [] entries
  pure (blocks ++ endMarker)

end TegoNext
