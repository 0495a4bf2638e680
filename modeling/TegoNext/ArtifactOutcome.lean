/-
The outcome of `readPluginArtifact`.

Every finite stream has one, after at most as many rounds as it has bytes; it is the same for all
ways to cut the stream; and if the stream is accepted it is the archive of the files that its
`metadata/files.json` declares.
-/
import TegoNext.ArtifactReading
import TegoNext.ResultBuffer

set_option autoImplicit false

namespace TegoNext

open StatePrograms

section Outcome

variable {ω : Type} {maxBytes : Nat} {s s' t : ReadState ω} (platform : ArtifactPlatform)
  (observer : ArtifactReadObserver ω) (maxEntries maxEntryBytes : Nat)

/-! ## The scan -/

theorem scanArchive_ends {rounds : Nat} (h : s.Proper maxBytes) (hlt : s.rest.length < rounds) :
    scanArchive platform observer maxBytes maxEntries maxEntryBytes rounds s ≠ .ok none s' := by
  intro hr
  obtain ⟨found, t, hloop, hr⟩ := run_bind_eq_ok.mp hr
  cases found with
  | none => exact scanLoop_ends observer platform maxEntries maxEntryBytes rounds _ h hlt hloop
  | some found =>
    obtain ⟨_, _, -, -, -, htook⟩ := scanLoop_took rounds h ScanRecords.start (Nat.zero_le _) hloop
    have hlen := congrArg List.length htook.rest
    rw [List.length_append] at hlen
    obtain ⟨remainder, t', hremainder, hr⟩ := run_bind_eq_ok.mp hr
    cases remainder with
    | none => exact assertZeroRemainder_ends rounds htook.proper (by omega) hremainder
    | some _ =>
      injection hr with hsome
      injection hsome

theorem scanArchive_agree {rounds rounds' : Nat} (h : Alike maxBytes s t)
    (hlt : s.rest.length < rounds) (hlt' : s.rest.length < rounds') :
    AgreeCut maxBytes
      (scanArchive platform observer maxBytes maxEntries maxEntryBytes rounds s)
      (scanArchive platform observer maxBytes maxEntries maxEntryBytes rounds' t) := by
  have hloop := scanLoop_agree observer platform maxEntries maxEntryBytes rounds .start h hlt hlt'
  refine hloop.bind_of fun found s' t' hok h' => ?_
  cases found with
  | none => exact pure_agree _ h'
  | some found =>
    obtain ⟨_, _, -, -, -, htook⟩ :=
      scanLoop_took rounds h.left ScanRecords.start (Nat.zero_le _) hok
    have hlen := congrArg List.length htook.rest
    rw [List.length_append] at hlen
    refine (assertZeroRemainder_agree rounds h' (by omega) (by omega)).bind fun remainder s t h => ?_
    cases remainder with
    | none => exact pure_agree _ h
    | some _ => exact pure_agree _ h

/-! ## The reader -/

variable {source : List (List UInt8)}

theorem opened_proper (o : ω) (maxBytes : Nat)
    (hne : ∀ chunk ∈ source, chunk ≠ []) : (ReadState.opened source o).Proper maxBytes :=
  ⟨hne, Nat.zero_le _⟩

theorem readPluginArtifact_agree (limits : ArtifactReadLimits)
    (closing : Except ArtifactThrown Unit) (o : ω) {source' : List (List UInt8)}
    {rounds rounds' : Nat}
    (hsame : source'.flatten = source.flatten) (hne : ∀ chunk ∈ source, chunk ≠ [])
    (hne' : ∀ chunk ∈ source', chunk ≠ []) (hlt : source.flatten.length < rounds)
    (hlt' : source.flatten.length < rounds') :
    ∃ outcome, readPluginArtifact platform observer limits source closing o rounds = some outcome ∧
      readPluginArtifact platform observer limits source' closing o rounds' = some outcome := by
  unfold readPluginArtifact
  cases hbounds : limits.bounds with
  | error e => exact ⟨_, rfl, rfl⟩
  | ok bounds =>
    obtain ⟨maxArchiveBytes, maxEntryBytes, maxEntries⟩ := bounds
    have hproper := opened_proper o maxArchiveBytes hne
    have halike : Alike maxArchiveBytes (ReadState.opened source o) (ReadState.opened source' o) :=
      ⟨hproper, opened_proper o maxArchiveBytes hne', hsame, rfl, rfl, rfl⟩
    have hends := fun s' => @scanArchive_ends ω maxArchiveBytes _ s' platform observer maxEntries
      maxEntryBytes rounds hproper hlt
    have hagree := scanArchive_agree platform observer maxEntries maxEntryBytes halike hlt hlt'
    simp only
    generalize scanArchive platform observer maxArchiveBytes maxEntries maxEntryBytes rounds
      (ReadState.opened source o) = r, scanArchive platform observer maxArchiveBytes maxEntries
      maxEntryBytes rounds' (ReadState.opened source' o) = r' at hagree hends ⊢
    cases hagree with
    | error e h =>
      refine ⟨_, rfl, ?_⟩
      show some (_, _) = some (_, _)
      rw [show _ = _ from h]
    | ok found h =>
      cases found with
      | none => exact absurd rfl (hends _)
      | some scan =>
        refine ⟨_, rfl, ?_⟩
        simp only [concludeRead, h.hashed, h.observer]

theorem closeSource_eq_ok {closing : Except ArtifactThrown Unit}
    {r : Except ArtifactThrown ReadPluginArtifact} {result : ReadPluginArtifact}
    (h : closeSource closing r = .ok result) : r = .ok result := by
  cases r with
  | ok _ =>
    cases closing with
    | ok _ => exact h
    | error _ => injection h
  | error _ =>
    cases closing with
    | ok _ => injection h
    | error _ => injection h

theorem readPluginArtifact_sound {limits : ArtifactReadLimits}
    {closing : Except ArtifactThrown Unit} {o o' : ω} {rounds : Nat}
    {result : ReadPluginArtifact} (hne : ∀ chunk ∈ source, chunk ≠ [])
    (h : readPluginArtifact platform observer limits source closing o rounds =
      some (.ok result, o')) :
    ∃ files, ArtifactOf platform source.flatten files result := by
  unfold readPluginArtifact at h
  cases hbounds : limits.bounds with
  | error e =>
    simp only [hbounds] at h
    injection h with h
    injection h with h
    injection h
  | ok bounds =>
    obtain ⟨maxArchiveBytes, maxEntryBytes, maxEntries⟩ := bounds
    simp only [hbounds] at h
    cases hscan : scanArchive platform observer maxArchiveBytes maxEntries maxEntryBytes rounds
        (ReadState.opened source o) with
    | error e s' =>
      rw [hscan] at h
      injection h with h
      injection h with h
      exact absurd (closeSource_eq_ok h) nofun
    | ok found s' =>
      rw [hscan] at h
      cases found with
      | none => injection h
      | some scan =>
        obtain ⟨files, bytes, hstream, hrec, htook, hrest⟩ :=
          scanArchive_took (opened_proper o maxArchiveBytes hne) hscan
        have hbytes : source.flatten = bytes := by
          have hrest' := htook.rest
          rw [hrest, List.append_nil] at hrest'
          exact hrest'
        have hhashed : s'.hashed = bytes := htook.hashed
        injection h with h
        injection h with h
        have hresult := closeSource_eq_ok h
        cases hcheck : checkArchive platform scan with
        | error e =>
          rw [hcheck] at hresult
          injection hresult
        | ok checked =>
          obtain ⟨manifest, records⟩ := checked
          rw [hcheck, hhashed] at hresult
          injection hresult with hresult
          rw [hbytes, ← hresult]
          exact ⟨files, checkArchive_ok hstream hrec hcheck⟩

/-- A stream has one outcome however it is cut, and it is read to the end for it; an accepted
stream is the archive of the files that are declared in it. -/
theorem outcome_of_stream (limits : ArtifactReadLimits) (bytes : List UInt8)
    (closing : Except ArtifactThrown Unit) (o : ω) :
    ∃ outcome : Except ArtifactThrown ReadPluginArtifact × ω,
      (∀ source : List (List UInt8), source.flatten = bytes → (∀ chunk ∈ source, chunk ≠ []) →
        ∀ rounds, bytes.length < rounds →
          readPluginArtifact platform observer limits source closing o rounds = some outcome) ∧
      ∀ result, outcome.1 = .ok result → ∃ files, ArtifactOf platform bytes files result := by
  -- one byte in a chunk is one of the ways to cut it
  have hflatten : (bytes.map fun byte => [byte]).flatten = bytes := by
    induction bytes with
    | nil => rfl
    | cons byte bytes ih => rw [List.map_cons, List.flatten_cons, ih, List.singleton_append]
  have hne : ∀ chunk ∈ bytes.map (fun byte => [byte]), chunk ≠ [] := by
    intro chunk hchunk
    obtain ⟨byte, -, rfl⟩ := List.mem_map.mp hchunk
    exact List.cons_ne_nil _ _
  have hlen : (bytes.map fun byte => [byte]).flatten.length < bytes.length + 1 := by
    rw [hflatten]
    exact Nat.lt_succ_self _
  obtain ⟨outcome, houtcome, -⟩ := readPluginArtifact_agree platform observer limits closing o
    rfl hne hne hlen hlen
  refine ⟨outcome, ?_, ?_⟩
  · intro source hsource hne' rounds hrounds
    obtain ⟨outcome', houtcome₁, houtcome₂⟩ := readPluginArtifact_agree platform observer
      limits closing o (hsource.trans hflatten.symm) hne hne' hlen (by rw [hflatten]; exact hrounds)
    rw [houtcome] at houtcome₁
    rw [houtcome₂, houtcome₁]
  · intro result hresult
    obtain ⟨r, o'⟩ := outcome
    simp only at hresult
    rw [hresult] at houtcome
    have hsound := readPluginArtifact_sound platform observer hne houtcome
    rw [hflatten] at hsound
    exact hsound

end Outcome

/-! ## An archive -/

section Example

open Text CanonicalJson
open ResultBuffer (naturalText)

def hashDigits (n : Nat) : Vector (Fin 16) 64 :=
  Vector.ofFn fun i => ⟨n / 16 ^ (63 - i.val) % 16, Nat.mod_lt _ (by decide)⟩

def jsonText (value : JsonValue) : JsString := canonical naturalText value ++ [10]

def jsonFile (value : JsonValue) : List UInt8 := encodeText (jsonText value)

def echoModule : List UInt8 := encodeText (js "export default \x7b\x7d;\n")

def echoManifest : JsonValue := .object [
  (js "capabilities", .object [(js "provides", .array []), (js "requires", .array [])]),
  (js "components", .array [.object [
    (js "componentId", .string (js "main")), (js "entrypoint", .string (js "main.js")),
    (js "executors", .array [.string (js "thread")]), (js "kind", .string (js "task"))]]),
  (js "contractRange", .string (js "^1.0.0")), (js "moduleFormat", .string (js "esm")),
  (js "nodeRange", .string (js ">=22")), (js "permissions", .array []),
  (js "pluginId", .string (js "echo")), (js "schemaVersion", .string (js "1.0")),
  (js "version", .string (js "1.0.0"))]

def echoSbom : JsonValue := .object []

/-- The hashes of the files of the archive; all else here is the archive. -/
def echoHash (bytes : List UInt8) : Vector (Fin 16) 64 :=
  hashDigits <|
    if bytes = echoModule then
      0x450f0af4f4c1ecc4c7180f2e364c8a59bfed69dd350fb6b47bce8641c2a37786
    else if bytes = jsonFile echoManifest then
      0x6cb7d80292dab0ee77ee3cfcc4af2980db47bbaea25a90a32399c0fe5a904849
    else if bytes = jsonFile echoSbom then
      0xca3d163bab055381827226140568f3bef7eaac187cebd76878e0b63e9e442356
    else if bytes.length = 387 then
      0x599f29221f21eddd56e04fe8920786d7a2c66fba57d2a63d55ec8e7e27dda2ef
    else
      0xd34bcd6501739cca58db1f702ce9f2051bb051e45f711b29c4eef76cef3ae2ad

def declaration (path : JsString) (bytes : List UInt8) : JsonValue := .object [
  (js "path", .string path),
  (js "sha256", .string (js "sha256:" ++ (echoHash bytes).toList.map hexDigit)),
  (js "size", .number bytes.length)]

def echoFiles : JsonValue := .object [
  (js "files", .array [declaration (js "main.js") echoModule,
    declaration manifestPath (jsonFile echoManifest), declaration sbomPath (jsonFile echoSbom)]),
  (js "schemaVersion", .string (js "1.0"))]

/-- A platform, as it is on ASCII paths and on these files. -/
def echoPlatform : ArtifactPlatform where
  unicode := ⟨id, lowerAscii⟩
  sha256 := echoHash
  parseJson text := [echoManifest, echoFiles, echoSbom].find? fun value => text = jsonText value
  textOf _ := []
  validatePluginManifest value := .ok ⟨value, [⟨js "main", js "task", js "main.js"⟩], []⟩

def echoArchive : List UInt8 :=
  ((createDeterministicArchive echoPlatform.unicode
    [⟨js "main.js", echoModule⟩, ⟨manifestPath, jsonFile echoManifest⟩,
      ⟨filesPath, jsonFile echoFiles⟩, ⟨sbomPath, jsonFile echoSbom⟩]
    ⟨none, none, none⟩).toOption).getD []

def silentObserver : ArtifactReadObserver Unit where
  openEntry _ _ o := (.ok (), o)
  write _ o := (.ok (), o)
  close o := (.ok (), o)
  abort _ o := (.ok (), o)

def readEcho : Option (Except ArtifactThrown ReadPluginArtifact × Unit) :=
  readPluginArtifact echoPlatform silentObserver ⟨none, none, none⟩ [echoArchive] (.ok ()) () 5121

theorem readEcho_accepts : readEcho.any (fun outcome => outcome.1.toBool) = true := by
  decide +kernel

theorem echoArchive_ne_nil : echoArchive ≠ [] := by
  intro hnil
  have haccepts := readEcho_accepts
  rw [readEcho, hnil] at haccepts
  revert haccepts
  decide +kernel

/-- The list of the declarations is a file of the archive that is not declared. -/
theorem list_undeclared : ∃ result files, readEcho = some (.ok result, ()) ∧
    ArtifactOf echoPlatform echoArchive files result ∧
      ¬ ∀ path ∈ files.map Prod.fst, path ∈ result.files.map ArtifactFileRecord.path := by
  have haccepts := readEcho_accepts
  match hread : readEcho, haccepts with
  | some (.ok result, ()), _ =>
    have hne : ∀ chunk ∈ [echoArchive], chunk ≠ [] := by
      intro chunk hchunk
      rw [List.mem_singleton.mp hchunk]
      exact echoArchive_ne_nil
    obtain ⟨files, hof⟩ := readPluginArtifact_sound echoPlatform silentObserver hne hread
    rw [List.flatten_cons, List.flatten_nil, List.append_nil] at hof
    refine ⟨result, files, rfl, hof, fun hall => ?_⟩
    obtain ⟨contents, _, hmem, -⟩ := hof.declarations
    obtain ⟨file, hfile, hpath⟩ :=
      List.mem_map.mp (hall filesPath (List.mem_map.mpr ⟨_, hmem, rfl⟩))
    exact (hof.present file hfile).1 hpath

end Example

end TegoNext
