/-
What it means that `readPluginArtifact` accepts.

The maps of the scan are those of the entries read so far, which no two entries share a key of.
When the scan has ended the stream is a tar file of these entries, and the checks at the end
compare them with `metadata/files.json` and the manifest.
-/
import TegoNext.ArchiveStreams

set_option autoImplicit false

namespace TegoNext

open StatePrograms List

section Keys

variable {unicode : UnicodeTables} {path key : JsString}

/-- The key under which a portable path collides with others. -/
def UnicodeTables.fold (unicode : UnicodeTables) (path : JsString) : JsString :=
  unicode.toLowerCase (unicode.normalize path)

theorem portableArtifactCollisionKey_eq_ok :
    portableArtifactCollisionKey unicode path = .ok key ↔
      assertPortableArtifactPath unicode path = .ok () ∧ key = unicode.fold path := by
  unfold portableArtifactCollisionKey
  cases assertPortableArtifactPath unicode path with
  | error e =>
    refine ⟨fun h => by injection h, ?_⟩
    rintro ⟨h, -⟩
    injection h
  | ok _ =>
    refine ⟨fun h => ?_, ?_⟩
    · injection h with h
      exact ⟨rfl, h.symm⟩
    · rintro ⟨-, h⟩
      rw [h]
      rfl

end Keys

/-! ## The maps of the scan -/

section Maps

variable {platform : ArtifactPlatform} {maxEntries maxEntryBytes : Nat} {files : ArchiveFiles}
  {scan : ArchiveScan} {path key : JsString} {contents : List UInt8}

theorem admitEntry_eq_ok {parsed : ParsedHeader} :
    admitEntry platform maxEntries maxEntryBytes scan parsed = .ok key ↔
      assertPortableArtifactPath platform.unicode parsed.path = .ok () ∧
        key = platform.unicode.fold parsed.path ∧ scan.collisionKeys.get key = none ∧
        scan.entries.size < maxEntries ∧ parsed.size ≤ maxEntryBytes ∧
        ∀ limit, captureLimit parsed.path = some limit → parsed.size ≤ limit := by
  unfold admitEntry
  cases hkey : portableArtifactCollisionKey platform.unicode parsed.path with
  | error e =>
    refine ⟨fun h => by injection h, ?_⟩
    rintro ⟨hassert, -⟩
    rw [portableArtifactCollisionKey_eq_ok.mpr ⟨hassert, rfl⟩] at hkey
    injection hkey
  | ok folded =>
    obtain ⟨hassert, rfl⟩ := portableArtifactCollisionKey_eq_ok.mp hkey
    dsimp only [bind, Except.bind]
    cases hprevious : scan.collisionKeys.get (platform.unicode.fold parsed.path) with
    | some previous =>
      refine iff_of_false ?_ ?_
      · by_cases heq : previous = parsed.path
        · simp only [heq, if_true]
          exact fun h => by injection h
        · simp only [heq, if_false]
          exact fun h => by injection h
      · rintro ⟨-, rfl, hnone, -⟩
        rw [hprevious] at hnone
        injection hnone
    | none =>
      by_cases hcount : maxEntries ≤ scan.entries.size
      · simp only [hcount, if_true]
        refine iff_of_false (fun h => by injection h) ?_
        rintro ⟨-, -, -, hlt, -⟩
        omega
      · simp only [hcount, if_false]
        by_cases hsize : maxEntryBytes < parsed.size
        · simp only [hsize, if_true]
          refine iff_of_false (fun h => by injection h) ?_
          rintro ⟨-, -, -, -, hle, -⟩
          omega
        · simp only [hsize, if_false]
          have hkept : ∀ {P : Prop}, P →
              ((.ok (platform.unicode.fold parsed.path) : Except ArtifactThrown JsString) =
                  .ok key ↔
                assertPortableArtifactPath platform.unicode parsed.path = .ok () ∧
                  key = platform.unicode.fold parsed.path ∧
                  scan.collisionKeys.get key = none ∧ scan.entries.size < maxEntries ∧
                  parsed.size ≤ maxEntryBytes ∧ P) := by
            intro P hP
            constructor
            · intro h
              injection h with h
              rw [← h]
              exact ⟨hassert, rfl, hprevious, by omega, by omega, hP⟩
            · rintro ⟨-, rfl, -⟩
              rfl
          cases hlimit : captureLimit parsed.path with
          | none => exact hkept fun _ h => by cases h
          | some limit =>
            by_cases hle : limit < parsed.size
            · simp only [hle, if_true]
              refine iff_of_false (fun h => by injection h) ?_
              rintro ⟨-, -, -, -, -, hall⟩
              have := hall limit rfl
              omega
            · simp only [hle, if_false]
              refine hkept fun limit' heq => ?_
              injection heq with heq
              omega

structure ScanRecords (platform : ArtifactPlatform) (files : ArchiveFiles) (scan : ArchiveScan) :
    Prop where
  entries : scan.entries.entries =
    files.map fun file => (file.1, ⟨platform.digest file.2, file.2.length⟩)
  collisionKeys : scan.collisionKeys.entries =
    files.map fun file => (platform.unicode.fold file.1, file.1)
  manifest : ∀ contents, scan.manifestBytes = some contents → (manifestPath, contents) ∈ files
  filesBytes : ∀ contents, scan.filesBytes = some contents → (filesPath, contents) ∈ files

theorem ScanRecords.start : ScanRecords platform [] .start := ⟨rfl, rfl, nofun, nofun⟩

section

variable (h : ScanRecords platform files scan)
include h

theorem ScanRecords.zeroBlock (zeroBlocks : Nat) :
    ScanRecords platform files { scan with zeroBlocks := zeroBlocks } :=
  ⟨h.entries, h.collisionKeys, h.manifest, h.filesBytes⟩

theorem ScanRecords.get_eq_none
    (hkey : scan.collisionKeys.get (platform.unicode.fold path) = none) :
    scan.entries.get path = none := by
  rw [JsMap.get_eq_none_iff, h.collisionKeys, map_map] at hkey
  rw [JsMap.get_eq_none_iff, h.entries, map_map]
  intro hmem
  obtain ⟨file, hfile, rfl⟩ := mem_map.mp hmem
  exact hkey (mem_map.mpr ⟨file, hfile, rfl⟩)

theorem ScanRecords.record (hkey : scan.collisionKeys.get (platform.unicode.fold path) = none) :
    ScanRecords platform (files ++ [(path, contents)])
      (scan.record platform ⟨path, contents.length⟩ (platform.unicode.fold path) contents) where
  entries := by
    rw [map_append, ← h.entries]
    exact JsMap.entries_set_of_none (h.get_eq_none hkey)
  collisionKeys := by
    rw [map_append, ← h.collisionKeys]
    exact JsMap.entries_set_of_none hkey
  manifest := by
    intro bytes hbytes
    rw [mem_append, mem_singleton]
    unfold ArchiveScan.record at hbytes
    by_cases hpath : path = manifestPath
    · simp only [hpath, if_true, Option.some.injEq] at hbytes
      right
      rw [hpath, hbytes]
    · simp only [hpath, if_false] at hbytes
      exact Or.inl (h.manifest bytes hbytes)
  filesBytes := by
    intro bytes hbytes
    rw [mem_append, mem_singleton]
    unfold ArchiveScan.record at hbytes
    by_cases hpath : path = filesPath
    · simp only [hpath, if_true, Option.some.injEq] at hbytes
      right
      rw [hpath, hbytes]
    · simp only [hpath, if_false] at hbytes
      exact Or.inl (h.filesBytes bytes hbytes)

theorem ScanRecords.nodup_keys : (files.map fun file => platform.unicode.fold file.1).Nodup := by
  have hnodup := scan.collisionKeys.nodup
  rw [h.collisionKeys, map_map] at hnodup
  exact hnodup

theorem ScanRecords.nodup : (files.map Prod.fst).Nodup := by
  have hnodup := scan.entries.nodup
  rw [h.entries, map_map] at hnodup
  exact hnodup

theorem ScanRecords.get_eq_some {actual : EntryRecord} :
    scan.entries.get path = some actual ↔
      ∃ contents, (path, contents) ∈ files ∧
        actual = ⟨platform.digest contents, contents.length⟩ := by
  rw [JsMap.get_eq_some_iff, h.entries, mem_map]
  constructor
  · rintro ⟨⟨path, contents⟩, hfile, heq⟩
    injection heq with hpath hactual
    rw [← hpath]
    exact ⟨contents, hfile, hactual.symm⟩
  · rintro ⟨contents, hfile, rfl⟩
    exact ⟨(path, contents), hfile, rfl⟩

end

end Maps

/-! ## The scan -/

section Scan

variable {ω : Type} {maxBytes maxEntries maxEntryBytes : Nat} {platform : ArtifactPlatform}
  {observer : ArtifactReadObserver ω}

theorem scanLoop_took (rounds : Nat) : ∀ {s s' : ReadState ω} {scan scan' : ArchiveScan}
    {files : ArchiveFiles}, s.Proper maxBytes → ScanRecords platform files scan →
      scan.zeroBlocks ≤ 2 →
      scanLoop platform observer maxBytes maxEntries maxEntryBytes rounds scan s =
        .ok (some scan') s' →
      ∃ more blocks, TarEntries platform.unicode more blocks ∧
        ScanRecords platform (files ++ more) scan' ∧ (scan.zeroBlocks ≠ 0 → more = []) ∧
        Took maxBytes s s' (blocks ++ List.replicate ((2 - scan.zeroBlocks) * tarBlockSize) 0) := by
  induction rounds with
  | zero =>
    intro s s' scan scan' files h hrec hle hr
    injection hr with hnone
    injection hnone
  | succ rounds ih =>
    intro s s' scan scan' files h hrec hle hr
    unfold scanLoop at hr
    by_cases hdone : 2 ≤ scan.zeroBlocks
    · rw [if_pos hdone] at hr
      injection hr with hscan hs
      injection hscan with hscan
      have hzero : 2 - scan.zeroBlocks = 0 := by omega
      refine ⟨[], [], .nil, ?_, fun _ => rfl, ?_⟩
      · rw [append_nil, ← hscan]
        exact hrec
      · rw [hzero, Nat.zero_mul, ← hs]
        exact .nothing h
    · rw [if_neg hdone] at hr
      obtain ⟨next, t, hblock, hr⟩ := run_bind_eq_ok.mp hr
      rcases scanBlock_took observer platform maxEntries maxEntryBytes h hblock with
        ⟨rfl, htook⟩ | ⟨hcount, header, path, contents, key, hlength, hparse, hkept, rfl, htook⟩
      · -- a block of zeros: no entry may follow it
        obtain ⟨more, blocks, hentries, hrec', hmore, htook'⟩ :=
          ih htook.proper (hrec.zeroBlock _) (by simp only; omega) hr
        have hnil := hmore (Nat.succ_ne_zero _)
        rw [hnil] at hentries hrec'
        cases hentries
        refine ⟨[], [], .nil, hrec', fun _ => rfl, ?_⟩
        have hcount : 2 - scan.zeroBlocks = (2 - (scan.zeroBlocks + 1)) + 1 := by omega
        rw [hcount, Nat.add_mul, Nat.one_mul, Nat.add_comm, replicate_add]
        exact htook.trans htook'
      · -- an entry
        obtain ⟨-, rfl, hkey, -⟩ := admitEntry_eq_ok.mp hkept
        obtain ⟨more, blocks, hentries, hrec', -, htook'⟩ :=
          ih htook.proper (hrec.record hkey) hle hr
        refine ⟨(path, contents) :: more, _, .cons hlength hparse hentries, ?_,
          fun hne => absurd hcount hne, ?_⟩
        · rw [append_assoc] at hrec'
          exact hrec'
        · have hall := htook.trans htook'
          simp only [append_assoc] at hall ⊢
          exact hall

theorem assertZeroRemainder_took (rounds : Nat) : ∀ {s s' : ReadState ω}, s.Proper maxBytes →
    assertZeroRemainder maxBytes rounds s = .ok (some ()) s' →
      ∃ n, Took maxBytes s s' (List.replicate (n * tarBlockSize) 0) ∧ s'.rest = [] := by
  induction rounds with
  | zero =>
    intro s s' h hr
    injection hr with hnone
    injection hnone
  | succ rounds ih =>
    intro s s' h hr
    obtain ⟨read, t, hread, hr⟩ := run_bind_eq_ok.mp hr
    cases read with
    | none =>
      injection hr with _ hs
      rw [← hs]
      obtain ⟨htook, hrest⟩ := readExact_ended h hread
      exact ⟨0, htook, hrest⟩
    | some block =>
      obtain ⟨htook, hlength⟩ := readExact_took h hread
      by_cases hzero : isZeroBlock block = true
      · simp only [hzero, if_true] at hr
        obtain ⟨n, htook', hrest⟩ := ih htook.proper hr
        rw [isZeroBlock_iff.mp hzero, hlength] at htook
        refine ⟨n + 1, ?_, hrest⟩
        rw [Nat.add_mul, Nat.one_mul, Nat.add_comm, replicate_add]
        exact htook.trans htook'
      · simp only [hzero] at hr
        injection hr

theorem scanArchive_took {rounds : Nat} {s s' : ReadState ω} {scan : ArchiveScan}
    (h : s.Proper maxBytes)
    (hr : scanArchive platform observer maxBytes maxEntries maxEntryBytes rounds s =
      .ok (some scan) s') :
    ∃ files bytes, TarStream platform.unicode files bytes ∧ ScanRecords platform files scan ∧
      Took maxBytes s s' bytes ∧ s'.rest = [] := by
  obtain ⟨found, t, hloop, hr⟩ := run_bind_eq_ok.mp hr
  cases found with
  | none =>
    injection hr with hnone
    injection hnone
  | some found =>
    obtain ⟨files, blocks, hentries, hrec, -, htook⟩ :=
      scanLoop_took rounds h ScanRecords.start (Nat.zero_le _) hloop
    obtain ⟨remainder, t', hremainder, hr⟩ := run_bind_eq_ok.mp hr
    cases remainder with
    | none =>
      injection hr with hnone
      injection hnone
    | some _ =>
      injection hr with hscan hs
      injection hscan with hscan
      obtain ⟨n, htook', hrest⟩ := assertZeroRemainder_took rounds htook.proper hremainder
      rw [hscan, nil_append] at hrec
      rw [hs] at htook' hrest
      refine ⟨files, _, ⟨blocks, 2 + n, hentries, by omega, rfl⟩, hrec, ?_, hrest⟩
      rw [Nat.add_mul, replicate_add, ← append_assoc]
      exact htook.trans htook'

end Scan

/-! ## The checks at the end -/

section Checks

variable {platform : ArtifactPlatform}

/-- The declared files have different keys, other ones than those seen before, and none of them is
the list itself. -/
theorem parseFileRecords_paths (values : List JsonValue) : ∀ {seen : JsMap JsString JsString}
    {records : List ArtifactFileRecord}, parseFileRecords platform seen values = .ok records →
      (records.map ArtifactFileRecord.path).Nodup ∧ ∀ record ∈ records,
        record.path ≠ filesPath ∧ seen.get (platform.unicode.fold record.path) = none := by
  induction values with
  | nil =>
    intro seen records h
    injection h with h
    rw [← h]
    exact ⟨nodup_nil, nofun⟩
  | cons value values ih =>
    intro seen records h
    unfold parseFileRecords at h
    cases hfields : fileFields value with
    | none =>
      simp only [hfields] at h
      injection h
    | some fields =>
      obtain ⟨path, sha256, size⟩ := fields
      simp only [hfields] at h
      obtain ⟨key, hkey, h⟩ := bind_eq_ok.mp h
      obtain ⟨-, rfl⟩ := portableArtifactCollisionKey_eq_ok.mp hkey
      by_cases hself : path = filesPath
      · rw [if_pos hself] at h
        injection h
      rw [if_neg hself] at h
      cases hprevious : seen.get (platform.unicode.fold path) with
      | some previous =>
        simp only [hprevious] at h
        by_cases heq : previous = path
        · rw [if_pos heq] at h
          injection h
        · rw [if_neg heq] at h
          injection h
      | none =>
        simp only [hprevious] at h
        by_cases hdigest :
            (Text.startsWith sha256 (Text.js "sha256:") &&
              ExecutionBindings.isSha256Hex (sha256.drop 7)) = true
        · rw [if_pos hdigest] at h
          obtain ⟨rest, hrest, h⟩ := bind_eq_ok.mp h
          injection h with h
          obtain ⟨hnodup, hall⟩ := ih hrest
          rw [← h]
          refine ⟨?_, ?_⟩
          · -- a later record of this path would find its key taken
            rw [map_cons, nodup_cons]
            refine ⟨fun hmem => ?_, hnodup⟩
            obtain ⟨record, hrecord, hpath⟩ := mem_map.mp hmem
            have hnone := (hall record hrecord).2
            rw [hpath, JsMap.get_set, if_pos rfl] at hnone
            injection hnone
          · intro record hrecord
            rcases mem_cons.mp hrecord with rfl | hrecord
            · exact ⟨hself, hprevious⟩
            · obtain ⟨hne, hnone⟩ := hall record hrecord
              refine ⟨hne, ?_⟩
              rw [JsMap.get_set] at hnone
              by_cases heq : platform.unicode.fold record.path = platform.unicode.fold path
              · rw [if_pos heq] at hnone
                injection hnone
              · rwa [if_neg heq] at hnone
        · rw [if_neg hdigest] at h
          injection h

theorem parseFilesMetadata_paths {input : JsonValue} {records : List ArtifactFileRecord}
    (h : parseFilesMetadata platform input = .ok records) :
    (records.map ArtifactFileRecord.path).Nodup ∧ ∀ record ∈ records, record.path ≠ filesPath := by
  unfold parseFilesMetadata at h
  split at h
  · next version files _ _ =>
    by_cases hversion : version = Text.js "1.0"
    · rw [if_pos hversion] at h
      obtain ⟨hnodup, hall⟩ := parseFileRecords_paths _ h
      exact ⟨hnodup, fun record hrecord => (hall record hrecord).1⟩
    · rw [if_neg hversion] at h
      injection h
  · injection h

theorem checkDeclared_ok {declared : JsMap JsString ArtifactFileRecord}
    (entries : List (JsString × EntryRecord)) (h : checkDeclared declared entries = .ok ()) :
    ∀ entry ∈ entries, entry.1 ≠ filesPath → ∃ declaration,
      declared.get entry.1 = some declaration ∧ declaration.size = entry.2.size ∧
        declaration.sha256 = entry.2.digest := by
  induction entries with
  | nil => exact nofun
  | cons head entries ih =>
    obtain ⟨path, actual⟩ := head
    unfold checkDeclared at h
    by_cases hself : path = filesPath
    · rw [if_pos hself] at h
      intro entry hentry hne
      rcases mem_cons.mp hentry with rfl | hentry
      · exact absurd hself hne
      · exact ih h entry hentry hne
    · rw [if_neg hself] at h
      cases hget : declared.get path with
      | none =>
        simp only [hget] at h
        injection h
      | some declaration =>
        simp only [hget] at h
        by_cases hdiff : declaration.size ≠ actual.size ∨ declaration.sha256 ≠ actual.digest
        · rw [if_pos hdiff] at h
          injection h
        rw [if_neg hdiff] at h
        rw [not_or, not_not, not_not] at hdiff
        intro entry hentry hne
        rcases mem_cons.mp hentry with rfl | hentry
        · exact ⟨declaration, hget, hdiff⟩
        · exact ih h entry hentry hne

theorem checkPresent_ok {entries : JsMap JsString EntryRecord} (paths : List JsString)
    (h : checkPresent entries paths = .ok ()) :
    ∀ path ∈ paths, ∃ actual, entries.get path = some actual := by
  induction paths with
  | nil => exact nofun
  | cons head paths ih =>
    unfold checkPresent at h
    cases hget : entries.get head with
    | none =>
      simp only [hget] at h
      injection h
    | some actual =>
      simp only [hget] at h
      intro path hpath
      rcases mem_cons.mp hpath with rfl | hpath
      · exact ⟨actual, hget⟩
      · exact ih h path hpath

theorem checkEntrypoints_ok {entries : JsMap JsString EntryRecord}
    (components : List ArtifactComponent)
    (h : checkEntrypoints platform entries components = .ok ()) :
    ∀ component ∈ components, ∃ actual, entries.get component.entrypoint = some actual := by
  induction components with
  | nil => exact nofun
  | cons head components ih =>
    obtain ⟨_, -, h⟩ := bind_eq_ok.mp h
    cases hget : entries.get head.entrypoint with
    | none =>
      simp only [hget] at h
      injection h
    | some actual =>
      simp only [hget] at h
      intro component hcomponent
      rcases mem_cons.mp hcomponent with rfl | hcomponent
      · exact ⟨actual, hget⟩
      · exact ih h component hcomponent

theorem foldl_set_get (files : List ArtifactFileRecord) {path : JsString} :
    ∀ {declared : JsMap JsString ArtifactFileRecord} {declaration : ArtifactFileRecord},
      (files.foldl (fun declared file => declared.set file.path file) declared).get path =
          some declaration →
        declared.get path = some declaration ∨ declaration ∈ files ∧ declaration.path = path := by
  induction files with
  | nil => exact fun h => Or.inl h
  | cons file files ih =>
    intro declared declaration h
    rcases ih h with h | ⟨hmem, hpath⟩
    · rw [JsMap.get_set] at h
      by_cases heq : path = file.path
      · rw [if_pos heq] at h
        injection h with h
        right
        rw [← h]
        exact ⟨mem_cons_self, heq.symm⟩
      · rw [if_neg heq] at h
        exact Or.inl h
    · exact Or.inr ⟨mem_cons_of_mem _ hmem, hpath⟩

theorem foldl_set_ne_none (files : List ArtifactFileRecord) {path : JsString} :
    ∀ {declared : JsMap JsString ArtifactFileRecord},
      (declared.get path ≠ none ∨ path ∈ files.map ArtifactFileRecord.path) →
        (files.foldl (fun declared file => declared.set file.path file) declared).get path ≠
          none := by
  induction files with
  | nil =>
    intro declared h
    rcases h with h | h
    · exact h
    · exact absurd h not_mem_nil
  | cons file files ih =>
    intro declared h
    refine ih ?_
    rw [JsMap.get_set]
    by_cases heq : path = file.path
    · left
      rw [if_pos heq]
      exact nofun
    rw [if_neg heq]
    rcases h with h | h
    · exact Or.inl h
    · rw [map_cons, mem_cons] at h
      exact Or.inr (h.resolve_left heq)

end Checks

/-! ## Accepted archives -/

/-- What a result says of a stream: the stream is a tar file of these files, the result has its
digest, and the files are the declared ones and the list of the declarations. -/
structure ArtifactOf (platform : ArtifactPlatform) (bytes : List UInt8) (files : ArchiveFiles)
    (result : ReadPluginArtifact) : Prop where
  stream : TarStream platform.unicode files bytes
  digest : result.archiveDigest = platform.digest bytes
  nodup : (files.map Prod.fst).Nodup
  keys : (files.map fun file => platform.unicode.fold file.1).Nodup
  manifest : ∃ contents value, (manifestPath, contents) ∈ files ∧
    parseJson platform contents manifestPath = .ok value ∧
    parsePluginManifest platform value = .ok result.manifest
  declarations : ∃ contents value, (filesPath, contents) ∈ files ∧
    parseJson platform contents filesPath = .ok value ∧
    parseFilesMetadata platform value = .ok result.files
  declared : ∀ path contents, (path, contents) ∈ files → path ≠ filesPath →
    ⟨path, platform.digest contents, contents.length⟩ ∈ result.files
  present : ∀ file ∈ result.files, file.path ≠ filesPath ∧ ∃ contents,
    (file.path, contents) ∈ files ∧ file = ⟨file.path, platform.digest contents, contents.length⟩
  sbom : sbomPath ∈ files.map Prod.fst
  entrypoints : ∀ component ∈ result.manifest.components, component.entrypoint ∈ files.map Prod.fst

section Accepted

variable {platform : ArtifactPlatform} {files : ArchiveFiles} {scan : ArchiveScan}

theorem ScanRecords.mem_of_get (h : ScanRecords platform files scan) {path : JsString}
    {actual : EntryRecord} (hget : scan.entries.get path = some actual) :
    path ∈ files.map Prod.fst := by
  obtain ⟨contents, hfile, -⟩ := h.get_eq_some.mp hget
  exact mem_map.mpr ⟨(path, contents), hfile, rfl⟩

theorem checkArchive_ok {bytes : List UInt8} {manifest : ArtifactManifest}
    {records : List ArtifactFileRecord} (hstream : TarStream platform.unicode files bytes)
    (hrec : ScanRecords platform files scan)
    (h : checkArchive platform scan = .ok (manifest, records)) :
    ArtifactOf platform bytes files ⟨platform.digest bytes, manifest, records⟩ := by
  unfold checkArchive at h
  split at h
  · next manifestBytes filesBytes hmanifest hfiles =>
    obtain ⟨value, hvalue, h⟩ := bind_eq_ok.mp h
    obtain ⟨manifest', hparse, h⟩ := bind_eq_ok.mp h
    obtain ⟨value', hvalue', h⟩ := bind_eq_ok.mp h
    obtain ⟨records', hparse', h⟩ := bind_eq_ok.mp h
    obtain ⟨_, hdeclared, h⟩ := bind_eq_ok.mp h
    obtain ⟨_, hpresent, h⟩ := bind_eq_ok.mp h
    by_cases hsbom : (scan.entries.get sbomPath).isNone = true
    · rw [if_pos hsbom] at h
      injection h
    rw [if_neg hsbom] at h
    obtain ⟨_, hentry, h⟩ := bind_eq_ok.mp h
    injection h with h
    injection h with h₁ h₂
    subst h₁ h₂
    obtain ⟨hnodup, hself⟩ := parseFilesMetadata_paths hparse'
    -- a declaration is found under its own path
    have hown : ∀ {path : JsString} {declaration : ArtifactFileRecord},
        (declaredFiles records').get path = some declaration →
          declaration ∈ records' ∧ declaration.path = path := by
      intro path declaration hget
      rcases foldl_set_get records' hget with hnone | hmem
      · rw [JsMap.get_empty] at hnone
        injection hnone
      · exact hmem
    have hmatch : ∀ path contents, (path, contents) ∈ files → path ≠ filesPath →
        ⟨path, platform.digest contents, contents.length⟩ ∈ records' := by
      intro path contents hfile hne
      have hactual : (path, ⟨platform.digest contents, contents.length⟩) ∈
          scan.entries.entries := by
        rw [hrec.entries]
        exact mem_map.mpr ⟨(path, contents), hfile, rfl⟩
      obtain ⟨declaration, hget, hsize, hdigest⟩ := checkDeclared_ok _ hdeclared _ hactual hne
      obtain ⟨hmem, hpath⟩ := hown hget
      have heq : declaration = ⟨path, platform.digest contents, contents.length⟩ := by
        obtain ⟨p, d, n⟩ := declaration
        simp only at hpath hdigest hsize
        rw [hpath, hdigest, hsize]
      rw [← heq]
      exact hmem
    refine ⟨hstream, rfl, hrec.nodup, hrec.nodup_keys, ⟨_, value, hrec.manifest _ hmanifest, hvalue, hparse⟩,
      ⟨_, value', hrec.filesBytes _ hfiles, hvalue', hparse'⟩, hmatch, ?_, ?_, ?_⟩
    · intro file hfile
      refine ⟨hself file hfile, ?_⟩
      have hkey : file.path ∈ (declaredFiles records').entries.map Prod.fst := by
        by_contra hnot
        exact foldl_set_ne_none records' (Or.inr (mem_map.mpr ⟨file, hfile, rfl⟩))
          (JsMap.get_eq_none_iff.mpr hnot)
      obtain ⟨actual, hget⟩ := checkPresent_ok _ hpresent _ hkey
      obtain ⟨contents, hmem, -⟩ := hrec.get_eq_some.mp hget
      refine ⟨contents, hmem, ?_⟩
      -- the record that the entry matched is this one: no two have one path
      exact inj_on_of_nodup_map hnodup hfile (hmatch _ _ hmem (hself file hfile)) rfl
    · cases hget : scan.entries.get sbomPath with
      | none =>
        rw [hget] at hsbom
        exact absurd rfl hsbom
      | some actual => exact hrec.mem_of_get hget
    · intro component hcomponent
      obtain ⟨actual, hget⟩ := checkEntrypoints_ok _ hentry component hcomponent
      exact hrec.mem_of_get hget
  · injection h

end Accepted

end TegoNext
