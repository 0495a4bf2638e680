/-
The archives that `createDeterministicArchive` makes.

An archive that is made holds the entries in the order of their paths, has a portable path with a
key of its own for each.
-/
import TegoNext.ArtifactOutcome

set_option autoImplicit false

namespace TegoNext

open StatePrograms Text CanonicalJson List

section Writing

variable {unicode : UnicodeTables} {entries input : List DeterministicArchiveEntry}
  {limits : DeterministicArchiveLimits} {bytes : List UInt8}

/-! ## Blocks -/

theorem entryBlocks_cons {paths : List (JsString × JsString)} {entry : DeterministicArchiveEntry}
    {blocks : List UInt8} (h : entryBlocks unicode paths (entry :: entries) = .ok blocks) :
    assertPortableArtifactPath unicode entry.path = .ok () ∧
      unicode.fold entry.path ∉ paths.map Prod.fst ∧
      ∃ header rest, createHeader entry.path entry.bytes.length = .ok header ∧
        entryBlocks unicode (paths ++ [(unicode.fold entry.path, entry.path)]) entries = .ok rest ∧
        blocks = header ++
          (entry.bytes ++ (List.replicate (paddingOf entry.bytes.length) 0 ++ rest)) := by
  obtain ⟨key, hkey, h⟩ := bind_eq_ok.mp h
  obtain ⟨hportable, rfl⟩ := portableArtifactCollisionKey_eq_ok.mp hkey
  cases hlookup : paths.lookup (unicode.fold entry.path) with
  | some previous =>
    simp only [hlookup] at h
    by_cases heq : previous = entry.path
    · rw [if_pos heq] at h
      injection h
    · rw [if_neg heq] at h
      injection h
  | none =>
    simp only [hlookup] at h
    obtain ⟨header, hheader, h⟩ := bind_eq_ok.mp h
    obtain ⟨rest, hrest, h⟩ := bind_eq_ok.mp h
    injection h with h
    refine ⟨hportable, ?_, header, rest, hheader, hrest, h.symm⟩
    rw [lookup_eq_none_iff] at hlookup
    intro hmem
    obtain ⟨pair, hpair, hfst⟩ := mem_map.mp hmem
    have hne := hlookup pair hpair
    rw [hfst] at hne
    simp at hne

theorem entryBlocks_keys (entries : List DeterministicArchiveEntry) :
    ∀ {paths : List (JsString × JsString)} {blocks : List UInt8}, (paths.map Prod.fst).Nodup →
      entryBlocks unicode paths entries = .ok blocks →
      (∀ entry ∈ entries, assertPortableArtifactPath unicode entry.path = .ok ()) ∧
        (paths.map Prod.fst ++ entries.map fun entry => unicode.fold entry.path).Nodup := by
  induction entries with
  | nil =>
    intro paths blocks hnodup _
    refine ⟨nofun, ?_⟩
    rw [map_nil, append_nil]
    exact hnodup
  | cons entry entries ih =>
    intro paths blocks hnodup h
    obtain ⟨hportable, hnew, header, rest, -, hrest, -⟩ := entryBlocks_cons h
    have hnodup' : ((paths ++ [(unicode.fold entry.path, entry.path)]).map Prod.fst).Nodup := by
      rw [map_append, map_singleton]
      exact hnodup.append (nodup_singleton _) (disjoint_singleton.mpr hnew)
    obtain ⟨hall, hkeys⟩ := ih hnodup' hrest
    refine ⟨?_, ?_⟩
    · intro other hother
      rcases mem_cons.mp hother with rfl | hother
      · exact hportable
      · exact hall other hother
    · rw [map_append, map_singleton, append_assoc] at hkeys
      exact hkeys

def filesOf (entries : List DeterministicArchiveEntry) : ArchiveFiles :=
  entries.map fun entry => (entry.path, entry.bytes)

/-! ## Archives -/

theorem createDeterministicArchive_ok
    (h : createDeterministicArchive unicode input limits = .ok bytes) :
    ∃ blocks, entryBlocks unicode [] (sortEntries input) = .ok blocks ∧
      bytes = blocks ++ endMarker := by
  unfold createDeterministicArchive at h
  simp only [bind_eq_ok, guard_bind_eq_ok, pure_eq_ok] at h
  obtain ⟨_, -, _, -, _, -, -, _, -, blocks, hblocks, h⟩ := h
  exact ⟨blocks, hblocks, h.symm⟩

theorem perm_sortEntries (input : List DeterministicArchiveEntry) :
    (sortEntries input).Perm input := perm_insertionSort _ _

theorem createDeterministicArchive_keys
    (h : createDeterministicArchive unicode input limits = .ok bytes) :
    (∀ entry ∈ input, assertPortableArtifactPath unicode entry.path = .ok ()) ∧
      (input.map fun entry => unicode.fold entry.path).Nodup := by
  obtain ⟨blocks, hblocks, -⟩ := createDeterministicArchive_ok h
  obtain ⟨hportable, hkeys⟩ := @entryBlocks_keys unicode _ [] _ nodup_nil hblocks
  have hperm := perm_sortEntries input
  refine ⟨fun entry hentry => hportable entry (hperm.mem_iff.mpr hentry), ?_⟩
  exact (hperm.map _).nodup_iff.mp hkeys

end Writing

end TegoNext
