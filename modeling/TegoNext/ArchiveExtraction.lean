/-
The extraction of archives.

Each file of an archive is created in an empty directory: the directories above it are made where
they are missing, and the file must be new. On a filesystem that takes paths with one key for the
same, all files can be created if and only if no two have one key and none has the key of a
directory above another. Archives are checked for the first and not for the second.
-/
import TegoNext.ArchiveWriting

set_option autoImplicit false

namespace TegoNext

open Text CanonicalJson List

/-! ## Directory trees -/

/-- What is in a directory, by keys. -/
structure PortableTree where
  files : List JsString
  directories : List JsString

def PortableTree.empty : PortableTree := ⟨[], []⟩

def parentDirectories (key : JsString) : List JsString :=
  ((List.range key.length).filter fun index => key[index]? == some 47).map key.take

/-- `ExclusiveFileWriter.create`, if it succeeds. -/
def PortableTree.create (tree : PortableTree) (key : JsString) : Option PortableTree :=
  -- a directory cannot be made where there is a file
  if (parentDirectories key).any tree.files.contains then none
  else
    let directories := tree.directories ++ parentDirectories key
    if tree.files.contains key || directories.contains key then none
    else some ⟨tree.files ++ [key], directories⟩

def PortableTree.createAll (tree : PortableTree) (keys : List JsString) : Option PortableTree :=
  keys.foldlM PortableTree.create tree

section Trees

variable {tree tree' : PortableTree} {key directory : JsString}

theorem mem_parentDirectories :
    directory ∈ parentDirectories key ↔ ∃ name, key = directory ++ 47 :: name := by
  constructor
  · intro h
    obtain ⟨index, hindex, rfl⟩ := mem_map.mp h
    rw [mem_filter, beq_iff_eq] at hindex
    obtain ⟨hlt, hget⟩ := List.getElem?_eq_some_iff.mp hindex.2
    refine ⟨key.drop (index + 1), ?_⟩
    rw [← hget, getElem_cons_drop, take_append_drop]
  · rintro ⟨name, rfl⟩
    refine mem_map.mpr ⟨directory.length, ?_, take_left' rfl⟩
    rw [mem_filter, mem_range, length_append, length_cons, beq_iff_eq,
      getElem?_append_right (Nat.le_refl _), Nat.sub_self]
    exact ⟨by omega, rfl⟩

theorem notMem_parentDirectories_self (key : JsString) : key ∉ parentDirectories key := by
  rw [mem_parentDirectories]
  rintro ⟨name, h⟩
  have hlen := congrArg List.length h
  rw [length_append, length_cons] at hlen
  omega

theorem create_eq_some : tree.create key = some tree' ↔
    (∀ directory ∈ parentDirectories key, directory ∉ tree.files) ∧ key ∉ tree.files ∧
      key ∉ tree.directories ∧
      tree' = ⟨tree.files ++ [key], tree.directories ++ parentDirectories key⟩ := by
  have hself := notMem_parentDirectories_self key
  unfold PortableTree.create
  by_cases hparents : (parentDirectories key).any tree.files.contains = true
  · rw [if_pos hparents]
    obtain ⟨directory, hdirectory, hfile⟩ := any_eq_true.mp hparents
    refine iff_of_false nofun fun h => ?_
    exact h.1 directory hdirectory (contains_iff_mem.mp hfile)
  · rw [if_neg hparents]
    have hparents' : ∀ directory ∈ parentDirectories key, directory ∉ tree.files := by
      intro directory hdirectory hfile
      exact hparents (any_eq_true.mpr ⟨directory, hdirectory, contains_iff_mem.mpr hfile⟩)
    by_cases hexists : (tree.files.contains key ||
        (tree.directories ++ parentDirectories key).contains key) = true
    · simp only [hexists, if_true]
      refine iff_of_false nofun fun h => ?_
      rw [Bool.or_eq_true, contains_iff_mem, contains_iff_mem, mem_append] at hexists
      rcases hexists with hfile | hdirectory | hparent
      · exact h.2.1 hfile
      · exact h.2.2.1 hdirectory
      · exact hself hparent
    · simp only [hexists]
      rw [Bool.or_eq_true, contains_iff_mem, contains_iff_mem, mem_append, not_or,
        not_or] at hexists
      rw [if_neg Bool.false_ne_true, Option.some.injEq]
      exact ⟨fun h => ⟨hparents', hexists.1, hexists.2.1, h.symm⟩, fun h => h.2.2.2.symm⟩

theorem createAll_isSome_iff (keys : List JsString) : ∀ {tree : PortableTree},
    (tree.createAll keys).isSome = true ↔
      keys.Nodup ∧ (∀ key ∈ keys, key ∉ tree.files ∧ key ∉ tree.directories ∧
        ∀ directory ∈ parentDirectories key, directory ∉ tree.files) ∧
      ∀ key ∈ keys, ∀ other ∈ keys, key ∉ parentDirectories other := by
  induction keys with
  | nil => exact fun {tree} => ⟨fun _ => ⟨nodup_nil, nofun, nofun⟩, fun _ => rfl⟩
  | cons key keys ih =>
    intro tree
    have hcons : tree.createAll (key :: keys) =
        (tree.create key).bind fun next => next.createAll keys := foldlM_cons
    rw [hcons]
    cases hcreate : tree.create key with
    | none =>
      refine iff_of_false nofun fun h => ?_
      obtain ⟨hfile, hdirectory, hparents⟩ := h.2.1 key mem_cons_self
      rw [create_eq_some.mpr ⟨hparents, hfile, hdirectory, rfl⟩] at hcreate
      injection hcreate
    | some next =>
      obtain ⟨hparents, hfile, hdirectory, rfl⟩ := create_eq_some.mp hcreate
      rw [Option.bind_some, ih]
      simp only [mem_append, mem_singleton, not_or]
      constructor
      · rintro ⟨hnodup, hnew, hapart⟩
        refine ⟨nodup_cons.mpr ⟨fun hmem => (hnew key hmem).1.2 rfl, hnodup⟩, ?_, ?_⟩
        · intro other hother
          rcases mem_cons.mp hother with rfl | hother
          · exact ⟨hfile, hdirectory, hparents⟩
          · obtain ⟨hfile', hdirectory', hparents'⟩ := hnew other hother
            exact ⟨hfile'.1, hdirectory'.1, fun directory h => (hparents' directory h).1⟩
        · intro left hleft right hright
          rcases mem_cons.mp hleft with rfl | hleft'
          · rcases mem_cons.mp hright with rfl | hright'
            · exact notMem_parentDirectories_self _
            · exact fun hmem => ((hnew right hright').2.2 _ hmem).2 rfl
          · rcases mem_cons.mp hright with rfl | hright'
            · exact (hnew left hleft').2.1.2
            · exact hapart left hleft' right hright'
      · rintro ⟨hnodup, hnew, hapart⟩
        obtain ⟨hnotMem, hnodup⟩ := nodup_cons.mp hnodup
        refine ⟨hnodup, fun other hother => ?_, fun left hleft right hright =>
          hapart left (mem_cons_of_mem _ hleft) right (mem_cons_of_mem _ hright)⟩
        have hmem := mem_cons_of_mem key hother
        obtain ⟨hfile', hdirectory', hparents'⟩ := hnew other hmem
        refine ⟨⟨hfile', fun heq => hnotMem (heq ▸ hother)⟩,
          ⟨hdirectory', hapart other hmem key mem_cons_self⟩, fun directory h => ?_⟩
        refine ⟨hparents' directory h, ?_⟩
        rintro rfl
        exact hapart _ mem_cons_self other hmem h

end Trees

/-! ## Archives -/

/-- The files at these paths can be extracted: no two have the same key, none has the key of a
directory above another, and in an empty directory all of them are created. -/
def Extractable (unicode : UnicodeTables) (paths : List JsString) : Prop :=
  (paths.map unicode.fold).Nodup ∧
    (∀ path ∈ paths, ∀ other ∈ paths, ¬(unicode.fold path ++ [47]).IsPrefix (unicode.fold other)) ∧
    (PortableTree.empty.createAll (paths.map unicode.fold)).isSome = true

/-- No directory that has to be made for a file has the key of a file. -/
def directoriesApart (unicode : UnicodeTables) (paths : List JsString) : Bool :=
  paths.all fun path => (parentDirectories (unicode.fold path)).all fun directory =>
    !(paths.map unicode.fold).contains directory

section Archives

variable {unicode : UnicodeTables} {paths : List JsString}

theorem directoriesApart_iff : directoriesApart unicode paths = true ↔
    ∀ key ∈ paths.map unicode.fold, ∀ other ∈ paths.map unicode.fold,
      key ∉ parentDirectories other := by
  unfold directoriesApart
  simp only [all_eq_true, Bool.not_eq_true', contains_eq_mem, decide_eq_false_iff_not]
  constructor
  · intro h key hkey other hother hmem
    obtain ⟨path, hpath, rfl⟩ := mem_map.mp hother
    exact h path hpath key hmem hkey
  · intro h path hpath directory hdirectory hmem
    exact h directory hmem _ (mem_map.mpr ⟨path, hpath, rfl⟩) hdirectory

theorem extractable_iff (hnodup : (paths.map unicode.fold).Nodup) :
    Extractable unicode paths ↔ directoriesApart unicode paths = true := by
  rw [directoriesApart_iff, Extractable, createAll_isSome_iff]
  constructor
  · exact fun h => h.2.2.2.2
  · intro h
    refine ⟨hnodup, fun path hpath other hother hprefix => ?_, hnodup,
      fun key _ => ⟨nofun, nofun, nofun⟩, h⟩
    obtain ⟨name, hname⟩ := hprefix
    rw [append_assoc] at hname
    exact h _ (mem_map.mpr ⟨path, hpath, rfl⟩) _ (mem_map.mpr ⟨other, hother, rfl⟩)
      (mem_parentDirectories.mpr ⟨name, hname.symm⟩)

/-- **Extraction.** What is written into an archive and what is read from one can be extracted just
when no directory of a file has the key of a file. -/
theorem archives_extractable_iff (platform : ArtifactPlatform) :
    (∀ (input : List DeterministicArchiveEntry) (limits : DeterministicArchiveLimits)
        (bytes : List UInt8),
      createDeterministicArchive platform.unicode input limits = .ok bytes →
        (Extractable platform.unicode (input.map DeterministicArchiveEntry.path) ↔
          directoriesApart platform.unicode (input.map DeterministicArchiveEntry.path) =
            true)) ∧
    ∀ (ω : Type) (observer : ArtifactReadObserver ω) (limits : ArtifactReadLimits)
        (source : List (List UInt8)) (closing : Except ArtifactThrown Unit) (o o' : ω)
        (rounds : Nat) (result : ReadPluginArtifact),
      (∀ chunk ∈ source, chunk ≠ []) →
      readPluginArtifact platform observer limits source closing o rounds =
          some (.ok result, o') →
        ∃ files, ArtifactOf platform source.flatten files result ∧
          (Extractable platform.unicode (files.map Prod.fst) ↔
            directoriesApart platform.unicode (files.map Prod.fst) = true) := by
  constructor
  · intro input limits bytes h
    apply extractable_iff
    rw [map_map]
    exact (createDeterministicArchive_keys h).2
  · intro ω observer limits source closing o o' rounds result hne h
    obtain ⟨files, hof⟩ := readPluginArtifact_sound platform observer hne h
    refine ⟨files, hof, ?_⟩
    apply extractable_iff
    rw [map_map]
    exact hof.keys

/-- A file and a file below it. -/
def nestedEntries : List DeterministicArchiveEntry := [⟨js "a", []⟩, ⟨js "a/b", []⟩]

/-- An archive is made of them, and they cannot be extracted. -/
theorem nestedEntries_not_extractable :
    (createDeterministicArchive echoPlatform.unicode nestedEntries ⟨none, none, none⟩).toBool =
        true ∧
      ¬Extractable echoPlatform.unicode (nestedEntries.map DeterministicArchiveEntry.path) := by
  refine ⟨by decide +kernel, ?_⟩
  rintro ⟨-, -, hextracted⟩
  exact absurd hextracted (by decide)

/-! ## The order of the entries -/

/-- **An archive is what it is, whatever order its entries come in.** -/
theorem createDeterministicArchive_perm {unicode : UnicodeTables}
    {input input' : List DeterministicArchiveEntry} (hperm : input.Perm input')
    (limits : DeterministicArchiveLimits) (bytes : List UInt8) :
    createDeterministicArchive unicode input limits = .ok bytes ↔
      createDeterministicArchive unicode input' limits = .ok bytes := by
  have hforward : ∀ {input input' : List DeterministicArchiveEntry}, input.Perm input' →
      createDeterministicArchive unicode input limits = .ok bytes →
      createDeterministicArchive unicode input' limits = .ok bytes := by
    intro input input' hperm h
    -- what is accepted has no two entries of one path
    have hkeys := (createDeterministicArchive_keys h).2
    have hsorted : sortEntries input = sortEntries input' := by
      have := transCmp_comap compareText DeterministicArchiveEntry.path
      exact insertionSort_eq_of_perm hperm fun a ha b hb heq =>
        inj_on_of_nodup_map hkeys ha hb (congrArg unicode.fold (eq_of_compareText heq))
    rw [← h]
    unfold createDeterministicArchive
    rw [hsorted]
  exact ⟨hforward hperm, hforward hperm.symm⟩

theorem createDeterministicArchive_perm_nested : ∃ bytes,
    createDeterministicArchive echoPlatform.unicode nestedEntries.reverse ⟨none, none, none⟩ =
      .ok bytes := by
  cases h : createDeterministicArchive echoPlatform.unicode nestedEntries ⟨none, none, none⟩ with
  | ok bytes =>
    exact ⟨bytes, (createDeterministicArchive_perm (reverse_perm _).symm _ bytes).mp h⟩
  | error e =>
    have haccepted : (createDeterministicArchive echoPlatform.unicode nestedEntries
        ⟨none, none, none⟩).toBool = true := by decide +kernel
    rw [h] at haccepted
    cases haccepted

end Archives

end TegoNext
