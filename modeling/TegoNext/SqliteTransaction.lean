/-
`SqliteTransaction`: the staged view of a database, or of a copy of its records.

`drivers-local/src/sqlite/sqlite-state-store.ts`: a scan lets SQL select, sort and cut the
committed records, and lays the staged mutations over what comes back. As deletions then take
entries away, SQL is asked for so many more.

SQL compares ids by `record_id_order_key` and prefixes by characters, which may be two code units.
Journal and outbox are staged apart and left out.
-/
import TegoNext.PostgresTransaction
import TegoNext.RecordScans

set_option autoImplicit false

namespace TegoNext

open List Option AList

open MemoryTransaction (overlay overlaid lookup_overlay)

/-! ## The selection of the database -/

/-- The characters of a text; a pair of surrogates is one of them. -/
def characters : JsString → List JsString
  | [] => []
  | [u] => [[u]]
  | u :: v :: rest =>
    if 0xd800 ≤ u ∧ u ≤ 0xdbff ∧ 0xdc00 ≤ v ∧ v ≤ 0xdfff then [u, v] :: characters rest
    else [u] :: characters (v :: rest)

/-- `substr(record_id, 1, length(?)) = ?` -/
def hasPrefix (recordId idPrefix : JsString) : Bool :=
  ((characters recordId).take (characters idPrefix).length).flatten == idPrefix

def matchesStateQuery (key : StateKey) (query : StateQuery) : Bool :=
  key.nspace == query.nspace && key.collection == query.collection &&
    query.idPrefix.all (fun p => Text.startsWith key.id p) &&
    query.afterId.all (fun a => Text.compareText key.id a == .gt)

namespace SqliteTransaction

variable {V : Type}

/-- The `WHERE` clause of `#scanRecordsFrom`. -/
def selects (query : StateQuery) (row : RecordEntry V) : Bool :=
  row.1.nspace == query.nspace && row.1.collection == query.collection &&
    query.idPrefix.all (fun p => hasPrefix row.1.id p) &&
    query.afterId.all (fun a =>
      compareBytes (stateStringOrderKey row.1.id) (stateStringOrderKey a) == .gt)

def scanRecordsFrom (records : Records V) (query : StateQuery) (limit : Option Int) :
    List (RecordEntry V) :=
  cut limit ((records.entries.filter (selects query)).insertionSort fun left right =>
    compareBytes (stateStringOrderKey left.1.id) (stateStringOrderKey right.1.id) ≠ .gt)

def scanSnapshot (snapshot : Records V) (query : StateQuery) (limit : Option Int) :
    List (RecordEntry V) :=
  cut limit ((snapshot.entries.filter fun row => matchesStateQuery row.1 query).insertionSort
    fun left right => Text.compareText left.1.id right.1.id ≠ .gt)

end SqliteTransaction

structure SqliteTransaction (V : Type) where
  readRecord : StateKey → Option (StoredRecord V)
  scanRecords : StateQuery → Option Int → List (RecordEntry V)
  mutations : AList fun _ : StateKey => Mutation V
  active : Bool

namespace SqliteTransaction

variable {V : Type}

/-- The transaction of `#executeTransaction`, for `:memory:` and for a file. -/
def start (inMemory : Bool) (records : Records V) : SqliteTransaction V where
  readRecord key := records.lookup key
  scanRecords := if inMemory then scanSnapshot records else scanRecordsFrom records
  mutations := ∅
  active := true

variable (tx : SqliteTransaction V)

def assertActive : Except StateError Unit :=
  if tx.active then .ok ()
  else .error
    { code := .STATE_CLOSED
      message := "State transaction is no longer active"
      details := [("target", .literal "transaction")] }

/-- `this.#readRecord(mutation.key)?.revision ?? zeroRevision` -/
def stagedRevision (key : StateKey) : Revision :=
  ((tx.readRecord key).map (·.revision)).getD zeroRevision

def get (key : StateKey) :
    Except StateError (Option (StoredRecord V)) := do
  tx.assertActive
  assertStateKey key false
  match tx.mutations.lookup key with
  | some (.delete _) => pure none
  | some (.put value _) => pure (some ⟨value, tx.stagedRevision key⟩)
  | none => pure (tx.readRecord key)

/-- `new Map(entries)`: the last of the entries with a key counts. -/
def newMap (entries : List (RecordEntry V)) : Records V :=
  entries.foldl (fun records entry => records.insert entry.1 entry.2) ∅

def isDelete (entry : Sigma fun _ : StateKey => Mutation V) : Bool :=
  match entry.2 with
  | .delete _ => true
  | .put _ _ => false

def scan (query : StateQuery) :
    Except StateError (List (ScannedState V)) := do
  tx.assertActive
  assertStateQuery query
  let matchingMutations := tx.mutations.entries.filter fun entry => matchesStateQuery entry.1 query
  let deletedBaseSlots := matchingMutations.countP isDelete
  let baseLimit := query.limit.map (· + (deletedBaseSlots : Int))
  let records :=
    overlay tx.stagedRevision (newMap (tx.scanRecords query baseLimit)) matchingMutations
  let matching := (records.entries.filter fun record =>
      query.afterId.all fun a => Text.compareText record.1.id a == .gt).insertionSort
    fun left right => Text.compareText left.1.id right.1.id ≠ .gt
  pure ((cut query.limit matching).map fun record => ⟨record.1, record.2.value, record.2.revision⟩)

/-- `put` and `delete`. -/
def stage (key : StateKey) (mutation : Mutation V) :
    Except StateError (SqliteTransaction V) := do
  tx.assertActive
  assertStateKey key true
  pure { tx with mutations := tx.mutations.insert key mutation }

def put (key : StateKey) (value : V)
    (expectedRevision : ExpectedRevision) : Except StateError (SqliteTransaction V) :=
  tx.stage key (.put value expectedRevision)

def delete (key : StateKey)
    (expectedRevision : ExpectedRevision) : Except StateError (SqliteTransaction V) :=
  tx.stage key (.delete expectedRevision)

def perform : StateCall V → Except StateError (List (StateRead V) × SqliteTransaction V)
  | .get key => do pure ([.record (← tx.get key)], tx)
  | .scan query => do pure ([.page (← tx.scan query)], tx)
  | .put key value expected => do pure ([], ← tx.put key value expected)
  | .delete key expected => do pure ([], ← tx.delete key expected)

/-- A body that makes some calls and goes on after those that throw. -/
def performEach (calls : List (StateCall V)) : SqliteTransaction V :=
  calls.foldl (fun tx call => match tx.perform call with
    | .ok (_, tx) => tx
    | .error _ => tx) tx

end SqliteTransaction

/-- A body that makes some calls and goes on after those that throw. -/
def MemoryTransaction.performEach {V : Type} (tx : MemoryTransaction V)
    (calls : List (StateCall V)) : MemoryTransaction V :=
  calls.foldl (fun tx call => match tx.perform call with
    | .ok (_, tx) => tx
    | .error _ => tx) tx

/-! ## Characters and code units -/

theorem characters_cons {u : UInt16} (h : ¬(0xd800 ≤ u ∧ u ≤ 0xdbff)) (s : JsString) :
    characters (u :: s) = [u] :: characters s := by
  cases s with
  | nil => rfl
  | cons v s =>
    rw [characters, if_neg]
    exact fun hpair => h ⟨hpair.1, hpair.2.1⟩

@[simp] theorem flatten_characters (s : JsString) : (characters s).flatten = s := by
  induction s using characters.induct with
  | case1 => rfl
  | case2 u => rfl
  | case3 u v rest hpair ih =>
    rw [characters, if_pos hpair, flatten_cons, ih]
    rfl
  | case4 u v rest hpair ih =>
    rw [characters, if_neg hpair, flatten_cons, ih]
    rfl

theorem portable_of_lead {u v : UInt16} {rest : JsString} (hlead : 0xd800 ≤ u ∧ u ≤ 0xdbff)
    (h : Text.isPortableStateString (u :: v :: rest) = true) :
    (0xdc00 ≤ v ∧ v ≤ 0xdfff) ∧ Text.isPortableStateString rest = true := by
  unfold Text.isPortableStateString at h
  split at h
  · cases h
  dsimp only at h
  split at h
  · cases h
  next htrail =>
  rw [not_or, UInt16.not_lt, UInt16.not_lt] at htrail
  exact ⟨htrail, h⟩

theorem portable_of_not_lead {u : UInt16} {rest : JsString} (hlead : ¬(0xd800 ≤ u ∧ u ≤ 0xdbff))
    (h : Text.isPortableStateString (u :: rest) = true) :
    Text.isPortableStateString rest = true := by
  unfold Text.isPortableStateString at h
  split at h
  · cases h
  split at h
  · cases h
  · exact h

theorem characters_append {p : JsString} (h : Text.isPortableStateString p = true)
    (s : JsString) : characters (p ++ s) = characters p ++ characters s := by
  induction p using characters.induct with
  | case1 => rfl
  | case2 u =>
    have hlead : ¬(0xd800 ≤ u ∧ u ≤ 0xdbff) := by
      intro hlead
      simp [Text.isPortableStateString, hlead] at h
    exact characters_cons hlead s
  | case3 u v rest hpair ih =>
    have hrest := (portable_of_lead ⟨hpair.1, hpair.2.1⟩ h).2
    rw [cons_append, cons_append, characters, if_pos hpair, ih hrest, characters, if_pos hpair]
    rfl
  | case4 u v rest hpair ih =>
    have hlead : ¬(0xd800 ≤ u ∧ u ≤ 0xdbff) := fun hlead =>
      hpair ⟨hlead.1, hlead.2, (portable_of_lead hlead h).1⟩
    rw [cons_append, characters_cons hlead, characters_cons hlead,
      ih (portable_of_not_lead hlead h)]
    rfl

/-- **A prefix of characters is a prefix of code units.** -/
theorem hasPrefix_eq {p : JsString} (h : Text.isPortableStateString p = true) (id : JsString) :
    hasPrefix id p = Text.startsWith id p := by
  rw [Bool.eq_iff_iff, hasPrefix, Text.startsWith, beq_iff_eq, isPrefixOf_iff_prefix]
  constructor
  · intro htake
    refine ⟨((characters id).drop (characters p).length).flatten, ?_⟩
    rw [← htake, ← flatten_append, htake, take_append_drop, flatten_characters]
  · rintro ⟨rest, rfl⟩
    rw [characters_append h, take_left, flatten_characters]

/-! ## What is selected -/

namespace SqliteTransaction

variable {V : Type} {tx : SqliteTransaction V} {query : StateQuery}

theorem scanRecordsFrom_eq (records : Records V) (hquery : assertStateQuery query = .ok ())
    (limit : Option Int) :
    scanRecordsFrom records query limit = scanSnapshot records query limit := by
  have hportable : ∀ p, query.idPrefix = some p → Text.isPortableStateString p = true := by
    intro p hp
    unfold assertStateQuery at hquery
    split at hquery
    · cases hquery
    next hcheck =>
    simp only [hp, any_some, Bool.or_eq_true, not_or, Bool.not_eq_true,
      Bool.not_eq_false'] at hcheck
    exact hcheck.1.1.2
  have hselects : selects (V := V) query = fun row => matchesStateQuery row.1 query := by
    funext row
    unfold selects matchesStateQuery
    simp only [compareBytes_stateStringOrderKey]
    cases hp : query.idPrefix with
    | none => rfl
    | some p => simp only [all_some, hasPrefix_eq (hportable p hp)]
  unfold scanRecordsFrom scanSnapshot
  simp only [hselects, compareBytes_stateStringOrderKey]

theorem scanRecords_start (inMemory : Bool) (records : Records V)
    (hquery : assertStateQuery query = .ok ()) (limit : Option Int) :
    (start inMemory records).scanRecords query limit =
      cut limit ((matchingRecords records query).insertionSort
        fun left right => compareIds left right ≠ .gt) := by
  cases inMemory with
  | true => rfl
  | false => exact scanRecordsFrom_eq records hquery limit

/-! ## Maps and their entries -/

theorem lookup_newMap {entries : List (RecordEntry V)} (hnodup : entries.NodupKeys)
    (key : StateKey) : (newMap entries).lookup key = entries.dlookup key := by
  have hfold : ∀ (entries : List (RecordEntry V)) (records : Records V), entries.NodupKeys →
      (entries.foldl (fun records entry => records.insert entry.1 entry.2) records).lookup key =
        (entries.dlookup key).or (records.lookup key) := by
    intro entries
    induction entries with
    | nil => exact fun _ _ => rfl
    | cons entry rest ih =>
      intro records hnodup
      obtain ⟨hnotin, hrest⟩ := nodupKeys_cons.mp hnodup
      obtain ⟨k, record⟩ := entry
      rw [foldl_cons, ih _ hrest]
      by_cases hkey : key = k
      · subst hkey
        rw [dlookup_eq_none.mpr hnotin, dlookup_cons_eq, lookup_insert]
        rfl
      · rw [dlookup_cons_ne rest ⟨k, record⟩ hkey, lookup_insert_ne hkey]
  have := hfold entries ∅ hnodup
  rwa [lookup_empty, or_none] at this

theorem dlookup_filter {β : StateKey → Type} (passes : StateKey → Bool) {entries : List (Sigma β)}
    (hnodup : entries.NodupKeys) (key : StateKey) :
    (entries.filter fun entry => passes entry.1).dlookup key =
      if passes key then entries.dlookup key else none := by
  have hfiltered : (entries.filter fun entry => passes entry.1).NodupKeys :=
    hnodup.sublist filter_sublist
  ext value
  rw [← mem_def, mem_dlookup_iff hfiltered, mem_filter]
  by_cases hpass : passes key = true
  · rw [if_pos hpass, ← mem_def, mem_dlookup_iff hnodup]
    exact ⟨And.left, fun h => ⟨h, hpass⟩⟩
  · rw [if_neg hpass]
    exact ⟨fun h => absurd h.2 hpass, fun h => nomatch h⟩

theorem mem_entries_iff {records : Records V} {key : StateKey} {record : StoredRecord V} :
    (⟨key, record⟩ : RecordEntry V) ∈ records.entries ↔ records.lookup key = some record := by
  rw [← mem_def, mem_lookup_iff]

/-! ## The overlay of a page -/

section Overlay

variable {snapshot : Records V} {mutations : AList fun _ : StateKey => Mutation V}
  {revision : StateKey → Revision}

def matchingMutations (mutations : AList fun _ : StateKey => Mutation V) (query : StateQuery) :
    List (Sigma fun _ : StateKey => Mutation V) :=
  mutations.entries.filter fun entry => matchesStateQuery entry.1 query

/-- What a scan has after it has laid the mutations over what it has fetched. -/
def overlaidRecords (revision : StateKey → Revision)
    (mutations : AList fun _ : StateKey => Mutation V) (query : StateQuery)
    (base : List (RecordEntry V)) : List (RecordEntry V) :=
  (overlay revision (newMap base) (matchingMutations mutations query)).entries.filter
    fun record => query.afterId.all fun a => Text.compareText record.1.id a == .gt

/-- What it should have, all records at hand. -/
def visibleRecords (revision : StateKey → Revision) (snapshot : Records V)
    (mutations : AList fun _ : StateKey => Mutation V) (query : StateQuery) :
    List (RecordEntry V) :=
  matchingRecords (overlay revision snapshot mutations.entries) query

theorem mem_visibleRecords {key : StateKey} {record : StoredRecord V} :
    (⟨key, record⟩ : RecordEntry V) ∈ visibleRecords revision snapshot mutations query ↔
      overlaid (revision key) (snapshot.lookup key) (mutations.lookup key) = some record ∧
        matchesStateQuery key query = true := by
  rw [visibleRecords, matchingRecords, mem_filter, mem_entries_iff,
    lookup_overlay _ _ mutations.nodupKeys]
  rfl

variable {base : List (RecordEntry V)}

theorem mem_overlaidRecords (hnodup : base.NodupKeys)
    (hbase : base ⊆ matchingRecords snapshot query) {key : StateKey} {record : StoredRecord V} :
    (⟨key, record⟩ : RecordEntry V) ∈ overlaidRecords revision mutations query base ↔
      overlaid (revision key) (base.dlookup key) (mutations.lookup key) = some record ∧
        matchesStateQuery key query = true := by
  have hafter : matchesStateQuery key query = true →
      query.afterId.all (fun a => Text.compareText key.id a == .gt) = true := by
    intro hmatches
    exact (Bool.and_eq_true_iff.mp hmatches).2
  rw [overlaidRecords, mem_filter, mem_entries_iff, matchingMutations,
    lookup_overlay _ _ (mutations.nodupKeys.sublist filter_sublist), lookup_newMap hnodup,
    dlookup_filter (fun key => matchesStateQuery key query) mutations.nodupKeys]
  by_cases hmatches : matchesStateQuery key query = true
  · rw [if_pos hmatches]
    exact ⟨fun h => ⟨h.1, hmatches⟩, fun h => ⟨h.1, hafter hmatches⟩⟩
  -- what has been fetched satisfies the query
  have hnone : base.dlookup key = none := by
    rw [dlookup_eq_none]
    intro hmem
    obtain ⟨row, hrow, rfl⟩ := List.mem_map.mp hmem
    exact hmatches (mem_filter.mp (hbase hrow)).2
  rw [if_neg hmatches, hnone]
  exact ⟨fun h => (nomatch h.1), fun h => absurd h.2 hmatches⟩

theorem overlaidRecords_subset (hnodup : base.NodupKeys)
    (hbase : base ⊆ matchingRecords snapshot query) :
    overlaidRecords revision mutations query base ⊆
      visibleRecords revision snapshot mutations query := by
  rintro ⟨key, record⟩ hmem
  obtain ⟨hshown, hmatches⟩ := (mem_overlaidRecords hnodup hbase).mp hmem
  refine mem_visibleRecords.mpr ⟨?_, hmatches⟩
  cases hmutation : mutations.lookup key with
  | none =>
    rw [hmutation] at hshown
    have hfetched : (⟨key, record⟩ : RecordEntry V) ∈ base := of_mem_dlookup (mem_def.mpr hshown)
    exact mem_entries_iff.mp (mem_filter.mp (hbase hfetched)).1
  | some mutation =>
    rw [hmutation] at hshown
    cases mutation with
    | put value expected => exact hshown
    | delete expected => cases hshown

theorem mem_overlaidRecords_of_fetched (hnodup : base.NodupKeys)
    (hbase : base ⊆ matchingRecords snapshot query) {row : RecordEntry V}
    (hrow : row ∈ visibleRecords revision snapshot mutations query)
    (hfetched : row ∈ matchingRecords snapshot query → row ∈ base) :
    row ∈ overlaidRecords revision mutations query base := by
  obtain ⟨key, record⟩ := row
  obtain ⟨hshown, hmatches⟩ := mem_visibleRecords.mp hrow
  refine (mem_overlaidRecords hnodup hbase).mpr ⟨?_, hmatches⟩
  cases hmutation : mutations.lookup key with
  | none =>
    rw [hmutation] at hshown
    have hmem := hfetched (mem_filter.mpr ⟨mem_entries_iff.mpr hshown, hmatches⟩)
    exact mem_def.mp ((mem_dlookup_iff hnodup).mpr hmem)
  | some mutation =>
    rw [hmutation] at hshown
    cases mutation with
    | put value expected => exact hshown
    | delete expected => cases hshown

theorem deleted_or_visible {row : RecordEntry V} (hrow : row ∈ matchingRecords snapshot query) :
    row.1.id ∈ ((matchingMutations mutations query).filter isDelete).map (fun entry => entry.1.id) ∨
      row.1.id ∈ (visibleRecords revision snapshot mutations query).map fun row => row.1.id := by
  obtain ⟨key, record⟩ := row
  obtain ⟨hmem, hmatches⟩ := mem_filter.mp hrow
  have hlookup := mem_entries_iff.mp hmem
  have hvisible : ∀ shown : StoredRecord V,
      overlaid (revision key) (snapshot.lookup key) (mutations.lookup key) = some shown →
      key.id ∈ (visibleRecords revision snapshot mutations query).map fun row => row.1.id :=
    fun shown h => List.mem_map.mpr ⟨⟨key, shown⟩, mem_visibleRecords.mpr ⟨h, hmatches⟩, rfl⟩
  cases hmutation : mutations.lookup key with
  | none =>
    right
    refine hvisible record ?_
    rw [hmutation]
    exact hlookup
  | some mutation =>
    cases mutation with
    | put value expected =>
      right
      refine hvisible ⟨value, revision key⟩ ?_
      rw [hmutation]
      rfl
    | delete expected =>
      left
      have hentry : (⟨key, .delete expected⟩ : Sigma fun _ : StateKey => Mutation V) ∈
          mutations.entries := mem_lookup_iff.mp (mem_def.mpr hmutation)
      exact List.mem_map.mpr ⟨_, mem_filter.mpr ⟨mem_filter.mpr ⟨hentry, hmatches⟩, rfl⟩, rfl⟩

theorem nodupKeys_of_subset (hnodup : base.Nodup)
    (hbase : base ⊆ matchingRecords snapshot query) : base.NodupKeys := by
  refine List.Nodup.map_on ?_ hnodup
  intro row hrow row' hrow' hkey
  exact List.NodupKeys.eq_of_fst_eq snapshot.nodupKeys (mem_filter.mp (hbase hrow)).1
    (mem_filter.mp (hbase hrow')).1 hkey

/-- **The merged page is the page of the merge**, for a base that is longer by the deletions. -/
theorem cut_overlaidRecords (hlimit : ∀ limit ∈ query.limit, 0 ≤ limit) :
    cut query.limit ((overlaidRecords revision mutations query
      (cut (query.limit.map (· + ((matchingMutations mutations query).countP isDelete : Int)))
        ((matchingRecords snapshot query).insertionSort
          fun left right => compareIds left right ≠ .gt))).insertionSort
            fun left right => compareIds left right ≠ .gt) =
      cut query.limit ((visibleRecords revision snapshot mutations query).insertionSort
        fun left right => compareIds left right ≠ .gt) := by
  have hvisible : ToldApart compareIds (visibleRecords revision snapshot mutations query) :=
    toldApart_matchingRecords _ query
  have hnodup : ∀ base, (overlaidRecords revision mutations query base).Nodup := fun base =>
    (List.Nodup.of_map _ (overlay revision (newMap base)
      (matchingMutations mutations query)).nodupKeys).filter _
  have hsorted : ((matchingRecords snapshot query).insertionSort
      fun left right => compareIds left right ≠ .gt).Nodup :=
    (perm_insertionSort _ _).nodup_iff.mpr (toldApart_matchingRecords snapshot query).nodup
  cases hcut : query.limit with
  | none =>
    -- everything is fetched
    have hbase : (matchingRecords snapshot query).insertionSort
        (fun left right => compareIds left right ≠ .gt) ⊆ matchingRecords snapshot query :=
      fun row hrow => (mem_insertionSort _).mp hrow
    have hkeys := nodupKeys_of_subset hsorted hbase
    refine (hvisible.of_subset (hnodup _)
      (overlaidRecords_subset hkeys hbase)).strictlySorted.eq_of_mem_iff hvisible.strictlySorted ?_
    intro row
    show row ∈ List.insertionSort _ _ ↔ row ∈ List.insertionSort _ _
    rw [mem_insertionSort, mem_insertionSort]
    constructor
    · exact fun hrow => overlaidRecords_subset hkeys hbase hrow
    · exact fun hrow => mem_overlaidRecords_of_fetched hkeys hbase hrow fun hmem =>
        (mem_insertionSort _).mpr hmem
  | some limit =>
    obtain ⟨n, rfl⟩ := Int.eq_ofNat_of_zero_le (hlimit limit hcut)
    let gone := ((matchingMutations mutations query).filter isDelete).map fun entry => entry.1.id
    have hgone : gone.length = (matchingMutations mutations query).countP isDelete := by
      rw [length_map, countP_eq_length_filter]
    let base := page compareIds (n + gone.length) (matchingRecords snapshot query)
    have hbase : base ⊆ matchingRecords snapshot query :=
      fun row hrow => (mem_insertionSort _).mp (mem_of_mem_take hrow)
    have hkeys : base.NodupKeys := nodupKeys_of_subset (hsorted.sublist (take_sublist _ _)) hbase
    have hfetched : cut ((some (n : Int)).map
        (· + ((matchingMutations mutations query).countP isDelete : Int)))
          ((matchingRecords snapshot query).insertionSort
            fun left right => compareIds left right ≠ .gt) = base := by
      rw [← hgone]
      rfl
    rw [hfetched]
    refine page_eq_of_mem hvisible (hnodup base) (overlaidRecords_subset hkeys hbase) ?_
    intro row hrow
    have hmem : row ∈ visibleRecords revision snapshot mutations query :=
      ((mem_page_iff hvisible).mp hrow).1
    refine mem_overlaidRecords_of_fetched hkeys hbase hmem fun hcommitted => ?_
    exact mem_page_of_overfetch (nodup_ids snapshot query) (nodup_ids _ query)
      (fun row hrow => deleted_or_visible hrow) hrow hcommitted

end Overlay

/-! ## The two transactions -/

/-- A transaction of the database and one of the memory store on the same records, with the same
mutations. -/
structure Mirrors (tx : SqliteTransaction V) (memory : MemoryTransaction V) : Prop where
  active : tx.active = memory.active
  mutations : tx.mutations = memory.mutations
  readRecord : ∀ key, tx.readRecord key = memory.snapshot.lookup key
  scanRecords : ∀ query limit, assertStateQuery query = .ok () → tx.scanRecords query limit =
    cut limit ((matchingRecords memory.snapshot query).insertionSort
      fun left right => compareIds left right ≠ .gt)

variable {memory : MemoryTransaction V}

theorem mirrors_start (inMemory : Bool) (records : Records V) :
    Mirrors (start inMemory records) (MemoryTransaction.start records) where
  active := rfl
  mutations := rfl
  readRecord _ := rfl
  scanRecords _ limit hquery := scanRecords_start inMemory records hquery limit

theorem Mirrors.assertActive_eq (h : Mirrors tx memory) : tx.assertActive = memory.assertActive := by
  unfold assertActive MemoryTransaction.assertActive
  rw [h.active]

theorem Mirrors.stagedRevision_eq (h : Mirrors tx memory) :
    tx.stagedRevision = memory.snapshotRevision := by
  funext key
  rw [stagedRevision, h.readRecord, MemoryTransaction.snapshotRevision]

theorem Mirrors.get_eq (h : Mirrors tx memory) (key : StateKey) : tx.get key = memory.get key := by
  unfold get MemoryTransaction.get
  rewrite [h.assertActive_eq, h.mutations, h.stagedRevision_eq, h.readRecord]
  rfl

/-- **Both scans show the same.** -/
theorem Mirrors.scan_eq (h : Mirrors tx memory) (query : StateQuery) :
    tx.scan query = memory.scan query := by
  unfold scan MemoryTransaction.scan
  rw [h.assertActive_eq]
  cases hquery : assertStateQuery query with
  | error e => rfl
  | ok _ =>
    have hlimit : ∀ limit ∈ query.limit, 0 ≤ limit := by
      intro limit hmem
      unfold assertStateQuery at hquery
      split at hquery
      · cases hquery
      next hcheck =>
      rw [mem_def] at hmem
      simp only [hmem, any_some, Bool.or_eq_true, not_or, Bool.not_eq_true,
        decide_eq_true_eq] at hcheck
      omega
    have hpage := @cut_overlaidRecords V query memory.snapshot memory.mutations
      memory.snapshotRevision hlimit
    have hrows : cut query.limit ((overlaidRecords tx.stagedRevision tx.mutations query
        (tx.scanRecords query (query.limit.map
          (· + ((matchingMutations tx.mutations query).countP isDelete : Int))))).insertionSort
            fun left right => compareIds left right ≠ .gt) =
        cut query.limit ((matchingRecords memory.visible query).insertionSort
          fun left right => compareIds left right ≠ .gt) := by
      rw [h.scanRecords _ _ hquery, h.stagedRevision_eq, h.mutations]
      exact hpage
    have hmemory : TegoNext.scanRecords memory.visible query =
        (cut query.limit ((matchingRecords memory.visible query).insertionSort
          fun left right => compareIds left right ≠ .gt)).map
            fun record => ⟨record.1, record.2.value, record.2.revision⟩ := rfl
    rw [hmemory, ← hrows]
    rfl

theorem Mirrors.perform (h : Mirrors tx memory) (call : StateCall V) :
    (∃ e, tx.perform call = .error e ∧ memory.perform call = .error e) ∨
      ∃ reads tx' memory', tx.perform call = .ok (reads, tx') ∧
        memory.perform call = .ok (reads, memory') ∧ Mirrors tx' memory' := by
  have hstage : ∀ (key : StateKey) (mutation : Mutation V),
      (∃ e, tx.stage key mutation = .error e ∧ memory.stage key mutation = .error e) ∨
        ∃ tx' memory', tx.stage key mutation = .ok tx' ∧
          memory.stage key mutation = .ok memory' ∧ Mirrors tx' memory' := by
    intro key mutation
    unfold stage MemoryTransaction.stage
    rw [h.assertActive_eq]
    cases memory.assertActive with
    | error e => exact .inl ⟨e, rfl, rfl⟩
    | ok _ =>
      cases assertStateKey key true with
      | error e => exact .inl ⟨e, rfl, rfl⟩
      | ok _ =>
        refine .inr ⟨_, _, rfl, rfl, h.active, ?_, h.readRecord, h.scanRecords⟩
        rw [h.mutations]
  cases call with
  | get key =>
    simp only [SqliteTransaction.perform, MemoryTransaction.perform, h.get_eq]
    cases memory.get key with
    | error e => exact .inl ⟨e, rfl, rfl⟩
    | ok record => exact .inr ⟨_, _, _, rfl, rfl, h⟩
  | scan query =>
    simp only [SqliteTransaction.perform, MemoryTransaction.perform, h.scan_eq]
    cases memory.scan query with
    | error e => exact .inl ⟨e, rfl, rfl⟩
    | ok rows => exact .inr ⟨_, _, _, rfl, rfl, h⟩
  | put key value expected =>
    simp only [SqliteTransaction.perform, MemoryTransaction.perform, put, MemoryTransaction.put]
    rcases hstage key (.put value expected) with ⟨e, ht, hm⟩ | ⟨tx', memory', ht, hm, h'⟩
    · exact .inl ⟨e, by rw [ht]; rfl, by rw [hm]; rfl⟩
    · exact .inr ⟨_, tx', memory', by rw [ht]; rfl, by rw [hm]; rfl, h'⟩
  | delete key expected =>
    simp only [SqliteTransaction.perform, MemoryTransaction.perform, delete,
      MemoryTransaction.delete]
    rcases hstage key (.delete expected) with ⟨e, ht, hm⟩ | ⟨tx', memory', ht, hm, h'⟩
    · exact .inl ⟨e, by rw [ht]; rfl, by rw [hm]; rfl⟩
    · exact .inr ⟨_, tx', memory', by rw [ht]; rfl, by rw [hm]; rfl, h'⟩

theorem Mirrors.performEach (h : Mirrors tx memory) (calls : List (StateCall V)) :
    Mirrors (tx.performEach calls) (memory.performEach calls) := by
  induction calls generalizing tx memory with
  | nil => exact h
  | cons call rest ih =>
    unfold SqliteTransaction.performEach MemoryTransaction.performEach
    rw [foldl_cons, foldl_cons]
    rcases h.perform call with ⟨e, ht, hm⟩ | ⟨reads, tx', memory', ht, hm, h'⟩
    · rw [ht, hm]
      exact ih h
    · rw [ht, hm]
      exact ih h'

end SqliteTransaction

theorem length_scanRecords {V : Type} (records : Records V) (query : StateQuery) :
    (scanRecords records query).length = match query.limit with
      | some limit => min limit.toNat (records.entries.countP (matchesQuery query))
      | none => records.entries.countP (matchesQuery query) := by
  rw [scanRecords, length_map]
  cases query.limit with
  | none => rw [length_insertionSort, countP_eq_length_filter]
  | some limit =>
    rw [length_take, length_insertionSort, countP_eq_length_filter]

/-- Whatever a transaction body has staged and read, a scan of the database shows what a scan of
the memory store does, and no page is shorter than the limit while more match. -/
theorem sqlite_scan_eq {V : Type} (inMemory : Bool) (records : Records V)
    (calls : List (StateCall V)) (query : StateQuery) :
    let memory := (MemoryTransaction.start records).performEach calls
    ((SqliteTransaction.start inMemory records).performEach calls).scan query =
      memory.scan query ∧
    ∀ rows, ((SqliteTransaction.start inMemory records).performEach calls).scan query = .ok rows →
      rows.length = match query.limit with
        | some limit => min limit.toNat (memory.visible.entries.countP (matchesQuery query))
        | none => memory.visible.entries.countP (matchesQuery query) := by
  intro memory
  have heq := ((SqliteTransaction.mirrors_start inMemory records).performEach calls).scan_eq query
  refine ⟨heq, fun rows hrows => ?_⟩
  have hscan : memory.scan query = .ok rows := heq.symm.trans hrows
  have hrows' : scanRecords memory.visible query = rows := by
    unfold MemoryTransaction.scan at hscan
    cases hactive : memory.assertActive with
    | error e =>
      rw [hactive] at hscan
      cases hscan
    | ok _ =>
      cases hquery : assertStateQuery query with
      | error e =>
        rw [hactive, hquery] at hscan
        cases hscan
      | ok _ =>
        rw [hactive, hquery] at hscan
        exact Except.ok.inj hscan
  rw [← hrows', length_scanRecords]

def taskKey (id : String) : StateKey := ⟨Text.js "tego", Text.js "tasks", Text.js id⟩

def twoRecords : Records Nat :=
  ((∅ : Records Nat).insert (taskKey "b") ⟨1, 1⟩).insert (taskKey "d") ⟨2, 2⟩

/-- The first record is deleted, and another is put in front of the second. -/
def deleteAndPut : List (StateCall Nat) :=
  [.delete (taskKey "b") .undefined, .put (taskKey "c") 3 .absent]

def firstTwo : StateQuery := ⟨Text.js "tego", Text.js "tasks", none, none, some 2⟩

theorem sqlite_scan_eq_deleteAndPut :
    ∃ rows, ((SqliteTransaction.start false twoRecords).performEach deleteAndPut).scan firstTwo =
        .ok rows ∧
      rows.map ScannedState.value = [3, 2] ∧ rows.length = 2 :=
  ⟨_, rfl, rfl, ((sqlite_scan_eq false twoRecords deleteAndPut firstTwo).2 _ rfl).trans rfl⟩

end TegoNext
