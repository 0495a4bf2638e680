/-
Pages of a scan, whichever driver it is of.

Ids are ordered by code units. The databases keep for each id a key of bytes and order by that; it
tells ids apart and orders them alike, also those with characters outside the basic plane, which
their UTF-8 would put last.
-/
import TegoNext.SqliteTransaction

set_option autoImplicit false

namespace TegoNext

open List Text

/-! ## Order keys -/

/-- `stateStringOrderKey` with its check. -/
def checkedOrderKey (value : JsString) : Except String (List Nat) :=
  if isPortableStateString value then .ok (stateStringOrderKey value)
  else .error "State strings must not contain NUL or ill-formed Unicode"

/-- The key of a portable string orders as the string does, and is of no other string. -/
theorem checkedOrderKey_spec {s t : JsString} (hs : isPortableStateString s = true)
    (ht : isPortableStateString t = true) :
    ∃ key key', checkedOrderKey s = .ok key ∧ checkedOrderKey t = .ok key' ∧
      compareBytes key key' = compareText s t ∧ (key = key' ↔ s = t) := by
  refine ⟨_, _, if_pos hs, if_pos ht, compareBytes_stateStringOrderKey s t, fun h => ?_, congrArg _⟩
  have hself : compareBytes (stateStringOrderKey t) (stateStringOrderKey t) = .eq := by
    rw [compareBytes_stateStringOrderKey, compareText_self]
  rw [← compareText_eq_iff, ← compareBytes_stateStringOrderKey, h, hself]

/-! ## Scans -/

inductive StateDriver where
  | memory
  | sqlite
  | postgres

variable {V : Type} (driver : StateDriver) (records : Records V)

def shownRow (row : RecordEntry V) : ScannedState V := ⟨row.1, row.2.value, row.2.revision⟩

/-- `scan` of an open store. -/
def StateDriver.scan (query : StateQuery) : Except StateError (List (ScannedState V)) := do
  assertStateQuery query
  match driver with
  | .memory => pure (scanRecords records query)
  | .sqlite => pure ((SqliteTransaction.scanRecordsFrom records query query.limit).map shownRow)
  | .postgres => pure (PostgresTransaction.selectRows records query)

variable {driver records} {query : StateQuery}

theorem scan_eq (hquery : assertStateQuery query = .ok ()) :
    driver.scan records query =
      .ok ((cut query.limit (sortedRecords records query)).map shownRow) := by
  unfold StateDriver.scan
  rw [hquery]
  dsimp only [bind, Except.bind, pure, Except.pure]
  cases driver with
  | memory => rfl
  | sqlite =>
    rw [SqliteTransaction.scanRecordsFrom_eq records hquery]
    rfl
  | postgres =>
    rw [PostgresTransaction.selectRows_eq]
    rfl

/-- **The drivers scan alike**, whatever they keep and whatever is asked for. -/
theorem scans_agree (driver driver' : StateDriver) (records : Records V) (query : StateQuery) :
    driver.scan records query = driver'.scan records query := by
  cases hquery : assertStateQuery query with
  | error e =>
    unfold StateDriver.scan
    rw [hquery]
    rfl
  | ok => rw [scan_eq hquery, scan_eq hquery]

/-! ## Pages -/

/-- A page for each limit, each after the last row of the one before, until one is empty. -/
def fetchPages (driver : StateDriver) (records : Records V) :
    StateQuery → List Nat → Except StateError (List (List (ScannedState V)))
  | _, [] => .ok []
  | query, limit :: limits => do
    let page ← driver.scan records { query with limit := some limit }
    match page.getLast? with
    | none => pure [page]
    | some last =>
      let pages ← fetchPages driver records { query with afterId := some last.key.id } limits
      pure (page :: pages)

theorem assertStateQuery_limit {limit : Nat}
    (hquery : assertStateQuery { query with limit := none } = .ok ())
    (hlimit : 0 < limit ∧ limit ≤ STATE_QUERY_MAX_LIMIT) :
    assertStateQuery { query with limit := some (limit : Int) } = .ok () := by
  unfold assertStateQuery at hquery ⊢
  split at hquery
  · cases hquery
  next hvalid =>
  refine if_neg ?_
  simp only [Option.any_none, Option.any_some, Bool.or_eq_true, decide_eq_true_eq,
    Bool.false_eq_true, or_false] at hvalid ⊢
  rintro (h | h)
  · exact hvalid h
  · omega

theorem assertStateQuery_after {id : JsString}
    (hquery : assertStateQuery { query with limit := none } = .ok ())
    (hid : isPortableStateString id = true) :
    assertStateQuery { query with afterId := some id, limit := none } = .ok () := by
  unfold assertStateQuery at hquery ⊢
  split at hquery
  · cases hquery
  next hvalid =>
  refine if_neg ?_
  simp only [Option.any_none, Option.any_some, Bool.or_eq_true, Bool.false_eq_true, or_false, hid,
    Bool.not_true] at hvalid ⊢
  exact fun h => hvalid (.inl h)

theorem portable_of_assertStateKey {key : StateKey} (h : assertStateKey key true = .ok ()) :
    isPortableStateString key.id = true := by
  rw [assertStateKey] at h
  split at h
  · next hportable =>
    rw [Bool.and_eq_true] at hportable
    exact hportable.2
  · cases h

/-- The pages are as much of the rows as they have room for. -/
theorem fetchPages_eq (hrecords : ∀ row ∈ records.entries, assertStateKey row.1 true = .ok ())
    {limits : List Nat} (hlimits : ∀ limit ∈ limits, 0 < limit ∧ limit ≤ STATE_QUERY_MAX_LIMIT)
    (hquery : assertStateQuery { query with limit := none } = .ok ()) :
    ∃ pages, fetchPages driver records query limits = .ok pages ∧
      pages.flatten = ((sortedRecords records query).take limits.sum).map shownRow := by
  induction limits generalizing query with
  | nil => exact ⟨[], rfl, rfl⟩
  | cons limit limits ih =>
    obtain ⟨hlimit, hrest⟩ := forall_mem_cons.mp hlimits
    rw [fetchPages, scan_eq (assertStateQuery_limit hquery hlimit)]
    dsimp only [bind, Except.bind, pure, Except.pure]
    have hcut : cut (some (limit : Int)) (sortedRecords records { query with limit := some limit }) =
        (sortedRecords records query).take limit := rfl
    rw [hcut, getLast?_map]
    cases hlast : ((sortedRecords records query).take limit).getLast? with
    | none =>
      have hnil := getLast?_eq_none_iff.mp hlast
      refine ⟨_, rfl, ?_⟩
      rw [take_eq_nil_iff] at hnil
      rw [hnil.resolve_left (by omega)]
      simp only [take_nil, map_nil, flatten_cons, flatten_nil, append_nil]
    | some last =>
      have hmem := (mem_sortedRecords.mp (mem_of_mem_take (mem_of_getLast? hlast))).1
      have hafter := assertStateQuery_after hquery (portable_of_assertStateKey (hrecords last hmem))
      obtain ⟨pages, hpages, hflatten⟩ := @ih { query with afterId := some last.1.id } hrest hafter
      dsimp only [Option.map_some, shownRow]
      rw [hpages]
      refine ⟨_, rfl, ?_⟩
      rw [flatten_cons, hflatten, sortedRecords_after records query query.limit hlast, sum_cons,
        take_add, map_append]

/-- **State keys and pages.** The key orders as the code units do and tells strings apart, and in
each driver the pages are the first rows of the whole scan, in which no id is twice. -/
theorem stateKeys_and_pages (hrecords : ∀ row ∈ records.entries, assertStateKey row.1 true = .ok ())
    {limits : List Nat} (hlimits : ∀ limit ∈ limits, 0 < limit ∧ limit ≤ STATE_QUERY_MAX_LIMIT)
    (hquery : assertStateQuery { query with limit := none } = .ok ()) :
    (∀ s t, isPortableStateString s = true → isPortableStateString t = true →
      ∃ key key', checkedOrderKey s = .ok key ∧ checkedOrderKey t = .ok key' ∧
        compareBytes key key' = compareText s t ∧ (key = key' ↔ s = t)) ∧
    ∃ rows pages, driver.scan records { query with limit := none } = .ok rows ∧
      fetchPages driver records query limits = .ok pages ∧
      pages.flatten = rows.take limits.sum ∧
      (pages.flatten.length < limits.sum → pages.flatten = rows) ∧
      (rows.map fun row => row.key.id).Nodup := by
  obtain ⟨pages, hpages, hflatten⟩ := @fetchPages_eq _ driver _ _ hrecords _ hlimits hquery
  refine ⟨fun _ _ => checkedOrderKey_spec, (sortedRecords records query).map shownRow, pages,
    scan_eq hquery, hpages, ?_, fun hlength => ?_, ?_⟩
  · rw [hflatten, map_take]
  · rw [hflatten, length_map, length_take] at hlength
    rw [hflatten, take_of_length_le (by omega)]
  · rw [map_map]
    exact ((perm_insertionSort _ _).map _).nodup_iff.mpr (nodup_ids records query)

/-- Two ids that bytes of UTF-8 would order the other way. -/
def sampleRecords : Records Nat :=
  (AList.insert ⟨js "app", js "items", js "\uff5e"⟩ ⟨1, 1⟩ ∅).insert
    ⟨js "app", js "items", js "😀"⟩ ⟨2, 2⟩

theorem stateKeys_and_pages_sample :
    ∃ rows pages, StateDriver.sqlite.scan sampleRecords ⟨js "app", js "items", none, none, none⟩ =
        .ok rows ∧
      fetchPages .sqlite sampleRecords ⟨js "app", js "items", none, none, none⟩ [1, 1, 1] =
        .ok pages ∧
      pages.flatten = rows.take 3 := by
  obtain ⟨-, rows, pages, hrows, hpages, hflatten, -⟩ :=
    @stateKeys_and_pages Nat .sqlite sampleRecords ⟨js "app", js "items", none, none, none⟩
      (by decide) [1, 1, 1] (by decide) (by decide)
  exact ⟨rows, pages, hrows, hpages, hflatten⟩

/-! ## Pages of records that change -/

/-- `loadStatePage`, without the projection. A cursor stands for the id it is made of, which must not
be empty. -/
def loadStatePage (driver : StateDriver) (collection : JsString) (limit : Nat)
    (records : Records V) (cursor : Option JsString) :
    Except (Option StateError) (List (ScannedState V) × Option JsString) :=
  match driver.scan records ⟨js "tego", collection, none, cursor, some limit⟩ with
  | .error e => .error (some e)
  | .ok items =>
    match if items.length = limit then items.getLast? else none with
    | none => .ok (items, none)
    | some last => if last.key.id = [] then .error none else .ok (items, some last.key.id)

/-- The pages from a cursor on, each of the records there are at its time; none if they have not
come to an end. -/
def followPages (driver : StateDriver) (collection : JsString) (limit : Nat) :
    Option JsString → List (Records V) → Except (Option StateError) (Option (List (ScannedState V)))
  | _, [] => .ok none
  | cursor, records :: later =>
    match loadStatePage driver collection limit records cursor with
    | .error e => .error e
    | .ok (items, none) => .ok (some items)
    | .ok (items, some id) =>
      match followPages driver collection limit (some id) later with
      | .ok (some rest) => .ok (some (items ++ rest))
      | ended => ended

def behind (cursor : Option JsString) (id : JsString) : Bool :=
  cursor.all (compareText id · == .gt)

theorem behind_trans {cursor : Option JsString} {last id : JsString}
    (hlast : behind cursor last = true) (hid : behind (some last) id = true) :
    behind cursor id = true := by
  cases cursor with
  | none => rfl
  | some cursor =>
    simp only [behind, Option.all_some, beq_iff_eq] at *
    exact Std.TransCmp.gt_trans hid hlast

variable {collection : JsString} {limit : Nat} {cursor next : Option JsString}
  {items shown : List (ScannedState V)} {states : List (Records V)}

/-- The rows that are not on the page are behind the next cursor, the last id of the page. -/
theorem loadStatePage_ok
    (h : loadStatePage driver collection limit records cursor = .ok (items, next)) :
    let rows := sortedRecords records ⟨js "tego", collection, none, cursor, none⟩
    items = (rows.take limit).map shownRow ∧
      (∀ row ∈ rows.drop limit, next.isSome ∧ behind next row.1.id = true) ∧
      ∀ id, next = some id → ∃ last, (rows.take limit).getLast? = some last ∧ last.1.id = id := by
  intro rows
  unfold loadStatePage at h
  split at h
  · cases h
  next found hscan =>
  cases hquery : assertStateQuery ⟨js "tego", collection, none, cursor, some (limit : Int)⟩ with
  | error e =>
    unfold StateDriver.scan at hscan
    rw [hquery] at hscan
    cases hscan
  | ok =>
    rw [scan_eq hquery] at hscan
    obtain rfl : (rows.take limit).map shownRow = found := Except.ok.inj hscan
    -- a page with rows behind it is full, and not empty
    have hfull : ∀ row ∈ rows.drop limit, (rows.take limit).length = limit ∧
        ∃ last, (rows.take limit).getLast? = some last := by
      intro row hrow
      have hpos : limit ≠ 0 := by
        rintro rfl
        simp [assertStateQuery] at hquery
      have hlength := length_pos_of_mem hrow
      rw [length_drop] at hlength
      have htake : (rows.take limit).length = limit := length_take_of_le (by omega)
      exact ⟨htake, _, getLast?_eq_some_getLast (ne_nil_of_length_pos (by omega))⟩
    rw [length_map, getLast?_map] at h
    split at h
    · next hnone =>
      cases h
      refine ⟨rfl, fun row hrow => ?_, nofun⟩
      obtain ⟨hlength, last, hlast⟩ := hfull row hrow
      rw [if_pos hlength, hlast] at hnone
      cases hnone
    · next hsome =>
      obtain ⟨last, hlast, rfl⟩ := Option.map_eq_some_iff.mp (Option.ite_none_right_eq_some.mp hsome).2
      split at h
      · cases h
      cases h
      exact ⟨rfl, fun row hrow => ⟨rfl, beq_iff_eq.mpr
        (((strictlySorted_sortedRecords _ _).mem_drop_iff hlast).mp hrow).2⟩,
        fun id hid => ⟨last, hlast, Option.some.inj hid⟩⟩

/-- A record behind the cursor is on the page, or behind the cursor of the next one. -/
theorem loadStatePage_spec
    (h : loadStatePage driver collection limit records cursor = .ok (items, next)) :
    items.Pairwise (fun a b => compareText a.key.id b.key.id = .lt) ∧
    (∀ row ∈ items, behind cursor row.key.id = true ∧
      records.lookup row.key = some ⟨row.value, row.revision⟩) ∧
    (∀ id, behind cursor id = true → (records.lookup ⟨js "tego", collection, id⟩).isSome →
      (∃ row ∈ items, row.key = ⟨js "tego", collection, id⟩) ∨
        next.isSome ∧ behind next id = true) ∧
    ∀ last, next = some last → behind cursor last = true ∧
      ∀ row ∈ items, (compareText row.key.id last).isLE := by
  obtain ⟨rfl, hrest, hnext⟩ := loadStatePage_ok h
  let rows := sortedRecords records ⟨js "tego", collection, none, cursor, none⟩
  have hsorted : StrictlySorted compareIds (rows.take limit) :=
    (strictlySorted_sortedRecords _ _).sublist (take_sublist _ _)
  have hmem : ∀ row : RecordEntry V, row ∈ rows ↔ records.lookup row.1 = some row.2 ∧
      (row.1.nspace = js "tego" ∧ row.1.collection = collection) ∧ behind cursor row.1.id = true := by
    intro row
    rw [mem_sortedRecords, ← AList.mem_lookup_iff, Option.mem_def]
    simp [matchesQuery, behind]
  refine ⟨pairwise_map.mpr hsorted, ?_, fun id hid hsome => ?_, fun id hid => ?_⟩
  · rw [forall_mem_map]
    intro row hrow
    obtain ⟨hlookup, -, hbehind⟩ := (hmem row).mp (mem_of_mem_take hrow)
    exact ⟨hbehind, hlookup⟩
  · obtain ⟨record, hrecord⟩ := Option.isSome_iff_exists.mp hsome
    have hrow : (⟨_, record⟩ : RecordEntry V) ∈ rows := (hmem _).mpr ⟨hrecord, ⟨rfl, rfl⟩, hid⟩
    rw [← take_append_drop limit rows, mem_append] at hrow
    exact hrow.imp (fun hrow => ⟨_, mem_map_of_mem hrow, rfl⟩) (hrest _)
  · obtain ⟨last, hlast, rfl⟩ := hnext id hid
    refine ⟨((hmem last).mp (mem_of_mem_take (mem_of_getLast? hlast))).2.2, ?_⟩
    have hle : (rows.take limit).Pairwise fun a b => (compareIds a b).isLE :=
      hsorted.imp Ordering.isLE_of_eq_lt
    rw [forall_mem_map, ← getLast_of_getLast?_eq_some hlast]
    exact fun row hrow =>
      hle.rel_getLast_of_rel_getLast_getLast hrow (Ordering.isLE_of_eq_eq Std.ReflCmp.compare_self)

/-- **Pages of records that change.** The ids ascend, every row was there when its page was
fetched, and what is there each time is shown. -/
theorem followPages_live
    (h : followPages driver collection limit cursor states = .ok (some shown)) :
    shown.Pairwise (fun a b => compareText a.key.id b.key.id = .lt) ∧
    (∀ row ∈ shown, behind cursor row.key.id = true ∧
      ∃ records ∈ states, records.lookup row.key = some ⟨row.value, row.revision⟩) ∧
    ∀ id, behind cursor id = true →
      (∀ records ∈ states, (records.lookup ⟨js "tego", collection, id⟩).isSome) →
        ∃ row ∈ shown, row.key = ⟨js "tego", collection, id⟩ := by
  induction states generalizing cursor shown with
  | nil => cases h
  | cons records later ih =>
    rw [followPages] at h
    split at h
    · cases h
    · next items hpage =>
      cases h
      obtain ⟨hsorted, hrows, hshown, -⟩ := loadStatePage_spec hpage
      exact ⟨hsorted, fun row hrow => ⟨(hrows row hrow).1, _, mem_cons_self, (hrows row hrow).2⟩,
        fun id hid hall => (hshown id hid (hall _ mem_cons_self)).resolve_right nofun⟩
    · next items last hpage =>
      obtain ⟨hsorted, hrows, hshown, hnext⟩ := loadStatePage_spec hpage
      obtain ⟨hlast, hle⟩ := hnext last rfl
      split at h
      swap
      · next hnone => exact absurd h (hnone _)
      next rest hrest =>
      cases h
      obtain ⟨hsorted', hrows', hshown'⟩ := ih hrest
      refine ⟨pairwise_append.mpr ⟨hsorted, hsorted', fun a ha b hb => ?_⟩, fun row hrow => ?_,
        fun id hid hall => ?_⟩
      · exact Std.TransCmp.lt_of_isLE_of_lt (hle a ha)
          (Std.OrientedCmp.lt_of_gt (beq_iff_eq.mp (hrows' b hb).1))
      · rcases mem_append.mp hrow with hrow | hrow
        · exact ⟨(hrows row hrow).1, _, mem_cons_self, (hrows row hrow).2⟩
        · obtain ⟨hbehind, state, hstate, hlookup⟩ := hrows' row hrow
          exact ⟨behind_trans hlast hbehind, state, mem_cons_of_mem _ hstate, hlookup⟩
      · obtain ⟨hfirst, hlater⟩ := forall_mem_cons.mp hall
        rcases hshown id hid hfirst with ⟨row, hrow, hkey⟩ | ⟨-, hbehind⟩
        · exact ⟨row, mem_append_left _ hrow, hkey⟩
        · obtain ⟨row, hrow, hkey⟩ := hshown' id hbehind hlater
          exact ⟨row, mem_append_right _ hrow, hkey⟩

/-- When the second page is fetched, the second id is gone and another one there. -/
theorem followPages_live_moved :
    let key (id : String) : StateKey := ⟨js "tego", js "tasks", js id⟩
    let early : Records Nat := [⟨key "a", 1, 1⟩, ⟨key "b", 2, 1⟩, ⟨key "d", 4, 1⟩].toAList
    let late : Records Nat := [⟨key "c", 3, 2⟩, ⟨key "d", 5, 2⟩].toAList
    let shown : List (ScannedState Nat) := [⟨key "a", 1, 1⟩, ⟨key "c", 3, 2⟩, ⟨key "d", 5, 2⟩]
    followPages .memory (js "tasks") 1 none [early, late, late, late] = .ok (some shown) ∧
      ∃ row ∈ shown, row.key = key "d" := by
  intro key early late shown
  have hshown : followPages .memory (js "tasks") 1 none [early, late, late, late] =
      .ok (some shown) := by rfl
  exact ⟨hshown, (followPages_live hshown).2.2 (js "d") rfl (by decide)⟩

end TegoNext
