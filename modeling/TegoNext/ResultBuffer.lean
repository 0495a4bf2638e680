/-
The buffer of results that have not been acknowledged.

A result is kept as the copy that `serializeWireValue` makes of it, and its length is counted
against a limit. A result put once more is told from another by its text: the text of the copy is
compared with the text of the result as it was given, so that an equal result is taken for another
one unless its keys already stand in the order of the copy.
-/
import TegoNext.BinaryFrame
import TegoNext.JsMap
import TegoNext.JsonNormalForm
import TegoNext.WorkerRuntime
import Mathlib.Data.Rat.Encodable

set_option autoImplicit false

namespace TegoNext

open Text CanonicalJson JsonNormalForm Option

namespace ResultBuffer

/-! ## Results and errors -/

/-- An `ExecutionResult` as the JSON object it is, with the properties the buffer reads. -/
structure ExecutionResult where
  fields : List (JsString × JsonValue)
  taskId : PortableId
  attemptId : PortableId
  completedAt : JsString
  distinct : DistinctKeys (.object fields)
  lookup_taskId : fields.lookup (js "taskId") = some (.string taskId.text)
  lookup_attemptId : fields.lookup (js "attemptId") = some (.string attemptId.text)
  lookup_completedAt : fields.lookup (js "completedAt") = some (.string completedAt)

def ExecutionResult.json (result : ExecutionResult) : JsonValue := .object result.fields

theorem ExecutionResult.distinct_json (result : ExecutionResult) : DistinctKeys result.json :=
  result.distinct

def ExecutionResult.key (result : ExecutionResult) : JsString :=
  attemptKey result.taskId result.attemptId

inductive Code where
  | EXECUTOR_REMOTE_RESULT_CONFLICT
  | EXECUTOR_REMOTE_RESULT_BUFFER_EXHAUSTED
  deriving DecidableEq

/-- A diagnostic made by `remoteError`. -/
structure RemoteDiagnostic where
  code : Code
  severity : String
  message : String
  sourceKind : String
  sourceId : String
  retryable : Bool
  details : Option (List (String × Int))
  observedAt : JsString
  deriving DecidableEq

def remoteError (code : Code) (message id : String) (observedAt : JsString)
    (details : Option (List (String × Int))) : RemoteDiagnostic :=
  ⟨code, "error", message, "executor", id, false, details, observedAt⟩

end ResultBuffer

open ResultBuffer

/-! ## The buffer -/

structure BufferedResult where
  result : JsonValue
  bytes : Nat

structure ResultBuffer where
  maxCount : Nat
  maxBytes : Nat
  entries : JsMap JsString BufferedResult
  bytes : Int

/-- A limit that is no integer fails the test of the limit like any other that is not
positive. -/
structure ResultBufferOptions where
  maxCount : Option Int
  maxBytes : Option Int

namespace ResultBuffer

def positiveLimit (value : Option Int) (fallback : Nat) (name : String) :
    Except String { n : Nat // 0 < n } :=
  positiveInteger (value.getD fallback) name

def create (options : ResultBufferOptions) : Except String ResultBuffer := do
  let maxCount ← positiveLimit options.maxCount 256 "maxResultCount"
  let maxBytes ← positiveLimit options.maxBytes (1024 * 1024) "maxResultBytes"
  pure ⟨maxCount, maxBytes, .empty, 0⟩

def count (buffer : ResultBuffer) : Nat := buffer.entries.size

def get (buffer : ResultBuffer) (taskId attemptId : PortableId) : Option JsonValue :=
  (buffer.entries.get (attemptKey taskId attemptId)).map fun entry => cloneJson entry.result

def list (buffer : ResultBuffer) : List JsonValue :=
  buffer.entries.entries.map fun entry => cloneJson entry.2.result

def acknowledge (buffer : ResultBuffer) (taskId attemptId : PortableId) : ResultBuffer :=
  let key := attemptKey taskId attemptId
  match buffer.entries.get key with
  | none => buffer
  | some entry =>
    { buffer with entries := buffer.entries.delete key, bytes := buffer.bytes - entry.bytes }

/-- Another result of the attempt is held. -/
def conflict (result : ExecutionResult) : RemoteDiagnostic :=
  remoteError .EXECUTOR_REMOTE_RESULT_CONFLICT
    "Remote terminal result conflicts with the retained attempt" "result-buffer"
    result.completedAt none

/-- A result of so many bytes finds no room. -/
def exhausted (buffer : ResultBuffer) (result : ExecutionResult) (bytes : Nat) : RemoteDiagnostic :=
  remoteError .EXECUTOR_REMOTE_RESULT_BUFFER_EXHAUSTED
    "Remote unacknowledged result buffer is exhausted" "result-buffer" result.completedAt
    (some [("count", buffer.entries.size), ("bytes", buffer.bytes), ("resultBytes", bytes),
      ("maxCount", buffer.maxCount), ("maxBytes", buffer.maxBytes)])

section Put

variable (numberText : NumberText)

def put (buffer : ResultBuffer) (result : ExecutionResult) :
    Except RemoteDiagnostic Unit × ResultBuffer :=
  let key := result.key
  let bytes := jsonBytes numberText result.json
  match buffer.entries.get key with
  | some existing =>
    if stringify numberText existing.result ≠ stringify numberText result.json then
      (.error (conflict result), buffer)
    else (.ok (), buffer)
  | none =>
    if buffer.maxCount ≤ buffer.entries.size ∨ buffer.maxBytes < buffer.bytes + bytes then
      (.error (exhausted buffer result bytes), buffer)
    else
      (.ok (), { buffer with
        entries := buffer.entries.set key ⟨cloneJson result.json, bytes⟩
        bytes := buffer.bytes + bytes })

inductive Call where
  | put (result : ExecutionResult)
  | acknowledge (taskId attemptId : PortableId)

def apply (buffer : ResultBuffer) : Call → ResultBuffer
  | .put result => (put numberText buffer result).2
  | .acknowledge taskId attemptId => buffer.acknowledge taskId attemptId

/-- The buffer after the calls, whether they threw or not. -/
def run (buffer : ResultBuffer) (calls : List Call) : ResultBuffer :=
  calls.foldl (apply numberText) buffer

end Put

/-! ## What one call does -/

section Runs

variable {numberText : NumberText} {buffer : ResultBuffer}

theorem put_cases (numberText : NumberText) (buffer : ResultBuffer) (result : ExecutionResult) :
    (∃ existing, buffer.entries.get result.key = some existing ∧
      if stringify numberText existing.result = stringify numberText result.json then
        put numberText buffer result = (.ok (), buffer)
      else put numberText buffer result = (.error (conflict result), buffer)) ∨
    (buffer.entries.get result.key = none ∧
      (buffer.maxCount ≤ buffer.entries.size ∨
        buffer.maxBytes < buffer.bytes + jsonBytes numberText result.json) ∧
      put numberText buffer result =
        (.error (exhausted buffer result (jsonBytes numberText result.json)), buffer)) ∨
    (buffer.entries.get result.key = none ∧ buffer.entries.size < buffer.maxCount ∧
      buffer.bytes + jsonBytes numberText result.json ≤ buffer.maxBytes ∧
      put numberText buffer result = (.ok (), { buffer with
        entries := buffer.entries.set result.key
          ⟨cloneJson result.json, jsonBytes numberText result.json⟩
        bytes := buffer.bytes + jsonBytes numberText result.json })) := by
  cases hget : buffer.entries.get result.key with
  | some existing =>
    refine .inl ⟨existing, rfl, ?_⟩
    by_cases htext : stringify numberText existing.result = stringify numberText result.json
    · simp [put, hget, htext]
    · simp [put, hget, htext]
  | none =>
    by_cases hfull : buffer.maxCount ≤ buffer.entries.size ∨
        buffer.maxBytes < buffer.bytes + jsonBytes numberText result.json
    · refine .inr (.inl ⟨rfl, hfull, ?_⟩)
      simp only [put, hget, if_pos hfull]
    refine .inr (.inr ⟨rfl, ?_, ?_, ?_⟩)
    · omega
    · omega
    · simp only [put, hget, if_neg hfull]

/-! ## What holds through every run -/

/-- The entry a result leaves under its key. -/
def Snapshot (numberText : NumberText) (key : JsString) (entry : BufferedResult) : Prop :=
  ∃ result : ExecutionResult, result.key = key ∧
    entry = ⟨cloneJson result.json, jsonBytes numberText result.json⟩

structure Invariant (numberText : NumberText) (buffer : ResultBuffer) : Prop where
  bytes_eq : buffer.bytes = (buffer.entries.total fun entry => entry.bytes : Nat)
  bytes_le : buffer.bytes ≤ buffer.maxBytes
  size_le : buffer.entries.size ≤ buffer.maxCount
  snapshot : ∀ key entry, buffer.entries.get key = some entry → Snapshot numberText key entry

theorem invariant_create {options : ResultBufferOptions} (h : create options = .ok buffer) :
    Invariant numberText buffer := by
  rw [create, bind_eq_ok] at h
  obtain ⟨maxCount, -, h⟩ := h
  rw [bind_eq_ok] at h
  obtain ⟨maxBytes, -, h⟩ := h
  rw [pure_eq_ok] at h
  subst h
  exact ⟨rfl, Int.natCast_nonneg _, Nat.zero_le _, fun key entry hget => by cases hget⟩

theorem Invariant.put (h : Invariant numberText buffer) (result : ExecutionResult) :
    Invariant numberText (put numberText buffer result).2 := by
  rcases put_cases numberText buffer result with ⟨existing, -, hput⟩ | ⟨-, -, hput⟩ |
    ⟨hnone, hcount, hbytes, hput⟩
  · split at hput
    · rw [hput]
      exact h
    · rw [hput]
      exact h
  · rw [hput]
    exact h
  · rw [hput]
    have htotal := buffer.entries.total_set (fun entry => entry.bytes) result.key
      ⟨cloneJson result.json, jsonBytes numberText result.json⟩
    rw [hnone, elim_none, Nat.add_zero] at htotal
    have hsize := buffer.entries.size_set_le result.key
      ⟨cloneJson result.json, jsonBytes numberText result.json⟩
    refine ⟨?_, hbytes, ?_, ?_⟩
    · have hcounted := h.bytes_eq
      rw [htotal, Int.natCast_add, hcounted]
    · show (JsMap.set _ _ _).size ≤ buffer.maxCount
      omega
    · intro key entry hget
      rw [JsMap.get_set] at hget
      by_cases hkey : key = result.key
      · rw [if_pos hkey] at hget
        exact ⟨result, hkey.symm, (some.inj hget).symm⟩
      · rw [if_neg hkey] at hget
        exact h.snapshot key entry hget

theorem Invariant.acknowledge (h : Invariant numberText buffer) (taskId attemptId : PortableId) :
    Invariant numberText (buffer.acknowledge taskId attemptId) := by
  cases hget : buffer.entries.get (attemptKey taskId attemptId) with
  | none =>
    simp only [ResultBuffer.acknowledge, hget]
    exact h
  | some entry =>
    simp only [ResultBuffer.acknowledge, hget]
    have htotal := buffer.entries.total_delete (fun entry => entry.bytes)
      (attemptKey taskId attemptId)
    rw [hget, elim_some] at htotal
    have hcounted := h.bytes_eq
    have hle := h.bytes_le
    refine ⟨?_, ?_, Nat.le_trans (JsMap.size_filter_le _) h.size_le, ?_⟩
    · show buffer.bytes - entry.bytes = ((buffer.entries.delete _).total _ : Nat)
      omega
    · show buffer.bytes - entry.bytes ≤ buffer.maxBytes
      omega
    · intro key other hother
      rw [JsMap.get_delete] at hother
      by_cases hkey : key = attemptKey taskId attemptId
      · rw [if_pos hkey] at hother
        cases hother
      · rw [if_neg hkey] at hother
        exact h.snapshot key other hother

theorem Invariant.run (h : Invariant numberText buffer) (calls : List Call) :
    Invariant numberText (run numberText buffer calls) := by
  induction calls generalizing buffer with
  | nil => exact h
  | cons call calls ih =>
    refine @ih (apply numberText buffer call) ?_
    cases call with
    | put result => exact h.put result
    | acknowledge taskId attemptId => exact h.acknowledge taskId attemptId

theorem Invariant.get_eq_some (h : Invariant numberText buffer) {taskId attemptId : PortableId}
    {value : JsonValue} (hget : buffer.get taskId attemptId = some value) :
    ∃ result : ExecutionResult, result.taskId = taskId ∧ result.attemptId = attemptId ∧
      value = cloneJson result.json ∧
      buffer.entries.get (attemptKey taskId attemptId) =
        some ⟨cloneJson result.json, jsonBytes numberText result.json⟩ := by
  obtain ⟨entry, hentry, rfl⟩ := map_eq_some_iff.mp hget
  obtain ⟨result, hkey, rfl⟩ := h.snapshot _ _ hentry
  obtain ⟨htask, hattempt⟩ := attemptKey_injective hkey
  exact ⟨result, htask, hattempt, cloneJson_cloneJson _ result.distinct_json, hentry⟩

theorem Invariant.bytes_list (h : Invariant numberText buffer) :
    buffer.bytes = ((buffer.list.map (jsonBytes numberText)).sum : Nat) := by
  rw [h.bytes_eq, JsMap.total, ResultBuffer.list, List.map_map]
  congr 2
  apply List.map_congr_left
  rintro ⟨key, entry⟩ hentry
  obtain ⟨result, -, rfl⟩ := h.snapshot key entry (JsMap.get_eq_some_iff.mpr hentry)
  show jsonBytes numberText result.json = jsonBytes numberText (cloneJson (cloneJson result.json))
  rw [jsonBytes_cloneJson, jsonBytes_cloneJson]

end Runs

/-! ## Putting a result once more -/

section Again

variable (numberText : NumberText) (buffer : ResultBuffer) (result : ExecutionResult)

/-- The result held for the attempt may be put again, and no other one. -/
structure PutRight : Prop where
  same : ∀ stored, buffer.get result.taskId result.attemptId = some stored →
    SameValue result.json stored → put numberText buffer result = (.ok (), buffer)
  different : ∀ stored, buffer.get result.taskId result.attemptId = some stored →
    ¬SameValue result.json stored →
      put numberText buffer result = (.error (conflict result), buffer)

/-- The counter is the length of what is kept, and the limits hold. -/
structure Accounted : Prop where
  bytes_eq : buffer.bytes = ((buffer.list.map (jsonBytes numberText)).sum : Nat)
  bytes_le : buffer.bytes ≤ buffer.maxBytes
  count_le : buffer.count ≤ buffer.maxCount

/-- An equal result is held already only if the keys stand in the order of the copy. -/
def InOrderIfHeld : Prop :=
  ∀ stored, buffer.get result.taskId result.attemptId = some stored →
    SameValue result.json stored → cloneJson result.json = result.json

variable {numberText buffer result}

theorem put_held (hprints : PrintsApart numberText) (h : Invariant numberText buffer)
    {stored : JsonValue} (hget : buffer.get result.taskId result.attemptId = some stored) :
    (stored = result.json → put numberText buffer result = (.ok (), buffer)) ∧
      (stored ≠ result.json →
        put numberText buffer result = (.error (conflict result), buffer)) := by
  obtain ⟨first, -, -, rfl, hentry⟩ := h.get_eq_some hget
  rcases put_cases numberText buffer result with ⟨existing, hexisting, hput⟩ | ⟨hnone, -⟩ |
    ⟨hnone, -⟩
  · obtain rfl := some.inj (hentry.symm.trans hexisting)
    constructor
    · intro heq
      rwa [if_pos (by rw [heq])] at hput
    · intro hne
      rwa [if_neg fun htext => hne (stringify_injective hprints _ _ htext)] at hput
  · exact absurd (hentry.symm.trans hnone) (some_ne_none _)
  · exact absurd (hentry.symm.trans hnone) (some_ne_none _)

theorem Invariant.sameValue_iff (h : Invariant numberText buffer) {stored : JsonValue}
    (hget : buffer.get result.taskId result.attemptId = some stored) :
    SameValue result.json stored ↔ cloneJson result.json = stored := by
  obtain ⟨first, -, -, rfl, -⟩ := h.get_eq_some hget
  exact sameValue_cloneJson_iff result.distinct_json first.distinct_json

/-- **The buffer accounts for what it keeps, and takes the result held for an attempt, and no
other one, exactly where that comes with its keys in order.** -/
theorem accounted_and_putRight_iff (numberText : NumberText) (hprints : PrintsApart numberText)
    (options : ResultBufferOptions) (new : ResultBuffer) (hnew : create options = .ok new)
    (calls : List Call) :
    Accounted numberText (run numberText new calls) ∧
      ∀ result, PutRight numberText (run numberText new calls) result ↔
        InOrderIfHeld (run numberText new calls) result := by
  have hinvariant : Invariant numberText (run numberText new calls) :=
    (invariant_create hnew).run calls
  refine ⟨⟨hinvariant.bytes_list, hinvariant.bytes_le, hinvariant.size_le⟩, fun result => ?_⟩
  constructor
  · intro hright stored hget hsame
    have hclone := (hinvariant.sameValue_iff hget).mp hsame
    by_contra hne
    have hput := (put_held hprints hinvariant hget).2 fun heq => hne (hclone.trans heq)
    rw [hright.same stored hget hsame] at hput
    cases hput
  · intro horder
    constructor
    · intro stored hget hsame
      have hclone := (hinvariant.sameValue_iff hget).mp hsame
      apply (put_held hprints hinvariant hget).1
      rw [← hclone, horder stored hget hsame]
    · intro stored hget hdifferent
      apply (put_held hprints hinvariant hget).2
      rintro rfl
      -- what is held is a copy, and so it would be its own
      obtain ⟨first, -, -, hcopy, -⟩ := hinvariant.get_eq_some hget
      refine hdifferent ((hinvariant.sameValue_iff hget).mpr ?_)
      rw [hcopy, cloneJson_cloneJson _ first.distinct_json]

end Again

theorem all_isNumberUnit_decimal (n : Nat) : (decimal n).all isNumberUnit = true := by
  rw [List.all_eq_true]
  intro u hu
  rw [isNumberUnit, isDigit_of_mem_decimal hu]
  rfl

/-- Natural numbers are printed in decimal, and others by a number that is theirs. -/
def naturalText (q : Rat) : { s : JsString // s.all isNumberUnit = true } :=
  if q.den = 1 ∧ 0 ≤ q.num then ⟨decimal q.num.toNat, all_isNumberUnit_decimal _⟩
  else ⟨45 :: decimal (Encodable.encode q), by
    rw [List.all_cons, all_isNumberUnit_decimal]
    rfl⟩

theorem naturalText_printsApart : PrintsApart naturalText where
  injective p q h := by
    have hdash : ∀ m n : Nat, decimal m ≠ 45 :: decimal n := fun m n heq => by
      have hunit := isDigit_of_mem_decimal (heq ▸ List.mem_cons_self)
      revert hunit
      decide
    unfold naturalText at h
    split at h
    · next hp =>
      split at h
      · next hq =>
        have hnum := decimal_injective h
        exact Rat.ext (by omega) (hp.1.trans hq.1.symm)
      · exact absurd h (hdash _ _)
    · split at h
      · exact absurd h.symm (hdash _ _)
      · exact Encodable.encode_injective (decimal_injective (List.cons.inj h).2)
  nonempty q := by
    unfold naturalText
    split
    · exact decimal_ne_nil _
    · exact List.cons_ne_nil _ _

def schemaOrdered : ExecutionResult where
  fields := [(js "taskId", .string (js "t")), (js "attemptId", .string (js "a")),
    (js "status", .string (js "succeeded")),
    (js "executor", .object [(js "kind", .string (js "remote"))]),
    (js "startedAt", .string (js "2026-01-01T00:00:00.000Z")),
    (js "completedAt", .string (js "2026-01-01T00:00:01.000Z"))]
  taskId := ⟨js "t", portable_t⟩
  attemptId := ⟨js "a", portable_a⟩
  completedAt := js "2026-01-01T00:00:01.000Z"
  distinct := by
    refine ⟨by decide, ?_⟩
    simp [DistinctFields, DistinctKeys]
  lookup_taskId := rfl
  lookup_attemptId := rfl
  lookup_completedAt := rfl

def copyOrdered : ExecutionResult where
  fields := [(js "attemptId", .string (js "a")),
    (js "completedAt", .string (js "2026-01-01T00:00:01.000Z")),
    (js "executor", .object [(js "kind", .string (js "remote"))]),
    (js "startedAt", .string (js "2026-01-01T00:00:00.000Z")),
    (js "status", .string (js "succeeded")), (js "taskId", .string (js "t"))]
  taskId := ⟨js "t", portable_t⟩
  attemptId := ⟨js "a", portable_a⟩
  completedAt := js "2026-01-01T00:00:01.000Z"
  distinct := by
    refine ⟨by decide, ?_⟩
    simp [DistinctFields, DistinctKeys]
  lookup_taskId := rfl
  lookup_attemptId := rfl
  lookup_completedAt := rfl

theorem cloneJson_schemaOrdered : cloneJson schemaOrdered.json = copyOrdered.json := by rfl

theorem copyOrdered_ne : copyOrdered.json ≠ schemaOrdered.json := by
  rw [ExecutionResult.json, ExecutionResult.json, Ne, JsonValue.object.injEq, copyOrdered,
    schemaOrdered, List.cons.injEq, Prod.mk.injEq]
  exact fun h => absurd h.1.1 (by decide)

/-- A buffer with the limits of the source. -/
def defaultBuffer : ResultBuffer := ⟨256, 1048576, .empty, 0⟩

theorem create_defaultBuffer : create ⟨none, none⟩ = .ok defaultBuffer := rfl

theorem jsonBytes_schemaOrdered : jsonBytes naturalText schemaOrdered.json ≤ 1048576 := by
  decide +kernel

theorem get_schemaOrdered : (run naturalText defaultBuffer [.put schemaOrdered]).get
    schemaOrdered.taskId schemaOrdered.attemptId = some copyOrdered.json := by
  rcases put_cases naturalText defaultBuffer schemaOrdered with ⟨existing, hget, -⟩ | ⟨-, hfull, -⟩ |
    ⟨-, -, -, hput⟩
  · cases hget
  · have hbytes := jsonBytes_schemaOrdered
    rcases hfull with hcount | hlong
    · exact absurd hcount (by decide)
    · change (1048576 : Int) < 0 + _ at hlong
      omega
  · show ResultBuffer.get (put naturalText defaultBuffer schemaOrdered).2 _ _ = _
    rw [hput, ResultBuffer.get, JsMap.get_set, ExecutionResult.key, if_pos rfl]
    rfl

theorem sameValue_schemaOrdered : SameValue schemaOrdered.json copyOrdered.json := by
  rw [← cloneJson_eq_iff _ _ schemaOrdered.distinct_json copyOrdered.distinct_json]
  rfl

/-- The result may be put again in the order of the copy, and not in its own. -/
theorem accounted_and_putRight_iff_again :
    let buffer := run naturalText defaultBuffer [.put schemaOrdered]
    Accounted naturalText buffer ∧ PutRight naturalText buffer copyOrdered ∧
      ¬PutRight naturalText buffer schemaOrdered := by
  obtain ⟨haccounted, hiff⟩ := accounted_and_putRight_iff naturalText naturalText_printsApart
    ⟨none, none⟩ defaultBuffer create_defaultBuffer [.put schemaOrdered]
  refine ⟨haccounted, (hiff copyOrdered).mpr fun _ _ _ => rfl, fun hright => ?_⟩
  have horder := (hiff schemaOrdered).mp hright _ get_schemaOrdered sameValue_schemaOrdered
  rw [cloneJson_schemaOrdered] at horder
  exact copyOrdered_ne horder

/-- **A result that is put twice conflicts with itself.** -/
theorem put_again_conflicts :
    let buffer := run naturalText defaultBuffer [.put schemaOrdered]
    buffer.get schemaOrdered.taskId schemaOrdered.attemptId = some copyOrdered.json ∧
      SameValue schemaOrdered.json copyOrdered.json ∧
      put naturalText buffer schemaOrdered = (.error (conflict schemaOrdered), buffer) :=
  ⟨get_schemaOrdered, sameValue_schemaOrdered,
    (put_held naturalText_printsApart ((invariant_create create_defaultBuffer).run _)
      get_schemaOrdered).2 copyOrdered_ne⟩

end ResultBuffer

end TegoNext
