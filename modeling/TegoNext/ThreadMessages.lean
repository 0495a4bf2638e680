/-
What the two ends of a thread channel accept.

Both ends walk a message with a stack of what is still to be seen: no object may be met twice, and
the nodes, the depth and the bytes are limited. The main thread adds the keys of objects to the
bytes, the worker thread does not. A message is a value in a heap of objects; posting it makes a
copy of the same shape.
-/
import TegoNext.JsonNormalForm

set_option autoImplicit false

namespace TegoNext

open Text JsonNormalForm Option

/-- A value of a message; objects stand in the heap. -/
inductive ThreadValue where
  | string (s : JsString)
  | number (q : Rat)
  | bool (b : Bool)
  | null
  /-- An `ArrayBuffer`. -/
  | buffer (byteLength : Nat)
  | reference (id : Nat)
  /-- `undefined`, functions, symbols, big integers. -/
  | unsupported

inductive ThreadObject where
  | array (items : List ThreadValue)
  /-- `plain` when its prototype is `Object.prototype` or null. -/
  | record (plain : Bool) (fields : List (JsString × ThreadValue))

abbrev ThreadHeap : Type := List ThreadObject

namespace ThreadObject

def values : ThreadObject → List ThreadValue
  | .array items => items
  | .record _ fields => fields.map (·.2)

def keyBytes : ThreadObject → Nat
  | .array _ => 0
  | .record _ fields => (fields.map fun field => byteLength field.1).sum

def isPlain : ThreadObject → Bool
  | .array _ => true
  | .record plain _ => plain

end ThreadObject

def ThreadValue.leafBytes : ThreadValue → Option Nat
  | .string s => some (byteLength s)
  | .number _ | .bool _ | .null => some 8
  | .buffer n => some n
  | .reference _ | .unsupported => none

/-- What the two copies of the check differ in: whether keys count, whether objects have to be
plain, and the errors. -/
structure MessageCheck (ε : Type) where
  maxBytes : Nat
  maxDepth : Nat
  maxNodes : Nat
  countsKeys : Bool
  onlyPlain : Bool
  complexity : ε
  cycle : ε
  unsupportedObject : ε
  unsupportedValue : ε
  oversized : ε

namespace MessageCheck

variable {ε : Type} (c : MessageCheck ε) (heap : ThreadHeap)

def counted (keyBytes : Nat) : Nat := if c.countsKeys then keyBytes else 0

/-- One value: the bytes it adds, what it holds, and the objects seen after it. -/
def visit (seen : List Nat) (value : ThreadValue) : Except ε (Nat × List ThreadValue × List Nat) :=
  match value.leafBytes, value with
  | some bytes, _ => .ok (bytes, [], seen)
  | none, .reference id =>
    if id ∈ seen then .error c.cycle
    else
      match heap[id]? with
      | some object =>
        if c.onlyPlain && !object.isPlain then .error c.unsupportedObject
        else .ok (c.counted object.keyBytes, object.values, id :: seen)
      | none => .error c.unsupportedValue
  | none, _ => .error c.unsupportedValue

/-- The loop, with the number of nodes that may still be visited; the next value to pop comes
first. The result is the bytes, and the nodes that were left. -/
def walk : (left : Nat) → List (ThreadValue × Nat) → List Nat → Nat → Except ε (Nat × Nat)
  | left, [], _, bytes => .ok (bytes, left)
  | 0, _ :: _, _, _ => .error c.complexity
  | left + 1, (value, depth) :: pending, seen, bytes =>
    if c.maxDepth < depth then .error c.complexity
    else
      match c.visit heap seen value with
      | .error e => .error e
      | .ok (added, values, seen) =>
        if c.maxBytes < bytes + added then .error c.oversized
        else walk left ((values.map fun child => (child, depth + 1)).reverse ++ pending) seen
          (bytes + added)

/-- The bytes and the nodes of a message. -/
def validate (value : ThreadValue) : Except ε (Nat × Nat) :=
  (c.walk heap c.maxNodes [(value, 0)] [] 0).map fun result => (result.1, c.maxNodes - result.2)

def accepts (value : ThreadValue) : Bool := (c.validate heap value).toBool

end MessageCheck

/-- `validateMessage` of the worker thread; its errors are texts. -/
def validateMessage : MessageCheck String where
  maxBytes := 1024 * 1024
  maxDepth := 64
  maxNodes := 100000
  countsKeys := false
  onlyPlain := false
  complexity := "Thread message exceeds the configured complexity limit"
  cycle := "Thread message must not contain cycles"
  unsupportedObject := "Thread message contains an unsupported value"
  unsupportedValue := "Thread message contains an unsupported value"
  oversized := "Thread message exceeds the configured wire limit"

/-- `validateThreadMessage` of the main thread; its errors are diagnostics. -/
def validateThreadMessage (oversizedCode : String) : MessageCheck (String × String) where
  maxBytes := 1024 * 1024
  maxDepth := 64
  maxNodes := 100000
  countsKeys := true
  onlyPlain := true
  complexity := ("PROTOCOL_THREAD_MESSAGE_COMPLEXITY_EXCEEDED",
    "Thread message exceeds the configured depth or node limit")
  cycle := ("PROTOCOL_THREAD_MESSAGE_INVALID", "Thread message contains a cycle")
  unsupportedObject :=
    ("PROTOCOL_THREAD_MESSAGE_INVALID", "Thread message contains an unsupported object")
  unsupportedValue :=
    ("PROTOCOL_THREAD_MESSAGE_INVALID", "Thread message contains an unsupported value")
  oversized := (oversizedCode, "Thread message exceeds the configured wire limit")

/-! ## What a message holds -/

namespace ThreadHeap

/-- The bytes of the leaves and those of the keys of everything a row of values holds. -/
inductive Holds (heap : ThreadHeap) : List ThreadValue → Nat → Nat → Prop
  | nil : Holds heap [] 0 0
  | leaf {value : ThreadValue} {values : List ThreadValue} {n leaves keys : Nat}
      (hleaf : value.leafBytes = some n) (h : Holds heap values leaves keys) :
      Holds heap (value :: values) (n + leaves) keys
  | reference {id : Nat} {object : ThreadObject} {values : List ThreadValue} {leaves keys : Nat}
      (hobject : heap[id]? = some object)
      (h : Holds heap (object.values.reverse ++ values) leaves keys) :
      Holds heap (.reference id :: values) leaves (object.keyBytes + keys)

/-- No object is met twice, and the limits for nodes and depth are kept. -/
def wellShaped (heap : ThreadHeap) (maxDepth : Nat) :
    (left : Nat) → List (ThreadValue × Nat) → List Nat → Bool
  | _, [], _ => true
  | 0, _ :: _, _ => false
  | left + 1, (value, depth) :: pending, seen =>
    decide (depth ≤ maxDepth) &&
      match value with
      | .reference id =>
        let values := (heap[id]?.map ThreadObject.values).getD []
        id ∉ seen && wellShaped heap maxDepth left
          ((values.map fun child => (child, depth + 1)).reverse ++ pending) (id :: seen)
      | _ => wellShaped heap maxDepth left pending seen

variable {heap : ThreadHeap} {value : ThreadValue} {values : List ThreadValue} {leaves keys : Nat}

theorem wellShaped_leaf {n maxDepth left depth : Nat} {pending : List (ThreadValue × Nat)}
    {seen : List Nat} (hleaf : value.leafBytes = some n) :
    wellShaped heap maxDepth (left + 1) ((value, depth) :: pending) seen =
      (decide (depth ≤ maxDepth) && wellShaped heap maxDepth left pending seen) := by
  cases value with
  | reference id => cases hleaf
  | _ => rfl

theorem holds_leaf_iff {n : Nat} (hleaf : value.leafBytes = some n) :
    Holds heap (value :: values) leaves keys ↔
      ∃ rest, leaves = n + rest ∧ Holds heap values rest keys := by
  constructor
  · intro h
    cases h with
    | leaf hother h =>
      rw [hleaf] at hother
      obtain rfl := some.inj hother
      exact ⟨_, rfl, h⟩
    | reference => cases hleaf
  · rintro ⟨rest, rfl, h⟩
    exact .leaf hleaf h

theorem holds_reference_iff {id : Nat} :
    Holds heap (.reference id :: values) leaves keys ↔
      ∃ object rest, heap[id]? = some object ∧ keys = object.keyBytes + rest ∧
        Holds heap (object.values.reverse ++ values) leaves rest := by
  constructor
  · intro h
    cases h with
    | leaf hleaf => cases hleaf
    | reference hobject h => exact ⟨_, _, hobject, rfl, h⟩
  · rintro ⟨object, rest, hobject, rfl, h⟩
    exact .reference hobject h

end ThreadHeap

open ThreadHeap

/-! ## One copy of the check -/

namespace MessageCheck

variable {ε : Type} {c : MessageCheck ε} {heap : ThreadHeap}

/-- The bytes that count. -/
def total (c : MessageCheck ε) (leaves keys : Nat) : Nat := leaves + c.counted keys

theorem counted_add (m n : Nat) : c.counted (m + n) = c.counted m + c.counted n := by
  unfold counted
  split <;> rfl

variable {left depth bytes : Nat} {value : ThreadValue} {pending : List (ThreadValue × Nat)}
  {seen : List Nat}

theorem walk_cons {added : Nat} {values : List ThreadValue} {seen' : List Nat}
    (hvisit : c.visit heap seen value = .ok (added, values, seen')) :
    (c.walk heap (left + 1) ((value, depth) :: pending) seen bytes).toBool = true ↔
      depth ≤ c.maxDepth ∧ bytes + added ≤ c.maxBytes ∧
        (c.walk heap left ((values.map fun child => (child, depth + 1)).reverse ++ pending) seen'
          (bytes + added)).toBool = true := by
  rw [walk, hvisit]
  by_cases hdepth : c.maxDepth < depth
  · rw [if_pos hdepth]
    exact ⟨nofun, fun h => absurd h.1 (Nat.not_le.mpr hdepth)⟩
  rw [if_neg hdepth]
  dsimp only
  by_cases hbytes : c.maxBytes < bytes + added
  · rw [if_pos hbytes]
    exact ⟨nofun, fun h => absurd h.2.1 (Nat.not_le.mpr hbytes)⟩
  · rw [if_neg hbytes]
    exact ⟨fun h => ⟨Nat.not_lt.mp hdepth, Nat.not_lt.mp hbytes, h⟩, fun h => h.2.2⟩

theorem walk_cons_error {e : ε} (hvisit : c.visit heap seen value = .error e) :
    (c.walk heap (left + 1) ((value, depth) :: pending) seen bytes).toBool = false := by
  rw [walk, hvisit]
  split <;> rfl

theorem visit_leaf {n : Nat} (hleaf : value.leafBytes = some n) :
    c.visit heap seen value = .ok (n, [], seen) := by
  cases value with
  | reference id | unsupported => cases hleaf
  | _ =>
    obtain rfl := some.inj hleaf
    rfl

theorem visit_reference (id : Nat) : c.visit heap seen (.reference id) =
    if id ∈ seen then .error c.cycle
    else
      match heap[id]? with
      | some object =>
        if c.onlyPlain && !object.isPlain then .error c.unsupportedObject
        else .ok (c.counted object.keyBytes, object.values, id :: seen)
      | none => .error c.unsupportedValue := rfl

theorem map_fst_children (values : List ThreadValue) :
    ((values.map fun child => (child, depth + 1)).reverse ++ pending).map (·.1) =
      values.reverse ++ pending.map (·.1) := by
  rw [List.map_append, List.map_reverse, List.map_map]
  congr 2
  exact List.map_id _

/-- **What the loop accepts**: a stack of the right shape, the bytes of which fit. -/
theorem walk_iff (hplain : ∀ object ∈ heap, object.isPlain = true) (left : Nat) :
    ∀ (pending : List (ThreadValue × Nat)) (seen : List Nat) (bytes : Nat), bytes ≤ c.maxBytes →
      ((c.walk heap left pending seen bytes).toBool = true ↔
        wellShaped heap c.maxDepth left pending seen = true ∧
          ∃ leaves keys, Holds heap (pending.map (·.1)) leaves keys ∧
            bytes + c.total leaves keys ≤ c.maxBytes) := by
  have hempty : ∀ {left seen bytes}, bytes ≤ c.maxBytes →
      ((c.walk heap left [] seen bytes).toBool = true ↔
        wellShaped heap c.maxDepth left [] seen = true ∧
          ∃ leaves keys, Holds heap [] leaves keys ∧ bytes + c.total leaves keys ≤ c.maxBytes) := by
    intro left seen bytes hbytes
    rw [walk, wellShaped]
    refine ⟨fun _ => ⟨rfl, 0, 0, .nil, ?_⟩, fun _ => rfl⟩
    rw [total, counted, ite_self]
    exact hbytes
  induction left with
  | zero =>
    intro pending seen bytes hbytes
    cases pending with
    | nil => exact hempty hbytes
    | cons item pending => exact ⟨nofun, fun h => nomatch h.1⟩
  | succ left ih =>
    intro pending seen bytes hbytes
    cases pending with
    | nil => exact hempty hbytes
    | cons item pending =>
      obtain ⟨value, depth⟩ := item
      rw [List.map_cons]
      cases hleaf : value.leafBytes with
      | some n =>
        rw [walk_cons (visit_leaf hleaf), wellShaped_leaf hleaf, Bool.and_eq_true,
          decide_eq_true_eq]
        constructor
        · rintro ⟨hdepth, hfits, hwalk⟩
          obtain ⟨hshape, leaves, keys, hholds, hsum⟩ := (ih _ _ _ hfits).mp hwalk
          refine ⟨⟨hdepth, hshape⟩, n + leaves, keys, .leaf hleaf hholds, ?_⟩
          rw [total] at hsum ⊢
          omega
        · rintro ⟨⟨hdepth, hshape⟩, leaves, keys, hholds, hsum⟩
          obtain ⟨rest, rfl, hrest⟩ := (holds_leaf_iff hleaf).mp hholds
          rw [total] at hsum
          have hfits : bytes + n ≤ c.maxBytes := by omega
          refine ⟨hdepth, hfits, (ih _ _ _ hfits).mpr ⟨hshape, rest, keys, hrest, ?_⟩⟩
          rw [total]
          omega
      | none =>
        cases value with
        | reference id =>
          rw [wellShaped, Bool.and_eq_true, Bool.and_eq_true, decide_eq_true_eq, decide_eq_true_eq]
          by_cases hseen : id ∈ seen
          · have hvisit : c.visit heap seen (.reference id) = .error c.cycle := if_pos hseen
            rw [walk_cons_error hvisit]
            exact ⟨nofun, fun h => absurd hseen h.1.2.1⟩
          cases hobject : heap[id]? with
          | none =>
            have hvisit : c.visit heap seen (.reference id) = .error c.unsupportedValue := by
              rw [visit_reference, if_neg hseen, hobject]
            rw [walk_cons_error hvisit]
            refine ⟨nofun, fun ⟨_, leaves, keys, hholds, _⟩ => ?_⟩
            obtain ⟨object, rest, hother, -⟩ := holds_reference_iff.mp hholds
            rw [hobject] at hother
            cases hother
          | some object =>
            have hvisit : c.visit heap seen (.reference id) =
                .ok (c.counted object.keyBytes, object.values, id :: seen) := by
              rw [visit_reference, if_neg hseen, hobject]
              dsimp only
              rw [hplain object (List.mem_of_getElem? hobject), Bool.not_true, Bool.and_false]
              rfl
            rw [walk_cons hvisit, map_some, getD_some]
            constructor
            · rintro ⟨hdepth, hfits, hwalk⟩
              obtain ⟨hshape, leaves, keys, hholds, hsum⟩ := (ih _ _ _ hfits).mp hwalk
              rw [map_fst_children] at hholds
              refine ⟨⟨hdepth, hseen, hshape⟩, leaves, object.keyBytes + keys,
                .reference hobject hholds, ?_⟩
              rw [total] at hsum ⊢
              rw [counted_add]
              omega
            · rintro ⟨⟨hdepth, -, hshape⟩, leaves, keys, hholds, hsum⟩
              obtain ⟨other, rest, hother, rfl, hrest⟩ := holds_reference_iff.mp hholds
              rw [hobject] at hother
              obtain rfl := some.inj hother
              rw [total, counted_add] at hsum
              have hfits : bytes + c.counted object.keyBytes ≤ c.maxBytes := by omega
              refine ⟨hdepth, hfits, (ih _ _ _ hfits).mpr ⟨hshape, leaves, rest, ?_, ?_⟩⟩
              · rw [map_fst_children]
                exact hrest
              · rw [total]
                omega
        | unsupported =>
          rw [walk_cons_error (e := c.unsupportedValue) rfl]
          refine ⟨nofun, fun ⟨_, leaves, keys, hholds, _⟩ => ?_⟩
          cases hholds with
          | leaf hother => cases hother
        | _ => cases hleaf

theorem accepts_iff (hplain : ∀ object ∈ heap, object.isPlain = true) (value : ThreadValue) :
    c.accepts heap value = true ↔
      wellShaped heap c.maxDepth c.maxNodes [(value, 0)] [] = true ∧
        ∃ leaves keys, Holds heap [value] leaves keys ∧ c.total leaves keys ≤ c.maxBytes := by
  have hwalk := walk_iff (c := c) hplain c.maxNodes [(value, 0)] [] 0 (Nat.zero_le _)
  rw [List.map_singleton] at hwalk
  simp only [Nat.zero_add] at hwalk
  rw [← hwalk, accepts, validate]
  cases c.walk heap c.maxNodes [(value, 0)] [] 0 with
  | ok result | error e => exact Iff.rfl

end MessageCheck

open MessageCheck

variable {heap : ThreadHeap}

/-! ## The two copies -/

/-- A message one end sends is accepted by the other, both ways. -/
def ChecksAgree (heap : ThreadHeap) (value : ThreadValue) : Prop :=
  (validateMessage.accepts heap value = true →
      (validateThreadMessage "EXECUTOR_OUTPUT_LIMIT_EXCEEDED").accepts heap value = true) ∧
    ((validateThreadMessage "EXECUTOR_INPUT_LIMIT_EXCEEDED").accepts heap value = true →
      validateMessage.accepts heap value = true)

/-- Only the keys take the message over the limit. -/
def KeysExceed (heap : ThreadHeap) (value : ThreadValue) : Prop :=
  wellShaped heap 64 100000 [(value, 0)] [] = true ∧
    ∃ leaves keys, Holds heap [value] leaves keys ∧ leaves ≤ 1024 * 1024 ∧
      1024 * 1024 < leaves + keys

theorem ThreadHeap.Holds.unique {values : List ThreadValue} {leaves keys leaves' keys' : Nat}
    (h : Holds heap values leaves keys) (h' : Holds heap values leaves' keys') :
    leaves = leaves' ∧ keys = keys' := by
  induction h generalizing leaves' keys' with
  | nil =>
    cases h'
    exact ⟨rfl, rfl⟩
  | leaf hleaf _ ih =>
    obtain ⟨rest, rfl, hrest⟩ := (holds_leaf_iff hleaf).mp h'
    obtain ⟨rfl, rfl⟩ := ih hrest
    exact ⟨rfl, rfl⟩
  | reference hobject _ ih =>
    obtain ⟨object, rest, hother, rfl, hrest⟩ := holds_reference_iff.mp h'
    rw [hobject] at hother
    obtain rfl := some.inj hother
    obtain ⟨rfl, rfl⟩ := ih hrest
    exact ⟨rfl, rfl⟩

theorem worker_accepts_iff (hplain : ∀ object ∈ heap, object.isPlain = true)
    (value : ThreadValue) : validateMessage.accepts heap value = true ↔
      wellShaped heap 64 100000 [(value, 0)] [] = true ∧
        ∃ leaves keys, Holds heap [value] leaves keys ∧ leaves ≤ 1024 * 1024 :=
  accepts_iff hplain value

theorem main_accepts_iff (hplain : ∀ object ∈ heap, object.isPlain = true) (code : String)
    (value : ThreadValue) : (validateThreadMessage code).accepts heap value = true ↔
      wellShaped heap 64 100000 [(value, 0)] [] = true ∧
        ∃ leaves keys, Holds heap [value] leaves keys ∧ leaves + keys ≤ 1024 * 1024 :=
  accepts_iff hplain value

/-- **When the two ends agree.** What the main thread sends is always accepted; what the worker
sends is accepted unless it is its keys that exceed the limit. -/
theorem checks_agree_iff (hplain : ∀ object ∈ heap, object.isPlain = true) (value : ThreadValue) :
    ChecksAgree heap value ↔ ¬ KeysExceed heap value := by
  unfold ChecksAgree KeysExceed
  rw [worker_accepts_iff hplain, main_accepts_iff hplain, main_accepts_iff hplain]
  constructor
  · rintro ⟨hagree, -⟩ ⟨hshape, leaves, keys, hholds, hfits, hexceeds⟩
    obtain ⟨-, leaves', keys', hholds', hfits'⟩ := hagree ⟨hshape, leaves, keys, hholds, hfits⟩
    obtain ⟨rfl, rfl⟩ := hholds.unique hholds'
    omega
  · intro hkeys
    constructor
    · rintro ⟨hshape, leaves, keys, hholds, hfits⟩
      refine ⟨hshape, leaves, keys, hholds, ?_⟩
      by_contra hexceeds
      exact hkeys ⟨hshape, leaves, keys, hholds, hfits, Nat.lt_of_not_le hexceeds⟩
    · rintro ⟨hshape, leaves, keys, hholds, hfits⟩
      exact ⟨hshape, leaves, keys, hholds, by omega⟩

/-! ## A message of keys -/

/-- A message that holds an array buffer under a key of four bytes. -/
def keyedBuffer (byteLength : Nat) : ThreadHeap := [.record true [(js "data", .buffer byteLength)]]

theorem checks_agree_keyedBuffer : ChecksAgree (keyedBuffer 16) (.reference 0) := by
  have hplain : ∀ object ∈ keyedBuffer 16, object.isPlain = true := by decide
  refine (checks_agree_iff hplain _).mpr fun ⟨_, leaves, keys, hholds, _, hexceeds⟩ => ?_
  have hall : Holds (keyedBuffer 16) [.reference 0] (16 + 0)
      (ThreadObject.keyBytes (.record true [(js "data", .buffer 16)]) + 0) :=
    .reference rfl (.leaf rfl .nil)
  obtain ⟨rfl, rfl⟩ := hholds.unique hall
  revert hexceeds
  decide

/-- **A message the worker sends closes the channel.** -/
theorem keyedBuffer_not_received : ¬ ChecksAgree (keyedBuffer (1024 * 1024)) (.reference 0) := by
  intro h
  have hreceived := h.1 (by decide +kernel)
  revert hreceived
  decide +kernel

end TegoNext
