/-
Canonical JSON texts, and why they can be read back.

`canonical` writes a JSON value with the keys of its objects in order. A canonical text is
*neutral*: a scanner that counts brackets and skips strings comes out of it in the state in which
it went in. So two texts can be compared member by member (`Neutral.append_inj`). Of the printed
numbers all that is used is that they have no bracket, comma, colon or quote.
-/
import TegoNext.Identity

set_option autoImplicit false

namespace TegoNext

open Text List

inductive JsonValue where
  | null
  | bool (b : Bool)
  | number (q : Rat)
  | string (s : JsString)
  | array (items : List JsonValue)
  | object (fields : List (JsString × JsonValue))

@[elab_as_elim]
theorem JsonValue.induction {motive : JsonValue → Prop} (null : motive .null)
    (bool : ∀ b, motive (.bool b)) (number : ∀ q, motive (.number q))
    (string : ∀ s, motive (.string s))
    (array : ∀ items, (∀ item ∈ items, motive item) → motive (.array items))
    (object : ∀ fields, (∀ field ∈ fields, motive field.2) → motive (.object fields))
    (value : JsonValue) : motive value :=
  @JsonValue.rec motive (fun items => ∀ item ∈ items, motive item)
    (fun fields => ∀ field ∈ fields, motive field.2) (fun field => motive field.2)
    null bool number string array object (fun _ h => nomatch h)
    (fun _ _ hitem hitems => forall_mem_cons.mpr ⟨hitem, hitems⟩) (fun _ h => nomatch h)
    (fun _ _ hfield hfields => forall_mem_cons.mpr ⟨hfield, hfields⟩) (fun _ _ h => h) value

namespace CanonicalJson

/-- The units JavaScript prints numbers with. -/
def isNumberUnit (u : UInt16) : Bool :=
  isDigit u || u == 43 || u == 45 || u == 46 || u == 69 || u == 101

theorem isNumberUnit_zero : (js "0").all isNumberUnit = true := rfl

/-- `String(q)` of a finite number. -/
abbrev NumberText : Type := Rat → { s : JsString // s.all isNumberUnit = true }

/-! ## Strings -/

/-- A lower-case hexadecimal digit. -/
def hexUnit (n : Nat) : UInt16 :=
  if n < 10 then 48 + UInt16.ofNat n else 87 + UInt16.ofNat n

/-- `\uXXXX`. -/
def unicodeEscape (u : UInt16) : JsString :=
  [92, 117, hexUnit (u.toNat / 4096 % 16), hexUnit (u.toNat / 256 % 16),
    hexUnit (u.toNat / 16 % 16), hexUnit (u.toNat % 16)]

/-- How a unit that is no surrogate stands in a string. -/
def escapeUnit (u : UInt16) : JsString :=
  if u = 34 then [92, 34]
  else if u = 92 then [92, 92]
  else if u = 8 then [92, 98]
  else if u = 9 then [92, 116]
  else if u = 10 then [92, 110]
  else if u = 12 then [92, 102]
  else if u = 13 then [92, 114]
  else if u < 32 then unicodeEscape u
  else [u]

/-- What stands between the quotes: surrogate pairs as they are, lone surrogates
escaped. -/
def stringBody : JsString → JsString
  | [] => []
  | u :: rest =>
    if 0xd800 ≤ u ∧ u ≤ 0xdbff then
      match rest with
      | trailing :: rest' =>
        if 0xdc00 ≤ trailing ∧ trailing ≤ 0xdfff then u :: trailing :: stringBody rest'
        else unicodeEscape u ++ stringBody (trailing :: rest')
      | [] => unicodeEscape u
    else if 0xdc00 ≤ u ∧ u ≤ 0xdfff then unicodeEscape u ++ stringBody rest
    else escapeUnit u ++ stringBody rest

/-- The units and the pairs of a string are written one after the other. -/
theorem stringBody_rec {P : JsString → JsString → Prop} (nil : P [] [])
    (pair : ∀ u v rest body, 0xd800 ≤ u ∧ u ≤ 0xdbff → 0xdc00 ≤ v ∧ v ≤ 0xdfff → P rest body →
      P (u :: v :: rest) (u :: v :: body))
    (lone : ∀ u rest body, P rest body → P (u :: rest) (unicodeEscape u ++ body))
    (unit : ∀ u rest body, ¬ (0xd800 ≤ u ∧ u ≤ 0xdbff) → ¬ (0xdc00 ≤ u ∧ u ≤ 0xdfff) →
      P rest body → P (u :: rest) (escapeUnit u ++ body)) (s : JsString) : P s (stringBody s) := by
  induction s using stringBody.induct with
  | case1 => exact nil
  | case2 u hlead trailing rest htrail ih =>
    rw [stringBody, if_pos hlead]
    simp only [if_pos htrail]
    exact pair u trailing rest _ hlead htrail ih
  | case3 u hlead trailing rest htrail ih =>
    rw [stringBody, if_pos hlead]
    simp only [if_neg htrail]
    exact lone u _ _ ih
  | case4 u hlead =>
    rw [stringBody, if_pos hlead]
    exact lone u [] [] nil
  | case5 u rest hlead htrail ih =>
    unfold stringBody
    simp only [if_neg hlead, if_pos htrail]
    exact lone u rest _ ih
  | case6 u rest hlead htrail ih =>
    unfold stringBody
    simp only [if_neg hlead, if_neg htrail]
    exact unit u rest _ hlead htrail ih

/-- `JSON.stringify` of a string. -/
def quoted (s : JsString) : JsString := 34 :: stringBody s ++ [34]

variable {u : UInt16}

theorem nameUnit_bounds (h : isNameUnit u = true) :
    ¬ (0xd800 ≤ u ∧ u ≤ 0xdbff) ∧ ¬ (0xdc00 ≤ u ∧ u ≤ 0xdfff) ∧ escapeUnit u = [u] := by
  simp only [isNameUnit, isAlphanumeric, isDigit, Bool.or_eq_true, Bool.and_eq_true,
    decide_eq_true_eq, beq_iff_eq, UInt16.le_iff_toNat_le, ← UInt16.toNat_inj,
    UInt16.reduceToNat] at h
  have hne : ∀ v : UInt16, v.toNat ≠ u.toNat → u ≠ v := fun v hv heq => hv (heq ▸ rfl)
  have hlow : ¬ u < 32 := by
    rw [UInt16.lt_iff_toNat_lt]
    simp only [UInt16.reduceToNat]
    omega
  refine ⟨?_, ?_, ?_⟩
  · simp only [UInt16.le_iff_toNat_le, UInt16.reduceToNat]
    omega
  · simp only [UInt16.le_iff_toNat_le, UInt16.reduceToNat]
    omega
  · unfold escapeUnit
    rw [if_neg (hne 34 (by simp only [UInt16.reduceToNat]; omega)),
      if_neg (hne 92 (by simp only [UInt16.reduceToNat]; omega)),
      if_neg (hne 8 (by simp only [UInt16.reduceToNat]; omega)),
      if_neg (hne 9 (by simp only [UInt16.reduceToNat]; omega)),
      if_neg (hne 10 (by simp only [UInt16.reduceToNat]; omega)),
      if_neg (hne 12 (by simp only [UInt16.reduceToNat]; omega)),
      if_neg (hne 13 (by simp only [UInt16.reduceToNat]; omega)), if_neg hlow]

variable {s : JsString}

theorem quoted_of_nameText (h : NameText s) : quoted s = 34 :: s ++ [34] := by
  have hbody : stringBody s = s := by
    induction s with
    | nil => rfl
    | cons u s ih =>
      obtain ⟨hlead, htrail, hunit⟩ := nameUnit_bounds (h u mem_cons_self)
      unfold stringBody
      rw [if_neg hlead, if_neg htrail, hunit, ih fun v hv => h v (mem_cons_of_mem _ hv)]
      rfl
  rw [quoted, hbody]

/-! ## Values -/

def member (key value : JsString) : JsString := quoted key ++ 58 :: value

def sortMembers (members : List (JsString × JsString)) : List (JsString × JsString) :=
  members.insertionSort fun left right => compareText left.1 right.1 ≠ .gt

section Canonical

variable (numberText : NumberText)

mutual

def canonical : JsonValue → JsString
  | .null => js "null"
  | .bool true => js "true"
  | .bool false => js "false"
  | .number q => (numberText q).val
  | .string s => quoted s
  | .array items => 91 :: joinParts [44] (canonicalItems items) ++ [93]
  | .object fields =>
    123 :: joinParts [44] ((sortMembers (canonicalFields fields)).map fun m => member m.1 m.2) ++
      [125]

def canonicalItems : List JsonValue → List JsString
  | [] => []
  | item :: items => canonical item :: canonicalItems items

def canonicalFields : List (JsString × JsonValue) → List (JsString × JsString)
  | [] => []
  | (key, value) :: fields => (key, canonical value) :: canonicalFields fields

end

theorem canonicalItems_eq_map (items : List JsonValue) :
    canonicalItems numberText items = items.map (canonical numberText) := by
  induction items with
  | nil => rfl
  | cons item items ih => rw [canonicalItems, ih, map_cons]

theorem canonicalFields_eq_map (fields : List (JsString × JsonValue)) :
    canonicalFields numberText fields =
      fields.map fun field => (field.1, canonical numberText field.2) := by
  induction fields with
  | nil => rfl
  | cons field fields ih => rw [canonicalFields, ih, map_cons]

end Canonical

/-! ## A scanner that knows brackets and strings -/

inductive ScanMode where
  | plain
  | string
  | escape
  deriving DecidableEq

/-- What is left of a text at the first comma or closing bracket outside all
brackets. -/
def scan : Nat → ScanMode → JsString → JsString
  | _, _, [] => []
  | depth, .escape, _ :: rest => scan depth .string rest
  | depth, .string, u :: rest =>
    if u = 92 then scan depth .escape rest
    else if u = 34 then scan depth .plain rest
    else scan depth .string rest
  | depth, .plain, u :: rest =>
    if depth = 0 ∧ (u = 44 ∨ u = 93 ∨ u = 125) then u :: rest
    else if u = 34 then scan depth .string rest
    else if u = 91 ∨ u = 123 then scan (depth + 1) .plain rest
    else if u = 93 ∨ u = 125 then scan (depth - 1) .plain rest
    else scan depth .plain rest

/-- The scanner comes out of a neutral text as it went in. -/
def Neutral (s : JsString) : Prop :=
  ∀ depth rest, scan depth .plain (s ++ rest) = scan depth .plain rest

/-- A text that ends a value before it. -/
def EndsValue (rest : JsString) : Prop := scan 0 .plain rest = rest

theorem endsValue_comma (rest : JsString) : EndsValue (44 :: rest) := by
  simp [EndsValue, scan]

variable {closing : UInt16}

theorem endsValue_closing (h : closing = 93 ∨ closing = 125)
    (rest : JsString) : EndsValue (closing :: rest) := by
  rcases h with rfl | rfl <;> simp [EndsValue, scan]

/-- **Neutral texts can be told apart from what follows them.** -/
theorem Neutral.append_inj {t restS restT : JsString} (hs : Neutral s) (ht : Neutral t)
    (hrestS : EndsValue restS) (hrestT : EndsValue restT) (h : s ++ restS = t ++ restT) :
    s = t ∧ restS = restT := by
  have hrest : restS = restT := by
    calc restS = scan 0 .plain restS := hrestS.symm
      _ = scan 0 .plain (s ++ restS) := (hs 0 restS).symm
      _ = scan 0 .plain (t ++ restT) := by rw [h]
      _ = scan 0 .plain restT := ht 0 restT
      _ = restT := hrestT
  rw [hrest] at h
  exact ⟨append_cancel_right h, hrest⟩

theorem Neutral.append {t : JsString} (hs : Neutral s) (ht : Neutral t) : Neutral (s ++ t) := by
  intro depth rest
  rw [append_assoc, hs, ht]

/-- A unit without meaning to the scanner. -/
def isInert (u : UInt16) : Bool :=
  !(u == 34 || u == 44 || u == 91 || u == 93 || u == 123 || u == 125)

theorem scan_inert (h : isInert u = true) (depth : Nat) (rest : JsString) :
    scan depth .plain (u :: rest) = scan depth .plain rest := by
  simp only [isInert, Bool.not_eq_true', Bool.or_eq_false_iff, beq_eq_false_iff_ne] at h
  obtain ⟨⟨⟨⟨⟨h34, h44⟩, h91⟩, h93⟩, h123⟩, h125⟩ := h
  simp [scan, h34, h44, h91, h93, h123, h125]

theorem neutral_of_inert (h : s.all isInert = true) : Neutral s := by
  intro depth rest
  induction s with
  | nil => rfl
  | cons u s ih =>
    rw [all_cons, Bool.and_eq_true] at h
    rw [cons_append, scan_inert h.1, ih h.2]

/-! ## Canonical texts are neutral -/

/-- The scanner stays inside a string over such a text. -/
def Enclosed (s : JsString) : Prop :=
  ∀ depth rest, scan depth .string (s ++ rest) = scan depth .string rest

theorem Enclosed.append {t : JsString} (hs : Enclosed s) (ht : Enclosed t) : Enclosed (s ++ t) := by
  intro depth rest
  rw [append_assoc, hs, ht]

theorem enclosed_unit (hquote : u ≠ 34) (hslash : u ≠ 92) : Enclosed [u] := by
  intro depth rest
  simp [scan, hquote, hslash]

theorem enclosed_escaped (u : UInt16) : Enclosed [92, u] := by
  intro depth rest
  simp [scan]

theorem hexUnit_ne (n : Nat) (h : n < 16) : hexUnit n ≠ 34 ∧ hexUnit n ≠ 92 := by
  have hall : ∀ k : Fin 16, hexUnit k ≠ 34 ∧ hexUnit k ≠ 92 := by decide
  exact hall ⟨n, h⟩

theorem enclosed_hexUnit (n : Nat) : Enclosed [hexUnit (n % 16)] :=
  have h := hexUnit_ne (n % 16) (Nat.mod_lt _ (by decide))
  enclosed_unit h.1 h.2

theorem enclosed_unicodeEscape (u : UInt16) : Enclosed (unicodeEscape u) :=
  (enclosed_escaped 117).append ((enclosed_hexUnit _).append
    ((enclosed_hexUnit _).append ((enclosed_hexUnit _).append (enclosed_hexUnit _))))

theorem enclosed_escapeUnit (u : UInt16) : Enclosed (escapeUnit u) := by
  unfold escapeUnit
  split
  · exact enclosed_escaped 34
  next hquote =>
  split
  · exact enclosed_escaped 92
  next hslash =>
  repeat' split
  all_goals
    first
    | exact enclosed_escaped _
    | exact enclosed_unicodeEscape u
    | exact enclosed_unit hquote hslash

theorem enclosed_stringBody (s : JsString) : Enclosed (stringBody s) := by
  refine stringBody_rec (P := fun _ body => Enclosed body) (fun _ _ => rfl) ?_
    (fun u _ _ h => (enclosed_unicodeEscape u).append h)
    (fun u _ _ _ _ h => (enclosed_escapeUnit u).append h) s
  intro u v _ _ hlead htrail h
  -- a surrogate is neither a quote nor a backslash
  have hunit : ∀ v : UInt16, 0xd800 ≤ v → v ≠ 34 ∧ v ≠ 92 := by
    intro v hv
    constructor <;> rintro rfl <;> exact absurd hv (by decide)
  have htrail' : (0xd800 : UInt16) ≤ v := UInt16.le_trans (by decide) htrail.1
  exact (enclosed_unit (hunit u hlead.1).1 (hunit u hlead.1).2).append
    ((enclosed_unit (hunit _ htrail').1 (hunit _ htrail').2).append h)

theorem neutral_quoted (s : JsString) : Neutral (quoted s) := by
  intro depth rest
  rw [quoted, cons_append, cons_append, append_assoc]
  have hopen : ∀ t, scan depth .plain (34 :: t) = scan depth .string t := fun t => by simp [scan]
  rw [hopen, enclosed_stringBody]
  simp [scan]

theorem neutral_bracketed {opening : UInt16}
    (hopen : opening = 91 ∨ opening = 123) (hclose : closing = 93 ∨ closing = 125)
    (hs : ∀ depth rest, scan (depth + 1) .plain (s ++ rest) = scan (depth + 1) .plain rest) :
    Neutral (opening :: s ++ [closing]) := by
  intro depth rest
  have hin : ∀ t, scan depth .plain (opening :: t) = scan (depth + 1) .plain t := by
    intro t
    rcases hopen with rfl | rfl <;> simp [scan]
  rw [cons_append, cons_append, append_assoc, hin, hs]
  rcases hclose with rfl | rfl <;> simp [scan]

theorem scan_joinParts {parts : List JsString} (h : ∀ part ∈ parts, Neutral part) (depth : Nat)
    (rest : JsString) :
    scan (depth + 1) .plain (joinParts [44] parts ++ rest) = scan (depth + 1) .plain rest := by
  induction parts using joinParts.induct with
  | case1 => rfl
  | case2 part => exact h part mem_cons_self _ _
  | case3 part next parts ih =>
    rw [joinParts, append_assoc, append_assoc, h part mem_cons_self]
    have hcomma : ∀ t, scan (depth + 1) .plain ([44] ++ t) = scan (depth + 1) .plain t :=
      fun t => by simp [scan]
    rw [hcomma, ih fun p hp => h p (mem_cons_of_mem _ hp)]

/-- **A row of neutral texts can be read back** up to the bracket that closes
it. -/
theorem joinParts_inj (hclosing : closing = 93 ∨ closing = 125)
    {parts others : List JsString} (hparts : parts ≠ []) (hothers : others ≠ [])
    (hp : ∀ part ∈ parts, Neutral part) (ho : ∀ part ∈ others, Neutral part)
    (h : joinParts [44] parts ++ [closing] = joinParts [44] others ++ [closing]) :
    parts = others := by
  have hends := endsValue_closing hclosing []
  have hcomma : closing ≠ 44 := by
    rcases hclosing with rfl | rfl <;> decide
  induction parts generalizing others with
  | nil => exact absurd rfl hparts
  | cons part parts ih =>
    cases others with
    | nil => exact absurd rfl hothers
    | cons other others =>
      have hpart := hp part mem_cons_self
      have hother := ho other mem_cons_self
      cases parts with
      | nil =>
        cases others with
        | nil =>
          obtain ⟨rfl, -⟩ := hpart.append_inj hother hends hends h
          rfl
        | cons next others =>
          rw [joinParts, joinParts, append_assoc, append_assoc] at h
          obtain ⟨-, hrest⟩ := hpart.append_inj hother hends (endsValue_comma _) h
          exact absurd (List.cons.inj hrest).1 hcomma
      | cons next parts =>
        cases others with
        | nil =>
          rw [joinParts, joinParts, append_assoc, append_assoc] at h
          obtain ⟨-, hrest⟩ := hpart.append_inj hother (endsValue_comma _) hends h
          exact absurd (List.cons.inj hrest).1.symm hcomma
        | cons next' others =>
          rw [joinParts, joinParts, append_assoc, append_assoc, append_assoc, append_assoc] at h
          obtain ⟨rfl, hrest⟩ := hpart.append_inj hother (endsValue_comma _) (endsValue_comma _) h
          rw [ih (cons_ne_nil _ _) (cons_ne_nil _ _)
            (fun p hm => hp p (mem_cons_of_mem _ hm))
            (fun p hm => ho p (mem_cons_of_mem _ hm)) (List.cons.inj hrest).2]

theorem neutral_member {key value : JsString} (h : Neutral value) : Neutral (member key value) :=
  (neutral_quoted key).append (Neutral.append (neutral_of_inert (by decide : [58].all isInert)) h)

theorem isInert_of_isNumberUnit (h : isNumberUnit u = true) : isInert u = true := by
  rw [isInert, Bool.not_eq_true']
  cases hinert : u == 34 || u == 44 || u == 91 || u == 93 || u == 123 || u == 125 with
  | false => rfl
  | true =>
    simp only [Bool.or_eq_true, beq_iff_eq] at hinert
    rcases hinert with ((((rfl | rfl) | rfl) | rfl) | rfl) | rfl <;> exact absurd h (by decide)

variable (numberText : NumberText)

/-- **Canonical texts are neutral.** -/
theorem neutral_canonical (value : JsonValue) : Neutral (canonical numberText value) := by
  induction value using JsonValue.induction with
  | null =>
    rw [canonical]
    exact neutral_of_inert (by decide)
  | bool b => cases b <;> rw [canonical] <;> exact neutral_of_inert (by decide)
  | number q =>
    rw [canonical]
    refine neutral_of_inert (all_eq_true.mpr fun u hu => ?_)
    exact isInert_of_isNumberUnit (all_eq_true.mp (numberText q).property u hu)
  | string s =>
    rw [canonical]
    exact neutral_quoted s
  | array items ih =>
    rw [canonical, canonicalItems_eq_map]
    exact neutral_bracketed (.inl rfl) (.inl rfl) (scan_joinParts (forall_mem_map.mpr ih))
  | object fields ih =>
    rw [canonical, canonicalFields_eq_map]
    refine neutral_bracketed (.inr rfl) (.inr rfl)
      (scan_joinParts (forall_mem_map.mpr fun m hm => ?_))
    obtain ⟨field, hfield, rfl⟩ := mem_map.mp ((mem_insertionSort _).mp hm)
    exact neutral_member (ih field hfield)

/-! ## Members in order -/

theorem canonicalFields_keys (numberText : NumberText) (fields : List (JsString × JsonValue)) :
    (canonicalFields numberText fields).map (·.1) = fields.map (·.1) := by
  induction fields with
  | nil => rfl
  | cons entry fields ih => simp [canonicalFields, ih]

theorem sortMembers_of_sorted {members : List (JsString × JsString)}
    (h : (members.map (·.1)).Pairwise fun left right => compareText left right ≠ .gt) :
    sortMembers members = members :=
  (pairwise_map.mp h).insertionSort_eq

end CanonicalJson

end TegoNext
