/-
Reading canonical texts back.

`JSON.parse`: white space is skipped, a key that comes twice keeps its place and has the last value,
and the properties of an object stand as the language has them. What it makes of a canonical text
is the copy of the value that `serializeWireValue` makes, with the same canonical text. How a
number is read and printed is a parameter; negative zero is zero here.
-/
import TegoNext.ResultBuffer

set_option autoImplicit false

namespace TegoNext

open Text CanonicalJson JsonNormalForm List

namespace JsonParse

/-! ## Tokens -/

def isJsonSpace (u : UInt16) : Bool := u == 32 || u == 9 || u == 10 || u == 13

def skipSpace (s : JsString) : JsString := s.dropWhile isJsonSpace

/-- What follows a word. -/
def afterWord (word s : JsString) : Option JsString :=
  if word.isPrefixOf s then some (s.drop word.length) else none

def hexValue (u : UInt16) : Option Nat :=
  if isDigit u then some (u.toNat - 48)
  else if 97 ≤ u ∧ u ≤ 102 then some (u.toNat - 87)
  else if 65 ≤ u ∧ u ≤ 70 then some (u.toNat - 55)
  else none

def hexEscape (a b c d : UInt16) : Option UInt16 := do
  let a ← hexValue a
  let b ← hexValue b
  let c ← hexValue c
  let d ← hexValue d
  pure (UInt16.ofNat (a * 4096 + b * 256 + c * 16 + d))

/-- The unit of a short escape. -/
def shortEscape (u : UInt16) : Option UInt16 :=
  if u = 34 then some 34
  else if u = 92 then some 92
  else if u = 47 then some 47
  else if u = 98 then some 8
  else if u = 102 then some 12
  else if u = 110 then some 10
  else if u = 114 then some 13
  else if u = 116 then some 9
  else none

def addUnit (u : UInt16) (read : JsString × JsString) : JsString × JsString := (u :: read.1, read.2)

/-- The units of a string up to its closing quote, and what follows it. -/
def parseUnits : JsString → Option (JsString × JsString)
  | [] => none
  | u :: rest =>
    if u = 34 then some ([], rest)
    else if u < 32 then none
    else if u = 92 then
      match rest with
      | [] => none
      | v :: rest =>
        if v = 117 then
          match rest with
          | a :: b :: c :: d :: rest =>
            (hexEscape a b c d).bind fun unit => (parseUnits rest).map (addUnit unit)
          | _ => none
        else (shortEscape v).bind fun unit => (parseUnits rest).map (addUnit unit)
    else (parseUnits rest).map (addUnit u)

/-! ## Values -/

/-- A key that comes again keeps its place. -/
def putField (fields : List (JsString × JsonValue)) (key : JsString) (value : JsonValue) :
    List (JsString × JsonValue) :=
  if fields.any (·.1 == key) then
    fields.map fun field => if field.1 = key then (key, value) else field
  else fields ++ [(key, value)]

section Parser

variable (readNumber : JsString → Option Rat)

mutual

def parseValue : Nat → JsString → Option (JsonValue × JsString)
  | 0, _ => none
  | fuel + 1, s =>
    match skipSpace s with
    | [] => none
    | u :: rest =>
      if u = 34 then (parseUnits rest).map fun read => (.string read.1, read.2)
      else if u = 91 then
        if (skipSpace rest).head? = some 93 then some (.array [], (skipSpace rest).tail)
        else (parseItems fuel rest).map fun read => (.array read.1, read.2)
      else if u = 123 then
        if (skipSpace rest).head? = some 125 then some (.object [], (skipSpace rest).tail)
        else (parseMembers fuel [] rest).map fun read => (.object (propertyOrder read.1), read.2)
      else if u = 110 then (afterWord (js "null") (u :: rest)).map fun rest => (.null, rest)
      else if u = 116 then (afterWord (js "true") (u :: rest)).map fun rest => (.bool true, rest)
      else if u = 102 then (afterWord (js "false") (u :: rest)).map fun rest => (.bool false, rest)
      else
        (readNumber ((u :: rest).takeWhile isNumberUnit)).map fun q =>
          (.number q, (u :: rest).dropWhile isNumberUnit)

/-- The items of an array, one at least, up to the closing bracket. -/
def parseItems : Nat → JsString → Option (List JsonValue × JsString)
  | 0, _ => none
  | fuel + 1, s =>
    (parseValue fuel s).bind fun (item, rest) =>
      match skipSpace rest with
      | [] => none
      | u :: rest =>
        if u = 44 then (parseItems fuel rest).map fun read => (item :: read.1, read.2)
        else if u = 93 then some ([item], rest)
        else none

/-- The members of an object, one at least, up to the closing brace. -/
def parseMembers : Nat → List (JsString × JsonValue) → JsString →
    Option (List (JsString × JsonValue) × JsString)
  | 0, _, _ => none
  | fuel + 1, fields, s =>
    match skipSpace s with
    | [] => none
    | u :: rest =>
      if u = 34 then
        (parseUnits rest).bind fun (key, rest) =>
          match skipSpace rest with
          | [] => none
          | u :: rest =>
            if u = 58 then
              (parseValue fuel rest).bind fun (value, rest) =>
                match skipSpace rest with
                | [] => none
                | u :: rest =>
                  if u = 44 then parseMembers fuel (putField fields key value) rest
                  else if u = 125 then some (putField fields key value, rest)
                  else none
            else none
      else none

end

/-- `JSON.parse`. No more steps are taken than twice the units of the text. -/
def parse (text : JsString) : Option JsonValue :=
  (parseValue readNumber (2 * text.length + 1) text).bind fun (value, rest) =>
    if (skipSpace rest).isEmpty then some value else none

end Parser

/-! ## Reading strings -/

variable {u : UInt16} {s t rest : JsString}

theorem hexValue_hexUnit {n : Nat} (h : n < 16) : hexValue (hexUnit n) = some n := by
  have hall : ∀ k : Fin 16, hexValue (hexUnit k) = some k.val := by decide
  exact hall ⟨n, h⟩

theorem hexEscape_hexUnit (u : UInt16) :
    hexEscape (hexUnit (u.toNat / 4096 % 16)) (hexUnit (u.toNat / 256 % 16))
      (hexUnit (u.toNat / 16 % 16)) (hexUnit (u.toNat % 16)) = some u := by
  have hmod : ∀ n : Nat, n % 16 < 16 := fun n => Nat.mod_lt n (by decide)
  have hlt := u.toNat_lt
  have hvalue : u.toNat / 4096 % 16 * 4096 + u.toNat / 256 % 16 * 256 + u.toNat / 16 % 16 * 16 +
      u.toNat % 16 = u.toNat := by omega
  simp only [hexEscape, hexValue_hexUnit (hmod _), Option.bind_eq_bind, Option.bind_some, hvalue,
    UInt16.ofNat_toNat]
  rfl

theorem parseUnits_unicodeEscape (u : UInt16) (t : JsString) :
    parseUnits (unicodeEscape u ++ t) = (parseUnits t).map (addUnit u) := by
  have hslash : ¬(92 : UInt16) = 34 ∧ ¬(92 : UInt16) < 32 := by decide
  rw [unicodeEscape]
  simp only [cons_append, nil_append]
  rw [parseUnits.eq_def]
  simp only [if_neg hslash.1, if_neg hslash.2, if_true, hexEscape_hexUnit, Option.bind_some]

theorem parseUnits_shortEscape {v : UInt16} (h : shortEscape v = some u) (hv : v ≠ 117) :
    parseUnits ([92, v] ++ t) = (parseUnits t).map (addUnit u) := by
  have hslash : ¬(92 : UInt16) = 34 ∧ ¬(92 : UInt16) < 32 := by decide
  simp only [cons_append, nil_append]
  rw [parseUnits.eq_def]
  simp only [if_neg hslash.1, if_neg hslash.2, if_true, if_neg hv, h, Option.bind_some]

theorem parseUnits_unit (hquote : u ≠ 34) (hlow : ¬u < 32) (hslash : u ≠ 92) :
    parseUnits (u :: t) = (parseUnits t).map (addUnit u) := by
  rw [parseUnits.eq_def]
  simp only [if_neg hquote, if_neg hlow, if_neg hslash]

theorem parseUnits_escapeUnit (u : UInt16) (t : JsString) :
    parseUnits (CanonicalJson.escapeUnit u ++ t) = (parseUnits t).map (addUnit u) := by
  unfold CanonicalJson.escapeUnit
  split
  · next h => rw [h]; exact parseUnits_shortEscape rfl (by decide)
  next hquote =>
  split
  · next h => rw [h]; exact parseUnits_shortEscape rfl (by decide)
  next hslash =>
  split
  · next h => rw [h]; exact parseUnits_shortEscape rfl (by decide)
  split
  · next h => rw [h]; exact parseUnits_shortEscape rfl (by decide)
  split
  · next h => rw [h]; exact parseUnits_shortEscape rfl (by decide)
  split
  · next h => rw [h]; exact parseUnits_shortEscape rfl (by decide)
  split
  · next h => rw [h]; exact parseUnits_shortEscape rfl (by decide)
  split
  · exact parseUnits_unicodeEscape u t
  · next hlow => exact parseUnits_unit hquote hlow hslash

/-- A string is read as it was written, and what follows it is left. -/
theorem parseUnits_stringBody (s rest : JsString) :
    parseUnits (stringBody s ++ 34 :: rest) = some (s, rest) := by
  refine stringBody_rec (P := fun s body => parseUnits (body ++ 34 :: rest) = some (s, rest))
    ?_ ?_ ?_ ?_ s
  · rw [nil_append, parseUnits.eq_def]
    rfl
  · intro u v s body hlead htrail ih
    have hunit : ∀ w : UInt16, 0xd800 ≤ w → w ≠ 34 ∧ ¬w < 32 ∧ w ≠ 92 := by
      intro w hw
      refine ⟨?_, UInt16.not_lt.mpr (UInt16.le_trans (by decide) hw), ?_⟩ <;> rintro rfl <;>
        exact absurd hw (by decide)
    obtain ⟨hu, hu', hu''⟩ := hunit u hlead.1
    obtain ⟨hv, hv', hv''⟩ := hunit v (UInt16.le_trans (by decide) htrail.1)
    rw [cons_append, cons_append, parseUnits_unit hu hu' hu'', parseUnits_unit hv hv' hv'', ih]
    rfl
  · intro u s body ih
    rw [append_assoc, parseUnits_unicodeEscape, ih]
    rfl
  · intro u s body _ _ ih
    rw [append_assoc, parseUnits_escapeUnit, ih]
    rfl

/-! ## Reading values -/

/-- No number goes on here. -/
def Ends (rest : JsString) : Prop := rest.takeWhile isNumberUnit = []

theorem ends_cons (h : isNumberUnit u = false) (rest : JsString) : Ends (u :: rest) := by
  rw [Ends, takeWhile_cons_of_neg (by rw [h]; exact Bool.false_ne_true)]

variable {numberText : NumberText} {readNumber : JsString → Option Rat} {fuel : Nat}

/-- Numbers are read as they were printed. -/
structure ReadsNumbers (numberText : NumberText) (readNumber : JsString → Option Rat) : Prop where
  read : ∀ q, readNumber (numberText q).val = some q
  nonempty : ∀ q, (numberText q).val ≠ []

/-- The canonical text of the value is read as its copy. -/
def Reads (numberText : NumberText) (readNumber : JsString → Option Rat) (value : JsonValue) :
    Prop :=
  ∀ fuel rest, 2 * (canonical numberText value).length ≤ fuel → Ends rest →
    parseValue readNumber fuel (canonical numberText value ++ rest) = some (cloneJson value, rest)

theorem skipSpace_cons (h : isJsonSpace u = false) (rest : JsString) :
    skipSpace (u :: rest) = u :: rest := by
  rw [skipSpace, dropWhile_cons_of_neg (by rw [h]; exact Bool.false_ne_true)]

theorem reads_number (hnumbers : ReadsNumbers numberText readNumber) (q : Rat) :
    Reads numberText readNumber (.number q) := by
  intro fuel rest hfuel hrest
  have hread := hnumbers.read q
  have hall := (numberText q).property
  rw [canonical] at hfuel ⊢
  cases htext : (numberText q).val with
  | nil => exact absurd htext (hnumbers.nonempty q)
  | cons u t =>
    rw [htext] at hread hall hfuel
    have hu : isNumberUnit u = true := (all_cons ▸ hall |> Bool.and_eq_true_iff.mp).1
    have hne : ∀ v, isNumberUnit v = false → u ≠ v := by
      rintro v hv rfl
      rw [hu] at hv
      cases hv
    have hspace : isJsonSpace u = false := by
      simp only [isJsonSpace, Bool.or_eq_false_iff, beq_eq_false_iff_ne]
      exact ⟨⟨⟨hne 32 rfl, hne 9 rfl⟩, hne 10 rfl⟩, hne 13 rfl⟩
    obtain ⟨n, rfl⟩ : ∃ n, fuel = n + 1 := ⟨fuel - 1, by rw [length_cons] at hfuel; omega⟩
    have htake : (u :: (t ++ rest)).takeWhile isNumberUnit = u :: t := by
      rw [← cons_append, takeWhile_append_of_pos (all_eq_true.mp hall), hrest, append_nil]
    have hdrop : (u :: (t ++ rest)).dropWhile isNumberUnit = rest := by
      have hsplit := takeWhile_append_dropWhile (p := isNumberUnit) (l := u :: (t ++ rest))
      rw [htake] at hsplit
      exact append_cancel_left (hsplit.trans (cons_append ..).symm)
    rw [cons_append, parseValue, skipSpace_cons hspace]
    simp only [if_neg (hne 34 rfl), if_neg (hne 91 rfl), if_neg (hne 123 rfl),
      if_neg (hne 110 rfl), if_neg (hne 116 rfl), if_neg (hne 102 rfl), htake, hdrop, hread,
      Option.map_some, cloneJson]

theorem reads_string (s : JsString) : Reads numberText readNumber (.string s) := by
  intro fuel rest hfuel _
  obtain ⟨n, rfl⟩ : ∃ n, fuel = n + 1 := ⟨fuel - 1, by
    rw [canonical, quoted, length_append, length_singleton] at hfuel
    omega⟩
  rw [canonical, quoted, cons_append, cons_append, append_assoc, parseValue,
    skipSpace_cons (by decide)]
  simp only [if_true, singleton_append, parseUnits_stringBody, Option.map_some, cloneJson]

theorem afterWord_append (word rest : JsString) : afterWord word (word ++ rest) = some rest := by
  rw [afterWord, if_pos ( isPrefixOf_iff_prefix.mpr (prefix_append _ _)), drop_left]

/-- A canonical text does not begin with white space, nor with a closing bracket. -/
theorem canonical_opens (hnumbers : ReadsNumbers numberText readNumber) (value : JsonValue) :
    ∃ u t, canonical numberText value = u :: t ∧ isJsonSpace u = false ∧ u ≠ 93 := by
  cases value with
  | number q =>
    cases htext : (numberText q).val with
    | nil => exact absurd htext (hnumbers.nonempty q)
    | cons u t =>
      have hall := (numberText q).property
      rw [htext, all_cons, Bool.and_eq_true] at hall
      refine ⟨u, t, by rw [canonical, htext], ?_, ?_⟩
      · rw [← Bool.not_eq_true]
        intro hspace
        simp only [isJsonSpace, Bool.or_eq_true, beq_iff_eq] at hspace
        rcases hspace with ((rfl | rfl) | rfl) | rfl <;> exact absurd hall.1 (by decide)
      · rintro rfl
        exact absurd hall.1 (by decide)
  | bool b => cases b <;> exact ⟨_, _, rfl, by decide, by decide⟩
  | _ => exact ⟨_, _, rfl, by decide, by decide⟩

def canonicalMember (numberText : NumberText) (field : JsString × JsonValue) : JsString :=
  member field.1 (canonical numberText field.2)

theorem canonical_object (fields : List (JsString × JsonValue)) :
    canonical numberText (.object fields) =
      123 :: joinParts [44] ((JsValue.sortFields fields).map (canonicalMember numberText)) ++
        [125] := by
  have hsorted : sortMembers (fields.map fun field => (field.1, canonical numberText field.2)) =
      (JsValue.sortFields fields).map fun field => (field.1, canonical numberText field.2) := by
    rw [sortMembers]
    exact (map_insertionSort _ _ _ _ fun _ _ _ _ => by rfl).symm
  rw [canonical, canonicalFields_eq_map, hsorted, map_map]
  rfl

theorem not_closed {items : List JsonValue} (hnumbers : ReadsNumbers numberText readNumber)
    (item : JsonValue) (rest : JsString) :
    (skipSpace (joinParts [44] ((item :: items).map (canonical numberText)) ++ 93 :: rest)).head? ≠
      some 93 := by
  obtain ⟨u, t, htext, hspace, hclosing⟩ := canonical_opens hnumbers item
  have hjoin : ∃ t', joinParts [44] ((item :: items).map (canonical numberText)) ++ 93 :: rest =
      u :: t' := by
    cases items with
    | nil => exact ⟨_, by rw [map_cons, htext]; rfl⟩
    | cons => exact ⟨_, by rw [map_cons, htext]; rfl⟩
  obtain ⟨t', hjoin⟩ := hjoin
  rw [hjoin, skipSpace_cons hspace]
  exact fun h => hclosing (Option.some.inj h)

theorem parseItems_canonical (items : List JsonValue) (hne : items ≠ [])
    (hreads : ∀ item ∈ items, Reads numberText readNumber item)
    (hfuel : 2 * (joinParts [44] (items.map (canonical numberText))).length + 1 ≤ fuel)
    (rest : JsString) :
    parseItems readNumber fuel
      (joinParts [44] (items.map (canonical numberText)) ++ 93 :: rest) =
        some (items.map cloneJson, rest) := by
  induction items generalizing fuel with
  | nil => exact absurd rfl hne
  | cons item items ih =>
    obtain ⟨fuel, rfl⟩ : ∃ n, fuel = n + 1 := ⟨fuel - 1, by omega⟩
    obtain ⟨hitem, hitems⟩ := forall_mem_cons.mp hreads
    cases items with
    | nil =>
      rw [map_cons, map_nil, joinParts] at hfuel ⊢
      rw [parseItems, hitem fuel (93 :: rest) (by omega) (ends_cons rfl _), Option.bind_some]
      rfl
    | cons next items =>
      have hrest := @ih fuel (cons_ne_nil _ _) hitems
      rw [map_cons, map_cons, joinParts, ← map_cons] at hfuel ⊢
      rw [length_append, length_append, length_singleton] at hfuel
      rw [append_assoc, append_assoc, singleton_append, parseItems,
        hitem fuel _ (by omega) (ends_cons rfl _), Option.bind_some]
      dsimp only
      rw [skipSpace_cons (by decide)]
      dsimp only
      rw [if_pos rfl, hrest (by omega)]
      rfl

theorem putField_new {fields : List (JsString × JsonValue)} {key : JsString} {value : JsonValue}
    (h : key ∉ fields.map (·.1)) : putField fields key value = fields ++ [(key, value)] := by
  refine if_neg fun hany => ?_
  obtain ⟨field, hmem, heq⟩ := any_eq_true.mp hany
  exact h (mem_map.mpr ⟨field, hmem, beq_iff_eq.mp heq⟩)

theorem parseMembers_canonical (fields : List (JsString × JsonValue)) (hne : fields ≠ [])
    (hreads : ∀ field ∈ fields, Reads numberText readNumber field.2)
    (before : List (JsString × JsonValue))
    (hkeys : ((before ++ fields).map (·.1)).Nodup)
    (hfuel : 2 * (joinParts [44] (fields.map (canonicalMember numberText))).length + 1 ≤ fuel)
    (rest : JsString) :
    parseMembers readNumber fuel before
      (joinParts [44] (fields.map (canonicalMember numberText)) ++ 125 :: rest) =
      some (before ++ fields.map fun field => (field.1, cloneJson field.2), rest) := by
  induction fields generalizing fuel before with
  | nil => exact absurd rfl hne
  | cons field fields ih =>
    obtain ⟨fuel, rfl⟩ : ∃ n, fuel = n + 1 := ⟨fuel - 1, by omega⟩
    obtain ⟨key, value⟩ := field
    obtain ⟨hvalue, hfields⟩ := forall_mem_cons.mp hreads
    dsimp only at hvalue
    have hnew : key ∉ before.map (·.1) := by
      rw [map_append, nodup_append] at hkeys
      exact fun hmem => hkeys.2.2 key hmem key (by simp) rfl
    have hmember : ∀ rest, canonicalMember numberText (key, value) ++ rest =
        34 :: (stringBody key ++ 34 :: 58 :: (canonical numberText value ++ rest)) := by
      intro rest
      simp [canonicalMember, member, quoted]
    have hlength : (canonical numberText value).length <
        (canonicalMember numberText (key, value)).length := by
      simp [canonicalMember, member, quoted]
      omega
    cases fields with
    | nil =>
      rw [map_cons, map_nil, joinParts] at hfuel ⊢
      rw [hmember, parseMembers, skipSpace_cons (by decide)]
      simp only [if_true, parseUnits_stringBody, Option.bind_some, skipSpace_cons (u := 58) rfl,
        hvalue fuel (125 :: rest) (by omega) (ends_cons rfl _), skipSpace_cons (u := 125) rfl,
        putField_new hnew]
      rfl
    | cons next fields =>
      have hrest := @ih fuel (cons_ne_nil _ _) hfields (before ++ [(key, cloneJson value)])
        (by simpa using hkeys)
      rw [map_cons, map_cons, joinParts, ← map_cons] at hfuel ⊢
      rw [length_append, length_append, length_singleton] at hfuel
      rw [append_assoc, append_assoc, singleton_append, hmember, parseMembers,
        skipSpace_cons (by decide)]
      simp only [if_true, parseUnits_stringBody, Option.bind_some, skipSpace_cons (u := 58) rfl,
        hvalue fuel _ (by omega) (ends_cons (u := 44) rfl _), skipSpace_cons (u := 44) rfl,
        putField_new hnew]
      rw [hrest (by omega), append_assoc]
      rfl

theorem reads_of_succ {value : JsonValue} (hne : canonical numberText value ≠ [])
    (h : ∀ fuel rest, 2 * (canonical numberText value).length ≤ fuel + 1 → Ends rest →
      parseValue readNumber (fuel + 1) (canonical numberText value ++ rest) =
        some (cloneJson value, rest)) : Reads numberText readNumber value := by
  intro fuel rest hfuel hrest
  cases fuel with
  | zero =>
    have hpos := length_pos_iff.mpr hne
    omega
  | succ fuel => exact h fuel rest hfuel hrest

/-- **A canonical text is read as the copy of the value.** -/
theorem reads (hnumbers : ReadsNumbers numberText readNumber) (value : JsonValue)
    (h : DistinctKeys value) : Reads numberText readNumber value := by
  induction value using JsonValue.induction with
  | null =>
    refine reads_of_succ (cons_ne_nil _ _) fun fuel rest _ _ => ?_
    rw [parseValue]
    exact congrArg (Option.map _) (afterWord_append (js "null") rest)
  | bool b =>
    cases b with
    | true =>
      refine reads_of_succ (cons_ne_nil _ _) fun fuel rest _ _ => ?_
      rw [parseValue]
      exact congrArg (Option.map _) (afterWord_append (js "true") rest)
    | false =>
      refine reads_of_succ (cons_ne_nil _ _) fun fuel rest _ _ => ?_
      rw [parseValue]
      exact congrArg (Option.map _) (afterWord_append (js "false") rest)
  | number q => exact reads_number hnumbers q
  | string s => exact reads_string s
  | array items ih =>
    refine reads_of_succ (cons_ne_nil _ _) fun fuel rest hfuel _ => ?_
    rw [DistinctKeys, distinctItems_iff] at h
    have hreads : ∀ item ∈ items, Reads numberText readNumber item :=
      fun item hitem => ih item hitem (h item hitem)
    rw [canonical, canonicalItems_eq_map, length_append, length_cons, length_singleton] at hfuel
    rw [canonical, canonicalItems_eq_map, cons_append, cons_append, append_assoc, singleton_append,
      parseValue, skipSpace_cons (by decide), cloneJson, cloneItems_eq_map]
    cases items with
    | nil => rfl
    | cons item items =>
      have hitems := @parseItems_canonical _ _ fuel (item :: items) (cons_ne_nil _ _) hreads
        (by omega) rest
      have hopens := @not_closed _ _ items hnumbers item rest
      dsimp only
      rw [if_neg (by decide), if_pos rfl, if_neg hopens, hitems]
      rfl
  | object fields ih =>
    refine reads_of_succ (cons_ne_nil _ _) fun fuel rest hfuel _ => ?_
    rw [DistinctKeys, distinctFields_iff] at h
    have hperm : (JsValue.sortFields fields).Perm fields := perm_insertionSort _ _
    have hreads : ∀ field ∈ JsValue.sortFields fields, Reads numberText readNumber field.2 := by
      intro field hfield
      have hmem := hperm.mem_iff.mp hfield
      exact ih field hmem (h.2 field hmem)
    have hkeys := (hperm.map (·.1)).nodup_iff.mpr h.1
    have hclone : JsValue.sortFields (cloneFields fields) =
        (JsValue.sortFields fields).map fun field => (field.1, cloneJson field.2) := by
      rw [cloneFields_eq_map]
      exact (map_insertionSort _ _ _ _ fun _ _ _ _ => by rfl).symm
    rw [canonical_object, length_append, length_cons, length_singleton] at hfuel
    rw [canonical_object, cons_append, cons_append, append_assoc, singleton_append, parseValue,
      skipSpace_cons (by decide), cloneJson, hclone]
    cases hsorted : JsValue.sortFields fields with
    | nil => rfl
    | cons field sorted =>
      rw [hsorted] at hfuel hreads hkeys
      have hmembers := @parseMembers_canonical _ _ fuel (field :: sorted) (cons_ne_nil _ _) hreads
        [] hkeys (by omega) rest
      have hopens : (skipSpace (joinParts [44]
          ((field :: sorted).map (canonicalMember numberText)) ++ 125 :: rest)).head? =
            some 34 := by
        cases sorted <;> rfl
      dsimp only
      rw [if_neg (by decide), if_neg (by decide), if_pos rfl, hopens, if_neg (by decide), hmembers]
      rfl

end JsonParse

end TegoNext
