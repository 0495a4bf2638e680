/-
The maps of the language: entries in the order in which their keys were first set.

Setting a key that is there replaces its value in place; deleting it and setting it again
moves it to the end. Besides what a key holds after each operation, the lemmas say what
becomes of a total over the values: a bound on the number of entries of some kind is a
bound on such a total.
-/
import Mathlib.Data.List.Nodup
import Mathlib.Algebra.BigOperators.Group.List.Basic
import Mathlib.Algebra.GroupWithZero.Nat

set_option autoImplicit false

namespace TegoNext

open List

/-- `Map` -/
structure JsMap (K V : Type) where
  entries : List (K × V)
  nodup : (entries.map Prod.fst).Nodup

namespace JsMap

variable {K V : Type}

def empty : JsMap K V := ⟨[], nodup_nil⟩

def size (m : JsMap K V) : Nat := m.entries.length

def filter (m : JsMap K V) (p : K → V → Bool) : JsMap K V :=
  ⟨m.entries.filter fun entry => p entry.1 entry.2, m.nodup.sublist (filter_sublist.map _)⟩

def total (weight : V → Nat) (m : JsMap K V) : Nat :=
  (m.entries.map fun entry => weight entry.2).sum

variable [DecidableEq K]

def get (m : JsMap K V) (key : K) : Option V :=
  (m.entries.find? fun entry => entry.1 = key).map Prod.snd

def delete (m : JsMap K V) (key : K) : JsMap K V := m.filter fun k _ => k ≠ key

def replaced (entries : List (K × V)) (key : K) (value : V) : List (K × V) :=
  entries.map fun entry => if entry.1 = key then (key, value) else entry

theorem keys_replaced (entries : List (K × V)) (key : K) (value : V) :
    (replaced entries key value).map Prod.fst = entries.map Prod.fst := by
  unfold replaced
  rw [map_map]
  refine map_congr_left fun entry _ => ?_
  show (if entry.1 = key then (key, value) else entry).1 = entry.1
  split
  · next h => exact h.symm
  · rfl

def set (m : JsMap K V) (key : K) (value : V) : JsMap K V :=
  if h : key ∈ m.entries.map Prod.fst then
    ⟨replaced m.entries key value, by
      rw [keys_replaced]
      exact m.nodup⟩
  else
    ⟨m.entries ++ [(key, value)], by
      rw [map_append, map_singleton]
      exact m.nodup.append (nodup_singleton key) (disjoint_singleton.mpr h)⟩

variable {m : JsMap K V} {key key' : K} {value : V}

/-! ## What a key holds -/

theorem find?_of_mem {entries : List (K × V)} (hnodup : (entries.map Prod.fst).Nodup)
    (h : (key, value) ∈ entries) :
    entries.find? (fun entry => entry.1 = key) = some (key, value) := by
  induction entries with
  | nil => exact absurd h not_mem_nil
  | cons entry entries ih =>
    rw [map_cons, nodup_cons] at hnodup
    rcases mem_cons.mp h with rfl | hmem
    · exact find?_cons_of_pos (decide_eq_true rfl)
    · have hne : entry.1 ≠ key := fun heq =>
        hnodup.1 (mem_map.mpr ⟨(key, value), hmem, heq.symm⟩)
      rw [find?_cons_of_neg (by simpa using hne)]
      exact ih hnodup.2 hmem

theorem get_eq_some_iff : m.get key = some value ↔ (key, value) ∈ m.entries := by
  constructor
  · intro h
    obtain ⟨entry, hfind, rfl⟩ := Option.map_eq_some_iff.mp h
    have hkey : entry.1 = key := of_decide_eq_true (find?_some hfind :)
    rw [← hkey]
    exact mem_of_find?_eq_some hfind
  · intro h
    rw [get, find?_of_mem m.nodup h]
    rfl

theorem get_eq_none_iff : m.get key = none ↔ key ∉ m.entries.map Prod.fst := by
  rw [Option.eq_none_iff_forall_ne_some]
  refine ⟨fun h hmem => ?_, fun h value hvalue => ?_⟩
  · obtain ⟨⟨k, value⟩, hentry, rfl⟩ := mem_map.mp hmem
    exact h value (get_eq_some_iff.mpr hentry)
  · exact h (mem_map.mpr ⟨_, get_eq_some_iff.mp hvalue, rfl⟩)

theorem entries_set_of_none (h : m.get key = none) :
    (m.set key value).entries = m.entries ++ [(key, value)] := by
  unfold set
  rw [dif_neg (get_eq_none_iff.mp h)]

@[simp] theorem get_empty : (empty : JsMap K V).get key = none := rfl

theorem get_filter (p : K → V → Bool) : (m.filter p).get key = (m.get key).filter (p key) := by
  cases hget : m.get key with
  | none =>
    rw [Option.filter_none, get_eq_none_iff]
    rw [get_eq_none_iff] at hget
    exact fun hmem => hget ((filter_sublist.map _).subset hmem)
  | some value =>
    have hmem := get_eq_some_iff.mp hget
    cases hp : p key value with
    | true =>
      rw [Option.filter_some_pos hp, get_eq_some_iff]
      exact mem_filter.mpr ⟨hmem, hp⟩
    | false =>
      rw [Option.filter_some_neg (by rw [hp]), get_eq_none_iff]
      intro hin
      obtain ⟨⟨k, other⟩, hother, rfl⟩ := mem_map.mp hin
      obtain ⟨hother, hpass⟩ := mem_filter.mp hother
      have hsame := Option.some.inj (hget.symm.trans (get_eq_some_iff.mpr hother))
      rw [← hsame] at hpass
      exact absurd hpass (by rw [hp]; exact Bool.false_ne_true)

theorem get_delete : (m.delete key).get key' = if key' = key then none else m.get key' := by
  rw [delete, get_filter]
  split
  · next h => cases m.get key' <;> simp [h]
  · next h => cases m.get key' <;> simp [h]

theorem get_set : (m.set key value).get key' = if key' = key then some value else m.get key' := by
  unfold set
  split
  · next hin =>
    split
    · next heq =>
      obtain ⟨entry, hentry, hkey⟩ := mem_map.mp hin
      rw [get_eq_some_iff, heq]
      exact mem_map.mpr ⟨entry, hentry, if_pos hkey⟩
    · next hne =>
      ext other
      rw [get_eq_some_iff, get_eq_some_iff]
      show (key', other) ∈ replaced m.entries key value ↔ _
      rw [replaced, mem_map]
      constructor
      · rintro ⟨entry, hentry, heq⟩
        split at heq
        · exact absurd (congrArg Prod.fst heq).symm hne
        · exact heq ▸ hentry
      · exact fun hentry => ⟨_, hentry, if_neg hne⟩
  · next hout =>
    split
    · next heq =>
      rw [get_eq_some_iff, heq]
      exact mem_append_right _ (mem_singleton_self _)
    next hne =>
    ext other
    rw [get_eq_some_iff, get_eq_some_iff]
    rw [mem_append, mem_singleton]
    exact ⟨fun h => h.resolve_right fun heq => hne (congrArg Prod.fst heq), .inl⟩

/-! ## Totals -/

omit [DecidableEq K] in
theorem size_eq_total (m : JsMap K V) : m.size = m.total fun _ => 1 := by
  simp [size, total]

omit [DecidableEq K] in
omit [DecidableEq K] in
theorem size_filter_le (p : K → V → Bool) : (m.filter p).size ≤ m.size := length_filter_le _ _

theorem total_delete (weight : V → Nat) (m : JsMap K V) (key : K) :
    (m.delete key).total weight + (m.get key).elim 0 weight = m.total weight := by
  have hlist : ∀ entries : List (K × V), (entries.map Prod.fst).Nodup →
      ((entries.filter fun entry => entry.1 ≠ key).map fun entry => weight entry.2).sum +
        ((entries.find? fun entry => entry.1 = key).map Prod.snd).elim 0 weight =
      (entries.map fun entry => weight entry.2).sum := by
    intro entries
    induction entries with
    | nil => exact fun _ => rfl
    | cons entry entries ih =>
      intro hnodup
      rw [map_cons, nodup_cons] at hnodup
      have htail := ih hnodup.2
      by_cases hkey : entry.1 = key
      · have hnone : entries.find? (fun e => e.1 = key) = none := by
          rw [find?_eq_none]
          intro e he heq
          exact hnodup.1 (mem_map.mpr ⟨e, he, (of_decide_eq_true heq).trans hkey.symm⟩)
        rw [hnone] at htail
        rw [filter_cons_of_neg (by simpa using hkey),
          find?_cons_of_pos (by simpa using hkey), map_cons, sum_cons, ← htail]
        exact Nat.add_comm _ _
      · rw [filter_cons_of_pos (by simpa using hkey),
          find?_cons_of_neg (by simpa using hkey), map_cons, map_cons,
          sum_cons, sum_cons, ← htail]
        exact Nat.add_assoc _ _ _
  exact hlist m.entries m.nodup

theorem total_set (weight : V → Nat) (m : JsMap K V) (key : K) (value : V) :
    (m.set key value).total weight + (m.get key).elim 0 weight = m.total weight + weight value := by
  unfold set
  split
  · next hin =>
    have hlist : ∀ entries : List (K × V), (entries.map Prod.fst).Nodup →
        key ∈ entries.map Prod.fst →
        ((replaced entries key value).map fun entry => weight entry.2).sum +
          ((entries.find? fun entry => entry.1 = key).map Prod.snd).elim 0 weight =
        (entries.map fun entry => weight entry.2).sum + weight value := by
      intro entries
      induction entries with
      | nil => exact fun _ h => absurd h not_mem_nil
      | cons entry entries ih =>
        intro hnodup hmem
        rw [map_cons, nodup_cons] at hnodup
        by_cases hkey : entry.1 = key
        · have hsame : replaced entries key value = entries := by
            unfold replaced
            rw [map_congr_left fun e he => if_neg fun heq => hnodup.1
              (mem_map.mpr ⟨e, he, heq.trans hkey.symm⟩), map_id']
          rw [find?_cons_of_pos (by simpa using hkey)]
          unfold replaced at hsame ⊢
          rw [map_cons, hsame, if_pos hkey, map_cons, map_cons, sum_cons, sum_cons]
          show weight value + _ + weight entry.2 = weight entry.2 + _ + weight value
          omega
        · have htail := ih hnodup.2 (by
            rcases mem_cons.mp hmem with heq | hmem
            · exact absurd heq.symm hkey
            · exact hmem)
          rw [find?_cons_of_neg (by simpa using hkey)]
          unfold replaced at htail ⊢
          rw [map_cons, if_neg hkey, map_cons, map_cons, sum_cons, sum_cons]
          omega
    exact hlist m.entries m.nodup hin
  · next hout =>
    rw [get_eq_none_iff.mpr hout, total, map_append, sum_append, total]
    simp

theorem size_set_le (m : JsMap K V) (key : K) (value : V) :
    (m.set key value).size ≤ m.size + 1 := by
  have htotal := m.total_set (fun _ => 1) key value
  rw [← size_eq_total, ← size_eq_total] at htotal
  omega

end JsMap

end TegoNext
