/-
An unbounded feed with one consumer: a queue of items nobody has asked for yet, or a queue of
questions no item has answered yet.

`push` gives an item to the question that waits longest, or stores it; `next` takes the oldest
stored item, or waits. What was answered together with what is stored is the feed, in its order
(`Delivers`). `close` answers every question with the end, and forgets what is stored.
-/
import Mathlib.Data.List.Basic

set_option autoImplicit false

namespace TegoNext

open List

/-- `waiters` are the numbers of the questions that wait, `results` the answers given so
far, each with the number of its question; `none` is the end. -/
structure WatchIterator (α : Type) where
  queue : List α
  waiters : List Nat
  closed : Bool
  asked : Nat
  results : List (Nat × Option α)

namespace WatchIterator

variable {α : Type}

def start (items : List α) : WatchIterator α where
  queue := items
  waiters := []
  closed := false
  asked := 0
  results := []

def next (w : WatchIterator α) : WatchIterator α :=
  match w.queue with
  | item :: rest => { w with
      queue := rest
      asked := w.asked + 1
      results := w.results ++ [(w.asked, some item)] }
  | [] =>
    if w.closed then { w with asked := w.asked + 1, results := w.results ++ [(w.asked, none)] }
    else { w with asked := w.asked + 1, waiters := w.waiters ++ [w.asked] }

def push (w : WatchIterator α) (item : α) : WatchIterator α :=
  if w.closed then w
  else
    match w.waiters with
    | [] => { w with queue := w.queue ++ [item] }
    | waiter :: rest => { w with waiters := rest, results := w.results ++ [(waiter, some item)] }

def close (w : WatchIterator α) : WatchIterator α :=
  if w.closed then w
  else { w with
    queue := []
    waiters := []
    closed := true
    results := w.results ++ w.waiters.map fun waiter => (waiter, none) }

/-- The items the consumer got, in the order of its questions. -/
def yielded (w : WatchIterator α) : List α := w.results.filterMap (·.2)

/-- The iterator hands out `feed`, in order, and then the end. While it is open, what it has not
handed out is stored, and nobody waits when something is. -/
structure Delivers (w : WatchIterator α) (feed : List α) : Prop where
  inOrder : w.results.map (·.1) ++ w.waiters = List.range w.asked
  items : ∃ ends, w.results.map (·.2) = w.yielded.map some ++ List.replicate ends none ∧
    (w.closed = false → ends = 0)
  stored : w.closed = false → w.yielded ++ w.queue = feed
  awake : w.waiters = [] ∨ w.queue = []
  ended : w.closed = true → w.yielded <+: feed ∧ w.queue = [] ∧ w.waiters = []

namespace Delivers

variable {w : WatchIterator α} {feed : List α}

theorem start (items : List α) : (start items).Delivers items where
  inOrder := rfl
  items := ⟨0, rfl, fun _ => rfl⟩
  stored _ := rfl
  awake := .inl rfl
  ended h := by cases h

theorem yielded_concat (results : List (Nat × Option α)) (n : Nat) (item : Option α) :
    (results ++ [(n, item)]).filterMap (·.2) = results.filterMap (·.2) ++ item.toList := by
  rw [filterMap_append]
  cases item <;> rfl

theorem next (h : w.Delivers feed) : w.next.Delivers feed := by
  unfold WatchIterator.next
  split
  · next item rest hqueue =>
    have hopen : w.closed = false := by
      by_contra hclosed
      rw [Bool.not_eq_false] at hclosed
      rw [(h.ended hclosed).2.1] at hqueue
      cases hqueue
    have hwaiters : w.waiters = [] := h.awake.resolve_right (by rw [hqueue]; exact cons_ne_nil _ _)
    have horder := h.inOrder
    rw [hwaiters, append_nil] at horder
    obtain ⟨ends, hitems, hends⟩ := h.items
    have hyielded := yielded_concat w.results w.asked (some item)
    refine ⟨?_, ⟨0, ?_, fun _ => rfl⟩, fun _ => ?_, .inl hwaiters, fun hclosed => ?_⟩
    · dsimp only
      rw [map_append, horder, hwaiters, append_nil, range_succ]
      rfl
    · rw [hends hopen, replicate_zero, append_nil] at hitems
      rw [yielded, hyielded, map_append, map_append, replicate_zero, append_nil, hitems]
      rfl
    · rw [yielded, hyielded, Option.toList_some, append_assoc, singleton_append, ← hqueue]
      exact h.stored hopen
    · rw [hopen] at hclosed
      cases hclosed
  next hqueue =>
  split
  · next hclosed =>
    obtain ⟨hextends, -, hwaiters⟩ := h.ended hclosed
    have horder := h.inOrder
    rw [hwaiters, append_nil] at horder
    obtain ⟨ends, hitems, -⟩ := h.items
    have hyielded := yielded_concat w.results w.asked none
    rw [Option.toList_none, append_nil] at hyielded
    refine ⟨?_, ⟨ends + 1, ?_, fun hopen => ?_⟩, fun hopen => ?_, .inl hwaiters, fun _ => ?_⟩
    · dsimp only
      rw [map_append, horder, hwaiters, append_nil, range_succ]
      rfl
    · dsimp only
      rw [yielded, hyielded, map_append, hitems, append_assoc, replicate_succ', yielded]
      rfl
    · exact absurd hclosed (Bool.eq_false_iff.mp hopen)
    · exact absurd hclosed (Bool.eq_false_iff.mp hopen)
    · rw [yielded, hyielded]
      exact ⟨hextends, hqueue, hwaiters⟩
  · next hopen =>
    refine ⟨?_, h.items, h.stored, .inr hqueue, fun hclosed => absurd hclosed hopen⟩
    rw [← append_assoc, h.inOrder, range_succ]

theorem push (h : w.Delivers feed) (item : α) : (w.push item).Delivers (feed ++ [item]) := by
  unfold WatchIterator.push
  split
  · next hclosed =>
    obtain ⟨hextends, hqueue, hwaiters⟩ := h.ended hclosed
    exact ⟨h.inOrder, h.items, fun hopen => absurd hclosed (Bool.eq_false_iff.mp hopen), h.awake,
      fun _ => ⟨hextends.trans (prefix_append _ _), hqueue, hwaiters⟩⟩
  next hopen =>
  have hfeed := h.stored (Bool.not_eq_true _ ▸ hopen)
  split
  · next hwaiters =>
    refine ⟨h.inOrder, h.items, fun _ => ?_, .inl hwaiters, fun hclosed => absurd hclosed hopen⟩
    rw [← hfeed, append_assoc]
    rfl
  · next waiter rest hwaiters =>
    have hqueue : w.queue = [] := h.awake.resolve_left (by rw [hwaiters]; exact cons_ne_nil _ _)
    obtain ⟨ends, hitems, hends⟩ := h.items
    have hyielded := yielded_concat w.results waiter (some item)
    rw [Option.toList_some] at hyielded
    refine ⟨?_, ⟨0, ?_, fun _ => rfl⟩, fun _ => ?_, .inr hqueue, fun hclosed => absurd hclosed hopen⟩
    · have horder := h.inOrder
      rw [hwaiters] at horder
      rw [map_append, append_assoc]
      exact horder
    · rw [hends (Bool.not_eq_true _ ▸ hopen), replicate_zero, append_nil] at hitems
      rw [yielded, hyielded, map_append, map_append, replicate_zero, append_nil, hitems]
      rfl
    · rw [hqueue, append_nil] at hfeed
      rw [yielded, hyielded, hqueue, append_nil, ← hfeed]
      rfl

theorem pushAll (h : w.Delivers feed) (items : List α) :
    (items.foldl WatchIterator.push w).Delivers (feed ++ items) := by
  induction items generalizing w feed with
  | nil =>
    rw [append_nil]
    exact h
  | cons item rest ih =>
    rw [foldl_cons, ← singleton_append, ← append_assoc]
    exact ih (h.push item)

theorem close (h : w.Delivers feed) : w.close.Delivers feed := by
  unfold WatchIterator.close
  split
  · exact h
  next hopen =>
  rw [Bool.not_eq_true] at hopen
  have hnone : ∀ waiters : List Nat,
      (waiters.map fun waiter => (waiter, (none : Option α))).filterMap (·.2) = [] := fun waiters => by
    rw [filterMap_map, filterMap_eq_nil_iff]
    exact fun _ _ => rfl
  have hyielded : (w.results ++ w.waiters.map fun waiter => (waiter, (none : Option α))).filterMap
      (·.2) = w.yielded := by
    rw [filterMap_append, hnone, append_nil, yielded]
  obtain ⟨ends, hitems, hends⟩ := h.items
  refine ⟨?_, ⟨w.waiters.length, ?_, fun h => by cases h⟩, fun h => (by cases h), .inl rfl,
    fun _ => ?_⟩
  · have hfst : (w.waiters.map fun waiter => (waiter, (none : Option α))).map (·.1) = w.waiters := by
      rw [map_map]
      exact map_id' _
    rw [map_append, hfst, append_nil]
    exact h.inOrder
  · rw [hends hopen, replicate_zero, append_nil] at hitems
    rw [yielded, hyielded, map_append, hitems, map_map]
    exact congrArg _ (map_const' ..)
  · refine ⟨?_, rfl, rfl⟩
    rw [yielded, hyielded, ← h.stored hopen]
    exact prefix_append _ _

end Delivers

end WatchIterator

end TegoNext
