import Mathlib.Data.List.DropRight
import NdnSvs.Lib.Fifo

/-! A map and the queue of its keys, kept apart the way programs keep them: only the operations tie
the two together.  After each batch of insertions the oldest keys beyond a limit are removed.  The
results say that the queue lists the keys of the map, and that they are the latest that came in. -/

namespace NdnSvs.Lib

open Std

structure KeyQueue (κ : Type*) (ν : Type*) [Ord κ] where
  entries : Map κ ν := ∅
  order : List κ := []

namespace KeyQueue

section Operations

variable {κ ν : Type*} [Ord κ] [TransOrd κ]

/-- Assigns a value.  A key that is not there joins the queue. -/
def push (q : KeyQueue κ ν) (k : κ) (v : ν) : KeyQueue κ ν where
  entries := q.entries.insert k v
  order := if k ∈ q.entries then q.order else q.order ++ [k]

/-- Removes keys from the front of the queue while the map has more than `limit`. -/
def trimLoop (limit : Nat) (entries : Map κ ν) : List κ → KeyQueue κ ν
  | [] => { entries }
  | k :: order =>
    if limit < entries.size then trimLoop limit (entries.erase k) order
    else { entries, order := k :: order }

def trim (limit : Nat) (q : KeyQueue κ ν) : KeyQueue κ ν := trimLoop limit q.entries q.order

/-- Assigns a batch of values and removes the oldest keys beyond the limit. -/
def accept (limit : Nat) (q : KeyQueue κ ν) (batch : List (κ × ν)) : KeyQueue κ ν :=
  (batch.foldl (fun q entry => q.push entry.1 entry.2) q).trim limit

/-- The keys that a batch brings in, in the order in which they come. -/
def arrivals (q : KeyQueue κ ν) : List (κ × ν) → List κ
  | [] => []
  | entry :: batch => (if entry.1 ∈ q.entries then [] else [entry.1]) ++
      arrivals (q.push entry.1 entry.2) batch

/-- The queue lists each key of the map once, and nothing else. -/
structure WellFormed (q : KeyQueue κ ν) : Prop where
  nodup : q.order.Nodup
  mem_order : ∀ k, k ∈ q.order ↔ k ∈ q.entries

/-- The map and its queue after keys have come in: they are the latest, at most `limit` of them. -/
structure Recent (limit : Nat) (came : List κ) (q : KeyQueue κ ν) : Prop extends WellFormed q where
  size_le : q.entries.size ≤ limit
  order_eq : q.order = came.rtake limit

theorem wellFormed_empty : ({} : KeyQueue κ ν).WellFormed :=
  ⟨List.nodup_nil, fun k => by simp⟩

theorem recent_empty (limit : Nat) : Recent limit [] ({} : KeyQueue κ ν) where
  toWellFormed := wellFormed_empty
  size_le := Nat.zero_le limit
  order_eq := (List.rtake_nil limit).symm

theorem push_order (q : KeyQueue κ ν) (k : κ) (v : ν) :
    (q.push k v).order = q.order ++ if k ∈ q.entries then [] else [k] := by
  rw [push]
  split
  · rw [List.append_nil]
  · rfl

end Operations

variable {κ ν : Type*} [Ord κ] [TransOrd κ] [LawfulEqOrd κ]

theorem WellFormed.push {q : KeyQueue κ ν} (h : q.WellFormed) (k : κ) (v : ν) :
    (q.push k v).WellFormed :=
  ⟨(⟨q.entries, q.order, h.nodup, h.mem_order⟩ : Fifo κ ν).insert_nodup k,
    (⟨q.entries, q.order, h.nodup, h.mem_order⟩ : Fifo κ ν).insert_mem_order k v⟩

theorem WellFormed.size_eq {q : KeyQueue κ ν} (h : q.WellFormed) :
    q.entries.size = q.order.length := by
  have hperm : (q.entries.toList.map Prod.fst).Perm q.order :=
    (List.perm_ext_iff_of_nodup (Map.nodup_keys q.entries) h.nodup).mpr fun k => by
      rw [Map.mem_keys, h.mem_order]
  rw [← hperm.length_eq, List.length_map, ExtTreeMap.length_toList]

theorem trimLoop_spec {limit : Nat} {entries : Map κ ν} {order : List κ}
    (h : WellFormed ⟨entries, order⟩) :
    (trimLoop limit entries order).WellFormed ∧
      (trimLoop limit entries order).order = order.rtake limit := by
  induction order generalizing entries with
  | nil => exact ⟨h, (List.rtake_nil limit).symm⟩
  | cons k order ih =>
    have hsize : entries.size = order.length + 1 := h.size_eq
    rw [trimLoop]
    split
    · rename_i hlarge
      obtain ⟨hrest, horder⟩ :=
        ih ⟨(List.nodup_cons.mp h.nodup).2, Fifo.erase_mem_order h.nodup h.mem_order⟩
      have hkept : (order.length + 1) - limit = (order.length - limit) + 1 := by omega
      refine ⟨hrest, horder.trans ?_⟩
      rw [List.rtake, List.rtake, List.length_cons, hkept, List.drop_succ_cons]
    · rename_i hsmall
      have hkept : (order.length + 1) - limit = 0 := by omega
      refine ⟨h, ?_⟩
      rw [List.rtake, List.length_cons, hkept, List.drop_zero]

theorem WellFormed.trim {q : KeyQueue κ ν} (h : q.WellFormed) (limit : Nat) :
    (q.trim limit).WellFormed := (trimLoop_spec h).1

theorem WellFormed.trim_order {q : KeyQueue κ ν} (h : q.WellFormed) (limit : Nat) :
    (q.trim limit).order = q.order.rtake limit := (trimLoop_spec h).2

theorem WellFormed.pushAll {q : KeyQueue κ ν} (h : q.WellFormed) (batch : List (κ × ν)) :
    (batch.foldl (fun q entry => q.push entry.1 entry.2) q).WellFormed ∧
      (batch.foldl (fun q entry => q.push entry.1 entry.2) q).order =
        q.order ++ q.arrivals batch := by
  induction batch generalizing q with
  | nil => exact ⟨h, (List.append_nil _).symm⟩
  | cons entry batch ih =>
    obtain ⟨hrest, horder⟩ := ih (h.push entry.1 entry.2)
    refine ⟨hrest, horder.trans ?_⟩
    rw [push_order, arrivals, List.append_assoc]

/-- The latest of a list are found among the latest of its beginning and what follows. -/
theorem rtake_append {α : Type*} (xs ys : List α) (limit : Nat) :
    (xs.rtake limit ++ ys).rtake limit = (xs ++ ys).rtake limit := by
  simp only [List.rtake_eq_reverse_take_reverse, List.reverse_append, List.reverse_reverse]
  rw [List.take_append, List.take_append, List.take_take,
    Nat.min_eq_left (Nat.sub_le limit _)]

/-- A batch leaves the latest of the keys that came in. -/
theorem Recent.accept {limit : Nat} {came : List κ} {q : KeyQueue κ ν} (h : q.Recent limit came)
    (batch : List (κ × ν)) : (q.accept limit batch).Recent limit (came ++ q.arrivals batch) := by
  obtain ⟨hpushed, horder⟩ := h.pushAll batch
  have hlatest : (q.accept limit batch).order = (came ++ q.arrivals batch).rtake limit := by
    rw [KeyQueue.accept, hpushed.trim_order, horder, h.order_eq, rtake_append]
  refine ⟨hpushed.trim limit, ?_, hlatest⟩
  rw [KeyQueue.accept, (hpushed.trim limit).size_eq, hpushed.trim_order, List.rtake,
    List.length_drop]
  omega

end KeyQueue

namespace Fifo

variable {κ ν : Type*} [Ord κ] [TransOrd κ]

/-- The map and its queue, without what is known of them. -/
def queue (q : Fifo κ ν) : KeyQueue κ ν := ⟨q.entries, q.order⟩

variable [LawfulEqOrd κ]

theorem queue_insert (q : Fifo κ ν) (k : κ) (v : ν) : (q.insert k v).queue = q.queue.push k v := rfl

theorem queue_evict [DecidableEq κ] (q : Fifo κ ν) (limit : Nat) :
    (q.evict limit).queue = q.queue.trim limit := by
  have hloop : ∀ (order : List κ) (m : Map κ ν) (nodup : order.Nodup)
      (mem_order : ∀ k, k ∈ order ↔ k ∈ m),
      (evictLoop limit m order nodup mem_order).queue = KeyQueue.trimLoop limit m order := by
    intro order
    induction order with
    | nil => exact fun m _ _ => rfl
    | cons k order ih =>
      intro m nodup mem_order
      rw [evictLoop, KeyQueue.trimLoop]
      split
      · exact ih _ _ _
      · rfl
  exact hloop _ _ _ _

end Fifo

end NdnSvs.Lib
