import NdnSvs.Lib.Maps

/-! Maps that remember the order in which their keys were inserted, and drop the oldest keys beyond
a limit.  The order lists each key once. -/

namespace NdnSvs.Lib

open Std

structure Fifo (κ : Type*) (ν : Type*) [Ord κ] [TransOrd κ] where
  entries : Map κ ν
  order : List κ
  nodup : order.Nodup
  mem_order : ∀ k, k ∈ order ↔ k ∈ entries

namespace Fifo

variable {κ ν : Type*} [Ord κ] [TransOrd κ]

theorem mem_order_empty (k : κ) : k ∈ ([] : List κ) ↔ k ∈ (∅ : Map κ ν) := by
  simp

def empty : Fifo κ ν := ⟨∅, [], List.nodup_nil, mem_order_empty⟩

theorem insert_nodup (q : Fifo κ ν) (k : κ) :
    (if k ∈ q.entries then q.order else q.order ++ [k]).Nodup := by
  split
  · exact q.nodup
  · rename_i h
    refine List.nodup_append.mpr ⟨q.nodup, List.nodup_singleton k, fun a ha b hb => ?_⟩
    obtain rfl := List.mem_singleton.mp hb
    exact fun heq => h ((q.mem_order b).mp (heq ▸ ha))

variable [LawfulEqOrd κ]

theorem insert_mem_order (q : Fifo κ ν) (k : κ) (v : ν) (k' : κ) :
    k' ∈ (if k ∈ q.entries then q.order else q.order ++ [k]) ↔ k' ∈ q.entries.insert k v := by
  rw [ExtTreeMap.mem_insert, Std.compare_eq_iff_eq, ← q.mem_order k']
  split
  · rename_i h
    refine ⟨.inr, fun hmem => hmem.elim (fun heq => ?_) id⟩
    exact heq ▸ (q.mem_order k).mpr h
  · rw [List.mem_append, List.mem_singleton, or_comm, eq_comm]

/-- A key that is there already keeps its place. -/
def insert (q : Fifo κ ν) (k : κ) (v : ν) : Fifo κ ν where
  entries := q.entries.insert k v
  order := if k ∈ q.entries then q.order else q.order ++ [k]
  nodup := q.insert_nodup k
  mem_order := q.insert_mem_order k v

theorem erase_mem_order {m : Map κ ν} {k : κ} {ks : List κ} (hnodup : (k :: ks).Nodup)
    (h : ∀ k', k' ∈ k :: ks ↔ k' ∈ m) (k' : κ) : k' ∈ ks ↔ k' ∈ m.erase k := by
  rw [ExtTreeMap.mem_erase, Ne, Std.compare_eq_iff_eq, ← h k', List.mem_cons]
  constructor
  · exact fun hmem => ⟨fun heq => (List.nodup_cons.mp hnodup).1 (heq ▸ hmem), .inr hmem⟩
  · rintro ⟨hne, rfl | hmem⟩
    · exact absurd rfl hne
    · exact hmem

variable [DecidableEq κ]

/-- Drops keys from the front of the order while there are more than `limit`. -/
def evictLoop (limit : Nat) (m : Map κ ν) (order : List κ) (nodup : order.Nodup)
    (mem_order : ∀ k, k ∈ order ↔ k ∈ m) : Fifo κ ν :=
  match order with
  | [] => ⟨m, [], nodup, mem_order⟩
  | k :: ks =>
    if limit < m.size then
      evictLoop limit (m.erase k) ks (List.nodup_cons.mp nodup).2 (erase_mem_order nodup mem_order)
    else ⟨m, k :: ks, nodup, mem_order⟩

def evict (limit : Nat) (q : Fifo κ ν) : Fifo κ ν :=
  evictLoop limit q.entries q.order q.nodup q.mem_order

theorem evictLoop_get {limit : Nat} {m : Map κ ν} {order : List κ} {nodup : order.Nodup}
    {mem_order : ∀ k, k ∈ order ↔ k ∈ m} {k : κ} {v : ν}
    (h : (evictLoop limit m order nodup mem_order).entries[k]? = some v) : m[k]? = some v := by
  induction order generalizing m with
  | nil => exact h
  | cons k' ks ih =>
    rw [evictLoop] at h
    split at h
    · have hrest := ih h
      rw [Map.get_erase] at hrest
      split at hrest
      · cases hrest
      · exact hrest
    · exact h

/-- What is there after the oldest keys are dropped was there before. -/
theorem evict_get {limit : Nat} {q : Fifo κ ν} {k : κ} {v : ν}
    (h : (q.evict limit).entries[k]? = some v) : q.entries[k]? = some v :=
  evictLoop_get h

/-- What is there after an insertion and the drop of the oldest keys is new, or was there before. -/
theorem mem_insert_evict {limit : Nat} {q : Fifo κ ν} {k k' : κ} {v : ν}
    (h : k' ∈ ((q.insert k v).evict limit).entries) : k' = k ∨ k' ∈ q.entries := by
  rw [ExtTreeMap.mem_iff_isSome_getElem?, Option.isSome_iff_exists] at h
  obtain ⟨v', hget⟩ := h
  have hmem : k' ∈ q.entries.insert k v :=
    ExtTreeMap.mem_iff_isSome_getElem?.mpr (Option.isSome_iff_exists.mpr ⟨v', evict_get hget⟩)
  rcases ExtTreeMap.mem_insert.mp hmem with heq | hmem
  · exact .inl (Std.compare_eq_iff_eq.mp heq).symm
  · exact .inr hmem

end Fifo

end NdnSvs.Lib
