import Mathlib.Data.List.Nodup
import Mathlib.Data.List.Basic
import Std.Data.ExtTreeMap

/-! Ordered maps with extensional equality: what insertion and removal change, the list of entries,
the first entry at or after a key, and maps of maps that keep no empty inner map. -/

namespace NdnSvs.Lib

open Std

abbrev Map (κ : Type*) (ν : Type*) [Ord κ] := ExtTreeMap κ ν compare

namespace Map

variable {κ ν : Type*} [Ord κ] [TransOrd κ] [LawfulEqOrd κ]

theorem get_insert [DecidableEq κ] (m : Map κ ν) (k k' : κ) (v : ν) :
    (m.insert k v)[k']? = if k = k' then some v else m[k']? := by
  simp [ExtTreeMap.getElem?_insert]

theorem get_erase [DecidableEq κ] (m : Map κ ν) (k k' : κ) :
    (m.erase k)[k']? = if k = k' then none else m[k']? := by
  simp [ExtTreeMap.getElem?_erase]

theorem get_insert_ne {m : Map κ ν} {k k' : κ} {v : ν} (h : k ≠ k') :
    (m.insert k v)[k']? = m[k']? := by
  classical rw [get_insert, if_neg h]

theorem get_erase_ne {m : Map κ ν} {k k' : κ} (h : k ≠ k') : (m.erase k)[k']? = m[k']? := by
  classical rw [get_erase, if_neg h]

theorem mem_toList {m : Map κ ν} {k : κ} {v : ν} : (k, v) ∈ m.toList ↔ m[k]? = some v :=
  ExtTreeMap.mem_toList_iff_getElem?_eq_some

/-- The keys of the entries that have a property. -/
def keysWhere (m : Map κ ν) (p : κ → ν → Bool) : List κ :=
  (m.toList.filter fun entry => p entry.1 entry.2).map Prod.fst

theorem mem_keysWhere {m : Map κ ν} {p : κ → ν → Bool} {k : κ} :
    k ∈ m.keysWhere p ↔ ∃ v, m[k]? = some v ∧ p k v := by
  rw [keysWhere, List.mem_map]
  constructor
  · rintro ⟨entry, hentry, rfl⟩
    obtain ⟨hmem, hp⟩ := List.mem_filter.mp hentry
    exact ⟨entry.2, mem_toList.mp hmem, hp⟩
  · rintro ⟨v, hget, hp⟩
    exact ⟨(k, v), List.mem_filter.mpr ⟨mem_toList.mpr hget, hp⟩, rfl⟩

theorem nodup_keys (m : Map κ ν) : (m.toList.map Prod.fst).Nodup := by
  refine List.pairwise_map.mpr (ExtTreeMap.distinct_keys_toList.imp fun hne heq => hne ?_)
  rw [heq]
  exact ReflCmp.compare_self

theorem nodup_keysWhere (m : Map κ ν) (p : κ → ν → Bool) : (m.keysWhere p).Nodup :=
  (nodup_keys m).sublist (List.filter_sublist.map Prod.fst)

theorem getElem?_eraseAll [DecidableEq κ] (m : Map κ ν) (keys : List κ) (k : κ) :
    (keys.foldl (fun m k => m.erase k) m)[k]? = if k ∈ keys then none else m[k]? := by
  induction keys generalizing m with
  | nil => simp
  | cons key keys ih =>
    rw [List.foldl_cons, ih, get_erase]
    by_cases hk : k ∈ keys
    · rw [if_pos hk, if_pos (List.mem_cons_of_mem _ hk)]
    · by_cases heq : key = k
      · rw [if_neg hk, if_pos heq, if_pos (heq ▸ List.mem_cons_self)]
      · rw [if_neg hk, if_neg heq, if_neg]
        exact fun hmem => (List.mem_cons.mp hmem).elim (fun h => heq h.symm) hk

theorem mem_eraseAll {m : Map κ ν} {keys : List κ} {k : κ} :
    k ∈ keys.foldl (fun m k => m.erase k) m ↔ k ∈ m ∧ k ∉ keys := by
  classical
  rw [ExtTreeMap.mem_iff_isSome_getElem?, getElem?_eraseAll, ExtTreeMap.mem_iff_isSome_getElem?]
  by_cases hmem : k ∈ keys
  · simp [hmem]
  · simp [hmem]

theorem mem_keys {m : Map κ ν} {k : κ} : k ∈ m.toList.map Prod.fst ↔ k ∈ m := by
  rw [ExtTreeMap.mem_iff_isSome_getElem?, Option.isSome_iff_exists, List.mem_map]
  constructor
  · rintro ⟨entry, hentry, rfl⟩
    exact ⟨entry.2, mem_toList.mp hentry⟩
  · rintro ⟨v, hget⟩
    exact ⟨(k, v), mem_toList.mpr hget, rfl⟩

/-- Removing keys brings no value in. -/
theorem get_of_eraseAll {m : Map κ ν} {keys : List κ} {k : κ} {v : ν}
    (h : (keys.foldl (fun m k => m.erase k) m)[k]? = some v) : m[k]? = some v := by
  classical
  rw [getElem?_eraseAll] at h
  split at h
  · cases h
  · exact h

/-- Insertions of values under keys of their own. -/
def insertAll {α : Type*} (key : α → κ) (m : Map κ α) (xs : List α) : Map κ α :=
  xs.foldl (fun m x => m.insert (key x) x) m

section InsertAll

variable {α : Type*} {key : α → κ} {xs : List α}

theorem insertAll_get_of_not_mem {m : Map κ α} {k : κ} (h : k ∉ xs.map key) :
    (m.insertAll key xs)[k]? = m[k]? := by
  induction xs generalizing m with
  | nil => rfl
  | cons x xs ih =>
    rw [List.map_cons, List.mem_cons, not_or] at h
    exact (ih h.2).trans (get_insert_ne (Ne.symm h.1))

theorem insertAll_get {m : Map κ α} (hkeys : (xs.map key).Nodup) {x : α} (hx : x ∈ xs) :
    (m.insertAll key xs)[key x]? = some x := by
  classical
  induction xs generalizing m with
  | nil => cases hx
  | cons y xs ih =>
    obtain ⟨hy, hkeys⟩ := List.nodup_cons.mp hkeys
    rcases List.mem_cons.mp hx with rfl | hx
    · exact (insertAll_get_of_not_mem hy).trans (by rw [get_insert, if_pos rfl])
    · exact ih hkeys hx

theorem size_insertAll {m : Map κ α} (hkeys : (xs.map key).Nodup)
    (hnew : ∀ x ∈ xs, key x ∉ m) : (m.insertAll key xs).size = m.size + xs.length := by
  induction xs generalizing m with
  | nil => rfl
  | cons x xs ih =>
    obtain ⟨hx, hkeys⟩ := List.nodup_cons.mp hkeys
    have hsize : (m.insert (key x) x).size = m.size + 1 := by
      rw [ExtTreeMap.size_insert, if_neg (by simpa using hnew x List.mem_cons_self)]
    have hfresh : ∀ y ∈ xs, key y ∉ m.insert (key x) x := by
      intro y hy hmem
      rcases ExtTreeMap.mem_insert.mp hmem with heq | hmem
      · exact hx (LawfulEqOrd.eq_of_compare heq ▸ List.mem_map_of_mem hy)
      · exact hnew y (List.mem_cons_of_mem _ hy) hmem
    rw [insertAll, List.foldl_cons, List.length_cons]
    refine (ih hkeys hfresh).trans ?_
    omega

end InsertAll

/-- The first entry whose key is not before `k`. -/
def lowerBound (m : Map κ ν) (k : κ) : Option (κ × ν) :=
  m.toList.find? fun entry => (compare entry.1 k).isGE

/-! ### Maps of maps -/

section Nested

set_option linter.unusedSectionVars false

variable {ι : Type*} [Ord ι] [TransOrd ι] [LawfulEqOrd ι]

/-- The value at an inner key. -/
def getAt (m : Map κ (Map ι ν)) (k : κ) (i : ι) : Option ν := (m[k]?).bind fun inner => inner[i]?

def insertAt (m : Map κ (Map ι ν)) (k : κ) (i : ι) (v : ν) : Map κ (Map ι ν) :=
  m.insert k (((m[k]?).getD ∅).insert i v)

/-- Removes an inner key, and the inner map with its last key. -/
def eraseAt (m : Map κ (Map ι ν)) (k : κ) (i : ι) : Map κ (Map ι ν) :=
  match m[k]? with
  | none => m
  | some inner => if (inner.erase i).isEmpty then m.erase k else m.insert k (inner.erase i)

/-- The number of inner keys. -/
def sizeAt (m : Map κ (Map ι ν)) (k : κ) : Nat := ((m[k]?).getD ∅).size

def NoEmpty (m : Map κ (Map ι ν)) : Prop := ∀ (k : κ) (inner : Map ι ν), m[k]? =
    some inner → inner ≠ ∅

@[simp] theorem getAt_empty (k : κ) (i : ι) : getAt (∅ : Map κ (Map ι ν)) k i = none := by
  simp [getAt]

theorem noEmpty_empty : NoEmpty (∅ : Map κ (Map ι ν)) := by
  intro k inner h
  simp at h

theorem getAt_insertAt [DecidableEq κ] [DecidableEq ι] (m : Map κ (Map ι ν)) (k k' : κ) (i i' : ι)
    (v : ν) : (m.insertAt k i v).getAt k' i' =
      if k = k' ∧ i = i' then some v else m.getAt k' i' := by
  rw [getAt, insertAt, get_insert]
  by_cases hk : k = k'
  · subst hk
    rw [if_pos rfl, Option.bind_some, get_insert, getAt]
    cases m[k]? <;> simp
  · rw [if_neg hk, if_neg fun h => hk h.1, getAt]

theorem getAt_eraseAt [DecidableEq κ] [DecidableEq ι] (m : Map κ (Map ι ν)) (k k' : κ) (i i' : ι) :
    (m.eraseAt k i).getAt k' i' = if k = k' ∧ i = i' then none else m.getAt k' i' := by
  rw [eraseAt]
  cases hm : m[k]? with
  | none =>
    simp only [getAt]
    by_cases hk : k = k'
    · subst hk
      simp [hm]
    · rw [if_neg fun h => hk h.1]
  | some inner =>
    simp only
    by_cases hk : k = k'
    · subst hk
      have hin : getAt m k i' = inner[i']? := by rw [getAt, hm, Option.bind_some]
      have herase : (inner.erase i)[i']? = if i = i' then none else inner[i']? := get_erase _ _ _
      rw [hin]
      by_cases hempty : (inner.erase i).isEmpty
      · rw [if_pos hempty]
        rw [show inner.erase i = ∅ by simpa using hempty] at herase
        rw [getAt, get_erase, if_pos rfl]
        simpa using herase
      · rw [if_neg hempty, getAt, get_insert, if_pos rfl, Option.bind_some, herase]
        simp
    · have hne : ¬(k = k' ∧ i = i') := fun h => hk h.1
      rw [if_neg hne, getAt, getAt]
      split
      · rw [get_erase_ne hk]
      · rw [get_insert_ne hk]

theorem noEmpty_insertAt {m : Map κ (Map ι ν)} (h : m.NoEmpty) (k : κ) (i : ι) (v : ν) :
    (m.insertAt k i v).NoEmpty := by
  classical
  intro k' inner hk'
  rw [insertAt, get_insert] at hk'
  split at hk'
  · obtain rfl := Option.some.inj hk'
    exact ExtTreeMap.insert_ne_empty
  · exact h k' inner hk'

theorem noEmpty_eraseAt {m : Map κ (Map ι ν)} (h : m.NoEmpty) (k : κ) (i : ι) :
    (m.eraseAt k i).NoEmpty := by
  classical
  intro k' inner hk'
  rw [eraseAt] at hk'
  split at hk'
  · exact h k' inner hk'
  · split at hk'
    · rw [get_erase] at hk'
      split at hk'
      · cases hk'
      · exact h k' inner hk'
    · rename_i hkept
      rw [get_insert] at hk'
      split at hk'
      · obtain rfl := Option.some.inj hk'
        simpa using hkept
      · exact h k' inner hk'

theorem getAt_of_get {m : Map κ (Map ι ν)} {k : κ} {inner : Map ι ν} (h : m[k]? = some inner)
    (i : ι) : m.getAt k i = inner[i]? := by
  rw [getAt, h, Option.bind_some]

theorem NoEmpty.exists_getAt {m : Map κ (Map ι ν)} (h : m.NoEmpty) {k : κ} {inner : Map ι ν}
    (hk : m[k]? = some inner) : ∃ i v, m.getAt k i = some v := by
  by_contra hnone
  push Not at hnone
  refine h k inner hk (ExtTreeMap.ext_getElem? fun i => ?_)
  rw [← getAt_of_get hk, Option.eq_none_iff_forall_ne_some.mpr (hnone i)]
  simp

/-- Maps of nonempty maps are equal when they have the same values. -/
theorem NoEmpty.ext {m m' : Map κ (Map ι ν)} (h : m.NoEmpty) (h' : m'.NoEmpty)
    (heq : ∀ k i, m.getAt k i = m'.getAt k i) : m = m' := by
  refine ExtTreeMap.ext_getElem? fun k => ?_
  cases hk : m[k]? with
  | none =>
    cases hk' : m'[k]? with
    | none => rfl
    | some inner' =>
      obtain ⟨i, v, hi⟩ := h'.exists_getAt hk'
      rw [← heq, getAt, hk] at hi
      cases hi
  | some inner =>
    cases hk' : m'[k]? with
    | none =>
      obtain ⟨i, v, hi⟩ := h.exists_getAt hk
      rw [heq, getAt, hk'] at hi
      cases hi
    | some inner' =>
      refine congrArg some (ExtTreeMap.ext_getElem? fun i => ?_)
      rw [← getAt_of_get hk, heq, getAt_of_get hk']

/-- A map of nonempty maps without a value is empty. -/
theorem NoEmpty.eq_empty {m : Map κ (Map ι ν)} (h : m.NoEmpty) (hnone : ∀ k i, m.getAt k i = none) :
    m = ∅ :=
  h.ext noEmpty_empty fun k i => by rw [hnone, getAt_empty]

theorem sizeAt_eraseAt {m : Map κ (Map ι ν)} {k : κ} {i : ι} {v : ν} (h : m.getAt k i = some v) :
    (m.eraseAt k i).sizeAt k + 1 = m.sizeAt k := by
  obtain ⟨inner, hk, hi⟩ := Option.bind_eq_some_iff.mp h
  have hmem : i ∈ inner := ExtTreeMap.mem_iff_isSome_getElem?.mpr (by rw [hi]; rfl)
  have hpos : inner.size ≠ 0 := fun hzero => by
    rw [ExtTreeMap.eq_empty_iff_size_eq_zero.mpr hzero] at hi
    simp at hi
  have hsize : (inner.erase i).size + 1 = inner.size := by
    rw [ExtTreeMap.size_erase, if_pos (ExtTreeMap.mem_iff_contains.mp hmem)]
    omega
  rw [sizeAt, sizeAt, eraseAt, hk]
  simp only [Option.getD_some]
  split
  · rename_i hempty
    rw [show inner.erase i = ∅ by simpa using hempty] at hsize
    simpa using hsize
  · simpa using hsize

end Nested

end Map

end NdnSvs.Lib
