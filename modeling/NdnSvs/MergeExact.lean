import Mathlib.Data.List.Nodup
import NdnSvs.CoreReceive

/-! Merging, entry by entry: what the merged vector has, what the two flags say, and which ranges are
reported as missing. -/

namespace NdnSvs

open Lib Lib.Tlv

namespace VersionVector

/-! ### Each entry once -/

/-- The loops over a vector visit each node and epoch once. -/
theorem allEntries_nodup (v : VersionVector) :
    (v.allEntries.map fun e => (e.nid, e.bootstrapTime)).Nodup := by
  rw [allEntries, List.map_flatMap, List.nodup_flatMap]
  have hdistinct : ∀ {κ ν : Type} [Ord κ] [Std.TransOrd κ] [Std.LawfulEqOrd κ] (m : Map κ ν),
      m.toList.Pairwise fun a b => a.1 ≠ b.1 := by
    intro κ ν _ _ _ m
    refine Std.ExtTreeMap.distinct_keys_toList.imp fun hne heq => hne ?_
    exact Std.compare_eq_iff_eq.mpr heq
  constructor
  · intro node _
    rw [List.map_map, List.Nodup, List.pairwise_map]
    exact (hdistinct node.2).imp fun hne heq => hne (congrArg Prod.snd heq)
  · refine (hdistinct v.entries).imp fun hne => ?_
    intro key hkey hkey'
    simp only [List.map_map, List.mem_map, Function.comp_apply] at hkey hkey'
    obtain ⟨e, -, rfl⟩ := hkey
    obtain ⟨e', -, heq⟩ := hkey'
    exact hne (congrArg Prod.fst heq).symm

theorem filter_allEntries (v : VersionVector) (nid : NodeID) (b : BootstrapTime) :
    v.allEntries.filter (fun e => e.nid = nid ∧ e.bootstrapTime = b) =
      ((v.entryAt nid b).map fun s => (⟨nid, b, s⟩ : Entry)).toList := by
  cases h : v.entryAt nid b with
  | none =>
    refine List.filter_eq_nil_iff.mpr fun e he hkey => ?_
    obtain ⟨rfl, rfl⟩ := of_decide_eq_true hkey
    rw [mem_allEntries.mp he] at h
    cases h
  | some s =>
    have hnodup : v.allEntries.Nodup := (allEntries_nodup v).of_map
    refine List.perm_singleton.mp ((List.perm_ext_iff_of_nodup (hnodup.filter _)
      (List.nodup_singleton _)).mpr fun e => ?_)
    rw [List.mem_filter, List.mem_singleton, decide_eq_true_eq]
    constructor
    · rintro ⟨he, rfl, rfl⟩
      rw [mem_allEntries.mp he] at h
      obtain rfl := Option.some.inj h
      rfl
    · rintro rfl
      exact ⟨mem_allEntries.mpr h, rfl, rfl⟩

end VersionVector

open VersionVector

/-! ### What a merge reports -/

/-- The range that the local vector lacks of an entry of the other one. -/
def missingRange (l : VersionVector) (e : Entry) : MissingDataInfo where
  nodeId := e.nid
  low := l.get e.nid e.bootstrapTime + 1
  high := e.seqNo
  bootstrapTime := e.bootstrapTime

/-- Entries at distinct places do not see what the loop has put for each other. -/
theorem foldl_mergeEntry_missing {es : List Entry}
    (hes : (es.map fun e => (e.nid, e.bootstrapTime)).Nodup) (result : MergeComputationResult) :
    (es.foldl mergeEntry result).missingData = result.missingData ++
      (es.filter fun e => result.mergedVector.get e.nid e.bootstrapTime < e.seqNo).map
        (missingRange result.mergedVector) := by
  induction es generalizing result with
  | nil => simp
  | cons e es ih =>
    obtain ⟨he, hes⟩ := List.nodup_cons.mp hes
    have hother : ∀ x ∈ es, (mergeEntry result e).mergedVector.get x.nid x.bootstrapTime =
        result.mergedVector.get x.nid x.bootstrapTime := by
      intro x hx
      rw [mergeEntry_mergedVector, get_raise, if_neg]
      rintro ⟨hnid, hb⟩
      exact he (List.mem_map.mpr ⟨x, hx, (Prod.ext hnid hb).symm⟩)
    have hfilter : (es.filter fun x => (mergeEntry result e).mergedVector.get x.nid
        x.bootstrapTime < x.seqNo) =
        es.filter fun x => result.mergedVector.get x.nid x.bootstrapTime < x.seqNo := by
      refine List.filter_congr fun x hx => ?_
      rw [hother x hx]
    have hmap : (es.filter fun x => result.mergedVector.get x.nid x.bootstrapTime < x.seqNo).map
        (missingRange (mergeEntry result e).mergedVector) =
        (es.filter fun x => result.mergedVector.get x.nid x.bootstrapTime < x.seqNo).map
          (missingRange result.mergedVector) := by
      refine List.map_congr_left fun x hx => ?_
      rw [missingRange, missingRange, hother x (List.mem_filter.mp hx).1]
    rw [List.foldl_cons, ih hes, hfilter, hmap]
    by_cases hlt : result.mergedVector.get e.nid e.bootstrapTime < e.seqNo
    · rw [List.filter_cons, if_pos (decide_eq_true hlt), List.map_cons, mergeEntry, if_pos hlt,
        List.append_assoc]
      rfl
    · rw [List.filter_cons, if_neg (by simpa using hlt), mergeEntry, if_neg hlt]

/-- A merge reports one range for each entry of the other vector that exceeds the local one. -/
theorem computeMerge_missingData (l r : VersionVector) :
    (computeMergeStateVector l r).missingData =
      (r.allEntries.filter fun e => l.get e.nid e.bootstrapTime < e.seqNo).map
        (missingRange l) := by
  rw [computeMerge_eq]
  exact foldl_mergeEntry_missing (allEntries_nodup r) _

theorem missingData_length_le (es : List Entry) (result : MergeComputationResult) :
    result.missingData.length ≤ (es.foldl mergeEntry result).missingData.length := by
  induction es generalizing result with
  | nil => exact le_rfl
  | cons e es ih =>
    refine le_trans ?_ (ih (mergeEntry result e))
    rw [mergeEntry]
    split
    · simp
    · exact le_rfl

theorem foldl_mergeEntry_otherVectorNew (es : List Entry) (result : MergeComputationResult) :
    (es.foldl mergeEntry result).otherVectorNew ↔ result.otherVectorNew ∨
      (es.foldl mergeEntry result).missingData.length ≠ result.missingData.length := by
  induction es generalizing result with
  | nil => simp
  | cons e es ih =>
    rw [List.foldl_cons]
    by_cases hlt : result.mergedVector.get e.nid e.bootstrapTime < e.seqNo
    · have hnew : (mergeEntry result e).otherVectorNew := by rw [mergeEntry, if_pos hlt]
      have hlonger : (mergeEntry result e).missingData.length = result.missingData.length + 1 := by
        rw [mergeEntry, if_pos hlt, List.length_append]
        rfl
      have hrest := missingData_length_le es (mergeEntry result e)
      exact iff_of_true (otherVectorNew_mono es hnew) (.inr (by omega))
    · have hsame : mergeEntry result e = result := if_neg hlt
      rw [hsame]
      exact ih result

/-- An entry that exceeds another vector is one of the entries of its vector. -/
theorem exists_mem_lt_iff {l r : VersionVector} :
    (∃ e ∈ r.allEntries, l.get e.nid e.bootstrapTime < e.seqNo) ↔
      ∃ nid b, l.get nid b < r.get nid b := by
  constructor
  · rintro ⟨e, he, hlt⟩
    refine ⟨e.nid, e.bootstrapTime, ?_⟩
    rwa [get_of_mem_allEntries he]
  · rintro ⟨nid, b, hlt⟩
    have hget : r.get nid b = (r.entryAt nid b).getD 0 := rfl
    cases hentry : r.entryAt nid b with
    | none =>
      rw [hget, hentry] at hlt
      exact absurd hlt (Nat.not_lt_zero _)
    | some s =>
      rw [hget, hentry] at hlt
      exact ⟨⟨nid, b, s⟩, mem_allEntries.mpr hentry, hlt⟩

theorem computeMerge_otherVectorNew (l r : VersionVector) :
    (computeMergeStateVector l r).otherVectorNew ↔ ∃ nid b, l.get nid b < r.get nid b := by
  have hmissing := computeMerge_missingData l r
  rw [computeMerge_eq] at hmissing ⊢
  have hnew := foldl_mergeEntry_otherVectorNew r.allEntries { mergedVector := l }
  simp only [Bool.false_eq_true, false_or, List.length_nil] at hnew
  dsimp only at hmissing ⊢
  rw [hnew, hmissing, List.length_map, ← exists_mem_lt_iff, ne_eq, List.length_eq_zero_iff,
    List.filter_eq_nil_iff]
  simp

/-- After a merge the vector exceeds the other one exactly where the local one did. -/
theorem computeMerge_myVectorNew_iff (l r : VersionVector) :
    (computeMergeStateVector l r).myVectorNew ↔ ∃ nid b, r.get nid b < l.get nid b := by
  have hexceeds : ∀ v : VersionVector, exceeds v r ↔ ∃ nid b, r.get nid b < v.get nid b := by
    intro v
    rw [← exists_mem_lt_iff, ← not_iff_not, Bool.not_eq_true, exceeds_eq_false]
    push Not
    exact ⟨fun h e he => h _ _ _ (mem_allEntries.mp he),
      fun h nid b s hs => h ⟨nid, b, s⟩ (mem_allEntries.mpr hs)⟩
  rw [computeMerge_myVectorNew, hexceeds]
  refine exists₂_congr fun nid b => ?_
  rw [get_computeMerge, lt_max_iff]
  exact or_iff_left (lt_irrefl _)

/-- The ranges reported for one node and epoch. -/
theorem missingData_at (l r : VersionVector) (nid : NodeID) (b : BootstrapTime) :
    (computeMergeStateVector l r).missingData.filter
      (fun info => info.nodeId = nid ∧ info.bootstrapTime = b) =
      if l.get nid b < r.get nid b then
        [{ nodeId := nid, low := l.get nid b + 1, high := r.get nid b, bootstrapTime := b }]
      else [] := by
  rw [computeMerge_missingData, List.filter_map, List.filter_filter]
  have hswap : (r.allEntries.filter fun e =>
      ((fun info : MissingDataInfo => decide (info.nodeId = nid ∧ info.bootstrapTime = b)) ∘
        missingRange l) e && decide (l.get e.nid e.bootstrapTime < e.seqNo)) =
      (r.allEntries.filter fun e => e.nid = nid ∧ e.bootstrapTime = b).filter fun e =>
        l.get e.nid e.bootstrapTime < e.seqNo := by
    rw [List.filter_filter]
    refine List.filter_congr fun e _ => ?_
    rw [Bool.and_comm]
    rfl
  have hget : r.get nid b = (r.entryAt nid b).getD 0 := rfl
  rw [hswap, filter_allEntries, hget]
  cases r.entryAt nid b with
  | none => simp
  | some s =>
    by_cases hlt : l.get nid b < s
    · simp [hlt, missingRange]
    · simp [hlt]

/-- A merge takes the larger entry everywhere, its flags say which of the two vectors exceeds the
other somewhere, and it reports one range for each entry that the other vector has more of.  On
entries it is commutative, associative and idempotent. -/
theorem merge_exact (l r : VersionVector) :
    (∀ nid b, (computeMergeStateVector l r).mergedVector.get nid b =
      max (l.get nid b) (r.get nid b)) ∧
    ((computeMergeStateVector l r).otherVectorNew ↔ ∃ nid b, l.get nid b < r.get nid b) ∧
    ((computeMergeStateVector l r).myVectorNew ↔ ∃ nid b, r.get nid b < l.get nid b) ∧
    (∀ nid b, (computeMergeStateVector l r).missingData.filter
      (fun info => info.nodeId = nid ∧ info.bootstrapTime = b) =
      if l.get nid b < r.get nid b then
        [{ nodeId := nid, low := l.get nid b + 1, high := r.get nid b, bootstrapTime := b }]
      else []) ∧
    (∀ nid b, (computeMergeStateVector l r).mergedVector.get nid b =
      (computeMergeStateVector r l).mergedVector.get nid b) ∧
    (∀ (m : VersionVector) nid b,
      (computeMergeStateVector (computeMergeStateVector l r).mergedVector m).mergedVector.get nid b =
        (computeMergeStateVector l (computeMergeStateVector r m).mergedVector).mergedVector.get
          nid b) ∧
    ∀ nid b, (computeMergeStateVector l l).mergedVector.get nid b = l.get nid b := by
  refine ⟨get_computeMerge l r, computeMerge_otherVectorNew l r, computeMerge_myVectorNew_iff l r,
    missingData_at l r, fun nid b => ?_, fun m nid b => ?_, fun nid b => ?_⟩
  · rw [get_computeMerge, get_computeMerge]
    exact max_comm _ _
  · simp only [get_computeMerge]
    exact max_assoc _ _ _
  · rw [get_computeMerge]
    exact max_self _

end NdnSvs
