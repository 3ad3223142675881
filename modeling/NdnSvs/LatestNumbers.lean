import NdnSvs.VectorCodec

/-! The map of the latest numbers that a state vector keeps beside its entries.  Every call of `set`
and every decoder leave it with the nodes of the entries, each with the largest of its numbers. -/

namespace NdnSvs

open Lib Lib.Tlv

namespace VersionVector

/-- The entries hold positive numbers and no node without an epoch, and the map of the latest
numbers is that of their maxima. -/
structure Consistent (v : VersionVector) : Prop where
  nodes : ∀ nid, nid ∈ v.latestMap ↔ nid ∈ v.entries
  latest : ∀ (nid : NodeID) (node : BootstrapSeqMap), v.entries[nid]? = some node →
    ∃ s, v.latestMap[nid]? = some s ∧ IsGreatest {t | ∃ b : BootstrapTime, node[b]? = some t} s
  positive : ∀ (nid : NodeID) (node : BootstrapSeqMap), v.entries[nid]? = some node →
    ∀ (b : BootstrapTime) s, node[b]? = some s → 0 < s
  nonempty : ∀ (nid : NodeID) (node : BootstrapSeqMap), v.entries[nid]? = some node → node ≠ ∅

/-- What the entries need to have, for the map of the latest numbers follows from them. -/
structure Sound (v : VersionVector) : Prop where
  nonempty : v.entries.NoEmpty
  positive : ∀ nid b s, v.entryAt nid b = some s → s ≠ 0

theorem sound_empty : Sound {} := ⟨Map.noEmpty_empty, fun nid b s h => by simp at h⟩

theorem Sound.put {v : VersionVector} (h : v.Sound) (nid : NodeID) (b : BootstrapTime) {s : SeqNo}
    (hs : s ≠ 0) : (v.put nid b s).Sound where
  nonempty := noEmpty_put h.nonempty nid b s
  positive := by
    intro nid' b' s' hget
    rw [entryAt_put] at hget
    split at hget
    · obtain rfl := Option.some.inj hget
      exact hs
    · exact h.positive nid' b' s' hget

theorem Sound.trySets {v : VersionVector} (h : v.Sound) (es : List Entry) :
    (es.foldl trySet v).Sound := by
  refine List.foldlRecOn es trySet h fun v hv e _ => ?_
  rcases trySet_cases v e with hthrows | ⟨hpos, hput⟩
  · rw [hthrows]
    exact hv
  · rw [hput]
    exact hv.put _ _ hpos

theorem decode_sound {now : Nat} {b : Block} {v : VersionVector} (h : decode now b = .ok v) :
    v.Sound :=
  decode_induction sound_empty
    (fun _ _ he hv => hv.put _ _ (Nat.pos_iff_ne_zero.mp he.seqNo_pos)) h

theorem decodeV2_sound {b : Block} {v : VersionVector} (h : decodeV2 b = .ok v) : v.Sound :=
  decodeV2_induction sound_empty (fun _ _ _ hpos _ hv => hv.put _ _ hpos) h

theorem seqNosOf_eq {v : VersionVector} {nid : NodeID} {node : BootstrapSeqMap}
    (hnode : v.entries[nid]? = some node) :
    v.seqNosOf nid = {t | ∃ b : BootstrapTime, node[b]? = some t} := by
  simp only [seqNosOf, entryAt, hnode, Option.bind_some]

theorem Sound.consistent {v : VersionVector} (h : v.Sound) : v.Consistent := by
  have hlatest : ∀ (nid : NodeID) (node : BootstrapSeqMap), v.entries[nid]? = some node →
      ∃ s, v.latestMap[nid]? = some s ∧
        IsGreatest {t | ∃ b : BootstrapTime, node[b]? = some t} s := by
    intro nid node hnode
    have hsome : v.latestMap[nid]? = some (maxSeqNo node) := by
      rw [v.latest_eq, latestOf, hnode, Option.bind_some,
        if_neg (by simpa using h.nonempty nid node hnode)]
    refine ⟨_, hsome, ?_⟩
    rw [← seqNosOf_eq hnode]
    exact (latestMap_eq_some h.nonempty).mp hsome
  refine ⟨fun nid => ?_, hlatest, fun nid node hnode b s hs => ?_, h.nonempty⟩
  · rw [Std.ExtTreeMap.mem_iff_isSome_getElem?, Std.ExtTreeMap.mem_iff_isSome_getElem?]
    cases hnode : v.entries[nid]? with
    | none =>
      rw [v.latest_eq, latestOf, hnode, Option.bind_none]
      exact Iff.rfl
    | some node =>
      obtain ⟨s, hs, -⟩ := hlatest nid node hnode
      rw [hs]
      exact Iff.rfl
  · refine Nat.pos_of_ne_zero (h.positive nid b s ?_)
    rw [entryAt, hnode, Option.bind_some, hs]

/-- Whatever calls of `set` there are, on an empty vector or on a decoded one, the vector and its
map of latest numbers agree.  A call that throws changes neither. -/
theorem latest_always_consistent (es : List Entry) :
    Consistent (afterSets es) ∧
      (∀ now b v, decode now b = .ok v → Consistent (es.foldl trySet v)) ∧
      ∀ b v, decodeV2 b = .ok v → Consistent (es.foldl trySet v) :=
  ⟨(sound_empty.trySets es).consistent,
    fun _ _ _ h => ((decode_sound h).trySets es).consistent,
    fun _ _ h => ((decodeV2_sound h).trySets es).consistent⟩

end VersionVector

end NdnSvs
