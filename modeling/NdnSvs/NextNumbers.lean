import NdnSvs.FailedCalls

/-! The number that a publication gets next, after the numbers in the own epoch.  For the default
node the core answers with its entry in that epoch, for any other node with the latest number of
all epochs, and every publish path takes the number after the answer. -/

namespace NdnSvs

open Lib Lib.Tlv

namespace Publisher

variable {cfg : PubSubConfig} {p p' : Publisher}

/-! ### What the calls assign -/

/-- A synchronous call that ends without an exception is logged under its number. -/
theorem Publishes.returned {p₀ : Publisher} {nid : NodeID} {seqNo : SeqNo}
    {settle : Publisher → Publisher} (h : Publishes cfg nid seqNo p₀ (p', .ok ()) settle)
    (hsettle : ∀ q, (settle q).returned = q.returned) :
    ∃ packets async, p'.returned = p₀.returned ++ [⟨nid, seqNo, packets, async⟩] := by
  rcases h with ⟨-, hthrows⟩ | ⟨p₁, core, packets, halters, -, -, -, hresult⟩
  · exact absurd rfl hthrows
  · obtain ⟨rfl, -⟩ := Prod.mk.inj hresult
    refine ⟨packets, false, ?_⟩
    rw [return_, hsettle, halters.state]

/-- The number of a call is the next one of its node. -/
theorem returned_of_call {o : Occurrence} {nodePrefix : Name}
    (hnid : o.event.nodePrefix? = some nodePrefix) (h : p.call cfg o = some (p', .ok ())) :
    ∃ packets async, p'.returned = p.returned ++
      [⟨nodeOf cfg nodePrefix, p.nextSeqNo cfg (nodeOf cfg nodePrefix), packets, async⟩] := by
  have hstaged : ∀ kind name freshnessPeriod mappingBlocks,
      p.prepareAndStageAsyncPublication cfg (o.inputs 0) kind name nodePrefix freshnessPeriod
        mappingBlocks = (p', .ok ()) →
      ∃ packets async, p'.returned = p.returned ++
        [⟨nodeOf cfg nodePrefix, p.nextSeqNo cfg (nodeOf cfg nodePrefix), packets, async⟩] := by
    intro kind name freshnessPeriod mappingBlocks hcall
    rcases prepareAndStage_cases cfg (o.inputs 0) p kind name nodePrefix freshnessPeriod
      mappingBlocks with ⟨-, hthrows⟩ | ⟨p₁, prepared, halters, -, hresult⟩
    · rw [hcall] at hthrows
      exact absurd rfl hthrows
    · obtain ⟨rfl, -⟩ := Prod.mk.inj (hcall.symm.trans hresult)
      refine ⟨prepared.outerPackets, true, ?_⟩
      rw [return_, stage, halters.state]
      rfl
  obtain ⟨event, inputs⟩ := o
  cases event with
  | publishBytes name value node freshnessPeriod mappingBlocks =>
    obtain rfl := Option.some.inj hnid
    have hpublishes := @publishBytes_publishes cfg (inputs 0) p name value node freshnessPeriod
      mappingBlocks
    rw [Option.some.inj h] at hpublishes
    exact hpublishes.returned fun _ => rfl
  | publishName name node mappingBlocks =>
    obtain rfl := Option.some.inj hnid
    have hpublishes := @publishName_publishes cfg (inputs 0) p name node mappingBlocks
    rw [Option.some.inj h] at hpublishes
    exact hpublishes.returned fun _ => rfl
  | publishPacket data node mappingBlocks =>
    obtain rfl := Option.some.inj hnid
    have hpublishes := @publishPacket_publishes cfg (inputs 0) p data node mappingBlocks
    rw [Option.some.inj h] at hpublishes
    exact hpublishes.returned fun _ => rfl
  | publishBytesAsync name value node freshnessPeriod mappingBlocks =>
    obtain rfl := Option.some.inj hnid
    exact hstaged _ _ _ _ (Option.some.inj h)
  | publishNameAsync name node freshnessPeriod mappingBlocks =>
    obtain rfl := Option.some.inj hnid
    exact hstaged _ _ _ _ (Option.some.inj h)
  | publishPacketAsync data node mappingBlocks =>
    obtain rfl := Option.some.inj hnid
    exact hstaged _ _ _ _ (Option.some.inj h)
  | preparedPublication => cases h
  | retry => cases h
  | extraBlocks => cases h
  | core => cases h

/-! ### Contiguous numbers -/

/-- The number of every publication that comes next for a node prefix is one more than the entry
of the node in the own epoch. -/
structure ContinuesEpoch (cfg : PubSubConfig) (p : Publisher) (nodePrefix : Name) : Prop where
  reserveSeqNo : (p.reserveSeqNo cfg (nodeOf cfg nodePrefix)).2 =
    p.advertised cfg (nodeOf cfg nodePrefix) + 1
  calls : ∀ (o : Occurrence) (p' : Publisher), o.event.nodePrefix? = some nodePrefix →
    p.call cfg o = some (p', .ok ()) → ∃ packets async, p'.returned = p.returned ++
      [⟨nodeOf cfg nodePrefix, p.advertised cfg (nodeOf cfg nodePrefix) + 1, packets, async⟩]
  publishData : ∀ (env : PublishInputs) (content : Block) (freshness : Int) (contentType : Nat)
    (seq : SeqNo),
    (cfg.svsync.publishData env p content freshness nodePrefix contentType).2 = .ok seq →
    seq = p.advertised cfg (nodeOf cfg nodePrefix) + 1

/-- The node is the default one or has no larger number in another epoch, no larger number is
reserved, and the next number is a 64-bit number. -/
structure OneEpoch (cfg : PubSubConfig) (p : Publisher) (nid : NodeID) : Prop where
  epochs : nid = cfg.core.id ∨ ∀ b, p.core.vv.get nid b ≤ p.advertised cfg nid
  reserved : (p.reservedSeqNo[nid]?).getD 0 ≤ p.advertised cfg nid
  room : p.advertised cfg nid + 1 < 2 ^ 64

end Publisher

namespace VersionVector

/-- The latest number of a node is in one of its epochs, when it has any. -/
theorem getLatest_le_iff {v : VersionVector} {nid : NodeID} {limit : SeqNo} :
    v.getLatest nid ≤ limit ↔ ∀ b, v.get nid b ≤ limit := by
  refine ⟨fun h b => (v.get_le_getLatest nid b).trans h, fun h => ?_⟩
  rw [getLatest, v.latest_eq, latestOf]
  cases hnode : v.entries[nid]? with
  | none => simp
  | some node =>
    rw [Option.bind_some]
    split
    · simp
    · refine Nat.le_of_lt_succ (maxSeqNo_lt (Nat.succ_pos limit) fun b s hs => ?_)
      have hentry := h b
      rw [get, entryAt, hnode, Option.bind_some, hs, Option.getD_some] at hentry
      exact Nat.lt_succ_of_le hentry

end VersionVector

namespace Publisher

variable {cfg : PubSubConfig} {p : Publisher}

/-- The known number of a node is its entry in the own epoch. -/
theorem getSeqNo_le_iff {nid : NodeID}
    (hnode : SVSyncCore.targetNode cfg.core nid = nid) :
    p.core.getSeqNo cfg.core nid ≤ p.advertised cfg nid ↔
      nid = cfg.core.id ∨ ∀ b, p.core.vv.get nid b ≤ p.advertised cfg nid := by
  rw [SVSyncCore.getSeqNo, hnode]
  split
  · rename_i hid
    exact ⟨fun _ => .inl hid, fun _ => le_rfl⟩
  · rename_i hid
    rw [VersionVector.getLatest_le_iff]
    exact ⟨.inr, fun h => h.resolve_left hid⟩

/-- The numbers of a node go on in the own epoch exactly when its other epochs are behind. -/
theorem continues_epoch_iff {nodePrefix : Name} (hvv : p.core.vv.Fits)
    (hreserved : ∀ s ∈ p.reservedSeqNo[nodeOf cfg nodePrefix]?, s < 2 ^ 64) :
    ContinuesEpoch cfg p nodePrefix ↔ OneEpoch cfg p (nodeOf cfg nodePrefix) := by
  have hnode := nodeOf_eq cfg nodePrefix
  have hlast : p.lastSeqNo cfg (nodeOf cfg nodePrefix) =
      max ((p.reservedSeqNo[nodeOf cfg nodePrefix]?).getD 0)
        (p.core.getSeqNo cfg.core (nodeOf cfg nodePrefix)) := rfl
  have hle : p.advertised cfg (nodeOf cfg nodePrefix) ≤
      p.core.getSeqNo cfg.core (nodeOf cfg nodePrefix) := by
    have := SVSyncCore.get_le_getSeqNo cfg.core p.core (nodeOf cfg nodePrefix)
    rwa [hnode] at this
  have hknown : p.core.getSeqNo cfg.core (nodeOf cfg nodePrefix) < 2 ^ 64 := by
    rw [SVSyncCore.getSeqNo]
    split
    · exact hvv _ _
    · exact hvv.latest _
  have hgetD : (p.reservedSeqNo[nodeOf cfg nodePrefix]?).getD 0 < 2 ^ 64 := by
    cases hget : p.reservedSeqNo[nodeOf cfg nodePrefix]? with
    | none => decide
    | some s => exact hreserved s hget
  constructor
  · intro h
    have hnext := h.reserveSeqNo
    rw [Publisher.reserveSeqNo, nextSeqNo, hlast] at hnext
    have hmax : max ((p.reservedSeqNo[nodeOf cfg nodePrefix]?).getD 0)
        (p.core.getSeqNo cfg.core (nodeOf cfg nodePrefix)) =
        p.advertised cfg (nodeOf cfg nodePrefix) := by lia
    refine ⟨(getSeqNo_le_iff hnode).mp ?_, ?_, ?_⟩
    · exact (le_max_right _ _).trans hmax.le
    · exact (le_max_left _ _).trans hmax.le
    · lia
  · intro h
    have hseq : p.core.getSeqNo cfg.core (nodeOf cfg nodePrefix) =
        p.advertised cfg (nodeOf cfg nodePrefix) :=
      ((getSeqNo_le_iff hnode).mpr h.epochs).antisymm hle
    have hnext : p.nextSeqNo cfg (nodeOf cfg nodePrefix) =
        p.advertised cfg (nodeOf cfg nodePrefix) + 1 := by
      rw [nextSeqNo, hlast, hseq, max_eq_right h.reserved, Nat.mod_eq_of_lt h.room]
    refine ⟨hnext, fun o p' hnid hcall => ?_,
      fun env content freshness contentType seq hok => ?_⟩
    · rw [← hnext]
      exact returned_of_call hnid hcall
    · have hnumber : seq = (p.core.getSeqNo cfg.core (nodeOf cfg nodePrefix) + 1) % 2 ^ 64 :=
        cfg.svsync.publishData_eq_ok env p hok
      rw [hnumber, hseq, Nat.mod_eq_of_lt h.room]

/-- The node has published five times in an earlier epoch. -/
def restarted (node : String) : Publisher :=
  { core := { vv := VersionVector.put {} (Name.ofStrings [node]) 50 5 } }

/-- The default node starts from 1 again. -/
theorem continues_epoch_default : ContinuesEpoch sampleConfig (restarted "a") [] :=
  (continues_epoch_iff (VersionVector.fits_empty.put (by decide) _ _) (by simp [restarted])).mpr
    ⟨.inl rfl, by decide +kernel, by decide +kernel⟩

/-- Another node goes on with 6 although it has published nothing in this epoch. -/
theorem alternate_node_skips :
    (restarted "b").advertised sampleConfig (Name.ofStrings ["b"]) = 0 ∧
      ((restarted "b").reserveSeqNo sampleConfig (Name.ofStrings ["b"])).2 = 6 ∧
      ¬ContinuesEpoch sampleConfig (restarted "b") (Name.ofStrings ["b"]) := by
  have hadvertised : (restarted "b").advertised sampleConfig (Name.ofStrings ["b"]) = 0 := by
    decide +kernel
  have hnext : ((restarted "b").reserveSeqNo sampleConfig (Name.ofStrings ["b"])).2 = 6 := by
    decide +kernel
  refine ⟨hadvertised, hnext, fun h => ?_⟩
  have hcontinues := h.reserveSeqNo
  rw [show nodeOf sampleConfig (Name.ofStrings ["b"]) = Name.ofStrings ["b"] by decide, hnext,
    hadvertised] at hcontinues
  exact absurd hcontinues (by decide)

end Publisher

end NdnSvs
