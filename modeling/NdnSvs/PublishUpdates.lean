import NdnSvs.Advertised

/-! What a step of the pub/sub layer does to its core: it is an event of the core, or it calls
`updateSeqNo` for numbers that are new. -/

namespace NdnSvs

open Lib Lib.Tlv SVSyncCore

namespace Publisher

variable {cfg : PubSubConfig} {own : List NodeID} {p p' : Publisher} {nid : NodeID}

/-- The call of the core for a number of a node. -/
def updated (cfg : PubSubConfig) (env : CoreInputs) (c : SVSyncCore) (nid : NodeID) (s : SeqNo) :
    SVSyncCore :=
  (c.updateSeqNo cfg.core env s cfg.core.bootstrapTime nid).1

/-- The core announces a new number of one of the nodes. -/
def SpeaksOnce (cfg : PubSubConfig) (own : List NodeID) (c c' : SVSyncCore) : Prop :=
  ∃ nid ∈ own, ∃ s env, targetNode cfg.core nid = nid ∧
    c.vv.get nid cfg.core.bootstrapTime < s ∧ s < 2 ^ 64 ∧ c' = updated cfg env c nid s

/-- The core announces any number of them, one after the other. -/
abbrev Speaks (cfg : PubSubConfig) (own : List NodeID) : SVSyncCore → SVSyncCore → Prop :=
  Relation.ReflTransGen (SpeaksOnce cfg own)

theorem updated_announces {env : CoreInputs} {c : SVSyncCore} {s : SeqNo} (hs : s ≠ 0) :
    Announces cfg nid s c (updated cfg env c nid s) := by
  rcases SVSyncCore.updateSeqNo_cases cfg.core env c s cfg.core.bootstrapTime nid with
    ⟨hzero, -⟩ | ⟨-, -, hemits⟩
  · exact absurd hzero hs
  · exact ⟨hs, hemits⟩

theorem SpeaksOnce.le {c c' : SVSyncCore} (h : SpeaksOnce cfg own c c') (nid : NodeID)
    (b : BootstrapTime) : c.vv.get nid b ≤ c'.vv.get nid b := by
  obtain ⟨nid', -, s, env, hnode, hlt, -, rfl⟩ := h
  rw [(updated_announces (Nat.ne_zero_of_lt hlt)).get, hnode]
  split
  · rename_i hsame
    obtain ⟨rfl, rfl⟩ := hsame
    exact hlt.le
  · exact le_rfl

/-! ### Calls and commits -/

variable (cfg) in
theorem publishBytes_core (env : PublishInputs) (p : Publisher) (name : Name) (value : Span)
    (nodePrefix : Name) (freshnessPeriod : Int) (mappingBlocks : List Block) :
    let nid := nodeOf cfg nodePrefix
    let core := (p.publishBytes cfg env name value nodePrefix freshnessPeriod mappingBlocks).1.core
    core = p.core ∨ core = updated cfg env.core p.core nid (p.nextSeqNo cfg nid) := by
  simp only [publishBytes]
  split
  · exact .inl rfl
  · rename_i prepared hprepare
    have htries := commitPreparedPublication_tries cfg env p prepared
    split
    · rename_i hresult
      rw [hresult] at htries
      exact .inl htries.core
    · rename_i p₁ prepared₁ hresult
      rw [hresult] at htries
      have hcore : p₁.core = p.core := htries.core
      refine .inr ?_
      rw [← hcore]
      split
      · rename_i hupdate
        exact (congrArg (fun r => r.1.core) hupdate).symm
      · rename_i hupdate
        exact (congrArg (fun r => r.1.core) hupdate).symm

variable (cfg) in
theorem announce_core (env : PublishInputs) (p : Publisher) (nid : NodeID) (seqNo : SeqNo)
    (name : Name) (mappingBlocks : List Block) (packets : List Data) :
    (p.announce cfg env nid seqNo name mappingBlocks packets).1.core = p.core ∨
      (p.announce cfg env nid seqNo name mappingBlocks packets).1.core =
        updated cfg env.core p.core nid seqNo := by
  unfold announce
  rcases insertMapping_cases cfg env p nid cfg.core.bootstrapTime seqNo name mappingBlocks with
    ⟨-, extra, e, hmapping⟩ | ⟨-, extra, mappings, -, -, hmapping⟩
  · rw [hmapping]
    exact .inl rfl
  · rw [hmapping]
    refine .inr ?_
    simp only
    split
    · rename_i hupdate
      exact (congrArg (fun r => r.1.core) hupdate).symm
    · rename_i hupdate
      exact (congrArg (fun r => r.1.core) hupdate).symm

variable (cfg) in
theorem publishName_core (env : PublishInputs) (p : Publisher) (name nodePrefix : Name)
    (mappingBlocks : List Block) :
    let nid := nodeOf cfg nodePrefix
    let core := (p.publishName cfg env name nodePrefix mappingBlocks).1.core
    core = p.core ∨ core = updated cfg env.core p.core nid (p.nextSeqNo cfg nid) :=
  announce_core cfg env (p.reserveSeqNo cfg (nodeOf cfg nodePrefix)).1 _ _ _ _ _

variable (cfg) in
theorem publishPacket_core (env : PublishInputs) (p : Publisher) (data : Data) (nodePrefix : Name)
    (mappingBlocks : List Block) :
    let nid := nodeOf cfg nodePrefix
    let core := (p.publishPacket cfg env data nodePrefix mappingBlocks).1.core
    core = p.core ∨ core = updated cfg env.core p.core nid (p.nextSeqNo cfg nid) := by
  simp only [publishPacket]
  rcases insertPacketAtSeq_cases cfg env (p.reserveSeqNo cfg (nodeOf cfg nodePrefix)).1 data
    (nodeOf cfg nodePrefix) (p.reserveSeqNo cfg (nodeOf cfg nodePrefix)).2 with
    ⟨p₁, e, hinsert, halters⟩ | ⟨p₁, packet, hinsert, halters, -⟩
  · rw [hinsert, halters.state]
    exact .inl rfl
  · have hcore : p₁.core = p.core := by
      rw [halters.state]
      rfl
    rw [hinsert, ← hcore]
    exact announce_core cfg env p₁ _ _ _ _ _

theorem attemptCommit_core {env : PublishInputs} {publication publication' : PreparedPublication}
    (h : p.attemptCommit cfg env nid publication = ((p', publication'), .ok ())) :
    p'.core = updated cfg env.core p.core nid publication.seqNo := by
  have htries := commitPreparedPublication_tries cfg env p publication
  unfold attemptCommit at h
  split at h
  · cases (Prod.mk.inj h).2
  · split at h
    · cases (Prod.mk.inj h).2
    · rename_i p₁ publication₁ hresult
      rw [hresult] at htries
      have hcore : p₁.core = p.core := htries.core
      have hseq : publication₁.seqNo = publication.seqNo := htries.seqNo
      rw [← hcore, ← hseq]
      split at h
      · cases (Prod.mk.inj h).2
      · rename_i hupdate
        rw [← (Prod.mk.inj (Prod.mk.inj h).1).1]
        exact (congrArg (fun r => r.1.core) hupdate).symm

theorem advertised_lt_next (hnode : targetNode cfg.core nid = nid) (hroom : HasRoom cfg p nid) :
    p.advertised cfg nid < p.nextSeqNo cfg nid := by
  have hknown := get_le_getSeqNo cfg.core p.core nid
  rw [hnode] at hknown
  have hlast : p.core.getSeqNo cfg.core nid ≤ p.lastSeqNo cfg nid := le_max_right _ _
  rw [nextSeqNo_eq hroom]
  exact Nat.lt_succ_of_le (hknown.trans hlast)

/-- A synchronous call announces its number, unless it throws. -/
theorem speaks_call {env : CoreInputs} {core : SVSyncCore} (hown : nid ∈ own)
    (hnode : targetNode cfg.core nid = nid) (hroom : HasRoom cfg p nid)
    (hcore : core = p.core ∨ core = updated cfg env p.core nid (p.nextSeqNo cfg nid)) :
    Speaks cfg own p.core core := by
  rcases hcore with rfl | rfl
  · exact .refl
  · exact .single ⟨nid, hown, _, env, hnode, advertised_lt_next hnode hroom,
      Nat.mod_lt _ (by decide), rfl⟩

theorem requeue_core {env : PublishInputs} {publication publication' : PreparedPublication}
    {p₀ : Publisher} {e : Error} (htake : p.takeHead nid = some (publication, p₀))
    (hattempt : p₀.attemptCommit cfg env nid publication = ((p', publication'), .error e)) :
    (p'.requeueFailedPublication nid publication').core = p.core := by
  obtain ⟨next, -, -, -, hp₀⟩ := takeHead_eq_some.mp htake
  have hcore : p₀.core = p.core := by rw [hp₀]
  exact (attemptCommit_error hattempt).core.trans hcore

/-- A commit announces the number of the head. -/
theorem Covered.attempt_speaks (h : Covered cfg own p) {env : PublishInputs}
    {publication publication' : PreparedPublication} {p₀ : Publisher}
    (htake : p.takeHead nid = some (publication, p₀)) (hnode : targetNode cfg.core nid = nid)
    (hattempt : p₀.attemptCommit cfg env nid publication = ((p', publication'), .ok ()))
    (hs : publication.seqNo = p.advertised cfg nid + 1) :
    SpeaksOnce cfg own p.core (p'.advanceHead nid publication'.seqNo).core := by
  obtain ⟨next, -, hat, -, hp₀⟩ := takeHead_eq_some.mp htake
  have hcore : p₀.core = p.core := by rw [hp₀]
  have hown : nid ∈ own := (h.ahead nid next (.inr (by rw [hat]; rfl))).1
  have hlt : publication.seqNo < 2 ^ 64 := h.toKept.holds_lt (.inr ⟨nid, next, hat⟩)
  refine ⟨nid, hown, publication.seqNo, env.core, hnode, ?_, hlt, ?_⟩
  · rw [hs]
    exact Nat.lt_succ_self _
  · rw [← hcore, ← attemptCommit_core hattempt]
    unfold advanceHead
    split <;> rfl

theorem Covered.commitLoop_speaks (h : Covered cfg own p) (hnode : targetNode cfg.core nid = nid)
    (hnext : NextFollows cfg p nid) (fuel : Nat) (attempts : Nat → PublishInputs) :
    Speaks cfg own p.core (Publisher.commitLoop cfg nid fuel attempts p).core := by
  induction fuel generalizing p attempts with
  | zero => exact .refl
  | succ fuel ih =>
    rw [Publisher.commitLoop]
    split
    · exact .refl
    · rename_i publication p₀ htake
      split
      · rename_i hattempt
        rw [requeue_core htake hattempt]
      · rename_i hattempt
        have hs := hnext _ _ htake
        obtain ⟨hcovered, hnext'⟩ := h.attempt_done htake hnode hattempt hs
        exact .head (h.attempt_speaks htake hnode hattempt hs) (ih hcovered hnext' _)

theorem Covered.commitReady_speaks (h : Covered cfg own p) (hnode : targetNode cfg.core nid = nid)
    {attempts : Nat → PublishInputs} (hhead : HeadFollows cfg (attempts 0) p nid) :
    Speaks cfg own p.core (p.commitReadyPreparedPublications cfg attempts nid).core := by
  rcases commitReady_cases cfg p attempts nid with hsame |
    ⟨publication, p₀, p₁, publication', htake, ⟨e, hattempt, hresult⟩ | ⟨hattempt, hresult⟩⟩
  · rw [hsame]
  · rw [hresult, requeue_core htake hattempt]
  · rw [HeadFollows, htake] at hhead
    have hs := hhead (by rw [hattempt]; rfl)
    obtain ⟨hcovered, hnext⟩ := h.attempt_done htake hnode hattempt hs
    rw [hresult]
    exact .head (h.attempt_speaks htake hnode hattempt hs)
      (hcovered.commitLoop_speaks hnode hnext _ _)

/-- A step of a node that is no event of its core announces numbers of its own. -/
theorem Covered.step_speaks (h : Covered cfg own p)
    (hown : ∀ nid ∈ own, targetNode cfg.core nid = nid) {o : Occurrence}
    (hok : Meets cfg own p o) (hstep : Publisher.step cfg p o = some p')
    (hevent : ∀ event, o.event ≠ .core event) : Speaks cfg own p.core p'.core := by
  obtain ⟨-, hcontiguous, hunder⟩ := hok
  obtain ⟨event, inputs⟩ := o
  have hstage : ∀ (kind : AsyncPublication.Kind) (name nodePrefix : Name) (period : Int)
      (blocks : List Block), (p.prepareAndStageAsyncPublication cfg (inputs 0) kind name nodePrefix
        period blocks).1.core = p.core := by
    intro kind name nodePrefix period blocks
    rcases prepareAndStage_cases cfg (inputs 0) p kind name nodePrefix period blocks with
      ⟨halters, -⟩ | ⟨p₁, prepared, halters, -, hresult⟩
    · rw [halters.state]
      rfl
    · rw [hresult]
      change p₁.core = p.core
      rw [halters.state]
      rfl
  cases event with
  | publishBytes name value nodePrefix freshnessPeriod mappingBlocks =>
    obtain rfl := Option.some.inj hstep
    exact speaks_call (hunder _ rfl) (nodeOf_eq cfg _) hcontiguous.1 (publishBytes_core cfg ..)
  | publishName name nodePrefix mappingBlocks =>
    obtain rfl := Option.some.inj hstep
    exact speaks_call (hunder _ rfl) (nodeOf_eq cfg _) hcontiguous.1 (publishName_core cfg ..)
  | publishPacket data nodePrefix mappingBlocks =>
    obtain rfl := Option.some.inj hstep
    exact speaks_call (hunder _ rfl) (nodeOf_eq cfg _) hcontiguous.1 (publishPacket_core cfg ..)
  | publishBytesAsync name value nodePrefix freshnessPeriod mappingBlocks =>
    obtain rfl := Option.some.inj hstep
    rw [hstage]
  | publishNameAsync name nodePrefix freshnessPeriod mappingBlocks =>
    obtain rfl := Option.some.inj hstep
    rw [hstage]
  | publishPacketAsync data nodePrefix mappingBlocks =>
    obtain rfl := Option.some.inj hstep
    rw [hstage]
  | preparedPublication index =>
    obtain ⟨publication, hindex, rfl⟩ := (Publisher.step_preparedPublication rfl).mp hstep
    simp only [Contiguous, hindex] at hcontiguous
    have hholds : p.Holds publication := .inl (List.mem_of_getElem? hindex)
    exact (h.unstage hindex).commitReady_speaks
      (hown _ (h.ahead _ _ (h.toFiled.pending_of_holds hholds)).1) hcontiguous.1
  | retry index =>
    obtain ⟨nid, s, hindex, rfl⟩ := (Publisher.step_retry rfl).mp hstep
    simp only [Contiguous, hindex] at hcontiguous
    unfold onRetry
    split
    · exact .refl
    · rename_i publication hat
      have hat : p.preparedPublications.getAt nid s = some publication := hat
      rw [hat] at hcontiguous
      exact (h.clearRetry hindex hat).commitReady_speaks
        (hown _ (h.ahead nid s (.inr (by rw [hat]; rfl))).1) hcontiguous.1
  | extraBlocks =>
    obtain rfl := Option.some.inj hstep
    exact .refl
  | core event => exact absurd rfl (hevent event)

end Publisher

end NdnSvs
