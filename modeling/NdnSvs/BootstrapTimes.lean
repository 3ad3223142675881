import NdnSvs.Provenance

/-! Bootstrap times in a core of the current version.  A receiver rejects a whole vector for one
entry that lies more than a day ahead of its clock, and so a core that holds such an entry sends
vectors that its peers reject.  The decoder keeps such entries out; `updateSeqNo` does not. -/

namespace NdnSvs

open Lib Lib.Tlv

namespace VersionVector

/-- Every entry of a decoded vector is one that the decoder accepts. -/
theorem decode_acceptable {now : Nat} {b : Block} {v : VersionVector} (h : decode now b = .ok v) :
    v.Acceptable (now + 86400) :=
  decode_induction (acceptable_empty _) (fun _ _ he hv => hv.put he) h

end VersionVector

namespace SyncProtocolCodec

/-- The StateVector block in the Data of an Interest of the current version. -/
def stateVectorBlock (cxx : NdnCxx) (interest : Interest) : Option Block := do
  let parameters ← interest.applicationParameters
  let elements ← parameters.parse
  let data ← cxx.decodeData (← elements.head?)
  let blocks ← (Block.mk tlv.content data.content).parse
  blocks.head?

theorem decode_acceptable {cxx : NdnCxx} {now : Nat} {interest : Interest} {groupPrefix : Name}
    {envelope : DecodedSyncEnvelope}
    (h : decode cxx now interest groupPrefix .v3 true = .ok envelope) :
    envelope.stateVector.Acceptable (now + 86400) := by
  obtain ⟨judged, vv, -, hvv, rfl⟩ := (decode_two_steps now).mp h
  obtain ⟨data, stateBlock, blocks, -, -, hdecode⟩ := decodeStateVector_v3_ok hvv
  exact VersionVector.decode_acceptable hdecode

/-- The block of an Interest that the Face can send is the encoded vector. -/
theorem stateVectorBlock_encode {cxx : NdnCxx} {groupPrefix : Name} {vv : VersionVector}
    {extensions : List Block} {lifetime : Nat} {sign : DataSigner} {interest : Interest}
    (h : encode cxx groupPrefix vv extensions .v3 lifetime (some sign) = .ok interest)
    (hsize : interest.size < 2 ^ 64) :
    stateVectorBlock cxx interest = some vv.encode ∧ vv.encode.value.length < 2 ^ 64 := by
  obtain ⟨-, -, signature, hinterest⟩ := encode_v3 h
  set d : Data := { makeStateData groupPrefix vv extensions with signatureValue := some signature }
    with hd
  set params := Block.ofElements tlv.applicationParameters [cxx.dataWire d] with hparams
  obtain ⟨hset, hparse, hdata⟩ := parse_parameters hparams hinterest hsize
  have hencodable : d.Encodable :=
    ⟨by norm_num [hd, makeStateData], by norm_num [hd, makeStateData],
    rfl⟩
  have hdecode := cxx.decodeData_dataWire d hencodable hdata
  have hcontent : d.content = wires (vv.encode :: extensions) := rfl
  have hfits : ∀ b ∈ vv.encode :: extensions, b.Fits := fun b hb => by
    refine @Block.length_lt_of_ofElements tlv.content _ _ hb _ ?_
    have hle := cxx.content_length_le d
    rw [hcontent] at hle
    exact Nat.lt_of_le_of_lt hle hdata
  have hblocks : (Block.mk tlv.content d.content).parse = some (vv.encode :: extensions) := by
    rw [hcontent]
    exact Block.parse_ofElements hfits
  refine ⟨?_, hfits _ List.mem_cons_self⟩
  simp [stateVectorBlock, hset, hparse, hdecode, hblocks]

end SyncProtocolCodec

namespace SVSyncCore

variable (cfg : CoreConfig)

/-- Every vector that the core holds, and every one that it has sent, has entries up to `limit`. -/
structure Kept (limit : Nat) (c : SVSyncCore) : Prop where
  vv : c.vv.Acceptable limit
  recorded : ∀ r, c.recordedVv = some r → r.Acceptable limit
  processing : ∀ job ∈ c.processing, job.localVector.Acceptable limit
  production : ∀ job ∈ c.production, job.localVector.Acceptable limit
  sent : ∀ interest ∈ c.sent, ∃ vv, Carries cfg vv interest ∧ vv.Acceptable limit

variable {cfg} {env : CoreInputs} {limit : Nat} {c c' : SVSyncCore} {other : VersionVector}

theorem kept_initial (limit : Nat) : Kept cfg limit {} :=
  ⟨VersionVector.acceptable_empty limit, fun r hr => (by cases hr),
    fun job hjob => absurd hjob List.not_mem_nil, fun job hjob => absurd hjob List.not_mem_nil,
    fun interest hi => absurd hi List.not_mem_nil⟩

theorem Kept.mono (h : Kept cfg limit c) {limit' : Nat} (hle : limit ≤ limit') :
    Kept cfg limit' c := by
  refine ⟨h.vv.mono hle, fun r hr => (h.recorded r hr).mono hle,
    fun job hjob => (h.processing job hjob).mono hle,
    fun job hjob => (h.production job hjob).mono hle, fun interest hi => ?_⟩
  obtain ⟨vv, hcarries, hvv⟩ := h.sent interest hi
  exact ⟨vv, hcarries, hvv.mono hle⟩

/-- What a core takes in and then sends is within the limit when both vectors are. -/
theorem Kept.absorbs (h : Kept cfg limit c) (hother : other.Acceptable limit)
    (habs : Absorbs cfg other c c') : Kept cfg limit c' := by
  have hvv : c'.vv.Acceptable limit := h.vv.of_entries hother habs.entry
  obtain ⟨jobs, hjobs, hown⟩ := habs.production
  obtain ⟨interests, hsent, hcarries⟩ := habs.sent
  refine ⟨hvv, fun r hr => ?_, habs.processing ▸ h.processing, fun job hjob => ?_,
    fun interest hi => ?_⟩
  · rcases habs.recorded r hr with hold | rfl | ⟨r₀, hold, rfl⟩
    · exact h.recorded r hold
    · exact hother
    · exact (h.recorded r₀ hold).of_entries hother fun _ _ _ => entryAt_recordEntries
  · rw [hjobs] at hjob
    rcases List.mem_append.mp hjob with hjob | hjob
    · exact h.production job hjob
    · rw [hown job hjob]
      exact hvv
  · rw [hsent] at hi
    rcases List.mem_append.mp hi with hi | hi
    · exact h.sent interest hi
    · exact ⟨c'.vv, hcarries interest hi, hvv⟩

theorem Kept.emits (h : Kept cfg limit c) (hemits : Emits cfg c c') : Kept cfg limit c' :=
  h.absorbs (VersionVector.acceptable_empty limit) hemits.absorbs

theorem Kept.retxSyncInterest (h : Kept cfg limit c) (delay : Nat) :
    Kept cfg limit (c.retxSyncInterest cfg env true delay).1 := by
  refine h.absorbs ?_ (retxSyncInterest_absorbs cfg env c delay)
  cases hr : c.recordedVv with
  | none => exact VersionVector.acceptable_empty limit
  | some r => exact h.recorded r hr

theorem decodesTo_acceptable (hv : cfg.version = .v3) {interest : Interest}
    (h : decodesTo cfg env interest other) : other.Acceptable (env.clock + 86400) := by
  obtain ⟨envelope, hdecode, rfl⟩ := h
  rw [hv] at hdecode
  exact SyncProtocolCodec.decode_acceptable hdecode

theorem Kept.onSyncInterestValidatedSerial (hv : cfg.version = .v3)
    (h : Kept cfg (env.clock + 86400) c) (interest : Interest) :
    Kept cfg (env.clock + 86400) (c.onSyncInterestValidatedSerial cfg env interest).1 := by
  rcases onSyncInterestValidatedSerial_cases cfg env c interest with
    ⟨hsame, -⟩ | ⟨other, hother, habs⟩
  · rw [hsame]
    exact h
  · exact h.absorbs (decodesTo_acceptable hv hother) habs

theorem Kept.onSyncInterestValidated (hv : cfg.version = .v3)
    (h : Kept cfg (env.clock + 86400) c) (interest : Interest) :
    Kept cfg (env.clock + 86400) (c.onSyncInterestValidated cfg env interest).1 := by
  rcases onSyncInterestValidated_cases cfg env c interest with hqueue | hserial
  · rw [hqueue]
    refine { h with processing := fun job hjob => ?_ }
    rcases List.mem_append.mp hjob with hjob | hjob
    · exact h.processing job hjob
    · obtain rfl := List.mem_singleton.mp hjob
      exact h.vv
  · rw [hserial]
    exact h.onSyncInterestValidatedSerial hv interest

/-- The merge of a worker: the vector that it was given need not be the current one. -/
theorem Kept.processSyncInterestResult (hv : cfg.version = .v3)
    (h : Kept cfg (env.clock + 86400) c) {job : SyncProcessingJob}
    (hjob : job.localVector.Acceptable (env.clock + 86400)) :
    Kept cfg (env.clock + 86400) (c.processSyncInterestResult cfg env job).1 := by
  cases henvelope : envelopeOf cfg env job.interest with
  | none =>
    rw [processSyncInterestResult_none henvelope]
    exact h
  | some envelope =>
    have hother := decodesTo_acceptable hv (decodesTo_of_envelopeOf henvelope)
    rw [SVSyncCore.processSyncInterestResult, envelopeOf_eq_some.mp henvelope]
    simp only
    split
    · exact h.onSyncInterestValidatedSerial hv job.interest
    · rw [computeMerge_myVectorNew]
      generalize hc₁ : { c with
        vv := (computeMergeStateVector job.localVector envelope.stateVector).mergedVector,
        stateGeneration := _, upcalls := _ } = c₁
      have hvv : c₁.vv.Acceptable (env.clock + 86400) := by
        subst hc₁
        exact hjob.of_entries hother fun _ _ _ => entryAt_computeMerge
      have hkept : Kept cfg (env.clock + 86400) c₁ := by
        subst hc₁
        exact { h with vv := hvv }
      have hmerged : (computeMergeStateVector job.localVector envelope.stateVector).mergedVector =
          c₁.vv := by rw [← hc₁]
      rw [hmerged, afterMerge_eq]
      refine { hkept with recorded := fun r hr => ?_ }
      simp only [recordedAfter] at hr
      split at hr
      · rename_i r₀ hr₀
        obtain rfl := Option.some.inj hr
        exact (hkept.recorded r₀ hr₀).of_entries hother fun _ _ _ => entryAt_recordEntries
      · split at hr
        · obtain rfl := Option.some.inj hr
          exact hother
        · cases hr

variable (cfg) in
/-- The entry that a call sets is within the limit; a call with 0 throws. -/
def SetsWithin (limit : Nat) : Event → Prop
  | .updateSeqNo seq b nid =>
    seq ≠ 0 → VersionVector.Entry.Acceptable limit ⟨targetNode cfg nid, b, seq⟩
  | _ => True

/-- One step keeps every vector within what the decoder accepts at the clock of the step. -/
theorem step_kept (hv : cfg.version = .v3) (h : Kept cfg (env.clock + 86400) c) {e : Event}
    (hset : SetsWithin cfg (env.clock + 86400) e) (hstep : c.step cfg env e = some c') :
    Kept cfg (env.clock + 86400) c' := by
  cases e with
  | initialInterest =>
    obtain rfl := Option.some.inj hstep
    have hinit : Kept cfg (env.clock + 86400) { c with initialized := true } := { h with }
    exact hinit.retxSyncInterest 0
  | retransmission =>
    obtain ⟨-, rfl⟩ := step_retransmission.mp hstep
    have hretx : Kept cfg (env.clock + 86400) { c with retxEvent := none } := { h with }
    exact hretx.retxSyncInterest 0
  | publicationBatch =>
    obtain ⟨-, rfl⟩ := step_publicationBatch.mp hstep
    have hbatch : Kept cfg (env.clock + 86400) { c with publicationSyncPending := false } :=
      { h with }
    exact hbatch.emits (sendLocalPublicationSyncInterest_emits cfg env _)
  | interest arrived =>
    obtain rfl := Option.some.inj hstep
    rw [onSyncInterest_eq]
    cases admission cfg env arrived with
    | refused => exact h
    | judged => exact { h with }
    | accepted => exact h.onSyncInterestValidated hv arrived
  | verdict index accepted =>
    obtain ⟨interest, hindex, rfl⟩ := step_verdict.mp hstep
    have herased : Kept cfg (env.clock + 86400)
      { c with validating := c.validating.eraseIdx index } := { h with }
    split
    · exact herased.onSyncInterestValidated hv interest
    · exact herased
  | processingResult index =>
    obtain ⟨job, hindex, rfl⟩ := step_processingResult.mp hstep
    have herased : Kept cfg (env.clock + 86400)
        { c with processing := c.processing.eraseIdx index } :=
      { h with processing := fun job hjob => h.processing job (List.mem_of_mem_eraseIdx hjob) }
    exact herased.processSyncInterestResult hv (h.processing job (List.mem_of_getElem? hindex))
  | productionResult index =>
    obtain ⟨job, hindex, rfl⟩ := step_productionResult.mp hstep
    have herased : Kept cfg (env.clock + 86400)
        { c with production := c.production.eraseIdx index } :=
      { h with production := fun job hjob => h.production job (List.mem_of_mem_eraseIdx hjob) }
    rcases processSyncProductionResult_cases cfg env
      { c with production := c.production.eraseIdx index } job with
      hsame | ⟨interest, hcarries, hsent⟩
    · rw [hsame]
      exact herased
    · rw [hsent]
      refine { herased with sent := fun i hi => ?_ }
      rcases List.mem_append.mp hi with hi | hi
      · exact h.sent i hi
      · obtain rfl := List.mem_singleton.mp hi
        exact ⟨_, hcarries, h.production job (List.mem_of_getElem? hindex)⟩
  | updateSeqNo seq b nid =>
    obtain rfl := Option.some.inj hstep
    rcases updateSeqNo_cases cfg env c seq b nid with ⟨-, hsame⟩ | ⟨hseq, -, hemits⟩
    · rw [hsame]
      exact h
    · have hassigned : Kept cfg (env.clock + 86400) (c.assigned cfg seq b nid) :=
        { h with vv := h.vv.put (hset hseq) }
      exact hassigned.emits hemits
  | setParallelSyncProcessing enabled =>
    obtain rfl := Option.some.inj hstep
    cases enabled with
    | true => exact { h with }
    | false => exact { h with processing := fun job hjob => absurd hjob List.not_mem_nil }
  | setMaxSuppressionTime delay =>
    obtain rfl := Option.some.inj hstep
    exact { h with }
  | setSyncInterestBatching enabled =>
    obtain rfl := Option.some.inj hstep
    exact { h with }
  | setParallelSyncProduction enabled signInWorker buildExtraBlockInWorker =>
    obtain rfl := Option.some.inj hstep
    cases enabled with
    | true => exact { h with }
    | false => exact { h with production := fun job hjob => absurd hjob List.not_mem_nil }

/-! ### Runs beside a clock -/

/-- The clock that the last handler read. -/
def readClock (_ : Nat) (_ : SVSyncCore) (o : Occurrence) (_ : SVSyncCore) : Nat := o.2.clock

variable (cfg) in
/-- The core beside the clock that its last handler read. -/
abbrev clocked : SVSyncCore × Nat → Occurrence → Option (SVSyncCore × Nat) :=
  noting (next cfg) readClock

/-- The clock does not go back, and the numbers of a call are 64-bit numbers. -/
def Timely (p : SVSyncCore × Nat) (o : Occurrence) : Prop :=
  p.2 ≤ o.2.clock ∧ match o.1 with
    | .updateSeqNo seq b _ => seq < 2 ^ 64 ∧ b < 2 ^ 64
    | _ => True

instance (p : SVSyncCore × Nat) (o : Occurrence) : Decidable (Timely p o) := by
  obtain ⟨e, env⟩ := o
  unfold Timely
  cases e <;> infer_instance

variable (cfg) in
/-- A call that sets the entry of another epoch than the node's own sets one that the decoder
accepts. -/
def NearFuture (_ : SVSyncCore × Nat) (o : Occurrence) : Prop :=
  match o.1 with
  | .updateSeqNo seq b _ => seq ≠ 0 → b ≠ cfg.bootstrapTime → b ≤ o.2.clock + 86400
  | _ => True

/-- Every entry of the vector is one that the decoder accepts, and so is the StateVector of every
Interest sent, at a peer whose clock is not behind. -/
def Admissible (cfg : CoreConfig) (p : SVSyncCore × Nat) : Prop :=
  (∀ e ∈ p.1.vv.allEntries, 1 ≤ e.seqNo ∧ e.bootstrapTime ≤ p.2 + 86400) ∧
    ∀ interest ∈ p.1.sent, ∀ peerClock, p.2 ≤ peerClock →
      ∃ block v, SyncProtocolCodec.stateVectorBlock cfg.cxx interest = some block ∧
        VersionVector.decode peerClock block = .ok v

theorem Kept.admissible (hv : cfg.version = .v3) {now : Nat} (h : Kept cfg (now + 86400) c) :
    Admissible cfg (c, now) := by
  refine ⟨fun e he => ⟨(h.vv e he).seqNo_pos, (h.vv e he).bootstrapTime_le⟩,
    fun interest hi peerClock hle => ?_⟩
  obtain ⟨vv, ⟨hsize, env, extensions, hencode⟩, hvv⟩ := h.sent interest hi
  rw [encodeSyncInterest_v3 hv] at hencode
  obtain ⟨hblock, hlength⟩ := SyncProtocolCodec.stateVectorBlock_encode hencode
    (SyncProtocolCodec.size_lt hsize)
  have hlimit : now + 86400 ≤ peerClock + 86400 := Nat.add_le_add_right hle _
  obtain ⟨v, hdecode, -⟩ := VersionVector.decode_encode (hvv.mono hlimit) hlength
  exact ⟨vv.encode, v, hblock, hdecode⟩

/-- The node's vector, and every vector that it sends, stays acceptable to its peers exactly in the
runs in which no call sets an entry of another epoch that lies too far in the future. -/
theorem vectors_accepted (hv : cfg.version = .v3) {start : Nat}
    (hboot : cfg.bootstrapTime ≤ start + 86400) {os : List Occurrence}
    (hos : Along (clocked cfg) Timely ({}, start) os) :
    Throughout (clocked cfg) (Admissible cfg) ({}, start) os ↔
      Along (clocked cfg) (NearFuture cfg) ({}, start) os := by
  refine throughout_iff_along_of_invariant
    (I := fun p => Kept cfg (p.2 + 86400) p.1 ∧ cfg.bootstrapTime ≤ p.2 + 86400)
    ?_ (fun p hp => hp.1.admissible hv) ?_ ?_ ⟨kept_initial _, hboot⟩ hos
  · rintro ⟨c, now⟩ ⟨e, env⟩ ⟨c', now'⟩ hstep ⟨hclock, hnumbers⟩ hnear ⟨hkept, hown⟩
    obtain ⟨hstep, hnow⟩ := noting_eq_some.mp hstep
    obtain rfl : now' = env.clock := hnow
    have hlimit : now + 86400 ≤ env.clock + 86400 := Nat.add_le_add_right hclock _
    refine ⟨step_kept hv (hkept.mono hlimit) ?_ hstep, hown.trans hlimit⟩
    cases e with
    | updateSeqNo seq b nid =>
      intro hseq
      refine ⟨Nat.pos_of_ne_zero hseq, hnumbers.1, hnumbers.2, ?_⟩
      by_cases hb : b = cfg.bootstrapTime
      · exact hb ▸ hown.trans hlimit
      · exact hnear hseq hb
    | _ => trivial
  · rintro ⟨c, now⟩ ⟨e, env⟩ ⟨c', now'⟩ hstep - - ⟨hentries, -⟩
    obtain ⟨hstep, hnow⟩ := noting_eq_some.mp hstep
    obtain rfl : now' = env.clock := hnow
    cases e with
    | updateSeqNo seq b nid =>
      rintro hseq -
      obtain rfl := Option.some.inj hstep
      rcases updateSeqNo_cases cfg env c seq b nid with ⟨hzero, -⟩ | ⟨-, -, hemits⟩
      · exact absurd hzero hseq
      · refine (hentries ⟨targetNode cfg nid, b, seq⟩ ?_).2
        rw [hemits.vv, VersionVector.mem_allEntries, assigned, VersionVector.entryAt_put,
          if_pos ⟨rfl, rfl⟩]
    | _ => trivial
  · rintro ⟨c, now⟩ ⟨e, env⟩ hnone
    cases e with
    | updateSeqNo seq b nid =>
      rw [clocked, noting, Option.map_eq_none_iff] at hnone
      cases hnone
    | _ => trivial

/-- A first Interest, then a call for another epoch of the node. -/
def epochRun (b : BootstrapTime) : List Occurrence :=
  [(.initialInterest, sampleInputs), (.updateSeqNo 1 b [], sampleInputs)]

theorem vectors_accepted_tomorrow :
    Throughout (clocked sampleConfig) (Admissible sampleConfig) ({}, 1000) (epochRun 87400) ↔
      Along (clocked sampleConfig) (NearFuture sampleConfig) ({}, 1000) (epochRun 87400) :=
  vectors_accepted rfl (by decide) (by decide +kernel)

/-- A call of `updateSeqNo` with a time more than a day ahead is announced, and a peer with the same
clock rejects the vector. -/
theorem far_epoch_sent : ∃ p, run (clocked sampleConfig) ({}, 1000) (epochRun 87401) = some p ∧
    Along (clocked sampleConfig) Timely ({}, 1000) (epochRun 87401) ∧
    (∃ e ∈ p.1.vv.allEntries, p.2 + 86400 < e.bootstrapTime) ∧
    ∃ interest ∈ p.1.sent, ∃ block,
      SyncProtocolCodec.stateVectorBlock sampleConfig.cxx interest = some block ∧
        (VersionVector.decode p.2 block).toOption = none := by
  let p := (run (clocked sampleConfig) ({}, 1000) (epochRun 87401)).get (by decide +kernel)
  refine ⟨p, (Option.some_get _).symm, by decide +kernel, by decide +kernel, ?_⟩
  have hsent : ∃ interest ∈ p.1.sent,
      ((SyncProtocolCodec.stateVectorBlock sampleConfig.cxx interest).map fun block =>
        (VersionVector.decode p.2 block).toOption.isNone) = some true := by decide +kernel
  obtain ⟨interest, hmem, hblock⟩ := hsent
  obtain ⟨block, hblock, hnone⟩ := Option.map_eq_some_iff.mp hblock
  exact ⟨interest, hmem, block, hblock, Option.isNone_iff_eq_none.mp hnone⟩

end SVSyncCore

end NdnSvs
