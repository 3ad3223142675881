import NdnSvs.CoreNotes

/-! Parallel production.  The Interest of a job carries the vector of the job; it carries the blocks
of the extra-block callback unless the worker called it and left the encoding to the Face thread. -/

namespace NdnSvs

open Lib Lib.Tlv

namespace SyncProtocolCodec

variable {cxx : NdnCxx} {groupPrefix : Name} {vv vv' : VersionVector}
  {extensions extensions' : List Block} {lifetime lifetime' : Nat} {sign sign' : DataSigner}
  {interest : Interest}

theorem stateData_of_encode
    (h : encode cxx groupPrefix vv extensions .v3 lifetime (some sign) = .ok interest)
    (hsize : interest.size ≤ maxNdnPacketSize) : ∃ d : Data,
      d.content = wires (vv.encode :: extensions) ∧ d.content.length < 2 ^ 64 ∧
      interest.applicationParameters.bind (fun params =>
        params.parse.map fun elements => elements.map cxx.decodeData) = some [some d] := by
  obtain ⟨-, -, signature, hinterest⟩ := encode_v3 h
  set d : Data := { makeStateData groupPrefix vv extensions with signatureValue := some signature }
    with hd
  set params := Block.ofElements tlv.applicationParameters [cxx.dataWire d] with hparams
  obtain ⟨hset, hparse, hdata⟩ := parse_parameters hparams hinterest (size_lt hsize)
  have hencodable : d.Encodable := ⟨by simp [hd, makeStateData], by simp [hd, makeStateData], rfl⟩
  refine ⟨d, rfl, Nat.lt_of_le_of_lt (cxx.content_length_le d) hdata, ?_⟩
  rw [hset, Option.bind_some, hparse, Option.map_some, List.map_singleton,
    cxx.decodeData_dataWire d hencodable hdata]

/-- An Interest that the Face can send determines the vector and the blocks it was made from. -/
theorem encode_v3_inj
    (h : encode cxx groupPrefix vv extensions .v3 lifetime (some sign) = .ok interest)
    (h' : encode cxx groupPrefix vv' extensions' .v3 lifetime' (some sign') = .ok interest)
    (hsize : interest.size ≤ maxNdnPacketSize) :
    vv.encode = vv'.encode ∧ extensions = extensions' := by
  obtain ⟨d, hcontent, hlength, hparse⟩ := stateData_of_encode h hsize
  obtain ⟨d', hcontent', -, hparse'⟩ := stateData_of_encode h' hsize
  rw [hparse'] at hparse
  obtain rfl : d' = d := by simpa using hparse
  rw [hcontent] at hcontent' hlength
  exact List.cons.inj (wires_inj hcontent' hlength)

end SyncProtocolCodec

namespace SVSyncCore

variable {cfg : CoreConfig} {env env₀ : CoreInputs} {c c' : SVSyncCore} {job : SyncProductionJob}

/-- The job that a send leaves: a snapshot, and the blocks unless a worker builds them. -/
theorem sendSyncInterest_job
    (h : (c.sendSyncInterest cfg env₀).1.production = c.production ++ [job]) :
    job.localVector = c.vv ∧ c.productionBlocks cfg env₀ = .ok job.extraBlocks := by
  have hserial : (c.sendSyncInterestSerial cfg env₀).1.production = c.production := by
    unfold sendSyncInterestSerial
    split
    · rfl
    · split
      · rfl
      · unfold expressInterest
        split <;> rfl
  unfold sendSyncInterest at h
  split at h
  · simp at h
  · split at h
    · simp [hserial] at h
    · split at h
      · simp at h
      · rename_i extraBlocks hblocks
        split at h
        · simp [hserial] at h
        · obtain rfl := List.cons.inj (List.append_cancel_left h) |>.1
          exact ⟨rfl, hblocks⟩

/-- What the extra-block callback returned for a job, on the thread that called it. -/
def callbackBlocks (cfg : CoreConfig) (env₀ env : CoreInputs) (c : SVSyncCore) :
    Result (List Block) :=
  if c.parallelSyncProductionExtraBlock then callExtraBlocks cfg env else callExtraBlocks cfg env₀

/-- The Face thread encodes an Interest for which the worker called the callback and got blocks. -/
def LosesBlocks (cfg : CoreConfig) (c : SVSyncCore) (blocks : List Block) : Prop :=
  cfg.version = .v3 ∧ ¬c.parallelSyncProductionSigning ∧ c.parallelSyncProductionExtraBlock ∧
    blocks ≠ []

/-- The blocks of a job are those of the callback, and none when they are lost. -/
theorem blocksOf_eq {blocks extensions : List Block}
    (hproduction : c.productionBlocks cfg env₀ = .ok job.extraBlocks)
    (hsigning : c'.parallelSyncProductionSigning = c.parallelSyncProductionSigning)
    (hextra : c'.parallelSyncProductionExtraBlock = c.parallelSyncProductionExtraBlock)
    (hcallback : c.callbackBlocks cfg env₀ env = .ok blocks)
    (h : c'.blocksOf cfg env job = .ok extensions) :
    (¬LosesBlocks cfg c blocks → extensions = blocks) ∧
      (LosesBlocks cfg c blocks → extensions = []) := by
  rw [blocksOf, workerBlocks, hsigning, hextra] at h
  rw [productionBlocks] at hproduction
  rw [callbackBlocks] at hcallback
  by_cases hworker : cfg.version = .v2 ∨ c.parallelSyncProductionSigning
  · have hkept : ¬LosesBlocks cfg c blocks := by
      rintro ⟨hv, hsign, -⟩
      rcases hworker with hv2 | hsigned
      · rw [hv] at hv2
        cases hv2
      · exact hsign hsigned
    refine ⟨fun _ => ?_, fun hloses => absurd hloses hkept⟩
    rw [if_pos hworker] at h
    split at h
    · rename_i hbuilt
      rw [if_pos hbuilt] at hcallback
      exact Except.ok.inj (h.symm.trans hcallback)
    · rename_i hbuilt
      rw [if_neg hbuilt] at hcallback hproduction
      exact Except.ok.inj (h.symm.trans (hproduction.symm.trans hcallback))
  · rw [if_neg hworker] at h
    obtain rfl := Except.ok.inj h
    have hv : cfg.version = .v3 := by
      cases hv : cfg.version with
      | v2 => exact absurd (.inl hv) hworker
      | v3 => rfl
    have hsign : ¬c.parallelSyncProductionSigning := fun hsign => hworker (.inr hsign)
    by_cases hbuilt : c.parallelSyncProductionExtraBlock
    · rw [if_pos hbuilt] at hproduction
      have hnone : job.extraBlocks = [] := (Except.ok.inj hproduction).symm
      refine ⟨fun hkept => ?_, fun _ => hnone⟩
      by_contra hne
      exact hkept ⟨hv, hsign, hbuilt, fun hblocks => hne (hnone.trans hblocks.symm)⟩
    · rw [if_neg hbuilt] at hproduction hcallback
      exact ⟨fun _ => Except.ok.inj (hproduction.symm.trans hcallback),
        fun hloses => absurd hloses.2.2.1 hbuilt⟩

/-- A job carries a snapshot, and the Interest made of it is the one that the serial path would
encode for the snapshot and the blocks of the callback, exactly when the blocks are not lost. -/
theorem production_emits_serial {blocks : List Block} {interest : Interest}
    (hjob : (c.sendSyncInterest cfg env₀).1.production = c.production ++ [job])
    (hsigning : c'.parallelSyncProductionSigning = c.parallelSyncProductionSigning)
    (hextra : c'.parallelSyncProductionExtraBlock = c.parallelSyncProductionExtraBlock)
    (hcallback : c.callbackBlocks cfg env₀ env = .ok blocks)
    (hsent : (c'.processSyncProductionResult cfg env job).1.sent = c'.sent ++ [interest]) :
    encodeSyncInterest cfg env c.vv blocks = .ok interest ↔ ¬LosesBlocks cfg c blocks := by
  obtain ⟨hvector, hproduction⟩ := sendSyncInterest_job hjob
  have hchanged : (c'.processSyncProductionResult cfg env job).1 ≠ c' := fun heq => by
    rw [heq] at hsent
    simp at hsent
  obtain ⟨extensions, sent, hblocks, hencode, hsize, heq⟩ :=
    processSyncProductionResult_sent hchanged
  rw [heq] at hsent
  obtain rfl : sent = interest := List.cons.inj (List.append_cancel_left hsent) |>.1
  rw [hvector] at hencode
  obtain ⟨hkept, hlost⟩ := blocksOf_eq hproduction hsigning hextra hcallback hblocks
  constructor
  · intro hserial hloses
    rw [hlost hloses, encodeSyncInterest_v3 hloses.1] at hencode
    rw [encodeSyncInterest_v3 hloses.1] at hserial
    exact hloses.2.2.2 (SyncProtocolCodec.encode_v3_inj hserial hencode hsize).2
  · intro h
    rw [← hkept h]
    exact hencode

/-- An initialized core whose workers build the extension blocks. -/
def producingCore (signInWorker : Bool) : SVSyncCore :=
  ({ initialized := true } : SVSyncCore).setParallelSyncProduction true signInWorker true

/-- A callback that returns one block. -/
def mappingInputs : CoreInputs :=
  { sampleInputs with extraBlocks := some [Block.ofNumber tlv.mappingData 1] }

/-- The job that a core makes and the Interest that becomes of it. -/
def produced (c : SVSyncCore) : Option (SyncProductionJob × Interest) := do
  let job ← (c.sendSyncInterest sampleConfig mappingInputs).1.production.getLast?
  let interest ← (c.processSyncProductionResult sampleConfig mappingInputs job).1.sent.getLast?
  some (job, interest)

theorem production_emits_serial_signed :
    let c := producingCore true
    let blocks := [Block.ofNumber tlv.mappingData 1]
    let p := (produced c).get (by decide +kernel)
    encodeSyncInterest sampleConfig mappingInputs c.vv blocks = .ok p.2 ↔
      ¬LosesBlocks sampleConfig c blocks :=
  let p := (produced (producingCore true)).get (by decide +kernel)
  @production_emits_serial _ _ mappingInputs _ (producingCore true) p.1 _ _
    (by decide +kernel) rfl rfl rfl (by decide +kernel)

theorem unsigned_worker_loses_blocks : ∃ job interest blocks,
    let c := producingCore false
    (c.sendSyncInterest sampleConfig mappingInputs).1.production = c.production ++ [job] ∧
    c.callbackBlocks sampleConfig mappingInputs mappingInputs = .ok blocks ∧
    (c.processSyncProductionResult sampleConfig mappingInputs job).1.sent = c.sent ++ [interest] ∧
    encodeSyncInterest sampleConfig mappingInputs c.vv blocks ≠ .ok interest := by
  let p := (produced (producingCore false)).get (by decide +kernel)
  refine ⟨p.1, p.2, [Block.ofNumber tlv.mappingData 1], by decide +kernel, rfl, by decide +kernel,
    fun h => ?_⟩
  have hdiffers : (encodeSyncInterest sampleConfig mappingInputs (producingCore false).vv
      [Block.ofNumber tlv.mappingData 1]).toOption ≠ some p.2 := by decide +kernel
  exact hdiffers (by rw [h]; rfl)

end SVSyncCore

end NdnSvs
