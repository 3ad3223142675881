import NdnSvs.BootstrapTimes
import NdnSvs.Quiescence

/-! Where the entries of a core come from.  A condition that holds of every entry a core assigns and
of every entry that it is sent holds of all that it has: of its vector, of the recorded one, of the
vectors of its jobs, and of whatever the Interests that it sends decode to. -/

namespace NdnSvs

open Lib Lib.Tlv

namespace VersionVector

variable {Q Q' : Entry → Prop} {v l r : VersionVector}

/-- Every entry of the vector meets the condition. -/
def All (Q : Entry → Prop) (v : VersionVector) : Prop := ∀ e ∈ v.allEntries, Q e

theorem all_iff : v.All Q ↔ ∀ nid b s, v.entryAt nid b = some s → Q ⟨nid, b, s⟩ :=
  ⟨fun h nid b s hs => h ⟨nid, b, s⟩ (mem_allEntries.mpr hs),
    fun h e he => h e.nid e.bootstrapTime e.seqNo (mem_allEntries.mp he)⟩

theorem all_empty : ({} : VersionVector).All Q := all_iff.mpr fun nid b s h => by simp at h

theorem All.mono (h : v.All Q) (hle : ∀ e, Q e → Q' e) : v.All Q' := fun e he => hle e (h e he)

/-- A vector with entries from two others. -/
theorem All.of_entries (hl : l.All Q) (hr : r.All Q) (h : ∀ nid b s, v.entryAt nid b = some s →
    l.entryAt nid b = some s ∨ r.entryAt nid b = some s) : v.All Q := by
  refine all_iff.mpr fun nid b s hs => ?_
  rcases h nid b s hs with hs | hs
  · exact all_iff.mp hl nid b s hs
  · exact all_iff.mp hr nid b s hs

theorem All.put (h : v.All Q) {nid : NodeID} {b : BootstrapTime} {s : SeqNo}
    (hentry : Q ⟨nid, b, s⟩) : (v.put nid b s).All Q := by
  refine all_iff.mpr fun nid' b' s' hs => ?_
  rw [entryAt_put] at hs
  split at hs
  · rename_i hkey
    obtain ⟨rfl, rfl⟩ := hkey
    obtain rfl := Option.some.inj hs
    exact hentry
  · exact all_iff.mp h nid' b' s' hs

/-- An entry that a vector has is at most what every entry of it is at most. -/
theorem All.get_le {nid : NodeID} {b : BootstrapTime} {limit : SeqNo} (h : v.All Q)
    (hlimit : ∀ s, Q ⟨nid, b, s⟩ → s ≤ limit) : v.get nid b ≤ limit := by
  cases hs : v.entryAt nid b with
  | none => simp [get, hs]
  | some s =>
    rw [get, hs]
    exact hlimit s (all_iff.mp h nid b s hs)

end VersionVector

namespace SVSyncCore

variable {cfg : CoreConfig} {env : CoreInputs} {c c' : SVSyncCore} {other : VersionVector}
  {Q Q' : VersionVector.Entry → Prop} {interest : Interest}

/-- Whatever a receiver decodes of the Interest, its entries meet the condition. -/
def Tells (cfg : CoreConfig) (Q : VersionVector.Entry → Prop) (interest : Interest) : Prop :=
  ∀ env other, decodesTo cfg env interest other → other.All Q

theorem Tells.mono (h : Tells cfg Q interest) (hle : ∀ e, Q e → Q' e) : Tells cfg Q' interest :=
  fun env other hdecodes => (h env other hdecodes).mono hle

/-- An Interest tells of a vector that it carries nothing but the entries. -/
theorem Carries.tells (hv : cfg.version = .v3) (hplain : cfg.syncPrefix.hasParametersDigest = false)
    {limit : Nat} (hlimit : ∀ e, Q e → e.Acceptable limit) {vv : VersionVector}
    (hcarries : Carries cfg vv interest) (hvv : vv.All Q) : Tells cfg Q interest := by
  obtain ⟨hsize, env', extensions, hencode⟩ := hcarries
  rw [encodeSyncInterest_v3 hv] at hencode
  intro env other hdecodes
  -- A receiver whose clock is far enough ahead accepts every entry.
  have hclock : limit ≤ env.clock + limit + 86400 :=
    (Nat.le_add_left limit env.clock).trans (Nat.le_add_right _ _)
  have hacceptable : vv.Acceptable limit := hvv.mono hlimit
  obtain ⟨envelope, hdecode, -, -, hsame⟩ :=
    @SyncProtocolCodec.decode_encode _ (env.clock + limit) _ _ _ _ _ _ hplain hencode
      (SyncProtocolCodec.size_lt hsize) (hacceptable.mono hclock) true
  obtain ⟨envelope', hdecode', rfl⟩ := @decodesTo_later _ _ { env with clock := env.clock + limit }
    hv (Nat.le_add_right _ _) _ _ hdecodes
  rw [hv] at hdecode'
  obtain rfl := Except.ok.inj (hdecode'.symm.trans hdecode)
  refine VersionVector.all_iff.mpr fun nid b s hs => ?_
  rw [hsame rfl] at hs
  exact VersionVector.all_iff.mp hvv nid b s hs

/-- All entries that the core has, has sent, or may merge meet the condition. -/
structure Entries (cfg : CoreConfig) (Q : VersionVector.Entry → Prop) (c : SVSyncCore) : Prop where
  vv : c.vv.All Q
  recorded : ∀ r, c.recordedVv = some r → r.All Q
  processing : ∀ job ∈ c.processing, job.localVector.All Q
  production : ∀ job ∈ c.production, job.localVector.All Q
  waits : ∀ interest, c.Waits interest → Tells cfg Q interest
  sent : ∀ interest ∈ c.sent, Tells cfg Q interest

theorem entries_empty : Entries cfg Q {} := by
  refine ⟨VersionVector.all_empty, fun r hr => (by cases hr), fun job hjob => (by cases hjob),
    fun job hjob => (by cases hjob), fun interest hwaits => ?_, fun interest hi => (by cases hi)⟩
  rcases hwaits with h | ⟨job, h, -⟩ <;> cases h

theorem Entries.mono (h : Entries cfg Q c) (hle : ∀ e, Q e → Q' e) : Entries cfg Q' c :=
  ⟨h.vv.mono hle, fun r hr => (h.recorded r hr).mono hle,
    fun job hjob => (h.processing job hjob).mono hle,
    fun job hjob => (h.production job hjob).mono hle,
    fun interest hwaits => (h.waits interest hwaits).mono hle,
    fun interest hi => (h.sent interest hi).mono hle⟩

/-- The version and the prefix of a core whose Interests decode to what they carry, and entries that
some receiver accepts. -/
structure Readable (cfg : CoreConfig) (limit : Nat) (Q : VersionVector.Entry → Prop) : Prop where
  version : cfg.version = .v3
  plain : cfg.syncPrefix.hasParametersDigest = false
  acceptable : ∀ e, Q e → e.Acceptable limit

variable {limit : Nat}

theorem Entries.absorbs (h : Entries cfg Q c) (hcfg : Readable cfg limit Q) (hother : other.All Q)
    (habsorbs : Absorbs cfg other c c') : Entries cfg Q c' := by
  have hvv : c'.vv.All Q := h.vv.of_entries hother habsorbs.entry
  obtain ⟨jobs, hjobs, hown⟩ := habsorbs.production
  obtain ⟨interests, hsent, hcarries⟩ := habsorbs.sent
  refine ⟨hvv, fun r hr => ?_, habsorbs.processing ▸ h.processing, fun job hjob => ?_,
    fun interest hwaits => h.waits interest ?_, fun interest hi => ?_⟩
  · rcases habsorbs.recorded r hr with hold | rfl | ⟨r₀, hold, rfl⟩
    · exact h.recorded r hold
    · exact hother
    · exact (h.recorded r₀ hold).of_entries hother fun _ _ _ => entryAt_recordEntries
  · rw [hjobs] at hjob
    rcases List.mem_append.mp hjob with hjob | hjob
    · exact h.production job hjob
    · rw [hown job hjob]
      exact hvv
  · rw [Waits, habsorbs.validating, habsorbs.processing] at hwaits
    exact hwaits
  · rw [hsent] at hi
    rcases List.mem_append.mp hi with hi | hi
    · exact h.sent interest hi
    · exact (hcarries interest hi).tells hcfg.version hcfg.plain hcfg.acceptable hvv

theorem Entries.emits (h : Entries cfg Q c) (hcfg : Readable cfg limit Q)
    (hemits : Emits cfg c c') : Entries cfg Q c' :=
  h.absorbs hcfg VersionVector.all_empty hemits.absorbs

/-- An assignment, and what is sent after it. -/
theorem Entries.assigned (h : Entries cfg Q c) (hcfg : Readable cfg limit Q) {seq : SeqNo}
    {b : BootstrapTime} {nid : NodeID} (hentry : Q ⟨targetNode cfg nid, b, seq⟩)
    (hemits : Emits cfg (c.assigned cfg seq b nid) c') : Entries cfg Q c' := by
  have hassigned : Entries cfg Q (c.assigned cfg seq b nid) := { h with vv := h.vv.put hentry }
  exact hassigned.emits hcfg hemits

theorem Entries.retxSyncInterest (h : Entries cfg Q c) (hcfg : Readable cfg limit Q) (delay : Nat) :
    Entries cfg Q (c.retxSyncInterest cfg env true delay).1 := by
  refine h.absorbs hcfg ?_ (retxSyncInterest_absorbs cfg env c delay)
  cases hr : c.recordedVv with
  | none => exact VersionVector.all_empty
  | some r => exact h.recorded r hr

theorem Entries.onSyncInterestValidatedSerial (h : Entries cfg Q c) (hcfg : Readable cfg limit Q)
    (htells : Tells cfg Q interest) :
    Entries cfg Q (c.onSyncInterestValidatedSerial cfg env interest).1 := by
  rcases onSyncInterestValidatedSerial_cases cfg env c interest with
    ⟨hsame, -⟩ | ⟨other, hdecodes, habsorbs⟩
  · rw [hsame]
    exact h
  · exact h.absorbs hcfg (htells env other hdecodes) habsorbs

theorem Entries.onSyncInterestValidated (h : Entries cfg Q c) (hcfg : Readable cfg limit Q)
    (htells : Tells cfg Q interest) :
    Entries cfg Q (c.onSyncInterestValidated cfg env interest).1 := by
  rcases onSyncInterestValidated_cases cfg env c interest with hqueue | hserial
  · rw [hqueue]
    refine { h with processing := fun job hjob => ?_, waits := fun i hi => ?_ }
    · rcases List.mem_append.mp hjob with hjob | hjob
      · exact h.processing job hjob
      · obtain rfl := List.mem_singleton.mp hjob
        exact h.vv
    · rcases hi with hi | ⟨job, hjob, rfl⟩
      · exact h.waits i (.inl hi)
      · rcases List.mem_append.mp hjob with hjob | hjob
        · exact h.waits _ (.inr ⟨job, hjob, rfl⟩)
        · obtain rfl := List.mem_singleton.mp hjob
          exact htells
  · rw [hserial]
    exact h.onSyncInterestValidatedSerial hcfg htells

/-- Fewer Interests wait. -/
theorem Entries.drops (h : Entries cfg Q c) {validating : List Interest}
    {processing : List SyncProcessingJob} (hvalidating : ∀ i ∈ validating, i ∈ c.validating)
    (hprocessing : ∀ job ∈ processing, job ∈ c.processing) :
    Entries cfg Q { c with validating, processing } := by
  refine { h with
    processing := fun job hjob => h.processing job (hprocessing job hjob)
    waits := fun i hi => h.waits i ?_ }
  rcases hi with hi | ⟨job, hjob, hi⟩
  · exact .inl (hvalidating i hi)
  · exact .inr ⟨job, hprocessing job hjob, hi⟩

/-- One step of the core: what it assigns and what it is sent meet the condition. -/
theorem step_entries (hc : c.Snapshots) (h : Entries cfg Q c) (hcfg : Readable cfg limit Q)
    {e : Event} (hbrought : ∀ interest, e.brings = some interest → Tells cfg Q interest)
    (hassign : ∀ seq b nid, e = .updateSeqNo seq b nid → seq ≠ 0 → Q ⟨targetNode cfg nid, b, seq⟩)
    (hstep : c.step cfg env e = some c') : Entries cfg Q c' := by
  cases e with
  | initialInterest =>
    obtain rfl := Option.some.inj hstep
    have hinit : Entries cfg Q { c with initialized := true } := { h with }
    exact hinit.retxSyncInterest hcfg 0
  | retransmission =>
    obtain ⟨-, rfl⟩ := step_retransmission.mp hstep
    have hretx : Entries cfg Q { c with retxEvent := none } := { h with }
    exact hretx.retxSyncInterest hcfg 0
  | publicationBatch =>
    obtain ⟨-, rfl⟩ := step_publicationBatch.mp hstep
    have hbatch : Entries cfg Q { c with publicationSyncPending := false } := { h with }
    exact hbatch.emits hcfg (sendLocalPublicationSyncInterest_emits cfg env _)
  | interest arrived =>
    obtain rfl := Option.some.inj hstep
    have htells := hbrought arrived rfl
    rw [onSyncInterest_eq]
    cases admission cfg env arrived with
    | refused => exact h
    | judged =>
      refine { h with waits := fun i hi => ?_ }
      rcases hi with hi | hi
      · rcases List.mem_append.mp hi with hi | hi
        · exact h.waits i (.inl hi)
        · obtain rfl := List.mem_singleton.mp hi
          exact htells
      · exact h.waits i (.inr hi)
    | accepted => exact h.onSyncInterestValidated hcfg htells
  | verdict index accepted =>
    obtain ⟨interest, hindex, rfl⟩ := step_verdict.mp hstep
    have herased : Entries cfg Q { c with validating := c.validating.eraseIdx index } :=
      h.drops (fun i hi => List.mem_of_mem_eraseIdx hi) fun _ hjob => hjob
    split
    · exact herased.onSyncInterestValidated hcfg (h.waits _ (.inl (List.mem_of_getElem? hindex)))
    · exact herased
  | processingResult index =>
    obtain ⟨job, hindex, rfl⟩ := step_processingResult.mp hstep
    have hjob := List.mem_of_getElem? hindex
    have herased : Entries cfg Q { c with processing := c.processing.eraseIdx index } :=
      h.drops (fun _ hi => hi) fun job hjob => List.mem_of_mem_eraseIdx hjob
    rcases processSyncInterestResult_cases cfg env
      { c with processing := c.processing.eraseIdx index } job (hc job hjob).2 with
      ⟨hsame, -⟩ | ⟨other, hdecodes, habsorbs⟩
    · rw [hsame]
      exact herased
    · exact herased.absorbs hcfg (h.waits _ (.inr ⟨job, hjob, rfl⟩) env other hdecodes) habsorbs
  | productionResult index =>
    obtain ⟨job, hindex, rfl⟩ := step_productionResult.mp hstep
    have herased : Entries cfg Q { c with production := c.production.eraseIdx index } :=
      { h with production := fun job hjob => h.production job (List.mem_of_mem_eraseIdx hjob) }
    rcases processSyncProductionResult_cases cfg env
      { c with production := c.production.eraseIdx index } job with
      hsame | ⟨interest, hcarries, hsent⟩
    · rw [hsame]
      exact herased
    · rw [hsent]
      refine { herased with sent := fun i hi => ?_ }
      rcases List.mem_append.mp hi with hi | hi
      · exact h.sent i hi
      · obtain rfl := List.mem_singleton.mp hi
        exact hcarries.tells hcfg.version hcfg.plain hcfg.acceptable
          (h.production job (List.mem_of_getElem? hindex))
  | updateSeqNo seq b nid =>
    obtain rfl := Option.some.inj hstep
    rcases updateSeqNo_cases cfg env c seq b nid with ⟨-, hsame⟩ | ⟨hseq, -, hemits⟩
    · rw [hsame]
      exact h
    · exact h.assigned hcfg (hassign seq b nid rfl hseq) hemits
  | setParallelSyncProcessing enabled =>
    obtain rfl := Option.some.inj hstep
    cases enabled with
    | true => exact { h with }
    | false =>
      have hdropped : Entries cfg Q { c with processing := [] } :=
        h.drops (fun _ hi => hi) fun _ hjob => absurd hjob List.not_mem_nil
      exact { hdropped with }
  | setMaxSuppressionTime delay =>
    obtain rfl := Option.some.inj hstep
    exact { h with }
  | setSyncInterestBatching enabled =>
    obtain rfl := Option.some.inj hstep
    exact { h with }
  | setParallelSyncProduction enabled signInWorker buildExtraBlockInWorker =>
    obtain rfl := Option.some.inj hstep
    cases enabled with
    | true => exact { h with }
    | false => exact { h with production := fun job hjob => absurd hjob List.not_mem_nil }

end SVSyncCore

end NdnSvs
