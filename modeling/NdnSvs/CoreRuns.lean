import NdnSvs.CoreSteps

/-! Runs of one core.  Every event but a call of `updateSeqNo` adds the entries of at most one
vector, which was recorded or came in an Interest, and a worker's job whose generation is still the
current one was made from the current entries. -/

namespace NdnSvs

open Lib Lib.Tlv

namespace SVSyncCore

/-- A job of the current generation was made from the current entries. -/
def Snapshots (c : SVSyncCore) : Prop :=
  ∀ job ∈ c.processing, job.stateGeneration ≤ c.stateGeneration ∧
    (job.stateGeneration = c.stateGeneration → job.localVector.Same c.vv)

/-- The Interest that an event brings. -/
def Event.brings : Event → Option Interest
  | .interest brought => some brought
  | _ => none

/-- An Interest that the core has got and not yet merged. -/
def Waits (c : SVSyncCore) (interest : Interest) : Prop :=
  interest ∈ c.validating ∨ ∃ job ∈ c.processing, job.interest = interest

/-- A vector that an event may merge into the state. -/
def Source (cfg : CoreConfig) (c : SVSyncCore) (brought : Option Interest) (other : VersionVector) :
    Prop :=
  other = {} ∨ c.recordedVv = some other ∨
    ∃ env interest, decodesTo cfg env interest other ∧ (c.Waits interest ∨ brought = some interest)

/-- The core has merged one vector, and what waits in its queues waited there before or is the
Interest that was brought. -/
structure Takes (cfg : CoreConfig) (brought : Option Interest) (other : VersionVector)
    (c c' : SVSyncCore) : Prop where
  source : Source cfg c brought other
  get : ∀ nid b, c'.vv.get nid b = max (c.vv.get nid b) (other.get nid b)
  generation_le : c.stateGeneration ≤ c'.stateGeneration
  unchanged : c'.stateGeneration = c.stateGeneration → c'.vv.Same c.vv
  recorded : ∀ r, c'.recordedVv = some r → ∀ nid b,
    r.get nid b ≤ max ((c.recordedVv.getD {}).get nid b) (other.get nid b)
  waits : ∀ interest, c'.Waits interest → c.Waits interest ∨ brought = some interest
  processing : ∀ job ∈ c'.processing, job ∈ c.processing ∨
    (job.localVector = c.vv ∧ job.stateGeneration = c.stateGeneration)

variable {cfg : CoreConfig} {env : CoreInputs} {c c' : SVSyncCore} {other : VersionVector}
  {brought : Option Interest}

/-- What a handler absorbs is taken in, whatever it dropped from the queues before. -/
theorem Absorbs.takes {c₀ : SVSyncCore} (h : Absorbs cfg other c₀ c') (hvv : c₀.vv = c.vv)
    (hgen : c₀.stateGeneration = c.stateGeneration) (hrecorded : c₀.recordedVv = c.recordedVv)
    (hvalidating : ∀ i ∈ c₀.validating, i ∈ c.validating)
    (hprocessing : ∀ job ∈ c₀.processing, job ∈ c.processing)
    (hsource : Source cfg c brought other) : Takes cfg brought other c c' := by
  refine ⟨hsource, ?_, ?_, ?_, fun r hr nid b => ?_, fun interest hwaits => .inl ?_,
    fun job hjob => .inl (hprocessing job (h.processing ▸ hjob))⟩
  · rw [← hvv]
    exact h.get
  · rw [← hgen]
    exact h.generation_le
  · rw [← hgen, ← hvv]
    exact h.unchanged
  · rw [← hrecorded]
    rcases h.recorded r hr with hold | rfl | ⟨r₀, hold, rfl⟩
    · rw [hold]
      exact le_max_left _ _
    · exact le_max_right _ _
    · rw [hold, get_recordEntries]
      exact le_rfl
  · rcases hwaits with hi | ⟨job, hjob, hi⟩
    · exact .inl (hvalidating _ (h.validating ▸ hi))
    · exact .inr ⟨job, hprocessing job (h.processing ▸ hjob), hi⟩

/-- A step that touches no vector and no queue of Interests. -/
theorem takes_of_eq (hvv : c'.vv = c.vv) (hgen : c'.stateGeneration = c.stateGeneration)
    (hrecorded : c'.recordedVv = c.recordedVv) (hvalidating : c'.validating = c.validating)
    (hprocessing : ∀ job ∈ c'.processing, job ∈ c.processing) : Takes cfg brought {} c c' := by
  have h : Absorbs cfg {} c' c' := (Emits.refl _).absorbs
  exact h.takes hvv hgen hrecorded (fun i hi => hvalidating ▸ hi) hprocessing (.inl rfl)

theorem onSyncInterestValidated_takes {c₀ : SVSyncCore} {interest : Interest} (hvv : c₀.vv = c.vv)
    (hgen : c₀.stateGeneration = c.stateGeneration) (hrecorded : c₀.recordedVv = c.recordedVv)
    (hvalidating : ∀ i ∈ c₀.validating, i ∈ c.validating)
    (hprocessing : c₀.processing = c.processing)
    (hwaits : c.Waits interest ∨ brought = some interest) :
    ∃ other, Takes cfg brought other c (c₀.onSyncInterestValidated cfg env interest).1 := by
  have hsame : ∀ job ∈ c₀.processing, job ∈ c.processing := fun job hjob => hprocessing ▸ hjob
  rcases onSyncInterestValidated_cases cfg env c₀ interest with hqueue | hserial
  · rw [hqueue]
    refine ⟨{}, .inl rfl, ?_, hgen.ge, fun _ => by rw [← hvv]; exact .refl _, fun r hr nid b => ?_,
      fun i hi => ?_, fun job hjob => ?_⟩
    · intro nid b
      rw [VersionVector.get_empty, Nat.max_zero]
      exact congrArg (fun v => v.get nid b) hvv
    · have hr : c.recordedVv = some r := hrecorded ▸ hr
      rw [hr]
      exact le_max_left _ _
    · rcases hi with hi | ⟨job, hjob, rfl⟩
      · exact .inl (.inl (hvalidating i hi))
      · rcases List.mem_append.mp hjob with hjob | hjob
        · exact .inl (.inr ⟨job, hsame job hjob, rfl⟩)
        · obtain rfl := List.mem_singleton.mp hjob
          exact hwaits
    · rcases List.mem_append.mp hjob with hjob | hjob
      · exact .inl (hsame job hjob)
      · obtain rfl := List.mem_singleton.mp hjob
        exact .inr ⟨hvv, hgen⟩
  · rw [hserial]
    rcases onSyncInterestValidatedSerial_cases cfg env c₀ interest with
      ⟨hsame', -⟩ | ⟨other, hother, habsorbs⟩
    · rw [hsame']
      have h : Absorbs cfg {} c₀ c₀ := (Emits.refl _).absorbs
      exact ⟨{}, h.takes hvv hgen hrecorded hvalidating hsame (.inl rfl)⟩
    · exact ⟨other, habsorbs.takes hvv hgen hrecorded hvalidating hsame
        (.inr (.inr ⟨env, interest, hother, hwaits⟩))⟩

theorem onSyncInterest_takes {interest : Interest} (hbrought : brought = some interest) :
    ∃ other, Takes cfg brought other c (c.onSyncInterest cfg env interest).1 := by
  have hmerge : ∃ other, Takes cfg brought other c (c.onSyncInterestValidated cfg env interest).1 :=
    onSyncInterestValidated_takes rfl rfl rfl (fun _ h => h) rfl (.inr hbrought)
  have hsame : Takes cfg brought {} c c := takes_of_eq rfl rfl rfl rfl fun _ h => h
  have hqueue : Takes cfg brought {} c { c with validating := c.validating ++ [interest] } := by
    refine { hsame with waits := fun i hi => ?_ }
    rcases hi with hi | hi
    · rcases List.mem_append.mp hi with hi | hi
      · exact .inl (.inl hi)
      · obtain rfl := List.mem_singleton.mp hi
        exact .inr hbrought
    · exact .inl (.inr hi)
  unfold onSyncInterest
  split
  · split
    · exact ⟨_, hsame⟩
    · split
      · exact ⟨_, hsame⟩
      · split
        · exact ⟨_, hqueue⟩
        · exact hmerge
  · split
    · exact hmerge
    · split
      · exact hmerge
      · exact ⟨_, hsame⟩
    · split
      · exact ⟨_, hqueue⟩
      · exact hmerge

/-- Every event but a call of `updateSeqNo` merges at most one vector. -/
theorem step_takes (hc : c.Snapshots) {e : Event} (hstep : c.step cfg env e = some c')
    (he : ∀ seq b nid, e ≠ .updateSeqNo seq b nid) : ∃ other, Takes cfg e.brings other c c' := by
  have hrecorded : Source cfg c e.brings (c.recordedVv.getD {}) := by
    cases h : c.recordedVv with
    | none => exact .inl rfl
    | some r => exact .inr (.inl h)
  cases e with
  | initialInterest =>
    obtain rfl := Option.some.inj hstep
    exact ⟨_, (retxSyncInterest_absorbs _ _ { c with initialized := true } 0).takes rfl rfl rfl
      (fun _ h => h) (fun _ h => h) hrecorded⟩
  | retransmission =>
    obtain ⟨-, rfl⟩ := step_retransmission.mp hstep
    exact ⟨_, (retxSyncInterest_absorbs _ _ { c with retxEvent := none } 0).takes rfl rfl rfl
      (fun _ h => h) (fun _ h => h) hrecorded⟩
  | publicationBatch =>
    obtain ⟨-, rfl⟩ := step_publicationBatch.mp hstep
    exact ⟨_, (sendLocalPublicationSyncInterest_emits _ _
      { c with publicationSyncPending := false }).absorbs.takes rfl rfl rfl (fun _ h => h)
      (fun _ h => h) (.inl rfl)⟩
  | interest interest =>
    obtain rfl := Option.some.inj hstep
    exact onSyncInterest_takes rfl
  | verdict index accepted =>
    obtain ⟨interest, hindex, rfl⟩ := step_verdict.mp hstep
    have hkept : ∀ i ∈ c.validating.eraseIdx index, i ∈ c.validating :=
      fun i hi => List.mem_of_mem_eraseIdx hi
    split
    · exact onSyncInterestValidated_takes rfl rfl rfl hkept rfl
        (.inl (.inl (List.mem_of_getElem? hindex)))
    · have h : Absorbs cfg {} { c with validating := c.validating.eraseIdx index }
        { c with validating := c.validating.eraseIdx index } := (Emits.refl _).absorbs
      exact ⟨{}, h.takes rfl rfl rfl hkept (fun _ h => h) (.inl rfl)⟩
  | processingResult index =>
    obtain ⟨job, hindex, rfl⟩ := step_processingResult.mp hstep
    have hjob := List.mem_of_getElem? hindex
    have hkept : ∀ job ∈ c.processing.eraseIdx index, job ∈ c.processing :=
      fun job hjob => List.mem_of_mem_eraseIdx hjob
    rcases processSyncInterestResult_cases cfg env
      { c with processing := c.processing.eraseIdx index } job (hc job hjob).2 with
      ⟨hsame, -⟩ | ⟨other, hother, habsorbs⟩
    · rw [hsame]
      exact ⟨{}, takes_of_eq rfl rfl rfl rfl hkept⟩
    · exact ⟨other, habsorbs.takes rfl rfl rfl (fun _ h => h) hkept
        (.inr (.inr ⟨env, job.interest, hother, .inl (.inr ⟨job, hjob, rfl⟩)⟩))⟩
  | productionResult index =>
    obtain ⟨job, hindex, rfl⟩ := step_productionResult.mp hstep
    rcases processSyncProductionResult_cases cfg env
      { c with production := c.production.eraseIdx index } job with hsame | ⟨interest, -, hsent⟩
    · rw [hsame]
      exact ⟨{}, takes_of_eq rfl rfl rfl rfl fun _ h => h⟩
    · rw [hsent]
      exact ⟨{}, takes_of_eq rfl rfl rfl rfl fun _ h => h⟩
  | updateSeqNo seq b nid => exact absurd rfl (he seq b nid)
  | setMaxSuppressionTime delay =>
    obtain rfl := Option.some.inj hstep
    exact ⟨{}, takes_of_eq rfl rfl rfl rfl fun _ h => h⟩
  | setSyncInterestBatching enabled =>
    obtain rfl := Option.some.inj hstep
    exact ⟨{}, takes_of_eq rfl rfl rfl rfl fun _ h => h⟩
  | setParallelSyncProcessing enabled =>
    obtain rfl := Option.some.inj hstep
    refine ⟨{}, ?_⟩
    have hkept : ∀ job ∈ (c.setParallelSyncProcessing enabled).processing, job ∈ c.processing := by
      intro job hjob
      simp only [setParallelSyncProcessing] at hjob
      split at hjob
      · exact hjob
      · cases hjob
    exact takes_of_eq rfl rfl rfl rfl hkept
  | setParallelSyncProduction enabled signInWorker buildExtraBlockInWorker =>
    obtain rfl := Option.some.inj hstep
    exact ⟨{}, takes_of_eq rfl rfl rfl rfl fun _ h => h⟩

/-! ### Invariants -/

theorem snapshots_empty : ({} : SVSyncCore).Snapshots := fun job hjob => by cases hjob

theorem Takes.snapshots (h : Takes cfg brought other c c') (hc : c.Snapshots) : c'.Snapshots := by
  intro job hjob
  have hle := h.generation_le
  rcases h.processing job hjob with hold | ⟨hvector, hgen⟩
  · obtain ⟨hjle, hsame⟩ := hc job hold
    refine ⟨hjle.trans hle, fun heq => ?_⟩
    have hkept : c'.stateGeneration = c.stateGeneration := by omega
    exact (hsame (heq.trans hkept)).trans (h.unchanged hkept).symm
  · refine ⟨by omega, fun heq => ?_⟩
    rw [hvector]
    exact (h.unchanged (by omega)).symm

theorem Takes.le (h : Takes cfg brought other c c') (nid : NodeID) (b : BootstrapTime) :
    c.vv.get nid b ≤ c'.vv.get nid b := by
  rw [h.get]
  exact le_max_left _ _

theorem Emits.snapshots (h : Emits cfg c c') (hc : c.Snapshots) : c'.Snapshots := by
  intro job hjob
  rw [h.stateGeneration, h.vv]
  exact hc job (h.processing ▸ hjob)

/-- An assignment that does not lower its entry. -/
theorem assigned_snapshots (hc : c.Snapshots) {seq : SeqNo} {b : BootstrapTime} {nid : NodeID}
    (hpos : seq ≠ 0) (hle : c.vv.get (targetNode cfg nid) b ≤ seq) :
    (c.assigned cfg seq b nid).Snapshots := by
  intro job hjob
  obtain ⟨hgen, hsame⟩ := hc job hjob
  simp only [assigned]
  split
  · refine ⟨hgen.trans (Nat.le_succ _), fun heq => ?_⟩
    omega
  · rename_i hnot
    refine ⟨hgen, fun heq => (hsame heq).trans ?_⟩
    have hget : c.vv.get (targetNode cfg nid) b = seq := le_antisymm hle (not_lt.mp hnot)
    refine (VersionVector.put_same ?_).symm
    cases hentry : c.vv.entryAt (targetNode cfg nid) b with
    | none =>
      rw [VersionVector.get, hentry] at hget
      exact absurd hget.symm hpos
    | some s =>
      rw [VersionVector.get, hentry] at hget
      exact congrArg some hget

variable (cfg env) in
/-- A call of `updateSeqNo` lowers no entry when it throws or does not lower the one it sets. -/
theorem updateSeqNo_le_iff (c : SVSyncCore) (seq : SeqNo) (b : BootstrapTime) (nid : NodeID) :
    (∀ nid' b', c.vv.get nid' b' ≤ (c.updateSeqNo cfg env seq b nid).1.vv.get nid' b') ↔
      seq = 0 ∨ c.vv.get (targetNode cfg nid) b ≤ seq := by
  rcases updateSeqNo_cases cfg env c seq b nid with ⟨hzero, hsame⟩ | ⟨hpos, -, hemits⟩
  · rw [hsame]
    exact ⟨fun _ => .inl hzero, fun _ _ _ => le_rfl⟩
  · have hget (nid' : NodeID) (b' : BootstrapTime) :
        (c.updateSeqNo cfg env seq b nid).1.vv.get nid' b' =
          if targetNode cfg nid = nid' ∧ b = b' then seq else c.vv.get nid' b' := by
      rw [hemits.vv, assigned, VersionVector.get_put]
    constructor
    · intro h
      have hle := h (targetNode cfg nid) b
      rw [hget, if_pos ⟨rfl, rfl⟩] at hle
      exact .inr hle
    · intro h nid' b'
      rw [hget]
      split
      · rename_i heq
        rw [← heq.1, ← heq.2]
        exact h.resolve_left hpos
      · exact le_rfl

theorem updateSeqNo_snapshots (hc : c.Snapshots) {seq : SeqNo} {b : BootstrapTime} {nid : NodeID}
    (h : seq = 0 ∨ c.vv.get (targetNode cfg nid) b ≤ seq) :
    (c.updateSeqNo cfg env seq b nid).1.Snapshots := by
  rcases updateSeqNo_cases cfg env c seq b nid with ⟨-, hsame⟩ | ⟨hpos, -, hemits⟩
  · rwa [hsame]
  · exact hemits.snapshots (assigned_snapshots hc hpos (h.resolve_left hpos))

/-- No vector that the Interest decodes to has more than `limit` for the entry. -/
def Claims (cfg : CoreConfig) (nid : NodeID) (b : BootstrapTime) (limit : SeqNo)
    (interest : Interest) : Prop :=
  ∀ env other, decodesTo cfg env interest other → other.get nid b ≤ limit

/-- Nothing in the core has more than `limit` for the entry. -/
structure Bounded (cfg : CoreConfig) (nid : NodeID) (b : BootstrapTime) (limit : SeqNo)
    (c : SVSyncCore) : Prop where
  vv : c.vv.get nid b ≤ limit
  recorded : (c.recordedVv.getD {}).get nid b ≤ limit
  waits : ∀ interest, c.Waits interest → Claims cfg nid b limit interest

variable {nid : NodeID} {b : BootstrapTime} {limit : SeqNo}

theorem bounded_empty : Bounded cfg nid b limit {} := by
  refine ⟨by simp, by simp, fun interest hwaits => ?_⟩
  rcases hwaits with h | ⟨job, h, -⟩ <;> cases h

theorem Bounded.mono (h : Bounded cfg nid b limit c) {limit' : SeqNo} (hle : limit ≤ limit') :
    Bounded cfg nid b limit' c :=
  ⟨h.vv.trans hle, h.recorded.trans hle, fun interest hwaits env other hdecodes =>
    (h.waits interest hwaits env other hdecodes).trans hle⟩

theorem Takes.bounded (h : Takes cfg brought other c c') (hc : Bounded cfg nid b limit c)
    (hbrought : ∀ interest, brought = some interest → Claims cfg nid b limit interest) :
    Bounded cfg nid b limit c' := by
  have hclaims : ∀ interest, (c.Waits interest ∨ brought = some interest) →
      Claims cfg nid b limit interest := fun interest hi =>
        hi.elim (hc.waits interest) (hbrought interest)
  have hother : other.get nid b ≤ limit := by
    rcases h.source with rfl | hrecorded | ⟨env, interest, hdecodes, hi⟩
    · simp
    · have := hc.recorded
      rwa [hrecorded] at this
    · exact hclaims interest hi env other hdecodes
  refine ⟨?_, ?_, fun interest hwaits => hclaims interest (h.waits interest hwaits)⟩
  · rw [h.get]
    exact max_le hc.vv hother
  · cases hr : c'.recordedVv with
    | none => simp
    | some r => exact (h.recorded r hr nid b).trans (max_le hc.recorded hother)

theorem Emits.bounded (h : Emits cfg c c') (hc : Bounded cfg nid b limit c) :
    Bounded cfg nid b limit c' := by
  refine ⟨h.vv ▸ hc.vv, ?_, fun interest hwaits => hc.waits interest ?_⟩
  · rcases h.recorded with hr | hr
    · rw [hr]
      exact hc.recorded
    · rw [hr]
      simp
  · rw [Waits, ← h.validating, ← h.processing]
    exact hwaits

theorem assigned_bounded (hc : Bounded cfg nid b limit c) {seq : SeqNo} {b' : BootstrapTime}
    {nid' : NodeID} (hseq : targetNode cfg nid' = nid ∧ b' = b → seq ≤ limit) :
    Bounded cfg nid b limit (c.assigned cfg seq b' nid') := by
  refine ⟨?_, hc.recorded, hc.waits⟩
  simp only [assigned, VersionVector.get_put]
  split
  · rename_i heq
    exact hseq heq
  · exact hc.vv

/-- The largest 64-bit number. -/
def maxSeqNo : SeqNo := 2 ^ 64 - 1

theorem claims_maxSeqNo (interest : Interest) : Claims cfg nid b maxSeqNo interest := by
  rintro env other ⟨envelope, hdecode, rfl⟩
  have := SyncProtocolCodec.decode_fits hdecode nid b
  exact Nat.le_sub_one_of_lt this

variable (cfg) in
/-- The own entry of a node is at most its known number. -/
theorem get_le_getSeqNo (c : SVSyncCore) (nid : NodeID) :
    c.vv.get (targetNode cfg nid) cfg.bootstrapTime ≤ c.getSeqNo cfg nid := by
  simp only [getSeqNo]
  split
  · exact le_rfl
  · exact VersionVector.get_le_getLatest _ _ _

theorem getSeqNo_lt (h : ∀ nid b, Bounded cfg nid b maxSeqNo c) (nid : NodeID) :
    c.getSeqNo cfg nid < 2 ^ 64 := by
  have hfits : c.vv.Fits := fun nid b => Nat.lt_of_le_pred (by decide) (h nid b).vv
  simp only [getSeqNo]
  split
  · exact hfits _ _
  · exact hfits.latest _

end SVSyncCore

end NdnSvs
