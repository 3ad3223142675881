import Mathlib.Data.List.Perm.Basic
import NdnSvs.CoreReceive

/-! Notes on a run of a core: the Interests that were accepted, those whose vectors were processed,
the local updates, and the vectors processed in the current suppression.  Each step is one of three:
it takes in the envelope of one Interest, it assigns one entry, or it changes no vector but the
recorded one. -/

namespace NdnSvs

open Lib Lib.Tlv

namespace SVSyncCore

/-- An event and what its handler gets from outside the core. -/
abbrev Occurrence := Event × CoreInputs

variable (cfg : CoreConfig)

def next (c : SVSyncCore) (o : Occurrence) : Option SVSyncCore := c.step cfg o.2 o.1

/-- What becomes of an Interest that arrives. -/
inductive Admission
  | refused
  | judged
  | accepted
deriving DecidableEq

def admission (env : CoreInputs) (interest : Interest) : Admission :=
  match cfg.version with
  | .v3 =>
    match SyncProtocolCodec.decode cfg.cxx env.clock interest cfg.syncPrefix .v3 false with
    | .error _ => .refused
    | .ok envelope =>
      if envelope.stateVectorData.isNone then .refused
      else if cfg.validator then .judged else .accepted
  | .v2 =>
    match cfg.interestSigner with
    | .null => .accepted
    | .hmac => if cfg.verifySignature interest then .accepted else .refused
    | .other => if cfg.validator then .judged else .accepted

/-- The Interest that an event hands to `onSyncInterestValidated`. -/
def admits (c : SVSyncCore) : Occurrence → Option Interest
  | (.interest interest, env) => if admission cfg env interest =
    .accepted then some interest else none
  | (.verdict index accepted, _) => if accepted then c.validating[index]? else none
  | _ => none

/-- The Interest that an event processes, at once or as the result of a worker. -/
def processes (c : SVSyncCore) : Occurrence → Option Interest
  | (.processingResult index, _) => (c.processing[index]?).map (·.interest)
  | o => if ¬c.parallelSyncProcessing ∨ o.2.queueFull then c.admits cfg o else none

/-- What the Interest that an event processes decodes to. -/
def receives (c : SVSyncCore) (o : Occurrence) : Option DecodedSyncEnvelope :=
  (c.processes cfg o).bind (envelopeOf cfg o.2)

/-- The state without the queue entry that an event takes. -/
def dequeue (c : SVSyncCore) : Event → SVSyncCore
  | .verdict index _ => { c with validating := c.validating.eraseIdx index }
  | .processingResult index => { c with processing := c.processing.eraseIdx index }
  | _ => c

/-- A call of `updateSeqNo`. -/
def Event.isUpdate : Event → Bool
  | .updateSeqNo _ _ _ => true
  | _ => false

/-- An Interest, a verdict on one, or the result of a worker for one. -/
def Event.isReceipt : Event → Bool
  | .interest _ | .verdict _ _ | .processingResult _ => true
  | _ => false

variable {cfg} {env : CoreInputs} {c c' : SVSyncCore}

theorem onSyncInterest_eq (c : SVSyncCore) (interest : Interest) :
    c.onSyncInterest cfg env interest =
      match admission cfg env interest with
      | .refused => (c, .ok ())
      | .judged => ({ c with validating := c.validating ++ [interest] }, .ok ())
      | .accepted => c.onSyncInterestValidated cfg env interest := by
  unfold onSyncInterest admission
  cases cfg.version with
  | v3 =>
    simp only
    cases SyncProtocolCodec.decode cfg.cxx env.clock interest cfg.syncPrefix .v3 false with
    | error e => rfl
    | ok envelope =>
      by_cases hdata : envelope.stateVectorData.isNone
      · simp [hdata]
      · by_cases hvalidator : cfg.validator <;> simp [hdata, hvalidator]
  | v2 =>
    simp only
    cases cfg.interestSigner with
    | null => rfl
    | hmac => by_cases hverify : cfg.verifySignature interest <;> simp [hverify]
    | other => by_cases hvalidator : cfg.validator <;> simp [hvalidator]

/-! ### Taking in an Interest -/

theorem onSyncInterestValidated_serial {interest : Interest}
    (h : ¬c.parallelSyncProcessing ∨ env.queueFull) :
    c.onSyncInterestValidated cfg env interest =
      c.onSyncInterestValidatedSerial cfg env interest :=
  if_pos h

theorem onSyncInterestValidated_queued {interest : Interest}
    (h : ¬(¬c.parallelSyncProcessing ∨ env.queueFull)) :
    c.onSyncInterestValidated cfg env interest =
      ({ c with processing := c.processing ++
        [{ interest, localVector := c.vv, stateGeneration := c.stateGeneration
           incomingFace := interest.incomingFaceId.getD 0 }] }, .ok ()) :=
  if_neg h

/-- An Interest is processed as the result of a worker, or at once in the state without its queue
entry. -/
theorem step_processes {e : Event} {interest : Interest} (hstep : c.step cfg env e = some c')
    (h : c.processes cfg (e, env) = some interest) :
    (∃ index job, e = .processingResult index ∧ c.processing[index]? = some job ∧
      job.interest = interest ∧ c' = ((c.dequeue e).processSyncInterestResult cfg env job).1) ∨
    ((∀ index, e ≠ .processingResult index) ∧
      c' = ((c.dequeue e).onSyncInterestValidatedSerial cfg env interest).1) := by
  cases e with
  | processingResult index =>
    obtain ⟨job, hindex, hinterest⟩ := Option.map_eq_some_iff.mp h
    simp only [step, hindex] at hstep
    obtain rfl := Option.some.inj hstep
    exact .inl ⟨index, job, rfl, hindex, hinterest, rfl⟩
  | interest arrived =>
    refine .inr ⟨by simp, ?_⟩
    simp only [processes, admits] at h
    split at h
    · rename_i hserial
      split at h
      · rename_i haccepted
        obtain rfl := Option.some.inj h
        obtain rfl := Option.some.inj hstep
        rw [onSyncInterest_eq, haccepted, onSyncInterestValidated_serial hserial]
        rfl
      · cases h
    · cases h
  | verdict index accepted =>
    refine .inr ⟨by simp, ?_⟩
    simp only [processes, admits] at h
    split at h
    · rename_i hserial
      split at h
      · rename_i haccepted
        simp only [step, h, haccepted] at hstep
        obtain rfl := Option.some.inj hstep
        exact congrArg Prod.fst (onSyncInterestValidated_serial
          (c := { c with validating := c.validating.eraseIdx index }) hserial)
      · cases h
    · cases h
  | _ => simp [processes, admits] at h

theorem dequeue_vv (c : SVSyncCore) (e : Event) : (c.dequeue e).vv = c.vv := by
  cases e <;> rfl

/-- What a step does with the envelope that it receives. -/
theorem step_receives (hc : c.Snapshots) {e : Event} {envelope : DecodedSyncEnvelope}
    (hstep : c.step cfg env e = some c') (h : c.receives cfg (e, env) = some envelope) :
    Absorbs cfg envelope.stateVector (c.dequeue e) c' ∧ Reports envelope (c.dequeue e) c' := by
  obtain ⟨interest, hprocesses, henvelope⟩ := Option.bind_eq_some_iff.mp h
  rcases step_processes hstep hprocesses with
    ⟨index, job, rfl, hindex, rfl, rfl⟩ | ⟨-, rfl⟩
  · have hjob := (hc job (List.mem_of_getElem? hindex)).2
    exact ⟨processSyncInterestResult_absorbs henvelope hjob,
      processSyncInterestResult_reports henvelope hjob⟩
  · exact ⟨onSyncInterestValidatedSerial_absorbs henvelope,
      onSyncInterestValidatedSerial_reports henvelope⟩

/-- An Interest that is refused, not yet judged, queued or malformed changes the queues alone. -/
theorem step_unreceived {e : Event} (he : e.isReceipt) (hstep : c.step cfg env e = some c')
    (h : c.receives cfg (e, env) = none) :
    c' = { c with validating := c'.validating, processing := c'.processing } := by
  have hvalidated : ∀ (c : SVSyncCore) (interest : Interest),
      (¬c.parallelSyncProcessing ∨ env.queueFull → envelopeOf cfg env interest = none) →
      let c' := (c.onSyncInterestValidated cfg env interest).1
      c' = { c with validating := c'.validating, processing := c'.processing } := by
    intro c interest hnone
    by_cases hserial : ¬c.parallelSyncProcessing ∨ env.queueFull
    · rw [onSyncInterestValidated_serial hserial,
        onSyncInterestValidatedSerial_none (hnone hserial)]
    · rw [onSyncInterestValidated_queued hserial]
  cases e with
  | processingResult index =>
    obtain ⟨job, hindex, rfl⟩ := step_processingResult.mp hstep
    simp only [receives, processes, hindex, Option.map_some, Option.bind_some] at h
    rw [processSyncInterestResult_none h]
  | interest arrived =>
    obtain rfl := Option.some.inj hstep
    rw [onSyncInterest_eq]
    cases hadmission : admission cfg env arrived with
    | refused => rfl
    | judged => rfl
    | accepted =>
      refine hvalidated c arrived fun hserial => ?_
      simpa only [receives, processes, admits, hadmission, if_pos hserial, if_true,
        Option.bind_some] using h
  | verdict index accepted =>
    obtain ⟨interest, hindex, rfl⟩ := step_verdict.mp hstep
    split
    · rename_i haccepted
      have hkept := hvalidated { c with validating := c.validating.eraseIdx index } interest
        fun hserial => by
          simpa only [receives, processes, admits, haccepted, hindex, if_pos hserial, if_true,
            Option.bind_some] using h
      rw [hkept]
    · rfl
  | _ => cases he

/-! ### The other steps -/

/-- A step that is no receipt and no update of an entry leaves the vector as it is; the Interests
that wait stay, unless the workers are turned off. -/
theorem step_other (hc : c.RecordedLE) {e : Event} (hreceipt : ¬e.isReceipt) (he : ¬e.isUpdate)
    (hstep : c.step cfg env e = some c') :
    Rests { c with processing := c'.processing } c' ∧
      (c'.processing = c.processing ∨ e = .setParallelSyncProcessing false) := by
  have hof : ∀ {c₁}, Rests c₁ c' → Rests c c₁ → c₁.processing = c.processing →
      Rests { c with processing := c'.processing } c' ∧
        (c'.processing = c.processing ∨ e = .setParallelSyncProcessing false) := by
    intro c₁ h h₁ hsame
    have hrests := h₁.trans h
    have hprocessing := h.processing.trans hsame
    exact ⟨{ hrests with processing := rfl }, .inl hprocessing⟩
  cases e with
  | initialInterest =>
    obtain rfl := Option.some.inj hstep
    exact hof (retxSyncInterest_rests (c := { c with initialized := true }) hc true 0)
      ⟨rfl, rfl, .inl rfl, rfl, rfl, rfl⟩ rfl
  | retransmission =>
    obtain ⟨-, rfl⟩ := step_retransmission.mp hstep
    exact hof (retxSyncInterest_rests (c := { c with retxEvent := none }) hc true 0)
      ⟨rfl, rfl, .inl rfl, rfl, rfl, rfl⟩ rfl
  | publicationBatch =>
    obtain ⟨-, rfl⟩ := step_publicationBatch.mp hstep
    exact hof (sendLocalPublicationSyncInterest_rests { c with publicationSyncPending := false })
      ⟨rfl, rfl, .inl rfl, rfl, rfl, rfl⟩ rfl
  | productionResult index =>
    obtain ⟨_, -, rfl⟩ := step_productionResult.mp hstep
    exact hof (processSyncProductionResult_sendsOnly _ _ _ _).rests
      ⟨rfl, rfl, .inl rfl, rfl, rfl, rfl⟩ rfl
  | updateSeqNo seq b nid => exact absurd rfl he
  | setMaxSuppressionTime delay =>
    obtain rfl := Option.some.inj hstep
    exact hof (.refl _) ⟨rfl, rfl, .inl rfl, rfl, rfl, rfl⟩ rfl
  | setSyncInterestBatching enabled =>
    obtain rfl := Option.some.inj hstep
    exact hof (.refl _) ⟨rfl, rfl, .inl rfl, rfl, rfl, rfl⟩ rfl
  | setParallelSyncProcessing enabled =>
    obtain rfl := Option.some.inj hstep
    refine ⟨⟨rfl, rfl, .inl rfl, rfl, rfl, rfl⟩, ?_⟩
    cases enabled with
    | true => exact .inl rfl
    | false => exact .inr rfl
  | setParallelSyncProduction enabled signInWorker buildExtraBlockInWorker =>
    obtain rfl := Option.some.inj hstep
    exact hof (.refl _) ⟨rfl, rfl, .inl rfl, rfl, rfl, rfl⟩ rfl
  | _ => exact absurd rfl hreceipt

/-- A step that receives no envelope and updates no entry. -/
theorem step_rests (hc : c.RecordedLE) {e : Event} (he : ¬e.isUpdate)
    (hstep : c.step cfg env e = some c') (h : c.receives cfg (e, env) = none) :
    c'.vv = c.vv ∧ c'.stateGeneration = c.stateGeneration ∧ c'.upcalls = c.upcalls ∧
      (c'.recordedVv = c.recordedVv ∨ c'.recordedVv = none) := by
  by_cases hreceipt : e.isReceipt
  · rw [step_unreceived hreceipt hstep h]
    exact ⟨rfl, rfl, rfl, .inl rfl⟩
  · obtain ⟨hrests, -⟩ := step_other hc hreceipt he hstep
    exact ⟨hrests.vv, hrests.stateGeneration, hrests.upcalls, hrests.recorded⟩

theorem updateSeqNo_rests {seq : SeqNo} (hseq : seq ≠ 0) (b : BootstrapTime) (nid : NodeID) :
    Rests (c.assigned cfg seq b nid) (c.updateSeqNo cfg env seq b nid).1 := by
  simp only [updateSeqNo, VersionVector.set, if_neg hseq, assigned]
  split
  · split
    · exact ⟨rfl, rfl, .inl rfl, rfl, rfl, rfl⟩
    · exact sendLocalPublicationSyncInterest_rests _
  · exact .refl _

theorem updateSeqNo_zero (b : BootstrapTime) (nid : NodeID) :
    (c.updateSeqNo cfg env 0 b nid).1 = c := by
  simp [updateSeqNo, VersionVector.set]

/-! ### The queue of the workers -/

/-- The Interests that wait for a worker's result. -/
def queued (c : SVSyncCore) : List Interest := c.processing.map (·.interest)

theorem onSyncInterestValidatedSerial_processing (c : SVSyncCore) (interest : Interest) :
    (c.onSyncInterestValidatedSerial cfg env interest).1.processing = c.processing := by
  cases h : envelopeOf cfg env interest with
  | none => rw [onSyncInterestValidatedSerial_none h]
  | some envelope => exact (onSyncInterestValidatedSerial_absorbs h).processing

theorem processSyncInterestResult_processing {job : SyncProcessingJob}
    (hjob : job.stateGeneration = c.stateGeneration → job.localVector.Same c.vv) :
    (c.processSyncInterestResult cfg env job).1.processing = c.processing := by
  cases h : envelopeOf cfg env job.interest with
  | none => rw [processSyncInterestResult_none h]
  | some envelope => exact (processSyncInterestResult_absorbs h hjob).processing

variable (cfg env) in
theorem onSyncInterestValidated_queue (c : SVSyncCore) (interest : Interest) :
    (c.queued ++ [interest]).Perm
      ((if ¬c.parallelSyncProcessing ∨ env.queueFull then [interest] else []) ++
        (c.onSyncInterestValidated cfg env interest).1.queued) := by
  split
  · rename_i hserial
    rw [onSyncInterestValidated_serial hserial, queued, queued,
      onSyncInterestValidatedSerial_processing]
    exact List.perm_append_comm
  · rename_i hqueue
    rw [onSyncInterestValidated_queued hqueue, queued, queued, List.map_append]
    exact .refl _

/-- An accepted Interest is processed at once or joins those that wait, and an Interest that is
processed and was not accepted in the same step waited. -/
theorem step_queue (hc : c.Snapshots) (hr : c.RecordedLE) {e : Event}
    (hkeeps : e = .setParallelSyncProcessing false → c.processing = [])
    (hstep : c.step cfg env e = some c') :
    (c.queued ++ (c.admits cfg (e, env)).toList).Perm
      ((c.processes cfg (e, env)).toList ++ c'.queued) := by
  cases e with
  | interest arrived =>
    obtain rfl := Option.some.inj hstep
    rw [onSyncInterest_eq]
    cases hadmission : admission cfg env arrived with
    | refused => simp [admits, processes, hadmission]
    | judged => simp [admits, processes, hadmission, queued]
    | accepted =>
      have h := onSyncInterestValidated_queue cfg env c arrived
      simp only [processes, admits, hadmission, if_true, Option.toList_some]
      rwa [apply_ite Option.toList, Option.toList_some, Option.toList_none]
  | verdict index accepted =>
    obtain ⟨interest, hindex, rfl⟩ := step_verdict.mp hstep
    split
    · rename_i haccepted
      have h := onSyncInterestValidated_queue cfg env
        { c with validating := c.validating.eraseIdx index } interest
      simp only [processes, admits, haccepted, if_true, hindex, Option.toList_some]
      rwa [apply_ite Option.toList, Option.toList_some, Option.toList_none]
    · rename_i hrefused
      simp [admits, processes, hrefused, queued]
  | processingResult index =>
    obtain ⟨job, hindex, rfl⟩ := step_processingResult.mp hstep
    have hjob := (hc job (List.mem_of_getElem? hindex)).2
    obtain ⟨hlt, rfl⟩ := List.getElem?_eq_some_iff.mp hindex
    simp only [admits, processes, hindex, Option.map_some, Option.toList_some, Option.toList_none,
      List.append_nil, queued]
    rw [processSyncInterestResult_processing
      (c := { c with processing := c.processing.eraseIdx index }) hjob]
    exact ((List.getElem_cons_eraseIdx_perm hlt).map (·.interest)).symm
  | updateSeqNo seq b nid =>
    obtain rfl := Option.some.inj hstep
    have hsame : (c.updateSeqNo cfg env seq b nid).1.processing = c.processing := by
      by_cases hseq : seq = 0
      · rw [hseq, updateSeqNo_zero]
      · exact (updateSeqNo_rests hseq b nid).processing
    simp [admits, processes, queued, hsame]
  | setParallelSyncProcessing enabled =>
    obtain rfl := Option.some.inj hstep
    cases enabled with
    | true => simp [admits, processes, queued, setParallelSyncProcessing]
    | false =>
      simp [admits, processes, queued, setParallelSyncProcessing, hkeeps rfl]
  | _ =>
    obtain ⟨-, hprocessing | hoff⟩ := step_other hr (by simp [Event.isReceipt])
      (by simp [Event.isUpdate]) hstep
    · simp [admits, processes, queued, hprocessing]
    · cases hoff

end SVSyncCore

end NdnSvs
