import NdnSvs.CoreHistory

/-! The jobs of the workers and the handlers of the Face thread: a handler does not look at the jobs
that are there already, and adds at most one, to the queue whose workers are on. -/

namespace NdnSvs

open Lib Lib.Tlv

namespace SVSyncCore

/-- The result of a worker, or a call that turns workers on or off. -/
def Event.isWork : Event → Bool
  | .processingResult _ | .productionResult _ | .setParallelSyncProcessing _
  | .setParallelSyncProduction _ _ _ => true
  | _ => false

/-! ### The jobs that are there -/

/-- The core with more jobs before its own. -/
def withJobs (ps : List SyncProcessingJob) (qs : List SyncProductionJob) (c : SVSyncCore) :
    SVSyncCore :=
  { c with processing := ps ++ c.processing, production := qs ++ c.production }

variable (cfg : CoreConfig) (env : CoreInputs) (ps : List SyncProcessingJob)
  (qs : List SyncProductionJob)

theorem expressInterest_withJobs (c : SVSyncCore) (interest : Interest) :
    (c.withJobs ps qs).expressInterest env interest =
      (c.expressInterest env interest).map (withJobs ps qs) id := by
  unfold expressInterest
  split <;> rfl

theorem sendSyncInterestSerial_withJobs (c : SVSyncCore) :
    (c.withJobs ps qs).sendSyncInterestSerial cfg env =
      (c.sendSyncInterestSerial cfg env).map (withJobs ps qs) id := by
  have hinitialized : (c.withJobs ps qs).initialized = c.initialized := rfl
  have hvv : (c.withJobs ps qs).vv = c.vv := rfl
  unfold sendSyncInterestSerial
  rw [hinitialized, hvv]
  split
  · rfl
  · split
    · rfl
    · exact expressInterest_withJobs env ps qs c _

theorem sendSyncInterest_withJobs (c : SVSyncCore) :
    (c.withJobs ps qs).sendSyncInterest cfg env =
      (c.sendSyncInterest cfg env).map (withJobs ps qs) id := by
  have hinitialized : (c.withJobs ps qs).initialized = c.initialized := rfl
  have hparallel : (c.withJobs ps qs).parallelSyncProduction = c.parallelSyncProduction := rfl
  have hblocks : (c.withJobs ps qs).productionBlocks cfg env = c.productionBlocks cfg env := rfl
  unfold sendSyncInterest
  rw [hinitialized, hparallel, hblocks, sendSyncInterestSerial_withJobs]
  split
  · rfl
  · split
    · rfl
    · split
      · rfl
      · split
        · rfl
        · simp only [withJobs, Prod.map, List.append_assoc, id]

theorem mergeStateVector_withJobs (c : SVSyncCore) (other : VersionVector) :
    (c.withJobs ps qs).mergeStateVector other =
      (c.mergeStateVector other).map (withJobs ps qs) id := rfl

theorem sendUnlessSuppressed_withJobs (c : SVSyncCore) :
    (c.withJobs ps qs).sendUnlessSuppressed cfg env =
      (c.sendUnlessSuppressed cfg env).map (withJobs ps qs) id := by
  have hrecorded : (c.withJobs ps qs).recordedVv = c.recordedVv := rfl
  unfold sendUnlessSuppressed
  rw [hrecorded]
  split
  · exact sendSyncInterest_withJobs cfg env ps qs c
  · rw [mergeStateVector_withJobs]
    simp only [Prod.map, id]
    split
    · exact sendSyncInterest_withJobs cfg env ps qs _
    · rfl

theorem retxSyncInterest_withJobs (c : SVSyncCore) (send : Bool) (delay : Nat) :
    (c.withJobs ps qs).retxSyncInterest cfg env send delay =
      (c.retxSyncInterest cfg env send delay).map (withJobs ps qs) id := by
  unfold retxSyncInterest
  cases send with
  | false => rfl
  | true =>
    simp only [if_true, sendUnlessSuppressed_withJobs]
    cases hsent : c.sendUnlessSuppressed cfg env with
    | mk c' sent =>
      cases sent with
      | error e => rfl
      | ok _ => rfl

theorem sendLocalPublicationSyncInterest_withJobs (c : SVSyncCore) :
    (c.withJobs ps qs).sendLocalPublicationSyncInterest cfg env =
      (c.sendLocalPublicationSyncInterest cfg env).withJobs ps qs := by
  have hsend := sendSyncInterest_withJobs cfg env ps qs { c with recordedVv := none }
  unfold sendLocalPublicationSyncInterest
  rw [show ({ c.withJobs ps qs with recordedVv := none } : SVSyncCore) =
    ({ c with recordedVv := none } : SVSyncCore).withJobs ps qs from rfl, hsend]
  cases ({ c with recordedVv := none } : SVSyncCore).sendSyncInterest cfg env with
  | mk c' sent =>
    cases sent with
    | error e => rfl
    | ok _ => rfl

theorem updateSeqNo_withJobs (c : SVSyncCore) (seq : SeqNo) (b : BootstrapTime) (nid : NodeID) :
    (c.withJobs ps qs).updateSeqNo cfg env seq b nid =
      (c.updateSeqNo cfg env seq b nid).map (withJobs ps qs) id := by
  have hvv : (c.withJobs ps qs).vv = c.vv := rfl
  unfold updateSeqNo
  simp only [hvv]
  split
  · rfl
  · rename_i vv _
    split
    · have hlocal := sendLocalPublicationSyncInterest_withJobs cfg env ps qs
        { c with vv, stateGeneration := c.stateGeneration + 1 }
      by_cases hb : c.syncInterestBatching
      · have hb' : (c.withJobs ps qs).syncInterestBatching := hb
        rw [if_pos hb', if_pos hb]
        rfl
      · have hb' : ¬(c.withJobs ps qs).syncInterestBatching := hb
        rw [if_neg hb', if_neg hb]
        exact congrArg (·, Except.ok ()) hlocal
    · rfl

variable {cfg env} in
/-- After a vector that is not recorded, because the core is not in suppression state. -/
theorem afterMerge_unrecorded {c : SVSyncCore} (h : c.recordedVv = none) (other : VersionVector)
    (myVectorNew : Bool) : c.afterMerge cfg env other myVectorNew =
      if ¬myVectorNew then c.retxSyncInterest cfg env false 0
      else if env.currentTime + mulInt32 (cfg.suppressionCurve c.maxSuppressionTime
          env.replyDelay) 1000 < c.nextSyncInterest then
        ({ c with recordedVv := some other } : SVSyncCore).retxSyncInterest cfg env false
          (cfg.suppressionCurve c.maxSuppressionTime env.replyDelay % 4294967296).toNat
      else ({ c with recordedVv := some other }, .ok ()) := by
  simp only [afterMerge, recordVector, enterSuppressionState, h]

theorem afterMerge_withJobs (c : SVSyncCore) (other : VersionVector) (myVectorNew : Bool) :
    (c.withJobs ps qs).afterMerge cfg env other myVectorNew =
      (c.afterMerge cfg env other myVectorNew).map (withJobs ps qs) id := by
  have hmax : (c.withJobs ps qs).maxSuppressionTime = c.maxSuppressionTime := rfl
  have hnext : (c.withJobs ps qs).nextSyncInterest = c.nextSyncInterest := rfl
  cases hrecorded : c.recordedVv with
  | some recorded =>
    have hrecorded' : (c.withJobs ps qs).recordedVv = some recorded := hrecorded
    simp only [afterMerge, recordVector, hrecorded, hrecorded']
    rfl
  | none =>
    have hrecorded' : (c.withJobs ps qs).recordedVv = none := hrecorded
    rw [afterMerge_unrecorded hrecorded', afterMerge_unrecorded hrecorded, hmax, hnext]
    split
    · exact retxSyncInterest_withJobs cfg env ps qs c false 0
    · split
      · exact retxSyncInterest_withJobs cfg env ps qs { c with recordedVv := some other } false _
      · rfl

theorem onSyncInterestValidatedSerial_withJobs (c : SVSyncCore) (interest : Interest) :
    (c.withJobs ps qs).onSyncInterestValidatedSerial cfg env interest =
      (c.onSyncInterestValidatedSerial cfg env interest).map (withJobs ps qs) id := by
  unfold onSyncInterestValidatedSerial
  split
  · rfl
  · rename_i envelope _
    exact afterMerge_withJobs cfg env ps qs
      { (c.mergeStateVector envelope.stateVector).1 with upcalls := _ } envelope.stateVector _

theorem onSyncInterestValidated_withJobs (c : SVSyncCore) (interest : Interest) :
    (c.withJobs ps qs).onSyncInterestValidated cfg env interest =
      (c.onSyncInterestValidated cfg env interest).map (withJobs ps qs) id := by
  have hparallel : (c.withJobs ps qs).parallelSyncProcessing = c.parallelSyncProcessing := rfl
  unfold onSyncInterestValidated
  rw [hparallel]
  split
  · exact onSyncInterestValidatedSerial_withJobs cfg env ps qs c interest
  · simp only [withJobs, Prod.map, List.append_assoc, id]

theorem onSyncInterest_withJobs (c : SVSyncCore) (interest : Interest) :
    (c.withJobs ps qs).onSyncInterest cfg env interest =
      (c.onSyncInterest cfg env interest).map (withJobs ps qs) id := by
  rw [onSyncInterest_eq, onSyncInterest_eq]
  split
  · rfl
  · rfl
  · exact onSyncInterestValidated_withJobs cfg env ps qs c interest

theorem processSyncInterestResult_withJobs (c : SVSyncCore) (job : SyncProcessingJob) :
    (c.withJobs ps qs).processSyncInterestResult cfg env job =
      (c.processSyncInterestResult cfg env job).map (withJobs ps qs) id := by
  have hgeneration : (c.withJobs ps qs).stateGeneration = c.stateGeneration := rfl
  unfold processSyncInterestResult
  rw [hgeneration]
  split
  · rfl
  · rename_i envelope _
    split
    · exact onSyncInterestValidatedSerial_withJobs cfg env ps qs c job.interest
    · exact afterMerge_withJobs cfg env ps qs
        { c with
          vv := (computeMergeStateVector job.localVector envelope.stateVector).mergedVector
          stateGeneration := _
          upcalls := _ } envelope.stateVector _

theorem processSyncProductionResult_withJobs (c : SVSyncCore) (job : SyncProductionJob) :
    (c.withJobs ps qs).processSyncProductionResult cfg env job =
      (c.processSyncProductionResult cfg env job).map (withJobs ps qs) id := by
  have hproduce : (c.withJobs ps qs).produce cfg env job = c.produce cfg env job := rfl
  have hgeneration : (c.withJobs ps qs).stateGeneration = c.stateGeneration := rfl
  have hextra : (c.withJobs ps qs).parallelSyncProductionExtraBlock =
    c.parallelSyncProductionExtraBlock := rfl
  have hcomplete : ∀ result, (c.withJobs ps qs).completeProduction cfg env job result =
    c.completeProduction cfg env job result := fun result => by cases result <;> rfl
  unfold processSyncProductionResult
  rw [hproduce, hgeneration, hextra]
  split
  · rfl
  · rw [hcomplete]
    split
    · rfl
    · split
      · rfl
      · exact expressInterest_withJobs env ps qs c _

/-- A handler of the Face thread does not look at the jobs that are there. -/
theorem step_withJobs (c : SVSyncCore) {e : Event} (he : e.isWork = false) :
    (c.withJobs ps qs).step cfg env e = (c.step cfg env e).map (withJobs ps qs) := by
  cases e with
  | initialInterest =>
    exact congrArg (fun o : Outcome SVSyncCore => some o.1)
      (retxSyncInterest_withJobs cfg env ps qs { c with initialized := true } true 0)
  | retransmission =>
    have hevent : (c.withJobs ps qs).retxEvent = c.retxEvent := rfl
    simp only [step, hevent]
    split
    · exact congrArg (fun o : Outcome SVSyncCore => some o.1)
        (retxSyncInterest_withJobs cfg env ps qs { c with retxEvent := none } true 0)
    · rfl
  | publicationBatch =>
    have hpending : (c.withJobs ps qs).publicationSyncPending = c.publicationSyncPending := rfl
    simp only [step, hpending]
    split
    · exact congrArg some (sendLocalPublicationSyncInterest_withJobs cfg env ps qs
        { c with publicationSyncPending := false })
    · rfl
  | interest interest =>
    exact congrArg (fun o : Outcome SVSyncCore => some o.1)
      (onSyncInterest_withJobs cfg env ps qs c interest)
  | verdict index accepted =>
    have hvalidating : (c.withJobs ps qs).validating = c.validating := rfl
    simp only [step, hvalidating]
    split
    · rfl
    · split
      · exact congrArg (fun o : Outcome SVSyncCore => some o.1)
          (onSyncInterestValidated_withJobs cfg env ps qs
            { c with validating := c.validating.eraseIdx index } _)
      · rfl
  | updateSeqNo seq bootstrapTime nid =>
    exact congrArg (fun o : Outcome SVSyncCore => some o.1)
      (updateSeqNo_withJobs cfg env ps qs c seq bootstrapTime nid)
  | setMaxSuppressionTime delay => rfl
  | setSyncInterestBatching enabled => rfl
  | processingResult | productionResult | setParallelSyncProcessing | setParallelSyncProduction =>
    cases he

/-! ### The jobs of a handler -/

/-- The flags that say which work the workers do. -/
def settings (c : SVSyncCore) : Bool × Bool × Bool × Bool :=
  (c.parallelSyncProcessing, c.parallelSyncProduction, c.parallelSyncProductionSigning,
    c.parallelSyncProductionExtraBlock)

/-- The settings and the jobs. -/
def jobState (c : SVSyncCore) :
    (Bool × Bool × Bool × Bool) × List SyncProcessingJob × List SyncProductionJob :=
  (c.settings, c.processing, c.production)

/-- At most one job has been added, to a queue that has room and whose workers are on. -/
structure Queues (env : CoreInputs) (receives : Bool) (c c' : SVSyncCore) : Prop where
  settings : c'.settings = c.settings
  processing : c'.processing = c.processing ∨
    (receives ∧ env.queueFull = false ∧ c.parallelSyncProcessing ∧
      ∃ job, c'.processing = c.processing ++ [job])
  production : c'.production = c.production ∨
    (receives = false ∧ env.queueFull = false ∧ c.parallelSyncProduction ∧
      ∃ job, c'.production = c.production ++ [job])

variable {cfg env} {receives : Bool} {c c' c'' : SVSyncCore}

theorem Queues.of_jobState (h : c'.jobState = c.jobState) : Queues env receives c c' := by
  simp only [jobState, Prod.mk.injEq] at h
  exact ⟨h.1, .inl h.2.1, .inl h.2.2⟩

theorem Queues.before (h : Queues env receives c' c'') (hstate : c'.jobState = c.jobState) :
    Queues env receives c c'' := by
  simp only [jobState, SVSyncCore.settings, Prod.mk.injEq] at hstate
  obtain ⟨⟨hprocessingOn, hproductionOn, hsigning, hextra⟩, hprocessing, hproduction⟩ := hstate
  refine ⟨?_, ?_, ?_⟩
  · rw [h.settings, SVSyncCore.settings, SVSyncCore.settings, hprocessingOn, hproductionOn,
      hsigning, hextra]
  · rw [← hprocessing, ← hprocessingOn]
    exact h.processing
  · rw [← hproduction, ← hproductionOn]
    exact h.production

theorem Queues.after (h : Queues env receives c c') (hstate : c''.jobState = c'.jobState) :
    Queues env receives c c'' := by
  simp only [jobState, Prod.mk.injEq] at hstate
  obtain ⟨hsettings, hprocessing, hproduction⟩ := hstate
  refine ⟨hsettings.trans h.settings, ?_, ?_⟩
  · rw [hprocessing]
    exact h.processing
  · rw [hproduction]
    exact h.production

theorem expressInterest_jobState (c : SVSyncCore) (interest : Interest) :
    (c.expressInterest env interest).1.jobState = c.jobState := by
  unfold expressInterest
  split <;> rfl

theorem sendSyncInterestSerial_jobState (c : SVSyncCore) :
    (c.sendSyncInterestSerial cfg env).1.jobState = c.jobState := by
  unfold sendSyncInterestSerial
  split
  · rfl
  · split
    · rfl
    · exact expressInterest_jobState c _

variable (cfg env) in
theorem sendSyncInterest_queues (c : SVSyncCore) :
    Queues env false c (c.sendSyncInterest cfg env).1 := by
  unfold sendSyncInterest
  split
  · exact .of_jobState rfl
  · split
    · exact .of_jobState (sendSyncInterestSerial_jobState c)
    · rename_i hparallel
      split
      · exact .of_jobState rfl
      · split
        · exact .of_jobState (sendSyncInterestSerial_jobState c)
        · rename_i hfull
          refine ⟨rfl, .inl rfl, .inr ⟨rfl, ?_, not_not.mp hparallel, _, rfl⟩⟩
          exact Bool.eq_false_iff.mpr hfull

variable (cfg env) in
theorem sendUnlessSuppressed_queues (c : SVSyncCore) :
    Queues env false c (c.sendUnlessSuppressed cfg env).1 := by
  unfold sendUnlessSuppressed
  split
  · exact sendSyncInterest_queues cfg env c
  · dsimp only
    split
    · exact (sendSyncInterest_queues cfg env _).before rfl
    · exact .of_jobState rfl

theorem retxSyncInterest_queues (c : SVSyncCore) (delay : Nat) :
    Queues env false c (c.retxSyncInterest cfg env true delay).1 := by
  have hsend := sendUnlessSuppressed_queues cfg env c
  rcases retxSyncInterest_cases cfg env c delay with ⟨-, hretx⟩ | ⟨-, hretx⟩
  · rw [hretx]
    exact hsend
  · rw [hretx]
    exact hsend.after rfl

theorem sendLocalPublicationSyncInterest_queues (c : SVSyncCore) :
    Queues env false c (c.sendLocalPublicationSyncInterest cfg env) := by
  have hsend := (sendSyncInterest_queues cfg env { c with recordedVv := none }).before (c := c) rfl
  rcases sendLocalPublicationSyncInterest_cases cfg env c with ⟨-, hlocal⟩ | ⟨-, hlocal⟩
  · rw [hlocal]
    exact hsend
  · rw [hlocal]
    exact hsend.after rfl

theorem updateSeqNo_queues (c : SVSyncCore) (seq : SeqNo) (b : BootstrapTime) (nid : NodeID) :
    Queues env false c (c.updateSeqNo cfg env seq b nid).1 := by
  unfold updateSeqNo
  simp only
  split
  · exact .of_jobState rfl
  · split
    · dsimp only
      split
      · exact .of_jobState rfl
      · exact (sendLocalPublicationSyncInterest_queues _).before rfl
    · exact .of_jobState rfl

theorem afterMerge_jobState (c : SVSyncCore) (other : VersionVector) (myVectorNew : Bool) :
    (c.afterMerge cfg env other myVectorNew).1.jobState = c.jobState := by
  cases hrecorded : c.recordedVv with
  | some recorded =>
    simp only [afterMerge, recordVector, hrecorded]
    rfl
  | none =>
    rw [afterMerge_unrecorded hrecorded]
    split
    · rfl
    · split <;> rfl

theorem onSyncInterestValidatedSerial_jobState (c : SVSyncCore) (interest : Interest) :
    (c.onSyncInterestValidatedSerial cfg env interest).1.jobState = c.jobState := by
  unfold onSyncInterestValidatedSerial
  split
  · rfl
  · exact afterMerge_jobState _ _ _

variable (cfg env) in
theorem onSyncInterestValidated_queues (c : SVSyncCore) (interest : Interest) :
    Queues env true c (c.onSyncInterestValidated cfg env interest).1 := by
  by_cases hserial : ¬c.parallelSyncProcessing ∨ env.queueFull
  · rw [onSyncInterestValidated_serial hserial]
    exact .of_jobState (onSyncInterestValidatedSerial_jobState c interest)
  · rw [onSyncInterestValidated_queued hserial]
    simp only [not_or, not_not] at hserial
    exact ⟨rfl, .inr ⟨rfl, Bool.eq_false_iff.mpr hserial.2, hserial.1, _, rfl⟩, .inl rfl⟩

/-- What a handler of the Face thread adds to the jobs. -/
theorem step_queues {e : Event} (he : e.isWork = false)
    (hstep : c.step cfg env e = some c') : Queues env e.isReceipt c c' := by
  cases e with
  | initialInterest =>
    obtain rfl := Option.some.inj hstep
    exact (retxSyncInterest_queues { c with initialized := true } 0).before rfl
  | retransmission =>
    obtain ⟨-, rfl⟩ := step_retransmission.mp hstep
    exact (retxSyncInterest_queues { c with retxEvent := none } 0).before rfl
  | publicationBatch =>
    obtain ⟨-, rfl⟩ := step_publicationBatch.mp hstep
    exact (sendLocalPublicationSyncInterest_queues
      { c with publicationSyncPending := false }).before rfl
  | interest interest =>
    obtain rfl := Option.some.inj hstep
    rw [onSyncInterest_eq]
    split
    · exact .of_jobState rfl
    · exact .of_jobState rfl
    · exact onSyncInterestValidated_queues cfg env c interest
  | verdict index accepted =>
    obtain ⟨interest, -, rfl⟩ := step_verdict.mp hstep
    split
    · exact (onSyncInterestValidated_queues cfg env
        { c with validating := c.validating.eraseIdx index } interest).before rfl
    · exact .of_jobState rfl
  | updateSeqNo seq b nid =>
    obtain rfl := Option.some.inj hstep
    exact updateSeqNo_queues c seq b nid
  | setMaxSuppressionTime delay =>
    obtain rfl := Option.some.inj hstep
    exact .of_jobState rfl
  | setSyncInterestBatching enabled =>
    obtain rfl := Option.some.inj hstep
    exact .of_jobState rfl
  | processingResult | productionResult | setParallelSyncProcessing | setParallelSyncProduction =>
    cases he

end SVSyncCore

end NdnSvs
