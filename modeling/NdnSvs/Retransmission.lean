import NdnSvs.CoreNotes

/-! The retransmission timer.  Every handler leaves a pending event pending or replaces it by a new
one, but for the event itself: it sets the timer again only after its send, and so an exception of
the send leaves the core without a timer. -/

namespace NdnSvs

open Lib Lib.Tlv

namespace SVSyncCore

variable (cfg : CoreConfig) (env : CoreInputs)

/-! ### When a send returns -/

/-- The callback, the encoder, the signer and the Face all let an Interest with the vector pass. -/
def SerialSendReturns (vv : VersionVector) : Prop :=
  ∃ extensions interest, callExtraBlocks cfg env = .ok extensions ∧
    encodeSyncInterest cfg env vv extensions = .ok interest ∧
    env.faceAccepts ∧ interest.size ≤ maxNdnPacketSize

/-- With workers only the callback is called, unless a worker calls it or the queue is full. -/
def SendReturns (c : SVSyncCore) (vv : VersionVector) : Prop :=
  if c.parallelSyncProduction then
    (¬c.parallelSyncProductionExtraBlock → ∃ extensions, callExtraBlocks cfg env = .ok extensions) ∧
      (env.queueFull → SerialSendReturns cfg env vv)
  else SerialSendReturns cfg env vv

/-- The vector that the timer sends when it is due, none when the recorded vectors cover it. -/
def dueVector (c : SVSyncCore) : Option VersionVector :=
  match c.recordedVv with
  | none => some c.vv
  | some recorded =>
    let result := computeMergeStateVector c.vv recorded
    if result.myVectorNew then some result.mergedVector else none

/-- The timer has nothing to send, or sends it without an exception. -/
def TimerReturns (c : SVSyncCore) : Prop :=
  ∀ vv, c.dueVector = some vv → SendReturns cfg env c vv

variable {cfg env} {c c' c'' : SVSyncCore}

theorem expressInterest_ok {interest : Interest} : (c.expressInterest env interest).2 = .ok () ↔
    env.faceAccepts ∧ interest.size ≤ maxNdnPacketSize := by
  unfold expressInterest
  split
  · rename_i h
    exact ⟨fun _ => h, fun _ => rfl⟩
  · rename_i h
    constructor
    · intro hok
      cases hok
    · exact fun hok => absurd hok h

theorem sendSyncInterestSerial_ok (hinit : c.initialized) :
    (c.sendSyncInterestSerial cfg env).2 = .ok () ↔ SerialSendReturns cfg env c.vv := by
  rw [sendSyncInterestSerial, if_neg (not_not.mpr hinit)]
  cases hblocks : callExtraBlocks cfg env with
  | error e => simp [SerialSendReturns, hblocks, error_bind]
  | ok extensions =>
    rw [ok_bind]
    cases hencode : encodeSyncInterest cfg env c.vv extensions with
    | error e => simp [SerialSendReturns, hblocks, hencode]
    | ok interest =>
      simp only
      rw [expressInterest_ok]
      constructor
      · exact fun h => ⟨extensions, interest, hblocks, hencode, h⟩
      · rintro ⟨extensions', interest', hblocks', hencode', h⟩
        obtain rfl := Except.ok.inj (hblocks.symm.trans hblocks')
        obtain rfl := Except.ok.inj (hencode.symm.trans hencode')
        exact h

/-- A send ends without an exception exactly when no part of it throws. -/
theorem sendSyncInterest_ok (hinit : c.initialized) :
    (c.sendSyncInterest cfg env).2 = .ok () ↔ SendReturns cfg env c c.vv := by
  rw [sendSyncInterest, if_neg (not_not.mpr hinit), SendReturns]
  by_cases hparallel : c.parallelSyncProduction
  · rw [if_neg (not_not.mpr hparallel), if_pos hparallel]
    have hserial := @sendSyncInterestSerial_ok cfg env c hinit
    by_cases hworker : c.parallelSyncProductionExtraBlock
    · rw [productionBlocks, if_pos hworker]
      by_cases hfull : env.queueFull
      · simp [hfull, hworker, hserial]
      · simp [hfull, hworker]
    · rw [productionBlocks, if_neg hworker]
      cases hblocks : callExtraBlocks cfg env with
      | error e => simp [hworker]
      | ok extensions =>
        by_cases hfull : env.queueFull
        · simp [hfull, hserial]
        · simp [hfull]
  · rw [if_pos hparallel, if_neg hparallel]
    exact sendSyncInterestSerial_ok hinit

theorem sendUnlessSuppressed_ok (hinit : c.initialized) :
    (c.sendUnlessSuppressed cfg env).2 = .ok () ↔ TimerReturns cfg env c := by
  unfold sendUnlessSuppressed TimerReturns dueVector
  cases c.recordedVv with
  | none =>
    simp only [Option.some.injEq, forall_eq']
    exact sendSyncInterest_ok hinit
  | some recorded =>
    simp only [mergeStateVector]
    by_cases hnew : (computeMergeStateVector c.vv recorded).myVectorNew
    · simp only [hnew, if_true, Option.some.injEq, forall_eq']
      exact sendSyncInterest_ok hinit
    · simp [hnew]

/-! ### What keeps the timer -/

/-- A pending timer stays pending, or is replaced. -/
structure KeepsTimer (c c' : SVSyncCore) : Prop where
  initialized : c.initialized → c'.initialized
  retxEvent : c.retxEvent.isSome → c'.retxEvent.isSome

theorem KeepsTimer.refl (c : SVSyncCore) : KeepsTimer c c := ⟨id, id⟩

theorem KeepsTimer.trans (h : KeepsTimer c c') (h' : KeepsTimer c' c'') : KeepsTimer c c'' :=
  ⟨h'.initialized ∘ h.initialized, h'.retxEvent ∘ h.retxEvent⟩

theorem SendsOnly.keepsTimer (h : SendsOnly c c') : KeepsTimer c c' := by
  rw [h]
  exact ⟨id, id⟩

theorem scheduleRetx_keepsTimer (c : SVSyncCore) (delay : Nat) :
    KeepsTimer c (c.scheduleRetx env delay) := ⟨id, fun _ => rfl⟩

theorem sendUnlessSuppressed_keepsTimer (c : SVSyncCore) :
    KeepsTimer c (c.sendUnlessSuppressed cfg env).1 := by
  unfold sendUnlessSuppressed
  split
  · exact (sendSyncInterest_sendsOnly cfg env c).keepsTimer
  · rename_i recorded _
    have hmerge : KeepsTimer c (c.mergeStateVector recorded).1 := ⟨id, id⟩
    simp only
    split
    · exact hmerge.trans (sendSyncInterest_sendsOnly cfg env _).keepsTimer
    · exact hmerge

/-- The timer is set after a send that returns, and is left as it was by one that throws. -/
theorem retxSyncInterest_retxEvent (hinit : c.initialized) (delay : Nat) :
    (c.retxSyncInterest cfg env true delay).1.retxEvent.isSome ↔
      c.retxEvent.isSome ∨ TimerReturns cfg env c := by
  have hsent := @sendUnlessSuppressed_ok cfg env c hinit
  have hkeeps : (c.sendUnlessSuppressed cfg env).1.retxEvent = c.retxEvent := by
    unfold sendUnlessSuppressed
    split
    · rw [sendSyncInterest_sendsOnly cfg env c]
    · simp only
      split
      · rw [sendSyncInterest_sendsOnly cfg env]
        rfl
      · rfl
  rcases retxSyncInterest_cases cfg env c delay with ⟨⟨e, he⟩, hretx⟩ | ⟨hok, hretx⟩
  · have hthrows : ¬TimerReturns cfg env c := fun h => by
      rw [hsent.mpr h] at he
      cases he
    rw [hretx, hkeeps]
    simp only [hthrows, or_false]
  · have hreturns : TimerReturns cfg env c := hsent.mp hok
    rw [hretx]
    simp only [hreturns, or_true, iff_true]
    rfl

theorem retxSyncInterest_keepsTimer (c : SVSyncCore) (send : Bool) (delay : Nat) :
    KeepsTimer c (c.retxSyncInterest cfg env send delay).1 := by
  cases send with
  | false => exact scheduleRetx_keepsTimer c _
  | true =>
    have hsend := @sendUnlessSuppressed_keepsTimer cfg env c
    have hdrop : ∀ c : SVSyncCore, KeepsTimer c { c with recordedVv := none } := fun c => ⟨id, id⟩
    rcases retxSyncInterest_cases cfg env c delay with ⟨-, hretx⟩ | ⟨-, hretx⟩
    · rw [hretx]
      exact hsend
    · rw [hretx]
      exact (hsend.trans (hdrop _)).trans (scheduleRetx_keepsTimer _ _)

theorem sendLocalPublicationSyncInterest_keepsTimer (c : SVSyncCore) :
    KeepsTimer c (c.sendLocalPublicationSyncInterest cfg env) := by
  have hdrop : KeepsTimer c { c with recordedVv := none } := ⟨id, id⟩
  have hsend := hdrop.trans (sendSyncInterest_sendsOnly cfg env _).keepsTimer
  rcases sendLocalPublicationSyncInterest_cases cfg env c with ⟨-, hlocal⟩ | ⟨-, hlocal⟩
  · rw [hlocal]
    exact hsend
  · rw [hlocal]
    exact hsend.trans (scheduleRetx_keepsTimer _ _)

theorem afterMerge_keepsTimer (c : SVSyncCore) (other : VersionVector) (myVectorNew : Bool) :
    KeepsTimer c (c.afterMerge cfg env other myVectorNew).1 := by
  unfold afterMerge recordVector
  cases hrec : c.recordedVv with
  | some r => exact ⟨id, id⟩
  | none =>
    have henter : KeepsTimer c (c.enterSuppressionState other) := by
      rw [enterSuppressionState, hrec]
      exact ⟨id, id⟩
    simp only
    split
    · exact retxSyncInterest_keepsTimer c false _
    · split
      · exact henter.trans (retxSyncInterest_keepsTimer _ false _)
      · exact henter

theorem onSyncInterestValidatedSerial_keepsTimer (c : SVSyncCore) (interest : Interest) :
    KeepsTimer c (c.onSyncInterestValidatedSerial cfg env interest).1 := by
  unfold onSyncInterestValidatedSerial
  split
  · exact .refl c
  · rename_i envelope _
    have hmerge : ∀ upcalls, KeepsTimer c
        { (c.mergeStateVector envelope.stateVector).1 with upcalls } := fun _ => ⟨id, id⟩
    exact (hmerge _).trans (afterMerge_keepsTimer _ _ _)

theorem onSyncInterestValidated_keepsTimer (c : SVSyncCore) (interest : Interest) :
    KeepsTimer c (c.onSyncInterestValidated cfg env interest).1 := by
  unfold onSyncInterestValidated
  split
  · exact onSyncInterestValidatedSerial_keepsTimer c interest
  · exact ⟨id, id⟩

theorem processSyncInterestResult_keepsTimer (c : SVSyncCore) (job : SyncProcessingJob) :
    KeepsTimer c (c.processSyncInterestResult cfg env job).1 := by
  unfold processSyncInterestResult
  split
  · exact .refl c
  · rename_i envelope _
    split
    · exact onSyncInterestValidatedSerial_keepsTimer c job.interest
    · have hmerge : ∀ vv stateGeneration upcalls,
        KeepsTimer c { c with vv, stateGeneration, upcalls } := fun _ _ _ => ⟨id, id⟩
      exact (hmerge _ _ _).trans (afterMerge_keepsTimer _ _ _)

theorem updateSeqNo_keepsTimer (c : SVSyncCore) (seq : SeqNo) (b : BootstrapTime) (nid : NodeID) :
    KeepsTimer c (c.updateSeqNo cfg env seq b nid).1 := by
  unfold updateSeqNo
  simp only
  split
  · exact .refl c
  · rename_i vv _
    split
    · have hset : KeepsTimer c { c with vv, stateGeneration := c.stateGeneration + 1 } := ⟨id, id⟩
      simp only
      split
      · exact ⟨id, id⟩
      · exact hset.trans (sendLocalPublicationSyncInterest_keepsTimer _)
    · exact ⟨id, id⟩

/-- Every event but the timer's own keeps the timer. -/
theorem step_keepsTimer {e : Event} (he : e ≠ .retransmission)
    (hstep : c.step cfg env e = some c') : KeepsTimer c c' := by
  cases e with
  | initialInterest =>
    obtain rfl := Option.some.inj hstep
    have hinit : KeepsTimer c { c with initialized := true } := ⟨fun _ => rfl, id⟩
    exact hinit.trans (retxSyncInterest_keepsTimer _ true 0)
  | retransmission => exact absurd rfl he
  | publicationBatch =>
    obtain ⟨-, rfl⟩ := step_publicationBatch.mp hstep
    have hbatch : KeepsTimer c { c with publicationSyncPending := false } := ⟨id, id⟩
    exact hbatch.trans (sendLocalPublicationSyncInterest_keepsTimer _)
  | interest arrived =>
    obtain rfl := Option.some.inj hstep
    rw [onSyncInterest_eq]
    cases admission cfg env arrived with
    | refused => exact .refl c
    | judged => exact ⟨id, id⟩
    | accepted => exact onSyncInterestValidated_keepsTimer c arrived
  | verdict index accepted =>
    obtain ⟨_, -, rfl⟩ := step_verdict.mp hstep
    have herased : KeepsTimer c { c with validating := c.validating.eraseIdx index } := ⟨id, id⟩
    split
    · exact herased.trans (onSyncInterestValidated_keepsTimer _ _)
    · exact herased
  | processingResult index =>
    obtain ⟨_, -, rfl⟩ := step_processingResult.mp hstep
    have herased : KeepsTimer c { c with processing := c.processing.eraseIdx index } := ⟨id, id⟩
    exact herased.trans (processSyncInterestResult_keepsTimer _ _)
  | productionResult index =>
    obtain ⟨_, -, rfl⟩ := step_productionResult.mp hstep
    have herased : KeepsTimer c { c with production := c.production.eraseIdx index } := ⟨id, id⟩
    exact herased.trans (processSyncProductionResult_sendsOnly _ _ _ _).keepsTimer
  | updateSeqNo seq b nid =>
    obtain rfl := Option.some.inj hstep
    exact updateSeqNo_keepsTimer c seq b nid
  | setMaxSuppressionTime delay =>
    obtain rfl := Option.some.inj hstep
    exact ⟨id, id⟩
  | setSyncInterestBatching enabled =>
    obtain rfl := Option.some.inj hstep
    exact ⟨id, id⟩
  | setParallelSyncProcessing enabled =>
    obtain rfl := Option.some.inj hstep
    exact ⟨id, id⟩
  | setParallelSyncProduction enabled signInWorker buildExtraBlockInWorker =>
    obtain rfl := Option.some.inj hstep
    exact ⟨id, id⟩

/-- The timer's own event leaves a timer exactly when its send returns. -/
theorem retransmission_retxEvent (hinit : c.initialized)
    (hstep : c.step cfg env .retransmission = some c') :
    c'.initialized ∧ (c'.retxEvent.isSome ↔ TimerReturns cfg env c) := by
  obtain ⟨-, rfl⟩ := step_retransmission.mp hstep
  have hfired := @retxSyncInterest_retxEvent cfg env { c with retxEvent := none } hinit 0
  refine ⟨(@retxSyncInterest_keepsTimer cfg env { c with retxEvent := none } true
    0).initialized hinit, ?_⟩
  rw [hfired]
  simp [TimerReturns, dueVector, SendReturns]

/-! ### Runs -/

variable (cfg) in
/-- When the event is the timer's own, its send does not throw. -/
def Rearms (c : SVSyncCore) (o : Occurrence) : Prop :=
  o.1 = .retransmission → c.retxEvent.isSome → TimerReturns cfg o.2 c

/-- After the event of the first Interest, whatever came before, a retransmission event is pending
in every state of a run exactly when no send of the timer throws, nor that of the first Interest
when no timer is pending. -/
theorem retransmission_pending {after : List Occurrence} {c₀ c₁ : SVSyncCore}
    (hfirst : c₀.next cfg (.initialInterest, env) = some c₁) :
    Throughout (next cfg) (fun c => c.retxEvent.isSome) c₁ after ↔
      (c₀.retxEvent.isSome ∨ TimerReturns cfg env c₀) ∧ Along (next cfg) (Rearms cfg) c₁ after := by
  obtain rfl := Option.some.inj hfirst
  have hinit : (c₀.sendInitialInterest cfg env).1.initialized :=
    (retxSyncInterest_keepsTimer { c₀ with initialized := true } true 0).initialized rfl
  have harmed : (c₀.sendInitialInterest cfg env).1.retxEvent.isSome ↔
      c₀.retxEvent.isSome ∨ TimerReturns cfg env c₀ :=
    retxSyncInterest_retxEvent (c := { c₀ with initialized := true }) rfl 0
  rw [← harmed]
  have hrun : (c₀.sendInitialInterest cfg env).1.retxEvent.isSome →
      (Throughout (next cfg) (fun c => c.retxEvent.isSome)
        (c₀.sendInitialInterest cfg env).1 after ↔
        Along (next cfg) (Rearms cfg) (c₀.sendInitialInterest cfg env).1 after) := by
    intro hpending
    refine @throughout_iff_along _ _ _ _ (fun c => c.initialized) _ (fun _ _ => True)
      ?_ ?_ ?_ _ _ hinit hpending (along_of_forall (fun _ _ _ => trivial) _)
    · rintro c ⟨e, env⟩ c' hstep - hinit
      by_cases he : e = .retransmission
      · subst he
        exact (retransmission_retxEvent hinit hstep).1
      · exact (step_keepsTimer he hstep).initialized hinit
    · rintro c ⟨e, env⟩ c' hstep - hinit hpending
      by_cases he : e = .retransmission
      · subst he
        rw [(retransmission_retxEvent hinit hstep).2]
        exact ⟨fun h _ _ => h, fun h => h rfl hpending⟩
      · exact ⟨fun _ h => absurd h he, fun _ => (step_keepsTimer he hstep).retxEvent hpending⟩
    · rintro c ⟨e, env⟩ hnone rfl hpending
      simp [next, step, hpending] at hnone
  constructor
  · intro h
    have hpending := h 0 _ rfl
    exact ⟨hpending, (hrun hpending).mp h⟩
  · exact fun h => (hrun h.1).mpr h.2

/-- A first Interest, the timer, and the timer again. -/
def timerRun (env : CoreInputs) : List Occurrence :=
  [(.retransmission, env), (.retransmission, sampleInputs)]

theorem retransmission_pending_twice :
    let c₁ := ({} : SVSyncCore).sendInitialInterest sampleConfig sampleInputs |>.1
    Throughout (next sampleConfig) (fun c => c.retxEvent.isSome) c₁ (timerRun sampleInputs) ↔
      ((({} : SVSyncCore).retxEvent.isSome ∨ TimerReturns sampleConfig sampleInputs {}) ∧
        Along (next sampleConfig) (Rearms sampleConfig) c₁ (timerRun sampleInputs)) :=
  @retransmission_pending sampleConfig sampleInputs (timerRun sampleInputs) {} _ rfl

/-- A signer that throws when the timer expires leaves the core without a timer. -/
theorem throwing_signer_ends_timer : ∃ c₁ c₂,
    ({} : SVSyncCore).next sampleConfig (.initialInterest, sampleInputs) = some c₁ ∧
    c₁.retxEvent.isSome ∧
    c₁.next sampleConfig (.retransmission, { sampleInputs with signData := fun _ => none }) =
      some c₂ ∧
    c₂.initialized ∧ c₂.retxEvent = none := by
  let c₁ := (({} : SVSyncCore).next sampleConfig (.initialInterest, sampleInputs)).get
    (by decide +kernel)
  let c₂ := (c₁.next sampleConfig
    (.retransmission, { sampleInputs with signData := fun _ => none })).get (by decide +kernel)
  exact ⟨c₁, c₂, (Option.some_get _).symm, by decide +kernel, (Option.some_get _).symm,
    by decide +kernel, by decide +kernel⟩

end SVSyncCore

end NdnSvs
