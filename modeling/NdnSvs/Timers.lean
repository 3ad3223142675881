import Mathlib.Analysis.Complex.Exponential
import NdnSvs.Retransmission

/-! The recorded time of the next Sync Interest, in microseconds and 32-bit products, beside the
event that the scheduler holds; and the delay of a reply, which the suppression curve takes down to
zero, where the timer reads zero as the periodic delay. -/

namespace NdnSvs

open Lib Lib.Tlv

namespace SVSyncCore

variable (cfg : CoreConfig) (env : CoreInputs)

/-! ### The delays of a step -/

/-- The reply delay that is drawn, after the curve. -/
def curvedDelay (c : SVSyncCore) : Int := cfg.suppressionCurve c.maxSuppressionTime env.replyDelay

/-- The comparison by which a reply replaces the pending event. -/
def Resets (c : SVSyncCore) : Prop :=
  env.currentTime + mulInt32 (c.curvedDelay cfg env) 1000 < c.nextSyncInterest

instance (c : SVSyncCore) : Decidable (c.Resets cfg env) := inferInstanceAs (Decidable (_ < _))

/-- What the timer makes of an argument: zero stands for the periodic delay. -/
def timerDelayOf (delay : Nat) : Nat := if delay = 0 then env.retxDelay else delay

/-- The delay that a reply sets the timer to. -/
def replyTimer (c : SVSyncCore) : Nat :=
  timerDelayOf env (c.curvedDelay cfg env % 4294967296).toNat

/-- The delay that the timer is set to after a merge, if it is set. -/
def mergeTimer (c : SVSyncCore) (myVectorNew : Bool) : Option Nat :=
  if c.recordedVv.isSome then none
  else if ¬myVectorNew then some env.retxDelay
  else if c.Resets cfg env then some (c.replyTimer cfg env) else none

/-- The delay that the timer is set to after a send, none when the send throws. -/
def sendTimer : Result Unit → Option Nat
  | .ok () => some env.retxDelay
  | .error _ => none

/-- What an Interest is merged with: the snapshot of a worker whose result is not stale, and the
local vector otherwise. -/
def mergeBase (c : SVSyncCore) : Event → VersionVector
  | .processingResult index =>
    match c.processing[index]? with
    | none => c.vv
    | some job => if c.stateGeneration ≠ job.stateGeneration then c.vv else job.localVector
  | _ => c.vv

/-- Whether an envelope that an event processes lacks a local entry. -/
def myVectorNew (c : SVSyncCore) (e : Event) (envelope : DecodedSyncEnvelope) : Bool :=
  (computeMergeStateVector (c.mergeBase e) envelope.stateVector).myVectorNew

variable {env}

/-- The delay that a step sets the timer to, if it sets it. -/
def timerDelay (c : SVSyncCore) : Occurrence → Option Nat
  | (.initialInterest, env) =>
    sendTimer env (({ c with initialized := true } : SVSyncCore).sendUnlessSuppressed cfg env).2
  | (.retransmission, env) =>
    if c.retxEvent.isSome then
      sendTimer env (({ c with retxEvent := none } : SVSyncCore).sendUnlessSuppressed cfg env).2
    else none
  | (.publicationBatch, env) =>
    if c.publicationSyncPending then
      sendTimer env (({ c with publicationSyncPending := false, recordedVv := none } :
        SVSyncCore).sendSyncInterest cfg env).2
    else none
  | (.updateSeqNo seq b nid, env) =>
    if seq ≠ 0 ∧ c.vv.get (targetNode cfg nid) b < seq ∧ ¬c.syncInterestBatching then
      sendTimer env (({ c.assigned cfg seq b nid with recordedVv := none } :
        SVSyncCore).sendSyncInterest cfg env).2
    else none
  | o => (c.receives cfg o).bind fun envelope =>
    c.mergeTimer cfg o.2 (c.myVectorNew o.1 envelope)

/-- The reply delay that a step compares with the recorded time, if it compares one. -/
def comparedDelay (c : SVSyncCore) (o : Occurrence) : Option Int :=
  (c.receives cfg o).bind fun envelope =>
    if c.recordedVv.isNone ∧ c.myVectorNew o.1 envelope then some (c.curvedDelay cfg o.2) else none

/-- The timer of `c'` is that of `c`, set anew when there is a delay. -/
def TimerSet (env : CoreInputs) (delay : Option Nat) (c c' : SVSyncCore) : Prop :=
  match delay with
  | none => c'.nextSyncInterest = c.nextSyncInterest ∧ c'.retxEvent = c.retxEvent
  | some delay =>
    c'.nextSyncInterest = env.currentTime + (1000 * delay % 2 ^ 32 : Nat) ∧
      c'.retxEvent = some (env.currentTime + (1000 * delay : Nat))

variable {cfg} {c c' c₁ : SVSyncCore} {delay : Option Nat}

/-! ### The timer of a step -/

theorem TimerSet.refl (c : SVSyncCore) : TimerSet env none c c := ⟨rfl, rfl⟩

/-- Only the timer of the first state counts. -/
theorem TimerSet.of_eq (h : TimerSet env delay c₁ c')
    (hnext : c₁.nextSyncInterest = c.nextSyncInterest) (hevent : c₁.retxEvent = c.retxEvent) :
    TimerSet env delay c c' := by
  cases delay with
  | none => exact ⟨h.1.trans hnext, h.2.trans hevent⟩
  | some delay => exact h

/-- What the timer depends on after a merge is the same in two states. -/
structure SameTimer (c c₁ : SVSyncCore) : Prop where
  recordedVv : c₁.recordedVv = c.recordedVv
  maxSuppressionTime : c₁.maxSuppressionTime = c.maxSuppressionTime
  nextSyncInterest : c₁.nextSyncInterest = c.nextSyncInterest
  retxEvent : c₁.retxEvent = c.retxEvent

theorem TimerSet.of_same {myVectorNew : Bool}
    (h : TimerSet env (c₁.mergeTimer cfg env myVectorNew) c₁ c') (hsame : SameTimer c c₁) :
    TimerSet env (c.mergeTimer cfg env myVectorNew) c c' := by
  have hdelay : c₁.curvedDelay cfg env = c.curvedDelay cfg env := by
    rw [curvedDelay, hsame.maxSuppressionTime, curvedDelay]
  have hresets : c₁.Resets cfg env ↔ c.Resets cfg env := by
    rw [Resets, hdelay, hsame.nextSyncInterest, Resets]
  have htimer : c₁.mergeTimer cfg env myVectorNew = c.mergeTimer cfg env myVectorNew := by
    simp only [mergeTimer, replyTimer, hsame.recordedVv, hdelay, hresets]
  rw [← htimer]
  exact h.of_eq hsame.nextSyncInterest hsame.retxEvent

theorem scheduleRetx_timer (c c₁ : SVSyncCore) (delay : Nat) :
    TimerSet env (some delay) c₁ (c.scheduleRetx env delay) := ⟨rfl, rfl⟩

theorem SendsOnly.timer (h : SendsOnly c c') : TimerSet env none c c' := by
  rw [h]
  exact ⟨rfl, rfl⟩

theorem sendUnlessSuppressed_timer (c : SVSyncCore) :
    TimerSet env none c (c.sendUnlessSuppressed cfg env).1 := by
  unfold sendUnlessSuppressed
  split
  · exact (sendSyncInterest_sendsOnly cfg env c).timer
  · rename_i recorded _
    simp only
    split
    · exact (sendSyncInterest_sendsOnly cfg env _).timer.of_eq rfl rfl
    · exact ⟨rfl, rfl⟩

/-- The timer is set anew unless its send throws. -/
theorem retxSyncInterest_timer (c : SVSyncCore) :
    TimerSet env (sendTimer env (c.sendUnlessSuppressed cfg env).2) c
      (c.retxSyncInterest cfg env true 0).1 := by
  have hsend := @sendUnlessSuppressed_timer cfg env c
  rcases retxSyncInterest_cases cfg env c 0 with ⟨⟨e, he⟩, hretx⟩ | ⟨hok, hretx⟩
  · rw [he, hretx]
    exact hsend
  · rw [hok, hretx]
    exact scheduleRetx_timer _ _ _

theorem resetTimer_timer (c : SVSyncCore) (delay : Nat) :
    TimerSet env (some (timerDelayOf env delay)) c (c.retxSyncInterest cfg env false delay).1 :=
  scheduleRetx_timer _ _ _

theorem sendLocalPublicationSyncInterest_timer (c : SVSyncCore) :
    TimerSet env
      (sendTimer env (({ c with recordedVv := none } : SVSyncCore).sendSyncInterest cfg env).2) c
      (c.sendLocalPublicationSyncInterest cfg env) := by
  have hsend := @SendsOnly.timer env _ _
    (sendSyncInterest_sendsOnly cfg env { c with recordedVv := none })
  rcases sendLocalPublicationSyncInterest_cases cfg env c with ⟨⟨e, he⟩, hlocal⟩ | ⟨hok, hlocal⟩
  · rw [he, hlocal]
    exact hsend
  · rw [hok, hlocal]
    exact scheduleRetx_timer _ _ _

theorem afterMerge_timer (c : SVSyncCore) (other : VersionVector) (myVectorNew : Bool) :
    TimerSet env (c.mergeTimer cfg env myVectorNew) c
      (c.afterMerge cfg env other myVectorNew).1 := by
  cases hrec : c.recordedVv with
  | some r =>
    simp only [mergeTimer, hrec, afterMerge, recordVector, Option.isSome_some, if_true]
    exact ⟨rfl, rfl⟩
  | none =>
    rw [mergeTimer, hrec, if_neg (by simp), afterMerge, recordVector, hrec]
    simp only
    by_cases hnew : myVectorNew
    · rw [if_neg (not_not.mpr hnew), if_neg (not_not.mpr hnew), enterSuppressionState, hrec]
      by_cases hreset : c.Resets cfg env
      · have hcompare : env.currentTime +
            mulInt32 (cfg.suppressionCurve c.maxSuppressionTime env.replyDelay) 1000 <
            c.nextSyncInterest := hreset
        simp only [if_pos hreset, if_pos hcompare]
        exact resetTimer_timer _ _
      · have hcompare : ¬env.currentTime +
            mulInt32 (cfg.suppressionCurve c.maxSuppressionTime env.replyDelay) 1000 <
            c.nextSyncInterest := hreset
        simp only [if_neg hreset, if_neg hcompare]
        exact ⟨rfl, rfl⟩
    · rw [if_pos hnew, if_pos hnew]
      exact resetTimer_timer _ _

theorem onSyncInterestValidatedSerial_timer {interest : Interest} {envelope : DecodedSyncEnvelope}
    (h : envelopeOf cfg env interest = some envelope) :
    TimerSet env (c.mergeTimer cfg env
        (computeMergeStateVector c.vv envelope.stateVector).myVectorNew) c
      (c.onSyncInterestValidatedSerial cfg env interest).1 := by
  rw [onSyncInterestValidatedSerial, envelopeOf_eq_some.mp h]
  simp only [mergeStateVector]
  exact TimerSet.of_same (afterMerge_timer _ _ _) ⟨rfl, rfl, rfl, rfl⟩

theorem processSyncInterestResult_timer {job : SyncProcessingJob} {envelope : DecodedSyncEnvelope}
    (h : envelopeOf cfg env job.interest = some envelope) :
    TimerSet env (c.mergeTimer cfg env (computeMergeStateVector
        (if c.stateGeneration ≠ job.stateGeneration then c.vv else job.localVector)
        envelope.stateVector).myVectorNew) c
      (c.processSyncInterestResult cfg env job).1 := by
  rw [processSyncInterestResult, envelopeOf_eq_some.mp h]
  simp only
  split
  · exact onSyncInterestValidatedSerial_timer h
  · exact TimerSet.of_same (afterMerge_timer _ _ _) ⟨rfl, rfl, rfl, rfl⟩

theorem updateSeqNo_timer (c : SVSyncCore) (seq : SeqNo) (b : BootstrapTime) (nid : NodeID) :
    TimerSet env (c.timerDelay cfg (.updateSeqNo seq b nid, env)) c
      (c.updateSeqNo cfg env seq b nid).1 := by
  by_cases hseq : seq = 0
  · rw [hseq, updateSeqNo_zero]
    simp only [timerDelay, ne_eq, not_true, false_and, if_false]
    exact .refl c
  · simp only [updateSeqNo, VersionVector.set, if_neg hseq, timerDelay]
    by_cases hnew : c.vv.get (targetNode cfg nid) b < seq
    · by_cases hbatching : c.syncInterestBatching
      · simp only [hnew, hbatching, if_true, not_true, and_false, if_false]
        exact ⟨rfl, rfl⟩
      · have hsend := @sendLocalPublicationSyncInterest_timer cfg env
          { c with
            vv := c.vv.put (targetNode cfg nid) b seq
            stateGeneration := c.stateGeneration + 1 }
        rw [if_pos ⟨hseq, hnew, hbatching⟩, if_pos hnew, if_neg hbatching, assigned]
        simp only [if_pos hnew]
        exact hsend.of_eq rfl rfl
    · simp only [hnew, if_false, false_and, and_false]
      exact ⟨rfl, rfl⟩

/-- The timer as its event finds it: a retransmission takes the pending event. -/
def fired (c : SVSyncCore) : Event → SVSyncCore
  | .retransmission => { c with retxEvent := none }
  | _ => c

/-- A step that processes an envelope sets the timer as the merge asks. -/
theorem dequeue_sameTimer (c : SVSyncCore) (e : Event) : SameTimer c (c.dequeue e) := by
  cases e <;> exact ⟨rfl, rfl, rfl, rfl⟩

theorem mergeBase_of_ne {e : Event} (h : ∀ index, e ≠ .processingResult index) :
    c.mergeBase e = c.vv := by
  cases e with
  | processingResult index => exact absurd rfl (h index)
  | _ => rfl

theorem step_processed_timer {e : Event} {envelope : DecodedSyncEnvelope}
    (hstep : c.step cfg env e = some c') (h : c.receives cfg (e, env) = some envelope) :
    TimerSet env (c.mergeTimer cfg env (c.myVectorNew e envelope)) c c' := by
  obtain ⟨interest, hprocesses, henvelope⟩ := Option.bind_eq_some_iff.mp h
  have hsame := dequeue_sameTimer c e
  rcases step_processes hstep hprocesses with
    ⟨index, job, rfl, hindex, rfl, rfl⟩ | ⟨hne, rfl⟩
  · simp only [myVectorNew, mergeBase, hindex]
    exact (processSyncInterestResult_timer henvelope).of_same hsame
  · rw [myVectorNew, mergeBase_of_ne hne, ← dequeue_vv c e]
    exact (onSyncInterestValidatedSerial_timer henvelope).of_same hsame

theorem step_unprocessed_timer {e : Event} (he : e.isReceipt)
    (hstep : c.step cfg env e = some c') (h : c.receives cfg (e, env) = none) :
    TimerSet env none c c' := by
  rw [step_unreceived he hstep h]
  exact ⟨rfl, rfl⟩

theorem receives_of_not_receipt {e : Event} (he : ¬e.isReceipt) :
    c.receives cfg (e, env) = none := by
  cases e <;> simp_all [receives, processes, admits, Event.isReceipt]

/-- Every step sets the timer to its delay, if it has one, and else leaves the timer as it is. -/
theorem step_timer {e : Event} (hstep : c.step cfg env e = some c') :
    TimerSet env (c.timerDelay cfg (e, env)) (c.fired e) c' := by
  have hreceipt : e.isReceipt → TimerSet env ((c.receives cfg (e, env)).bind fun envelope =>
      c.mergeTimer cfg env (c.myVectorNew e envelope)) c c' := by
    intro he
    cases h : c.receives cfg (e, env) with
    | none => exact step_unprocessed_timer he hstep h
    | some envelope => exact step_processed_timer hstep h
  have hother : ¬e.isReceipt → TimerSet env none c c' →
      TimerSet env ((c.receives cfg (e, env)).bind fun envelope =>
        c.mergeTimer cfg env (c.myVectorNew e envelope)) c c' := by
    intro he hsame
    rw [receives_of_not_receipt he]
    exact hsame
  cases e with
  | initialInterest =>
    obtain rfl := Option.some.inj hstep
    have hfirst := @retxSyncInterest_timer cfg env { c with initialized := true }
    exact hfirst.of_eq rfl rfl
  | retransmission =>
    obtain ⟨hpending, rfl⟩ := step_retransmission.mp hstep
    simp only [timerDelay]
    rw [if_pos hpending]
    exact retxSyncInterest_timer _
  | publicationBatch =>
    obtain ⟨hpending, rfl⟩ := step_publicationBatch.mp hstep
    simp only [timerDelay]
    rw [if_pos hpending]
    have hbatch := @sendLocalPublicationSyncInterest_timer cfg env
      { c with publicationSyncPending := false }
    exact hbatch.of_eq rfl rfl
  | interest arrived => exact hreceipt rfl
  | verdict index accepted => exact hreceipt rfl
  | processingResult index => exact hreceipt rfl
  | productionResult index =>
    obtain ⟨job, -, rfl⟩ := step_productionResult.mp hstep
    have hsent := processSyncProductionResult_sendsOnly cfg env
      { c with production := c.production.eraseIdx index } job
    exact hother (by simp [Event.isReceipt]) (hsent.timer.of_eq rfl rfl)
  | updateSeqNo seq b nid =>
    obtain rfl := Option.some.inj hstep
    exact updateSeqNo_timer c seq b nid
  | setMaxSuppressionTime delay =>
    obtain rfl := Option.some.inj hstep
    exact hother (by simp [Event.isReceipt]) ⟨rfl, rfl⟩
  | setSyncInterestBatching enabled =>
    obtain rfl := Option.some.inj hstep
    exact hother (by simp [Event.isReceipt]) ⟨rfl, rfl⟩
  | setParallelSyncProcessing enabled =>
    obtain rfl := Option.some.inj hstep
    exact hother (by simp [Event.isReceipt]) ⟨rfl, rfl⟩
  | setParallelSyncProduction enabled signInWorker buildExtraBlockInWorker =>
    obtain rfl := Option.some.inj hstep
    exact hother (by simp [Event.isReceipt]) ⟨rfl, rfl⟩

/-- An event that cannot happen sets no timer. -/
theorem timerDelay_of_none {e : Event} (hstep : c.step cfg env e = none) :
    c.timerDelay cfg (e, env) = none := by
  cases e with
  | retransmission =>
    simp only [step] at hstep
    split at hstep
    · cases hstep
    · rename_i hpending
      exact if_neg hpending
  | publicationBatch =>
    simp only [step] at hstep
    split at hstep
    · cases hstep
    · rename_i hpending
      exact if_neg hpending
  | verdict index accepted =>
    simp only [step] at hstep
    split at hstep
    · rename_i hindex
      simp [timerDelay, receives, processes, admits, hindex]
    · split at hstep <;> cases hstep
  | processingResult index =>
    simp only [step] at hstep
    split at hstep
    · rename_i hindex
      simp [timerDelay, receives, processes, hindex]
    · cases hstep
  | productionResult index => simp [timerDelay, receives, processes, admits]
  | _ => cases hstep

/-! ### The recorded time -/

/-- The recorded time is that of the pending event. -/
def Recorded (c : SVSyncCore) : Prop := ∀ due, c.retxEvent = some due → c.nextSyncInterest = due

variable (cfg) in
/-- The comparison with the recorded time multiplies without wrapping around. -/
def ComparesExactly (c : SVSyncCore) (o : Occurrence) : Prop :=
  ∀ delay, c.comparedDelay cfg o = some delay → mulInt32 delay 1000 = delay * 1000

variable (cfg) in
/-- The delay that a step sets the timer to is below 2^32 microseconds, and the one that it compares
is a signed 32-bit number of microseconds. -/
structure DelaysFit (c : SVSyncCore) (o : Occurrence) : Prop where
  set : ∀ delay, c.timerDelay cfg o = some delay → 1000 * delay < 2 ^ 32
  compared : ∀ delay, c.comparedDelay cfg o = some delay →
    -2 ^ 31 ≤ delay * 1000 ∧ delay * 1000 < 2 ^ 31

theorem mulInt32_eq_iff {a b : Int} :
    mulInt32 a b = a * b ↔ -2 ^ 31 ≤ a * b ∧ a * b < 2 ^ 31 := by
  rw [mulInt32, Int.bmod_eq_iff (by decide)]
  constructor
  · rintro ⟨hlow, hhigh, -⟩
    exact ⟨by omega, by omega⟩
  · rintro ⟨hlow, hhigh⟩
    exact ⟨by omega, by omega, by simp⟩

theorem fired_recorded (h : c.Recorded) (e : Event) : (c.fired e).Recorded := by
  cases e with
  | retransmission =>
    intro due hdue
    cases hdue
  | _ => exact h

/-- The step that sets the timer records its time exactly when the product does not wrap. -/
theorem step_recorded {e : Event} (h : c.Recorded) (hstep : c.step cfg env e = some c') :
    c'.Recorded ↔ ∀ delay, c.timerDelay cfg (e, env) = some delay → 1000 * delay < 2 ^ 32 := by
  have htimer := step_timer hstep
  cases hset : c.timerDelay cfg (e, env) with
  | none =>
    rw [hset] at htimer
    obtain ⟨hnext, hevent⟩ := htimer
    have hkept : c'.Recorded := by
      intro due hdue
      rw [hnext]
      exact fired_recorded h e due (hevent ▸ hdue)
    constructor
    · intro _ delay hdelay
      cases hdelay
    · exact fun _ => hkept
  | some delay =>
    rw [hset] at htimer
    obtain ⟨hnext, hevent⟩ := htimer
    constructor
    · intro hrecorded delay' hdelay'
      obtain rfl := Option.some.inj hdelay'
      have hexact := hrecorded _ hevent
      rw [hnext] at hexact
      omega
    · intro hfits due hdue
      have hlt := hfits delay rfl
      obtain rfl := Option.some.inj (hevent.symm.trans hdue)
      rw [hnext, Nat.mod_eq_of_lt hlt]

/-- In a run, the recorded time is that of the pending event in every state, and every comparison
with it multiplies without wrapping around, exactly when every delay that is set is below 2^32
microseconds and every delay that is compared a signed 32-bit number of them. -/
theorem recorded_time_iff {os : List Occurrence} {c₀ : SVSyncCore} (h₀ : c₀.Recorded) :
    (Throughout (next cfg) Recorded c₀ os ∧ Along (next cfg) (ComparesExactly cfg) c₀ os) ↔
      Along (next cfg) (DelaysFit cfg) c₀ os := by
  have hset : Throughout (next cfg) Recorded c₀ os ↔ Along (next cfg) (fun c o =>
      ∀ delay, c.timerDelay cfg o = some delay → 1000 * delay < 2 ^ 32) c₀ os := by
    refine @throughout_iff_along _ _ _ Recorded (fun _ => True) _ (fun _ _ => True)
      (fun _ _ _ _ _ _ => trivial) ?_ ?_ _ _ trivial h₀ (along_of_forall (fun _ _ _ => trivial) _)
    · intro c o c' hstep _ _ hrecorded
      exact step_recorded hrecorded hstep
    · intro c o hnone delay hdelay
      rw [timerDelay_of_none hnone] at hdelay
      cases hdelay
  rw [hset]
  constructor
  · rintro ⟨hfits, hexact⟩
    refine (hfits.and hexact).mono fun c o h => ⟨h.1, fun delay hdelay => ?_⟩
    exact mulInt32_eq_iff.mp (h.2 delay hdelay)
  · intro h
    refine ⟨h.mono fun c o hfit => hfit.set, h.mono fun c o hfit delay hdelay => ?_⟩
    exact mulInt32_eq_iff.mpr (hfit.compared delay hdelay)

/-- A first Interest, and a local update after it. -/
def publishingRun (retxDelay : Nat) : List Occurrence :=
  [(.initialInterest, { sampleInputs with retxDelay }),
    (.updateSeqNo 1 100 [], { sampleInputs with currentTime := 500, retxDelay })]

theorem recorded_time_iff_publishing :
    (Throughout (next sampleConfig) Recorded {} (publishingRun 30000) ∧
      Along (next sampleConfig) (ComparesExactly sampleConfig) {} (publishingRun 30000)) ↔
      Along (next sampleConfig) (DelaysFit sampleConfig) {} (publishingRun 30000) :=
  @recorded_time_iff sampleConfig (publishingRun 30000) {} fun _ hdue => by cases hdue

/-- The recorded time of a periodic delay of 72 minutes lies 71 minutes before its event. -/
theorem long_delay_recorded_early :
    ∃ c, ({} : SVSyncCore).next sampleConfig
        (.initialInterest, { sampleInputs with retxDelay := 4320000 }) = some c ∧
      c.retxEvent = some 4320000000 ∧ c.nextSyncInterest = 25032704 ∧
      ¬Throughout (next sampleConfig) Recorded {} (publishingRun 4320000) := by
  let c := (({} : SVSyncCore).next sampleConfig
    (.initialInterest, { sampleInputs with retxDelay := 4320000 })).get (by decide +kernel)
  have hstep : ({} : SVSyncCore).next sampleConfig
      (.initialInterest, { sampleInputs with retxDelay := 4320000 }) = some c :=
    (Option.some_get _).symm
  have hevent : c.retxEvent = some 4320000000 := by decide +kernel
  have hnext : c.nextSyncInterest = 25032704 := by decide +kernel
  refine ⟨c, hstep, hevent, hnext, fun h => ?_⟩
  have hrecorded := h 1 c (by
    show run (next sampleConfig) {} [(.initialInterest, _)] = some c
    rw [run_cons, hstep]
    rfl)
  have hexact := hrecorded _ hevent
  rw [hnext] at hexact
  omega

end SVSyncCore

/-! ### The suppression curve -/

/-- Conversion to an integer, toward zero. -/
noncomputable def truncate (x : ℝ) : Int := if 0 ≤ x then ⌊x⌋ else ⌈x⌉

/-- The curve over the reals.  The call narrows its first argument to 32 bits.  Over the reals a
period of 0 gives 0; the floats of the code divide 0 by 0 there, and the cast of that is no delay
within the period. -/
noncomputable def suppressionCurve (constFactor value : Int) : Int :=
  let c : ℝ := (constFactor.bmod 4294967296 : Int)
  let v : ℝ := value
  let f : ℝ := 10
  truncate (c * (1 - Real.exp ((v - c) / (c / f))))

theorem truncate_bounds {x : ℝ} {n : Int} (hlow : 0 ≤ x) (hhigh : x ≤ n) :
    0 ≤ truncate x ∧ truncate x ≤ n := by
  rw [truncate, if_pos hlow]
  constructor
  · exact Int.floor_nonneg.mpr hlow
  · exact Int.floor_le_iff.mpr (by linarith)

/-- A draw within the suppression period is curved to a delay within it. -/
theorem suppressionCurve_bounds {period draw : Int} (hperiod : period < 2 ^ 31) (hlow : 0 ≤ draw)
    (hhigh : draw ≤ period) :
    0 ≤ suppressionCurve period draw ∧ suppressionCurve period draw ≤ period := by
  have hnarrow : period.bmod 4294967296 = period := Int.bmod_eq_of_le (by omega) (by omega)
  simp only [suppressionCurve, hnarrow]
  have hpos : (0 : ℝ) ≤ period := by exact_mod_cast hlow.trans hhigh
  have hdraw : (draw : ℝ) ≤ period := by exact_mod_cast hhigh
  have hexp : Real.exp (((draw : ℝ) - period) / (period / 10)) ≤ 1 := by
    rw [Real.exp_le_one_iff]
    exact div_nonpos_of_nonpos_of_nonneg (by linarith) (by linarith)
  have hexp' := Real.exp_pos (((draw : ℝ) - period) / (period / 10))
  apply truncate_bounds
  · exact mul_nonneg hpos (by linarith)
  · exact mul_le_of_le_one_right hpos (by linarith)

/-- The last draw of the range is curved to zero. -/
theorem suppressionCurve_self {period : Int} (hlow : 0 ≤ period) (hperiod : period < 2 ^ 31) :
    suppressionCurve period period = 0 := by
  have hnarrow : period.bmod 4294967296 = period := Int.bmod_eq_of_le (by omega) (by omega)
  simp [suppressionCurve, hnarrow, truncate]

namespace SVSyncCore

variable {cfg : CoreConfig} {env : CoreInputs} {c c' : SVSyncCore}

theorem mergeTimer_eq_some {myVectorNew : Bool} {delay : Nat}
    (h : c.mergeTimer cfg env myVectorNew = some delay) :
    delay = env.retxDelay ∨ delay = c.replyTimer cfg env := by
  unfold mergeTimer at h
  split at h
  · cases h
  · split at h
    · exact .inl (Option.some.inj h).symm
    · split at h
      · exact .inr (Option.some.inj h).symm
      · cases h

/-- A step sets the timer to the periodic delay or to that of a reply. -/
theorem timerDelay_eq_some {o : Occurrence} {delay : Nat} (h : c.timerDelay cfg o = some delay) :
    delay = o.2.retxDelay ∨ delay = c.replyTimer cfg o.2 := by
  obtain ⟨event, env⟩ := o
  have hsent : ∀ {sent}, sendTimer env sent = some delay → delay = env.retxDelay := by
    intro sent h
    cases sent with
    | error e => cases h
    | ok _ => exact (Option.some.inj h).symm
  have hguarded : ∀ {p : Prop} [Decidable p] {sent},
      (if p then sendTimer env sent else none) = some delay → delay = env.retxDelay := by
    intro p _ sent h
    split at h
    · exact hsent h
    · cases h
  cases event with
  | initialInterest => exact .inl (hsent h)
  | retransmission => exact .inl (hguarded h)
  | publicationBatch => exact .inl (hguarded h)
  | updateSeqNo seq b nid => exact .inl (hguarded h)
  | _ =>
    obtain ⟨envelope, -, h⟩ := Option.bind_eq_some_iff.mp h
    exact mergeTimer_eq_some h

/-- Periodic delays of up to 71 minutes and suppression periods of up to 35 fit.  The curve need not
be the one over the reals for a period of 0, and nothing is said of that period. -/
theorem delaysFit_of_periods {o : Occurrence}
    (hcurve : ∀ period draw, 0 < period →
      cfg.suppressionCurve period draw = suppressionCurve period draw)
    (hperiodic : o.2.retxDelay ≤ 4294967) (hlow : 0 ≤ o.2.replyDelay)
    (hhigh : o.2.replyDelay ≤ c.maxSuppressionTime) (hpositive : 0 < c.maxSuppressionTime)
    (hperiod : c.maxSuppressionTime ≤ 2147483) : DelaysFit cfg c o := by
  obtain ⟨hpos, hle⟩ := suppressionCurve_bounds (by omega) hlow hhigh
  have hdelay : c.curvedDelay cfg o.2 =
      suppressionCurve c.maxSuppressionTime o.2.replyDelay := hcurve _ _ hpositive
  constructor
  · intro delay h
    rcases timerDelay_eq_some h with rfl | rfl
    · omega
    · rw [replyTimer, hdelay, timerDelayOf]
      split <;> omega
  · intro delay h
    obtain ⟨envelope, -, h⟩ := Option.bind_eq_some_iff.mp h
    split at h
    · obtain rfl := Option.some.inj h
      rw [hdelay]
      omega
    · cases h

/-! ### Replies -/

/-- A retransmission is scheduled within the suppression period, and no later than it was. -/
def Prompt (env : CoreInputs) (c c' : SVSyncCore) : Prop :=
  ∃ due, c'.retxEvent = some due ∧ due ≤ env.currentTime + 1000 * c.maxSuppressionTime ∧
    ∀ old, c.retxEvent = some old → due ≤ old

/-- A delay within the suppression period that ends no later than the pending event is due. -/
def Precedes (c : SVSyncCore) (env : CoreInputs) (delay : Int) : Prop :=
  delay ≤ c.maxSuppressionTime ∧
    ∀ old, c.retxEvent = some old → env.currentTime + 1000 * delay ≤ old

variable (cfg env) in
/-- When the comparison replaces the pending event, the curved delay precedes it, or the periodic
delay where the curve is at zero; when it does not, an event is pending within the period. -/
def RepliesInTime (c : SVSyncCore) : Prop :=
  let delay := c.curvedDelay cfg env % 4294967296
  if c.Resets cfg env then
    if delay = 0 then c.Precedes env env.retxDelay else c.Precedes env delay
  else ∃ due, c.retxEvent = some due ∧ due ≤ env.currentTime + 1000 * c.maxSuppressionTime

theorem replyTimer_eq (c : SVSyncCore) : (c.replyTimer cfg env : Int) =
    if c.curvedDelay cfg env % 4294967296 = 0 then (env.retxDelay : Int)
    else c.curvedDelay cfg env % 4294967296 := by
  rw [replyTimer, timerDelayOf]
  split <;> split <;> omega

theorem prompt_of_reset {delay : Nat} (h : TimerSet env (some delay) c c') :
    Prompt env c c' ↔ c.Precedes env delay := by
  obtain ⟨-, hevent⟩ := h
  constructor
  · rintro ⟨due, hdue, hperiod, hold⟩
    obtain rfl := Option.some.inj (hevent.symm.trans hdue)
    exact ⟨by omega, fun old hpending => by have := hold old hpending; omega⟩
  · rintro ⟨hperiod, hold⟩
    exact ⟨_, hevent, by omega, fun old hpending => by have := hold old hpending; omega⟩

theorem prompt_of_kept (h : TimerSet env none c c') : Prompt env c c' ↔
    ∃ due, c.retxEvent = some due ∧ due ≤ env.currentTime + 1000 * c.maxSuppressionTime := by
  obtain ⟨-, hevent⟩ := h
  constructor
  · rintro ⟨due, hdue, hperiod, -⟩
    exact ⟨due, hevent ▸ hdue, hperiod⟩
  · rintro ⟨due, hdue, hperiod⟩
    refine ⟨due, hevent.trans hdue, hperiod, fun old hold => ?_⟩
    obtain rfl := Option.some.inj (hdue.symm.trans hold)
    exact le_refl due

/-- A step that processes a vector which lacks a local entry, outside suppression. -/
theorem reply_timer {o : Occurrence} {envelope : DecodedSyncEnvelope}
    (hstep : c.next cfg o = some c') (hnone : c.recordedVv = none)
    (hreceives : c.receives cfg o = some envelope) (hnew : c.myVectorNew o.1 envelope) :
    TimerSet o.2 (if c.Resets cfg o.2 then some (c.replyTimer cfg o.2) else none) c c' := by
  have htimer := step_processed_timer hstep hreceives
  rw [mergeTimer, hnone, hnew] at htimer
  exact htimer

/-- Where nothing wraps around, only a delay of zero can keep a reply from being prompt. -/
theorem repliesInTime_iff {due : Int} (hcurve : cfg.suppressionCurve = suppressionCurve)
    (hlow : 0 ≤ env.replyDelay) (hhigh : env.replyDelay ≤ c.maxSuppressionTime)
    (hperiod : 1000 * c.maxSuppressionTime < 2 ^ 31) (hrecorded : c.Recorded)
    (hdue : c.retxEvent = some due) :
    RepliesInTime cfg env c ↔
      suppressionCurve c.maxSuppressionTime env.replyDelay ≠ 0 ∨ due ≤ env.currentTime ∨
        (env.retxDelay ≤ c.maxSuppressionTime ∧ env.currentTime + 1000 * env.retxDelay ≤ due) := by
  obtain ⟨hpos, hle⟩ := suppressionCurve_bounds (by omega) hlow hhigh
  have hdelay : c.curvedDelay cfg env = suppressionCurve c.maxSuppressionTime env.replyDelay := by
    rw [curvedDelay, hcurve]
  generalize suppressionCurve c.maxSuppressionTime env.replyDelay = delay at *
  have hproduct : mulInt32 delay 1000 = delay * 1000 := mulInt32_eq_iff.mpr (by omega)
  have hresets : c.Resets cfg env ↔ env.currentTime + delay * 1000 < due := by
    rw [Resets, hdelay, hproduct, hrecorded due hdue]
  have hmod : delay % 4294967296 = delay := Int.emod_eq_of_lt hpos (by omega)
  simp only [RepliesInTime, Precedes, hdue, hresets, hdelay, hmod, Option.some.injEq, forall_eq',
    exists_eq_left']
  by_cases hzero : delay = 0
  · simp only [hzero, if_true, ne_eq, not_true, false_or]
    split <;> omega
  · simp only [hzero, if_false, ne_eq, not_false_eq_true, true_or, iff_true]
    split <;> omega

/-- After a vector that lacks a local entry has been processed outside suppression, the next
retransmission is prompt exactly when the comparison and the curved delay make it so.  Where no
product wraps around and the recorded time is that of the pending event, it is prompt unless the
curve takes the delay to zero, by which the timer is set to the periodic delay. -/
theorem prompt_reply_iff {o : Occurrence} {envelope : DecodedSyncEnvelope}
    (hstep : c.next cfg o = some c') (hnone : c.recordedVv = none)
    (hreceives : c.receives cfg o = some envelope) (hnew : c.myVectorNew o.1 envelope) :
    (Prompt o.2 c c' ↔ RepliesInTime cfg o.2 c) ∧
    (cfg.suppressionCurve = suppressionCurve → 0 ≤ o.2.replyDelay →
      o.2.replyDelay ≤ c.maxSuppressionTime → 1000 * c.maxSuppressionTime < 2 ^ 31 →
      c.Recorded → ∀ due, c.retxEvent = some due →
        (Prompt o.2 c c' ↔
          suppressionCurve c.maxSuppressionTime o.2.replyDelay ≠ 0 ∨ due ≤ o.2.currentTime ∨
            (o.2.retxDelay ≤ c.maxSuppressionTime ∧
              o.2.currentTime + 1000 * o.2.retxDelay ≤ due))) := by
  have htimer := reply_timer hstep hnone hreceives hnew
  have hprompt : Prompt o.2 c c' ↔ RepliesInTime cfg o.2 c := by
    unfold RepliesInTime
    split
    · rename_i hreset
      rw [if_pos hreset] at htimer
      rw [prompt_of_reset htimer, replyTimer_eq, apply_ite (c.Precedes o.2)]
    · rename_i hkeep
      rw [if_neg hkeep] at htimer
      exact prompt_of_kept htimer
  refine ⟨hprompt, fun hcurve hlow hhigh hperiod hrecorded due hdue => ?_⟩
  rw [hprompt]
  exact repliesInTime_iff hcurve hlow hhigh hperiod hrecorded hdue

/-- The example core with the curve over the reals. -/
noncomputable def curvedConfig : CoreConfig :=
  { sampleConfig with suppressionCurve := suppressionCurve }

/-- A core that has published waits for its timer. -/
def waiting : SVSyncCore where
  vv := ({} : VersionVector).put (Name.ofStrings ["a"]) 100 1
  initialized := true
  nextSyncInterest := 30000500
  retxEvent := some 30000500

/-- An Interest without the local entry, and the draw of the reply delay. -/
def answered (replyDelay : Int) : Occurrence :=
  (.interest (carrying sampleConfig (sampleVector 5) []),
    { sampleInputs with currentTime := 1000, replyDelay })

theorem prompt_reply_iff_half : ∃ c', waiting.next curvedConfig (answered 100) = some c' ∧
    (Prompt (answered 100).2 waiting c' ↔
      suppressionCurve 200 100 ≠ 0 ∨ (30000500 : Int) ≤ 1000 ∨
        ((30000 : Int) ≤ 200 ∧ (1000 : Int) + 1000 * 30000 ≤ 30000500)) := by
  have hprocessed : ((waiting.receives curvedConfig (answered 100)).any
      fun envelope => waiting.myVectorNew (answered 100).1 envelope) = true := by decide +kernel
  obtain ⟨envelope, henvelope, hnew⟩ := Option.any_eq_true _ _ |>.mp hprocessed
  obtain ⟨c', hstep⟩ : ∃ c', waiting.next curvedConfig (answered 100) = some c' := ⟨_, rfl⟩
  exact ⟨c', hstep, (prompt_reply_iff hstep rfl henvelope hnew).2 rfl (by decide) (by decide)
    (by decide) (fun due hdue => Option.some.inj hdue) 30000500 rfl⟩

/-- The last draw of the reply delay postpones the reply to the end of a periodic delay. -/
theorem last_draw_postpones_reply : ∃ c' envelope,
    waiting.recordedVv = none ∧ waiting.receives curvedConfig (answered 200) = some envelope ∧
    waiting.myVectorNew (answered 200).1 envelope ∧
    waiting.next curvedConfig (answered 200) = some c' ∧
    c'.retxEvent = some 30001000 ∧ ¬Prompt (answered 200).2 waiting c' := by
  have hprocessed : ((waiting.receives curvedConfig (answered 200)).any
      fun envelope => waiting.myVectorNew (answered 200).1 envelope) = true := by decide +kernel
  obtain ⟨envelope, henvelope, hnew⟩ := Option.any_eq_true _ _ |>.mp hprocessed
  have hcurve : suppressionCurve 200 200 = 0 := suppressionCurve_self (by decide) (by decide)
  have hdelay : waiting.curvedDelay curvedConfig (answered 200).2 = 0 := hcurve
  have hreset : waiting.Resets curvedConfig (answered 200).2 := by
    rw [Resets, hdelay]
    decide
  obtain ⟨c', hstep⟩ : ∃ c', waiting.next curvedConfig (answered 200) = some c' := ⟨_, rfl⟩
  have htimer := reply_timer hstep rfl henvelope hnew
  rw [if_pos hreset, replyTimer, hdelay] at htimer
  have hevent := htimer.2.trans (show _ = some (30001000 : Int) by decide)
  refine ⟨c', envelope, rfl, henvelope, hnew, hstep, hevent, fun h => ?_⟩
  obtain ⟨due, hdue, -, hold⟩ := h
  obtain rfl := Option.some.inj (hevent.symm.trans hdue)
  exact absurd (hold 30000500 rfl) (by decide)

end SVSyncCore

end NdnSvs
