import NdnSvs.CoreRuns
import NdnSvs.Lib.Ranges

/-! What a core does with the Interests it takes in, in full: the vector it merges, the calls it
makes to the application, what it records and which Interests stay in the queue of the workers. -/

namespace NdnSvs

open Lib Lib.Tlv

/-! ### Missing data -/

/-- The ranges that a merge reports for one entry. -/
def MissingDataInfo.rangesOf (nid : NodeID) (b : BootstrapTime) (missing : List MissingDataInfo) :
    List (SeqNo × SeqNo) :=
  (missing.filter fun e => e.nodeId = nid ∧ e.bootstrapTime = b).map fun e => (e.low, e.high)

theorem MissingDataInfo.rangesOf_append (nid : NodeID) (b : BootstrapTime)
    (missing missing' : List MissingDataInfo) : rangesOf nid b (missing ++ missing') =
      rangesOf nid b missing ++ rangesOf nid b missing' := by
  simp [rangesOf]

theorem MissingDataInfo.rangesOf_incomingFace (nid : NodeID) (b : BootstrapTime)
    (missing : List MissingDataInfo) (incomingFace : Nat) :
    rangesOf nid b (missing.map fun e => { e with incomingFace }) = rangesOf nid b missing := by
  simp [rangesOf, List.filter_map, Function.comp_def]

/-- The ranges passed to the update callback for one entry, in the order of the calls. -/
def Upcall.rangesOf (nid : NodeID) (b : BootstrapTime) (upcalls : List Upcall) :
    List (SeqNo × SeqNo) :=
  upcalls.flatMap fun
    | .recvExtraBlocks _ _ => []
    | .onUpdate missing => MissingDataInfo.rangesOf nid b missing

/-- The extension blocks handed to the receive callback. -/
def Upcall.extensions (upcalls : List Upcall) : List Block :=
  upcalls.flatMap fun
    | .recvExtraBlocks extensions _ => extensions
    | .onUpdate _ => []

theorem Upcall.rangesOf_append (nid : NodeID) (b : BootstrapTime) (upcalls upcalls' : List Upcall) :
    rangesOf nid b (upcalls ++ upcalls') = rangesOf nid b upcalls ++ rangesOf nid b upcalls' := by
  simp [rangesOf]

theorem Upcall.extensions_append (upcalls upcalls' : List Upcall) :
    extensions (upcalls ++ upcalls') = extensions upcalls ++ extensions upcalls' := by
  simp [extensions]

theorem SVSyncCore.rangesOf_upcallsFor (nid : NodeID) (b : BootstrapTime) (extensions : List Block)
    (other : VersionVector) (missing : List MissingDataInfo) (incomingFace : Nat) :
    Upcall.rangesOf nid b (upcallsFor extensions other missing incomingFace) =
      MissingDataInfo.rangesOf nid b missing := by
  have hblocks : Upcall.rangesOf nid b
      (if extensions = [] then [] else [.recvExtraBlocks extensions other]) = [] := by
    split <;> rfl
  rw [upcallsFor, Upcall.rangesOf_append, hblocks, List.nil_append]
  split
  · rename_i hnone
    rw [hnone]
    rfl
  · rw [← MissingDataInfo.rangesOf_incomingFace nid b missing incomingFace]
    exact List.append_nil _

theorem SVSyncCore.extensions_upcallsFor (extensions : List Block)
    (other : VersionVector) (missing : List MissingDataInfo) (incomingFace : Nat) :
    Upcall.extensions (upcallsFor extensions other missing incomingFace) = extensions := by
  unfold upcallsFor
  split <;> split <;> simp_all [Upcall.extensions]

theorem foldl_mergeEntry_contiguous (es : List VersionVector.Entry) (nid : NodeID)
    (b : BootstrapTime) {low : SeqNo} {r : MergeComputationResult}
    (h : Contiguous low (MissingDataInfo.rangesOf nid b r.missingData) (r.mergedVector.get nid b)) :
    Contiguous low (MissingDataInfo.rangesOf nid b (es.foldl mergeEntry r).missingData)
      ((es.foldl mergeEntry r).mergedVector.get nid b) := by
  induction es generalizing r with
  | nil => exact h
  | cons e es ih =>
    rw [List.foldl_cons]
    refine ih ?_
    simp only [mergeEntry]
    split
    · rename_i hlt
      simp only [MissingDataInfo.rangesOf_append, VersionVector.get_put]
      by_cases hkey : e.nid = nid ∧ e.bootstrapTime = b
      · obtain ⟨rfl, rfl⟩ := hkey
        simp only [and_self, if_true]
        refine h.append ?_
        simpa [MissingDataInfo.rangesOf] using contiguous_single hlt
      · simpa [MissingDataInfo.rangesOf, hkey] using h
    · exact h

/-- A merge reports the numbers between the old and the new entry. -/
theorem computeMerge_contiguous (l r : VersionVector) (nid : NodeID) (b : BootstrapTime) :
    Contiguous (l.get nid b)
      (MissingDataInfo.rangesOf nid b (computeMergeStateVector l r).missingData)
      ((computeMergeStateVector l r).mergedVector.get nid b) := by
  rw [computeMerge_eq]
  exact foldl_mergeEntry_contiguous _ nid b rfl

/-- A vector that is pointwise at most another one. -/
def VersionVector.LE (v w : VersionVector) : Prop := ∀ nid b, v.get nid b ≤ w.get nid b

theorem foldl_mergeEntry_of_le {es : List VersionVector.Entry} {r : MergeComputationResult}
    (h : ∀ e ∈ es, e.seqNo ≤ r.mergedVector.get e.nid e.bootstrapTime) :
    es.foldl mergeEntry r = r := by
  induction es with
  | nil => rfl
  | cons e es ih =>
    have hsame : mergeEntry r e = r := if_neg (Nat.not_lt.mpr (h e List.mem_cons_self))
    rw [List.foldl_cons, hsame]
    exact ih fun e he => h e (List.mem_cons_of_mem _ he)

/-- Merging a vector that the local one covers changes and reports nothing. -/
theorem computeMerge_of_le {l r : VersionVector} (h : r.LE l) : computeMergeStateVector l r =
    { mergedVector := l, myVectorNew := exceeds l r } := by
  have hsame : r.allEntries.foldl mergeEntry { mergedVector := l } = { mergedVector := l } :=
    foldl_mergeEntry_of_le fun e he => VersionVector.get_of_mem_allEntries he ▸ h _ _
  rw [computeMerge_eq, hsame]

theorem computeMerge_myVectorNew (l r : VersionVector) : (computeMergeStateVector l r).myVectorNew =
    exceeds (computeMergeStateVector l r).mergedVector r := by
  rw [computeMerge_eq]

namespace SVSyncCore

/-! ### Sending -/

/-- Nothing but the queue of production jobs and what the Face has sent differs. -/
def SendsOnly (c c' : SVSyncCore) : Prop :=
  c' = { c with sent := c'.sent, production := c'.production }

variable {cfg : CoreConfig} {env : CoreInputs} {c c' : SVSyncCore} {other : VersionVector}

theorem expressInterest_sendsOnly (c : SVSyncCore) (interest : Interest) :
    SendsOnly c (c.expressInterest env interest).1 := by
  unfold expressInterest
  split <;> rfl

theorem sendSyncInterestSerial_sendsOnly (c : SVSyncCore) :
    SendsOnly c (c.sendSyncInterestSerial cfg env).1 := by
  unfold sendSyncInterestSerial
  split
  · rfl
  · split
    · rfl
    · exact expressInterest_sendsOnly c _

variable (cfg env) in
theorem sendSyncInterest_sendsOnly (c : SVSyncCore) :
    SendsOnly c (c.sendSyncInterest cfg env).1 := by
  unfold sendSyncInterest
  split
  · rfl
  · split
    · exact sendSyncInterestSerial_sendsOnly c
    · split
      · rfl
      · split
        · exact sendSyncInterestSerial_sendsOnly c
        · rfl

variable (cfg env) in
theorem processSyncProductionResult_sendsOnly (c : SVSyncCore) (job : SyncProductionJob) :
    SendsOnly c (c.processSyncProductionResult cfg env job).1 := by
  unfold processSyncProductionResult
  split
  · rfl
  · split
    · rfl
    · split
      · rfl
      · exact expressInterest_sendsOnly c _

/-! ### What a send puts out -/

/-- One Interest with the local vector is sent, or one job with it is handed to the workers. -/
def PutsOut (cfg : CoreConfig) (c c' : SVSyncCore) : Prop :=
  (∃ interest, Carries cfg c.vv interest ∧ c'.sent = c.sent ++ [interest] ∧
    c'.production = c.production) ∨
  (∃ job : SyncProductionJob, job.localVector = c.vv ∧ c'.sent = c.sent ∧
    c'.production = c.production ++ [job])

/-- Both end alike and leave the same sent and handed to the workers. -/
def SameOutput (p q : Outcome SVSyncCore) : Prop :=
  p.2 = q.2 ∧ p.1.sent = q.1.sent ∧ p.1.production = q.1.production

theorem SameOutput.putsOut {p q : Outcome SVSyncCore} (h : SameOutput p q)
    (hputs : PutsOut cfg c q.1) : PutsOut cfg c p.1 := by
  rw [PutsOut, h.2.1, h.2.2]
  exact hputs

theorem sendSyncInterestSerial_sends (hinitialized : c.initialized)
    (hok : (c.sendSyncInterestSerial cfg env).2.isOk) :
    ∃ interest, Carries cfg c.vv interest ∧
      (c.sendSyncInterestSerial cfg env).1.sent = c.sent ++ [interest] ∧
      (c.sendSyncInterestSerial cfg env).1.production = c.production := by
  rw [sendSyncInterestSerial, if_neg (not_not.mpr hinitialized)] at hok ⊢
  split at hok
  · cases hok
  · rename_i interest hinterest
    obtain ⟨extensions, -, hencode⟩ := bind_eq_ok.mp hinterest
    simp only [expressInterest] at hok ⊢
    split at hok
    · rename_i haccepts
      rw [if_pos haccepts]
      exact ⟨interest, ⟨haccepts.2, env, extensions, hencode⟩, rfl, rfl⟩
    · cases hok

/-- A send of a started core that returns puts one Interest or one job out. -/
theorem sendSyncInterest_puts (hinitialized : c.initialized)
    (hok : (c.sendSyncInterest cfg env).2.isOk) :
    PutsOut cfg c (c.sendSyncInterest cfg env).1 := by
  rw [sendSyncInterest, if_neg (not_not.mpr hinitialized)] at hok ⊢
  split at hok
  · rename_i hserial
    rw [if_pos hserial]
    exact .inl (sendSyncInterestSerial_sends hinitialized hok)
  · rename_i hparallel
    rw [if_neg hparallel]
    split at hok
    · cases hok
    · split at hok
      · rename_i hfull
        rw [if_pos hfull]
        exact .inl (sendSyncInterestSerial_sends hinitialized hok)
      · rename_i hroom
        rw [if_neg hroom]
        exact .inr ⟨_, rfl, rfl, rfl⟩

variable (cfg env) in
/-- The timer puts out what its send does. -/
theorem retxSyncInterest_output (c : SVSyncCore) (delay : Nat) :
    SameOutput (c.retxSyncInterest cfg env true delay) (c.sendUnlessSuppressed cfg env) := by
  simp only [retxSyncInterest, if_pos]
  cases c.sendUnlessSuppressed cfg env with
  | mk c₁ sent =>
    cases sent with
    | error e => exact ⟨rfl, rfl, rfl⟩
    | ok _ => exact ⟨rfl, rfl, rfl⟩

/-! ### Suppression -/

/-- The recorded vector is pointwise at most the local one. -/
def RecordedLE (c : SVSyncCore) : Prop := ∀ r, c.recordedVv = some r → r.LE c.vv

theorem mergeStateVector_of_le (h : other.LE c.vv) :
    c.mergeStateVector other =
      (c, { mergedVector := c.vv, myVectorNew := exceeds c.vv other }) := by
  rw [mergeStateVector, computeMerge_of_le h]
  rfl

/-- Out of suppression the timer sends; in suppression it sends when the local vector exceeds the
recorded one. -/
theorem sendUnlessSuppressed_eq (h : c.RecordedLE) : c.sendUnlessSuppressed cfg env =
    match c.recordedVv with
    | none => c.sendSyncInterest cfg env
    | some r => if exceeds c.vv r then c.sendSyncInterest cfg env else (c, .ok ()) := by
  unfold sendUnlessSuppressed
  cases hr : c.recordedVv with
  | none => rfl
  | some r =>
    dsimp only
    rw [mergeStateVector_of_le (h r hr)]

theorem sendUnlessSuppressed_sendsOnly (h : c.RecordedLE) :
    SendsOnly c (c.sendUnlessSuppressed cfg env).1 := by
  rw [sendUnlessSuppressed_eq h]
  split
  · exact sendSyncInterest_sendsOnly _ _ c
  · split
    · exact sendSyncInterest_sendsOnly _ _ c
    · rfl

/-- What the handlers of timers and of local publications leave as it is. -/
structure Rests (c c' : SVSyncCore) : Prop where
  vv : c'.vv = c.vv
  stateGeneration : c'.stateGeneration = c.stateGeneration
  recorded : c'.recordedVv = c.recordedVv ∨ c'.recordedVv = none
  upcalls : c'.upcalls = c.upcalls
  validating : c'.validating = c.validating
  processing : c'.processing = c.processing

theorem Rests.refl (c : SVSyncCore) : Rests c c := ⟨rfl, rfl, .inl rfl, rfl, rfl, rfl⟩

theorem Rests.trans {c'' : SVSyncCore} (h : Rests c c') (h' : Rests c' c'') : Rests c c'' := by
  refine ⟨h'.vv.trans h.vv, h'.stateGeneration.trans h.stateGeneration, ?_,
    h'.upcalls.trans h.upcalls, h'.validating.trans h.validating, h'.processing.trans h.processing⟩
  rcases h'.recorded with h' | h'
  · rw [h']
    exact h.recorded
  · exact .inr h'

theorem SendsOnly.rests (h : SendsOnly c c') : Rests c c' := by
  rw [h]
  exact ⟨rfl, rfl, .inl rfl, rfl, rfl, rfl⟩

theorem scheduleRetx_rests (c : SVSyncCore) (delay : Nat) : Rests c (c.scheduleRetx env delay) :=
  ⟨rfl, rfl, .inl rfl, rfl, rfl, rfl⟩

theorem dropRecorded_rests (c : SVSyncCore) : Rests c { c with recordedVv := none } :=
  ⟨rfl, rfl, .inr rfl, rfl, rfl, rfl⟩

theorem retxSyncInterest_rests (h : c.RecordedLE) (send : Bool) (delay : Nat) :
    Rests c (c.retxSyncInterest cfg env send delay).1 := by
  cases send with
  | false => exact scheduleRetx_rests c _
  | true =>
    have hsend := (@sendUnlessSuppressed_sendsOnly cfg env _ h).rests
    rcases retxSyncInterest_cases cfg env c delay with ⟨-, hretx⟩ | ⟨-, hretx⟩
    · rw [hretx]
      exact hsend
    · rw [hretx]
      exact (hsend.trans (dropRecorded_rests _)).trans (scheduleRetx_rests _ _)

theorem sendLocalPublicationSyncInterest_rests (c : SVSyncCore) :
    Rests c (c.sendLocalPublicationSyncInterest cfg env) := by
  have hsend := (dropRecorded_rests c).trans
    (sendSyncInterest_sendsOnly cfg env { c with recordedVv := none }).rests
  rcases sendLocalPublicationSyncInterest_cases cfg env c with ⟨-, hlocal⟩ | ⟨-, hlocal⟩
  · rw [hlocal]
    exact hsend
  · rw [hlocal]
    exact hsend.trans (scheduleRetx_rests _ _)

/-! ### Receiving -/

/-- What is recorded after a vector has been merged: it is recorded in suppression state, which the
core enters when its own vector has newer entries. -/
def recordedAfter (recorded : Option VersionVector) (merged other : VersionVector) :
    Option VersionVector :=
  match recorded with
  | some r => some (recordEntries r other)
  | none => if exceeds merged other then some other else none

/-- Suppression and the timer are all that follows a merge. -/
theorem afterMerge_eq (c : SVSyncCore) (other : VersionVector) :
    (c.afterMerge cfg env other (exceeds c.vv other)).1 =
      { c with
        recordedVv := recordedAfter c.recordedVv c.vv other
        retxEvent := (c.afterMerge cfg env other (exceeds c.vv other)).1.retxEvent
        nextSyncInterest := (c.afterMerge cfg env other
          (exceeds c.vv other)).1.nextSyncInterest } := by
  cases hrec : c.recordedVv with
  | some r => simp [afterMerge, recordVector, hrec, recordedAfter]
  | none =>
    cases hnew : exceeds c.vv other with
    | false =>
      simp [afterMerge, recordVector, hrec, recordedAfter, hnew, retxSyncInterest, scheduleRetx]
    | true =>
      simp only [afterMerge, recordVector, hrec, recordedAfter, hnew, enterSuppressionState]
      simp only [not_true_eq_false, if_false, if_true]
      split <;> simp [retxSyncInterest, scheduleRetx]

/-- What the core reports and records of an envelope. -/
structure Reports (envelope : DecodedSyncEnvelope) (c c' : SVSyncCore) : Prop where
  upcalls : ∃ missing incomingFace, c'.upcalls = c.upcalls ++
      upcallsFor envelope.extensions envelope.stateVector missing incomingFace ∧
    ∀ nid b, Contiguous (c.vv.get nid b) (MissingDataInfo.rangesOf nid b missing) (c'.vv.get nid b)
  recorded : c'.recordedVv = recordedAfter c.recordedVv c'.vv envelope.stateVector
  sent : c'.sent = c.sent
  production : c'.production = c.production
  publicationSyncPending : c'.publicationSyncPending = c.publicationSyncPending
  initialized : c'.initialized = c.initialized

/-- The envelope of an Interest at a receiver, with its state vector. -/
def envelopeOf (cfg : CoreConfig) (env : CoreInputs) (interest : Interest) :
    Option DecodedSyncEnvelope :=
  (SyncProtocolCodec.decode cfg.cxx env.clock interest cfg.syncPrefix cfg.version true).toOption

theorem envelopeOf_eq_some {interest : Interest} {envelope : DecodedSyncEnvelope} :
    envelopeOf cfg env interest = some envelope ↔
      SyncProtocolCodec.decode cfg.cxx env.clock interest cfg.syncPrefix cfg.version true =
        .ok envelope := by
  rw [envelopeOf]
  cases SyncProtocolCodec.decode cfg.cxx env.clock interest cfg.syncPrefix cfg.version true <;>
    simp [Except.toOption]

theorem envelopeOf_eq_none {interest : Interest} : envelopeOf cfg env interest = none ↔
    ∃ e, SyncProtocolCodec.decode cfg.cxx env.clock interest cfg.syncPrefix cfg.version true =
      .error e := by
  rw [envelopeOf]
  cases SyncProtocolCodec.decode cfg.cxx env.clock interest cfg.syncPrefix cfg.version true <;>
    simp [Except.toOption]

theorem decodesTo_of_envelopeOf {interest : Interest} {envelope : DecodedSyncEnvelope}
    (h : envelopeOf cfg env interest = some envelope) :
    decodesTo cfg env interest envelope.stateVector :=
  ⟨envelope, envelopeOf_eq_some.mp h, rfl⟩

/-- A merge into a vector with the same entries, committed and reported. -/
theorem reports_of_merge {l : VersionVector} (hsame : l.Same c.vv) (envelope : DecodedSyncEnvelope)
    (incomingFace : Nat) (c₁ : SVSyncCore)
    (hc₁ : c₁ = { c with
      vv := (computeMergeStateVector l envelope.stateVector).mergedVector
      stateGeneration := c₁.stateGeneration
      upcalls := c.upcalls ++ upcallsFor envelope.extensions envelope.stateVector
        (computeMergeStateVector l envelope.stateVector).missingData incomingFace }) :
    Reports envelope c (c₁.afterMerge cfg env envelope.stateVector
      (computeMergeStateVector l envelope.stateVector).myVectorNew).1 := by
  have hvv : c₁.vv = (computeMergeStateVector l envelope.stateVector).mergedVector := by rw [hc₁]
  have hnew : (computeMergeStateVector l envelope.stateVector).myVectorNew =
      exceeds c₁.vv envelope.stateVector := by
    rw [computeMerge_myVectorNew, hvv]
  rw [hnew, afterMerge_eq]
  refine ⟨⟨(computeMergeStateVector l envelope.stateVector).missingData, incomingFace, ?_,
    fun nid b => ?_⟩, ?_, ?_, ?_, ?_, ?_⟩
  · simp only
    rw [hc₁]
  · rw [← hsame.get, hvv]
    exact computeMerge_contiguous l envelope.stateVector nid b
  · simp only
    rw [show c₁.recordedVv = c.recordedVv by rw [hc₁]]
  all_goals
    simp only
    rw [hc₁]

theorem onSyncInterestValidatedSerial_reports {interest : Interest}
    {envelope : DecodedSyncEnvelope} (h : envelopeOf cfg env interest = some envelope) :
    Reports envelope c (c.onSyncInterestValidatedSerial cfg env interest).1 := by
  rw [onSyncInterestValidatedSerial, envelopeOf_eq_some.mp h]
  exact reports_of_merge (.refl c.vv) envelope _ _ rfl

theorem onSyncInterestValidatedSerial_absorbs {interest : Interest}
    {envelope : DecodedSyncEnvelope} (h : envelopeOf cfg env interest = some envelope) :
    Absorbs cfg envelope.stateVector c (c.onSyncInterestValidatedSerial cfg env interest).1 := by
  rcases onSyncInterestValidatedSerial_cases cfg env c interest with
    ⟨-, hnone⟩ | ⟨other, ⟨envelope', hdecode, rfl⟩, habsorbs⟩
  · exact absurd (decodesTo_of_envelopeOf h) (hnone _)
  · rw [envelopeOf_eq_some.mp h] at hdecode
    obtain rfl := Except.ok.inj hdecode
    exact habsorbs

theorem onSyncInterestValidatedSerial_none {interest : Interest}
    (h : envelopeOf cfg env interest = none) :
    (c.onSyncInterestValidatedSerial cfg env interest).1 = c := by
  obtain ⟨e, he⟩ := envelopeOf_eq_none.mp h
  rw [onSyncInterestValidatedSerial, he]

theorem processSyncInterestResult_reports {job : SyncProcessingJob}
    {envelope : DecodedSyncEnvelope} (h : envelopeOf cfg env job.interest = some envelope)
    (hjob : job.stateGeneration = c.stateGeneration → job.localVector.Same c.vv) :
    Reports envelope c (c.processSyncInterestResult cfg env job).1 := by
  rw [processSyncInterestResult, envelopeOf_eq_some.mp h]
  simp only
  split
  · exact onSyncInterestValidatedSerial_reports h
  · rename_i hgen
    exact reports_of_merge (hjob (not_not.mp hgen).symm) envelope _ _ rfl

theorem processSyncInterestResult_absorbs {job : SyncProcessingJob}
    {envelope : DecodedSyncEnvelope} (h : envelopeOf cfg env job.interest = some envelope)
    (hjob : job.stateGeneration = c.stateGeneration → job.localVector.Same c.vv) :
    Absorbs cfg envelope.stateVector c (c.processSyncInterestResult cfg env job).1 := by
  rcases processSyncInterestResult_cases cfg env c job hjob with
    ⟨-, hnone⟩ | ⟨other, ⟨envelope', hdecode, rfl⟩, habsorbs⟩
  · exact absurd (decodesTo_of_envelopeOf h) (hnone _)
  · rw [envelopeOf_eq_some.mp h] at hdecode
    obtain rfl := Except.ok.inj hdecode
    exact habsorbs

theorem processSyncInterestResult_none {job : SyncProcessingJob}
    (h : envelopeOf cfg env job.interest = none) :
    (c.processSyncInterestResult cfg env job).1 = c := by
  obtain ⟨e, he⟩ := envelopeOf_eq_none.mp h
  rw [processSyncInterestResult, he]

end SVSyncCore

end NdnSvs
