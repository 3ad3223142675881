import NdnSvs.SyncProtocol

/-! The sync core: merging of state vectors, suppression, the serial and the parallel receive paths,
and the sending of Sync Interests.  Operations of other libraries that a handler uses (clocks,
random draws, the application's callbacks, the signer, the worker queue, the Face) are inputs of the
event that runs the handler. -/

namespace NdnSvs

open Lib Lib.Tlv

structure MissingDataInfo where
  nodeId : NodeID
  low : SeqNo
  high : SeqNo
  incomingFace : Nat := 0
  bootstrapTime : BootstrapTime
deriving DecidableEq

structure MergeComputationResult where
  mergedVector : VersionVector
  myVectorNew : Bool := false
  otherVectorNew : Bool := false
  missingData : List MissingDataInfo := []
deriving DecidableEq

/-! ### Merging -/

/-- One step of the loop over the entries of the remote vector. -/
def mergeEntry (result : MergeComputationResult) (other : VersionVector.Entry) :
    MergeComputationResult :=
  let seqCurrent := result.mergedVector.get other.nid other.bootstrapTime
  if seqCurrent < other.seqNo then
    { result with
      otherVectorNew := true
      missingData := result.missingData ++
        [{ nodeId := other.nid, low := seqCurrent + 1, high := other.seqNo
           bootstrapTime := other.bootstrapTime }]
      mergedVector := result.mergedVector.put other.nid other.bootstrapTime other.seqNo }
  else result

/-- Whether some entry of the vector exceeds the other vector's. -/
def exceeds (v other : VersionVector) : Bool :=
  v.entries.toList.any fun node => node.2.toList.any fun e => other.get node.1 e.1 < e.2

def computeMergeStateVector (localVector remoteVector : VersionVector) : MergeComputationResult :=
  let result := remoteVector.entries.toList.foldl
    (fun result node => node.2.toList.foldl
      (fun result e => mergeEntry result ⟨node.1, e.1, e.2⟩) result)
    { mergedVector := localVector }
  { result with myVectorNew := exceeds result.mergedVector remoteVector }

/-- The entries of the recorded vector, raised to those of a received one. -/
def recordEntries (recorded other : VersionVector) : VersionVector :=
  other.entries.toList.foldl
    (fun recorded node => node.2.toList.foldl
      (fun recorded e => recorded.raise ⟨node.1, e.1, e.2⟩) recorded)
    recorded

/-! ### State -/

inductive SignerType
  | null
  | hmac
  | other
deriving DecidableEq

/-- What stays fixed over the life of a core. -/
structure CoreConfig where
  cxx : NdnCxx
  syncPrefix : Name
  id : NodeID
  bootstrapTime : BootstrapTime
  version : SvsProtocolVersion := .v3
  syncInterestLifetime : Nat := 1000
  validator : Bool := false
  interestSigner : SignerType := .null
  verifySignature : Interest → Bool := fun _ => true
  /-- Whether an extra-block callback is registered. -/
  getExtraBlocks : Bool := true
  suppressionCurve : Int → Int → Int

structure SyncProcessingJob where
  interest : Interest
  localVector : VersionVector
  stateGeneration : Nat
  incomingFace : Nat
deriving DecidableEq

structure SyncProductionJob where
  localVector : VersionVector
  extraBlocks : List Block
  stateGeneration : Nat
deriving DecidableEq

/-- A call that the core makes to the application. -/
inductive Upcall
  | recvExtraBlocks (extensions : List Block) (vv : VersionVector)
  | onUpdate (missing : List MissingDataInfo)
deriving DecidableEq

structure SVSyncCore where
  vv : VersionVector := {}
  stateGeneration : Nat := 0
  recordedVv : Option VersionVector := none
  maxSuppressionTime : Int := 200
  nextSyncInterest : Int := 0
  /-- When the pending retransmission event is due, in microseconds. -/
  retxEvent : Option Int := none
  initialized : Bool := false
  syncInterestBatching : Bool := false
  publicationSyncPending : Bool := false
  parallelSyncProcessing : Bool := false
  parallelSyncProduction : Bool := false
  parallelSyncProductionSigning : Bool := false
  parallelSyncProductionExtraBlock : Bool := false
  /-- Interests whose Data the validator has not judged yet. -/
  validating : List Interest := []
  processing : List SyncProcessingJob := []
  production : List SyncProductionJob := []
  sent : List Interest := []
  upcalls : List Upcall := []
deriving DecidableEq

/-- What a handler gets from outside the core. -/
structure CoreInputs where
  /-- The system clock, in seconds. -/
  clock : Nat := 0
  /-- The steady clock, in microseconds. -/
  currentTime : Int := 0
  retxDelay : Nat := 30000
  replyDelay : Int := 0
  /-- What the extra-block callback returns, none when it throws. -/
  extraBlocks : Option (List Block) := some []
  signData : DataSigner
  /-- The signature elements of a signed Interest, none when the signer throws. -/
  signInterest : Option (List Block) := some []
  queueFull : Bool := false
  faceAccepts : Bool := true

/-- A state and the exception that left the handler, if one did. -/
abbrev Outcome (σ : Type) := σ × Result Unit

namespace SVSyncCore

variable (cfg : CoreConfig) (env : CoreInputs)

def targetNode (nid : NodeID) : NodeID := if nid = [] then cfg.id else nid

def getSeqNo (c : SVSyncCore) (nid : NodeID) : SeqNo :=
  let nid := targetNode cfg nid
  if nid = cfg.id then c.vv.get nid cfg.bootstrapTime else c.vv.getLatest nid

/-- The merged state, and whether the local vector has newer entries. -/
def mergeStateVector (c : SVSyncCore) (other : VersionVector) :
    SVSyncCore × MergeComputationResult :=
  let result := computeMergeStateVector c.vv other
  ({ c with
      vv := result.mergedVector
      stateGeneration := if result.otherVectorNew then c.stateGeneration + 1
        else c.stateGeneration }, result)

/-- Whether the core is in suppression state, in which case it records the vector. -/
def recordVector (c : SVSyncCore) (other : VersionVector) : SVSyncCore × Bool :=
  match c.recordedVv with
  | none => (c, false)
  | some recorded => ({ c with recordedVv := some (recordEntries recorded other) }, true)

def enterSuppressionState (c : SVSyncCore) (other : VersionVector) : SVSyncCore :=
  match c.recordedVv with
  | none => { c with recordedVv := some other }
  | some _ => c

/-! ### Sending -/

def expressInterest (c : SVSyncCore) (interest : Interest) : Outcome SVSyncCore :=
  if env.faceAccepts ∧ interest.size ≤ maxNdnPacketSize then
    ({ c with sent := c.sent ++ [interest] }, .ok ())
  else (c, .error (.runtime "Face cannot send the Interest"))

def signSyncInterest (interest : Interest) : Result Interest :=
  match cfg.interestSigner with
  | .null => .ok interest
  | .hmac | .other =>
    match env.signInterest with
    | none => .error (.runtime "signer failed")
    | some elements => .ok (interest.sign cfg.cxx elements)

/-- The Interest with a vector and extension blocks, signed where the version asks for it. -/
def encodeSyncInterest (vv : VersionVector) (extensions : List Block) : Result Interest := do
  let interest ← SyncProtocolCodec.encode cfg.cxx cfg.syncPrefix vv extensions cfg.version
    cfg.syncInterestLifetime (some env.signData)
  match cfg.version with
  | .v2 => signSyncInterest cfg env interest
  | .v3 => .ok interest

def callExtraBlocks : Result (List Block) :=
  if ¬cfg.getExtraBlocks then .ok []
  else
    match env.extraBlocks with
    | none => .error (.runtime "extra block callback failed")
    | some extensions => .ok extensions

def sendSyncInterestSerial (c : SVSyncCore) : Outcome SVSyncCore :=
  if ¬c.initialized then (c, .ok ())
  else
    match (do encodeSyncInterest cfg env c.vv (← callExtraBlocks cfg env)) with
    | .error e => (c, .error e)
    | .ok interest => c.expressInterest env interest

/-- The blocks of a production job, computed at once unless a worker builds them. -/
def productionBlocks (c : SVSyncCore) : Result (List Block) :=
  if c.parallelSyncProductionExtraBlock then .ok [] else callExtraBlocks cfg env

def sendSyncInterest (c : SVSyncCore) : Outcome SVSyncCore :=
  if ¬c.initialized then (c, .ok ())
  else if ¬c.parallelSyncProduction then c.sendSyncInterestSerial cfg env
  else
    match c.productionBlocks cfg env with
    | .error e => (c, .error e)
    | .ok extraBlocks =>
      if env.queueFull then c.sendSyncInterestSerial cfg env
      else
        ({ c with production := c.production ++
            [{ localVector := c.vv, extraBlocks, stateGeneration := c.stateGeneration }] }, .ok ())

/-- The blocks that a worker puts into an Interest. -/
def workerBlocks (c : SVSyncCore) (job : SyncProductionJob) : Result (List Block) :=
  if c.parallelSyncProductionExtraBlock then callExtraBlocks cfg env else .ok job.extraBlocks

/-- The Interest that a worker makes of a job: none when the encoding is left to the Face thread. -/
def produce (c : SVSyncCore) (job : SyncProductionJob) : Result (Option Interest) := do
  let extensions ← c.workerBlocks cfg env job
  if cfg.version = .v2 ∨ c.parallelSyncProductionSigning then
    let interest ← SyncProtocolCodec.encode cfg.cxx cfg.syncPrefix job.localVector extensions
      cfg.version cfg.syncInterestLifetime (some env.signData)
    if cfg.version = .v2 ∧ c.parallelSyncProductionSigning then
      let interest ← signSyncInterest cfg env interest
      .ok (some interest)
    else .ok (some interest)
  else .ok none

/-- Completes the result of a worker on the Face thread. -/
def completeProduction (c : SVSyncCore) (job : SyncProductionJob) :
    Option Interest → Result Interest
  | none => SyncProtocolCodec.encode cfg.cxx cfg.syncPrefix job.localVector job.extraBlocks
      cfg.version cfg.syncInterestLifetime (some env.signData)
  | some interest =>
    if cfg.version = .v2 ∧ ¬c.parallelSyncProductionSigning then signSyncInterest cfg env interest
    else .ok interest

def processSyncProductionResult (c : SVSyncCore) (job : SyncProductionJob) : Outcome SVSyncCore :=
  match c.produce cfg env job with
  | .error _ => (c, .ok ())
  | .ok result =>
    if c.stateGeneration ≠ job.stateGeneration ∧
        ¬(c.parallelSyncProductionExtraBlock ∧ cfg.getExtraBlocks) then
      (c, .ok ())
    else
      match c.completeProduction cfg env job result with
      | .error e => (c, .error e)
      | .ok interest => c.expressInterest env interest

/-! ### The retransmission timer -/

/-- Sets the timer to `delay` milliseconds, an unsigned 32-bit number. -/
def scheduleRetx (c : SVSyncCore) (delay : Nat) : SVSyncCore :=
  { c with
    nextSyncInterest := env.currentTime + (1000 * delay % 2 ^ 32 : Nat)
    retxEvent := some (env.currentTime + (1000 * delay : Nat)) }

/-- Sends unless the vectors received during suppression cover the local one. -/
def sendUnlessSuppressed (c : SVSyncCore) : Outcome SVSyncCore :=
  match c.recordedVv with
  | none => c.sendSyncInterest cfg env
  | some recorded =>
    let (c, result) := c.mergeStateVector recorded
    if result.myVectorNew then c.sendSyncInterest cfg env else (c, .ok ())

def retxSyncInterest (c : SVSyncCore) (send : Bool) (delay : Nat) : Outcome SVSyncCore :=
  let (c, sent) := if send then c.sendUnlessSuppressed cfg env else (c, .ok ())
  match sent with
  | .error e => (c, .error e)
  | .ok () =>
    let c := if send then { c with recordedVv := none } else c
    (c.scheduleRetx env (if delay = 0 then env.retxDelay else delay), .ok ())

def sendLocalPublicationSyncInterest (c : SVSyncCore) : SVSyncCore :=
  match ({ c with recordedVv := none } : SVSyncCore).sendSyncInterest cfg env with
  | (c, .error _) => c
  | (c, .ok ()) => c.scheduleRetx env env.retxDelay

def schedulePublicationSync (c : SVSyncCore) : SVSyncCore :=
  { c with publicationSyncPending := true }

/-- Sets an entry and announces it when it is newer. -/
def updateSeqNo (c : SVSyncCore) (seq : SeqNo) (bootstrapTime : BootstrapTime) (nid : NodeID) :
    Outcome SVSyncCore :=
  let nid := targetNode cfg nid
  let prev := c.vv.get nid bootstrapTime
  match c.vv.set nid bootstrapTime seq with
  | .error e => (c, .error e)
  | .ok vv =>
    if prev < seq then
      let c := { c with vv, stateGeneration := c.stateGeneration + 1 }
      (if c.syncInterestBatching then c.schedulePublicationSync
        else c.sendLocalPublicationSyncInterest cfg env, .ok ())
    else ({ c with vv }, .ok ())

/-! ### Receiving -/

/-- The product of two signed 32-bit numbers. -/
def mulInt32 (a b : Int) : Int := (a * b).bmod 4294967296

/-- After a received vector: suppression and the timer. -/
def afterMerge (c : SVSyncCore) (other : VersionVector) (myVectorNew : Bool) :
    Outcome SVSyncCore :=
  match c.recordVector other with
  | (c, true) => (c, .ok ())
  | (c, false) =>
    if ¬myVectorNew then c.retxSyncInterest cfg env false 0
    else
      let c := c.enterSuppressionState other
      let delay := cfg.suppressionCurve c.maxSuppressionTime env.replyDelay
      if env.currentTime + mulInt32 delay 1000 < c.nextSyncInterest then
        c.retxSyncInterest cfg env false (delay % 4294967296).toNat
      else (c, .ok ())

/-- The calls to the application for what an Interest brought. -/
def upcallsFor (extensions : List Block) (other : VersionVector) (missing : List MissingDataInfo)
    (incomingFace : Nat) : List Upcall :=
  (if extensions = [] then [] else [.recvExtraBlocks extensions other]) ++
    (if missing = [] then [] else [.onUpdate (missing.map fun e => { e with incomingFace })])

def onSyncInterestValidatedSerial (c : SVSyncCore) (interest : Interest) : Outcome SVSyncCore :=
  match SyncProtocolCodec.decode cfg.cxx env.clock interest cfg.syncPrefix cfg.version true with
  | .error _ => (c, .ok ())
  | .ok envelope =>
    let (c, result) := c.mergeStateVector envelope.stateVector
    let upcalls := upcallsFor envelope.extensions envelope.stateVector result.missingData
      (interest.incomingFaceId.getD 0)
    let c := { c with upcalls := c.upcalls ++ upcalls }
    c.afterMerge cfg env envelope.stateVector result.myVectorNew

def onSyncInterestValidated (c : SVSyncCore) (interest : Interest) : Outcome SVSyncCore :=
  if ¬c.parallelSyncProcessing ∨ env.queueFull then c.onSyncInterestValidatedSerial cfg env interest
  else
    ({ c with processing := c.processing ++
        [{ interest, localVector := c.vv, stateGeneration := c.stateGeneration
           incomingFace := interest.incomingFaceId.getD 0 }] }, .ok ())

/-- The result of a worker, which the Face thread commits unless the state has changed since. -/
def processSyncInterestResult (c : SVSyncCore) (job : SyncProcessingJob) : Outcome SVSyncCore :=
  match SyncProtocolCodec.decode cfg.cxx env.clock job.interest cfg.syncPrefix cfg.version true with
  | .error _ => (c, .ok ())
  | .ok envelope =>
    if c.stateGeneration ≠ job.stateGeneration then
      c.onSyncInterestValidatedSerial cfg env job.interest
    else
      let result := computeMergeStateVector job.localVector envelope.stateVector
      let upcalls := upcallsFor envelope.extensions envelope.stateVector result.missingData
        job.incomingFace
      let c := { c with
        vv := result.mergedVector
        stateGeneration := if result.otherVectorNew then c.stateGeneration + 1
          else c.stateGeneration
        upcalls := c.upcalls ++ upcalls }
      c.afterMerge cfg env envelope.stateVector result.myVectorNew

def onSyncInterest (c : SVSyncCore) (interest : Interest) : Outcome SVSyncCore :=
  match cfg.version with
  | .v3 =>
    match SyncProtocolCodec.decode cfg.cxx env.clock interest cfg.syncPrefix .v3 false with
    | .error _ => (c, .ok ())
    | .ok envelope =>
      if envelope.stateVectorData.isNone then (c, .ok ())
      else if cfg.validator then ({ c with validating := c.validating ++ [interest] }, .ok ())
      else c.onSyncInterestValidated cfg env interest
  | .v2 =>
    match cfg.interestSigner with
    | .null => c.onSyncInterestValidated cfg env interest
    | .hmac =>
      if cfg.verifySignature interest then c.onSyncInterestValidated cfg env interest
      else (c, .ok ())
    | .other =>
      if cfg.validator then ({ c with validating := c.validating ++ [interest] }, .ok ())
      else c.onSyncInterestValidated cfg env interest

/-! ### Steps -/

/-- The event of the first Interest, 100 ms after the prefix has been registered. -/
def sendInitialInterest (c : SVSyncCore) : Outcome SVSyncCore :=
  ({ c with initialized := true } : SVSyncCore).retxSyncInterest cfg env true 0

def setMaxSuppressionTime (c : SVSyncCore) (delay : Int) : SVSyncCore :=
  { c with maxSuppressionTime := max delay 0 }

def setSyncInterestBatching (c : SVSyncCore) (enabled : Bool) : SVSyncCore :=
  { c with
    syncInterestBatching := enabled
    publicationSyncPending := enabled && c.publicationSyncPending }

/-- Turning the workers off discards their outstanding results. -/
def setParallelSyncProcessing (c : SVSyncCore) (enabled : Bool) : SVSyncCore :=
  { c with
    parallelSyncProcessing := enabled
    processing := if enabled then c.processing else [] }

def setParallelSyncProduction (c : SVSyncCore)
    (enabled signInWorker buildExtraBlockInWorker : Bool) :
    SVSyncCore :=
  { c with
    parallelSyncProduction := enabled
    parallelSyncProductionSigning := enabled && signInWorker
    parallelSyncProductionExtraBlock := enabled && buildExtraBlockInWorker
    production := if enabled then c.production else [] }

inductive Event
  | initialInterest
  | retransmission
  | publicationBatch
  | interest (interest : Interest)
  | verdict (index : Nat) (accepted : Bool)
  | processingResult (index : Nat)
  | productionResult (index : Nat)
  | updateSeqNo (seq : SeqNo) (bootstrapTime : BootstrapTime) (nid : NodeID)
  | setMaxSuppressionTime (delay : Int)
  | setSyncInterestBatching (enabled : Bool)
  | setParallelSyncProcessing (enabled : Bool)
  | setParallelSyncProduction (enabled signInWorker buildExtraBlockInWorker : Bool)
deriving DecidableEq

/-- The state after an event, none when the event cannot happen. -/
def step (c : SVSyncCore) : Event → Option SVSyncCore
  | .initialInterest => some (c.sendInitialInterest cfg env).1
  | .retransmission =>
    if c.retxEvent.isSome then
      some (({ c with retxEvent := none } : SVSyncCore).retxSyncInterest cfg env true 0).1
    else none
  | .publicationBatch =>
    if c.publicationSyncPending then
      some (({ c with publicationSyncPending := false } :
        SVSyncCore).sendLocalPublicationSyncInterest cfg env)
    else none
  | .interest interest => some (c.onSyncInterest cfg env interest).1
  | .verdict index accepted =>
    match c.validating[index]? with
    | none => none
    | some interest =>
      let c := { c with validating := c.validating.eraseIdx index }
      if accepted then some (c.onSyncInterestValidated cfg env interest).1 else some c
  | .processingResult index =>
    match c.processing[index]? with
    | none => none
    | some job =>
      some (({ c with processing := c.processing.eraseIdx index } :
        SVSyncCore).processSyncInterestResult cfg env job).1
  | .productionResult index =>
    match c.production[index]? with
    | none => none
    | some job =>
      some (({ c with production := c.production.eraseIdx index } :
        SVSyncCore).processSyncProductionResult cfg env job).1
  | .updateSeqNo seq bootstrapTime nid => some (c.updateSeqNo cfg env seq bootstrapTime nid).1
  | .setMaxSuppressionTime delay => some (c.setMaxSuppressionTime delay)
  | .setSyncInterestBatching enabled => some (c.setSyncInterestBatching enabled)
  | .setParallelSyncProcessing enabled => some (c.setParallelSyncProcessing enabled)
  | .setParallelSyncProduction enabled signInWorker buildExtraBlockInWorker =>
    some (c.setParallelSyncProduction enabled signInWorker buildExtraBlockInWorker)

end SVSyncCore

end NdnSvs
