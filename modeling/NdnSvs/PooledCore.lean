import NdnSvs.CoreJobs
import NdnSvs.WorkerPool

/-! The core with its worker pools and its threads.  The Face thread runs the handlers and puts jobs
into the queues, the workers compute results at times of their own and post them back to the Face
thread, and turning the workers off blocks the Face thread until they have been joined. -/

namespace NdnSvs

open Lib Lib.Tlv

/-- A pool, the flags under which jobs were submitted to it, of which the last one is the current
one, and the results that workers have posted to the Face thread. -/
structure Lane (α ρ : Type) where
  pool : Option (SyncWorkerPool (Nat × α)) := none
  alive : List Bool := []
  results : List ((Nat × α) × ρ) := []

namespace Lane

variable {α ρ : Type}

/-- Whether the flag still lets results through. -/
def isAlive (l : Lane α ρ) (flag : Nat) : Bool := l.alive[flag]?.getD false

def currentFlag (l : Lane α ρ) : Nat := l.alive.length - 1

def refuses (l : Lane α ρ) : Bool :=
  match l.pool with
  | none => true
  | some pool => pool.refuses

def post (l : Lane α ρ) (job : α) (woken : Option Nat) : Option (Lane α ρ) :=
  l.pool.bind fun pool => (pool.post (l.currentFlag, job) woken).map fun pool =>
    { l with pool := some pool }

/-- Posts the jobs of a handler. -/
def postAll (l : Lane α ρ) (jobs : List α) (woken : Option Nat) : Option (Lane α ρ) :=
  match jobs with
  | [] => some l
  | job :: jobs => (l.post job woken).bind fun l => postAll l jobs woken

def enable (l : Lane α ρ) (workerThreads maxQueueSize : Nat) : Lane α ρ :=
  { l with
    alive := l.alive ++ [true]
    pool := some (l.pool.getD (.create workerThreads maxQueueSize)) }

/-- Clears the current flag and begins the shutdown of the pool. -/
def disable (l : Lane α ρ) : Lane α ρ :=
  { l with
    alive := l.alive.set l.currentFlag false
    pool := l.pool.bind fun pool => pool.step .shutdown }

/-- Whether the Face thread waits for the end of a shutdown. -/
def isBlocked (l : Lane α ρ) : Bool := l.pool.any SyncWorkerPool.isStopped

/-- A step of the threads: the end of a job posts its result, the end of a shutdown drops the
pool. -/
def thread (l : Lane α ρ) (work : α → ρ) (e : SyncWorkerPool.Event (Nat × α)) :
    Option (Lane α ρ) :=
  l.pool.bind fun pool =>
    match e with
    | .post _ _ | .shutdown => none
    | .finish i =>
      (pool.step (.finish i)).map fun pool' =>
        { l with
          pool := some pool'
          results := l.results ++ ((pool.workers[i]?.bind WorkerState.job?).toList.map
            fun job => (job, work job.2)) }
    | .join => (pool.step .join).map fun _ => { l with pool := none }
    | e => (pool.step e).map fun pool => { l with pool := some pool }

end Lane

namespace SVSyncCore

variable (cfg : CoreConfig) (env : CoreInputs)

/-- What a worker computes from a received Interest: none when it does not decode. -/
def processJob (job : SyncProcessingJob) :
    Option (DecodedSyncEnvelope × MergeComputationResult) :=
  match SyncProtocolCodec.decode cfg.cxx env.clock job.interest cfg.syncPrefix cfg.version true with
  | .error _ => none
  | .ok envelope => some (envelope, computeMergeStateVector job.localVector envelope.stateVector)

/-- `processSyncInterestResult` on the result that a worker has posted. -/
def commitProcessing (c : SVSyncCore) (job : SyncProcessingJob) :
    Option (DecodedSyncEnvelope × MergeComputationResult) → Outcome SVSyncCore
  | none => (c, .ok ())
  | some (envelope, result) =>
    if c.stateGeneration ≠ job.stateGeneration then
      c.onSyncInterestValidatedSerial cfg env job.interest
    else
      let upcalls := upcallsFor envelope.extensions envelope.stateVector result.missingData
        job.incomingFace
      let c := { c with
        vv := result.mergedVector
        stateGeneration := if result.otherVectorNew then c.stateGeneration + 1
          else c.stateGeneration
        upcalls := c.upcalls ++ upcalls }
      c.afterMerge cfg env envelope.stateVector result.myVectorNew

/-- `processSyncProductionResult` on the result that a worker has posted. -/
def commitProduction (c : SVSyncCore) (job : SyncProductionJob) :
    Result (Option Interest) → Outcome SVSyncCore
  | .error _ => (c, .ok ())
  | .ok result =>
    if c.stateGeneration ≠ job.stateGeneration ∧
        ¬(c.parallelSyncProductionExtraBlock ∧ cfg.getExtraBlocks) then
      (c, .ok ())
    else
      match c.completeProduction cfg env job result with
      | .error e => (c, .error e)
      | .ok interest => c.expressInterest env interest

end SVSyncCore

/-- The core's own state, whose queues of jobs stay empty, and its two pools. -/
structure PooledCore where
  core : SVSyncCore
  processing : Lane SyncProcessingJob (Option (DecodedSyncEnvelope × MergeComputationResult)) := {}
  production : Lane SyncProductionJob (Result (Option Interest)) := {}

namespace PooledCore

inductive Event
  /-- A handler of the Face thread, and the worker that its post wakes up. -/
  | face (event : SVSyncCore.Event) (woken : Option Nat)
  | processingThread (event : SyncWorkerPool.Event (Nat × SyncProcessingJob))
  | productionThread (event : SyncWorkerPool.Event (Nat × SyncProductionJob))
  /-- The Face thread takes the oldest result that has been posted. -/
  | processingResult
  | productionResult
  | setParallelSyncProcessing (enabled : Bool) (workerThreads maxQueueSize : Nat)
  | setParallelSyncProduction (enabled : Bool) (workerThreads maxQueueSize : Nat)
    (signInWorker buildExtraBlockInWorker : Bool)

variable (cfg : CoreConfig) (env : CoreInputs)

/-- A handler that may send posts to the second pool, one that receives to the first. -/
def queueFull (p : PooledCore) (e : SVSyncCore.Event) : Bool :=
  if e.isReceipt then p.processing.refuses else p.production.refuses

/-- The inputs of a handler, which asks the pool itself whether it takes a job. -/
def inputs (p : PooledCore) (e : SVSyncCore.Event) : CoreInputs :=
  { env with queueFull := p.queueFull e }

def isBlocked (p : PooledCore) : Bool := p.processing.isBlocked || p.production.isBlocked

/-- A handler, and the jobs that it has put into its lists go to the pools. -/
def face (p : PooledCore) (e : SVSyncCore.Event) (woken : Option Nat) : Option PooledCore :=
  if e.isWork then none
  else
    (p.core.step cfg (p.inputs env e) e).bind fun c =>
      (p.processing.postAll c.processing woken).bind fun processing =>
        (p.production.postAll c.production woken).map fun production =>
          { core := { c with processing := [], production := [] }, processing, production }

def processingResult (p : PooledCore) : Option PooledCore :=
  match p.processing.results with
  | [] => none
  | ((flag, job), result) :: results =>
    let processing := { p.processing with results }
    if p.processing.isAlive flag then
      some { p with core := (p.core.commitProcessing cfg env job result).1, processing }
    else some { p with processing }

def productionResult (p : PooledCore) : Option PooledCore :=
  match p.production.results with
  | [] => none
  | ((flag, job), result) :: results =>
    let production := { p.production with results }
    if p.production.isAlive flag then
      some { p with core := (p.core.commitProduction cfg env job result).1, production }
    else some { p with production }

/-- The state after an event, none when the event cannot happen. -/
def step (p : PooledCore) : Event → Option PooledCore
  | .processingThread e =>
    (p.processing.thread (SVSyncCore.processJob cfg env) e).map fun processing =>
      { p with processing }
  | .productionThread e =>
    (p.production.thread (p.core.produce cfg env) e).map fun production => { p with production }
  | .face e woken => if p.isBlocked then none else p.face cfg env e woken
  | .processingResult => if p.isBlocked then none else p.processingResult cfg env
  | .productionResult => if p.isBlocked then none else p.productionResult cfg env
  | .setParallelSyncProcessing enabled workerThreads maxQueueSize =>
    if p.isBlocked then none
    else some { p with
      core := p.core.setParallelSyncProcessing enabled
      processing := if enabled then p.processing.enable workerThreads maxQueueSize
        else p.processing.disable }
  | .setParallelSyncProduction enabled workerThreads maxQueueSize signInWorker
      buildExtraBlockInWorker =>
    if p.isBlocked then none
    else some { p with
      core := p.core.setParallelSyncProduction enabled signInWorker buildExtraBlockInWorker
      production := if enabled then p.production.enable workerThreads maxQueueSize
        else p.production.disable }

abbrev Occurrence := Event × CoreInputs

def next (p : PooledCore) (o : Occurrence) : Option PooledCore := p.step cfg o.2 o.1

end PooledCore

end NdnSvs
