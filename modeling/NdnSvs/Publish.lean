import NdnSvs.ExtraData
import NdnSvs.PacketFormat
import NdnSvs.SyncBase

/-! The publishing side of the pub/sub layer: the six publish entry points, the preparation and the
staging of asynchronous publications, and their commits in order.  A commit attempt that throws puts
its publication back and sets a timer for the retry.  Each call, each posted callback and each timer
is one step. -/

namespace NdnSvs

open Lib Lib.Tlv

/-- What stays fixed over the life of the pub/sub layer. -/
structure PubSubConfig where
  core : CoreConfig
  extraData : ExtraDataOptions := {}
  useTimestamp : Bool := true
  /-- Whether the Data store can erase a packet by its name. -/
  supportsErase : Bool := true

/-- The Data store, by the names of the packets. -/
abbrev DataStore := Map Name Data

/-- Bytes in memory, whose number fits 64 bits. -/
abbrev Span := { value : Bytes // value.length < 2 ^ 64 }

inductive AsyncPublication.Kind
  | bytes (value : Span)
  | nameOnly
  | packet (packet : Data)
deriving DecidableEq

structure AsyncPublication where
  kind : AsyncPublication.Kind
  bootstrapTime : BootstrapTime
  seqNo : SeqNo
  name : Name
  nodePrefix : NodeID
  freshnessPeriod : Int
  mappingBlocks : List Block
deriving DecidableEq

structure PreparedPublication where
  seqNo : SeqNo
  bootstrapTime : BootstrapTime
  nodePrefix : NodeID
  mappingName : Name
  outerPackets : List Data := []
  /-- The packet for the Sync Interests, unless it is too large. -/
  piggyPacket : Option Data := none
  mappingBlocks : List Block
  stored : Bool := false
  ok : Bool := true
  commitAttempts : Nat := 0
  retryScheduled : Bool := false
deriving DecidableEq

/-- A publish call that has returned. -/
structure Publication where
  nodePrefix : NodeID
  seqNo : SeqNo
  packets : List Data
  async : Bool
deriving DecidableEq

/-! ### Names -/

def makeDataName (cfg : PubSubConfig) (nid : NodeID) (bootstrapTime : BootstrapTime)
    (seqNo : SeqNo) :
    Name :=
  nid ++ cfg.core.syncPrefix ++
    (match cfg.core.version with
      | .v3 => [.fromTimestamp (Component.timePointOfSeconds bootstrapTime)]
      | .v2 => []) ++
    [.fromSequenceNumber seqNo]

def makeMappingKey (nodeId : NodeID) (bootstrapTime : BootstrapTime) (seqNo : SeqNo) : Name :=
  nodeId ++ [.fromTimestamp (Component.timePointOfSeconds bootstrapTime),
    .fromSequenceNumber seqNo]

/-! ### Preparation -/

section Prepare

variable (cfg : PubSubConfig) (env : CoreInputs)

def isFinalPacketSizeAllowed (wireSize : Nat) : Bool := wireSize ≤ maxNdnPacketSize

/-- The signed Data that encapsulates a packet. -/
def encapsulate (name : Name) (inner : Data) (freshnessPeriod : Int)
    (finalBlock : Option Component) : Result Data := do
  let wire ← inner.wireEncode cfg.core.cxx
  let outer : Data := { name, content := wire.wire, contentType := tlv.data, finalBlock }
  signData env (← setFreshnessPeriod outer freshnessPeriod)

/-- The record of a publication before it has packets. -/
def AsyncPublication.prepared (publication : AsyncPublication) : PreparedPublication where
  seqNo := publication.seqNo
  bootstrapTime := publication.bootstrapTime
  nodePrefix := publication.nodePrefix
  mappingName := publication.name
  mappingBlocks := publication.mappingBlocks

def AsyncPublication.dataName (publication : AsyncPublication) : Name :=
  makeDataName cfg publication.nodePrefix publication.bootstrapTime publication.seqNo

def prepareOuterSegment (publication : AsyncPublication) (value : Bytes) (segmentNo : Nat)
    (finalBlock : Component) (offset contentSize : Nat) : Result Data := do
  let inner : Data :=
    { name := (publication.name.appendVersion 0).appendSegment segmentNo }
  let inner ← setFreshnessPeriod inner publication.freshnessPeriod
  let inner ← signData env
    { inner with content := (value.drop offset).take contentSize, finalBlock := some finalBlock }
  encapsulate cfg env (((publication.dataName cfg).appendVersion 0).appendSegment segmentNo) inner
    publication.freshnessPeriod (some finalBlock)

def maxDataSize : Nat := 8000

/-- The search for the largest content that fits a packet: `fuel` bounds its steps. -/
def fitSegment (publication : AsyncPublication) (value : Bytes) (segmentNo : Nat)
    (finalBlock : Component) (offset : Nat) :
    Nat → Nat → Nat → Option (Nat × Data) → Result (Option (Nat × Data))
  | 0, _, _, best => .ok best
  | fuel + 1, low, high, best =>
    if high < low then .ok best
    else do
      let candidate := low + (high - low) / 2
      let packet ← prepareOuterSegment cfg env publication value segmentNo finalBlock
        offset candidate
      let wire ← packet.wireEncode cfg.core.cxx
      if isFinalPacketSizeAllowed wire.size then
        fitSegment publication value segmentNo finalBlock offset fuel (candidate + 1) high
          (some (candidate, packet))
      else fitSegment publication value segmentNo finalBlock offset fuel low (candidate - 1) best

/-- The segments from `offset` on, after those in `packets`: `fuel` bounds their number. -/
def fitSegments (publication : AsyncPublication) (value : Bytes) (finalBlock : Component) :
    Nat → Nat → List Data → Result (List Data)
  | 0, _, packets => .ok packets
  | fuel + 1, offset, packets =>
    if value.length ≤ offset then .ok packets
    else do
      let upper := min maxDataSize (value.length - offset)
      match ← fitSegment cfg env publication value packets.length finalBlock offset upper 1 upper
        none with
      | none => .error (.lengthError "signed SVS segment cannot fit MAX_NDN_PACKET_SIZE")
      | some (best, packet) =>
        fitSegments publication value finalBlock fuel (offset + best) (packets ++ [packet])

def checkFinalPacketSize (what : String) (packet : Data) : Result Unit := do
  let wire ← packet.wireEncode cfg.core.cxx
  require (isFinalPacketSizeAllowed wire.size) (.lengthError what)

/-- The passes that are left to find a final block which agrees with the number of packets. -/
def fitFinalBlock (publication : AsyncPublication) (value : Bytes) :
    Nat → Nat → Result (List Data)
  | 0, _ => .error (.runtime "segmented FinalBlock fitting did not converge")
  | passes + 1, finalGuess => do
    let packets ← fitSegments cfg env publication value (.fromSegment finalGuess) value.length 0 []
    if packets.length - 1 = finalGuess then
      packets.forM (checkFinalPacketSize cfg "final signed SVS segment exceeds packet limit")
      .ok packets
    else fitFinalBlock publication value passes (packets.length - 1)

def prepareSegmentedPackets (publication : AsyncPublication) (value : Bytes) :
    Result (List Data) := do
  require (value ≠ []) (.invalidArgument "cannot segment an empty publication")
  fitFinalBlock cfg env publication value 16 ((value.length - 1) / maxDataSize)

/-- The packet for the Sync Interests, when it is small enough. -/
def piggyPacketOf (data : Data) (wireSize : Nat) : Option Data :=
  if wireSize ≤ cfg.extraData.maxPiggyData then some data else none

def prepareReservedBytes (publication : AsyncPublication) (value : Bytes) :
    Result PreparedPublication := do
  let data ← setFreshnessPeriod { name := publication.name, content := value }
    publication.freshnessPeriod
  let data ← signData env data
  let innerWire ← data.wireEncode cfg.core.cxx
  let outer ← encapsulate cfg env (publication.dataName cfg) data publication.freshnessPeriod none
  let wire ← outer.wireEncode cfg.core.cxx
  if isFinalPacketSizeAllowed wire.size then
    .ok { publication.prepared with
      outerPackets := [outer]
      piggyPacket := piggyPacketOf cfg data innerWire.size }
  else do
    let outerPackets ← prepareSegmentedPackets cfg env publication value
    .ok { publication.prepared with outerPackets }

def prepareReservedNameOnly (publication : AsyncPublication) : PreparedPublication :=
  publication.prepared

def prepareReservedPacket (publication : AsyncPublication) (packet : Data) :
    Result PreparedPublication := do
  let outer ← encapsulate cfg env (publication.dataName cfg) packet packet.freshnessPeriod none
  .ok { publication.prepared with mappingName := packet.name, outerPackets := [outer] }

def prepare (publication : AsyncPublication) : Result PreparedPublication :=
  match publication.kind with
  | .bytes value => prepareReservedBytes cfg env publication value.val
  | .nameOnly => .ok (prepareReservedNameOnly publication)
  | .packet packet => prepareReservedPacket cfg env publication packet

end Prepare

/-! ### The Data store -/

namespace DataStore

/-- The loop of insertions, with the names inserted so far: whether it ends without an exception. -/
def insertLoop (store : DataStore) (inserted : List Name) :
    List Data → Option Nat → DataStore × List Name × Bool
  | [], _ => (store, inserted, true)
  | packet :: packets, throwsAt =>
    if throwsAt = some 0 then (store, inserted, false)
    else
      insertLoop (store.insert packet.name packet) (inserted ++ [packet.name]) packets
        (throwsAt.map fun k => k - 1)

/-- The loop of erasures: whether it ends without an exception. -/
def eraseLoop (store : DataStore) : List Name → Option Nat → DataStore × Bool
  | [], _ => (store, true)
  | name :: names, throwsAt =>
    if throwsAt = some 0 then (store, false)
    else eraseLoop (store.erase name) names (throwsAt.map fun k => k - 1)

/-- Inserts a batch; when an insertion throws, those before it are erased again. -/
def insertPreparedDataBatch (cfg : PubSubConfig) (env : PublishInputs) (store : DataStore)
    (packets : List Data) : Outcome DataStore :=
  if packets ≠ [] ∧ ¬cfg.supportsErase then
    (store, .error (.logicError "DataStore does not support transactional rollback"))
  else
    match packets.forM (checkFinalPacketSize cfg
      "prepared SVS Data exceeds MAX_NDN_PACKET_SIZE") with
    | .error e => (store, .error e)
    | .ok () =>
      match insertLoop store [] packets env.storeThrowsAt with
      | (store, _, true) => (store, .ok ())
      | (store, inserted, false) =>
        match store.eraseLoop inserted.reverse env.eraseThrowsAt with
        | (store, true) => (store, .error (.runtime "DataStore insertion failed"))
        | (store, false) =>
          (store, .error (.runtime "DataStore rollback failed after partial insertion"))

/-- Erases a batch, unless the store cannot erase: whether it ends without an exception. -/
def removePreparedDataBatch (cfg : PubSubConfig) (store : DataStore) (packets : List Data)
    (throwsAt : Option Nat) : DataStore × Bool :=
  if packets ≠ [] ∧ ¬cfg.supportsErase then (store, false)
  else store.eraseLoop (packets.map Data.name).reverse throwsAt

end DataStore

/-! ### State -/

structure Publisher where
  core : SVSyncCore := {}
  dataStore : DataStore := ∅
  /-- The store of the mapping provider. -/
  mappings : Map Name MappingEntryPair := ∅
  extra : ExtraData := {}
  reservedSeqNo : Map NodeID SeqNo := ∅
  nextAsyncCommitSeq : Map NodeID SeqNo := ∅
  stagedPublicationPackets : Map NodeID (Map SeqNo (List Data)) := ∅
  preparedPublications : Map NodeID (Map SeqNo PreparedPublication) := ∅
  /-- The posted callbacks. -/
  posted : List PreparedPublication := []
  /-- The timers of the retries. -/
  retries : List (NodeID × SeqNo) := []
  /-- The publish calls that have returned. -/
  returned : List Publication := []
  /-- The commits of asynchronous publications. -/
  committed : List (NodeID × SeqNo) := []

/-- The sync object below the pub/sub layer.  What its Face gets is not recorded. -/
def PubSubConfig.svsync (cfg : PubSubConfig) : SVSyncBase Publisher where
  config := cfg.core
  getDataName := makeDataName cfg
  getCore := Publisher.core
  setCore p core := { p with core }
  insert _ p data := { p with dataStore := p.dataStore.insert data.name data }
  put p _ := p

namespace Publisher

variable (cfg : PubSubConfig) (env : PublishInputs)

/-- The node that a call publishes under. -/
def nodeOf (nodePrefix : Name) : NodeID :=
  if nodePrefix = [] then cfg.core.id else nodePrefix

/-- The last number of a node that is reserved or known. -/
def lastSeqNo (p : Publisher) (nid : NodeID) : SeqNo :=
  max ((p.reservedSeqNo[nid]?).getD 0) (p.core.getSeqNo cfg.core nid)

/-- The number after it, an unsigned 64-bit number. -/
def nextSeqNo (p : Publisher) (nid : NodeID) : SeqNo := (p.lastSeqNo cfg nid + 1) % 2 ^ 64

def reserve (p : Publisher) (nid : NodeID) (seqNo : SeqNo) : Publisher :=
  { p with reservedSeqNo := p.reservedSeqNo.insert nid seqNo }

def updateSeqNo (p : Publisher) (seqNo : SeqNo) (nid : NodeID) : Outcome Publisher :=
  match p.core.updateSeqNo cfg.core env.core seqNo cfg.core.bootstrapTime nid with
  | (core, result) => ({ p with core }, result)

def insertMapping (p : Publisher) (nid : NodeID) (bootstrapTime : BootstrapTime) (seqNo : SeqNo)
    (name : Name) (additional : List Block) : Outcome Publisher :=
  let additional := if cfg.useTimestamp then
    additional ++ [(Component.fromTimestamp env.now).block] else additional
  let entry : MappingEntryPair := { name, additional }
  let p := { p with extra := p.extra.pushMapping nid { bootstrapTime, seqNo, mapping := entry } }
  if env.mappingThrows then (p, .error (.runtime "mapping insertion failed"))
  else
    ({ p with mappings := p.mappings.insert (makeMappingKey nid bootstrapTime seqNo) entry },
      .ok ())

/-- Stores the packets of a publication that has none in the store. -/
def storePackets (p : Publisher) (publication : PreparedPublication) :
    Outcome (Publisher × PreparedPublication) :=
  if publication.stored then ((p, publication), .ok ())
  else
    match p.dataStore.insertPreparedDataBatch cfg env publication.outerPackets with
    | (dataStore, .error e) => (({ p with dataStore }, publication), .error e)
    | (dataStore, .ok ()) =>
      (({ p with dataStore }, { publication with stored := publication.outerPackets ≠ [] }), .ok ())

/-- Takes the packets of a publication out of the store after an exception.  When an erasure throws
the publication is still marked as stored, though packets of it may be gone. -/
def rollBack (p : Publisher) (publication : PreparedPublication) (e : Error) :
    Outcome (Publisher × PreparedPublication) :=
  if publication.stored then
    match p.dataStore.removePreparedDataBatch cfg publication.outerPackets env.eraseThrowsAt with
    | (dataStore, false) => (({ p with dataStore }, publication),
        .error (.runtime "publication rollback failed after commit error"))
    | (dataStore, true) => (({ p with dataStore }, { publication with stored := false }), .error e)
  else ((p, { publication with stored := false }), .error e)

def queuePiggyPacket (p : Publisher) (publication : PreparedPublication) : Publisher :=
  { p with extra := publication.piggyPacket.elim p.extra p.extra.pushData }

def commitPreparedPublication (p : Publisher) (publication : PreparedPublication) :
    Outcome (Publisher × PreparedPublication) :=
  if ¬publication.ok then ((p, publication), .error (.runtime "publication preparation failed"))
  else
    match p.storePackets cfg env publication with
    | ((p, publication), .error e) => ((p, publication), .error e)
    | ((p, publication), .ok ()) =>
      match p.insertMapping cfg env publication.nodePrefix publication.bootstrapTime
        publication.seqNo publication.mappingName publication.mappingBlocks with
      | (p, .error e) => p.rollBack cfg env publication e
      | (p, .ok ()) => ((p.queuePiggyPacket publication, publication), .ok ())

/-! ### Synchronous publications -/

/-- Logs a call that returns. -/
def return_ (p : Publisher) (nid : NodeID) (seqNo : SeqNo) (packets : List Data) (async : Bool) :
    Publisher :=
  { p with returned := p.returned ++ [⟨nid, seqNo, packets, async⟩] }

def publishBytes (p : Publisher) (name : Name) (value : Span) (nodePrefix : Name)
    (freshnessPeriod : Int) (mappingBlocks : List Block) : Outcome Publisher :=
  let nid := nodeOf cfg nodePrefix
  let seqNo := p.nextSeqNo cfg nid
  let publication : AsyncPublication :=
    { kind := .bytes value, bootstrapTime := cfg.core.bootstrapTime, seqNo, name
      nodePrefix := nid, freshnessPeriod, mappingBlocks }
  match prepare cfg env.core publication with
  | .error e => (p, .error e)
  | .ok prepared =>
    match p.commitPreparedPublication cfg env prepared with
    | ((p, _), .error e) => (p, .error e)
    | ((p, prepared), .ok ()) =>
      match p.updateSeqNo cfg env seqNo nid with
      | (p, .error e) => (p, .error e)
      | (p, .ok ()) =>
        let p := { p with
          reservedSeqNo := p.reservedSeqNo.insert nid seqNo
          nextAsyncCommitSeq := p.nextAsyncCommitSeq.insert nid ((seqNo + 1) % 2 ^ 64) }
        (p.return_ nid seqNo prepared.outerPackets false, .ok ())

/-- The number is reserved for good, and starts the commits when there have been none. -/
def reserveSeqNo (p : Publisher) (nid : NodeID) : Publisher × SeqNo :=
  let seqNo := p.nextSeqNo cfg nid
  ({ p with
    reservedSeqNo := p.reservedSeqNo.insert nid seqNo
    nextAsyncCommitSeq :=
      if nid ∈ p.nextAsyncCommitSeq then p.nextAsyncCommitSeq
      else p.nextAsyncCommitSeq.insert nid seqNo }, seqNo)

/-- The mapping and the announcement of a reserved number. -/
def announce (p : Publisher) (nid : NodeID) (seqNo : SeqNo) (name : Name)
    (mappingBlocks : List Block) (packets : List Data) : Outcome Publisher :=
  match p.insertMapping cfg env nid cfg.core.bootstrapTime seqNo name mappingBlocks with
  | (p, .error e) => (p, .error e)
  | (p, .ok ()) =>
    match p.updateSeqNo cfg env seqNo nid with
    | (p, .error e) => (p, .error e)
    | (p, .ok ()) => (p.return_ nid seqNo packets false, .ok ())

def publishName (p : Publisher) (name nodePrefix : Name) (mappingBlocks : List Block) :
    Outcome Publisher :=
  let nid := nodeOf cfg nodePrefix
  let (p, seqNo) := p.reserveSeqNo cfg nid
  p.announce cfg env nid seqNo name mappingBlocks []

/-- The state after the insertion of a packet, and the packet that carries it. -/
def insertPacketAtSeq (p : Publisher) (data : Data) (nid : NodeID) (seqNo : SeqNo) :
    Publisher × Result Data :=
  match data.wireEncode cfg.core.cxx with
  | .error e => (p, .error e)
  | .ok wire => cfg.svsync.insertDataAtSeq env p wire data.freshnessPeriod nid seqNo tlv.data

def publishPacket (p : Publisher) (data : Data) (nodePrefix : Name) (mappingBlocks : List Block) :
    Outcome Publisher :=
  let nid := nodeOf cfg nodePrefix
  let (p, seqNo) := p.reserveSeqNo cfg nid
  match p.insertPacketAtSeq cfg env data nid seqNo with
  | (p, .error e) => (p, .error e)
  | (p, .ok packet) => p.announce cfg env nid seqNo data.name mappingBlocks [packet]

/-! ### Asynchronous publications -/

/-- The publication that a call asks for, before it has a number. -/
def prepareAndStageAsyncPublication (p : Publisher) (kind : AsyncPublication.Kind) (name : Name)
    (nodePrefix : Name) (freshnessPeriod : Int) (mappingBlocks : List Block) : Outcome Publisher :=
  let nid := nodeOf cfg nodePrefix
  let seqNo := p.nextSeqNo cfg nid
  let publication : AsyncPublication :=
    { kind, bootstrapTime := cfg.core.bootstrapTime, seqNo, name
      nodePrefix := nid, freshnessPeriod, mappingBlocks }
  -- the reservation is raised to the known number even when the call throws below
  let p := p.reserve nid (p.lastSeqNo cfg nid)
  match prepare cfg env.core publication with
  | .error e => (p, .error e)
  | .ok prepared =>
    match p.dataStore.insertPreparedDataBatch cfg env prepared.outerPackets with
    | (dataStore, .error e) => ({ p with dataStore }, .error e)
    | (dataStore, .ok ()) =>
      let prepared := { prepared with stored := prepared.outerPackets ≠ [] }
      let p := { p with
        dataStore
        reservedSeqNo := p.reservedSeqNo.insert nid seqNo
        nextAsyncCommitSeq :=
          if nid ∈ p.nextAsyncCommitSeq then p.nextAsyncCommitSeq
          else p.nextAsyncCommitSeq.insert nid seqNo
        stagedPublicationPackets :=
          p.stagedPublicationPackets.insertAt nid seqNo prepared.outerPackets
        posted := p.posted ++ [prepared] }
      (p.return_ nid seqNo prepared.outerPackets true, .ok ())

/-- The publication that is next to commit, which leaves the map of the prepared ones. -/
def takeHead (p : Publisher) (nid : NodeID) : Option (PreparedPublication × Publisher) :=
  match p.nextAsyncCommitSeq[nid]? with
  | none => none
  | some next =>
    match p.preparedPublications.getAt nid next with
    | none => none
    | some publication =>
      if publication.retryScheduled then none
      else some (publication, { p with
        preparedPublications := p.preparedPublications.eraseAt nid next })

/-- One attempt to commit and to announce a publication. -/
def attemptCommit (p : Publisher) (nid : NodeID) (publication : PreparedPublication) :
    Outcome (Publisher × PreparedPublication) :=
  if env.hookThrows then ((p, publication), .error (.runtime "commit hook failed"))
  else
    match p.commitPreparedPublication cfg env publication with
    | ((p, publication), .error e) => ((p, publication), .error e)
    | ((p, publication), .ok ()) =>
      match p.updateSeqNo cfg env publication.seqNo nid with
      | (p, .error e) => ((p, publication), .error e)
      | (p, .ok ()) =>
        (({ p with committed := p.committed ++ [(nid, publication.seqNo)] }, publication), .ok ())

/-- Puts a publication back and sets the timer of its retry. -/
def requeueFailedPublication (p : Publisher) (nid : NodeID) (publication : PreparedPublication) :
    Publisher :=
  { p with
    preparedPublications := p.preparedPublications.insertAt nid publication.seqNo
      { publication with
        commitAttempts := publication.commitAttempts + 1
        retryScheduled := true }
    retries := p.retries ++ [(nid, publication.seqNo)] }

def advanceHead (p : Publisher) (nid : NodeID) (seqNo : SeqNo) : Publisher :=
  if p.nextAsyncCommitSeq[nid]? = some seqNo then
    { p with nextAsyncCommitSeq := p.nextAsyncCommitSeq.insert nid ((seqNo + 1) % 2 ^ 64) }
  else p

/-- The loop of commits, each with inputs of its own: `fuel` bounds the rounds. -/
def commitLoop (nid : NodeID) : Nat → (Nat → PublishInputs) → Publisher → Publisher
  | 0, _, p => p
  | fuel + 1, attempts, p =>
    match p.takeHead nid with
    | none => p
    | some (publication, p) =>
      match p.attemptCommit cfg (attempts 0) nid publication with
      | ((p, publication), .error _) => p.requeueFailedPublication nid publication
      | ((p, publication), .ok ()) =>
        commitLoop nid fuel (fun i => attempts (i + 1)) (p.advanceHead nid publication.seqNo)

/-- Every round but the last takes a publication out of the map. -/
def commitReadyPreparedPublications (attempts : Nat → PublishInputs) (p : Publisher)
    (nid : NodeID) :
    Publisher :=
  commitLoop cfg nid (p.preparedPublications.sizeAt nid + 1) attempts p

/-- Moves a staged publication to the prepared ones. -/
def unstage (p : Publisher) (publication : PreparedPublication) : Publisher :=
  let nid := publication.nodePrefix
  { p with
    stagedPublicationPackets := p.stagedPublicationPackets.eraseAt nid publication.seqNo
    preparedPublications := p.preparedPublications.insertAt nid publication.seqNo publication }

def onPreparedPublication (attempts : Nat → PublishInputs) (p : Publisher)
    (publication : PreparedPublication) : Publisher :=
  (p.unstage publication).commitReadyPreparedPublications cfg attempts publication.nodePrefix

def clearRetry (p : Publisher) (nid : NodeID) (seqNo : SeqNo) (publication : PreparedPublication) :
    Publisher :=
  { p with
    preparedPublications := p.preparedPublications.insertAt nid seqNo
      { publication with retryScheduled := false } }

/-- The timer of a retry. -/
def onRetry (attempts : Nat → PublishInputs) (p : Publisher) (nid : NodeID) (seqNo : SeqNo) :
    Publisher :=
  match p.preparedPublications.getAt nid seqNo with
  | none => p
  | some publication =>
    (p.clearRetry nid seqNo publication).commitReadyPreparedPublications cfg attempts nid

/-! ### Steps -/

inductive Event
  | publishBytes (name : Name) (value : Span) (nodePrefix : Name) (freshnessPeriod : Int)
      (mappingBlocks : List Block)
  | publishName (name nodePrefix : Name) (mappingBlocks : List Block)
  | publishPacket (data : Data) (nodePrefix : Name) (mappingBlocks : List Block)
  | publishBytesAsync (name : Name) (value : Span) (nodePrefix : Name) (freshnessPeriod : Int)
      (mappingBlocks : List Block)
  | publishNameAsync (name nodePrefix : Name) (freshnessPeriod : Int) (mappingBlocks : List Block)
  | publishPacketAsync (data : Data) (nodePrefix : Name) (mappingBlocks : List Block)
  | preparedPublication (index : Nat)
  | retry (index : Nat)
  /-- The core asks for the blocks of a Sync Interest. -/
  | extraBlocks
  | core (event : SVSyncCore.Event)
deriving DecidableEq

/-- An event with its inputs: a call uses the first, the loop of commits one in each round. -/
structure Occurrence where
  event : Event
  inputs : Nat → PublishInputs

/-- The state after an event, none when the event cannot happen. -/
def step (p : Publisher) (o : Occurrence) : Option Publisher :=
  match o.event with
  | .publishBytes name value nodePrefix freshnessPeriod mappingBlocks =>
    some (p.publishBytes cfg (o.inputs 0) name value nodePrefix freshnessPeriod mappingBlocks).1
  | .publishName name nodePrefix mappingBlocks =>
    some (p.publishName cfg (o.inputs 0) name nodePrefix mappingBlocks).1
  | .publishPacket data nodePrefix mappingBlocks =>
    some (p.publishPacket cfg (o.inputs 0) data nodePrefix mappingBlocks).1
  | .publishBytesAsync name value nodePrefix freshnessPeriod mappingBlocks =>
    some (p.prepareAndStageAsyncPublication cfg (o.inputs 0) (.bytes value) name nodePrefix
      freshnessPeriod mappingBlocks).1
  | .publishNameAsync name nodePrefix freshnessPeriod mappingBlocks =>
    some (p.prepareAndStageAsyncPublication cfg (o.inputs 0) .nameOnly name nodePrefix
      freshnessPeriod mappingBlocks).1
  | .publishPacketAsync data nodePrefix mappingBlocks =>
    some (p.prepareAndStageAsyncPublication cfg (o.inputs 0) (.packet data) data.name nodePrefix
      data.freshnessPeriod mappingBlocks).1
  | .preparedPublication index =>
    match p.posted[index]? with
    | none => none
    | some publication =>
      some (({ p with posted := p.posted.eraseIdx index } : Publisher).onPreparedPublication cfg
        o.inputs publication)
  | .retry index =>
    match p.retries[index]? with
    | none => none
    | some (nid, seqNo) =>
      some (({ p with retries := p.retries.eraseIdx index } : Publisher).onRetry cfg o.inputs nid
        seqNo)
  | .extraBlocks =>
    some { p with extra := (p.extra.onGetExtraData cfg.core.cxx cfg.extraData).2 }
  | .core event =>
    match p.core.step cfg.core (o.inputs 0).core event with
    | none => none
    | some core => some { p with core }

end Publisher

/-- A node for examples. -/
def sampleConfig : PubSubConfig where
  core :=
    { cxx := packetFormat, syncPrefix := Name.ofStrings ["g"], id := Name.ofStrings ["a"]
      bootstrapTime := 100, suppressionCurve := fun _ delay => delay }

end NdnSvs
