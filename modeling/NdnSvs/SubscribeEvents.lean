import NdnSvs.ExtraBlocks
import NdnSvs.Subscribe

/-! The events of the subscribing side and their handlers.  A handler is a program of calls on the
state; a step runs the handler of an event to its end. -/

namespace NdnSvs

open Lib Lib.Tlv Std

namespace Subscriber

variable (cfg : SubscriberConfig) (env : SubscribeInputs)

/-! ### Calls -/

/-- Asks for the mappings of a range, unless they have been asked for or the last try is too
recent.  Whether it asked. -/
def scheduleMappingFetch (s : Subscriber) (requested : MissingDataInfo) (streamName : Name) :
    Bool × Subscriber :=
  let query := { requested with high := max requested.high requested.low }
  let key : MappingFetchKey := ⟨query.nodeId, query.bootstrapTime, query.low, query.high⟩
  if key ∈ s.mappingFetchInFlight then (false, s)
  else if (s.mappingFetchSuppressUntil[key]?).any fun suppress => env.steadyNow < suppress then
    (false, s)
  else
    (true, { s with
      mappingFetchSuppressUntil := s.mappingFetchSuppressUntil.erase key
      mappingFetchInFlight := s.mappingFetchInFlight.insert key true
      mappingFetcher := s.mappingFetcher.expressInterest cfg.fetcher { query, streamName, key }
        cfg.mappingFetchRetries })

def markMappingFetchComplete (s : Subscriber) (key : MappingFetchKey) : Subscriber :=
  { s with
    mappingFetchInFlight := s.mappingFetchInFlight.erase key
    mappingFetchSuppressUntil := s.mappingFetchSuppressUntil.erase key }

def markMappingFetchFailed (s : Subscriber) (key : MappingFetchKey) : Subscriber :=
  { s with
    mappingFetchInFlight := s.mappingFetchInFlight.erase key
    mappingFetchSuppressUntil :=
      if 0 < cfg.mappingFetchFailureBackoff then
        s.mappingFetchSuppressUntil.insert key
          (env.steadyNow + toStdDuration cfg.mappingFetchFailureBackoff)
      else s.mappingFetchSuppressUntil }

/-- A mapping of a reply does not replace one that is known. -/
def insertUnknownMapping (s : Subscriber) (key : PublicationKey) (entry : MappingEntryPair) :
    Subscriber :=
  match s.getMapping key with
  | some _ => s
  | none => s.insertMapping key entry

/-- Fetches the packet after the last one of a producer; nothing is done with it. -/
def prefetch (s : Subscriber) (key : PublicationKey) : Subscriber :=
  { s with dataFetcher := s.dataFetcher.expressInterest cfg.fetcher (.prefetch key) 0 }

/-- Hands a packet to the validator of encapsulated packets. -/
def validate (s : Subscriber) (packet : Data) (target : ValidationTarget) : Subscriber :=
  { s with validations := s.validations ++ [{ packet, target }] }

/-- Returns a fetched packet to the subscriptions that wait for it.  When it is the first of several
segments and a subscription wants the whole publication, the segments are fetched. -/
def returnData (s : Subscriber) (firstData innerData : Data) (publication : PublicationKey) :
    Subscriber :=
  match s.fetchMap[publication]? with
  | none => s
  | some subs =>
    let data : SubscriptionData :=
      { name := innerData.name, data := innerData.content, producerPrefix := publication.nodeId,
        seqNo := publication.seqNo, packet := some innerData }
    let hasFinalBlock := innerData.finalBlock.isSome
    let s := s.invokeAll publication data
      (subs.filter fun sub => sub.isPacketSubscription || !hasFinalBlock)
    if (subs.any fun sub => !sub.isPacketSubscription) ∧ hasFinalBlock ∧ 2 < firstData.name.length
    then { s with segmentFetches := s.segmentFetches ++ [publication] }
    else s.cleanUpFetch publication

/-- The state of the validations of the segments of a publication, and its index. -/
def startValidation (s : Subscriber) (publication : PublicationKey)
    (assembly : InnerSegmentAssembly)
    (expected : Nat) : Nat × Subscriber :=
  (s.assemblies.length, { s with
    assemblies := s.assemblies ++
      [{ publication, name := assembly.name, payload := assembly.payload, expected }] })

/-- The end of a publication in segments: it is delivered when no segment has failed. -/
def finishAssembly (s : Subscriber) (state : ValidationState) : Subscriber :=
  let key := state.publication
  let subs := ((s.fetchMap[key]?).getD []).filter fun sub => !sub.isPacketSubscription
  (s.invokeAll key { name := state.name, data := state.payload, producerPrefix := key.nodeId,
                     seqNo := key.seqNo }
    (if state.failed = 0 then subs else [])).cleanUpFetch key

/-- The verdict on one segment, the last of which ends the publication. -/
def finishOne (s : Subscriber) (index : Nat) (failed : Bool) : Subscriber :=
  match s.assemblies[index]? with
  | none => s
  | some state =>
    if state.terminal then s
    else
      let state := { state with
        completed := state.completed + 1
        failed := state.failed + failed.toNat
        terminal := state.completed + 1 = state.expected }
      let s := { s with assemblies := s.assemblies.set index state }
      if state.terminal then s.finishAssembly state else s

/-- The calls of the handlers. -/
inductive Call
  | addPublicationFetch (key : PublicationKey) (sub : Subscription)
  | prefetch (key : PublicationKey)
  | processMapping (key : PublicationKey)
  | scheduleMappingFetch (requested : MissingDataInfo) (streamName : Name)
  | markMappingFetchComplete (key : MappingFetchKey)
  | markMappingFetchFailed (key : MappingFetchKey)
  | insertMapping (key : PublicationKey) (entry : MappingEntryPair)
  | insertUnknownMapping (key : PublicationKey) (entry : MappingEntryPair)
  | satisfyPendingFetch (data : Data)
  | cachePiggyData (data : Data)
  | enqueueRepairPublication (key : PublicationKey)
  | sweepFetches
  | fetchNext (key : PublicationKey) (inFlight : Nat)
  | markPublicationFetchFailed (key : PublicationKey)
  | observePublicationFetchSuccess (key : PublicationKey)
  | cleanUpFetch (key : PublicationKey)
  | validate (packet : Data) (target : ValidationTarget)
  | returnData (firstData innerData : Data) (publication : PublicationKey)
  | startValidation (publication : PublicationKey) (assembly : InnerSegmentAssembly)
      (expected : Nat)
  | finishOne (index : Nat) (failed : Bool)

/-- What a call returns. -/
abbrev Call.Reply : Call → Type
  | .processMapping _ => Result Bool
  | .scheduleMappingFetch _ _ => Bool
  | .sweepFetches => List PublicationKey × Nat
  | .fetchNext _ _ => Nat
  | .startValidation _ _ _ => Nat
  | _ => Unit

/-- The action of a call on the state. -/
def act : (call : Call) → Subscriber → call.Reply × Subscriber
  | .addPublicationFetch key sub, s => ((), s.addPublicationFetch cfg env key sub)
  | .prefetch key, s => ((), s.prefetch cfg key)
  | .processMapping key, s => s.processMapping cfg env key
  | .scheduleMappingFetch requested streamName, s =>
    s.scheduleMappingFetch cfg env requested streamName
  | .markMappingFetchComplete key, s => ((), s.markMappingFetchComplete key)
  | .markMappingFetchFailed key, s => ((), s.markMappingFetchFailed cfg env key)
  | .insertMapping key entry, s => ((), s.insertMapping key entry)
  | .insertUnknownMapping key entry, s => ((), s.insertUnknownMapping key entry)
  | .satisfyPendingFetch data, s => ((), s.satisfyPendingFetchFromPiggyData data)
  | .cachePiggyData data, s => ((), s.cachePiggyData cfg data)
  | .enqueueRepairPublication key, s => ((), s.enqueueRepairPublication cfg env key)
  | .sweepFetches, s => s.sweepFetches cfg env
  | .fetchNext key inFlight, s => s.fetchNext cfg env key inFlight
  | .markPublicationFetchFailed key, s => ((), s.markPublicationFetchFailed cfg env key)
  | .observePublicationFetchSuccess key, s => ((), s.observePublicationFetchSuccess cfg env key)
  | .cleanUpFetch key, s => ((), s.cleanUpFetch key)
  | .validate packet target, s => ((), s.validate packet target)
  | .returnData firstData innerData publication, s =>
    ((), s.returnData firstData innerData publication)
  | .startValidation publication assembly expected, s =>
    s.startValidation publication assembly expected
  | .finishOne index failed, s => ((), s.finishOne index failed)

abbrev Handler := Program Call Call.Reply

open Program (forEach foldEach)

/-- The handler that makes one call. -/
abbrev perform (call : Call) : Handler call.Reply := Program.perform call

/-- A call that tells whether the publication was queued, or throws. -/
abbrev process (key : PublicationKey) : Handler (Result Bool) := perform (.processMapping key)

/-! ### Loops -/

/-- A loop over the numbers from `low` to `high`.  It does not end when `high` is the largest number
of 64 bits, since the counter never passes it. -/
def forSeqNos (low high : SeqNo) (f : SeqNo → Handler Unit) : Handler Unit :=
  if 2 ^ 64 ≤ high + 1 then .diverge else forEach f (List.range' low (high + 1 - low))

/-- The loop of `fetchAll` over the publications that are ready, while the window has room. -/
def fetchReady (window : Nat) : List PublicationKey → Nat → Handler Unit
  | [], _ => .ret ()
  | key :: ready, inFlight =>
    if window ≤ inFlight then .ret ()
    else (perform (.fetchNext key inFlight)).bind (fetchReady window ready)

def fetchAll : Handler Unit :=
  (perform .sweepFetches).bind fun (swept : List PublicationKey × Nat) =>
    fetchReady (max 1 cfg.publicationFetchWindow) swept.1 swept.2

def fetchAllIf (queued : Bool) : Handler Unit := if queued then fetchAll cfg else .ret ()

/-! ### Updates from the core -/

/-- A producer subscription fetches every publication of a stream. -/
def updateProducer (stream : MissingDataInfo) (sub : Subscription) : Handler Unit :=
  if sub.namePrefix.isPrefixOf stream.nodeId then do
    forSeqNos stream.low stream.high fun i =>
      perform (.addPublicationFetch ⟨stream.nodeId, stream.bootstrapTime, i⟩ sub)
    if sub.prefetch then
      perform (.prefetch ⟨stream.nodeId, stream.bootstrapTime, (stream.high + 1) % 2 ^ 64⟩)
    else .ret ()
  else .ret ()

/-- Processes the mappings that are known from `low` on, up to the first that is not.  The number
where it stopped.  The counter has 64 bits; `fuel` is more than its values. -/
def processKnown (stream : MissingDataInfo) : Nat → SeqNo → Handler SeqNo
  | 0, _ => .diverge
  | fuel + 1, low =>
    if stream.high < low then .ret low
    else (process ⟨stream.nodeId, stream.bootstrapTime, low⟩).bind fun
      | .error _ => .ret low
      | .ok _ => processKnown stream fuel ((low + 1) % 2 ^ 64)

/-- Asks for the mappings from `low` on, in ranges of eleven. -/
def queryRanges (stream : MissingDataInfo) : Nat → SeqNo → Handler Unit
  | 0, _ => .diverge
  | fuel + 1, low =>
    if stream.high < low then .ret ()
    else
      let high := if 10 < stream.high - low then low + 10 else stream.high
      (perform (.scheduleMappingFetch { stream with low, high } stream.nodeId)).bind fun _ =>
        queryRanges stream fuel ((low + 11) % 2 ^ 64)

/-- More rounds than a 64-bit counter has values. -/
def counterFuel : Nat := 2 ^ 64 + 1

def updateStream (s : Subscriber) (stream : MissingDataInfo) : Handler Unit := do
  forEach (updateProducer stream) s.producerSubscriptions
  if s.prefixSubscriptions ≠ [] ∨ s.regexSubscriptions ≠ [] then
    let low ← processKnown stream counterFuel stream.low
    queryRanges stream counterFuel low
  else .ret ()

/-- The handler of missing data.  The subscriptions stay as they are in `s` while it runs. -/
def updateCallbackInternal (s : Subscriber) (info : List MissingDataInfo) : Handler Unit := do
  forEach (updateStream s) info
  fetchAll cfg

/-! ### Replies to mapping queries -/

/-- Processes the mappings of a reply; an exception ends the loop. -/
def processReply (streamName : Name) : List MappingEntry → Bool → Handler (Result Bool)
  | [], queued => .ret (.ok queued)
  | entry :: entries, queued =>
    (process ⟨streamName, entry.bootstrapTime, entry.seqNo⟩).bind fun
      | .error e => .ret (.error e)
      | .ok q => processReply streamName entries (queued || q)

/-- Asks again for the ranges between the numbers that a reply returned. -/
def requeryGaps (requested : MissingDataInfo) (streamName : Name) (returned : List SeqNo)
    (requestedHigh : SeqNo) : List SeqNo → Option SeqNo → Handler Unit
  | [], none => .ret ()
  | [], some low =>
    (perform (.scheduleMappingFetch { requested with low, high := requestedHigh } streamName)).bind
      fun _ => .ret ()
  | seq :: seqs, missingLow =>
    if seq ∉ returned then
      requeryGaps requested streamName returned requestedHigh seqs (missingLow.orElse fun _ => seq)
    else
      match missingLow with
      | none => requeryGaps requested streamName returned requestedHigh seqs none
      | some low =>
        (perform (.scheduleMappingFetch { requested with low, high := seq - 1 } streamName)).bind
          fun _ => requeryGaps requested streamName returned requestedHigh seqs none

/-- The loop over the range of a query, which ends like `forSeqNos`. -/
def requery (requested : MissingDataInfo) (streamName : Name) (returned : List SeqNo)
    (requestedHigh : SeqNo) : Handler Unit :=
  if 2 ^ 64 ≤ requestedHigh + 1 then .diverge
  else
    requeryGaps requested streamName returned requestedHigh
      (List.range' requested.low (requestedHigh + 1 - requested.low)) none

def onFetchedNameMappings (requested : MissingDataInfo) (streamName : Name) (list : MappingList) :
    Handler Unit :=
  if list.pairs = [] then .ret ()
  else
    let requestedHigh := max requested.high requested.low
    let returned := (list.pairs.filter fun entry =>
      entry.bootstrapTime = requested.bootstrapTime ∧ requested.low ≤ entry.seqNo ∧
        entry.seqNo ≤ requestedHigh).map MappingEntry.seqNo
    (processReply streamName list.pairs false).bind fun
      | .error _ => .ret ()
      | .ok queued => do
        fetchAllIf cfg queued
        requery requested streamName returned requestedHigh

/-- The handler of the Data of a mapping query. -/
def onMappingData (request : MappingRequest) (data : Data) : Handler Unit :=
  match blockFromValue data.content with
  | none => .ret ()
  | some block =>
    match MappingList.decode block with
    | .error _ => .ret ()
    | .ok list => do
      forEach (fun entry => perform (.insertUnknownMapping
        ⟨request.query.nodeId, entry.bootstrapTime, entry.seqNo⟩ entry.mapping)) list.pairs
      perform (.markMappingFetchComplete request.key)
      onFetchedNameMappings cfg request.query request.streamName list

/-! ### Extension blocks -/

/-- Stores the mappings of a list, and gives their keys. -/
def insertMappings (list : MappingList) (received : List PublicationKey) :
    Handler (List PublicationKey) :=
  foldEach (fun received entry => do
    let key : PublicationKey := ⟨list.nodeId, entry.bootstrapTime, entry.seqNo⟩
    perform (.insertMapping key entry.mapping)
    .ret (received ++ [key])) received list.pairs

def enqueueRepairs (requests : List MissingDataInfo) : Handler Unit :=
  forEach (fun request => forSeqNos request.low request.high fun seq =>
    perform (.enqueueRepairPublication ⟨request.nodeId, request.bootstrapTime, seq⟩)) requests

/-- The loop over the children of a block, with the keys of the mappings so far.  An exception ends
it. -/
def receiveChildren : List Block → List PublicationKey → Handler (List PublicationKey)
  | [], received => .ret received
  | child :: children, received =>
    if child.type = tlv.mappingData then
      match MappingList.decode child with
      | .error _ => .ret received
      | .ok list => (insertMappings list received).bind (receiveChildren children)
    else if child.type = tlv.data then
      match cfg.pubSub.core.cxx.decodeData child with
      | none => .ret received
      | some data => do
        perform (.satisfyPendingFetch data)
        perform (.cachePiggyData data)
        receiveChildren children received
    else if child.type = tlv.repairData then
      match decodeRepairRequests child with
      | .error _ => .ret received
      | .ok requests => do
        enqueueRepairs (requests.map fun info => { info with high := max info.high info.low })
        receiveChildren children received
    else receiveChildren children received

/-- Processes the mappings that were received, whatever exceptions there are. -/
def processReceived (received : List PublicationKey) : Handler Bool :=
  foldEach (fun queued key => (process key).bind fun
    | .error _ => .ret queued
    | .ok q => .ret (queued || q)) false received

/-- The mappings of the list that a block is by itself. -/
def receiveList (block : Block) : Handler (List PublicationKey) :=
  match MappingList.decode block with
  | .error _ => .ret []
  | .ok list => insertMappings list []

def receiveElements (block : Block) (received : List PublicationKey) :
    Handler (List PublicationKey) :=
  match block.parse with
  | none => .ret received
  | some children => receiveChildren cfg children received

/-- The requests of a block of repair requests. -/
def topRepairs (block : Block) : Result (List MissingDataInfo) :=
  if block.type = tlv.repairData then decodeRepairRequests block else .ok []

/-- What is done with a block after its check.  The repair requests are read outside the handlers of
exceptions. -/
def commitExtension (block : Block) : Handler (Result Unit) :=
  (receiveList block).bind fun received =>
    match topRepairs block with
    | .error e => .ret (.error e)
    | .ok requests => do
      enqueueRepairs requests
      let received ← receiveElements cfg block received
      let queued ← processReceived received
      fetchAllIf cfg queued
      .ret (.ok ())

def onRecvExtraData (block : Block) : Handler (Result Unit) :=
  if ¬isKnownExtensionBlock block then .ret (.ok ())
  else
    match checkKnownBlock cfg.pubSub.core.cxx block with
    | .error _ => .ret (.ok ())
    | .ok () => commitExtension cfg block

/-- The blocks one after the other; an exception that leaves one ends the loop. -/
def receiveBlocks : List Block → Handler Unit
  | [] => .ret ()
  | block :: blocks => (onRecvExtraData cfg block).bind fun
    | .error _ => .ret ()
    | .ok () => receiveBlocks blocks

def onRecvExtraBlocks (blocks : List Block) : Handler Unit :=
  match checkCollection cfg.pubSub.core.cxx blocks with
  | .error _ => .ret ()
  | .ok () => receiveBlocks cfg blocks

/-! ### Fetched packets -/

def onSyncData (firstData : Data) (publication : PublicationKey) : Handler Unit :=
  if firstData.contentType ≠ tlv.data then perform (.markPublicationFetchFailed publication)
  else do
    perform (.observePublicationFetchSuccess publication)
    match firstData.innerBlock.bind cfg.pubSub.core.cxx.decodeData with
    | none => perform (.cleanUpFetch publication)
    | some innerData =>
      if cfg.encapsulatedDataValidator then
        perform (.validate innerData (.publication publication firstData))
      else perform (.returnData firstData innerData publication)

/-- Hands a segment to the validator, or counts it as valid when there is none. -/
def validateSegment (index : Nat) (packet : Data) : Handler Unit :=
  if cfg.encapsulatedDataValidator then perform (.validate packet (.segment index))
  else perform (.finishOne index false)

def validateSegments (publication : PublicationKey) (index : Nat) : List Block → Handler Unit
  | [] => .ret ()
  | block :: blocks =>
    match cfg.pubSub.core.cxx.decodeData block with
    | none => perform (.cleanUpFetch publication)
    | some packet => do
      validateSegment cfg index packet
      validateSegments publication index blocks

/-- The handler of the segments of a publication, nothing when the fetch has failed. -/
def onSegments (publication : PublicationKey) (content : Option Bytes) : Handler Unit :=
  match content.bind fun content => (⟨tlv.data, content⟩ : Block).parse with
  | none => perform (.cleanUpFetch publication)
  | some blocks =>
    match decodeInnerSegments cfg.pubSub.core.cxx blocks with
    | none => perform (.cleanUpFetch publication)
    | some assembly => do
      let index ← perform (.startValidation publication assembly blocks.length)
      validateSegments cfg publication index blocks

def onVerdict (validation : Validation) (accepted : Bool) : Handler Unit :=
  match validation.target with
  | .publication publication firstData =>
    if accepted then perform (.returnData firstData validation.packet publication)
    else perform (.cleanUpFetch publication)
  | .segment index => perform (.finishOne index (!accepted))

/-- The callback of the fetcher of publications. -/
def onDataOutcome : Option (FetchOutcome DataRequest) → Handler Unit
  | some (.satisfied (.publication key _) data) => onSyncData cfg data key
  | some (.nacked (.publication key _)) | some (.timedOut (.publication key _)) =>
    perform (.markPublicationFetchFailed key)
  | _ => .ret ()

/-- The callback of the fetcher of mappings. -/
def onMappingOutcome : Option (FetchOutcome MappingRequest) → Handler Unit
  | some (.satisfied request data) => onMappingData cfg request data
  | some (.nacked request) | some (.timedOut request) =>
    perform (.markMappingFetchFailed request.key)
  | _ => .ret ()

end Subscriber

/-! ### Events -/

inductive SubscriberEvent
  | subscribe (namePrefix : Name) (packets : Bool)
  | subscribeWithRegex (regex : String) (autofetch packets : Bool)
  | subscribeToProducer (nodePrefix : Name) (prefetch packets : Bool)
  | unsubscribe (handle : Nat)
  /-- The node's own publication gets its mapping. -/
  | publishMapping (nodeId : NodeID) (entry : MappingEntry)
  /-- The node's own packet goes along with the next Sync Interests. -/
  | publishData (data : Data)
  | update (info : List MissingDataInfo)
  | extraBlocks (blocks : List Block)
  | getExtraBlocks
  | dataFetcher (event : FetcherEvent)
  | mappingFetcher (event : FetcherEvent)
  | fetchTimer (index : Nat)
  | verdict (index : Nat) (accepted : Bool)
  | segments (index : Nat) (content : Option Bytes)

namespace Subscriber

variable (cfg : SubscriberConfig)

/-- The state when the handler of an event begins, and the handler.  Nothing when the event cannot
happen. -/
def begin (env : SubscribeInputs) (s : Subscriber) :
    SubscriberEvent → Option (Subscriber × Handler Unit)
  | .subscribe namePrefix packets => some (s.subscribe namePrefix packets, .ret ())
  | .subscribeWithRegex regex autofetch packets =>
    some (s.subscribeWithRegex regex autofetch packets, .ret ())
  | .subscribeToProducer nodePrefix prefetch packets =>
    some (s.subscribeToProducer nodePrefix prefetch packets, .ret ())
  | .unsubscribe handle => some (s.unsubscribe handle, .ret ())
  | .publishMapping nodeId entry =>
    some ({ s with extra := s.extra.pushMapping nodeId entry },
      perform (.insertMapping ⟨nodeId, entry.bootstrapTime, entry.seqNo⟩ entry.mapping))
  | .publishData data => some ({ s with extra := s.extra.pushData data }, .ret ())
  | .update info => some (s, updateCallbackInternal cfg s info)
  | .extraBlocks blocks => some (s, onRecvExtraBlocks cfg blocks)
  | .getExtraBlocks =>
    some ({ s with extra :=
      (s.extra.onGetExtraBlocks cfg.pubSub.core.cxx cfg.pubSub.extraData).2 }, .ret ())
  | .dataFetcher event =>
    (s.dataFetcher.step cfg.fetcher event).map fun (dataFetcher, outcome) =>
      ({ s with dataFetcher }, onDataOutcome cfg outcome)
  | .mappingFetcher event =>
    (s.mappingFetcher.step cfg.fetcher event).map fun (mappingFetcher, outcome) =>
      ({ s with mappingFetcher }, onMappingOutcome cfg outcome)
  | .fetchTimer index =>
    (s.timers[index]?).bind fun due =>
      if due ≤ env.steadyNow then
        some ({ s with timers := s.timers.eraseIdx index }, fetchAll cfg)
      else none
  | .verdict index accepted =>
    (s.validations[index]?).map fun validation =>
      ({ s with validations := s.validations.eraseIdx index
                accepted := s.accepted ++ if accepted then [validation.packet] else [] },
        onVerdict validation accepted)
  | .segments index content =>
    (s.segmentFetches[index]?).map fun publication =>
      ({ s with segmentFetches := s.segmentFetches.eraseIdx index },
        onSegments cfg publication content)

/-- An event with its inputs.  The steady clock does not go back. -/
def step (s : Subscriber) (e : SubscriberEvent × SubscribeInputs) : Option Subscriber :=
  if s.steadyNow ≤ e.2.steadyNow then
    (begin cfg e.2 { s with steadyNow := e.2.steadyNow } e.1).bind fun (s, handler) =>
      (handler.exec (act cfg e.2) s).map Prod.snd
  else none

/-- The subscribing side when it is made. -/
def initial : Subscriber where
  subscriptionCount := cfg.subscriptionCount
  mappingFetcher := Fetcher.setWindowSize {} cfg.mappingFetchWindow
  dataFetcher := Fetcher.setWindowSize {} cfg.publicationFetchWindow

end Subscriber

end NdnSvs
