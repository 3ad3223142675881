import Mathlib.Data.List.Sort
import NdnSvs.Extensions
import NdnSvs.Fetcher
import NdnSvs.Lib.Fifo
import NdnSvs.Lib.Programs
import NdnSvs.Segmentation

/-! The subscribing side of the pub/sub layer: subscriptions, the mappings of publications to names,
the scheduler of publication fetches, packets that ride on Sync Interests, and the validation and
reassembly of fetched packets.  A handler is a program of calls; each call is a function of the
state. -/

namespace NdnSvs

open Lib Lib.Tlv Std

/-! ### Keys -/

structure PublicationKey where
  nodeId : NodeID
  bootstrapTime : BootstrapTime
  seqNo : SeqNo
deriving DecidableEq

structure ProducerSessionKey where
  nodeId : NodeID
  bootstrapTime : BootstrapTime
deriving DecidableEq

structure MappingFetchKey where
  nodeId : NodeID
  bootstrapTime : BootstrapTime
  low : SeqNo
  high : SeqNo
deriving DecidableEq

namespace PublicationKey

instance : Ord PublicationKey :=
  ⟨compareLex (compareOn nodeId) (compareLex (compareOn bootstrapTime) (compareOn seqNo))⟩

instance : TransOrd PublicationKey :=
  inferInstanceAs (TransCmp
    (compareLex (compareOn nodeId) (compareLex (compareOn bootstrapTime) (compareOn seqNo))))

instance : LawfulEqOrd PublicationKey where
  eq_of_compare := by
    rintro ⟨na, ba, sa⟩ ⟨nb, bb, sb⟩ h
    simp only [compare, compareLex, compareOn, Ordering.then_eq_eq] at h
    obtain rfl : na = nb := LawfulEqOrd.eq_of_compare h.1
    obtain rfl : ba = bb := LawfulEqOrd.eq_of_compare h.2.1
    obtain rfl : sa = sb := LawfulEqOrd.eq_of_compare h.2.2
    rfl

def session (key : PublicationKey) : ProducerSessionKey := ⟨key.nodeId, key.bootstrapTime⟩

end PublicationKey

namespace ProducerSessionKey

instance : Ord ProducerSessionKey := ⟨compareLex (compareOn nodeId) (compareOn bootstrapTime)⟩

instance : TransOrd ProducerSessionKey :=
  inferInstanceAs (TransCmp (compareLex (compareOn nodeId) (compareOn bootstrapTime)))

instance : LawfulEqOrd ProducerSessionKey where
  eq_of_compare := by
    rintro ⟨na, ba⟩ ⟨nb, bb⟩ h
    simp only [compare, compareLex, compareOn, Ordering.then_eq_eq] at h
    obtain rfl : na = nb := LawfulEqOrd.eq_of_compare h.1
    obtain rfl : ba = bb := LawfulEqOrd.eq_of_compare h.2
    rfl

end ProducerSessionKey

namespace MappingFetchKey

instance : Ord MappingFetchKey :=
  ⟨compareLex (compareOn nodeId) (compareLex (compareOn bootstrapTime)
    (compareLex (compareOn low) (compareOn high)))⟩

instance : TransOrd MappingFetchKey :=
  inferInstanceAs (TransCmp (compareLex (compareOn nodeId) (compareLex (compareOn bootstrapTime)
    (compareLex (compareOn low) (compareOn high)))))

instance : LawfulEqOrd MappingFetchKey where
  eq_of_compare := by
    rintro ⟨na, ba, la, ha⟩ ⟨nb, bb, lb, hb⟩ h
    simp only [compare, compareLex, compareOn, Ordering.then_eq_eq] at h
    obtain rfl : na = nb := LawfulEqOrd.eq_of_compare h.1
    obtain rfl : ba = bb := LawfulEqOrd.eq_of_compare h.2.1
    obtain rfl : la = lb := LawfulEqOrd.eq_of_compare h.2.2.1
    obtain rfl : ha = hb := LawfulEqOrd.eq_of_compare h.2.2.2
    rfl

end MappingFetchKey

/-! ### Data -/

/-- What stays fixed over the life of the subscribing side.  Durations are in milliseconds. -/
structure SubscriberConfig where
  pubSub : PubSubConfig
  maxPubAge : Int := 0
  piggyDataCacheLimit : Nat := 1024
  mappingFetchRetries : Int := 0
  mappingFetchFailureBackoff : Int := 200
  mappingFetchWindow : Nat := 10
  publicationFetchRetries : Int := 2
  publicationFetchInnerRetries : Int := 2
  publicationFetchInterestLifetime : Int := 500
  publicationFetchMinInterestLifetime : Int := 250
  publicationFetchMaxInterestLifetime : Int := 2000
  publicationFetchFailureBackoff : Int := 50
  publicationFetchMaxBackoff : Int := 2000
  publicationFetchWindow : Nat := 10
  fetcher : FetcherOptions := {}
  encapsulatedDataValidator : Bool := false
  /-- What the count of subscriptions starts with: the source gives it no value. -/
  subscriptionCount : Nat := 0
  /-- Whether a pattern matches a name. -/
  regexMatch : String → Name → Bool := fun _ _ => false

/-- What an event gets from outside. -/
structure SubscribeInputs where
  /-- The steady clock, in nanoseconds. -/
  steadyNow : Int := 0
  /-- The system clock, in nanoseconds. -/
  systemNow : Int := 0
  /-- The packet that the Data store finds under a name or as one that extends it. -/
  findData : Name → Option Data := fun _ => none

structure Subscription where
  id : Nat
  /-- The callback, by the number of the call, from 0, that subscribed it. -/
  callback : Nat
  /-- The name prefix, or that of the producer. -/
  namePrefix : Name := []
  isPacketSubscription : Bool := false
  prefetch : Bool := false
  autofetch : Bool := true
  regex : String := "^<>+$"
deriving DecidableEq

/-- What a subscription's callback is called with. -/
structure SubscriptionData where
  name : Name
  data : Bytes := []
  producerPrefix : Name
  seqNo : SeqNo
  packet : Option Data := none
deriving DecidableEq

/-- A call of a subscription's callback. -/
structure Invocation where
  callback : Nat
  publication : PublicationKey
  data : SubscriptionData
  /-- Whether it delivers the publication, and not only its name. -/
  hasPayload : Bool := true
deriving DecidableEq

inductive PublicationFetchStatus
  | queued
  | fetching
  | backoff
  | delivered
  | expired
deriving DecidableEq

/-- Time points are in nanoseconds of the steady clock, durations in milliseconds. -/
structure PublicationFetchState where
  status : PublicationFetchStatus := .queued
  attempts : Nat := 0
  firstQueued : Int := 0
  deadline : Int := 0
  nextAttempt : Int := 0
  attemptStarted : Int := 0
  currentLifetime : Int := 0
  currentBackoff : Int := 0
deriving DecidableEq

/-- A request to the fetcher of publication packets, with the lifetime of its Interest. -/
inductive DataRequest
  | publication (key : PublicationKey) (lifetime : Int)
  | prefetch (key : PublicationKey)
deriving DecidableEq

/-- A request to the fetcher of mappings. -/
structure MappingRequest where
  query : MissingDataInfo
  streamName : Name
  key : MappingFetchKey
deriving DecidableEq

inductive ValidationTarget
  | publication (key : PublicationKey) (firstData : Data)
  | segment (assembly : Nat)
deriving DecidableEq

/-- A packet that the validator of encapsulated packets has, and what waits for its verdict. -/
structure Validation where
  packet : Data
  target : ValidationTarget
deriving DecidableEq

/-- The validations of the segments of a publication. -/
structure ValidationState where
  publication : PublicationKey
  name : Name
  payload : Bytes
  completed : Nat := 0
  failed : Nat := 0
  expected : Nat
  terminal : Bool := false
deriving DecidableEq

structure Subscriber where
  /-- The last handle given out, of 32 bits. -/
  subscriptionCount : Nat := 0
  /-- The number of callbacks that have been subscribed. -/
  callbacks : Nat := 0
  producerSubscriptions : List Subscription := []
  prefixSubscriptions : List Subscription := []
  regexSubscriptions : List Subscription := []
  mappings : Map Name MappingEntryPair := ∅
  mappingFetcher : Fetcher MappingRequest := {}
  dataFetcher : Fetcher DataRequest := {}
  fetchMap : Map PublicationKey (List Subscription) := ∅
  publicationFetchStates : Map PublicationKey PublicationFetchState := ∅
  publicationLifetimeEstimates : Map ProducerSessionKey Int := ∅
  mappingFetchInFlight : Map MappingFetchKey Bool := ∅
  mappingFetchSuppressUntil : Map MappingFetchKey Int := ∅
  extra : ExtraData := {}
  piggyDataCache : Fifo Name Data := .empty
  piggyDeliveredPublications : Fifo PublicationKey Bool := .empty
  /-- When the calls of `fetchAll` are due that have been scheduled. -/
  timers : List Int := []
  validations : List Validation := []
  segmentFetches : List PublicationKey := []
  assemblies : List ValidationState := []
  /-- The last reading of the steady clock. -/
  steadyNow : Int := 0
  /-- The packets that the validator of encapsulated packets has accepted. -/
  accepted : List Data := []
  invoked : List Invocation := []

namespace Subscriber

/-- The number of publications that are remembered after a delivery from the cache. -/
def piggyDeliveredPublicationLimit : Nat := 4096

def clampDuration (value lower upper : Int) : Int := min (max value lower) upper

/-- The nanoseconds of a duration. -/
def toStdDuration (milliseconds : Int) : Int := milliseconds * 1000000

def toNdnDuration (nanoseconds : Int) : Int := nanoseconds.tdiv 1000000

variable (cfg : SubscriberConfig) (env : SubscribeInputs)

def clampLifetime (lifetime : Int) : Int :=
  clampDuration lifetime cfg.publicationFetchMinInterestLifetime
    cfg.publicationFetchMaxInterestLifetime

/-! ### Subscriptions -/

/-- The handle of the next subscription. -/
def nextHandle (s : Subscriber) : Nat := (s.subscriptionCount + 1) % 2 ^ 32

def subscribe (s : Subscriber) (namePrefix : Name) (packets : Bool) : Subscriber :=
  { s with
    subscriptionCount := s.nextHandle
    callbacks := s.callbacks + 1
    prefixSubscriptions := s.prefixSubscriptions ++
      [{ id := s.nextHandle, callback := s.callbacks, namePrefix
         isPacketSubscription := packets }] }

def subscribeWithRegex (s : Subscriber) (regex : String) (autofetch packets : Bool) : Subscriber :=
  { s with
    subscriptionCount := s.nextHandle
    callbacks := s.callbacks + 1
    regexSubscriptions := s.regexSubscriptions ++
      [{ id := s.nextHandle, callback := s.callbacks, isPacketSubscription := packets, autofetch
         regex }] }

def subscribeToProducer (s : Subscriber) (nodePrefix : Name) (prefetch packets : Bool) :
    Subscriber :=
  { s with
    subscriptionCount := s.nextHandle
    callbacks := s.callbacks + 1
    producerSubscriptions := s.producerSubscriptions ++
      [{ id := s.nextHandle, callback := s.callbacks, namePrefix := nodePrefix
         isPacketSubscription := packets, prefetch }] }

def unsubscribe (s : Subscriber) (handle : Nat) : Subscriber :=
  let unsub (subs : List Subscription) := subs.eraseP fun sub => sub.id = handle
  { s with
    producerSubscriptions := unsub s.producerSubscriptions
    prefixSubscriptions := unsub s.prefixSubscriptions
    regexSubscriptions := unsub s.regexSubscriptions }

/-- The prefix and regex subscriptions that a name matches. -/
def matching (s : Subscriber) (name : Name) : List Subscription :=
  (s.prefixSubscriptions.filter fun sub => sub.namePrefix.isPrefixOf name) ++
    s.regexSubscriptions.filter fun sub => cfg.regexMatch sub.regex name

/-- A callback returns, and calls nothing of the object that calls it. -/
def invoke (s : Subscriber) (publication : PublicationKey) (data : SubscriptionData)
    (hasPayload : Bool) (sub : Subscription) : Subscriber :=
  { s with invoked := s.invoked ++ [{ callback := sub.callback, publication, data, hasPayload }] }

/-- Calls the callbacks of the subscriptions in turn. -/
def invokeAll (s : Subscriber) (publication : PublicationKey) (data : SubscriptionData)
    (subs : List Subscription) : Subscriber :=
  subs.foldl (fun s sub => s.invoke publication data true sub) s

/-! ### Mappings and packets that came along -/

def getMapping (s : Subscriber) (key : PublicationKey) : Option MappingEntryPair :=
  s.mappings[makeMappingKey key.nodeId key.bootstrapTime key.seqNo]?

def insertMapping (s : Subscriber) (key : PublicationKey) (entry : MappingEntryPair) :
    Subscriber :=
  { s with
    mappings := s.mappings.insert (makeMappingKey key.nodeId key.bootstrapTime key.seqNo) entry }

/-- The packet in the cache under the name, or else the first one under a name that extends it. -/
def piggyPacket (s : Subscriber) (name : Name) : Option Data :=
  match s.piggyDataCache.entries[name]? with
  | some packet => some packet
  | none =>
    match s.piggyDataCache.entries.lowerBound name with
    | none => none
    | some (cached, packet) => if name.isPrefixOf cached then some packet else none

/-- A received packet is cached under its name and under its full name. -/
def cachePiggyData (s : Subscriber) (data : Data) : Subscriber :=
  let cache := (s.piggyDataCache.insert data.name data).insert
    (data.fullName cfg.pubSub.core.cxx) data
  { s with piggyDataCache := cache.evict (max 1 cfg.piggyDataCacheLimit) }

def hasPiggyDeliveredPublication (s : Subscriber) (key : PublicationKey) : Bool :=
  key ∈ s.piggyDeliveredPublications.entries

def rememberPiggyDeliveredPublication (s : Subscriber) (key : PublicationKey) : Subscriber :=
  { s with
    piggyDeliveredPublications :=
      (s.piggyDeliveredPublications.insert key true).evict piggyDeliveredPublicationLimit }

def cleanUpFetch (s : Subscriber) (key : PublicationKey) : Subscriber :=
  { s with
    fetchMap := s.fetchMap.erase key
    publicationFetchStates := s.publicationFetchStates.erase key }

/-! ### The scheduler of publication fetches -/

/-- The state of a publication that has just been queued. -/
def PublicationFetchState.start (state : PublicationFetchState) (lifetime : Int) :
    PublicationFetchState :=
  { state with
    status := .queued
    firstQueued := env.steadyNow
    deadline := env.steadyNow + toStdDuration (if 0 < cfg.maxPubAge then cfg.maxPubAge else 30000)
    nextAttempt := env.steadyNow
    currentLifetime := clampLifetime cfg lifetime
    currentBackoff := cfg.publicationFetchFailureBackoff }

def addPublicationFetch (s : Subscriber) (key : PublicationKey) (sub : Subscription) :
    Subscriber :=
  let state := (s.publicationFetchStates[key]?).getD {}
  let estimate := (s.publicationLifetimeEstimates[key.session]?).getD 0
  let lifetime := if 0 < estimate then estimate else cfg.publicationFetchInterestLifetime
  { s with
    fetchMap := s.fetchMap.insert key ((s.fetchMap[key]?).getD [] ++ [sub])
    publicationFetchStates := s.publicationFetchStates.insert key
      (if state.firstQueued = 0 then PublicationFetchState.start cfg env state lifetime
       else state) }

/-- A publication that could not be fetched is repaired through Sync Interests. -/
def rememberRepairRequest (s : Subscriber) (key : PublicationKey) : Subscriber :=
  let queue := s.extra.repairRequestQueue
  if queue.any fun entry => entry.item.nodeId = key.nodeId ∧
      entry.item.bootstrapTime = key.bootstrapTime ∧ entry.item.low = key.seqNo ∧
      entry.item.high = key.seqNo then s
  else
    let info : MissingDataInfo := { nodeId := key.nodeId, bootstrapTime := key.bootstrapTime,
                                    low := key.seqNo, high := key.seqNo }
    { s with extra := { s.extra with repairRequestQueue := queue ++ [{ item := info }] } }

/-- The state of a publication that is to be tried again. -/
def PublicationFetchState.backOff (state : PublicationFetchState) : PublicationFetchState :=
  let backoff := if state.currentBackoff ≤ 0 then cfg.publicationFetchFailureBackoff
    else state.currentBackoff
  { state with
    status := .backoff
    nextAttempt := env.steadyNow + toStdDuration backoff
    currentLifetime := clampLifetime cfg (state.currentLifetime * 2)
    currentBackoff := clampDuration (backoff * 2) cfg.publicationFetchFailureBackoff
      cfg.publicationFetchMaxBackoff }

/-- The tries of a publication are used up, or it is too old. -/
def PublicationFetchState.isExhausted (state : PublicationFetchState) : Bool :=
  (0 ≤ cfg.publicationFetchRetries ∧ cfg.publicationFetchRetries.toNat < state.attempts) ∨
    state.deadline ≤ env.steadyNow

def markPublicationFetchFailed (s : Subscriber) (key : PublicationKey) : Subscriber :=
  match s.fetchMap[key]?, s.publicationFetchStates[key]? with
  | some _, some state =>
    if PublicationFetchState.isExhausted cfg env state then s.cleanUpFetch key
    else
      let s := s.rememberRepairRequest key
      let state := PublicationFetchState.backOff cfg env state
      { s with
        publicationFetchStates := s.publicationFetchStates.insert key state
        publicationLifetimeEstimates :=
          s.publicationLifetimeEstimates.insert key.session state.currentLifetime
        timers := s.timers ++ [env.steadyNow +
          toStdDuration (toNdnDuration (state.nextAttempt - env.steadyNow))] }
  | _, _ => s

/-- The lifetime of Interests after a fetch that took from `attemptStarted` until now. -/
def observedLifetime (s : Subscriber) (key : PublicationKey) (attemptStarted : Int) : Int :=
  let rtt := toNdnDuration (env.steadyNow - attemptStarted)
  let target := clampLifetime cfg ((if rtt ≤ 0 then 1 else rtt) * 2)
  let estimate := (s.publicationLifetimeEstimates[key.session]?).getD 0
  if estimate ≤ 0 then target else clampLifetime cfg ((estimate + target).tdiv 2)

def observePublicationFetchSuccess (s : Subscriber) (key : PublicationKey) : Subscriber :=
  match s.publicationFetchStates[key]? with
  | none => s
  | some state =>
    if state.attemptStarted = 0 then
      { s with
        publicationFetchStates :=
          s.publicationFetchStates.insert key { state with status := .delivered } }
    else
      let lifetime := s.observedLifetime cfg env key state.attemptStarted
      { s with
        publicationFetchStates := s.publicationFetchStates.insert key
          { state with currentLifetime := lifetime, status := .delivered }
        publicationLifetimeEstimates :=
          s.publicationLifetimeEstimates.insert key.session lifetime }

/-- The first pass of `fetchAll`: the states, the number of fetches in flight, and the publications
that are ready, in the order of the fetch map. -/
structure Sweep where
  states : Map PublicationKey PublicationFetchState
  inFlight : Nat := 0
  ready : List PublicationKey := []

def sweepKey (sweep : Sweep) (key : PublicationKey) : Sweep :=
  let state := (sweep.states[key]?).getD {}
  let state := if state.firstQueued = 0 then
      PublicationFetchState.start cfg env state cfg.publicationFetchInterestLifetime
    else state
  let keep := sweep.states.insert key state
  match state.status with
  | .fetching => { sweep with states := keep, inFlight := sweep.inFlight + 1 }
  | .delivered | .expired => { sweep with states := keep }
  | .queued | .backoff =>
    if state.deadline ≤ env.steadyNow then
      { sweep with states := sweep.states.insert key { state with status := .expired } }
    else if state.nextAttempt ≤ env.steadyNow then
      { sweep with states := keep, ready := sweep.ready ++ [key] }
    else { sweep with states := keep }

/-- Fewer attempts first, then the later epoch, then the larger number. -/
def isBefore (states : Map PublicationKey PublicationFetchState) (lhs rhs : PublicationKey) :
    Bool :=
  let attempts (key : PublicationKey) := ((states[key]?).getD {}).attempts
  if attempts lhs ≠ attempts rhs then attempts lhs < attempts rhs
  else if lhs.bootstrapTime ≠ rhs.bootstrapTime then lhs.bootstrapTime > rhs.bootstrapTime
  else lhs.seqNo > rhs.seqNo

/-- The passes of `fetchAll` before its loop: what is ready in the order to be fetched, and how many
fetches are in flight. -/
def sweepFetches (s : Subscriber) : (List PublicationKey × Nat) × Subscriber :=
  let sweep := (s.fetchMap.toList.map Prod.fst).foldl (sweepKey cfg env)
    { states := s.publicationFetchStates }
  let expired := (sweep.states.toList.filter fun (key, state) =>
    state.status = .expired ∧ key ∈ s.fetchMap).map Prod.fst
  let states := expired.foldl (fun states key => states.erase key) sweep.states
  let fetchMap := expired.foldl (fun fetchMap key => fetchMap.erase key) s.fetchMap
  ((sweep.ready.insertionSort fun lhs rhs => ¬isBefore states rhs lhs, sweep.inFlight),
    { s with fetchMap, publicationFetchStates := states })

def startFetch (s : Subscriber) (key : PublicationKey) (state : PublicationFetchState) :
    Subscriber :=
  let lifetime := clampLifetime cfg state.currentLifetime
  { s with
    publicationFetchStates := s.publicationFetchStates.insert key
      { state with status := .fetching, attemptStarted := env.steadyNow,
                   currentLifetime := lifetime, attempts := state.attempts + 1 }
    dataFetcher := s.dataFetcher.expressInterest cfg.fetcher (.publication key lifetime)
      cfg.publicationFetchInnerRetries }

/-- Delivers a packet of the cache to the subscriptions that wait for the publication. -/
def deliverCached (s : Subscriber) (key : PublicationKey) (name : Name) (packet : Data) :
    Subscriber :=
  let s := s.invokeAll key { name, data := packet.content, producerPrefix := key.nodeId,
                             seqNo := key.seqNo, packet := some packet }
    ((s.fetchMap[key]?).getD [])
  ((s.rememberPiggyDeliveredPublication key).observePublicationFetchSuccess cfg env
    key).cleanUpFetch key

/-- One round of the loop of `fetchAll`, and the number of fetches in flight after it. -/
def fetchNext (s : Subscriber) (key : PublicationKey) (inFlight : Nat) : Nat × Subscriber :=
  match s.fetchMap[key]?, s.publicationFetchStates[key]? with
  | some _, some state =>
    if state.status = .fetching ∨ env.steadyNow < state.nextAttempt then (inFlight, s)
    else
      match s.getMapping key with
      | none => (inFlight + 1, s.startFetch cfg env key state)
      | some mapping =>
        match s.piggyPacket mapping.name with
        | none => (inFlight + 1, s.startFetch cfg env key state)
        | some packet => (inFlight, s.deliverCached cfg env key mapping.name packet)
  | _, _ => (inFlight, s)

/-! ### Mappings that become known -/

/-- The publication is older than the configured age by one of the timestamps of its mapping. -/
def isTooOld (additional : List Block) : Result Bool :=
  match additional with
  | [] => .ok false
  | block :: rest => do
    let component ← orMalformed (Component.ofBlock block)
    if component.isTimestamp ∧
        toStdDuration cfg.maxPubAge < env.systemNow - component.toTimestamp then .ok true
    else isTooOld rest

/-- The state of the loop over the subscriptions that match a mapping. -/
structure Processing where
  subscriber : Subscriber
  queued : Bool := false
  deliveredFromPiggy : Bool := false

def queueOrDeliver (key : PublicationKey) (name : Name) (p : Processing) (sub : Subscription) :
    Processing :=
  let s := p.subscriber
  let data : SubscriptionData := { name, producerPrefix := key.nodeId, seqNo := key.seqNo }
  if sub.autofetch then
    match s.piggyPacket name with
    | some packet =>
      { p with
        subscriber :=
          s.invoke key { data with data := packet.content, packet := some packet } true sub
        deliveredFromPiggy := true }
    | none => { p with subscriber := s.addPublicationFetch cfg env key sub, queued := true }
  else { p with subscriber := s.invoke key data false sub }

/-- Queues a publication whose mapping is known for the subscriptions that match, or delivers it
from the cache.  Whether it was queued. -/
def processMapping (s : Subscriber) (key : PublicationKey) : Result Bool × Subscriber :=
  if s.hasPiggyDeliveredPublication key then (.ok false, s)
  else
    match s.getMapping key with
    | none => (.error (.logicError "map::at"), s)
    | some mapping =>
      match if 0 < cfg.maxPubAge then isTooOld cfg env mapping.additional else .ok false with
      | .error e => (.error e, s)
      | .ok true => (.ok false, s)
      | .ok false =>
        let p := (s.matching cfg mapping.name).foldl (queueOrDeliver cfg env key mapping.name)
          { subscriber := s }
        (.ok p.queued, if p.deliveredFromPiggy then
          p.subscriber.rememberPiggyDeliveredPublication key else p.subscriber)

/-- A received packet ends the fetches of the publications that are mapped to its name. -/
def satisfyPendingFetchFromPiggyData (s : Subscriber) (data : Data) : Subscriber :=
  let ready := s.fetchMap.toList.filter fun (key, _) =>
    (s.getMapping key).any fun mapping => mapping.name = data.name
  ready.foldl (fun s (key, subs) =>
    ((s.invokeAll key { name := data.name, data := data.content, producerPrefix := key.nodeId,
                        seqNo := key.seqNo, packet := some data }
      subs).rememberPiggyDeliveredPublication key).cleanUpFetch key) s

/-- Answers a repair request: the mapping and the packet go along with the next Sync Interests. -/
def enqueueRepairPublication (s : Subscriber) (key : PublicationKey) : Subscriber :=
  match s.getMapping key with
  | none => s
  | some mapping =>
    let entry : MappingEntry := { bootstrapTime := key.bootstrapTime, seqNo := key.seqNo, mapping }
    let extra := { s.extra with
      piggyMappingQueue := s.extra.piggyMappingQueue ++ [{ item := (key.nodeId, entry) }] }
    let packet := do
      let outer ← env.findData
        (makeDataName cfg.pubSub key.nodeId key.bootstrapTime key.seqNo)
      guard (outer.contentType = tlv.data)
      let inner ← (← outer.innerBlock |>.map cfg.pubSub.core.cxx.decodeData)
      guard ((cfg.pubSub.core.cxx.dataWire inner).size ≤ cfg.pubSub.extraData.maxPiggyData)
      some inner
    { s with extra := match packet with
                | none => extra
                | some inner => extra.pushData inner }

end Subscriber

end NdnSvs
