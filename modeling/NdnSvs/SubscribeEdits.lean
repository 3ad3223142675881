import Mathlib.Logic.Relation
import NdnSvs.SubscribeEvents

/-! The calls of the subscribing side as sequences of small changes.  Each change says what it rests
on: which packet a subscription is called with, and why a publication waits or no longer does. -/

namespace NdnSvs

open Lib Lib.Tlv Std

/-- The verdict on a segment is counted. -/
def ValidationState.count (state : ValidationState) (failed : Bool) : ValidationState :=
  { state with
    completed := state.completed + 1
    failed := state.failed + failed.toNat
    terminal := state.completed + 1 = state.expected }

namespace Subscriber

/-- The calls that do something to the mappings or to the queries for them. -/
def Call.IsMapping : Call → Prop
  | .scheduleMappingFetch _ _ | .markMappingFetchComplete _ | .markMappingFetchFailed _
  | .insertMapping _ _ | .insertUnknownMapping _ _ => True
  | _ => False

/-- The state has a mapping for the publication. -/
def Knows (key : PublicationKey) (s : Subscriber) : Prop := (s.getMapping key).isSome

/-- A publication that has not been delivered from the packets that came along is mapped to a name
that the subscription matches. -/
structure Matches (cfg : SubscriberConfig) (s : Subscriber) (key : PublicationKey)
    (mapping : MappingEntryPair) (sub : Subscription) : Prop where
  fresh : ¬s.hasPiggyDeliveredPublication key
  known : s.getMapping key = some mapping
  mem : sub ∈ s.matching cfg mapping.name

/-- What a subscription is called with for a packet that brings a publication. -/
def packetData (name : Name) (key : PublicationKey) (packet : Data) : SubscriptionData :=
  { name, data := packet.content, producerPrefix := key.nodeId, seqNo := key.seqNo,
    packet := some packet }

/-- Why a call hands a publication to subscriptions that wait for it, and which ones it is for. -/
inductive Hands (s : Subscriber) (key : PublicationKey) :
    Call → SubscriptionData → (Subscription → Bool) → Prop
  /-- A packet came along under the name of the publication. -/
  | piggyback (data : Data) (mapping : MappingEntryPair) (hmapping : s.getMapping key = some mapping)
      (hname : mapping.name = data.name) :
    Hands s key (.satisfyPendingFetch data) (packetData data.name key data) fun _ => true
  /-- The packet is in the cache when the publication is about to be fetched. -/
  | cached (inFlight : Nat) (mapping : MappingEntryPair) (packet : Data)
      (hmapping : s.getMapping key = some mapping)
      (hpacket : s.piggyPacket mapping.name = some packet) :
    Hands s key (.fetchNext key inFlight) (packetData mapping.name key packet) fun _ => true
  /-- The packet was fetched. -/
  | fetched (firstData innerData : Data) :
    Hands s key (.returnData firstData innerData key) (packetData innerData.name key innerData)
      fun sub => sub.isPacketSubscription || !innerData.finalBlock.isSome
  /-- The segments were fetched, and this is the last verdict on them. -/
  | assembled (index : Nat) (failed : Bool) (state : ValidationState)
      (hstate : s.assemblies[index]? = some state) (hterminal : state.terminal = false)
      (hkey : state.publication = key) (hcompleted : state.completed + 1 = state.expected)
      (hfailed : (state.count failed).failed = 0) :
    Hands s key (.finishOne index failed)
      { name := state.name, data := state.payload, producerPrefix := key.nodeId,
        seqNo := key.seqNo } fun sub => !sub.isPacketSubscription

variable (cfg : SubscriberConfig) (env : SubscribeInputs)

/-- The changes that a call on `s₀` is made of.  What they rest on was there when the call was
made. -/
inductive Edit (call : Call) (s₀ s : Subscriber) : Subscriber → Prop
  /-- A producer subscription comes to wait for a publication. -/
  | subscribed (key : PublicationKey) (sub : Subscription)
      (hcall : call = .addPublicationFetch key sub) :
    Edit call s₀ s (s.addPublicationFetch cfg env key sub)
  /-- A subscription that a mapping matches comes to wait for the publication. -/
  | queued (key : PublicationKey) (mapping : MappingEntryPair) (sub : Subscription)
      (hcall : call = .processMapping key) (hmatches : Matches cfg s₀ key mapping sub)
      (hautofetch : sub.autofetch) (hpacket : s₀.piggyPacket mapping.name = none) :
    Edit call s₀ s (s.addPublicationFetch cfg env key sub)
  /-- A subscription is called with the packet in the cache. -/
  | given (key : PublicationKey) (mapping : MappingEntryPair) (sub : Subscription) (packet : Data)
      (hcall : call = .processMapping key) (hmatches : Matches cfg s₀ key mapping sub)
      (hautofetch : sub.autofetch) (hpacket : s₀.piggyPacket mapping.name = some packet) :
    Edit call s₀ s (s.invoke key (packetData mapping.name key packet) true sub)
  /-- A subscription is called with the name alone. -/
  | announced (key : PublicationKey) (mapping : MappingEntryPair) (sub : Subscription)
      (hcall : call = .processMapping key) (hmatches : Matches cfg s₀ key mapping sub)
      (hautofetch : ¬sub.autofetch) :
    Edit call s₀ s (s.invoke key { name := mapping.name, producerPrefix := key.nodeId,
                                   seqNo := key.seqNo } false sub)
  | remembered (key : PublicationKey) (hknows : Knows key s₀) :
    Edit call s₀ s (s.rememberPiggyDeliveredPublication key)
  /-- The subscriptions that wait for a publication get it, and it is no longer fetched. -/
  | delivered (key : PublicationKey) (subs : List Subscription)
      (hwaiting : s₀.fetchMap[key]? = some subs) (hsubs : s.fetchMap[key]? = some subs)
      (data : SubscriptionData) (wanted : Subscription → Bool)
      (hhands : Hands s₀ key call data wanted) :
    Edit call s₀ s ((s.invokeAll key data (subs.filter wanted)).cleanUpFetch key)
  /-- The packet subscriptions get the first segment, and the segments are fetched for the
  others. -/
  | divided (key : PublicationKey) (subs : List Subscription) (hstart : s = s₀)
      (hsubs : s.fetchMap[key]? = some subs) (firstData innerData : Data)
      (hcall : call = .returnData firstData innerData key)
      (hwanted : subs.any fun sub => !sub.isPacketSubscription)
      (hfinal : innerData.finalBlock.isSome) :
    Edit call s₀ s
      { s.invokeAll key (packetData innerData.name key innerData)
          (subs.filter fun sub => sub.isPacketSubscription || !innerData.finalBlock.isSome) with
        segmentFetches := s.segmentFetches ++ [key] }
  /-- The fetch of a publication ends without it. -/
  | dropped (key : PublicationKey) : Edit call s₀ s (s.cleanUpFetch key)
  | swept (hcall : call = .sweepFetches) (hstart : s = s₀) :
    Edit call s₀ s (s.sweepFetches cfg env).2
  | started (key : PublicationKey) (state : PublicationFetchState) (inFlight : Nat)
      (hcall : call = .fetchNext key inFlight) (hstart : s = s₀) (hkey : key ∈ s.fetchMap)
      (hstate : s.publicationFetchStates[key]? = some state) (hstatus : state.status ≠ .fetching)
      (htime : state.nextAttempt ≤ env.steadyNow) :
    Edit call s₀ s (s.startFetch cfg env key state)
  /-- A fetch fails and is tried again. -/
  | failed (key : PublicationKey) (state : PublicationFetchState)
      (hcall : call = .markPublicationFetchFailed key) (hstart : s = s₀) (hkey : key ∈ s.fetchMap)
      (hstate : s.publicationFetchStates[key]? = some state)
      (hretried : ¬PublicationFetchState.isExhausted cfg env state) :
    Edit call s₀ s (s.markPublicationFetchFailed cfg env key)
  | observed (key : PublicationKey) :
    Edit call s₀ s (s.observePublicationFetchSuccess cfg env key)
  | prefetched (key : PublicationKey) : Edit call s₀ s (s.prefetch cfg key)
  | kept (data : Data) (hcall : call = .cachePiggyData data) :
    Edit call s₀ s (s.cachePiggyData cfg data)
  | repaired (key : PublicationKey) (hcall : call = .enqueueRepairPublication key) :
    Edit call s₀ s (s.enqueueRepairPublication cfg env key)
  | validated (packet : Data) (target : ValidationTarget)
      (hcall : call = .validate packet target) : Edit call s₀ s (s.validate packet target)
  | assembling (publication : PublicationKey) (assembly : InnerSegmentAssembly) (expected : Nat)
      (hcall : call = .startValidation publication assembly expected) :
    Edit call s₀ s (s.startValidation publication assembly expected).2
  | counted (index : Nat) (failed : Bool) (state : ValidationState)
      (hcall : call = .finishOne index failed) (hstart : s = s₀)
      (hstate : s.assemblies[index]? = some state) (hterminal : state.terminal = false) :
    Edit call s₀ s { s with assemblies := s.assemblies.set index (state.count failed) }

/-- Changes of one call in a row. -/
abbrev Edits (call : Call) (s₀ : Subscriber) : Subscriber → Subscriber → Prop :=
  Relation.ReflTransGen (Edit cfg env call s₀)

section Edits

variable {cfg env} {call : Call} {s₀ s t : Subscriber}

open Relation (ReflTransGen)

theorem Edit.edits (h : Edit cfg env call s₀ s t) : Edits cfg env call s₀ s t := .single h

theorem invokeAll_eq (s : Subscriber) (publication : PublicationKey) (data : SubscriptionData)
    (subs : List Subscription) : s.invokeAll publication data subs = { s with
      invoked := s.invoked ++ subs.map fun sub =>
        { callback := sub.callback, publication, data, hasPayload := true } } := by
  unfold invokeAll
  induction subs generalizing s with
  | nil => simp
  | cons sub subs ih =>
    rw [List.foldl_cons, ih, invoke]
    simp

theorem observePublicationFetchSuccess_eq (s : Subscriber) (key : PublicationKey) :
    ∃ states estimates, s.observePublicationFetchSuccess cfg env key = { s with
      publicationFetchStates := states, publicationLifetimeEstimates := estimates } := by
  unfold observePublicationFetchSuccess
  split
  · exact ⟨_, _, rfl⟩
  · split
    · exact ⟨_, _, rfl⟩
    · exact ⟨_, _, rfl⟩

theorem rememberRepairRequest_eq (s : Subscriber) (key : PublicationKey) :
    ∃ extra, s.rememberRepairRequest key = { s with extra } := by
  unfold rememberRepairRequest
  dsimp only
  split
  · exact ⟨_, rfl⟩
  · exact ⟨_, rfl⟩

theorem markPublicationFetchFailed_eq (s : Subscriber) (key : PublicationKey) :
    ∃ fetchMap states estimates extra timers, s.markPublicationFetchFailed cfg env key = { s with
      fetchMap, publicationFetchStates := states, publicationLifetimeEstimates := estimates
      extra, timers } := by
  unfold markPublicationFetchFailed
  split
  · split
    · exact ⟨_, _, _, _, _, rfl⟩
    · obtain ⟨extra, heq⟩ := rememberRepairRequest_eq s key
      rw [heq]
      exact ⟨_, _, _, _, _, rfl⟩
  · exact ⟨_, _, _, _, _, rfl⟩

theorem enqueueRepairPublication_eq (s : Subscriber) (key : PublicationKey) :
    ∃ extra, s.enqueueRepairPublication cfg env key = { s with extra } := by
  unfold enqueueRepairPublication
  split
  · exact ⟨_, rfl⟩
  · exact ⟨_, rfl⟩

theorem edits_deliverCached {key : PublicationKey} {subs : List Subscription} {inFlight : Nat}
    {mapping : MappingEntryPair} {packet : Data} (hsubs : s.fetchMap[key]? = some subs)
    (hmapping : s.getMapping key = some mapping)
    (hpacket : s.piggyPacket mapping.name = some packet) :
    Edits cfg env (.fetchNext key inFlight) s s
      (s.deliverCached cfg env key mapping.name packet) := by
  have hknows : Knows key s := by
    rw [Knows, hmapping]
    rfl
  -- the delivery can as well come last
  have hfinal : s.deliverCached cfg env key mapping.name packet =
      (((s.rememberPiggyDeliveredPublication key).observePublicationFetchSuccess cfg env
        key).invokeAll key (packetData mapping.name key packet)
          (subs.filter fun _ => true)).cleanUpFetch key := by
    rw [invokeAll_eq, deliverCached, invokeAll_eq, hsubs, Option.getD_some, List.filter_true]
    unfold observePublicationFetchSuccess rememberPiggyDeliveredPublication
    cases s.publicationFetchStates[key]? with
    | none => rfl
    | some state =>
      dsimp only
      split
      · rfl
      · rfl
  rw [hfinal]
  refine ((Edit.remembered key hknows).edits.tail (.observed key)).tail ?_
  obtain ⟨states, estimates, heq⟩ := @observePublicationFetchSuccess_eq cfg env
    (s.rememberPiggyDeliveredPublication key) key
  rw [heq]
  refine .delivered key subs hsubs ?_ _ _ (.cached inFlight mapping packet hmapping hpacket)
  exact hsubs

theorem edits_fetchNext (s : Subscriber) (key : PublicationKey) (inFlight : Nat) :
    Edits cfg env (.fetchNext key inFlight) s s (s.fetchNext cfg env key inFlight).2 := by
  unfold fetchNext
  split
  · rename_i subs state hsubs hstate
    have hkey : key ∈ s.fetchMap := by
      rw [ExtTreeMap.mem_iff_isSome_getElem?, hsubs]
      rfl
    split
    · exact .refl
    · rename_i hready
      obtain ⟨hstatus, htime⟩ := not_or.mp hready
      have hstarted : Edits cfg env (.fetchNext key inFlight) s s
          (s.startFetch cfg env key state) :=
        (Edit.started key state inFlight rfl rfl hkey hstate hstatus (Int.not_lt.mp htime)).edits
      split
      · exact hstarted
      · rename_i mapping hmapping
        split
        · exact hstarted
        · rename_i packet hpacket
          exact edits_deliverCached hsubs hmapping hpacket
  · exact .refl

theorem edits_markPublicationFetchFailed (s : Subscriber) (key : PublicationKey) :
    Edits cfg env (.markPublicationFetchFailed key) s s
      (s.markPublicationFetchFailed cfg env key) := by
  cases hsubs : s.fetchMap[key]? with
  | none =>
    rw [markPublicationFetchFailed, hsubs]
  | some subs =>
    cases hstate : s.publicationFetchStates[key]? with
    | none =>
      rw [markPublicationFetchFailed, hsubs, hstate]
    | some state =>
      by_cases hretried : PublicationFetchState.isExhausted cfg env state
      · rw [markPublicationFetchFailed, hsubs, hstate]
        simp only [hretried, if_true]
        exact (Edit.dropped key).edits
      · have hkey : key ∈ s.fetchMap := by
          rw [ExtTreeMap.mem_iff_isSome_getElem?, hsubs]
          rfl
        exact (Edit.failed key state rfl rfl hkey hstate hretried).edits

theorem queueOrDeliver_piggyDataCache (key : PublicationKey) (name : Name) (q : Processing)
    (sub : Subscription) : (queueOrDeliver cfg env key name q sub).subscriber.piggyDataCache =
      q.subscriber.piggyDataCache := by
  unfold queueOrDeliver
  dsimp only
  split
  · split
    · rfl
    · rfl
  · rfl

theorem edits_queueOrDeliver {q : Processing} {key : PublicationKey} {mapping : MappingEntryPair}
    {sub : Subscription} (hmatches : Matches cfg s₀ key mapping sub)
    (hcache : q.subscriber.piggyDataCache = s₀.piggyDataCache) :
    Edits cfg env (.processMapping key) s₀ q.subscriber
      (queueOrDeliver cfg env key mapping.name q sub).subscriber := by
  have hpacket : q.subscriber.piggyPacket mapping.name = s₀.piggyPacket mapping.name := by
    rw [piggyPacket, hcache]
    rfl
  unfold queueOrDeliver
  dsimp only
  rw [hpacket]
  split
  · rename_i hautofetch
    split
    · rename_i packet hsome
      exact (Edit.given key mapping sub packet rfl hmatches hautofetch hsome).edits
    · rename_i hnone
      exact (Edit.queued key mapping sub rfl hmatches hautofetch hnone).edits
  · rename_i hautofetch
    exact (Edit.announced key mapping sub rfl hmatches hautofetch).edits

theorem edits_queueOrDeliverAll {q : Processing} {key : PublicationKey} {mapping : MappingEntryPair}
    {subs : List Subscription} (hmatches : ∀ sub ∈ subs, Matches cfg s₀ key mapping sub)
    (hcache : q.subscriber.piggyDataCache = s₀.piggyDataCache) :
    Edits cfg env (.processMapping key) s₀ q.subscriber
      (subs.foldl (queueOrDeliver cfg env key mapping.name) q).subscriber := by
  induction subs generalizing q with
  | nil => exact .refl
  | cons sub subs ih =>
    obtain ⟨hsub, hsubs⟩ := List.forall_mem_cons.mp hmatches
    exact (edits_queueOrDeliver hsub hcache).trans
      (ih hsubs ((queueOrDeliver_piggyDataCache key mapping.name q sub).trans hcache))

theorem edits_processMapping (s : Subscriber) (key : PublicationKey) :
    Edits cfg env (.processMapping key) s s (s.processMapping cfg env key).2 := by
  unfold processMapping
  split
  · exact .refl
  · rename_i hfresh
    split
    · exact .refl
    · rename_i mapping hmapping
      have hall := @edits_queueOrDeliverAll cfg env s { subscriber := s } key mapping
        (s.matching cfg mapping.name) (fun sub hsub => ⟨hfresh, hmapping, hsub⟩) rfl
      have hknows : Knows key s := by
        rw [Knows, hmapping]
        rfl
      split
      · exact .refl
      · exact .refl
      · dsimp only
        split
        · exact hall.tail (.remembered key hknows)
        · exact hall

/-- The publications that are ready are delivered one after the other. -/
theorem edits_satisfyAll {data : Data} {ready : List (PublicationKey × List Subscription)}
    (hready : ∀ entry ∈ ready, s₀.fetchMap[entry.1]? = some entry.2 ∧
      s.fetchMap[entry.1]? = some entry.2 ∧
        ∃ mapping, s₀.getMapping entry.1 = some mapping ∧ mapping.name = data.name)
    (hdistinct : ready.Pairwise fun a b => ¬compare a.1 b.1 = .eq) :
    Edits cfg env (.satisfyPendingFetch data) s₀ s (ready.foldl (fun s entry =>
      ((s.invokeAll entry.1 (packetData data.name entry.1 data)
        entry.2).rememberPiggyDeliveredPublication entry.1).cleanUpFetch entry.1) s) := by
  induction ready generalizing s with
  | nil => exact .refl
  | cons entry ready ih =>
    obtain ⟨key, subs⟩ := entry
    obtain ⟨⟨hwaiting, hsubs, mapping, hmapping, hname⟩, hready⟩ := List.forall_mem_cons.mp hready
    obtain ⟨hfirst, hdistinct⟩ := List.pairwise_cons.mp hdistinct
    have hknows : Knows key s₀ := by
      rw [Knows, hmapping]
      rfl
    have hdelivered : Edit cfg env (.satisfyPendingFetch data) s₀
        (s.rememberPiggyDeliveredPublication key)
        (((s.rememberPiggyDeliveredPublication key).invokeAll key (packetData data.name key data)
          (subs.filter fun _ => true)).cleanUpFetch key) := by
      refine .delivered key subs hwaiting ?_ _ _ (.piggyback data mapping hmapping hname)
      exact hsubs
    refine ((Edit.remembered key hknows).edits.tail hdelivered).trans ?_
    rw [List.filter_true, invokeAll_eq, List.foldl_cons]
    dsimp only
    rw [invokeAll_eq]
    refine ih (fun entry hentry => ?_) hdistinct
    obtain ⟨hwaiting, hget, hnamed⟩ := hready entry hentry
    refine ⟨hwaiting, ?_, hnamed⟩
    exact (Map.get_erase_ne fun heq => hfirst entry hentry (Std.compare_eq_iff_eq.mpr heq)).trans
      hget

theorem edits_satisfyPendingFetch (s : Subscriber) (data : Data) :
    Edits cfg env (.satisfyPendingFetch data) s s (s.satisfyPendingFetchFromPiggyData data) := by
  refine edits_satisfyAll (fun entry hentry => ?_) (ExtTreeMap.distinct_keys_toList.filter _)
  obtain ⟨hmem, hany⟩ := List.mem_filter.mp hentry
  refine ⟨Map.mem_toList.mp hmem, Map.mem_toList.mp hmem, ?_⟩
  cases hmapping : s.getMapping entry.1 with
  | none => simp [hmapping] at hany
  | some mapping => exact ⟨mapping, rfl, by simpa [hmapping] using hany⟩

theorem edits_returnData (s : Subscriber) (firstData innerData : Data) (key : PublicationKey) :
    Edits cfg env (.returnData firstData innerData key) s s
      (s.returnData firstData innerData key) := by
  unfold returnData
  split
  · exact .refl
  · rename_i subs hsubs
    dsimp only
    split
    · rename_i hdivided
      have hstep := @Edit.divided cfg env (.returnData firstData innerData key) s s key subs rfl
        hsubs firstData innerData rfl hdivided.1 hdivided.2.1
      rw [invokeAll_eq] at hstep ⊢
      exact hstep.edits
    · exact (Edit.delivered key subs hsubs hsubs _ _ (.fetched firstData innerData)).edits

theorem edits_finishAssembly {index : Nat} {failed : Bool} {state : ValidationState}
    {assemblies : List ValidationState} (hstate : s.assemblies[index]? = some state)
    (hterminal : state.terminal = false) (hcompleted : state.completed + 1 = state.expected) :
    Edits cfg env (.finishOne index failed) s { s with assemblies }
      (finishAssembly { s with assemblies } (state.count failed)) := by
  have hdropped : Edits cfg env (.finishOne index failed) s { s with assemblies }
      (cleanUpFetch { s with assemblies } state.publication) :=
    (Edit.dropped state.publication).edits
  rw [finishAssembly]
  by_cases hfailed : (state.count failed).failed = 0
  · cases hsubs : s.fetchMap[state.publication]? with
    | none => simpa [hfailed, invokeAll, ValidationState.count, hsubs] using hdropped
    | some subs =>
      rw [if_pos hfailed]
      have hstep := @Edit.delivered cfg env (.finishOne index failed) s { s with assemblies }
        state.publication subs hsubs hsubs _ _
        (.assembled index failed state hstate hterminal rfl hcompleted hfailed)
      simpa [ValidationState.count, hsubs] using hstep.edits
  · rw [if_neg hfailed]
    exact hdropped

theorem edits_finishOne (s : Subscriber) (index : Nat) (failed : Bool) :
    Edits cfg env (.finishOne index failed) s s (s.finishOne index failed) := by
  unfold finishOne
  split
  · exact .refl
  · rename_i state hstate
    split
    · exact .refl
    · rename_i hrunning
      have hterminal := Bool.eq_false_iff.mpr hrunning
      have hcounted : Edits cfg env (.finishOne index failed) s s
          { s with assemblies := s.assemblies.set index (state.count failed) } :=
        (Edit.counted index failed state rfl rfl hstate hterminal).edits
      dsimp only
      split
      · rename_i hlast
        exact hcounted.trans (edits_finishAssembly hstate hterminal (of_decide_eq_true hlast))
      · exact hcounted

/-- Every call that leaves the mappings alone is made of these changes. -/
theorem edits_act (hcall : ¬call.IsMapping) (s : Subscriber) :
    Edits cfg env call s s (act cfg env call s).2 := by
  cases call with
  | addPublicationFetch key sub => exact (Edit.subscribed key sub rfl).edits
  | prefetch key => exact (Edit.prefetched key).edits
  | processMapping key => exact edits_processMapping s key
  | scheduleMappingFetch requested streamName => exact absurd trivial hcall
  | markMappingFetchComplete key => exact absurd trivial hcall
  | markMappingFetchFailed key => exact absurd trivial hcall
  | insertMapping key entry => exact absurd trivial hcall
  | insertUnknownMapping key entry => exact absurd trivial hcall
  | satisfyPendingFetch data => exact edits_satisfyPendingFetch s data
  | cachePiggyData data => exact (Edit.kept data rfl).edits
  | enqueueRepairPublication key => exact (Edit.repaired key rfl).edits
  | sweepFetches => exact (Edit.swept rfl rfl).edits
  | fetchNext key inFlight => exact edits_fetchNext s key inFlight
  | markPublicationFetchFailed key => exact edits_markPublicationFetchFailed s key
  | observePublicationFetchSuccess key => exact (Edit.observed key).edits
  | cleanUpFetch key => exact (Edit.dropped key).edits
  | validate packet target => exact (Edit.validated packet target rfl).edits
  | returnData firstData innerData key => exact edits_returnData s firstData innerData key
  | startValidation publication assembly expected =>
    exact (Edit.assembling publication assembly expected rfl).edits
  | finishOne index failed => exact edits_finishOne s index failed

end Edits

end Subscriber

end NdnSvs
