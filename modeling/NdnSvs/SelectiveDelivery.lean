import NdnSvs.Unsubscribing

/-! Which callbacks are called.  Each call of a callback is for a publication that the application
asked for when it subscribed, and brings what it asked for. -/

namespace NdnSvs

open Lib Lib.Tlv Std

namespace SubscriberEvent

/-- The event makes a subscription. -/
def subscribes : SubscriberEvent → Bool
  | .subscribe _ _ | .subscribeWithRegex _ _ _ | .subscribeToProducer _ _ _ => true
  | _ => false

/-- The subscription gets publications, and not only their names. -/
def autofetch : SubscriberEvent → Bool
  | .subscribeWithRegex _ autofetch _ => autofetch
  | _ => true

/-- The subscription gets packets, and not publications in segments. -/
def packets : SubscriberEvent → Bool
  | .subscribe _ packets | .subscribeWithRegex _ _ packets
  | .subscribeToProducer _ _ packets => packets
  | _ => false

end SubscriberEvent

/-- The name under which the mapping of a publication is stored. -/
def PublicationKey.mappingKey (key : PublicationKey) : Name :=
  makeMappingKey key.nodeId key.bootstrapTime key.seqNo

namespace Subscriber

/-- The calls that made subscriptions, in their order. -/
def subscriptionCalls (es : List (SubscriberEvent × SubscribeInputs)) : List SubscriberEvent :=
  (es.map Prod.fst).filter SubscriberEvent.subscribes

/-- The callback of the number is the one that was passed with the call. -/
def Issued (es : List (SubscriberEvent × SubscribeInputs)) (call : SubscriberEvent)
    (callback : Nat) : Prop :=
  (subscriptionCalls es)[callback]? = some call

/-- The core has reported the publication as missing. -/
def Reported (es : List (SubscriberEvent × SubscribeInputs)) (key : PublicationKey) : Prop :=
  ∃ e ∈ es, ∃ info, e.1 = .update info ∧ ∃ stream ∈ info, stream.nodeId = key.nodeId ∧
    stream.bootstrapTime = key.bootstrapTime ∧ stream.low ≤ key.seqNo ∧ key.seqNo ≤ stream.high

/-- The call stores no other names for publications than `named` has. -/
def Names (named : Name → Name → Prop) : Call → Prop
  | .insertMapping key entry | .insertUnknownMapping key entry => named key.mappingKey entry.name
  | _ => True

instance (named : Name → Name → Prop) [∀ key name, Decidable (named key name)] (call : Call) :
    Decidable (Names named call) := by
  induction call using Call.casesOn with
  | insertMapping | insertUnknownMapping => exact inferInstanceAs (Decidable (named _ _))
  | _ => exact isTrue trivial

variable (cfg : SubscriberConfig) (named : Name → Name → Prop)
  (es : List (SubscriberEvent × SubscribeInputs))

/-- The call asks for the publication. -/
inductive AsksFor (key : PublicationKey) : SubscriberEvent → Prop
  | subscribe (namePrefix : Name) (packets : Bool) (name : Name)
      (hnamed : named key.mappingKey name) (hmatches : namePrefix.isPrefixOf name) :
    AsksFor key (.subscribe namePrefix packets)
  | subscribeWithRegex (regex : String) (autofetch packets : Bool) (name : Name)
      (hnamed : named key.mappingKey name) (hmatches : cfg.regexMatch regex name) :
    AsksFor key (.subscribeWithRegex regex autofetch packets)
  | subscribeToProducer (nodePrefix : Name) (prefetch packets : Bool)
      (hreported : Reported es key) (hmatches : nodePrefix.isPrefixOf key.nodeId) :
    AsksFor key (.subscribeToProducer nodePrefix prefetch packets)

/-- The callback is called as the application asked for with the call. -/
structure CalledFor (call : SubscriberEvent) (invocation : Invocation) : Prop where
  issued : Issued es call invocation.callback
  asks : AsksFor cfg named es invocation.publication call
  hasPayload : invocation.hasPayload = call.autofetch
  packet : call.autofetch → call.packets → invocation.data.packet.isSome
  name : ¬call.autofetch → named invocation.publication.mappingKey invocation.data.name
  producerPrefix : invocation.data.producerPrefix = invocation.publication.nodeId
  seqNo : invocation.data.seqNo = invocation.publication.seqNo

/-- The subscription is what the call made, and the call asks for the publication. -/
structure ChosenBy (call : SubscriberEvent) (key : PublicationKey) (sub : Subscription) : Prop where
  issued : Issued es call sub.callback
  asks : AsksFor cfg named es key call
  autofetch : sub.autofetch = call.autofetch
  packets : sub.isPacketSubscription = call.packets

/-- The subscriptions are those that the calls made, and the names of publications those that were
stored. -/
structure Listens (s : Subscriber) : Prop where
  count : s.callbacks = (subscriptionCalls es).length
  prefixes : ∀ sub ∈ s.prefixSubscriptions, sub.autofetch ∧
    Issued es (.subscribe sub.namePrefix sub.isPacketSubscription) sub.callback
  regexes : ∀ sub ∈ s.regexSubscriptions,
    Issued es (.subscribeWithRegex sub.regex sub.autofetch sub.isPacketSubscription) sub.callback
  producers : ∀ sub ∈ s.producerSubscriptions, sub.autofetch ∧
    Issued es (.subscribeToProducer sub.namePrefix sub.prefetch sub.isPacketSubscription)
      sub.callback
  mapped : ∀ key mapping, s.getMapping key = some mapping → named key.mappingKey mapping.name

/-- Those that wait for publications asked for them, and those that were called. -/
structure Serves (s : Subscriber) : Prop where
  waiting : ∀ (key : PublicationKey) (subs : List Subscription), s.fetchMap[key]? = some subs →
    ∀ sub ∈ subs, sub.autofetch ∧ ∃ call, ChosenBy cfg named es call key sub
  called : ∀ invocation ∈ s.invoked, ∃ call, CalledFor cfg named es call invocation

variable {cfg named es} {env : SubscribeInputs} {s t : Subscriber}

/-! ### More events -/

theorem subscriptionCalls_append (e : SubscriberEvent × SubscribeInputs) :
    subscriptionCalls (es ++ [e]) =
      subscriptionCalls es ++ if e.1.subscribes then [e.1] else [] := by
  simp only [subscriptionCalls, List.map_append, List.filter_append, List.map_cons, List.map_nil]
  cases h : e.1.subscribes with
  | true => simp [h]
  | false => simp [h]

theorem Issued.append {call : SubscriberEvent} {callback : Nat} (h : Issued es call callback)
    (e : SubscriberEvent × SubscribeInputs) : Issued (es ++ [e]) call callback := by
  rw [Issued, subscriptionCalls_append,
    List.getElem?_append_left (List.getElem?_eq_some_iff.mp h).1]
  exact h

theorem AsksFor.append {key : PublicationKey} {call : SubscriberEvent}
    (h : AsksFor cfg named es key call) (e : SubscriberEvent × SubscribeInputs) :
    AsksFor cfg named (es ++ [e]) key call := by
  cases h with
  | subscribe namePrefix packets name hnamed hmatches =>
    exact .subscribe namePrefix packets name hnamed hmatches
  | subscribeWithRegex regex autofetch packets name hnamed hmatches =>
    exact .subscribeWithRegex regex autofetch packets name hnamed hmatches
  | subscribeToProducer nodePrefix prefetch packets hreported hmatches =>
    obtain ⟨e', he', hreported⟩ := hreported
    exact .subscribeToProducer nodePrefix prefetch packets
      ⟨e', List.mem_append_left _ he', hreported⟩ hmatches

theorem Serves.append (h : Serves cfg named es s) (e : SubscriberEvent × SubscribeInputs) :
    Serves cfg named (es ++ [e]) s where
  waiting := fun key subs hsubs sub hsub => by
    obtain ⟨hautofetch, call, hchosen⟩ := h.waiting key subs hsubs sub hsub
    exact ⟨hautofetch, call, hchosen.issued.append e, hchosen.asks.append e, hchosen.autofetch,
      hchosen.packets⟩
  called := fun invocation hmem => by
    obtain ⟨call, hcalled⟩ := h.called invocation hmem
    exact ⟨call, hcalled.issued.append e, hcalled.asks.append e, hcalled.hasPayload,
      hcalled.packet, hcalled.name, hcalled.producerPrefix, hcalled.seqNo⟩

/-- A call subscribes the next callback. -/
theorem Listens.issued (h : Listens named es s) {e : SubscriberEvent × SubscribeInputs}
    (he : e.1.subscribes) : Issued (es ++ [e]) e.1 s.callbacks := by
  rw [Issued, subscriptionCalls_append, if_pos he, h.count]
  simp

/-! ### One step -/

theorem Listens.append (h : Listens named es s) {e : SubscriberEvent × SubscribeInputs}
    (he : e.1.subscribes = false) : Listens named (es ++ [e]) s where
  count := by
    rw [subscriptionCalls_append, he, h.count]
    simp
  prefixes := fun sub hsub => ⟨(h.prefixes sub hsub).1, (h.prefixes sub hsub).2.append e⟩
  regexes := fun sub hsub => (h.regexes sub hsub).append e
  producers := fun sub hsub => ⟨(h.producers sub hsub).1, (h.producers sub hsub).2.append e⟩
  mapped := h.mapped

/-- Fewer subscriptions. -/
theorem Listens.of_subset (h : Listens named es s)
    (hcount : t.callbacks = s.callbacks)
    (hprefixes : t.prefixSubscriptions ⊆ s.prefixSubscriptions)
    (hregexes : t.regexSubscriptions ⊆ s.regexSubscriptions)
    (hproducers : t.producerSubscriptions ⊆ s.producerSubscriptions)
    (hmapped : ∀ key mapping, t.getMapping key = some mapping →
      named key.mappingKey mapping.name) : Listens named es t :=
  ⟨hcount.trans h.count, fun sub hsub => h.prefixes sub (hprefixes hsub),
    fun sub hsub => h.regexes sub (hregexes hsub),
    fun sub hsub => h.producers sub (hproducers hsub), hmapped⟩

/-- What does not change the subscriptions and the mappings. -/
theorem Listens.same {extra : ExtraData} {dataFetcher : Fetcher DataRequest}
    {mappingFetcher : Fetcher MappingRequest} {timers : List Int} {steadyNow : Int}
    {validations : List Validation} {segmentFetches : List PublicationKey} {accepted : List Data}
    (h : Listens named es s) : Listens named es { s with
      extra, dataFetcher, mappingFetcher, timers, steadyNow, validations, segmentFetches
      accepted } :=
  ⟨h.count, h.prefixes, h.regexes, h.producers, h.mapped⟩

/-- A subscription is what its call made, and the calls are counted. -/
theorem Listens.begun (h : Listens named es s) {e : SubscriberEvent × SubscribeInputs}
    {handler : Handler Unit} (hbegin : beginStep cfg s e = some (t, handler)) :
    Listens named (es ++ [e]) t := by
  obtain ⟨event, env⟩ := e
  have hcount : event.subscribes = true →
      s.callbacks + 1 = (subscriptionCalls (es ++ [(event, env)])).length := by
    intro hsubscribes
    rw [subscriptionCalls_append, if_pos hsubscribes, List.length_append, h.count]
    rfl
  have hprefixes : ∀ sub ∈ s.prefixSubscriptions, sub.autofetch ∧ Issued (es ++ [(event, env)])
      (.subscribe sub.namePrefix sub.isPacketSubscription) sub.callback :=
    fun sub hsub => ⟨(h.prefixes sub hsub).1, (h.prefixes sub hsub).2.append _⟩
  have hregexes : ∀ sub ∈ s.regexSubscriptions, Issued (es ++ [(event, env)])
      (.subscribeWithRegex sub.regex sub.autofetch sub.isPacketSubscription) sub.callback :=
    fun sub hsub => (h.regexes sub hsub).append _
  have hproducers : ∀ sub ∈ s.producerSubscriptions, sub.autofetch ∧
      Issued (es ++ [(event, env)])
        (.subscribeToProducer sub.namePrefix sub.prefetch sub.isPacketSubscription) sub.callback :=
    fun sub hsub => ⟨(h.producers sub hsub).1, (h.producers sub hsub).2.append _⟩
  cases event with
  | subscribe namePrefix packets =>
    obtain ⟨rfl, -⟩ := Prod.mk.inj (Option.some.inj hbegin)
    refine ⟨hcount rfl, fun sub hsub => ?_, hregexes, hproducers, h.mapped⟩
    rcases List.mem_append.mp hsub with hsub | hsub
    · exact hprefixes sub hsub
    · obtain rfl := List.mem_singleton.mp hsub
      exact ⟨rfl, h.issued rfl⟩
  | subscribeWithRegex regex autofetch packets =>
    obtain ⟨rfl, -⟩ := Prod.mk.inj (Option.some.inj hbegin)
    refine ⟨hcount rfl, hprefixes, fun sub hsub => ?_, hproducers, h.mapped⟩
    rcases List.mem_append.mp hsub with hsub | hsub
    · exact hregexes sub hsub
    · obtain rfl := List.mem_singleton.mp hsub
      exact h.issued rfl
  | subscribeToProducer nodePrefix prefetch packets =>
    obtain ⟨rfl, -⟩ := Prod.mk.inj (Option.some.inj hbegin)
    refine ⟨hcount rfl, hprefixes, hregexes, fun sub hsub => ?_, h.mapped⟩
    rcases List.mem_append.mp hsub with hsub | hsub
    · exact hproducers sub hsub
    · obtain rfl := List.mem_singleton.mp hsub
      exact ⟨rfl, h.issued rfl⟩
  | unsubscribe handle =>
    obtain ⟨rfl, -⟩ := Prod.mk.inj (Option.some.inj hbegin)
    exact (h.append rfl).of_subset rfl (fun _ => List.mem_of_mem_eraseP)
      (fun _ => List.mem_of_mem_eraseP) (fun _ => List.mem_of_mem_eraseP) h.mapped
  | dataFetcher event =>
    obtain ⟨_, -, hbegin⟩ := Option.map_eq_some_iff.mp hbegin
    obtain ⟨rfl, -⟩ := Prod.mk.inj hbegin
    exact (h.append rfl).same
  | mappingFetcher event =>
    obtain ⟨_, -, hbegin⟩ := Option.map_eq_some_iff.mp hbegin
    obtain ⟨rfl, -⟩ := Prod.mk.inj hbegin
    exact (h.append rfl).same
  | fetchTimer index =>
    obtain ⟨due, -, hbegin⟩ := Option.bind_eq_some_iff.mp hbegin
    split at hbegin
    · obtain ⟨rfl, -⟩ := Prod.mk.inj (Option.some.inj hbegin)
      exact (h.append rfl).same
    · cases hbegin
  | verdict index accepted =>
    obtain ⟨_, -, hbegin⟩ := Option.map_eq_some_iff.mp hbegin
    obtain ⟨rfl, -⟩ := Prod.mk.inj hbegin
    exact (h.append rfl).same
  | segments index content =>
    obtain ⟨_, -, hbegin⟩ := Option.map_eq_some_iff.mp hbegin
    obtain ⟨rfl, -⟩ := Prod.mk.inj hbegin
    exact (h.append rfl).same
  | _ =>
    obtain ⟨rfl, -⟩ := Prod.mk.inj (Option.some.inj hbegin)
    exact (h.append rfl).same

/-- The calls leave the subscriptions alone. -/
theorem Listens.act (h : Listens named es s) {call : Call} (hnames : Names named call) :
    Listens named es (act cfg env call s).2 := by
  have hmapped : ∀ key mapping, (Subscriber.act cfg env call s).2.getMapping key = some mapping →
      named key.mappingKey mapping.name := by
    intro key mapping hmapping
    rw [getMapping_act] at hmapping
    have hinserted : ∀ (key' : PublicationKey) (entry : MappingEntryPair),
        named key'.mappingKey entry.name →
        (s.insertMapping key' entry).getMapping key = some mapping →
        named key.mappingKey mapping.name := by
      intro key' entry hentry hmapping
      rw [getMapping_insertMapping] at hmapping
      split at hmapping
      · rename_i heq
        obtain rfl := Option.some.inj hmapping
        rw [PublicationKey.mappingKey, ← heq]
        exact hentry
      · exact h.mapped key mapping hmapping
    split at hmapping
    · exact hinserted _ _ hnames hmapping
    · unfold insertUnknownMapping at hmapping
      split at hmapping
      · exact h.mapped key mapping hmapping
      · exact hinserted _ _ hnames hmapping
    · exact h.mapped key mapping hmapping
  by_cases hmapping : call.IsMapping
  · obtain ⟨_, _, _, _, heq⟩ := mapping_act cfg env s hmapping
    rw [heq] at hmapped ⊢
    exact h.of_subset rfl (fun _ => id) (fun _ => id) (fun _ => id) hmapped
  · have hframe := frame_act cfg env s call hmapping
    exact h.of_subset hframe.callbacks (fun _ => hframe.prefixSubscriptions ▸ id)
      (fun _ => hframe.regexSubscriptions ▸ id) (fun _ => hframe.producerSubscriptions ▸ id) hmapped

/-! ### One call -/

theorem Serves.of_same (h : Serves cfg named es s) (hmap : t.fetchMap = s.fetchMap)
    (hinvoked : t.invoked = s.invoked) : Serves cfg named es t :=
  ⟨hmap ▸ h.waiting, hinvoked ▸ h.called⟩

theorem Serves.of_fetchMap (h : Serves cfg named es s)
    (hmap : ∀ (key : PublicationKey) (subs : List Subscription), t.fetchMap[key]? = some subs →
      s.fetchMap[key]? = some subs) (hinvoked : t.invoked = s.invoked) : Serves cfg named es t :=
  ⟨fun key subs hsubs => h.waiting key subs (hmap key subs hsubs), hinvoked ▸ h.called⟩

theorem Serves.cleanUpFetch (h : Serves cfg named es s) (key : PublicationKey) :
    Serves cfg named es (s.cleanUpFetch key) := by
  refine h.of_fetchMap (fun key' subs hget => ?_) rfl
  rw [Subscriber.cleanUpFetch, Map.get_erase] at hget
  split at hget
  · cases hget
  · exact hget

theorem Serves.addPublicationFetch (h : Serves cfg named es s) {key : PublicationKey}
    {sub : Subscription} {call : SubscriberEvent} (hautofetch : sub.autofetch)
    (hchosen : ChosenBy cfg named es call key sub) :
    Serves cfg named es (s.addPublicationFetch cfg env key sub) := by
  refine ⟨fun key' subs hget => ?_, h.called⟩
  rw [Subscriber.addPublicationFetch, Map.get_insert] at hget
  split at hget
  · rename_i heq
    obtain rfl := Option.some.inj hget
    obtain rfl := heq
    intro sub' hsub'
    rcases List.mem_append.mp hsub' with hsub' | hsub'
    · cases hsubs : s.fetchMap[key]? with
      | none =>
        rw [hsubs] at hsub'
        exact absurd hsub' List.not_mem_nil
      | some subs =>
        rw [hsubs] at hsub'
        exact h.waiting key subs hsubs sub' hsub'
    · obtain rfl := List.mem_singleton.mp hsub'
      exact ⟨hautofetch, call, hchosen⟩
  · exact h.waiting key' subs hget

theorem Serves.failed (h : Serves cfg named es s) (key : PublicationKey) :
    Serves cfg named es (s.markPublicationFetchFailed cfg env key) := by
  unfold markPublicationFetchFailed
  split
  · split
    · exact h.cleanUpFetch key
    · obtain ⟨_, heq⟩ := rememberRepairRequest_eq s key
      rw [heq]
      exact h.of_same rfl rfl
  · exact h

theorem ChosenBy.calledFor {call : SubscriberEvent} {key : PublicationKey} {sub : Subscription}
    (h : ChosenBy cfg named es call key sub) {data : SubscriptionData}
    (hpacket : sub.autofetch → sub.isPacketSubscription → data.packet.isSome)
    (hname : ¬sub.autofetch → named key.mappingKey data.name)
    (hproducer : data.producerPrefix = key.nodeId) (hseqNo : data.seqNo = key.seqNo) :
    CalledFor cfg named es call
      { callback := sub.callback, publication := key, data, hasPayload := sub.autofetch } where
  issued := h.issued
  asks := h.asks
  hasPayload := h.autofetch
  packet := h.autofetch ▸ h.packets ▸ hpacket
  name := h.autofetch ▸ hname
  producerPrefix := hproducer
  seqNo := hseqNo

theorem Serves.invoke (h : Serves cfg named es s) {call : SubscriberEvent} {key : PublicationKey}
    {data : SubscriptionData} {hasPayload : Bool} {sub : Subscription}
    (hcalled : CalledFor cfg named es call
      { callback := sub.callback, publication := key, data, hasPayload }) :
    Serves cfg named es (s.invoke key data hasPayload sub) := by
  refine ⟨h.waiting, fun invocation hmem => ?_⟩
  rcases List.mem_append.mp hmem with hmem | hmem
  · exact h.called invocation hmem
  · obtain rfl := List.mem_singleton.mp hmem
    exact ⟨call, hcalled⟩

/-- The callbacks of subscriptions that wait for the publication are called. -/
theorem Serves.invokeAll (h : Serves cfg named es s) {key : PublicationKey}
    {data : SubscriptionData} {subs : List Subscription} (hsubs : s.fetchMap[key]? = some subs)
    {wanted : Subscription → Bool}
    (hpacket : ∀ sub, wanted sub → sub.isPacketSubscription → data.packet.isSome)
    (hproducer : data.producerPrefix = key.nodeId) (hseqNo : data.seqNo = key.seqNo) :
    Serves cfg named es (s.invokeAll key data (subs.filter wanted)) := by
  rw [invokeAll_eq]
  refine ⟨h.waiting, fun invocation hmem => ?_⟩
  rcases List.mem_append.mp hmem with hmem | hmem
  · exact h.called invocation hmem
  · obtain ⟨sub, hsub, rfl⟩ := List.mem_map.mp hmem
    obtain ⟨hmem, hwanted⟩ := List.mem_filter.mp hsub
    obtain ⟨hautofetch, call, hchosen⟩ := h.waiting key subs hsubs sub hmem
    have hcalled := hchosen.calledFor (fun _ => hpacket sub hwanted)
      (fun hnone => absurd hautofetch hnone) hproducer hseqNo
    rw [hautofetch] at hcalled
    exact ⟨call, hcalled⟩

/-- A subscription that matches a mapping asked for the publication. -/
theorem Listens.chosen (h : Listens named es s) {key : PublicationKey} {mapping : MappingEntryPair}
    {sub : Subscription} (hmatches : Matches cfg s key mapping sub) :
    ∃ call, ChosenBy cfg named es call key sub := by
  have hnamed := h.mapped key mapping hmatches.known
  rcases List.mem_append.mp hmatches.mem with hsub | hsub
  · obtain ⟨hmem, hbegins⟩ := List.mem_filter.mp hsub
    obtain ⟨hautofetch, hissued⟩ := h.prefixes sub hmem
    exact ⟨_, hissued, .subscribe _ _ _ hnamed hbegins, hautofetch, rfl⟩
  · obtain ⟨hmem, hregex⟩ := List.mem_filter.mp hsub
    exact ⟨_, h.regexes sub hmem, .subscribeWithRegex _ _ _ _ hnamed hregex, rfl, rfl⟩

/-- Only subscriptions to the producer come to wait for a publication without a mapping. -/
def Adds (cfg : SubscriberConfig) (named : Name → Name → Prop)
    (es : List (SubscriberEvent × SubscribeInputs)) : Call → Prop
  | .addPublicationFetch key sub =>
    sub.autofetch ∧ ∃ call, ChosenBy cfg named es call key sub
  | _ => True

theorem Hands.keyed {key : PublicationKey} {call : Call} {data : SubscriptionData}
    {wanted : Subscription → Bool} (h : Hands s key call data wanted) :
    data.producerPrefix = key.nodeId ∧ data.seqNo = key.seqNo ∧
      ∀ sub, wanted sub → sub.isPacketSubscription → data.packet.isSome := by
  cases h with
  | piggyback data mapping hmapping hname => exact ⟨rfl, rfl, fun _ _ _ => rfl⟩
  | cached inFlight mapping packet hmapping hpacket => exact ⟨rfl, rfl, fun _ _ _ => rfl⟩
  | fetched firstData innerData => exact ⟨rfl, rfl, fun _ _ _ => rfl⟩
  | assembled index failed state hstate hterminal hkey hcompleted hfailed =>
    refine ⟨rfl, rfl, fun sub hwanted hpackets => ?_⟩
    have hwhole : (!sub.isPacketSubscription) = true := hwanted
    rw [hpackets] at hwhole
    cases hwhole

theorem Edit.serves {call : Call} {s₀ : Subscriber} (hedit : Edit cfg env call s₀ s t)
    (hlistens : Listens named es s₀) (hadds : Adds cfg named es call)
    (h : Serves cfg named es s) : Serves cfg named es t := by
  cases hedit with
  | subscribed key sub hcall =>
    subst hcall
    obtain ⟨hautofetch, call, hchosen⟩ := hadds
    exact h.addPublicationFetch hautofetch hchosen
  | queued key mapping sub hcall hmatches hautofetch =>
    obtain ⟨call, hchosen⟩ := hlistens.chosen hmatches
    exact h.addPublicationFetch hautofetch hchosen
  | given key mapping sub packet hcall hmatches hautofetch =>
    obtain ⟨call, hchosen⟩ := hlistens.chosen hmatches
    have hcalled : CalledFor cfg named es call
        { callback := sub.callback, publication := key
          data := packetData mapping.name key packet, hasPayload := sub.autofetch } :=
      hchosen.calledFor (fun _ _ => rfl) (fun hnone => absurd hautofetch hnone) rfl rfl
    rw [hautofetch] at hcalled
    exact h.invoke hcalled
  | announced key mapping sub hcall hmatches hautofetch =>
    obtain ⟨call, hchosen⟩ := hlistens.chosen hmatches
    have hcalled : CalledFor cfg named es call
        { callback := sub.callback, publication := key
          data := { name := mapping.name, producerPrefix := key.nodeId, seqNo := key.seqNo }
          hasPayload := sub.autofetch } :=
      hchosen.calledFor (fun hfetched => absurd hfetched hautofetch)
        (fun _ => hlistens.mapped key mapping hmatches.known) rfl rfl
    rw [Bool.eq_false_iff.mpr hautofetch] at hcalled
    exact h.invoke hcalled
  | delivered key subs hwaiting hsubs data wanted hhands =>
    obtain ⟨hproducer, hseqNo, hpacket⟩ := hhands.keyed
    exact (h.invokeAll hsubs hpacket hproducer hseqNo).cleanUpFetch key
  | divided key subs hstart hsubs firstData innerData =>
    exact (h.invokeAll hsubs (fun _ _ _ => rfl) rfl rfl).of_same rfl rfl
  | dropped key => exact h.cleanUpFetch key
  | swept => exact h.of_fetchMap (fun _ _ hget => Map.get_of_eraseAll hget) rfl
  | failed key => exact h.failed key
  | observed key =>
    obtain ⟨_, _, heq⟩ := @observePublicationFetchSuccess_eq cfg env s key
    exact h.of_same (heq ▸ rfl) (heq ▸ rfl)
  | repaired key =>
    obtain ⟨_, heq⟩ := @enqueueRepairPublication_eq cfg env s key
    exact h.of_same (heq ▸ rfl) (heq ▸ rfl)
  | _ => exact h.of_same rfl rfl

theorem Serves.act (h : Serves cfg named es s) (hlistens : Listens named es s) {call : Call}
    (hadds : Adds cfg named es call) : Serves cfg named es (act cfg env call s).2 := by
  by_cases hmapping : call.IsMapping
  · obtain ⟨_, _, _, _, heq⟩ := mapping_act cfg env s hmapping
    exact h.of_same (heq ▸ rfl) (heq ▸ rfl)
  · have hrun : ∀ t, Edits cfg env call s s t → Serves cfg named es t := by
      intro t hedits
      induction hedits with
      | refl => exact h
      | tail _ hedit ih => exact hedit.serves hlistens hadds ih
    exact hrun _ (edits_act hmapping s)

/-! ### The calls of a step -/

theorem adds_other (call : Call) (h : ¬call.Queues) : Adds cfg named es call := by
  cases call with
  | addPublicationFetch key sub => exact absurd trivial h
  | _ => trivial

/-- An update makes subscriptions to the producer wait for the numbers that are reported. -/
theorem adds_update (h : Listens named es s) {info : List MissingDataInfo}
    (hreported : ∀ stream ∈ info, ∀ seq, stream.low ≤ seq → seq ≤ stream.high →
      Reported es ⟨stream.nodeId, stream.bootstrapTime, seq⟩) :
    Program.Makes (Adds cfg named es) (updateCallbackInternal cfg s info) := by
  have hclosed := @Program.closed_yields Call Call.Reply (Adds cfg named es)
  have hother : ∀ call : Call, ¬call.Queues → ¬call.Queries → ¬call.Settles →
      Adds cfg named es call := fun call hcall _ _ => adds_other call hcall
  refine Program.Makes.bind (hclosed.forEach fun stream hstream => ?_) fun _ =>
    makes_fetchAll hother cfg
  have hproducers : ∀ sub ∈ s.producerSubscriptions,
      Program.Makes (Adds cfg named es) (updateProducer stream sub) := by
    intro sub hsub
    obtain ⟨hautofetch, hissued⟩ := h.producers sub hsub
    unfold updateProducer
    split
    · rename_i hbegins
      have hadds : Program.Makes (Adds cfg named es) (forSeqNos stream.low stream.high fun seq =>
          perform (.addPublicationFetch ⟨stream.nodeId, stream.bootstrapTime, seq⟩ sub)) := by
        unfold forSeqNos
        split
        · trivial
        · refine hclosed.forEach fun seq hseq => Program.makes_perform ⟨hautofetch, ?_⟩
          obtain ⟨i, hi, rfl⟩ := List.mem_range'.mp hseq
          refine ⟨_, hissued, .subscribeToProducer _ _ _ ?_ hbegins, hautofetch, rfl⟩
          have hrange : stream.low + 1 * i ≤ stream.high := by
            lia
          exact hreported stream hstream _ (Nat.le_add_right _ _) hrange
      refine hadds.bind fun _ => ?_
      split
      · exact Program.makes_perform trivial
      · exact Program.makes_ret ()
    · exact Program.makes_ret ()
  refine Program.Makes.bind (hclosed.forEach hproducers) fun _ => ?_
  split
  · refine Program.Makes.bind
      (closed_processKnown hclosed (fun _ _ => Program.makes_perform trivial) _ _) fun low => ?_
    exact closed_queryRanges hclosed (fun _ _ => Program.makes_perform trivial) stream _ _
  · exact Program.makes_ret ()

theorem adds_beginStep {e : SubscriberEvent × SubscribeInputs} {handler : Handler Unit}
    (hbegin : beginStep cfg s e = some (t, handler)) (h : Listens named (es ++ [e]) t) :
    Program.Makes (Adds cfg named (es ++ [e])) handler := by
  obtain ⟨event, env⟩ := e
  by_cases hupdate : ∃ info, event = .update info
  · obtain ⟨info, rfl⟩ := hupdate
    obtain ⟨rfl, rfl⟩ := Prod.mk.inj (Option.some.inj hbegin)
    refine adds_update h fun stream hstream seq hlow hhigh => ?_
    exact ⟨_, List.mem_append_right _ List.mem_cons_self, info, rfl, stream, hstream, rfl, rfl,
      hlow, hhigh⟩
  · exact makes_beginStep (fun call hcall _ _ => adds_other call hcall) (fun _ _ => trivial) cfg
      (fun _ call hcall => adds_other call hcall.not_queues)
      (fun _ call hcall => adds_other call hcall.not_queues)
      (fun info hinfo => absurd ⟨info, hinfo⟩ hupdate) hbegin

/-! ### Runs -/

/-- The subscriptions and what was made of them after the events. -/
structure Attends (cfg : SubscriberConfig) (named : Name → Name → Prop)
    (es : List (SubscriberEvent × SubscribeInputs)) (s : Subscriber) : Prop where
  listens : Listens named es s
  serves : Serves cfg named es s

theorem attends_initial : Attends cfg named [] (initial cfg) where
  listens := ⟨rfl, by simp [initial], by simp [initial], by simp [initial],
    fun key mapping h => by simp [initial, getMapping] at h⟩
  serves := ⟨fun key subs h => by simp [initial] at h, by simp [initial]⟩

theorem Attends.begun (h : Attends cfg named es s) {e : SubscriberEvent × SubscribeInputs}
    {handler : Handler Unit} (hbegin : beginStep cfg s e = some (t, handler)) :
    Attends cfg named (es ++ [e]) t := by
  refine ⟨h.listens.begun hbegin, ?_⟩
  rcases beginStep_cases hbegin with hsubscribes | ⟨_, _, _, _, _, _, _, rfl, -⟩
  · cases hsubscribes with
    | _ => exact (h.serves.append e).of_same rfl rfl
  · exact (h.serves.append e).of_same rfl rfl

theorem Attends.act (h : Attends cfg named es s) {call : Call} (hnames : Names named call)
    (hadds : Adds cfg named es call) : Attends cfg named es (act cfg env call s).2 :=
  ⟨h.listens.act hnames, h.serves.act h.listens hadds⟩

theorem attends_step (h : Attends cfg named es s) {e : SubscriberEvent × SubscribeInputs}
    (hnames : CallsAlong cfg (fun _ => Names named) s e) (hstep : step cfg s e = some t) :
    Attends cfg named (es ++ [e]) t := by
  obtain ⟨-, begun, handler, hbegin, hexec⟩ := step_eq_some hstep
  have hbegun := h.begun hbegin
  have hadds : handler.Along (Subscriber.act cfg e.2) (fun _ => Adds cfg named (es ++ [e])) begun :=
    (adds_beginStep hbegin hbegun.listens).along (fun _ _ hcall => hcall) begun
  exact Program.exec_invariant (fun s call hcall h => h.act hcall.1 hcall.2) hbegun
    ((callsAlong_begun hnames hbegin).and hadds) hexec

/-- A callback is called only for publications that its subscription asked for: those reported of a
producer whose prefix it gave, or those stored under a name that it matches.  One that asked for
names alone gets no payloads, one for packets gets packets, and each call has the publication's
producer and number. -/
theorem called_as_subscribed
    (hnames : Along (step cfg) (CallsAlong cfg fun _ => Names named) (initial cfg) es)
    (hrun : run (step cfg) (initial cfg) es = some s) :
    ∀ invocation ∈ s.invoked, ∃ call, CalledFor cfg named es call invocation :=
  by
  have hstep : ∀ past s e t, step cfg s e = some t → CallsAlong cfg (fun _ => Names named) s e →
      Attends cfg named past s → Attends cfg named (past ++ [e]) t :=
    fun _ _ _ _ hstep hnames h => attends_step h hnames hstep
  exact (run_history hstep attends_initial hnames hrun).serves.called

/-- The publication of the peer's list has one name. -/
def peerNamed (key name : Name) : Prop := key = sampleKey.mappingKey ∧ name = .ofStrings ["x"]

instance (key name : Name) : Decidable (peerNamed key name) := by
  unfold peerNamed
  infer_instance

/-- A subscription gets a packet that has come along. -/
def cameAlong : List (SubscriberEvent × SubscribeInputs) :=
  [subscribeTo (.ofStrings ["x"]), peerMapping (.ofStrings ["x"]), peerPacket (.ofStrings ["x"])]

theorem cameAlong_run :
    (run (step sampleSubscriber) (initial sampleSubscriber) cameAlong).isSome = true := by
  decide +kernel

theorem called_as_subscribed_piggyback :
    let s := (run (step sampleSubscriber) (initial sampleSubscriber) cameAlong).get cameAlong_run
    s.invoked.length = 1 ∧ ∀ invocation ∈ s.invoked, ∃ call,
      CalledFor sampleSubscriber peerNamed cameAlong call invocation := by
  refine ⟨by decide +kernel, ?_⟩
  exact called_as_subscribed (by decide +kernel) (Option.some_get _).symm

end Subscriber

end NdnSvs
