import NdnSvs.MappingTruth
import NdnSvs.PublishedPackets

/-! What the callbacks get.  When the packets that arrive are those that the publishers have made,
each callback gets the publication that it is called for, or a packet of it, whichever way the
packets come and in whatever order they and the verdicts on them do. -/

namespace NdnSvs

open Lib Lib.Tlv Std

namespace Subscriber

section Faithful

variable {cfg : SubscriberConfig} (published : PublicationKey → Published cfg.pubSub.core.cxx)

/-- Each publication whose mapping is stored under the key has the name. -/
def NamedAs (mappingKey name : Name) : Prop :=
  ∀ key : PublicationKey, key.mappingKey = mappingKey → (published key).name = name

/-- A packet that comes along has the payload of the publications whose names its name extends. -/
def Honest (data : Data) : Prop :=
  ∀ key : PublicationKey, (published key).name <+: data.fullName cfg.pubSub.core.cxx →
    data.content = (published key).value

/-- The packet is one of those that the publisher has made. -/
def FetchedFor : DataRequest → Data → Prop
  | .publication key _, data => data ∈ (published key).outers
  | _, _ => True

/-- The event brings only what publishers have made: true names, packets of the publications that
were asked for, and all segments of a publication in their order. -/
structure Conveys (s : Subscriber) (event : SubscriberEvent) : Prop where
  hears : s.Hears (NamedAs published) event
  along : ∀ blocks, event = .extraBlocks blocks → ∀ block ∈ blocks,
    ∀ data ∈ packetsOf cfg.pubSub.core.cxx block, Honest published data
  data : ∀ index data, event = .dataFetcher (.data index data) →
    ∀ qi, s.dataFetcher.pendingInterests[index]? = some qi → FetchedFor published qi.request data
  segments : ∀ index bytes, event = .segments index (some bytes) →
    ∀ key, s.segmentFetches[index]? = some key →
      bytes = (published key).outers.flatMap Data.content

/-- The callback gets the publication, or a packet of it when the call asked for packets. -/
def Gets (call : SubscriberEvent) (invocation : Invocation) : Prop :=
  if call.packets then
    ∃ packet, invocation.data.packet = some packet ∧ invocation.data.data = packet.content ∧
      (packet ∈ (published invocation.publication).inners ∨
        packet.content = (published invocation.publication).value)
  else invocation.data.data = (published invocation.publication).value ∧
    invocation.data.name = (published invocation.publication).name

/-- The call hands on what publishers have made. -/
def Call.HandsOn : Call → Prop
  | .satisfyPendingFetch data | .cachePiggyData data => Honest published data
  | .validate packet (.publication key _) | .returnData _ packet key =>
    packet ∈ (published key).inners
  | .startValidation key assembly _ =>
    assembly = ⟨(published key).name, (published key).value⟩
  | _ => True

/-- Whatever is kept of packets is what publishers have made, and so is what callbacks got. -/
structure Faithful (es : List (SubscriberEvent × SubscribeInputs)) (s : Subscriber) : Prop where
  cached : ∀ name packet, s.piggyDataCache.entries[name]? = some packet →
    name <+: packet.fullName cfg.pubSub.core.cxx ∧ Honest published packet
  validating : ∀ v ∈ s.dataFetcher.validating, FetchedFor published v.1.request v.2
  validations : ∀ v ∈ s.validations, ∀ key firstData, v.target = .publication key firstData →
    v.packet ∈ (published key).inners
  assemblies : ∀ state ∈ s.assemblies, state.name = (published state.publication).name ∧
    state.payload = (published state.publication).value
  called : ∀ invocation ∈ s.invoked, invocation.hasPayload →
    ∃ call, Issued es call invocation.callback ∧ Gets published call invocation

variable {published} {es : List (SubscriberEvent × SubscribeInputs)} {env : SubscribeInputs}
  {s t : Subscriber}

/-! ### One call -/

theorem piggyPacket_cached {name : Name} {packet : Data} (h : s.piggyPacket name = some packet) :
    ∃ cached, name <+: cached ∧ s.piggyDataCache.entries[cached]? = some packet := by
  unfold piggyPacket at h
  split at h
  · rename_i found hfound
    obtain rfl := Option.some.inj h
    exact ⟨name, List.prefix_rfl, hfound⟩
  · split at h
    · cases h
    · rename_i cached found hbound
      split at h
      · rename_i hbegins
        obtain rfl := Option.some.inj h
        have hmem := List.mem_of_find?_eq_some hbound
        exact ⟨cached, List.isPrefixOf_iff_prefix.mp hbegins,
          ExtTreeMap.mem_toList_iff_getElem?_eq_some.mp hmem⟩
      · cases h

/-- A packet in the cache has the payload of the publication that it is found for. -/
theorem Faithful.piggyback (h : Faithful published es s) {key : PublicationKey} {packet : Data}
    (hpacket : s.piggyPacket (published key).name = some packet) :
    packet.content = (published key).value := by
  obtain ⟨cached, hbegins, hcached⟩ := piggyPacket_cached hpacket
  obtain ⟨hfull, hhonest⟩ := h.cached cached packet hcached
  exact hhonest key (hbegins.trans hfull)

theorem Faithful.cachePiggyData (h : Faithful published es s) {data : Data}
    (hhonest : Honest published data) : Faithful published es (s.cachePiggyData cfg data) := by
  refine ⟨fun name packet hcached => ?_, h.validating, h.validations, h.assemblies, h.called⟩
  have hget := Fifo.evict_get hcached
  simp only [Fifo.insert, Map.get_insert] at hget
  split at hget
  · rename_i hname
    obtain rfl := Option.some.inj hget
    exact ⟨hname ▸ List.prefix_rfl, hhonest⟩
  · split at hget
    · rename_i hname
      obtain rfl := Option.some.inj hget
      exact ⟨hname ▸ List.prefix_append _ _, hhonest⟩
    · exact h.cached name packet hget

theorem Faithful.of_same (h : Faithful published es s)
    (hcache : t.piggyDataCache = s.piggyDataCache)
    (hvalidating : t.dataFetcher.validating = s.dataFetcher.validating)
    (hvalidations : t.validations = s.validations) (hassemblies : t.assemblies = s.assemblies)
    (hinvoked : t.invoked = s.invoked) : Faithful published es t :=
  ⟨hcache ▸ h.cached, hvalidating ▸ h.validating, hvalidations ▸ h.validations,
    hassemblies ▸ h.assemblies, hinvoked ▸ h.called⟩

/-- The subscriptions of a call that the packet or the publication is right for are called. -/
theorem Faithful.invokeAll (h : Faithful published es s) {key : PublicationKey}
    {data : SubscriptionData} {subs : List Subscription}
    (hgets : ∀ sub ∈ subs, ∃ call, Issued es call sub.callback ∧
      Gets published call { callback := sub.callback, publication := key, data }) :
    Faithful published es (s.invokeAll key data subs) := by
  rw [invokeAll_eq]
  refine ⟨h.cached, h.validating, h.validations, h.assemblies, fun invocation hmem hpayload => ?_⟩
  rcases List.mem_append.mp hmem with hmem | hmem
  · exact h.called invocation hmem hpayload
  · obtain ⟨sub, hsub, rfl⟩ := List.mem_map.mp hmem
    exact hgets sub hsub

/-- A packet with the payload of the publication is right for all. -/
theorem gets_packet {call : SubscriberEvent} {callback : Nat} {key : PublicationKey} {name : Name}
    {packet : Data} (hname : name = (published key).name)
    (hcontent : packet.content = (published key).value) :
    Gets published call { callback, publication := key
                          data := packetData name key packet } := by
  unfold Gets
  split
  · exact ⟨packet, rfl, rfl, .inr hcontent⟩
  · exact ⟨hcontent, hname⟩

/-- A fetched packet is right for those that get it. -/
theorem gets_fetched {call : SubscriberEvent} {callback : Nat} {key : PublicationKey} {inner : Data}
    (hinner : inner ∈ (published key).inners) (hwanted : call.packets || !inner.finalBlock.isSome) :
    Gets published call { callback, publication := key
                          data := packetData inner.name key inner } := by
  unfold Gets
  split
  · exact ⟨inner, rfl, rfl, .inl hinner⟩
  · rename_i hblob
    rw [Bool.eq_false_iff.mpr hblob, Bool.false_or, Bool.not_eq_true', Option.isSome_eq_false_iff,
      Option.isNone_iff_eq_none] at hwanted
    obtain ⟨hname, hcontent⟩ := (published key).whole inner hinner hwanted
    exact ⟨hcontent, hname⟩

/-- What a call hands to subscriptions that wait for a publication is right for them. -/
theorem Hands.gets {key : PublicationKey} {call : Call} {data : SubscriptionData}
    {wanted : Subscription → Bool} (hhands : Hands s key call data wanted)
    (hmapped : Mapped (NamedAs published) s) (h : Faithful published es s)
    (hcall : call.HandsOn published) {sub : Subscription} (hsub : wanted sub)
    {event : SubscriberEvent} (hpackets : sub.isPacketSubscription = event.packets) :
    Gets published event { callback := sub.callback, publication := key, data } := by
  cases hhands with
  | piggyback data mapping hmapping hname =>
    have hnamed : (published key).name = data.name := hname ▸ hmapped key mapping hmapping key rfl
    refine gets_packet hnamed.symm (hcall key ?_)
    rw [hnamed]
    exact List.prefix_append _ _
  | cached inFlight mapping packet hmapping hpacket =>
    have hnamed := hmapped key mapping hmapping key rfl
    rw [← hnamed] at hpacket
    exact gets_packet hnamed.symm (h.piggyback hpacket)
  | fetched firstData innerData => exact gets_fetched hcall (hpackets ▸ hsub)
  | assembled index failed state hstate hterminal hkey hcompleted hfailed =>
    obtain ⟨hname, hpayload⟩ := h.assemblies state (List.mem_of_getElem? hstate)
    have hblob : event.packets = false := by
      rw [← hpackets]
      simpa using hsub
    subst hkey
    rw [Gets, if_neg (by simp [hblob])]
    exact ⟨hpayload, hname⟩

theorem Edit.faithful {call : Call} {s₀ : Subscriber} (hedit : Edit cfg env call s₀ s t)
    (hattends : Attends cfg (NamedAs published) es s₀) (h₀ : Faithful published es s₀)
    (hcall : call.HandsOn published) (h : Faithful published es s) :
    Faithful published es t := by
  cases hedit with
  | given key mapping sub packet hprocess hmatches hautofetch hpacket =>
    obtain ⟨event, hchosen⟩ := hattends.listens.chosen hmatches
    have hnamed := hattends.listens.mapped key mapping hmatches.known key rfl
    rw [← hnamed] at hpacket
    refine h.invokeAll fun sub' (hsub' : sub' ∈ [sub]) => ?_
    obtain rfl := List.mem_singleton.mp hsub'
    exact ⟨event, hchosen.issued, gets_packet hnamed.symm (h₀.piggyback hpacket)⟩
  | announced key mapping sub hprocess hmatches hautofetch =>
    refine ⟨h.cached, h.validating, h.validations, h.assemblies, fun invocation hmem hpayload => ?_⟩
    rcases List.mem_append.mp hmem with hmem | hmem
    · exact h.called invocation hmem hpayload
    · obtain rfl := List.mem_singleton.mp hmem
      cases hpayload
  | delivered key subs hwaiting hsubs data wanted hhands =>
    refine (h.invokeAll fun sub hsub => ?_).of_same rfl rfl rfl rfl rfl
    obtain ⟨hmem, hwanted⟩ := List.mem_filter.mp hsub
    obtain ⟨-, event, hchosen⟩ := hattends.serves.waiting key subs hwaiting sub hmem
    exact ⟨event, hchosen.issued,
      hhands.gets hattends.listens.mapped h₀ hcall hwanted hchosen.packets⟩
  | divided key subs hstart hsubs firstData innerData hreturn =>
    subst hstart hreturn
    refine (h.invokeAll fun sub hsub => ?_).of_same rfl rfl rfl rfl rfl
    obtain ⟨hmem, hwanted⟩ := List.mem_filter.mp hsub
    obtain ⟨-, event, hchosen⟩ := hattends.serves.waiting key subs hsubs sub hmem
    exact ⟨event, hchosen.issued, gets_fetched hcall (hchosen.packets ▸ hwanted)⟩
  | failed key =>
    obtain ⟨_, _, _, _, _, heq⟩ := @markPublicationFetchFailed_eq cfg env s key
    exact h.of_same (heq ▸ rfl) (heq ▸ rfl) (heq ▸ rfl) (heq ▸ rfl) (heq ▸ rfl)
  | observed key =>
    obtain ⟨_, _, heq⟩ := @observePublicationFetchSuccess_eq cfg env s key
    exact h.of_same (heq ▸ rfl) (heq ▸ rfl) (heq ▸ rfl) (heq ▸ rfl) (heq ▸ rfl)
  | repaired key =>
    obtain ⟨_, heq⟩ := @enqueueRepairPublication_eq cfg env s key
    exact h.of_same (heq ▸ rfl) (heq ▸ rfl) (heq ▸ rfl) (heq ▸ rfl) (heq ▸ rfl)
  | kept data hkept =>
    subst hkept
    exact h.cachePiggyData hcall
  | validated packet target hvalidate =>
    subst hvalidate
    refine ⟨h.cached, h.validating, fun v hv key firstData htarget => ?_, h.assemblies, h.called⟩
    rcases List.mem_append.mp hv with hv | hv
    · exact h.validations v hv key firstData htarget
    · obtain rfl := List.mem_singleton.mp hv
      obtain rfl : target = .publication key firstData := htarget
      exact hcall
  | assembling publication assembly expected hstart =>
    subst hstart
    refine ⟨h.cached, h.validating, h.validations, fun state hstate => ?_, h.called⟩
    rcases List.mem_append.mp hstate with hstate | hstate
    · exact h.assemblies state hstate
    · obtain rfl := List.mem_singleton.mp hstate
      obtain rfl : assembly = _ := hcall
      exact ⟨rfl, rfl⟩
  | counted index failed state hfinish hstart hstate =>
    refine ⟨h.cached, h.validating, h.validations, fun state' hstate' => ?_, h.called⟩
    rcases List.mem_or_eq_of_mem_set hstate' with hmem | rfl
    · exact h.assemblies state' hmem
    · exact h.assemblies state (List.mem_of_getElem? hstate)
  | _ => exact h.of_same rfl rfl rfl rfl rfl

theorem Faithful.act (h : Faithful published es s)
    (hattends : Attends cfg (NamedAs published) es s) {call : Call}
    (hcall : call.HandsOn published) : Faithful published es (act cfg env call s).2 := by
  by_cases hmapping : call.IsMapping
  · obtain ⟨_, _, _, _, heq⟩ := mapping_act cfg env s hmapping
    exact h.of_same (heq ▸ rfl) (heq ▸ rfl) (heq ▸ rfl) (heq ▸ rfl) (heq ▸ rfl)
  · have hrun : ∀ t, Edits cfg env call s s t → Faithful published es t := by
      intro t hedits
      induction hedits with
      | refl => exact h
      | tail _ hedit ih => exact hedit.faithful hattends h hcall ih
    exact hrun _ (edits_act hmapping s)

/-! ### Steps and runs -/

theorem handsOn_plain (published : PublicationKey → Published cfg.pubSub.core.cxx) (call : Call)
    (h : ¬call.Takes) : call.HandsOn published := by
  cases call with
  | satisfyPendingFetch data => exact absurd trivial h
  | cachePiggyData data => exact absurd trivial h
  | validate packet target => exact absurd trivial h
  | returnData firstData innerData key => exact absurd trivial h
  | startValidation key assembly expected => exact absurd trivial h
  | _ => trivial

theorem Issued.unique {call call' : SubscriberEvent} {callback : Nat} (h : Issued es call callback)
    (h' : Issued es call' callback) : call = call' := Option.some.inj (h.symm.trans h')

/-- More events change nothing of what was called. -/
theorem Faithful.append (h : Faithful published es s) (e : SubscriberEvent × SubscribeInputs) :
    Faithful published (es ++ [e]) s :=
  ⟨h.cached, h.validating, h.validations, h.assemblies, fun invocation hmem hpayload => by
    obtain ⟨call, hissued, hgets⟩ := h.called invocation hmem hpayload
    exact ⟨call, hissued.append e, hgets⟩⟩

/-- A callbackr hands on only what publishers have made. -/
theorem handsOn_beginStep {e : SubscriberEvent × SubscribeInputs} {callbackr : Handler Unit}
    (hconveys : Conveys published s e.1) (h : Faithful published es s)
    (hbegin : beginStep cfg s e = some (t, callbackr)) :
    Program.Makes (Call.HandsOn published) callbackr ∧ Faithful published es t := by
  obtain ⟨event, env⟩ := e
  have hplain := handsOn_plain published
  cases event with
  | publishMapping nodeId entry =>
    obtain ⟨rfl, rfl⟩ := Prod.mk.inj (Option.some.inj hbegin)
    exact ⟨Program.makes_perform trivial, h.of_same rfl rfl rfl rfl rfl⟩
  | update info =>
    obtain ⟨rfl, rfl⟩ := Prod.mk.inj (Option.some.inj hbegin)
    exact ⟨update_plain hplain cfg _ info, h.of_same rfl rfl rfl rfl rfl⟩
  | extraBlocks blocks =>
    obtain ⟨rfl, rfl⟩ := Prod.mk.inj (Option.some.inj hbegin)
    refine ⟨onRecvExtraBlocks_takes hplain (fun _ _ => trivial) fun block hblock => ?_,
      h.of_same rfl rfl rfl rfl rfl⟩
    refine ⟨fun _ _ _ _ => trivial, fun data hdata => ?_⟩
    have hhonest := hconveys.along blocks rfl block hblock data hdata
    exact ⟨hhonest, hhonest⟩
  | dataFetcher event =>
    obtain ⟨⟨fetcher, outcome⟩, hstep, hbegin⟩ := Option.map_eq_some_iff.mp hbegin
    obtain ⟨rfl, rfl⟩ := Prod.mk.inj hbegin
    obtain ⟨hsatisfied, hvalidating⟩ := Fetcher.step_brings hstep h.validating
      fun index data hevent => hconveys.data index data (hevent ▸ rfl)
    refine ⟨onDataOutcome_takes hplain cfg fun key lifetime data houtcome inner hinner => ?_,
      h.cached, hvalidating, h.validations, h.assemblies, h.called⟩
    have hmem := (published key).inner_mem (hsatisfied _ data houtcome) hinner
    exact ⟨hmem, hmem⟩
  | mappingFetcher event =>
    obtain ⟨_, -, hbegin⟩ := Option.map_eq_some_iff.mp hbegin
    obtain ⟨rfl, rfl⟩ := Prod.mk.inj hbegin
    exact ⟨onMappingOutcome_takes hplain cfg fun _ _ _ _ _ _ _ => trivial,
      h.of_same rfl rfl rfl rfl rfl⟩
  | fetchTimer index =>
    obtain ⟨due, -, hbegin⟩ := Option.bind_eq_some_iff.mp hbegin
    split at hbegin
    · obtain ⟨rfl, rfl⟩ := Prod.mk.inj (Option.some.inj hbegin)
      exact ⟨fetchAll_plain hplain cfg, h.of_same rfl rfl rfl rfl rfl⟩
    · cases hbegin
  | verdict index accepted =>
    obtain ⟨validation, hvalidation, hbegin⟩ := Option.map_eq_some_iff.mp hbegin
    obtain ⟨rfl, rfl⟩ := Prod.mk.inj hbegin
    have hmem := h.validations validation (List.mem_of_getElem? hvalidation)
    refine ⟨onVerdict_takes hplain accepted hmem, h.cached, h.validating, fun v hv => ?_,
      h.assemblies, h.called⟩
    exact h.validations v (List.mem_of_mem_eraseIdx hv)
  | segments index content =>
    obtain ⟨key, hkey, hbegin⟩ := Option.map_eq_some_iff.mp hbegin
    obtain ⟨rfl, rfl⟩ := Prod.mk.inj hbegin
    refine ⟨onSegments_takes hplain cfg (fun _ _ => trivial)
      fun bytes blocks assembly hbytes hparse hassembly => ?_, h.of_same rfl rfl rfl rfl rfl⟩
    subst hbytes
    rw [hconveys.segments index bytes rfl key hkey, (published key).parse_contents] at hparse
    obtain rfl := Option.some.inj hparse
    exact (published key).assembled assembly hassembly
  | _ =>
    obtain ⟨rfl, rfl⟩ := Prod.mk.inj (Option.some.inj hbegin)
    exact ⟨Program.makes_ret (), h.of_same rfl rfl rfl rfl rfl⟩

/-- The three invariants of a node that gets only what publishers have made. -/
structure Genuine (cfg : SubscriberConfig)
    (published : PublicationKey → Published cfg.pubSub.core.cxx)
    (es : List (SubscriberEvent × SubscribeInputs)) (s : Subscriber) : Prop where
  attends : Attends cfg (NamedAs published) es s
  truthful : s.Truthful (NamedAs published)
  faithful : Faithful published es s

theorem genuine_initial : Genuine cfg published [] (initial cfg) where
  attends := attends_initial
  truthful := ⟨.empty, fun _ hv => absurd hv List.not_mem_nil⟩
  faithful := ⟨fun name packet h => by simp [initial, Fifo.empty] at h,
    fun _ hv => absurd hv List.not_mem_nil, fun _ hv => absurd hv List.not_mem_nil,
    fun _ hstate => absurd hstate List.not_mem_nil, fun _ hmem => absurd hmem List.not_mem_nil⟩

theorem genuine_step (h : Genuine cfg published es s) {e : SubscriberEvent × SubscribeInputs}
    (hconveys : Conveys published s e.1) (hstep : step cfg s e = some t) :
    Genuine cfg published (es ++ [e]) t := by
  obtain ⟨-, begun, callbackr, hbegin, hexec⟩ := step_eq_some hstep
  obtain ⟨hkeeps, htruthful⟩ := truthful_beginStep hconveys.hears h.truthful hbegin
  obtain ⟨hhands, hfaithful⟩ := handsOn_beginStep hconveys h.faithful hbegin
  have hattends := h.attends.begun hbegin
  have hadds := adds_beginStep hbegin hattends.listens
  have hcalls : callbackr.Along (Subscriber.act cfg e.2)
      (fun _ call => (call.Keeps (NamedAs published) ∧
        Adds cfg (NamedAs published) (es ++ [e]) call) ∧ call.HandsOn published) begun :=
    ((hkeeps.along (fun _ _ hcall => hcall) begun).and
      (hadds.along (fun _ _ hcall => hcall) begun)).and
        (hhands.along (fun _ _ hcall => hcall) begun)
  have hbegun : Genuine cfg published (es ++ [e]) begun :=
    ⟨hattends, htruthful, hfaithful.append e⟩
  refine Program.exec_invariant (fun s call hcall h => ?_) hbegun hcalls hexec
  obtain ⟨⟨hkeeps, hadds⟩, hhands⟩ := hcall
  exact ⟨h.attends.act hkeeps.names hadds, h.truthful.act h.attends.listens.mapped hkeeps,
    h.faithful.act h.attends hhands⟩

/-- In every run in which what arrives is what publishers have made, a callback that is called with
a payload gets the publication that it is called for: its name and its whole payload, or one of its
packets when it asked for packets. -/
theorem callbacks_get_publications {es : List (SubscriberEvent × SubscribeInputs)}
    (hconveys : Along (step cfg) (fun s e => Conveys published s e.1) (initial cfg) es)
    (hrun : run (step cfg) (initial cfg) es = some s) :
    ∀ invocation ∈ s.invoked, ∃ call, CalledFor cfg (NamedAs published) es call invocation ∧
      (invocation.hasPayload → Gets published call invocation) := by
  have hstep : ∀ past s e t, step cfg s e = some t → Conveys published s e.1 →
      Genuine cfg published past s → Genuine cfg published (past ++ [e]) t :=
    fun _ _ _ _ hstep hconveys h => genuine_step h hconveys hstep
  have hgenuine := run_history hstep genuine_initial hconveys hrun
  intro invocation hmem
  obtain ⟨call, hcalled⟩ := hgenuine.attends.serves.called invocation hmem
  refine ⟨call, hcalled, fun hpayload => ?_⟩
  obtain ⟨call', hissued, hgets⟩ := hgenuine.faithful.called invocation hmem hpayload
  exact hcalled.issued.unique hissued ▸ hgets

end Faithful

/-- The packets of a publication of three bytes, when no packet may have all of them. -/
def threeBytes : List Data :=
  ((prepareReservedBytes sampleConfig bulkySigner sampleBytes [1, 2, 3]).toOption.map
    PreparedPublication.outerPackets).getD []

/-- The publication becomes known, and its first packet and then all segments are fetched. -/
def threeBytesFetched : List (SubscriberEvent × SubscribeInputs) :=
  [subscribeTo (.ofStrings ["a"]), peerMapping (.ofStrings ["a", "x"]),
    (.dataFetcher (.data 0 (threeBytes.headD { name := [] })), {}),
    (.segments 0 (some (threeBytes.flatMap Data.content)), {})]

theorem threeBytes_ne_nil : threeBytes ≠ [] := by
  have hmade : threeBytes.isEmpty = false := by decide +kernel
  exact List.isEmpty_eq_false_iff.mp hmade

theorem threeBytes_published : ∃ p : Published sampleSubscriber.pubSub.core.cxx,
    p.name = sampleBytes.name ∧ p.outers = threeBytes := by
  let value : Span := ⟨[1, 2, 3], by decide⟩
  have hmade := threeBytes_ne_nil
  cases hprepare : prepareReservedBytes sampleConfig bulkySigner sampleBytes value.val with
  | error e =>
    rw [threeBytes, show [1, 2, 3] = value.val from rfl, hprepare] at hmade
    exact absurd rfl hmade
  | ok prepared =>
    obtain ⟨p, hname, -, houters⟩ := Published.exists_ofBytes (by decide) hprepare
    refine ⟨p, hname, ?_⟩
    rw [houters, threeBytes, show [1, 2, 3] = value.val from rfl, hprepare]
    rfl

/-- The events bring what the publisher has made. -/
theorem threeBytes_conveyed {p : Published sampleSubscriber.pubSub.core.cxx}
    (hname : p.name = sampleBytes.name) (houters : p.outers = threeBytes) :
    ∀ e ∈ threeBytesFetched, ∀ s, Conveys (fun _ => p) s e.1 := by
  let told : MappingList :=
    { nodeId := .ofStrings ["a"]
      pairs := [{ bootstrapTime := 100, seqNo := 1, mapping := { name := sampleBytes.name } }] }
  have hnamed : ∀ block ∈ [told.encode], (∀ list ∈ mappingListsOf block, ∀ entry ∈ list.pairs,
      sampleBytes.name = entry.mapping.name) ∧ packetsOf packetFormat block = [] := by
    decide +kernel
  intro e he s
  simp only [threeBytesFetched, List.mem_cons, List.not_mem_nil, or_false] at he
  rcases he with rfl | rfl | rfl | rfl
  · exact ⟨trivial, fun _ h => (nomatch h), fun _ _ h => (nomatch h), fun _ _ h => (nomatch h)⟩
  · refine ⟨fun block hblock list hlist entry hentry key _ => ?_,
      fun blocks hblocks block hblock data hdata => ?_, fun _ _ h => (nomatch h),
      fun _ _ h => (nomatch h)⟩
    · exact hname.trans ((hnamed block hblock).1 list hlist entry hentry)
    · obtain rfl := SubscriberEvent.extraBlocks.inj hblocks
      have hnone : packetsOf sampleSubscriber.pubSub.core.cxx block = [] :=
        (hnamed block hblock).2
      rw [hnone] at hdata
      exact absurd hdata List.not_mem_nil
  · refine ⟨trivial, fun _ h => (nomatch h), fun index data h qi _ => ?_,
      fun _ _ h => (nomatch h)⟩
    obtain ⟨-, rfl⟩ := FetcherEvent.data.inj (SubscriberEvent.dataFetcher.inj h)
    have hmem : threeBytes.headD { name := [] } ∈ p.outers := by
      obtain ⟨packet, packets, hpackets⟩ := List.exists_cons_of_ne_nil threeBytes_ne_nil
      rw [houters, hpackets]
      exact List.mem_cons_self
    cases hrequest : qi.request with
    | publication key lifetime => exact hmem
    | prefetch key => trivial
  · refine ⟨trivial, fun _ h => (nomatch h), fun _ _ h => (nomatch h),
      fun index bytes h key _ => ?_⟩
    obtain ⟨-, hbytes⟩ := SubscriberEvent.segments.inj h
    rw [← Option.some.inj hbytes, houters]

theorem callbacks_get_publications_segments :
    ∃ s, run (step sampleSubscriber) (initial sampleSubscriber) threeBytesFetched = some s ∧
      s.invoked.length = 1 ∧
      ∃ published : PublicationKey → Published sampleSubscriber.pubSub.core.cxx,
        ∀ invocation ∈ s.invoked, ∃ call,
          CalledFor sampleSubscriber (NamedAs published) threeBytesFetched call invocation ∧
            (invocation.hasPayload → Gets published call invocation) := by
  have hcalls : (run (step sampleSubscriber) (initial sampleSubscriber) threeBytesFetched).map
      (fun s => s.invoked.length) = some 1 := by decide +kernel
  obtain ⟨s, hrun, hcount⟩ := Option.map_eq_some_iff.mp hcalls
  obtain ⟨p, hname, houters⟩ := threeBytes_published
  exact ⟨s, hrun, hcount, fun _ => p, callbacks_get_publications
    (along_of_forall (threeBytes_conveyed hname houters) _) hrun⟩

end Subscriber

end NdnSvs
