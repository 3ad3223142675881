import NdnSvs.SubscribeCalls

/-! What the callbacks of the subscribing side are called with.  A call that does not settle a fetch
hands out at most one packet, one that came along with a Sync Interest. -/

namespace NdnSvs

open Lib Lib.Tlv Std

namespace Subscriber

variable (cfg : SubscriberConfig) (env : SubscribeInputs)

/-- The packet that came along and that the call hands to subscriptions. -/
def handedOut (s : Subscriber) : Call → Option Data
  | .satisfyPendingFetch data =>
    if s.fetchMap.toList.any fun (key, subs) =>
        subs ≠ [] ∧ (s.getMapping key).any fun mapping => mapping.name = data.name
    then some data else none
  | .fetchNext key _ =>
    match s.fetchMap[key]?, s.publicationFetchStates[key]? with
    | some subs, some state =>
      if subs = [] ∨ state.status = .fetching ∨ env.steadyNow < state.nextAttempt then none
      else (s.getMapping key).bind fun mapping => s.piggyPacket mapping.name
    | _, _ => none
  | .processMapping key =>
    (s.getMapping key).bind fun mapping =>
      let tooOld := if 0 < cfg.maxPubAge then isTooOld cfg env mapping.additional else .ok false
      if !s.hasPiggyDeliveredPublication key ∧ tooOld.toOption = some false ∧
          (s.matching cfg mapping.name).any Subscription.autofetch then
        s.piggyPacket mapping.name
      else none
  | _ => none

/-- The new calls of callbacks get the packet, when there is one, or only a name. -/
structure Brings (packet : Option Data) (new : List Invocation) : Prop where
  only : ∀ invocation ∈ new, invocation.hasPayload →
    ∃ p ∈ packet, invocation.data.packet = some p ∧ invocation.data.data = p.content
  given : ∀ p ∈ packet, ∃ invocation ∈ new, invocation.hasPayload ∧
    invocation.data.packet = some p

theorem Brings.nothing : Brings none [] :=
  ⟨fun _ hmem => absurd hmem List.not_mem_nil, fun _ hp => by cases hp⟩

/-- A packet for the subscriptions that wait. -/
theorem brings_packet (key : PublicationKey) (name : Name) (packet : Data)
    {subs : List Subscription} (hsubs : subs ≠ []) :
    Brings (some packet) (subs.map fun sub =>
      { callback := sub.callback, publication := key, data := packetData name key packet }) := by
  constructor
  · intro invocation hmem _
    obtain ⟨sub, -, rfl⟩ := List.mem_map.mp hmem
    exact ⟨packet, rfl, rfl, rfl⟩
  · intro p hp
    obtain rfl := Option.some.inj hp
    obtain ⟨sub, hsub⟩ := List.exists_mem_of_ne_nil subs hsubs
    exact ⟨_, List.mem_map.mpr ⟨sub, hsub, rfl⟩, rfl, rfl⟩

section Calls

variable {cfg env} {s : Subscriber}

/-- A packet for those of the publications that subscriptions wait for. -/
theorem brings_entries (packet : Data) (entries : List (PublicationKey × List Subscription)) :
    Brings (if entries.any fun entry => entry.2 ≠ [] then some packet else none)
      (entries.flatMap fun entry => entry.2.map fun sub =>
        { callback := sub.callback, publication := entry.1
          data := packetData packet.name entry.1 packet }) := by
  constructor
  · intro invocation hmem _
    obtain ⟨entry, hentry, hmem⟩ := List.mem_flatMap.mp hmem
    obtain ⟨sub, hsub, rfl⟩ := List.mem_map.mp hmem
    have hany : entries.any fun entry => entry.2 ≠ [] :=
      List.any_eq_true.mpr ⟨entry, hentry, decide_eq_true (List.ne_nil_of_mem hsub)⟩
    rw [if_pos hany]
    exact ⟨packet, rfl, rfl, rfl⟩
  · intro p hp
    split at hp
    · rename_i hany
      obtain ⟨entry, hentry, hsubs⟩ := List.any_eq_true.mp hany
      obtain ⟨sub, hsub⟩ := List.exists_mem_of_ne_nil entry.2 (of_decide_eq_true hsubs)
      obtain rfl := Option.some.inj hp
      exact ⟨_, List.mem_flatMap.mpr ⟨entry, hentry, List.mem_map.mpr ⟨sub, hsub, rfl⟩⟩, rfl, rfl⟩
    · cases hp

theorem brings_satisfyPendingFetch (s : Subscriber) (data : Data) : ∃ new,
    (s.satisfyPendingFetchFromPiggyData data).invoked = s.invoked ++ new ∧
      Brings (handedOut cfg env s (.satisfyPendingFetch data)) new := by
  have hfold : ∀ (ready : List (PublicationKey × List Subscription)) (t : Subscriber),
      (ready.foldl (fun s entry =>
        ((s.invokeAll entry.1 (packetData data.name entry.1 data)
          entry.2).rememberPiggyDeliveredPublication entry.1).cleanUpFetch entry.1) t).invoked =
        t.invoked ++ ready.flatMap fun entry => entry.2.map fun sub =>
          { callback := sub.callback, publication := entry.1
            data := packetData data.name entry.1 data } := by
    intro ready
    induction ready with
    | nil => exact fun t => (List.append_nil _).symm
    | cons entry ready ih =>
      intro t
      rw [List.foldl_cons, ih, invokeAll_eq, List.flatMap_cons, ← List.append_assoc]
      rfl
  refine ⟨_, hfold _ s, ?_⟩
  have hbrings := brings_entries data (s.fetchMap.toList.filter fun entry =>
    (s.getMapping entry.1).any fun mapping => mapping.name = data.name)
  rw [List.any_filter] at hbrings
  have hany : (s.fetchMap.toList.any fun entry => ((s.getMapping entry.1).any fun mapping =>
      mapping.name = data.name) && decide (entry.2 ≠ [])) = s.fetchMap.toList.any fun entry =>
        decide (entry.2 ≠ [] ∧ (s.getMapping entry.1).any fun mapping =>
          mapping.name = data.name) := by
    congr 1
    funext entry
    rw [Bool.and_comm, Bool.decide_and, Bool.decide_eq_true]
  rw [hany] at hbrings
  exact hbrings

theorem brings_nothing {t : Subscriber} {packet : Option Data} (hpacket : packet = none)
    (h : t.invoked = s.invoked) : ∃ new, t.invoked = s.invoked ++ new ∧ Brings packet new :=
  ⟨[], by rw [h, List.append_nil], hpacket ▸ .nothing⟩

theorem invoked_deliverCached {key : PublicationKey} {subs : List Subscription}
    (hsubs : s.fetchMap[key]? = some subs) (name : Name) (packet : Data) :
    (s.deliverCached cfg env key name packet).invoked = s.invoked ++ subs.map fun sub =>
      { callback := sub.callback, publication := key, data := packetData name key packet } := by
  rw [deliverCached, hsubs, Option.getD_some, invokeAll_eq]
  obtain ⟨states, estimates, heq⟩ := @observePublicationFetchSuccess_eq cfg env
    (rememberPiggyDeliveredPublication { s with
      invoked := s.invoked ++ subs.map fun sub => { callback := sub.callback, publication := key
                                                    data := packetData name key packet } } key) key
  exact congrArg Subscriber.invoked (congrArg (Subscriber.cleanUpFetch · key) heq)

theorem brings_fetchNext (s : Subscriber) (key : PublicationKey) (inFlight : Nat) : ∃ new,
    (s.fetchNext cfg env key inFlight).2.invoked = s.invoked ++ new ∧
      Brings (handedOut cfg env s (.fetchNext key inFlight)) new := by
  cases hsubs : s.fetchMap[key]? with
  | none => exact brings_nothing (by rw [handedOut, hsubs]) (by rw [fetchNext, hsubs])
  | some subs =>
    cases hstate : s.publicationFetchStates[key]? with
    | none =>
      exact brings_nothing (by rw [handedOut, hsubs, hstate]) (by rw [fetchNext, hsubs, hstate])
    | some state =>
      simp only [handedOut, fetchNext, hsubs, hstate]
      by_cases hready : state.status = .fetching ∨ env.steadyNow < state.nextAttempt
      · rw [if_pos hready, if_pos (.inr hready)]
        exact brings_nothing rfl rfl
      · rw [if_neg hready]
        cases hmapping : s.getMapping key with
        | none => exact brings_nothing (ite_self _) rfl
        | some mapping =>
          dsimp only [Option.bind_some]
          cases hpacket : s.piggyPacket mapping.name with
          | none => exact brings_nothing (ite_self _) rfl
          | some packet =>
            refine ⟨_, invoked_deliverCached hsubs _ packet, ?_⟩
            by_cases hwaiting : subs = []
            · rw [if_pos (.inl hwaiting), hwaiting]
              exact .nothing
            · rw [if_neg (not_or.mpr ⟨hwaiting, hready⟩)]
              exact brings_packet key mapping.name packet hwaiting

theorem Brings.append {packet : Option Data} {a b : Bool} {new new' : List Invocation}
    (h : Brings (if a then packet else none) new) (h' : Brings (if b then packet else none) new') :
    Brings (if a || b then packet else none) (new ++ new') := by
  have hmem : ∀ (c : Bool) (p : Data), (p ∈ if c then packet else none) ↔ c ∧ p ∈ packet := by
    intro c p
    cases c <;> simp
  constructor
  · intro invocation hnew hpayload
    rcases List.mem_append.mp hnew with hnew | hnew
    · obtain ⟨p, hp, heq⟩ := h.only invocation hnew hpayload
      obtain ⟨ha, hp⟩ := (hmem a p).mp hp
      exact ⟨p, (hmem _ p).mpr ⟨Bool.or_eq_true_iff.mpr (.inl ha), hp⟩, heq⟩
    · obtain ⟨p, hp, heq⟩ := h'.only invocation hnew hpayload
      obtain ⟨hb, hp⟩ := (hmem b p).mp hp
      exact ⟨p, (hmem _ p).mpr ⟨Bool.or_eq_true_iff.mpr (.inr hb), hp⟩, heq⟩
  · intro p hp
    obtain ⟨hor, hp⟩ := (hmem _ p).mp hp
    rcases Bool.or_eq_true_iff.mp hor with ha | hb
    · obtain ⟨invocation, hnew, heq⟩ := h.given p ((hmem a p).mpr ⟨ha, hp⟩)
      exact ⟨invocation, List.mem_append_left _ hnew, heq⟩
    · obtain ⟨invocation, hnew, heq⟩ := h'.given p ((hmem b p).mpr ⟨hb, hp⟩)
      exact ⟨invocation, List.mem_append_right _ hnew, heq⟩

theorem brings_queueOrDeliver (key : PublicationKey) (name : Name) (q : Processing)
    (sub : Subscription) : ∃ new,
      (queueOrDeliver cfg env key name q sub).subscriber.invoked = q.subscriber.invoked ++ new ∧
        Brings (if sub.autofetch then q.subscriber.piggyPacket name else none) new := by
  unfold queueOrDeliver
  dsimp only
  split
  · split
    · rename_i packet hpacket
      rw [hpacket]
      exact ⟨_, rfl, brings_packet key name packet (List.cons_ne_nil sub [])⟩
    · rename_i hpacket
      exact brings_nothing hpacket rfl
  · refine ⟨_, rfl, fun invocation hmem hpayload => ?_, fun p hp => by cases hp⟩
    obtain rfl := List.mem_singleton.mp hmem
    cases hpayload

theorem brings_queueOrDeliverAll (key : PublicationKey) (name : Name) (q : Processing)
    (subs : List Subscription) : ∃ new,
      (subs.foldl (queueOrDeliver cfg env key name) q).subscriber.invoked =
          q.subscriber.invoked ++ new ∧
        Brings (if subs.any Subscription.autofetch then q.subscriber.piggyPacket name else none)
          new := by
  induction subs generalizing q with
  | nil => exact ⟨[], (List.append_nil _).symm, .nothing⟩
  | cons sub subs ih =>
    obtain ⟨new, hnew, hfirst⟩ := @brings_queueOrDeliver cfg env key name q sub
    obtain ⟨new', hnew', hrest⟩ := ih (queueOrDeliver cfg env key name q sub)
    refine ⟨new ++ new', by rw [List.foldl_cons, hnew', hnew, List.append_assoc], ?_⟩
    rw [piggyPacket, queueOrDeliver_piggyDataCache] at hrest
    exact hfirst.append hrest

theorem brings_processMapping (s : Subscriber) (key : PublicationKey) : ∃ new,
    (s.processMapping cfg env key).2.invoked = s.invoked ++ new ∧
      Brings (handedOut cfg env s (.processMapping key)) new := by
  by_cases hdelivered : s.hasPiggyDeliveredPublication key
  · refine brings_nothing ?_ (by rw [processMapping, if_pos hdelivered])
    simp [handedOut, hdelivered]
  · rw [processMapping, if_neg hdelivered]
    cases hmapping : s.getMapping key with
    | none => exact brings_nothing (by rw [handedOut, hmapping]; rfl) rfl
    | some mapping =>
      simp only [handedOut, hmapping, Option.bind_some, hdelivered]
      cases hage : if 0 < cfg.maxPubAge then isTooOld cfg env mapping.additional else .ok false with
      | error e => exact brings_nothing (by simp [Except.toOption]) rfl
      | ok tooOld =>
        cases tooOld with
        | true => exact brings_nothing (by simp [Except.toOption]) rfl
        | false =>
          have hbrings := @brings_queueOrDeliverAll cfg env key mapping.name { subscriber := s }
            (s.matching cfg mapping.name)
          simp only [Except.toOption, Bool.not_false, true_and]
          obtain ⟨new, hnew, hbrings⟩ := hbrings
          refine ⟨new, ?_, hbrings⟩
          split
          · exact hnew
          · exact hnew

/-- The callbacks that a call makes get the packet that it hands out, or only a name. -/
theorem brings_act (s : Subscriber) {call : Call} (hcall : ¬call.Settles) : ∃ new,
    (act cfg env call s).2.invoked = s.invoked ++ new ∧
      Brings (handedOut cfg env s call) new := by
  have hmapping : call.IsMapping → (act cfg env call s).2.invoked = s.invoked := by
    intro h
    obtain ⟨_, _, _, _, heq⟩ := mapping_act cfg env s h
    rw [heq]
  cases call with
  | satisfyPendingFetch data => exact brings_satisfyPendingFetch s data
  | fetchNext key inFlight => exact brings_fetchNext s key inFlight
  | processMapping key => exact brings_processMapping s key
  | addPublicationFetch key sub => exact brings_nothing rfl rfl
  | prefetch key => exact brings_nothing rfl rfl
  | cachePiggyData data => exact brings_nothing rfl rfl
  | sweepFetches => exact brings_nothing rfl rfl
  | cleanUpFetch key => exact brings_nothing rfl rfl
  | validate packet target => exact brings_nothing rfl rfl
  | scheduleMappingFetch requested streamName => exact brings_nothing rfl (hmapping trivial)
  | markMappingFetchComplete key => exact brings_nothing rfl (hmapping trivial)
  | markMappingFetchFailed key => exact brings_nothing rfl (hmapping trivial)
  | insertMapping key entry => exact brings_nothing rfl (hmapping trivial)
  | insertUnknownMapping key entry => exact brings_nothing rfl (hmapping trivial)
  | observePublicationFetchSuccess key =>
    obtain ⟨states, estimates, heq⟩ := @observePublicationFetchSuccess_eq cfg env s key
    exact brings_nothing rfl (congrArg Subscriber.invoked heq :)
  | enqueueRepairPublication key =>
    obtain ⟨_, heq⟩ := @enqueueRepairPublication_eq cfg env s key
    exact brings_nothing rfl (congrArg Subscriber.invoked heq :)
  | markPublicationFetchFailed key =>
    obtain ⟨_, _, _, _, _, heq⟩ := @markPublicationFetchFailed_eq cfg env s key
    exact brings_nothing rfl (congrArg Subscriber.invoked heq :)
  | returnData firstData innerData key => exact absurd trivial hcall
  | startValidation key assembly expected => exact absurd trivial hcall
  | finishOne index failed => exact absurd trivial hcall

end Calls

end Subscriber

end NdnSvs
