import NdnSvs.SubscribeEdits

/-! What the calls of the subscribing side do, and what they leave alone.  Fetching and delivering
publications touches neither the subscriptions, nor the mappings, nor the queries for mappings; the
other calls touch nothing else. -/

namespace NdnSvs

open Lib Lib.Tlv Std

namespace Subscriber

/-- `after` has the subscriptions, the mappings and the mapping queries of `before`, and what has
been delivered since from the packets that came along has a mapping. -/
structure Frame (before after : Subscriber) : Prop where
  subscriptionCount : after.subscriptionCount = before.subscriptionCount
  callbacks : after.callbacks = before.callbacks
  producerSubscriptions : after.producerSubscriptions = before.producerSubscriptions
  prefixSubscriptions : after.prefixSubscriptions = before.prefixSubscriptions
  regexSubscriptions : after.regexSubscriptions = before.regexSubscriptions
  mappings : after.mappings = before.mappings
  mappingFetcher : after.mappingFetcher = before.mappingFetcher
  mappingFetchInFlight : after.mappingFetchInFlight = before.mappingFetchInFlight
  mappingFetchSuppressUntil : after.mappingFetchSuppressUntil = before.mappingFetchSuppressUntil
  delivered : ∀ key ∈ after.piggyDeliveredPublications.entries,
    key ∈ before.piggyDeliveredPublications.entries ∨ Knows key before

theorem Frame.refl (s : Subscriber) : Frame s s :=
  ⟨rfl, rfl, rfl, rfl, rfl, rfl, rfl, rfl, rfl, fun _ => .inl⟩

theorem Frame.trans {s t u : Subscriber} (h : Frame s t) (h' : Frame t u) : Frame s u where
  subscriptionCount := h'.subscriptionCount.trans h.subscriptionCount
  callbacks := h'.callbacks.trans h.callbacks
  producerSubscriptions := h'.producerSubscriptions.trans h.producerSubscriptions
  prefixSubscriptions := h'.prefixSubscriptions.trans h.prefixSubscriptions
  regexSubscriptions := h'.regexSubscriptions.trans h.regexSubscriptions
  mappings := h'.mappings.trans h.mappings
  mappingFetcher := h'.mappingFetcher.trans h.mappingFetcher
  mappingFetchInFlight := h'.mappingFetchInFlight.trans h.mappingFetchInFlight
  mappingFetchSuppressUntil := h'.mappingFetchSuppressUntil.trans h.mappingFetchSuppressUntil
  delivered := fun key hkey => (h'.delivered key hkey).elim (h.delivered key) fun hknown => by
    rw [Knows, Subscriber.getMapping, h.mappings] at hknown
    exact .inr hknown

theorem Frame.getMapping {s t : Subscriber} (h : Frame s t) (key : PublicationKey) :
    t.getMapping key = s.getMapping key := by
  rw [Subscriber.getMapping, h.mappings]
  rfl

theorem Frame.knows {s t : Subscriber} (h : Frame s t) {key : PublicationKey}
    (hknows : Knows key s) :
    Knows key t := by
  rw [Knows, h.getMapping]
  exact hknows

/-- The subscriptions that a name can match, and those that wait for publications, have callbacks
with `p`. -/
structure Among (p : Nat → Prop) (s : Subscriber) : Prop where
  prefixes : ∀ sub ∈ s.prefixSubscriptions, p sub.callback
  regexes : ∀ sub ∈ s.regexSubscriptions, p sub.callback
  waiting : ∀ (key : PublicationKey) (subs : List Subscription), s.fetchMap[key]? = some subs →
    ∀ sub ∈ subs, p sub.callback

theorem among_true (s : Subscriber) : Among (fun _ => True) s :=
  ⟨fun _ _ => trivial, fun _ _ => trivial, fun _ _ _ _ _ => trivial⟩

/-- Fetching and delivering: callbacks of handles with `p` are called, publications with `new` come
to wait, and the repair of publications with `failed` is asked for. -/
structure Delivers (p : Nat → Prop) (new failed : PublicationKey → Prop)
    (before after : Subscriber) : Prop extends Frame before after where
  among : Among p after
  calls : ∃ calls, after.invoked = before.invoked ++ calls ∧ ∀ call ∈ calls, p call.callback
  waiting : ∀ key ∈ after.fetchMap, new key ∨ key ∈ before.fetchMap
  repairs : ∀ entry ∈ after.extra.repairRequestQueue, entry ∈ before.extra.repairRequestQueue ∨
    ∃ key, failed key ∧ entry.item = { nodeId := key.nodeId, bootstrapTime := key.bootstrapTime,
                                       low := key.seqNo, high := key.seqNo }

/-- The state without what a delivery does not tell about. -/
def scene (s : Subscriber) : Subscriber :=
  { s with
    dataFetcher := {}, publicationFetchStates := ∅, publicationLifetimeEstimates := ∅
    extra := { repairRequestQueue := s.extra.repairRequestQueue }
    piggyDataCache := .empty, timers := [], validations := [], segmentFetches := []
    assemblies := [], steadyNow := 0, accepted := [] }

section Delivers

variable {cfg : SubscriberConfig} {env : SubscribeInputs} {p : Nat → Prop}
  {new failed : PublicationKey → Prop} {s t u : Subscriber}

theorem Among.of_waiting (h : Among p s) (hprefixes : t.prefixSubscriptions = s.prefixSubscriptions)
    (hregexes : t.regexSubscriptions = s.regexSubscriptions)
    (hwaiting : ∀ (key : PublicationKey) (subs : List Subscription), t.fetchMap[key]? = some subs →
      s.fetchMap[key]? = some subs ∨ ∀ sub ∈ subs, p sub.callback) : Among p t where
  prefixes := hprefixes ▸ h.prefixes
  regexes := hregexes ▸ h.regexes
  waiting := fun key subs hget => (hwaiting key subs hget).elim (h.waiting key subs) id

theorem Among.waits (h : Among p s) (key : PublicationKey) :
    ∀ sub ∈ (s.fetchMap[key]?).getD [], p sub.callback := by
  cases hget : s.fetchMap[key]? with
  | none => exact fun sub hsub => absurd hsub List.not_mem_nil
  | some subs => exact h.waiting key subs hget

theorem Among.matching (h : Among p s) (name : Name) :
    ∀ sub ∈ s.matching cfg name, p sub.callback := by
  intro sub hsub
  rcases List.mem_append.mp hsub with hsub | hsub
  · exact h.prefixes sub (List.mem_filter.mp hsub).1
  · exact h.regexes sub (List.mem_filter.mp hsub).1

theorem Delivers.trans (h : Delivers p new failed s t) (h' : Delivers p new failed t u) :
    Delivers p new failed s u where
  toFrame := h.toFrame.trans h'.toFrame
  among := h'.among
  calls := by
    obtain ⟨calls, heq, hcalls⟩ := h.calls
    obtain ⟨calls', heq', hcalls'⟩ := h'.calls
    refine ⟨calls ++ calls', by rw [heq', heq, List.append_assoc], fun call hcall => ?_⟩
    exact (List.mem_append.mp hcall).elim (hcalls call) (hcalls' call)
  waiting := fun key hkey => (h'.waiting key hkey).elim .inl (h.waiting key)
  repairs := fun entry hentry => (h'.repairs entry hentry).elim (h.repairs entry) .inr

theorem Delivers.bind (h : Delivers p new failed s t)
    (h' : Among p t → Delivers p new failed t u) : Delivers p new failed s u :=
  h.trans (h' h.among)

/-- A change of what a delivery does not tell about. -/
theorem Delivers.of_scene (h : Among p s) (hscene : t.scene = s.scene) :
    Delivers p new failed s t := by
  obtain ⟨hcount, hcallbacks, hproducers, hprefixes, hregexes, hmappings, hfetcher, -, hmap, -, -,
    hinFlight, hsuppress, hextra, -, hdelivered, -, -, -, -, -, -, hinvoked⟩ :=
    Subscriber.mk.inj hscene
  have hrepairs := congrArg ExtraData.repairRequestQueue hextra
  refine ⟨⟨hcount, hcallbacks, hproducers, hprefixes, hregexes, hmappings, hfetcher, hinFlight,
      hsuppress, fun key hkey => ?_⟩,
    h.of_waiting hprefixes hregexes fun key subs hget => ?_, ⟨[], ?_, fun call hcall => ?_⟩,
    fun key hkey => ?_, fun entry hentry => ?_⟩
  · exact .inl (hdelivered ▸ hkey)
  · exact .inl (hmap ▸ hget)
  · rw [hinvoked, List.append_nil]
  · exact absurd hcall List.not_mem_nil
  · exact .inr (hmap ▸ hkey)
  · exact .inl (hrepairs ▸ hentry)

theorem Delivers.refl (h : Among p s) : Delivers p new failed s s := .of_scene h rfl

/-- Publications that no longer wait. -/
theorem delivers_of_fetchMap (h : Among p s) {fetchMap : Map PublicationKey (List Subscription)}
    {states : Map PublicationKey PublicationFetchState}
    (hmap : ∀ (key : PublicationKey) (subs : List Subscription), fetchMap[key]? = some subs →
      s.fetchMap[key]? = some subs) :
    Delivers p new failed s { s with fetchMap, publicationFetchStates := states } where
  toFrame := ⟨rfl, rfl, rfl, rfl, rfl, rfl, rfl, rfl, rfl, fun _ => .inl⟩
  among := h.of_waiting rfl rfl fun key subs hget => .inl (hmap key subs hget)
  calls := ⟨[], (List.append_nil _).symm, fun call hcall => absurd hcall List.not_mem_nil⟩
  waiting := fun key hkey => by
    rw [ExtTreeMap.mem_iff_isSome_getElem?, Option.isSome_iff_exists] at hkey
    obtain ⟨subs, hget⟩ := hkey
    refine .inr (ExtTreeMap.mem_iff_isSome_getElem?.mpr ?_)
    exact Option.isSome_iff_exists.mpr ⟨subs, hmap key subs hget⟩
  repairs := fun _ => .inl

theorem delivers_cleanUpFetch (h : Among p s) (key : PublicationKey) :
    Delivers p new failed s (s.cleanUpFetch key) := by
  refine delivers_of_fetchMap h fun key' subs hget => ?_
  rw [Map.get_erase] at hget
  split at hget
  · cases hget
  · exact hget

theorem delivers_sweepFetches (h : Among p s) :
    Delivers p new failed s (s.sweepFetches cfg env).2 :=
  delivers_of_fetchMap h fun _ _ hget => Map.get_of_eraseAll hget

theorem delivers_invoke (h : Among p s) (publication : PublicationKey) (data : SubscriptionData)
    (hasPayload : Bool) {sub : Subscription} (hsub : p sub.callback) :
    Delivers p new failed s (s.invoke publication data hasPayload sub) where
  toFrame := ⟨rfl, rfl, rfl, rfl, rfl, rfl, rfl, rfl, rfl, fun _ => .inl⟩
  among := ⟨h.prefixes, h.regexes, h.waiting⟩
  calls := ⟨_, rfl, fun _ hcall => List.mem_singleton.mp hcall ▸ hsub⟩
  waiting := fun _ => .inr
  repairs := fun _ => .inl

theorem delivers_invokeAll (h : Among p s) (publication : PublicationKey) (data : SubscriptionData)
    {subs : List Subscription} (hsubs : ∀ sub ∈ subs, p sub.callback) :
    Delivers p new failed s (s.invokeAll publication data subs) := by
  unfold invokeAll
  induction subs generalizing s with
  | nil => exact .refl h
  | cons sub subs ih =>
    obtain ⟨hsub, hsubs⟩ := List.forall_mem_cons.mp hsubs
    exact (delivers_invoke h publication data true hsub).bind fun among => ih among hsubs

theorem delivers_rememberPiggyDelivered (h : Among p s) {key : PublicationKey}
    (hknows : Knows key s) :
    Delivers p new failed s (s.rememberPiggyDeliveredPublication key) where
  subscriptionCount := rfl
  callbacks := rfl
  producerSubscriptions := rfl
  prefixSubscriptions := rfl
  regexSubscriptions := rfl
  mappings := rfl
  mappingFetcher := rfl
  mappingFetchInFlight := rfl
  mappingFetchSuppressUntil := rfl
  delivered := fun key' hkey => by
    rcases Fifo.mem_insert_evict hkey with rfl | hkey
    · exact .inr hknows
    · exact .inl hkey
  among := ⟨h.prefixes, h.regexes, h.waiting⟩
  calls := ⟨[], (List.append_nil _).symm, fun call hcall => absurd hcall List.not_mem_nil⟩
  waiting := fun _ => .inr
  repairs := fun _ => .inl

theorem delivers_addPublicationFetch (h : Among p s) {key : PublicationKey} (hnew : new key)
    {sub : Subscription} (hsub : p sub.callback) :
    Delivers p new failed s (s.addPublicationFetch cfg env key sub) where
  toFrame := ⟨rfl, rfl, rfl, rfl, rfl, rfl, rfl, rfl, rfl, fun _ => .inl⟩
  among := by
    refine h.of_waiting rfl rfl fun key' subs hget => ?_
    rw [addPublicationFetch, Map.get_insert] at hget
    split at hget
    · obtain rfl := Option.some.inj hget
      refine .inr fun sub' hsub' => ?_
      rcases List.mem_append.mp hsub' with hsub' | hsub'
      · exact h.waits key sub' hsub'
      · exact List.mem_singleton.mp hsub' ▸ hsub
    · exact .inl hget
  calls := ⟨[], (List.append_nil _).symm, fun call hcall => absurd hcall List.not_mem_nil⟩
  waiting := fun key' hkey => by
    rcases ExtTreeMap.mem_insert.mp hkey with heq | hkey
    · exact .inl (LawfulEqOrd.eq_of_compare heq ▸ hnew)
    · exact .inr hkey
  repairs := fun _ => .inl

theorem delivers_rememberRepairRequest (h : Among p s) {key : PublicationKey}
    (hfailed : failed key) : Delivers p new failed s (s.rememberRepairRequest key) := by
  unfold rememberRepairRequest
  dsimp only
  split
  · exact .refl h
  · refine ⟨⟨rfl, rfl, rfl, rfl, rfl, rfl, rfl, rfl, rfl, fun _ => .inl⟩,
      ⟨h.prefixes, h.regexes, h.waiting⟩,
      ⟨[], (List.append_nil _).symm, fun call hcall => absurd hcall List.not_mem_nil⟩,
      fun _ => .inr, fun entry hentry => ?_⟩
    rcases List.mem_append.mp hentry with hentry | hentry
    · exact .inl hentry
    · obtain rfl := List.mem_singleton.mp hentry
      exact .inr ⟨key, hfailed, rfl⟩

/-- A failed fetch asks for a repair of a publication that waits, and is tried again. -/
theorem delivers_markPublicationFetchFailed (h : Among p s) {key : PublicationKey}
    (hfailed : key ∈ s.fetchMap → (∃ state ∈ s.publicationFetchStates[key]?,
      ¬PublicationFetchState.isExhausted cfg env state) → failed key) :
    Delivers p new failed s (s.markPublicationFetchFailed cfg env key) := by
  unfold markPublicationFetchFailed
  split
  · rename_i subs state hsubs hstate
    split
    · exact delivers_cleanUpFetch h key
    · rename_i hretried
      have hmem : key ∈ s.fetchMap := by
        rw [ExtTreeMap.mem_iff_isSome_getElem?, hsubs]
        rfl
      exact (delivers_rememberRepairRequest h (hfailed hmem ⟨state, hstate, hretried⟩)).bind
        fun among => .of_scene among rfl
  · exact .refl h

theorem delivers_observePublicationFetchSuccess (h : Among p s) (key : PublicationKey) :
    Delivers p new failed s (s.observePublicationFetchSuccess cfg env key) := by
  unfold observePublicationFetchSuccess
  split
  · exact .refl h
  · split
    · exact .of_scene h rfl
    · exact .of_scene h rfl

theorem delivers_enqueueRepairPublication (h : Among p s) (key : PublicationKey) :
    Delivers p new failed s (s.enqueueRepairPublication cfg env key) := by
  unfold enqueueRepairPublication
  split
  · exact .refl h
  · dsimp only
    split
    · exact .of_scene h rfl
    · exact .of_scene h rfl

/-- The call makes only subscriptions with `p` wait for a publication. -/
def Call.Spares (p : Nat → Prop) : Call → Prop
  | .addPublicationFetch _ sub => p sub.callback
  | _ => True

/-- The call can put the publication in line. -/
def Call.Queued : Call → PublicationKey → Prop
  | .addPublicationFetch key _, key' | .processMapping key, key' => key' = key
  | _, _ => False

/-- The call is the failure of a fetch of a publication that waits, and is tried again. -/
def Call.Fails (cfg : SubscriberConfig) (env : SubscribeInputs) (s : Subscriber) :
    Call → PublicationKey → Prop
  | .markPublicationFetchFailed key, key' => key' = key ∧ key ∈ s.fetchMap ∧
      ∃ state ∈ s.publicationFetchStates[key]?, ¬PublicationFetchState.isExhausted cfg env state
  | _, _ => False

theorem Edit.delivers {call : Call} (hedit : Edit cfg env call s t u) (hspares : call.Spares p)
    (h₀ : Among p s) (h : Delivers p call.Queued (call.Fails cfg env s) s t) :
    Delivers p call.Queued (call.Fails cfg env s) t u := by
  cases hedit with
  | subscribed key sub hcall =>
    subst hcall
    exact delivers_addPublicationFetch h.among
      (show Call.Queued (.addPublicationFetch key sub) key from rfl) hspares
  | queued key mapping sub hcall hmatches =>
    subst hcall
    exact delivers_addPublicationFetch h.among
      (show Call.Queued (.processMapping key) key from rfl)
      (h₀.matching mapping.name sub hmatches.mem)
  | given key mapping sub packet hcall hmatches =>
    exact delivers_invoke h.among key _ true (h₀.matching mapping.name sub hmatches.mem)
  | announced key mapping sub hcall hmatches =>
    exact delivers_invoke h.among key _ false (h₀.matching mapping.name sub hmatches.mem)
  | remembered key hknows => exact delivers_rememberPiggyDelivered h.among (h.knows hknows)
  | delivered key subs hwaiting hsubs data wanted =>
    have hwanted : ∀ sub ∈ subs.filter wanted, p sub.callback :=
      fun sub hsub => h.among.waiting key subs hsubs sub (List.mem_filter.mp hsub).1
    exact (delivers_invokeAll h.among key data hwanted).bind
      fun among => delivers_cleanUpFetch among key
  | divided key subs hstart hsubs firstData innerData =>
    have hwanted : ∀ sub ∈ subs.filter fun sub => sub.isPacketSubscription ||
        !innerData.finalBlock.isSome, p sub.callback :=
      fun sub hsub => h.among.waiting key subs hsubs sub (List.mem_filter.mp hsub).1
    exact (delivers_invokeAll h.among key _ hwanted).bind fun among => .of_scene among rfl
  | dropped key => exact delivers_cleanUpFetch h.among key
  | swept => exact delivers_sweepFetches h.among
  | failed key state hcall hstart hkey hstate hretried =>
    subst hcall hstart
    exact delivers_markPublicationFetchFailed h.among
      fun _ _ => ⟨rfl, hkey, state, hstate, hretried⟩
  | observed key => exact delivers_observePublicationFetchSuccess h.among key
  | repaired key => exact delivers_enqueueRepairPublication h.among key
  | _ => exact .of_scene h.among rfl

/-- What a call does that leaves the mappings alone. -/
theorem delivers_act {call : Call} (hcall : ¬call.IsMapping) (hspares : call.Spares p)
    (h : Among p s) : Delivers p call.Queued (call.Fails cfg env s) s (act cfg env call s).2 := by
  have hrun : ∀ t, Edits cfg env call s s t →
      Delivers p call.Queued (call.Fails cfg env s) s t := by
    intro t hedits
    induction hedits with
    | refl => exact .refl h
    | tail _ hedit ih => exact ih.trans (hedit.delivers hspares h ih)
  exact hrun _ (edits_act hcall s)

theorem spares_true (call : Call) : call.Spares fun _ => True := by
  cases call with
  | _ => trivial

theorem frame_act (cfg : SubscriberConfig) (env : SubscribeInputs) (s : Subscriber) (call : Call)
    (h : ¬call.IsMapping) : Frame s (act cfg env call s).2 :=
  (delivers_act h (spares_true call) (among_true s)).toFrame

/-- The other calls do nothing but to the mappings and to the queries for them. -/
theorem mapping_act (cfg : SubscriberConfig) (env : SubscribeInputs) (s : Subscriber) {call : Call}
    (h : call.IsMapping) : ∃ mappings mappingFetcher inFlight suppressUntil,
      (act cfg env call s).2 = { s with
        mappings, mappingFetcher, mappingFetchInFlight := inFlight
        mappingFetchSuppressUntil := suppressUntil } := by
  cases call with
  | scheduleMappingFetch requested streamName =>
    unfold act scheduleMappingFetch
    dsimp only
    split
    · exact ⟨_, _, _, _, rfl⟩
    · split
      · exact ⟨_, _, _, _, rfl⟩
      · exact ⟨_, _, _, _, rfl⟩
  | insertUnknownMapping key entry =>
    unfold act insertUnknownMapping
    dsimp only
    split
    · exact ⟨_, _, _, _, rfl⟩
    · exact ⟨_, _, _, _, rfl⟩
  | markMappingFetchComplete key => exact ⟨_, _, _, _, rfl⟩
  | markMappingFetchFailed key => exact ⟨_, _, _, _, rfl⟩
  | insertMapping key entry => exact ⟨_, _, _, _, rfl⟩
  | _ => exact h.elim

end Delivers

/-! ### The mapping store -/

theorem getMapping_insertMapping (s : Subscriber) (key key' : PublicationKey)
    (entry : MappingEntryPair) :
    (s.insertMapping key entry).getMapping key' =
      if makeMappingKey key.nodeId key.bootstrapTime key.seqNo =
          makeMappingKey key'.nodeId key'.bootstrapTime key'.seqNo then some entry
      else s.getMapping key' := by
  rw [getMapping, insertMapping, Map.get_insert]
  rfl

@[simp] theorem getMapping_insertMapping_self (s : Subscriber) (key : PublicationKey)
    (entry : MappingEntryPair) : (s.insertMapping key entry).getMapping key = some entry := by
  rw [getMapping_insertMapping, if_pos rfl]

theorem getMapping_scheduleMappingFetch (cfg : SubscriberConfig) (env : SubscribeInputs)
    (s : Subscriber) (requested : MissingDataInfo) (streamName : Name) (key : PublicationKey) :
    (s.scheduleMappingFetch cfg env requested streamName).2.getMapping key = s.getMapping key := by
  unfold scheduleMappingFetch
  dsimp only
  split
  · rfl
  · split
    · rfl
    · rfl

/-- What a call does to the mapping of a publication: nothing, unless it inserts one. -/
theorem getMapping_act (cfg : SubscriberConfig) (env : SubscribeInputs)
    (s : Subscriber) (call : Call)
    (key : PublicationKey) : (act cfg env call s).2.getMapping key =
      match call with
      | .insertMapping key' entry => (s.insertMapping key' entry).getMapping key
      | .insertUnknownMapping key' entry => (s.insertUnknownMapping key' entry).getMapping key
      | _ => s.getMapping key := by
  cases call with
  | scheduleMappingFetch requested streamName =>
    exact getMapping_scheduleMappingFetch cfg env s requested streamName key
  | markMappingFetchComplete key => rfl
  | markMappingFetchFailed key => rfl
  | insertMapping key entry => rfl
  | insertUnknownMapping key entry => rfl
  | _ => exact (frame_act cfg env s _ id).getMapping key

theorem getMapping_insertUnknownMapping {s : Subscriber} {key key' : PublicationKey}
    {entry mapping : MappingEntryPair} (h : s.getMapping key' = some mapping) :
    (s.insertUnknownMapping key entry).getMapping key' = some mapping := by
  unfold insertUnknownMapping
  cases hknown : s.getMapping key with
  | some known => exact h
  | none =>
    rw [getMapping_insertMapping]
    split
    · rename_i heq
      rw [getMapping, heq] at hknown
      rw [getMapping, hknown] at h
      cases h
    · exact h

/-- A mapping that is known stays known. -/
theorem knows_act (cfg : SubscriberConfig) (env : SubscribeInputs) {s : Subscriber}
    {key : PublicationKey} (call : Call) (h : Knows key s) : Knows key (act cfg env call s).2 := by
  obtain ⟨mapping, hmapping⟩ := Option.isSome_iff_exists.mp h
  rw [Knows, getMapping_act]
  split
  · rw [getMapping_insertMapping]
    split
    · rfl
    · exact h
  · rw [getMapping_insertUnknownMapping hmapping]
    rfl
  · exact h

end Subscriber

end NdnSvs
