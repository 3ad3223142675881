import NdnSvs.FetchScheduler

/-! The slots of the publication fetches.  A publication that is being fetched has a request at the
fetcher, and there are never more than the window allows, exactly as long as no validation fails for
good for the only request of a publication that is being fetched. -/

namespace NdnSvs

open Lib Lib.Tlv Std

/-- The request is for the publication. -/
def DataRequest.isFor (key : PublicationKey) : DataRequest → Bool
  | .publication key' _ => key' = key
  | .prefetch _ => false

namespace Subscriber

/-- No publication is being fetched anew, and no request is lost. -/
structure Retains (s t : Subscriber) : Prop where
  fetching : ∀ key, t.Fetching key → s.Fetching key
  outstanding : ∀ request ∈ s.dataFetcher.outstanding, request ∈ t.dataFetcher.outstanding
  waiting : s.StatesWait → t.StatesWait

variable {cfg : SubscriberConfig} {env : SubscribeInputs} {s t u : Subscriber}

theorem Retains.refl (s : Subscriber) : Retains s s := ⟨fun _ => id, fun _ => id, id⟩

theorem Retains.trans (h : Retains s t) (h' : Retains t u) : Retains s u where
  fetching := fun key hkey => h.fetching key (h'.fetching key hkey)
  outstanding := fun request hrequest => h'.outstanding request (h.outstanding request hrequest)
  waiting := fun hs => h'.waiting (h.waiting hs)

theorem Retains.of_same (hstates : t.publicationFetchStates = s.publicationFetchStates)
    (hmap : t.fetchMap = s.fetchMap)
    (houtstanding : ∀ request ∈ s.dataFetcher.outstanding, request ∈ t.dataFetcher.outstanding) :
    Retains s t where
  fetching := by simp only [Fetching, hstates]; exact fun _ => id
  outstanding := houtstanding
  waiting := by simp only [StatesWait, hstates, hmap]; exact id

/-- A new state under which the publication is not being fetched, unless it was before. -/
theorem Retains.insert {key : PublicationKey} {state : PublicationFetchState}
    (hstates : t.publicationFetchStates = s.publicationFetchStates.insert key state)
    (hstatus : state.status = .fetching → s.Fetching key)
    (houtstanding : ∀ request ∈ s.dataFetcher.outstanding, request ∈ t.dataFetcher.outstanding)
    (hmap : ∀ key' ∈ s.fetchMap, key' ∈ t.fetchMap) (hkey : s.StatesWait → key ∈ t.fetchMap) :
    Retains s t where
  fetching := by
    rintro key' ⟨state', hget, hstatus'⟩
    rw [hstates, Map.get_insert] at hget
    split at hget
    · rename_i heq
      obtain rfl := Option.some.inj hget
      exact heq ▸ hstatus hstatus'
    · exact ⟨state', hget, hstatus'⟩
  outstanding := houtstanding
  waiting := by
    intro hs key' hmem
    rw [hstates] at hmem
    rcases ExtTreeMap.mem_insert.mp hmem with heq | hmem
    · exact LawfulEqOrd.eq_of_compare heq ▸ hkey hs
    · exact hmap key' (hs key' hmem)

theorem retains_cleanUpFetch (s : Subscriber) (key : PublicationKey) :
    Retains s (s.cleanUpFetch key) where
  fetching := by
    rintro key' ⟨state, hget, hstatus⟩
    rw [cleanUpFetch, Map.get_erase] at hget
    split at hget
    · cases hget
    · exact ⟨state, hget, hstatus⟩
  outstanding := fun _ => id
  waiting := fun hs key' hmem => by
    obtain ⟨hne, hmem⟩ := ExtTreeMap.mem_erase.mp hmem
    exact ExtTreeMap.mem_erase.mpr ⟨hne, hs key' hmem⟩

theorem retains_addPublicationFetch (s : Subscriber) (key : PublicationKey) (sub : Subscription) :
    Retains s (s.addPublicationFetch cfg env key sub) := by
  refine .insert rfl (fun hstatus => ?_) (fun _ => id)
    (fun key' hmem => ExtTreeMap.mem_insert.mpr (.inr hmem))
    fun _ => ExtTreeMap.mem_insert.mpr (.inl ReflCmp.compare_self)
  split at hstatus
  · cases hstatus
  · cases hget : s.publicationFetchStates[key]? with
    | none => rw [hget] at hstatus; cases hstatus
    | some state =>
      rw [hget] at hstatus
      exact ⟨state, hget, hstatus⟩

theorem retains_observePublicationFetchSuccess (s : Subscriber) (key : PublicationKey) :
    Retains s (s.observePublicationFetchSuccess cfg env key) := by
  unfold observePublicationFetchSuccess
  split
  · exact .refl s
  · rename_i state hstate
    have hkey : s.StatesWait → key ∈ s.fetchMap := fun hs => hs key (mem_states_of_get hstate)
    split
    · exact .insert rfl (fun hstatus => by cases hstatus) (fun _ => id) (fun _ => id) hkey
    · exact .insert rfl (fun hstatus => by cases hstatus) (fun _ => id) (fun _ => id) hkey

theorem retains_markPublicationFetchFailed (s : Subscriber) (key : PublicationKey) :
    Retains s (s.markPublicationFetchFailed cfg env key) := by
  unfold markPublicationFetchFailed
  split
  · rename_i subs state hsubs hstate
    split
    · exact retains_cleanUpFetch s key
    · have hkey : key ∈ s.fetchMap := by
        rw [ExtTreeMap.mem_iff_isSome_getElem?, hsubs]
        rfl
      obtain ⟨extra, heq⟩ := rememberRepairRequest_eq s key
      rw [heq]
      exact .insert rfl (fun hstatus => by cases hstatus) (fun _ => id) (fun _ => id)
        fun _ => hkey
  · exact .refl s

theorem retains_sweepFetches (s : Subscriber) : Retains s (s.sweepFetches cfg env).2 where
  fetching := fun _ ⟨state, hget, hstatus⟩ =>
    ⟨state, kept_sweepFetches hget (.inl hstatus), hstatus⟩
  outstanding := fun _ => id
  waiting := statesWait_sweepFetches

theorem retains_invokeAll (s : Subscriber) (key : PublicationKey) (data : SubscriptionData)
    (subs : List Subscription) : Retains s (s.invokeAll key data subs) := by
  rw [invokeAll_eq]
  exact .of_same rfl rfl fun _ => id

theorem retains_rememberPiggyDelivered (s : Subscriber) (key : PublicationKey) :
    Retains s (s.rememberPiggyDeliveredPublication key) :=
  .of_same rfl rfl fun _ => id

theorem Edit.retains {call : Call} {s₀ : Subscriber} (h : Edit cfg env call s₀ s t)
    (hcall : ∀ key inFlight, call ≠ .fetchNext key inFlight) : Retains s t := by
  cases h with
  | subscribed key sub => exact retains_addPublicationFetch s key sub
  | queued key mapping sub => exact retains_addPublicationFetch s key sub
  | delivered key => exact (retains_invokeAll s key _ _).trans (retains_cleanUpFetch _ key)
  | divided =>
    rw [invokeAll_eq]
    exact .of_same rfl rfl fun _ => id
  | dropped key => exact retains_cleanUpFetch s key
  | swept => exact retains_sweepFetches s
  | started key state inFlight heq => exact absurd heq (hcall key inFlight)
  | failed key => exact retains_markPublicationFetchFailed s key
  | observed key => exact retains_observePublicationFetchSuccess s key
  | prefetched key =>
    refine .of_same rfl rfl fun request hmem => ?_
    exact (Fetcher.outstanding_expressInterest ..).mem_iff.mpr (List.mem_cons_of_mem _ hmem)
  | repaired key =>
    obtain ⟨_, heq⟩ := @enqueueRepairPublication_eq cfg env s key
    rw [heq]
    exact .of_same rfl rfl fun _ => id
  | _ => exact .of_same rfl rfl fun _ => id

theorem retains_act {call : Call} (hcall : ∀ key inFlight, call ≠ .fetchNext key inFlight) :
    Retains s (act cfg env call s).2 := by
  by_cases hmapping : call.IsMapping
  · obtain ⟨_, _, _, _, heq⟩ := mapping_act cfg env s hmapping
    rw [heq]
    exact .of_same rfl rfl fun _ => id
  · have hrun : ∀ t, Edits cfg env call s s t → Retains s t := by
      intro t hedits
      induction hedits with
      | refl => exact .refl s
      | tail _ hedit ih => exact ih.trans (hedit.retains hcall)
    exact hrun _ (edits_act hmapping s)

theorem retains_deliverCached (key : PublicationKey) (name : Name) (packet : Data) :
    Retains s (s.deliverCached cfg env key name packet) :=
  (retains_invokeAll s key _ _).trans <| (retains_rememberPiggyDelivered _ key).trans <|
    (retains_observePublicationFetchSuccess _ key).trans (retains_cleanUpFetch _ key)

/-! ### The slots -/

/-- Every publication that is being fetched has a request that has not come to its outcome, and
there are no more of them than the window allows. -/
structure SlotsHeld (cfg : SubscriberConfig) (s : Subscriber) : Prop where
  requested : ∀ key, s.Fetching key → ∃ request ∈ s.dataFetcher.outstanding, request.isFor key
  count : s.fetchCount ≤ max 1 cfg.publicationFetchWindow

theorem SlotsHeld.retains (h : SlotsHeld cfg s) (hretains : Retains s t) : SlotsHeld cfg t where
  requested := fun key hkey => by
    obtain ⟨request, hmem, hfor⟩ := h.requested key (hretains.fetching key hkey)
    exact ⟨request, hretains.outstanding request hmem, hfor⟩
  count := (fetchCount_le hretains.fetching).trans h.count

theorem SlotsHeld.startFetch (h : SlotsHeld cfg s) {key : PublicationKey} (hkey : ¬s.Fetching key)
    (hroom : s.fetchCount < max 1 cfg.publicationFetchWindow) (state : PublicationFetchState) :
    SlotsHeld cfg (s.startFetch cfg env key state) where
  requested := fun key' hkey' => by
    have hout := Fetcher.outstanding_expressInterest cfg.fetcher s.dataFetcher
      (.publication key (clampLifetime cfg state.currentLifetime)) cfg.publicationFetchInnerRetries
    rcases fetching_startFetch.mp hkey' with rfl | hkey'
    · exact ⟨_, hout.mem_iff.mpr List.mem_cons_self, decide_eq_true rfl⟩
    · obtain ⟨request, hmem, hfor⟩ := h.requested key' hkey'
      exact ⟨request, hout.mem_iff.mpr (List.mem_cons_of_mem _ hmem), hfor⟩
  count := (fetchCount_startFetch hkey state).trans_le hroom

/-- The slots are held, and every publication that has a state waits. -/
structure Slots (cfg : SubscriberConfig) (s : Subscriber) : Prop extends SlotsHeld cfg s where
  wait : s.StatesWait

theorem Slots.retains (h : Slots cfg s) (hretains : Retains s t) : Slots cfg t :=
  ⟨h.toSlotsHeld.retains hretains, hretains.waiting h.wait⟩

/-- A round leaves the slots held. -/
theorem Slots.fetchNext (h : Slots cfg s)
    (hroom : s.fetchCount < max 1 cfg.publicationFetchWindow) (key : PublicationKey)
    (inFlight : Nat) : Slots cfg (s.fetchNext cfg env key inFlight).2 := by
  rcases @fetchNext_cases cfg env s key inFlight with
    ⟨heq, -⟩ | ⟨hidle, hkey, state, heq⟩ | ⟨-, name, packet, heq⟩
  · rw [heq]
    exact h
  · rw [heq]
    refine ⟨h.startFetch hidle hroom state, fun key' hmem => ?_⟩
    rcases ExtTreeMap.mem_insert.mp hmem with hsame | hmem
    · exact LawfulEqOrd.eq_of_compare hsame ▸ hkey
    · exact h.wait key' hmem
  · rw [heq]
    exact h.retains (retains_deliverCached key name packet)

/-- The loop of `fetchAll` takes no more slots than there are. -/
theorem ends_fetchReady (ready : List PublicationKey) {inFlight : Nat} (h : Slots cfg s)
    (hcount : s.fetchCount = inFlight) :
    (fetchReady (max 1 cfg.publicationFetchWindow) ready inFlight).Ends (act cfg env)
      (fun _ t => Slots cfg t) s := by
  induction ready generalizing inFlight s with
  | nil => exact Program.ends_ret.mpr h
  | cons key ready ih =>
    rw [fetchReady]
    split
    · exact Program.ends_ret.mpr h
    · rename_i hroom
      have hslots := @Slots.fetchNext cfg env s h (hcount ▸ Nat.lt_of_not_le hroom) key inFlight
      exact Program.ends_bind (Program.ends_perform.mpr
        (ih hslots (fetchCount_fetchNext hcount key)))

theorem keeps_fetchAll :
    Program.Keeps (act cfg env) (Slots cfg) (fetchAll cfg) fun _ => True := by
  intro s hs
  refine (Program.ends_bind (Program.ends_perform.mpr ?_)).mono fun _ t ht => ⟨trivial, ht⟩
  exact ends_fetchReady _ (hs.retains (retains_sweepFetches s)) (fetchCount_sweepFetches hs.wait)

theorem keeps_perform {call : Call} (hcall : ¬call.Fetches) :
    Program.Keeps (act cfg env) (Slots cfg) (perform call) fun _ => True :=
  Program.keeps_perform fun _ hs =>
    hs.retains (retains_act fun _ _ heq => hcall (heq ▸ trivial))

/-- The handlers take no more slots than there are. -/
theorem keeps_beginStep {begun : Subscriber} {e : SubscriberEvent × SubscribeInputs}
    {handler : Handler Unit} (hbegin : beginStep cfg s e = some (begun, handler)) :
    Program.Keeps (act cfg env) (Slots cfg) handler fun _ => True :=
  closed_beginStep (Program.closed_keeps _) (fun _ _ _ _ hcall => keeps_perform hcall)
    (fun _ _ => keeps_perform id) cfg keeps_fetchAll
    (fun _ _ hcall => keeps_perform hcall.not_fetches)
    (fun _ _ hcall => keeps_perform hcall.not_fetches)
    (fun _ _ _ _ => ⟨fun _ _ => keeps_perform id, fun _ _ _ _ => keeps_perform id⟩) hbegin

/-! ### Steps -/

/-- The handler of an event that is none of the fetcher of publications begins with the slots. -/
theorem Slots.begun (h : Slots cfg s) {begun : Subscriber} {e : SubscriberEvent × SubscribeInputs}
    {handler : Handler Unit} (hbegin : beginStep cfg s e = some (begun, handler))
    (he : ∀ event, e.1 ≠ .dataFetcher event) : Slots cfg begun := by
  refine h.retains ?_
  rcases beginStep_cases hbegin with hsubscribes | ⟨_, _, _, _, _, _, _, rfl, -, -, hfetcher, -⟩
  · cases hsubscribes with
    | _ => exact .of_same rfl rfl fun _ => id
  · rcases hfetcher with rfl | ⟨event, heq⟩
    · exact .of_same rfl rfl fun _ => id
    · exact absurd heq (he event)

/-- The slots but for one publication, whose request has come to its outcome. -/
structure SlotsBut (cfg : SubscriberConfig) (key : PublicationKey) (s : Subscriber) : Prop where
  requested : ∀ key', key' ≠ key → s.Fetching key' →
    ∃ request ∈ s.dataFetcher.outstanding, request.isFor key'
  count : s.fetchCount ≤ max 1 cfg.publicationFetchWindow
  wait : s.StatesWait

/-- The publication is no longer being fetched. -/
theorem SlotsBut.slots {key : PublicationKey} (h : SlotsBut cfg key s) (hretains : Retains s t)
    (hkey : ¬t.Fetching key) : Slots cfg t where
  requested := fun key' hkey' => by
    have hne : key' ≠ key := fun heq => hkey (heq ▸ hkey')
    obtain ⟨request, hmem, hfor⟩ := h.requested key' hne (hretains.fetching key' hkey')
    exact ⟨request, hretains.outstanding request hmem, hfor⟩
  count := (fetchCount_le hretains.fetching).trans h.count
  wait := hretains.waiting h.wait

theorem not_fetching_insert {key : PublicationKey} {state : PublicationFetchState}
    (hstates : t.publicationFetchStates = s.publicationFetchStates.insert key state)
    (hstatus : state.status ≠ .fetching) : ¬t.Fetching key := by
  rintro ⟨state', hget, hstatus'⟩
  rw [hstates, Map.get_insert, if_pos rfl] at hget
  obtain rfl := Option.some.inj hget
  exact hstatus hstatus'

theorem not_fetching_observed (key : PublicationKey) :
    ¬(s.observePublicationFetchSuccess cfg env key).Fetching key := by
  unfold observePublicationFetchSuccess
  split
  · rename_i hnone
    rintro ⟨state, hget, -⟩
    rw [hnone] at hget
    cases hget
  · split
    · exact not_fetching_insert rfl (fun heq => by cases heq)
    · exact not_fetching_insert rfl (fun heq => by cases heq)

theorem not_fetching_failed (hwait : s.StatesWait) (key : PublicationKey) :
    ¬(s.markPublicationFetchFailed cfg env key).Fetching key := by
  unfold markPublicationFetchFailed
  split
  · split
    · rintro ⟨state, hget, -⟩
      rw [cleanUpFetch, Map.get_erase, if_pos rfl] at hget
      cases hget
    · exact not_fetching_insert (s := s.rememberRepairRequest key) rfl (fun heq => by cases heq)
  · rename_i hnone
    rintro ⟨state, hget, -⟩
    have hkey := hwait key (mem_states_of_get hget)
    obtain ⟨subs, hsubs⟩ := Option.isSome_iff_exists.mp (ExtTreeMap.mem_iff_isSome_getElem?.mp hkey)
    exact hnone subs state hsubs hget

theorem retains_exec {α : Type} {p : Handler α} {a : α}
    (hmakes : Program.Makes (fun call => ¬call.Fetches) p)
    (hexec : p.exec (Subscriber.act cfg env) s = some (a, t)) : Retains s t := by
  have hkeep : ∀ (u : Subscriber) (call : Call), ¬call.Fetches → Retains s u →
      Retains s (Subscriber.act cfg env call u).2 := fun u call hcall hu =>
    hu.trans (retains_act fun key inFlight heq => hcall (heq ▸ trivial))
  exact Program.exec_invariant hkeep (.refl s) (hmakes.along (fun _ _ hcall => hcall) s) hexec

theorem SlotsBut.failed {key : PublicationKey} (h : SlotsBut cfg key s)
    (hexec : (perform (.markPublicationFetchFailed key)).exec (Subscriber.act cfg env) s =
      some ((), t)) : Slots cfg t := by
  obtain ⟨-, rfl⟩ := Prod.mk.inj (Option.some.inj hexec)
  exact h.slots (retains_markPublicationFetchFailed s key) (not_fetching_failed h.wait key)

/-- The end of a request for a publication frees its slot, unless it is a failed validation. -/
theorem SlotsBut.onSyncData {key : PublicationKey} (h : SlotsBut cfg key s) {data : Data}
    (hexec : (onSyncData cfg data key).exec (Subscriber.act cfg env) s = some ((), t)) :
    Slots cfg t := by
  unfold Subscriber.onSyncData at hexec
  split at hexec
  · exact h.failed hexec
  · have hslots : Slots cfg (s.observePublicationFetchSuccess cfg env key) :=
      h.slots (retains_observePublicationFetchSuccess s key) (not_fetching_observed key)
    refine hslots.retains (retains_exec ?_ hexec)
    split
    · exact Program.makes_perform id
    · split
      · exact Program.makes_perform id
      · exact Program.makes_perform id

/-- The requests that are left when one has come to its outcome. -/
theorem outstanding_of_step {fetcher : Fetcher DataRequest} {event : FetcherEvent}
    {outcome : Option (FetchOutcome DataRequest)}
    (hstep : s.dataFetcher.step cfg.fetcher event = some (fetcher, outcome))
    {request : DataRequest} (hmem : request ∈ s.dataFetcher.outstanding)
    (hother : ∀ o ∈ outcome, o.request ≠ request) : request ∈ fetcher.outstanding := by
  have hleft := (Fetcher.step_outstanding hstep).mem_iff.mp hmem
  rcases List.mem_append.mp hleft with hended | hleft
  · obtain ⟨o, ho, heq⟩ := Option.map_eq_some_iff.mp (Option.mem_toList.mp hended)
    exact absurd heq (hother o ho)
  · exact hleft

/-- Before the handler of an outcome. -/
theorem Slots.but (h : Slots cfg s) {fetcher : Fetcher DataRequest} {event : FetcherEvent}
    {outcome : Option (FetchOutcome DataRequest)} {key : PublicationKey}
    (hstep : s.dataFetcher.step cfg.fetcher event = some (fetcher, outcome))
    (hkey : ∀ o ∈ outcome, ∀ key', o.request.isFor key' → key' = key) (now : Int) :
    SlotsBut cfg key { s with steadyNow := now, dataFetcher := fetcher } where
  requested := fun key' hne hkey' => by
    obtain ⟨request, hmem, hfor⟩ := h.requested key' hkey'
    refine ⟨request, outstanding_of_step hstep hmem fun o ho heq => ?_, hfor⟩
    exact hne (hkey o ho key' (heq ▸ hfor))
  count := h.count
  wait := h.wait

/-- A validation fails for good, and the publication is being fetched by no other request. -/
def LosesSlot (s : Subscriber) : SubscriberEvent → Prop
  | .dataFetcher (.verdict index false) => ∃ qi data key,
      s.dataFetcher.validating[index]? = some (qi, data) ∧ qi.nRetriesOnValidationFail ≤ 0 ∧
        qi.request.isFor key ∧ s.Fetching key ∧
        ∀ request ∈ ({ s.dataFetcher with
          validating := s.dataFetcher.validating.eraseIdx index } : Fetcher _).outstanding,
          ¬request.isFor key
  | _ => False

/-- The end of a request that is for no publication. -/
theorem Slots.spared (h : Slots cfg s) {fetcher : Fetcher DataRequest} {event : FetcherEvent}
    {outcome : Option (FetchOutcome DataRequest)}
    (hstep : s.dataFetcher.step cfg.fetcher event = some (fetcher, outcome))
    (hnone : ∀ o ∈ outcome, ∀ key, ¬o.request.isFor key) (now : Int) :
    Slots cfg { s with steadyNow := now, dataFetcher := fetcher } where
  requested := fun key hkey => by
    obtain ⟨request, hmem, hfor⟩ := h.requested key hkey
    refine ⟨request, outstanding_of_step hstep hmem fun o ho heq => ?_, hfor⟩
    exact hnone o ho key (heq ▸ hfor)
  count := h.count
  wait := h.wait

theorem isFor_publication {key key' : PublicationKey} {lifetime : Int}
    (h : (DataRequest.publication key lifetime).isFor key') : key' = key :=
  (of_decide_eq_true h).symm

/-- A failed validation leaves the slots held, when none is lost. -/
theorem Slots.validationFailed (h : Slots cfg s) {fetcher : Fetcher DataRequest}
    {event : FetcherEvent} {request : DataRequest}
    (hstep : s.dataFetcher.step cfg.fetcher event =
      some (fetcher, some (.validationFailed request)))
    (hloses : ¬LosesSlot s (.dataFetcher event)) (now : Int) :
    Slots cfg { s with steadyNow := now, dataFetcher := fetcher } where
  requested := fun key hkey => by
    obtain ⟨index, qi, data, rfl, hqi, hretries, rfl, rfl⟩ := Fetcher.validationFailed_of_step hstep
    by_cases hfor : qi.request.isFor key
    · by_contra hnone
      exact hloses ⟨qi, data, key, hqi, hretries, hfor, hkey,
        fun request hmem hother => hnone ⟨request, hmem, hother⟩⟩
    · obtain ⟨request, hmem, hother⟩ := h.requested key hkey
      refine ⟨request, outstanding_of_step hstep hmem fun o ho heq => hfor ?_, hother⟩
      obtain rfl := Option.some.inj ho
      obtain rfl : qi.request = request := heq
      exact hother
  count := h.count
  wait := h.wait

/-- The outcome of a request. -/
theorem Slots.outcome (h : Slots cfg s) {fetcher : Fetcher DataRequest} {event : FetcherEvent}
    {outcome : Option (FetchOutcome DataRequest)}
    (hstep : s.dataFetcher.step cfg.fetcher event = some (fetcher, outcome))
    (hloses : ¬LosesSlot s (.dataFetcher event)) {now : Int}
    (hexec : (onDataOutcome cfg outcome).exec (Subscriber.act cfg env)
      { s with steadyNow := now, dataFetcher := fetcher } = some ((), t)) : Slots cfg t := by
  have hbut : ∀ {key : PublicationKey} {lifetime : Int},
      (∀ o ∈ outcome, o.request = .publication key lifetime) →
      SlotsBut cfg key { s with steadyNow := now, dataFetcher := fetcher } := by
    intro key lifetime hrequest
    refine h.but hstep (fun o ho key' hfor => ?_) now
    rw [hrequest o ho] at hfor
    exact isFor_publication hfor
  have hspared : (∀ o ∈ outcome, ∀ key, ¬o.request.isFor key) →
      onDataOutcome cfg outcome = .ret () → Slots cfg t := by
    intro hnone hret
    rw [hret] at hexec
    obtain ⟨-, rfl⟩ := Prod.mk.inj (Option.some.inj hexec)
    exact h.spared hstep hnone now
  cases outcome with
  | none => exact hspared (fun _ ho => by cases ho) rfl
  | some o =>
    have hone : ∀ {request : DataRequest}, o.request = request →
        ∀ o' ∈ some o, o'.request = request := by
      rintro request heq o' ho
      obtain rfl := Option.some.inj ho
      exact heq
    cases o with
    | satisfied request data =>
      cases request with
      | publication key lifetime => exact (hbut (hone rfl)).onSyncData hexec
      | prefetch key =>
        exact hspared (fun o ho key => by rw [hone rfl o ho]; exact Bool.false_ne_true) rfl
    | nacked request =>
      cases request with
      | publication key lifetime => exact (hbut (hone rfl)).failed hexec
      | prefetch key =>
        exact hspared (fun o ho key => by rw [hone rfl o ho]; exact Bool.false_ne_true) rfl
    | timedOut request =>
      cases request with
      | publication key lifetime => exact (hbut (hone rfl)).failed hexec
      | prefetch key =>
        exact hspared (fun o ho key => by rw [hone rfl o ho]; exact Bool.false_ne_true) rfl
    | validationFailed request =>
      obtain ⟨-, rfl⟩ := Prod.mk.inj (Option.some.inj hexec)
      exact h.validationFailed hstep hloses now

/-- A step that loses no slot leaves them held. -/
theorem slots_step {e : SubscriberEvent × SubscribeInputs} (hstep : step cfg s e = some t)
    (h : Slots cfg s) (hloses : ¬LosesSlot s e.1) : Slots cfg t := by
  obtain ⟨-, begun, handler, hbegin, hexec⟩ := step_eq_some hstep
  by_cases hfetcher : ∃ event, e.1 = .dataFetcher event
  · obtain ⟨event, heq⟩ := hfetcher
    obtain ⟨e, env⟩ := e
    subst heq
    obtain ⟨⟨fetcher, outcome⟩, houtcome, hbegin⟩ := Option.map_eq_some_iff.mp hbegin
    obtain ⟨rfl, rfl⟩ := Prod.mk.inj hbegin
    exact h.outcome houtcome hloses hexec
  · have hbegun := h.begun hbegin fun event heq => hfetcher ⟨event, heq⟩
    exact (keeps_beginStep hbegin begun hbegun () t hexec).2

/-- A step that loses a slot. -/
theorem not_slots_of_loses {e : SubscriberEvent × SubscribeInputs} (hstep : step cfg s e = some t)
    (hloses : LosesSlot s e.1) : ¬SlotsHeld cfg t := by
  obtain ⟨-, begun, handler, hbegin, hexec⟩ := step_eq_some hstep
  obtain ⟨e, env⟩ := e
  unfold LosesSlot at hloses
  split at hloses
  · rename_i index he
    obtain rfl : e = .dataFetcher (.verdict index false) := he
    obtain ⟨qi, data, key, hqi, hretries, hfor, hkey, hnone⟩ := hloses
    obtain ⟨⟨fetcher, outcome⟩, houtcome, hbegin⟩ := Option.map_eq_some_iff.mp hbegin
    obtain ⟨rfl, rfl⟩ := Prod.mk.inj hbegin
    obtain ⟨v, hv, heq⟩ := Option.map_eq_some_iff.mp houtcome
    obtain rfl := Option.some.inj (hqi.symm.trans hv)
    dsimp only at heq
    rw [if_neg Bool.false_ne_true, Fetcher.onValidationFailed,
      if_neg (Int.not_lt.mpr hretries)] at heq
    obtain ⟨rfl, rfl⟩ := Prod.mk.inj heq
    obtain ⟨-, rfl⟩ := Prod.mk.inj (Option.some.inj hexec)
    intro h
    obtain ⟨request, hmem, hother⟩ := h.requested key hkey
    exact hnone request hmem hother
  · exact hloses.elim

/-- The slots are held in every state of the runs that lose none, and of no others. -/
theorem slots_held_iff (cfg : SubscriberConfig) (es : List (SubscriberEvent × SubscribeInputs)) :
    Throughout (step cfg) (SlotsHeld cfg) (initial cfg) es ↔
      Along (step cfg) (fun s e => (step cfg s e).isSome → ¬LosesSlot s e.1) (initial cfg) es := by
  have hidle : ∀ key, ¬(initial cfg).Fetching key := by
    rintro key ⟨state, hget, -⟩
    simp [initial] at hget
  have hslots : Slots cfg (initial cfg) :=
    ⟨⟨fun key hkey => absurd hkey (hidle key), by
      rw [fetchCount_eq List.nodup_nil fun key => iff_of_false (hidle key) List.not_mem_nil]
      exact Nat.zero_le _⟩, fun key hmem => by simp [initial] at hmem⟩
  have hany : Along (step cfg) (fun _ _ => True) (initial cfg) es :=
    along_of_forall (fun _ _ _ => trivial) _
  refine throughout_iff_along_of_invariant (fun s e s' hstep _ hok hs => ?_)
    (fun s hs => hs.toSlotsHeld) (fun s e s' hstep _ hs hP _ hloses => ?_)
    (fun s e hnone hsome => by rw [hnone] at hsome; cases hsome) hslots hany
  · exact slots_step hstep hs (hok (by rw [hstep]; rfl))
  · exact not_slots_of_loses hstep hloses hP

/-- A packet that fails its validation for good keeps its slot. -/
theorem failed_validation_keeps_slot :
    let es : List (SubscriberEvent × SubscribeInputs) := [subscribeTo (.ofStrings ["x"]),
      peerMapping (.ofStrings ["x"]),
      (.dataFetcher (.data 0 { name := .ofStrings ["a", "x"] }), {}),
      (.dataFetcher (.verdict 0 false), {})]
    let s := (run (step checkingSubscriber) (initial checkingSubscriber) es).get (by decide +kernel)
    run (step checkingSubscriber) (initial checkingSubscriber) es = some s ∧
      (s.publicationFetchStates[sampleKey]?).map PublicationFetchState.status = some .fetching ∧
      s.dataFetcher.outstanding = [] ∧ ¬SlotsHeld checkingSubscriber s := by
  intro es s
  have hstate : (s.publicationFetchStates[sampleKey]?).map PublicationFetchState.status =
      some .fetching := by decide +kernel
  have hnone : s.dataFetcher.outstanding = [] := by decide +kernel
  refine ⟨(Option.some_get _).symm, hstate, hnone, fun h => ?_⟩
  obtain ⟨state, hget, hstatus⟩ := Option.map_eq_some_iff.mp hstate
  obtain ⟨request, hmem, -⟩ := h.requested sampleKey ⟨state, hget, hstatus⟩
  rw [hnone] at hmem
  cases hmem

end Subscriber

end NdnSvs
