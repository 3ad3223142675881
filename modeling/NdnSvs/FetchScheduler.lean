import NdnSvs.SubscribeCalls

/-! The scheduler of publication fetches.  Which publications wait and which are being fetched, what
the sweep of `fetchAll` counts and finds ready, and what a round of its loop does. -/

namespace NdnSvs

open Lib Lib.Tlv Std

/-- The publication is to be fetched when its time has come. -/
def PublicationFetchState.isWaiting (state : PublicationFetchState) : Bool :=
  state.status = .queued ∨ state.status = .backoff

namespace Subscriber

/-- The publication is being fetched by its state. -/
def FetchingIn (states : Map PublicationKey PublicationFetchState) (key : PublicationKey) : Prop :=
  ∃ state, states[key]? = some state ∧ state.status = .fetching

instance (states : Map PublicationKey PublicationFetchState) (key : PublicationKey) :
    Decidable (FetchingIn states key) :=
  decidable_of_iff ((states[key]?).any fun state => state.status = .fetching) (by
    simp [FetchingIn, Option.any_eq_true])

/-- The publication is being fetched. -/
def Fetching (s : Subscriber) (key : PublicationKey) : Prop :=
  FetchingIn s.publicationFetchStates key

/-- The publications that are being fetched. -/
def fetchingKeys (s : Subscriber) : List PublicationKey :=
  s.publicationFetchStates.keysWhere fun _ state => state.status = .fetching

/-- The number of publications that are being fetched. -/
def fetchCount (s : Subscriber) : Nat := s.fetchingKeys.length

/-- Every publication that has a state waits. -/
def StatesWait (s : Subscriber) : Prop := ∀ key ∈ s.publicationFetchStates, key ∈ s.fetchMap

variable {cfg : SubscriberConfig} {env : SubscribeInputs} {s t : Subscriber}

theorem mem_states_of_get {key : PublicationKey} {state : PublicationFetchState}
    (h : s.publicationFetchStates[key]? = some state) : key ∈ s.publicationFetchStates := by
  rw [ExtTreeMap.mem_iff_isSome_getElem?, h]
  rfl

theorem mem_fetchingKeys {key : PublicationKey} : key ∈ s.fetchingKeys ↔ s.Fetching key := by
  simp only [fetchingKeys, Map.mem_keysWhere, Fetching, FetchingIn, decide_eq_true_eq]

theorem nodup_fetchingKeys (s : Subscriber) : s.fetchingKeys.Nodup := Map.nodup_keysWhere _ _

theorem fetchCount_le (h : ∀ key, t.Fetching key → s.Fetching key) :
    t.fetchCount ≤ s.fetchCount :=
  (List.subperm_of_subset (nodup_fetchingKeys t) fun key hkey =>
    mem_fetchingKeys.mpr (h key (mem_fetchingKeys.mp hkey))).length_le

theorem fetchCount_eq {keys : List PublicationKey} (hnodup : keys.Nodup)
    (h : ∀ key, s.Fetching key ↔ key ∈ keys) : s.fetchCount = keys.length :=
  ((List.perm_ext_iff_of_nodup (nodup_fetchingKeys s) hnodup).mpr fun key =>
    mem_fetchingKeys.trans (h key)).length_eq

/-! ### The sweep -/

/-- What a round of the sweep does with the state of one publication. -/
structure SweptKey (env : SubscribeInputs) (sweep swept : Sweep) (key : PublicationKey)
    (state : PublicationFetchState) : Prop where
  states : swept.states = sweep.states.insert key state
  inFlight : swept.inFlight = sweep.inFlight + if state.status = .fetching then 1 else 0
  ready : swept.ready = sweep.ready ++
    if state.isWaiting ∧ state.nextAttempt ≤ env.steadyNow then [key] else []
  fetching : state.status = .fetching → sweep.states[key]? = some state
  later : state.isWaiting → env.steadyNow < state.nextAttempt → sweep.states[key]? = some state

theorem swept_sweepKey (sweep : Sweep) (key : PublicationKey) :
    ∃ state, SweptKey env sweep (sweepKey cfg env sweep key) key state := by
  unfold sweepKey
  dsimp only
  generalize hstate : (if ((sweep.states[key]?).getD {}).firstQueued = 0 then
      PublicationFetchState.start cfg env ((sweep.states[key]?).getD {})
        cfg.publicationFetchInterestLifetime
    else (sweep.states[key]?).getD {}) = state
  -- a state that has just been started is queued, for now
  have hold : state.status = .fetching ∨ env.steadyNow < state.nextAttempt →
      sweep.states[key]? = some state := by
    intro h
    split at hstate
    · subst hstate
      rcases h with hstatus | hlt
      · cases hstatus
      · exact absurd hlt (lt_irrefl _)
    · rename_i hqueued
      cases hget : sweep.states[key]? with
      | none =>
        rw [hget] at hqueued
        exact absurd rfl hqueued
      | some old =>
        rw [hget] at hstate
        exact congrArg some hstate
  cases hstatus : state.status with
  | fetching | delivered | expired =>
    exact ⟨state, rfl, by simp [hstatus], by simp [PublicationFetchState.isWaiting, hstatus],
      fun h => hold (.inl h), fun _ h => hold (.inr h)⟩
  | queued | backoff =>
    dsimp only
    split
    · exact ⟨{ state with status := .expired }, rfl, by simp,
        by simp [PublicationFetchState.isWaiting], nofun, nofun⟩
    · split
      · exact ⟨state, rfl, by simp [hstatus], by simp_all [PublicationFetchState.isWaiting],
          fun h => hold (.inl h), fun _ h => hold (.inr h)⟩
      · exact ⟨state, rfl, by simp [hstatus], by simp_all [PublicationFetchState.isWaiting],
          fun h => hold (.inl h), fun _ h => hold (.inr h)⟩

/-- What the sweep does with the states of distinct publications. -/
structure Swept (env : SubscribeInputs) (sweep swept : Sweep) (keys : List PublicationKey) :
    Prop where
  others : ∀ key : PublicationKey, key ∉ keys → swept.states[key]? = sweep.states[key]?
  inFlight : swept.inFlight =
    sweep.inFlight + (keys.filter fun key => FetchingIn swept.states key).length
  ready : ∀ key : PublicationKey, key ∈ sweep.ready ∨ (key ∈ keys ∧
    ∃ state : PublicationFetchState, swept.states[key]? = some state ∧ state.isWaiting ∧
      state.nextAttempt ≤ env.steadyNow) → key ∈ swept.ready
  kept : ∀ (key : PublicationKey) (state : PublicationFetchState), swept.states[key]? = some state →
    state.status = .fetching ∨ state.isWaiting ∧ env.steadyNow < state.nextAttempt →
      sweep.states[key]? = some state

theorem swept_foldl {keys : List PublicationKey} (hnodup : keys.Nodup) (sweep : Sweep) :
    Swept env sweep (keys.foldl (sweepKey cfg env) sweep) keys := by
  induction keys generalizing sweep with
  | nil =>
    exact ⟨fun _ _ => rfl, rfl, fun key h => h.elim id fun h => absurd h.1 List.not_mem_nil,
      fun _ _ h _ => h⟩
  | cons key keys ih =>
    obtain ⟨hkey, hnodup⟩ := List.nodup_cons.mp hnodup
    obtain ⟨state, hone⟩ := @swept_sweepKey cfg env sweep key
    have hrest := ih hnodup (sweepKey cfg env sweep key)
    have hget : (keys.foldl (sweepKey cfg env) (sweepKey cfg env sweep key)).states[key]? =
        some state := by
      rw [hrest.others key hkey, hone.states, Map.get_insert, if_pos rfl]
    have hfetching : FetchingIn (keys.foldl (sweepKey cfg env)
        (sweepKey cfg env sweep key)).states key ↔ state.status = .fetching :=
      ⟨fun ⟨state', hget', h⟩ => Option.some.inj (hget.symm.trans hget') ▸ h,
        fun h => ⟨state, hget, h⟩⟩
    constructor
    · intro key' hkey'
      obtain ⟨hne, hkey'⟩ := not_or.mp (List.mem_cons.not.mp hkey')
      rw [List.foldl_cons, hrest.others key' hkey', hone.states, Map.get_insert_ne (Ne.symm hne)]
    · rw [List.foldl_cons, hrest.inFlight, hone.inFlight]
      by_cases hstatus : state.status = .fetching
      · rw [if_pos hstatus, List.filter_cons, if_pos (decide_eq_true (hfetching.mpr hstatus)),
          List.length_cons]
        omega
      · rw [if_neg hstatus, List.filter_cons, if_neg (by simpa [hfetching] using hstatus)]
        rfl
    · rintro key' (hready | ⟨hmem, state', hget', hdue⟩)
      · exact hrest.ready key' (.inl (by rw [hone.ready]; exact List.mem_append_left _ hready))
      · rcases List.mem_cons.mp hmem with rfl | hmem
        · obtain rfl := Option.some.inj (hget.symm.trans hget')
          refine hrest.ready key' (.inl ?_)
          rw [hone.ready, if_pos hdue]
          exact List.mem_append_right _ List.mem_cons_self
        · exact hrest.ready key' (.inr ⟨hmem, state', hget', hdue⟩)
    · intro key' state' hget' hkept
      have hold := hrest.kept key' state' hget' hkept
      rw [hone.states, Map.get_insert] at hold
      split at hold
      · rename_i heq
        obtain rfl := Option.some.inj hold
        exact heq ▸ hkept.elim hone.fetching fun h => hone.later h.1 h.2
      · exact hold

/-- The states after the first pass of the sweep. -/
abbrev sweptStates (cfg : SubscriberConfig) (env : SubscribeInputs) (s : Subscriber) : Sweep :=
  (s.fetchMap.toList.map Prod.fst).foldl (sweepKey cfg env) { states := s.publicationFetchStates }

theorem swept_states (s : Subscriber) : Swept env { states := s.publicationFetchStates }
    (sweptStates cfg env s) (s.fetchMap.toList.map Prod.fst) :=
  swept_foldl (Map.nodup_keys _) _

/-- The sweep drops only states that have expired. -/
theorem get_sweepFetches {key : PublicationKey} {state : PublicationFetchState}
    (hstatus : state.status ≠ .expired) :
    (s.sweepFetches cfg env).2.publicationFetchStates[key]? = some state ↔
      (sweptStates cfg env s).states[key]? = some state := by
  constructor
  · exact Map.get_of_eraseAll
  · intro hget
    refine (Map.getElem?_eraseAll _ _ _).trans ((if_neg fun hmem => ?_).trans hget)
    obtain ⟨entry, hentry, rfl⟩ := List.mem_map.mp hmem
    obtain ⟨hentry, hexpired⟩ := List.mem_filter.mp hentry
    obtain rfl := Option.some.inj (hget.symm.trans (Map.mem_toList.mp hentry))
    exact hstatus (of_decide_eq_true hexpired).1

theorem mem_fetchMap_of_swept {key : PublicationKey} {state : PublicationFetchState}
    (hs : s.StatesWait) (hget : (sweptStates cfg env s).states[key]? = some state) :
    key ∈ s.fetchMap := by
  by_contra hmem
  have hothers := (@swept_states cfg env s).others key fun h => hmem (Map.mem_keys.mp h)
  exact hmem (hs key (mem_states_of_get (hothers.symm.trans hget)))

theorem statesWait_sweepFetches (hs : s.StatesWait) : (s.sweepFetches cfg env).2.StatesWait := by
  intro key hmem
  obtain ⟨hmem, hkept⟩ := Map.mem_eraseAll.mp hmem
  obtain ⟨state, hget⟩ := Option.isSome_iff_exists.mp (ExtTreeMap.mem_iff_isSome_getElem?.mp hmem)
  exact Map.mem_eraseAll.mpr ⟨mem_fetchMap_of_swept hs hget, hkept⟩

/-- A state that the sweep leaves is the old one, unless its publication is due. -/
theorem kept_sweepFetches {key : PublicationKey} {state : PublicationFetchState}
    (hget : (s.sweepFetches cfg env).2.publicationFetchStates[key]? = some state)
    (hkept : state.status = .fetching ∨ state.isWaiting ∧ env.steadyNow < state.nextAttempt) :
    s.publicationFetchStates[key]? = some state :=
  (@swept_states cfg env s).kept key state (Map.get_of_eraseAll hget) hkept

/-- The sweep counts the publications that are being fetched. -/
theorem fetchCount_sweepFetches (hs : s.StatesWait) :
    (s.sweepFetches cfg env).2.fetchCount = (s.sweepFetches cfg env).1.2 := by
  refine Eq.trans ?_ ((@swept_states cfg env s).inFlight.trans (Nat.zero_add _)).symm
  refine fetchCount_eq ((Map.nodup_keys _).filter _) fun key => ?_
  rw [List.mem_filter, decide_eq_true_eq, Map.mem_keys]
  constructor
  · rintro ⟨state, hget, hstatus⟩
    have hget := Map.get_of_eraseAll hget
    exact ⟨mem_fetchMap_of_swept hs hget, state, hget, hstatus⟩
  · rintro ⟨-, state, hget, hstatus⟩
    exact ⟨state, (get_sweepFetches (by simp [hstatus])).mpr hget, hstatus⟩

/-- The sweep finds every publication that waits and is due. -/
theorem ready_sweepFetches (hs : s.StatesWait) {key : PublicationKey}
    {state : PublicationFetchState}
    (hget : (s.sweepFetches cfg env).2.publicationFetchStates[key]? = some state)
    (hwaiting : state.isWaiting) (hdue : state.nextAttempt ≤ env.steadyNow) :
    key ∈ (s.sweepFetches cfg env).1.1 := by
  have hget := Map.get_of_eraseAll hget
  refine (List.perm_insertionSort _ _).mem_iff.mpr ((@swept_states cfg env s).ready key (.inr ?_))
  exact ⟨Map.mem_keys.mpr (mem_fetchMap_of_swept hs hget), state, hget, hwaiting, hdue⟩

/-! ### The loop -/

theorem fetching_startFetch {key key' : PublicationKey} {state : PublicationFetchState} :
    (s.startFetch cfg env key state).Fetching key' ↔ key' = key ∨ s.Fetching key' := by
  constructor
  · rintro ⟨state', hget, hstatus⟩
    rw [startFetch, Map.get_insert] at hget
    split at hget
    · rename_i heq
      exact .inl heq.symm
    · exact .inr ⟨state', hget, hstatus⟩
  · intro h
    by_cases heq : key = key'
    · refine ⟨_, (Map.get_insert ..).trans (if_pos heq), rfl⟩
    · obtain ⟨state', hget, hstatus⟩ := h.resolve_left (Ne.symm heq)
      exact ⟨state', (Map.get_insert_ne heq).trans hget, hstatus⟩

/-- A slot is taken. -/
theorem fetchCount_startFetch {key : PublicationKey} (hkey : ¬s.Fetching key)
    (state : PublicationFetchState) :
    (s.startFetch cfg env key state).fetchCount = s.fetchCount + 1 := by
  have hnodup : (key :: s.fetchingKeys).Nodup :=
    List.nodup_cons.mpr ⟨fun h => hkey (mem_fetchingKeys.mp h), nodup_fetchingKeys s⟩
  refine fetchCount_eq hnodup fun key' => ?_
  rw [fetching_startFetch, List.mem_cons, mem_fetchingKeys]

theorem get_observed_ne {key key' : PublicationKey} (hne : key' ≠ key) :
    (s.observePublicationFetchSuccess cfg env key).publicationFetchStates[key']? =
      s.publicationFetchStates[key']? := by
  unfold observePublicationFetchSuccess
  split
  · rfl
  · split
    · exact Map.get_insert_ne (Ne.symm hne)
    · exact Map.get_insert_ne (Ne.symm hne)

theorem get_deliverCached (key : PublicationKey) (name : Name) (packet : Data)
    (key' : PublicationKey) :
    (s.deliverCached cfg env key name packet).publicationFetchStates[key']? =
      if key' = key then none else s.publicationFetchStates[key']? := by
  rw [deliverCached, invokeAll_eq]
  by_cases heq : key' = key
  · rw [if_pos heq]
    exact (Map.get_erase ..).trans (if_pos heq.symm)
  · rw [if_neg heq]
    exact (Map.get_erase_ne (Ne.symm heq)).trans (get_observed_ne heq)

theorem fetching_deliverCached {key : PublicationKey} (hkey : ¬s.Fetching key) (name : Name)
    (packet : Data) (key' : PublicationKey) :
    (s.deliverCached cfg env key name packet).Fetching key' ↔ s.Fetching key' := by
  simp only [Fetching, FetchingIn, get_deliverCached]
  by_cases heq : key' = key
  · rw [if_pos heq]
    constructor
    · rintro ⟨_, hget, -⟩
      cases hget
    · exact fun h => absurd (heq ▸ h) hkey
  · rw [if_neg heq]

/-- What a round of the loop of `fetchAll` does: it passes over a publication that is being fetched
or is not due, starts the fetch of one that was not being fetched, or delivers it. -/
theorem fetchNext_cases (s : Subscriber) (key : PublicationKey) (inFlight : Nat) :
    (s.fetchNext cfg env key inFlight = (inFlight, s) ∧ (key ∈ s.fetchMap → ∀ state,
        s.publicationFetchStates[key]? = some state →
          state.status = .fetching ∨ env.steadyNow < state.nextAttempt)) ∨
      (¬s.Fetching key ∧ key ∈ s.fetchMap ∧ ∃ state,
        s.fetchNext cfg env key inFlight = (inFlight + 1, s.startFetch cfg env key state)) ∨
      (¬s.Fetching key ∧ ∃ name packet,
        s.fetchNext cfg env key inFlight = (inFlight, s.deliverCached cfg env key name packet)) :=
    by
  unfold fetchNext
  split
  · rename_i subs state hsubs hstate
    have hkey : key ∈ s.fetchMap := by
      rw [ExtTreeMap.mem_iff_isSome_getElem?, hsubs]
      rfl
    split
    · rename_i hpassed
      exact .inl ⟨rfl, fun _ state' hget => Option.some.inj (hstate.symm.trans hget) ▸ hpassed⟩
    · rename_i hdue
      have hidle : ¬s.Fetching key := fun ⟨state', hget, hstatus⟩ =>
        hdue (.inl (Option.some.inj (hstate.symm.trans hget) ▸ hstatus))
      split
      · exact .inr (.inl ⟨hidle, hkey, state, rfl⟩)
      · split
        · exact .inr (.inl ⟨hidle, hkey, state, rfl⟩)
        · exact .inr (.inr ⟨hidle, _, _, rfl⟩)
  · rename_i hnone
    refine .inl ⟨rfl, fun hkey state hget => ?_⟩
    obtain ⟨subs, hsubs⟩ := Option.isSome_iff_exists.mp (ExtTreeMap.mem_iff_isSome_getElem?.mp hkey)
    exact absurd hget (hnone subs state hsubs)

/-- The loop counts on. -/
theorem fetchCount_fetchNext {inFlight : Nat} (hcount : s.fetchCount = inFlight)
    (key : PublicationKey) : (s.fetchNext cfg env key inFlight).2.fetchCount =
      (s.fetchNext cfg env key inFlight).1 := by
  rcases @fetchNext_cases cfg env s key inFlight with
    ⟨heq, -⟩ | ⟨hidle, -, state, heq⟩ | ⟨hidle, name, packet, heq⟩
  · rw [heq, hcount]
  · rw [heq, fetchCount_startFetch hidle, hcount]
  · rw [heq, ← hcount]
    exact fetchCount_eq (nodup_fetchingKeys s) fun key' =>
      (fetching_deliverCached hidle name packet key').trans mem_fetchingKeys.symm

end Subscriber

end NdnSvs
