import NdnSvs.FetchScheduler

/-! Whether the fetches of publications go on.  A publication that waits while the window has room
is started by a call of `fetchAll` that is scheduled, exactly as long as no handler ends with a call
that frees a slot, or puts a publication in line, and schedules nothing. -/

namespace NdnSvs

open Lib Lib.Tlv Std

namespace Subscriber

/-- The publication waits to be fetched. -/
def Waiting (s : Subscriber) (key : PublicationKey) : Prop :=
  ∃ state, s.publicationFetchStates[key]? = some state ∧ state.isWaiting

/-- The publications that wait to be fetched. -/
def waitingKeys (s : Subscriber) : List PublicationKey :=
  s.publicationFetchStates.keysWhere fun _ state => state.isWaiting

/-- Whenever a publication could be started, from the last event on, a call of `fetchAll` is
scheduled. -/
def Conserving (cfg : SubscriberConfig) (s : Subscriber) : Prop :=
  ∀ now, s.steadyNow ≤ now → ∀ key ∈ s.fetchMap, ∀ state,
    s.publicationFetchStates[key]? = some state →
    state.status = .queued ∨ state.status = .backoff → state.nextAttempt ≤ now →
    s.fetchCount < max 1 cfg.publicationFetchWindow → s.timers ≠ []

/-- A publication waits, the window has room, and no call of `fetchAll` is scheduled. -/
structure Idle (cfg : SubscriberConfig) (s : Subscriber) : Prop where
  unscheduled : s.timers = []
  waiting : ∃ key, s.Waiting key
  room : s.fetchCount < max 1 cfg.publicationFetchWindow

variable {cfg : SubscriberConfig} {env : SubscribeInputs} {s t u : Subscriber}

theorem mem_waitingKeys {key : PublicationKey} : key ∈ s.waitingKeys ↔ s.Waiting key :=
  Map.mem_keysWhere

theorem conserving_iff (hs : s.StatesWait) : Conserving cfg s ↔ ¬Idle cfg s := by
  constructor
  · rintro hconserving ⟨htimers, ⟨key, state, hget, hwaiting⟩, hroom⟩
    exact hconserving (max s.steadyNow state.nextAttempt) (le_max_left _ _) key
      (hs key (mem_states_of_get hget)) state hget (of_decide_eq_true hwaiting) (le_max_right _ _)
      hroom htimers
  · intro hidle now _ key _ state hget hwaiting _ hroom htimers
    exact hidle ⟨htimers, ⟨key, state, hget, decide_eq_true hwaiting⟩, hroom⟩

/-! ### Timers -/

/-- A publication that waits for its next attempt has a call of `fetchAll` scheduled for it. -/
structure Timed (now : Int) (s : Subscriber) : Prop where
  clock : s.steadyNow = now
  wait : s.StatesWait
  covered : ∀ (key : PublicationKey) (state : PublicationFetchState),
    s.publicationFetchStates[key]? = some state → state.isWaiting → now < state.nextAttempt →
      state.nextAttempt ∈ s.timers

variable {now : Int}

theorem Timed.of_same (hs : Timed now s) (hclock : t.steadyNow = s.steadyNow)
    (hstates : t.publicationFetchStates = s.publicationFetchStates) (hmap : t.fetchMap = s.fetchMap)
    (htimers : t.timers = s.timers) : Timed now t where
  clock := hclock.trans hs.clock
  wait := by
    rw [StatesWait, hstates, hmap]
    exact hs.wait
  covered := by
    rw [hstates, htimers]
    exact hs.covered

/-- A new state, for whose next attempt there is a timer. -/
theorem Timed.insert (hs : Timed now s) {key : PublicationKey} {state : PublicationFetchState}
    (hclock : t.steadyNow = s.steadyNow)
    (hstates : t.publicationFetchStates = s.publicationFetchStates.insert key state)
    (hmap : ∀ key' ∈ s.fetchMap, key' ∈ t.fetchMap) (hkey : key ∈ t.fetchMap)
    (htimers : ∀ due ∈ s.timers, due ∈ t.timers)
    (hdue : state.isWaiting → now < state.nextAttempt → state.nextAttempt ∈ t.timers) :
    Timed now t where
  clock := hclock.trans hs.clock
  wait := by
    intro key' hmem
    rw [hstates] at hmem
    rcases ExtTreeMap.mem_insert.mp hmem with heq | hmem
    · exact LawfulEqOrd.eq_of_compare heq ▸ hkey
    · exact hmap key' (hs.wait key' hmem)
  covered := by
    intro key' state' hget hwaiting hlater
    rw [hstates, Map.get_insert] at hget
    split at hget
    · obtain rfl := Option.some.inj hget
      exact hdue hwaiting hlater
    · exact htimers _ (hs.covered key' state' hget hwaiting hlater)

theorem Timed.cleanUpFetch (hs : Timed now s) (key : PublicationKey) :
    Timed now (s.cleanUpFetch key) where
  clock := hs.clock
  wait := fun key' hmem => by
    obtain ⟨hne, hmem⟩ := ExtTreeMap.mem_erase.mp hmem
    exact ExtTreeMap.mem_erase.mpr ⟨hne, hs.wait key' hmem⟩
  covered := fun key' state hget hwaiting hlater => by
    rw [Subscriber.cleanUpFetch, Map.get_erase] at hget
    split at hget
    · cases hget
    · exact hs.covered key' state hget hwaiting hlater

theorem Timed.invokeAll (hs : Timed now s) (key : PublicationKey) (data : SubscriptionData)
    (subs : List Subscription) : Timed now (s.invokeAll key data subs) := by
  rw [invokeAll_eq]
  exact hs.of_same rfl rfl rfl rfl

theorem Timed.addPublicationFetch (hs : Timed env.steadyNow s) (key : PublicationKey)
    (sub : Subscription) : Timed env.steadyNow (s.addPublicationFetch cfg env key sub) := by
  refine hs.insert rfl rfl (fun _ hmem => ExtTreeMap.mem_insert.mpr (.inr hmem))
    (ExtTreeMap.mem_insert.mpr (.inl ReflCmp.compare_self)) (fun _ => id) ?_
  split
  · exact fun _ hlater => absurd hlater (lt_irrefl _)
  · rename_i hqueued
    intro hwaiting hlater
    cases hget : s.publicationFetchStates[key]? with
    | none =>
      rw [hget] at hqueued
      exact absurd rfl hqueued
    | some state =>
      rw [hget] at hwaiting hlater
      exact hs.covered key state hget hwaiting hlater

/-- The timer of a publication that is tried again is due at its next attempt. -/
theorem backOff_due (state : PublicationFetchState) : env.steadyNow + toStdDuration (toNdnDuration
    ((PublicationFetchState.backOff cfg env state).nextAttempt - env.steadyNow)) =
      (PublicationFetchState.backOff cfg env state).nextAttempt := by
  dsimp only [PublicationFetchState.backOff]
  rw [add_sub_cancel_left, toNdnDuration, toStdDuration, toStdDuration,
    Int.mul_tdiv_cancel _ (by decide)]

theorem Timed.markPublicationFetchFailed (hs : Timed now s) (key : PublicationKey) :
    Timed now (s.markPublicationFetchFailed cfg env key) := by
  unfold Subscriber.markPublicationFetchFailed
  split
  · rename_i subs state hsubs hstate
    split
    · exact hs.cleanUpFetch key
    · have hkey : key ∈ s.fetchMap := hs.wait key (mem_states_of_get hstate)
      obtain ⟨extra, heq⟩ := rememberRepairRequest_eq s key
      rw [heq]
      refine hs.insert rfl rfl (fun _ => id) hkey (fun due => List.mem_append_left _)
        fun _ _ => ?_
      dsimp only
      rw [backOff_due]
      exact List.mem_append_right _ List.mem_cons_self
  · exact hs

theorem Timed.observePublicationFetchSuccess (hs : Timed now s) (key : PublicationKey) :
    Timed now (s.observePublicationFetchSuccess cfg env key) := by
  unfold Subscriber.observePublicationFetchSuccess
  split
  · exact hs
  · rename_i state hstate
    have hkey : key ∈ s.fetchMap := hs.wait key (mem_states_of_get hstate)
    split
    · exact hs.insert rfl rfl (fun _ => id) hkey (fun _ => id) fun hwaiting => by cases hwaiting
    · exact hs.insert rfl rfl (fun _ => id) hkey (fun _ => id) fun hwaiting => by cases hwaiting

theorem Timed.sweepFetches (hs : Timed env.steadyNow s) :
    Timed env.steadyNow (s.sweepFetches cfg env).2 where
  clock := hs.clock
  wait := statesWait_sweepFetches hs.wait
  covered := fun key state hget hwaiting hlater =>
    hs.covered key state (kept_sweepFetches hget (.inr ⟨hwaiting, hlater⟩)) hwaiting hlater

theorem Edit.timed {call : Call} {s₀ : Subscriber} (h : Edit cfg env call s₀ s t)
    (hs : Timed env.steadyNow s) : Timed env.steadyNow t := by
  cases h with
  | subscribed key sub => exact hs.addPublicationFetch key sub
  | queued key mapping sub => exact hs.addPublicationFetch key sub
  | delivered key => exact (hs.invokeAll key _ _).cleanUpFetch key
  | divided =>
    rw [invokeAll_eq]
    exact hs.of_same rfl rfl rfl rfl
  | dropped key => exact hs.cleanUpFetch key
  | swept => exact hs.sweepFetches
  | started key state inFlight _ _ hkey =>
    exact hs.insert rfl rfl (fun _ => id) hkey (fun _ => id) fun hwaiting => by cases hwaiting
  | failed key => exact hs.markPublicationFetchFailed key
  | observed key => exact hs.observePublicationFetchSuccess key
  | repaired key =>
    obtain ⟨_, heq⟩ := @enqueueRepairPublication_eq cfg env s key
    rw [heq]
    exact hs.of_same rfl rfl rfl rfl
  | _ => exact hs.of_same rfl rfl rfl rfl

theorem timed_act (call : Call) (hs : Timed env.steadyNow s) :
    Timed env.steadyNow (act cfg env call s).2 := by
  by_cases hmapping : call.IsMapping
  · obtain ⟨_, _, _, _, heq⟩ := mapping_act cfg env s hmapping
    rw [heq]
    exact hs.of_same rfl rfl rfl rfl
  · have hrun : ∀ t, Edits cfg env call s s t → Timed env.steadyNow t := by
      intro t hedits
      induction hedits with
      | refl => exact hs
      | tail _ hedit ih => exact hedit.timed ih
    exact hrun _ (edits_act hmapping s)

/-- Time goes on while the handler of an event begins. -/
theorem Timed.later (hs : Timed s.steadyNow s) (hclock : s.steadyNow ≤ now) :
    Timed now { s with steadyNow := now } where
  clock := rfl
  wait := hs.wait
  covered := fun key state hget hwaiting hlater =>
    hs.covered key state hget hwaiting (Int.lt_of_le_of_lt hclock hlater)

/-- A timer that is due covers nothing that waits for a later time. -/
theorem Timed.fired (hs : Timed s.steadyNow s) (hclock : s.steadyNow ≤ now) {index : Nat}
    {due : Int} (hget : s.timers[index]? = some due) (hdue : due ≤ now) :
    Timed now { s with steadyNow := now, timers := s.timers.eraseIdx index } where
  clock := rfl
  wait := hs.wait
  covered := fun key state hstate hwaiting hlater => by
    have hmem := hs.covered key state hstate hwaiting (Int.lt_of_le_of_lt hclock hlater)
    obtain ⟨hlt, rfl⟩ := List.getElem?_eq_some_iff.mp hget
    have hleft := (List.getElem_cons_eraseIdx_perm hlt).mem_iff.mpr hmem
    refine (List.mem_cons.mp hleft).resolve_left fun heq => ?_
    exact absurd hdue (Int.not_le.mpr (heq ▸ hlater))

/-! ### What a call does to what waits -/

/-- The publication has no state, or one that has never been queued. -/
def isUnqueued (s : Subscriber) (key : PublicationKey) : Bool :=
  ((s.publicationFetchStates[key]?).getD {}).firstQueued = 0

/-- A subscription comes to wait for the publication when its mapping is processed. -/
def queues (cfg : SubscriberConfig) (env : SubscribeInputs) (s : Subscriber)
    (key : PublicationKey) : Bool :=
  !s.hasPiggyDeliveredPublication key ∧ (s.getMapping key).any fun mapping =>
    let tooOld := if 0 < cfg.maxPubAge then isTooOld cfg env mapping.additional else .ok false
    tooOld.toOption = some false ∧ (s.matching cfg mapping.name).any Subscription.autofetch ∧
      (s.piggyPacket mapping.name).isNone

/-- The publication that a call puts in line. -/
def putInLine (cfg : SubscriberConfig) (env : SubscribeInputs) (s : Subscriber) :
    Call → Option PublicationKey
  | .addPublicationFetch key _ => if s.isUnqueued key then some key else none
  | .processMapping key => if s.queues cfg env key ∧ s.isUnqueued key then some key else none
  | _ => none

/-- Whether a call ends the fetch of a publication. -/
def endsFetch (s : Subscriber) : Call → PublicationKey → Bool
  | .satisfyPendingFetch data, key =>
    key ∈ s.fetchMap ∧ (s.getMapping key).any fun mapping => mapping.name = data.name
  | .markPublicationFetchFailed failed, key => key = failed
  | .observePublicationFetchSuccess observed, key => key = observed
  | .cleanUpFetch dropped, key => key = dropped
  | .returnData firstData innerData returned, key =>
    key = returned ∧ (s.fetchMap[returned]?).any fun subs =>
      ¬((subs.any fun sub => !sub.isPacketSubscription) ∧ innerData.finalBlock.isSome ∧
        2 < firstData.name.length)
  | .finishOne index _, key => (s.assemblies[index]?).any fun state =>
      !state.terminal ∧ state.completed + 1 = state.expected ∧ state.publication = key
  | _, _ => false

/-- A fetch fails and is tried again, for which the call schedules one of `fetchAll`. -/
def schedules (cfg : SubscriberConfig) (env : SubscribeInputs) (s : Subscriber) : Call → Bool
  | .markPublicationFetchFailed key => key ∈ s.fetchMap ∧ (s.publicationFetchStates[key]?).any
      fun state => !PublicationFetchState.isExhausted cfg env state
  | _ => false

/-- The call leaves a publication that waits, or that it puts in line, and fewer fetches than the
window allows, with no call of `fetchAll` scheduled. -/
def LeavesIdle (cfg : SubscriberConfig) (env : SubscribeInputs) (s : Subscriber) (call : Call) :
    Prop :=
  s.timers = [] ∧ ¬s.schedules cfg env call ∧
    ((s.waitingKeys.filter fun key => !s.endsFetch call key) ≠ [] ∨
      (s.putInLine cfg env call).isSome) ∧
    (s.fetchingKeys.filter fun key =>
      !s.endsFetch call key ∧ s.putInLine cfg env call ≠ some key).length <
        max 1 cfg.publicationFetchWindow

instance (call : Call) : Decidable (LeavesIdle cfg env s call) :=
  inferInstanceAs (Decidable (_ ∧ _))

/-- The publications of `ends` no longer wait and are not being fetched, and that of `line` waits
anew. -/
structure Changes (ends : PublicationKey → Bool) (line : Option PublicationKey)
    (s t : Subscriber) : Prop where
  timers : t.timers = s.timers
  waiting : ∀ key, t.Waiting key ↔ s.Waiting key ∧ ¬ends key ∨ line = some key
  fetching : ∀ key, t.Fetching key ↔ s.Fetching key ∧ ¬ends key ∧ line ≠ some key

theorem Changes.of_get {ends : PublicationKey → Bool} (htimers : t.timers = s.timers)
    (hkept : ∀ key, ends key = false →
      t.publicationFetchStates[key]? = s.publicationFetchStates[key]?)
    (hended : ∀ key state, ends key → t.publicationFetchStates[key]? = some state →
      state.status = .delivered) : Changes ends none s t where
  timers := htimers
  waiting := fun key => by
    cases hends : ends key with
    | false => simp [Waiting, hkept key hends]
    | true =>
      simp only [not_true, and_false, reduceCtorEq, or_false, iff_false]
      rintro ⟨state, hget, hwaiting⟩
      simp [PublicationFetchState.isWaiting, hended key state hends hget] at hwaiting
  fetching := fun key => by
    cases hends : ends key with
    | false => simp [Fetching, FetchingIn, hkept key hends]
    | true =>
      simp only [not_true, false_and, and_false, iff_false]
      rintro ⟨state, hget, hstatus⟩
      rw [hended key state hends hget] at hstatus
      cases hstatus

theorem Changes.of_same (htimers : t.timers = s.timers)
    (hstates : t.publicationFetchStates = s.publicationFetchStates) :
    Changes (fun _ => false) none s t :=
  .of_get htimers (fun key _ => by rw [hstates]) fun _ _ h => by cases h

theorem Changes.of_erase {ends : PublicationKey → Bool} (htimers : t.timers = s.timers)
    (hstates : ∀ key, t.publicationFetchStates[key]? =
      if ends key then none else s.publicationFetchStates[key]?) : Changes ends none s t := by
  refine .of_get htimers (fun key hends => ?_) fun key state hends hget => ?_
  · rw [hstates, hends]
    rfl
  · rw [hstates, if_pos hends] at hget
    cases hget

theorem Changes.cleanUpFetch (htimers : t.timers = s.timers)
    (hstates : t.publicationFetchStates = s.publicationFetchStates) (key : PublicationKey) :
    Changes (fun key' => key' = key) none s (t.cleanUpFetch key) := by
  refine .of_erase htimers fun key' => (Map.get_erase ..).trans ?_
  rw [hstates]
  by_cases heq : key = key'
  · rw [if_pos heq, if_pos (decide_eq_true heq.symm)]
  · rw [if_neg heq, if_neg (by simpa using Ne.symm heq)]

/-- Nothing that would end is there. -/
theorem Changes.of_absent {ends : PublicationKey → Bool} (h : Changes (fun _ => false) none s t)
    (habsent : ∀ key, ends key → s.publicationFetchStates[key]? = none) :
    Changes ends none s t where
  timers := h.timers
  waiting := fun key => by
    rw [h.waiting]
    cases hends : ends key with
    | false => simp
    | true => simp [Waiting, habsent key hends]
  fetching := fun key => by
    rw [h.fetching]
    cases hends : ends key with
    | false => simp
    | true => simp [Fetching, FetchingIn, habsent key hends]

theorem changes_observed (s : Subscriber) (key : PublicationKey) :
    Changes (fun key' => key' = key) none s (s.observePublicationFetchSuccess cfg env key) := by
  cases hstate : s.publicationFetchStates[key]? with
  | none =>
    rw [observePublicationFetchSuccess, hstate]
    exact (Changes.of_same rfl rfl).of_absent fun key' heq => of_decide_eq_true heq ▸ hstate
  | some state =>
    obtain ⟨_, _, heq⟩ := @observePublicationFetchSuccess_eq cfg env s key
    refine .of_get (by rw [heq]) (fun key' hne => get_observed_ne (by simpa using hne)) ?_
    rintro key' state' hsame hget
    obtain rfl := of_decide_eq_true hsame
    rw [observePublicationFetchSuccess, hstate] at hget
    dsimp only at hget
    split at hget
    · rw [Map.get_insert, if_pos rfl] at hget
      exact Option.some.inj hget ▸ rfl
    · rw [Map.get_insert, if_pos rfl] at hget
      exact Option.some.inj hget ▸ rfl

theorem changes_failed (hs : s.StatesWait) {key : PublicationKey}
    (hschedules : ¬s.schedules cfg env (.markPublicationFetchFailed key)) :
    Changes (fun key' => key' = key) none s (s.markPublicationFetchFailed cfg env key) := by
  unfold markPublicationFetchFailed
  split
  · rename_i subs state hsubs hstate
    split
    · exact .cleanUpFetch (by rfl) (by rfl) key
    · rename_i hretried
      refine absurd (decide_eq_true ⟨hs key (mem_states_of_get hstate), ?_⟩) hschedules
      rw [hstate]
      exact (Bool.not_eq_true' _).mpr (Bool.eq_false_iff.mpr hretried)
  · rename_i hnone
    refine (Changes.of_same rfl rfl).of_absent fun key' heq => of_decide_eq_true heq ▸ ?_
    cases hstate : s.publicationFetchStates[key]? with
    | none => rfl
    | some state =>
      obtain ⟨subs, hsubs⟩ := Option.isSome_iff_exists.mp
        (ExtTreeMap.mem_iff_isSome_getElem?.mp (hs key (mem_states_of_get hstate)))
      exact absurd hstate (hnone subs state hsubs)

theorem changes_satisfyPendingFetch (s : Subscriber) (data : Data) :
    Changes (s.endsFetch (.satisfyPendingFetch data)) none s
      (s.satisfyPendingFetchFromPiggyData data) := by
  have hfold : ∀ (ready : List (PublicationKey × List Subscription)) (t : Subscriber),
      let satisfied := ready.foldl (fun s entry =>
        ((s.invokeAll entry.1 (packetData data.name entry.1 data)
          entry.2).rememberPiggyDeliveredPublication entry.1).cleanUpFetch entry.1) t
      satisfied.timers = t.timers ∧ satisfied.publicationFetchStates =
        (ready.map Prod.fst).foldl (fun states key => states.erase key)
          t.publicationFetchStates := by
    intro ready
    induction ready with
    | nil => exact fun t => ⟨rfl, rfl⟩
    | cons entry ready ih =>
      intro t
      rw [List.foldl_cons, invokeAll_eq, List.map_cons, List.foldl_cons]
      exact ih _
  obtain ⟨htimers, hstates⟩ := hfold (s.fetchMap.toList.filter fun entry =>
    (s.getMapping entry.1).any fun mapping => mapping.name = data.name) s
  refine .of_erase htimers fun key => ?_
  refine (congrArg (·[key]?) hstates).trans ((Map.getElem?_eraseAll ..).trans ?_)
  refine if_congr ?_ rfl rfl
  rw [endsFetch, decide_eq_true_eq, ← Map.mem_keys, List.mem_map, List.mem_map]
  constructor
  · rintro ⟨entry, hentry, rfl⟩
    obtain ⟨hmem, hmapped⟩ := List.mem_filter.mp hentry
    exact ⟨⟨entry, hmem, rfl⟩, hmapped⟩
  · rintro ⟨⟨entry, hmem, rfl⟩, hmapped⟩
    exact ⟨entry, List.mem_filter.mpr ⟨hmem, hmapped⟩, rfl⟩

theorem changes_returnData (s : Subscriber) (firstData innerData : Data) (key : PublicationKey) :
    Changes (s.endsFetch (.returnData firstData innerData key)) none s
      (s.returnData firstData innerData key) := by
  have hends : ∀ ended : Bool, (s.fetchMap[key]?).any (fun subs =>
      ¬((subs.any fun sub => !sub.isPacketSubscription) ∧ innerData.finalBlock.isSome ∧
        2 < firstData.name.length)) = ended →
      s.endsFetch (.returnData firstData innerData key) = fun key' => key' = key ∧ ended := by
    intro ended hended
    funext key'
    rw [endsFetch, hended]
  unfold returnData
  cases hsubs : s.fetchMap[key]? with
  | none =>
    rw [hends false (by rw [hsubs]; rfl)]
    simpa using Changes.of_same rfl rfl
  | some subs =>
    dsimp only
    rw [invokeAll_eq]
    split
    · rename_i hdivided
      rw [hends false (by rw [hsubs]; exact decide_eq_false (not_not_intro hdivided))]
      simp only [Bool.false_eq_true, and_false, decide_false]
      exact .of_same rfl rfl
    · rename_i hwhole
      rw [hends true (by rw [hsubs]; exact decide_eq_true hwhole)]
      simp only [and_true]
      exact .cleanUpFetch (by rfl) (by rfl) key

theorem changes_finishOne (s : Subscriber) (index : Nat) (failed : Bool) :
    Changes (s.endsFetch (.finishOne index failed)) none s (s.finishOne index failed) := by
  unfold finishOne
  cases hstate : s.assemblies[index]? with
  | none =>
    have hends : s.endsFetch (.finishOne index failed) = fun _ => false := by
      funext key
      rw [endsFetch, hstate]
      rfl
    rw [hends]
    exact .of_same rfl rfl
  | some state =>
    have hends : s.endsFetch (.finishOne index failed) = fun key =>
        !state.terminal ∧ state.completed + 1 = state.expected ∧ state.publication = key := by
      funext key
      rw [endsFetch, hstate]
      rfl
    rw [hends]
    dsimp only
    split
    · rename_i hterminal
      simp only [hterminal, Bool.not_true, Bool.false_eq_true, false_and, decide_false]
      exact .of_same rfl rfl
    · rename_i hrunning
      split
      · rename_i hlast
        simp only [Bool.eq_false_iff.mpr hrunning, Bool.not_false, of_decide_eq_true hlast,
          true_and]
        rw [finishAssembly, invokeAll_eq]
        simp only [eq_comm]
        exact .cleanUpFetch (by rfl) (by rfl) _
      · rename_i hlast
        simp only [of_decide_eq_false (Bool.eq_false_iff.mpr hlast), false_and, and_false,
          decide_false]
        exact .of_same rfl rfl

/-! ### Publications that are put in line -/

theorem changes_addPublicationFetch (s : Subscriber) (key : PublicationKey) (sub : Subscription) :
    Changes (fun _ => false) (if s.isUnqueued key then some key else none) s
      (s.addPublicationFetch cfg env key sub) := by
  by_cases hunqueued : s.isUnqueued key
  · rw [if_pos hunqueued]
    have hget : ∀ key', (s.addPublicationFetch cfg env key sub).publicationFetchStates[key']? =
        if key = key' then some (PublicationFetchState.start cfg env
          ((s.publicationFetchStates[key]?).getD {})
          (if 0 < (s.publicationLifetimeEstimates[key.session]?).getD 0
            then (s.publicationLifetimeEstimates[key.session]?).getD 0
            else cfg.publicationFetchInterestLifetime))
        else s.publicationFetchStates[key']? := by
      intro key'
      rw [addPublicationFetch]
      dsimp only
      rw [if_pos (of_decide_eq_true hunqueued), Map.get_insert]
    refine ⟨rfl, fun key' => ?_, fun key' => ?_⟩
    · rw [Waiting, hget]
      by_cases heq : key = key'
      · simp [heq, PublicationFetchState.start, PublicationFetchState.isWaiting]
      · simp [heq, Waiting]
    · rw [Fetching, FetchingIn, hget]
      by_cases heq : key = key'
      · simp [heq, PublicationFetchState.start]
      · simp [heq, Fetching, FetchingIn]
  · rw [if_neg hunqueued]
    refine .of_get rfl (fun key' _ => ?_) fun _ _ h => by cases h
    rw [addPublicationFetch]
    dsimp only
    have hqueued : ¬((s.publicationFetchStates[key]?).getD {}).firstQueued = 0 := fun h =>
      hunqueued (decide_eq_true h)
    rw [if_neg hqueued, Map.get_insert]
    split
    · rename_i heq
      cases hstate : s.publicationFetchStates[key]? with
      | none =>
        rw [hstate] at hqueued
        exact absurd rfl hqueued
      | some state => rw [← heq, hstate]; rfl
    · rfl

theorem isUnqueued_addPublicationFetch {key : PublicationKey} (h : ¬s.isUnqueued key)
    (sub : Subscription) : ¬(s.addPublicationFetch cfg env key sub).isUnqueued key := by
  have hqueued : ¬((s.publicationFetchStates[key]?).getD {}).firstQueued = 0 := fun heq =>
    h (decide_eq_true heq)
  refine fun hunqueued => hqueued ?_
  have hzero := of_decide_eq_true hunqueued
  rw [addPublicationFetch] at hzero
  dsimp only at hzero
  rw [if_neg hqueued, Map.get_insert, if_pos rfl] at hzero
  exact hzero

/-- Two puts in line one after the other. -/
theorem Changes.append {l l' m : Option PublicationKey} (h : Changes (fun _ => false) l s t)
    (h' : Changes (fun _ => false) l' t u)
    (hm : ∀ key, m = some key ↔ l = some key ∨ l' = some key) :
    Changes (fun _ => false) m s u where
  timers := h'.timers.trans h.timers
  waiting := fun key => by
    rw [h'.waiting, h.waiting, hm]
    simp [or_assoc]
  fetching := fun key => by
    rw [h'.fetching, h.fetching]
    simp only [ne_eq, hm, not_or, Bool.false_eq_true, not_false_eq_true, true_and, and_assoc]

/-- The loop over the subscriptions that match puts the publication in line when one of them is to
get it and no packet is there. -/
theorem changes_queueOrDeliverAll (q : Processing) (key : PublicationKey) (name : Name)
    (subs : List Subscription) : Changes (fun _ => false)
      (if subs.any Subscription.autofetch ∧ (q.subscriber.piggyPacket name).isNone ∧
        q.subscriber.isUnqueued key then some key else none) q.subscriber
      (subs.foldl (queueOrDeliver cfg env key name) q).subscriber := by
  induction subs generalizing q with
  | nil => exact .of_same rfl rfl
  | cons sub subs ih =>
    have hrest := ih (queueOrDeliver cfg env key name q sub)
    have hpacket : (queueOrDeliver cfg env key name q sub).subscriber.piggyPacket name =
        q.subscriber.piggyPacket name := by
      rw [piggyPacket, queueOrDeliver_piggyDataCache]
      rfl
    rw [hpacket] at hrest
    by_cases hqueued : sub.autofetch ∧ q.subscriber.piggyPacket name = none
    · obtain ⟨hautofetch, hnone⟩ := hqueued
      have hadded : (queueOrDeliver cfg env key name q sub).subscriber =
          q.subscriber.addPublicationFetch cfg env key sub := by
        unfold queueOrDeliver
        dsimp only
        rw [if_pos hautofetch, hnone]
      rw [hadded] at hrest
      refine (hadded ▸ changes_addPublicationFetch q.subscriber key sub).append
        (hadded ▸ hrest) fun key' => ?_
      by_cases hunqueued : q.subscriber.isUnqueued key
      · simp [hautofetch, hnone, hunqueued]
      · have hstill := @isUnqueued_addPublicationFetch cfg env _ key hunqueued sub
        rw [← hadded] at hstill
        simp [hunqueued, hstill]
    · have hstates : (queueOrDeliver cfg env key name q sub).subscriber.timers =
            q.subscriber.timers ∧
          (queueOrDeliver cfg env key name q sub).subscriber.publicationFetchStates =
            q.subscriber.publicationFetchStates := by
        unfold queueOrDeliver
        dsimp only
        split
        · rename_i hautofetch
          split
          · exact ⟨rfl, rfl⟩
          · rename_i hnone
            exact absurd ⟨hautofetch, hnone⟩ hqueued
        · exact ⟨rfl, rfl⟩
      refine (Changes.of_same hstates.1 hstates.2).append hrest fun key' => ?_
      rw [isUnqueued, isUnqueued, hstates.2]
      by_cases hautofetch : sub.autofetch
      · have hsome : q.subscriber.piggyPacket name ≠ none := fun h => hqueued ⟨hautofetch, h⟩
        simp [Option.isNone_iff_eq_none, hsome]
      · simp [hautofetch]

theorem changes_processMapping (s : Subscriber) (key : PublicationKey) :
    Changes (fun _ => false) (s.putInLine cfg env (.processMapping key)) s
      (s.processMapping cfg env key).2 := by
  have hsame : ¬s.queues cfg env key →
      Changes (fun _ => false) (s.putInLine cfg env (.processMapping key)) s s := by
    intro hqueues
    rw [putInLine, if_neg fun h => hqueues h.1]
    exact .of_same rfl rfl
  unfold processMapping
  split
  · rename_i hdelivered
    exact hsame fun h => by simp [queues, hdelivered] at h
  · rename_i hfresh
    cases hmapping : s.getMapping key with
    | none => exact hsame fun h => by simp [queues, hmapping] at h
    | some mapping =>
      dsimp only
      have hall := @changes_queueOrDeliverAll cfg env { subscriber := s } key mapping.name
        (s.matching cfg mapping.name)
      cases hage : (if 0 < cfg.maxPubAge then isTooOld cfg env mapping.additional
          else .ok false) with
      | error e => exact hsame fun h => by simp [queues, hmapping, hage, Except.toOption] at h
      | ok tooOld =>
        cases tooOld with
        | true => exact hsame fun h => by simp [queues, hmapping, hage, Except.toOption] at h
        | false =>
          have hline : s.putInLine cfg env (.processMapping key) =
              if (s.matching cfg mapping.name).any Subscription.autofetch ∧
                (s.piggyPacket mapping.name).isNone ∧ s.isUnqueued key then some key else none := by
            rw [putInLine]
            refine if_congr ?_ rfl rfl
            simp [queues, hfresh, hmapping, hage, Except.toOption, and_assoc]
          rw [hline]
          dsimp only
          revert hall
          generalize (s.matching cfg mapping.name).foldl (queueOrDeliver cfg env key mapping.name)
            { subscriber := s } = p
          intro hall
          cases p.deliveredFromPiggy with
          | false => exact hall
          | true => exact ⟨hall.timers, hall.waiting, hall.fetching⟩

/-! ### Calls -/

theorem changes_act {call : Call} (hs : s.StatesWait) (hcall : ¬call.Fetches)
    (hschedules : ¬s.schedules cfg env call) :
    Changes (s.endsFetch call) (s.putInLine cfg env call) s (act cfg env call s).2 := by
  by_cases hmapping : call.IsMapping
  · obtain ⟨_, _, _, _, heq⟩ := mapping_act cfg env s hmapping
    rw [heq]
    cases call with
    | scheduleMappingFetch requested streamName => exact .of_same rfl rfl
    | markMappingFetchComplete key => exact .of_same rfl rfl
    | markMappingFetchFailed key => exact .of_same rfl rfl
    | insertMapping key entry => exact .of_same rfl rfl
    | insertUnknownMapping key entry => exact .of_same rfl rfl
    | _ => exact hmapping.elim
  · cases call with
    | addPublicationFetch key sub => exact changes_addPublicationFetch s key sub
    | processMapping key => exact changes_processMapping s key
    | satisfyPendingFetch data => exact changes_satisfyPendingFetch s data
    | enqueueRepairPublication key =>
      obtain ⟨_, heq⟩ := @enqueueRepairPublication_eq cfg env s key
      rw [act, heq]
      exact .of_same rfl rfl
    | markPublicationFetchFailed key => exact changes_failed hs hschedules
    | observePublicationFetchSuccess key => exact changes_observed s key
    | cleanUpFetch key => exact .cleanUpFetch (by rfl) (by rfl) key
    | returnData firstData innerData key => exact changes_returnData s firstData innerData key
    | finishOne index failed => exact changes_finishOne s index failed
    | prefetch key => exact .of_same rfl rfl
    | cachePiggyData data => exact .of_same rfl rfl
    | validate packet target => exact .of_same rfl rfl
    | startValidation publication assembly expected => exact .of_same rfl rfl
    | sweepFetches => exact absurd trivial hcall
    | fetchNext key inFlight => exact absurd trivial hcall
    | _ => exact absurd trivial hmapping

theorem timers_of_schedules {call : Call} (h : s.schedules cfg env call) :
    (act cfg env call s).2.timers ≠ [] := by
  cases call with
  | markPublicationFetchFailed key =>
    obtain ⟨hkey, hretried⟩ := of_decide_eq_true h
    obtain ⟨subs, hsubs⟩ := Option.isSome_iff_exists.mp (ExtTreeMap.mem_iff_isSome_getElem?.mp hkey)
    obtain ⟨state, hstate, hretried⟩ := (Option.any_eq_true _ _).mp hretried
    rw [act, markPublicationFetchFailed, hsubs, hstate]
    dsimp only
    rw [if_neg (by simpa using hretried)]
    exact List.append_ne_nil_of_right_ne_nil _ (List.cons_ne_nil _ _)
  | _ => cases h

/-- What a call leaves, by the state before it. -/
theorem idle_act {call : Call} (hs : s.StatesWait) (hcall : ¬call.Fetches) :
    Idle cfg (act cfg env call s).2 ↔ LeavesIdle cfg env s call := by
  by_cases hschedules : s.schedules cfg env call
  · exact iff_of_false (fun h => timers_of_schedules hschedules h.unscheduled)
      fun h => h.2.1 hschedules
  · have h := changes_act hs hcall hschedules
    have hcount : (act cfg env call s).2.fetchCount = (s.fetchingKeys.filter fun key =>
        !s.endsFetch call key ∧ s.putInLine cfg env call ≠ some key).length := by
      refine fetchCount_eq ((nodup_fetchingKeys s).filter _) fun key => ?_
      rw [h.fetching, List.mem_filter, mem_fetchingKeys]
      simp
    have hnonempty : ∀ keys : List PublicationKey, keys ≠ [] ↔ ∃ key, key ∈ keys := fun keys =>
      ⟨List.exists_mem_of_ne_nil keys, fun ⟨_, hmem⟩ => List.ne_nil_of_mem hmem⟩
    have hwaiting : (∃ key, (act cfg env call s).2.Waiting key) ↔
        (s.waitingKeys.filter fun key => !s.endsFetch call key) ≠ [] ∨
          (s.putInLine cfg env call).isSome := by
      rw [hnonempty, Option.isSome_iff_exists, ← exists_or]
      refine exists_congr fun key => ?_
      rw [h.waiting, List.mem_filter, mem_waitingKeys]
      simp
    constructor
    · rintro ⟨htimers, hwaits, hroom⟩
      exact ⟨h.timers.symm.trans htimers, hschedules, hwaiting.mp hwaits, hcount ▸ hroom⟩
    · rintro ⟨htimers, -, hwaits, hroom⟩
      exact ⟨h.timers.trans htimers, hwaiting.mpr hwaits, hcount ▸ hroom⟩

/-! ### The loop of `fetchAll` -/

/-- A publication that waits only for a later time has a timer. -/
theorem Timed.not_idle (hs : Timed now s) (hlater : ∀ (key : PublicationKey)
    (state : PublicationFetchState), s.publicationFetchStates[key]? = some state →
      state.isWaiting → now < state.nextAttempt) : ¬Idle cfg s := by
  rintro ⟨htimers, ⟨key, state, hget, hwaiting⟩, -⟩
  have hmem := hs.covered key state hget hwaiting (hlater key state hget hwaiting)
  rw [htimers] at hmem
  exact List.not_mem_nil hmem

/-- A round leaves the states of the publications that wait and are due, but for its own. -/
theorem due_fetchNext (hs : s.StatesWait) {key key' : PublicationKey} {inFlight : Nat}
    {state : PublicationFetchState}
    (hget : (s.fetchNext cfg env key inFlight).2.publicationFetchStates[key']? = some state)
    (hwaiting : state.isWaiting) (hdue : state.nextAttempt ≤ env.steadyNow) :
    s.publicationFetchStates[key']? = some state ∧ key' ≠ key := by
  rcases @fetchNext_cases cfg env s key inFlight with
    ⟨heq, hpassed⟩ | ⟨-, -, started, heq⟩ | ⟨-, name, packet, heq⟩
  · rw [heq] at hget
    refine ⟨hget, ?_⟩
    rintro rfl
    rcases hpassed (hs key' (mem_states_of_get hget)) state hget with hstatus | hlater
    · simp [PublicationFetchState.isWaiting, hstatus] at hwaiting
    · exact absurd hdue (Int.not_le.mpr hlater)
  · rw [heq, startFetch, Map.get_insert] at hget
    split at hget
    · obtain rfl := Option.some.inj hget
      cases hwaiting
    · rename_i hne
      exact ⟨hget, Ne.symm hne⟩
  · rw [heq, get_deliverCached] at hget
    split at hget
    · cases hget
    · rename_i hne
      exact ⟨hget, hne⟩

/-- The loop starts what is ready until the window is full. -/
theorem busy_fetchReady (ready : List PublicationKey) {inFlight : Nat}
    (hs : Timed env.steadyNow s) (hcount : s.fetchCount = inFlight)
    (hready : ∀ (key : PublicationKey) (state : PublicationFetchState),
      s.publicationFetchStates[key]? = some state → state.isWaiting →
        state.nextAttempt ≤ env.steadyNow → key ∈ ready) :
    (fetchReady (max 1 cfg.publicationFetchWindow) ready inFlight).Ends (act cfg env)
      (fun _ t => Timed env.steadyNow t ∧ ¬Idle cfg t) s := by
  induction ready generalizing inFlight s with
  | nil =>
    refine Program.ends_ret.mpr ⟨hs, hs.not_idle fun key state hget hwaiting => ?_⟩
    exact Int.not_le.mp fun hdue => List.not_mem_nil (hready key state hget hwaiting hdue)
  | cons key ready ih =>
    rw [fetchReady]
    split
    · rename_i hfull
      exact Program.ends_ret.mpr ⟨hs, fun hidle => absurd hidle.room (by omega)⟩
    · refine Program.ends_bind (Program.ends_perform.mpr ?_)
      refine ih (timed_act _ hs) (fetchCount_fetchNext hcount key)
        fun key' state hget hwaiting hdue => ?_
      obtain ⟨hget, hne⟩ := due_fetchNext hs.wait hget hwaiting hdue
      exact (List.mem_cons.mp (hready key' state hget hwaiting hdue)).resolve_left hne

theorem busy_fetchAll (hs : Timed env.steadyNow s) :
    (fetchAll cfg).Ends (act cfg env) (fun _ t => Timed env.steadyNow t ∧ ¬Idle cfg t) s :=
  Program.ends_bind (Program.ends_perform.mpr
    (busy_fetchReady _ hs.sweepFetches (fetchCount_sweepFetches hs.wait)
      fun _ _ hget hwaiting hdue => ready_sweepFetches hs.wait hget hwaiting hdue))

/-! ### Steps -/

/-- What is noted on a call: the sweep of `fetchAll` leaves nothing idle in the end, and any other
call does or not. -/
def idleNote (cfg : SubscriberConfig) (env : SubscribeInputs) (s : Subscriber) : Call → List Bool
  | .sweepFetches => [false]
  | .fetchNext _ _ => []
  | call => [LeavesIdle cfg env s call]

/-- The last call of the handler, but for those of `fetchAll`, leaves a publication idle, and
`fetchAll` is not called after it. -/
def EndsIdle (cfg : SubscriberConfig) (s : Subscriber) (e : SubscriberEvent × SubscribeInputs) :
    Prop :=
  match beginStep cfg s e with
  | none => False
  | some (begun, handler) =>
    (handler.notes (act cfg e.2) (idleNote cfg e.2) begun).getLast? = some true

/-- The last note tells whether the state is idle. -/
def Noted (cfg : SubscriberConfig) (env : SubscribeInputs) (q : Subscriber × List Bool) : Prop :=
  Timed env.steadyNow q.1 ∧ (Idle cfg q.1 ↔ q.2.getLast? = some true)

theorem notes_fetchAll (s : Subscriber) :
    (fetchAll cfg).notes (act cfg env) (idleNote cfg env) s = [false] := by
  have hmakes : ∀ (window : Nat) (ready : List PublicationKey) (inFlight : Nat),
      Program.Makes (fun call => ∃ key n, call = .fetchNext key n)
        (fetchReady window ready inFlight) := fun window ready inFlight =>
    closed_fetchReady (Program.closed_yields _)
      (fun key n _ => Program.makes_perform ⟨key, n, rfl⟩) ready inFlight
  refine (congrArg ([false] ++ ·) (Program.notes_of_makes ?_ (hmakes _ _ _) _)).trans rfl
  rintro s _ ⟨key, n, rfl⟩
  rfl

theorem keeps_noted_fetchAll :
    Program.Keeps (Program.noting (act cfg env) (idleNote cfg env)) (Noted cfg env)
      (fetchAll cfg) fun _ => True := by
  rintro ⟨s, g⟩ ⟨hs, -⟩ _ _ hnoting
  rw [Program.exec_noting, notes_fetchAll] at hnoting
  obtain ⟨⟨_, t⟩, hexec, heq⟩ := Option.map_eq_some_iff.mp hnoting
  obtain ⟨-, rfl⟩ := Prod.mk.inj heq
  obtain ⟨ht, hidle⟩ := busy_fetchAll hs _ _ hexec
  exact ⟨trivial, ht, iff_of_false hidle (by simp)⟩

theorem idleNote_of_not_fetches {call : Call} (hcall : ¬call.Fetches) :
    idleNote cfg env s call = [decide (LeavesIdle cfg env s call)] := by
  cases call with
  | sweepFetches => exact absurd trivial hcall
  | fetchNext key inFlight => exact absurd trivial hcall
  | _ => rfl

theorem keeps_noted {call : Call} (hcall : ¬call.Fetches) :
    Program.Keeps (Program.noting (act cfg env) (idleNote cfg env)) (Noted cfg env)
      (perform call) fun _ => True := by
  refine Program.keeps_perform fun q hq => ⟨timed_act call hq.1, ?_⟩
  dsimp only [Program.noting]
  rw [idleNote_of_not_fetches hcall, List.getLast?_concat, idle_act hq.1.wait hcall]
  simp

theorem keeps_noted_beginStep {begun : Subscriber} {e : SubscriberEvent × SubscribeInputs}
    {handler : Handler Unit} (hbegin : beginStep cfg s e = some (begun, handler)) :
    Program.Keeps (Program.noting (act cfg env) (idleNote cfg env)) (Noted cfg env) handler
      fun _ => True :=
  closed_beginStep (Program.closed_keeps _) (fun _ _ _ _ hcall => keeps_noted hcall)
    (fun _ _ => keeps_noted id) cfg keeps_noted_fetchAll
    (fun _ _ hcall => keeps_noted hcall.not_fetches)
    (fun _ _ hcall => keeps_noted hcall.not_fetches)
    (fun _ _ _ _ => ⟨fun _ _ => keeps_noted id, fun _ _ _ _ => keeps_noted id⟩) hbegin

/-- A handler that begins with nothing idle. -/
theorem idle_exec {handler : Handler Unit} (hkeeps : Program.Keeps
      (Program.noting (act cfg env) (idleNote cfg env)) (Noted cfg env) handler fun _ => True)
    (hs : Timed env.steadyNow s) (hidle : ¬Idle cfg s)
    (hexec : handler.exec (act cfg env) s = some ((), t)) : Timed env.steadyNow t ∧
      (Idle cfg t ↔ (handler.notes (act cfg env) (idleNote cfg env) s).getLast? = some true) := by
  have hnoting : handler.exec (Program.noting (act cfg env) (idleNote cfg env)) (s, []) = _ :=
    Program.exec_noting handler s []
  rw [hexec] at hnoting
  exact (hkeeps (s, []) ⟨hs, iff_of_false hidle (by simp)⟩ () _ hnoting).2

/-- What a step leaves, by the last call of its handler. -/
theorem idle_step {e : SubscriberEvent × SubscribeInputs} (hstep : step cfg s e = some t)
    (hs : Timed s.steadyNow s) (hidle : ¬Idle cfg s) :
    Timed t.steadyNow t ∧ (Idle cfg t ↔ EndsIdle cfg s e) := by
  obtain ⟨hclock, begun, handler, hbegin, hexec⟩ := step_eq_some hstep
  suffices h : Timed e.2.steadyNow t ∧ (Idle cfg t ↔
      (handler.notes (act cfg e.2) (idleNote cfg e.2) begun).getLast? = some true) by
    rw [EndsIdle, hbegin, h.1.clock]
    exact h
  by_cases htimer : ∃ index, e.1 = .fetchTimer index
  · obtain ⟨index, heq⟩ := htimer
    obtain ⟨e, env⟩ := e
    subst heq
    obtain ⟨due, hget, hbegin⟩ := Option.bind_eq_some_iff.mp hbegin
    split at hbegin
    · rename_i hdue
      obtain ⟨rfl, rfl⟩ := Prod.mk.inj (Option.some.inj hbegin)
      obtain ⟨ht, hidle⟩ := busy_fetchAll (hs.fired hclock hget hdue) _ _ hexec
      refine ⟨ht, iff_of_false hidle ?_⟩
      rw [notes_fetchAll]
      simp
    · cases hbegin
  · obtain ⟨hbegun, hbusy⟩ : Timed e.2.steadyNow begun ∧ ¬Idle cfg begun := by
      rcases beginStep_cases hbegin with hsubscribes |
        ⟨_, _, _, _, _, _, _, rfl, -, -, -, htimers, -⟩
      · cases hsubscribes with
        | _ =>
          exact ⟨(hs.later hclock).of_same rfl rfl rfl rfl,
            fun h => hidle ⟨h.unscheduled, h.waiting, h.room⟩⟩
      · obtain rfl := htimers.resolve_right htimer
        exact ⟨(hs.later hclock).of_same rfl rfl rfl rfl,
          fun h => hidle ⟨h.unscheduled, h.waiting, h.room⟩⟩
    exact idle_exec (keeps_noted_beginStep hbegin) hbegun hbusy hexec

theorem timed_initial (cfg : SubscriberConfig) :
    Timed (initial cfg).steadyNow (initial cfg) where
  clock := rfl
  wait := fun key hmem => by simp [initial] at hmem
  covered := fun key state hget => by simp [initial] at hget

/-- A publication that could start has a call of `fetchAll` scheduled in every state of the runs
none of whose steps ends idle, and of no others. -/
theorem work_conserving_iff (cfg : SubscriberConfig)
    (es : List (SubscriberEvent × SubscribeInputs)) :
    Throughout (step cfg) (Conserving cfg) (initial cfg) es ↔
      Along (step cfg) (fun s e => (step cfg s e).isSome → ¬EndsIdle cfg s e) (initial cfg) es := by
  have hidle : ¬Idle cfg (initial cfg) := by
    rintro ⟨-, ⟨key, state, hget, -⟩, -⟩
    simp [initial] at hget
  have hany : Along (step cfg) (fun _ _ => True) (initial cfg) es :=
    along_of_forall (fun _ _ _ => trivial) _
  refine throughout_iff_along_of_invariant
    (I := fun s => Timed s.steadyNow s ∧ ¬Idle cfg s) (fun s e t hstep _ hok hs => ?_)
    (fun s hs => (conserving_iff hs.1.wait).mpr hs.2) (fun s e t hstep _ hs ht _ hends => ?_)
    (fun s e hnone hsome => by rw [hnone] at hsome; cases hsome) ⟨timed_initial cfg, hidle⟩ hany
  · obtain ⟨ht, hiff⟩ := idle_step hstep hs.1 hs.2
    exact ⟨ht, fun h => hok (by rw [hstep]; rfl) (hiff.mp h)⟩
  · obtain ⟨htimed, hiff⟩ := idle_step hstep hs.1 hs.2
    exact (conserving_iff htimed.wait).mp ht (hiff.mpr hends)

/-- A node that fetches one publication at a time. -/
def oneAtATime : SubscriberConfig := { sampleSubscriber with publicationFetchWindow := 1 }

/-- Two publications that are mapped to a name. -/
def twoMappings (name : Name) : MappingList :=
  { nodeId := .ofStrings ["a"], pairs :=
    [{ bootstrapTime := 100, seqNo := 1, mapping := { name } },
      { bootstrapTime := 100, seqNo := 2, mapping := { name } }] }

/-- The second publication arrives, and nothing starts the fetch of the first. -/
theorem finished_fetch_starts_none :
    let es : List (SubscriberEvent × SubscribeInputs) := [subscribeTo (.ofStrings ["x"]),
      (.extraBlocks [(twoMappings (.ofStrings ["x"])).encode], { steadyNow := 1 }),
      (.dataFetcher (.data 0
        { name := .ofStrings ["a", "x"], contentType := tlv.data
          content := (packetFormat.dataWire
            { name := .ofStrings ["x"], content := [1], signatureValue := some [] }).wire }),
        { steadyNow := 1 })]
    let s := (run (step oneAtATime) (initial oneAtATime) es).get (by decide +kernel)
    run (step oneAtATime) (initial oneAtATime) es = some s ∧ s.invoked.length = 1 ∧
      ¬Conserving oneAtATime s := by
  intro es s
  have hstate : (s.publicationFetchStates[sampleKey]?).map (fun state =>
      (state.status, state.nextAttempt)) = some (.queued, 1) := by decide +kernel
  have hkey : sampleKey ∈ s.fetchMap := by decide +kernel
  have hclock : s.steadyNow = 1 := by decide +kernel
  have htimers : s.timers = [] := by decide +kernel
  have hroom : s.fetchCount < max 1 oneAtATime.publicationFetchWindow := by decide +kernel
  refine ⟨(Option.some_get _).symm, by decide +kernel, fun h => ?_⟩
  obtain ⟨state, hget, heq⟩ := Option.map_eq_some_iff.mp hstate
  obtain ⟨hstatus, hnext⟩ := Prod.mk.inj heq
  exact h 1 (Int.le_of_eq hclock) sampleKey hkey state hget (.inl hstatus) (Int.le_of_eq hnext)
    hroom htimers

end Subscriber

end NdnSvs
