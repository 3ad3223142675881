import Mathlib.Algebra.Order.Ring.Int
import NdnSvs.FetchScheduler

/-! The budget of a publication fetch: how often and how long it is tried, and the pauses between
the tries, which double up to a bound. -/

namespace NdnSvs

open Lib Lib.Tlv Std

/-! ### Pauses that double -/

/-- The pause after so many failures. -/
def backoff (base cap : Int) (failures : Nat) : Int := min (base * 2 ^ failures) cap

theorem backoff_le_cap (base cap : Int) (failures : Nat) : backoff base cap failures ≤ cap :=
  min_le_right _ _

theorem backoff_mono {base cap : Int} (hbase : 0 ≤ base) {m n : Nat} (h : m ≤ n) :
    backoff base cap m ≤ backoff base cap n :=
  min_le_min_right cap (mul_le_mul_of_nonneg_left (pow_le_pow_right₀ (by decide) h) hbase)

/-- A pause that is at least the one after `n` failures is doubled to at least the next one. -/
theorem backoff_succ_le {base cap pause : Int} (hcap : 0 ≤ cap) {n : Nat}
    (h : backoff base cap n ≤ pause) :
    backoff base cap (n + 1) ≤ min (max (pause * 2) base) cap := by
  refine le_min ?_ (backoff_le_cap base cap (n + 1))
  refine Int.le_trans ?_ (le_max_left _ _)
  rw [backoff, pow_succ, ← mul_assoc]
  rcases min_le_iff.mp h with hbase | hcap'
  · exact (min_le_left _ _).trans (by omega)
  · exact (min_le_right _ _).trans (by omega)

/-- The tries that have failed: all of them when the publication waits for the next one. -/
def PublicationFetchState.failures (state : PublicationFetchState) : Nat :=
  if state.isWaiting then state.attempts else state.attempts - 1

theorem PublicationFetchState.failures_ge (state : PublicationFetchState) :
    state.attempts - 1 ≤ state.failures := by
  unfold failures
  split
  · exact Nat.sub_le _ _
  · exact Nat.le_refl _

namespace Subscriber

variable (cfg : SubscriberConfig)

/-- The pause between two tries of a publication, in milliseconds. -/
def pause (failures : Nat) : Int :=
  backoff cfg.publicationFetchFailureBackoff cfg.publicationFetchMaxBackoff failures

/-- No pause is longer. -/
def longestPause : Int := max cfg.publicationFetchFailureBackoff cfg.publicationFetchMaxBackoff

/-- How long a publication is tried, in milliseconds. -/
def longestAge : Int := if 0 < cfg.maxPubAge then cfg.maxPubAge else 30000

/-- The lifetimes of Interests that the options allow. -/
def LifetimeOk (lifetime : Int) : Prop :=
  min cfg.publicationFetchMinInterestLifetime cfg.publicationFetchMaxInterestLifetime ≤ lifetime ∧
    lifetime ≤ cfg.publicationFetchMaxInterestLifetime

/-- What the state of a publication keeps to at the time `now`. -/
structure Budget (now : Int) (state : PublicationFetchState) : Prop where
  firstQueued : 0 < state.firstQueued ∧ state.firstQueued ≤ now
  deadline : state.deadline = state.firstQueued + toStdDuration (longestAge cfg)
  attempts : 0 ≤ cfg.publicationFetchRetries →
    state.attempts + state.isWaiting.toNat ≤ cfg.publicationFetchRetries.toNat + 1
  /-- The last try began in time. -/
  started : 0 < state.attempts → state.firstQueued ≤ state.attemptStarted ∧
    state.attemptStarted ≤ now ∧ state.attemptStarted < state.deadline
  lifetime : LifetimeOk cfg state.currentLifetime
  backoff : pause cfg state.failures ≤ state.currentBackoff ∧
    state.currentBackoff ≤ longestPause cfg
  /-- The next try comes after the pause. -/
  spaced : 0 < state.attempts → state.isWaiting →
    state.attemptStarted + toStdDuration (pause cfg (state.attempts - 1)) ≤
      state.nextAttempt
  soon : state.nextAttempt ≤ now + toStdDuration (longestPause cfg)

variable {cfg} {env : SubscribeInputs} {state : PublicationFetchState} {now now' : Int}

theorem clampLifetime_ok (lifetime : Int) :
    LifetimeOk cfg (clampLifetime cfg lifetime) := by
  unfold LifetimeOk clampLifetime clampDuration
  omega

theorem Budget.mono (h : Budget cfg now state) (hnow : now ≤ now') : Budget cfg now' state :=
  { h with
    firstQueued := ⟨h.firstQueued.1, h.firstQueued.2.trans hnow⟩
    started := fun hattempts =>
      have ⟨hqueued, hstarted, hdeadline⟩ := h.started hattempts
      ⟨hqueued, hstarted.trans hnow, hdeadline⟩
    soon := h.soon.trans (by omega) }

/-- The options give pauses that are not negative. -/
structure PausesOk (cfg : SubscriberConfig) : Prop where
  failureBackoff : 0 ≤ cfg.publicationFetchFailureBackoff
  maxBackoff : 0 ≤ cfg.publicationFetchMaxBackoff

theorem budget_start (hpauses : PausesOk cfg) (hnow : 0 < env.steadyNow) (lifetime : Int) :
    Budget cfg env.steadyNow (PublicationFetchState.start cfg env {} lifetime) where
  firstQueued := ⟨hnow, Int.le_refl _⟩
  deadline := rfl
  attempts := fun _ => Nat.le_add_left 1 _
  started := fun h => absurd h (Nat.lt_irrefl 0)
  lifetime := clampLifetime_ok lifetime
  backoff := by
    have hfailures : (PublicationFetchState.start cfg env {} lifetime).failures = 0 := rfl
    rw [hfailures, pause, NdnSvs.backoff, pow_zero, mul_one]
    exact ⟨min_le_left _ _, le_max_left _ _⟩
  spaced := fun h => absurd h (Nat.lt_irrefl 0)
  soon := by
    have h := hpauses.failureBackoff
    show env.steadyNow ≤ env.steadyNow + toStdDuration (longestPause cfg)
    unfold toStdDuration longestPause
    omega

/-- A try begins, of a publication that waits and is not too old. -/
theorem Budget.startFetch (h : Budget cfg env.steadyNow state) (hwaiting : state.isWaiting)
    (hdeadline : env.steadyNow < state.deadline) :
    Budget cfg env.steadyNow
      { state with status := .fetching, attemptStarted := env.steadyNow,
                   currentLifetime := clampLifetime cfg state.currentLifetime,
                   attempts := state.attempts + 1 } where
  firstQueued := h.firstQueued
  deadline := h.deadline
  attempts := fun hretries => by
    have := h.attempts hretries
    rw [hwaiting] at this
    exact this
  started := fun _ => ⟨h.firstQueued.2, Int.le_refl _, hdeadline⟩
  lifetime := clampLifetime_ok _
  backoff := by
    have hfailures : state.failures = state.attempts := if_pos hwaiting
    have hbackoff := h.backoff
    rw [hfailures] at hbackoff
    exact hbackoff
  spaced := nofun
  soon := h.soon

/-- The verdict on a state that does not wait any more. -/
theorem Budget.settle (h : Budget cfg now state) (hpauses : PausesOk cfg)
    {status : PublicationFetchStatus} (hstatus : status = .delivered ∨ status = .expired)
    {lifetime : Int} (hlifetime : LifetimeOk cfg lifetime) :
    Budget cfg now { state with status, currentLifetime := lifetime } := by
  have hwaiting : PublicationFetchState.isWaiting
      { state with status, currentLifetime := lifetime } = false := by
    rcases hstatus with rfl | rfl
    · rfl
    · rfl
  refine ⟨h.firstQueued, h.deadline, fun hretries => ?_, h.started, hlifetime, ?_, ?_, h.soon⟩
  · have := h.attempts hretries
    rw [hwaiting]
    exact (Nat.le_add_right _ _).trans this
  · have hfailures : PublicationFetchState.failures
        { state with status, currentLifetime := lifetime } = state.attempts - 1 := by
      rw [PublicationFetchState.failures, hwaiting]
      rfl
    rw [hfailures]
    exact ⟨(backoff_mono hpauses.failureBackoff state.failures_ge).trans h.backoff.1, h.backoff.2⟩
  · intro _ hno
    rw [hwaiting] at hno
    cases hno

/-- A try has failed and another one is left. -/
theorem Budget.backOff (h : Budget cfg env.steadyNow state) (hpauses : PausesOk cfg)
    (hleft : ¬PublicationFetchState.isExhausted cfg env state) :
    Budget cfg env.steadyNow (PublicationFetchState.backOff cfg env state) := by
  have ⟨hbase, hcap⟩ := hpauses
  generalize hpause : (if state.currentBackoff ≤ 0 then cfg.publicationFetchFailureBackoff
    else state.currentBackoff) = pauseNow
  -- the pause is at least the one that the failures ask for
  have hlower : pause cfg (state.attempts - 1) ≤ pauseNow := by
    have hmono : pause cfg (state.attempts - 1) ≤ state.currentBackoff :=
      (backoff_mono hbase state.failures_ge).trans h.backoff.1
    split at hpause
    · omega
    · omega
  have hupper : pauseNow ≤ longestPause cfg := by
    have := h.backoff.2
    split at hpause
    · exact hpause ▸ le_max_left _ _
    · omega
  have heq : PublicationFetchState.backOff cfg env state = { state with
      status := .backoff
      nextAttempt := env.steadyNow + toStdDuration pauseNow
      currentLifetime := clampLifetime cfg (state.currentLifetime * 2)
      currentBackoff := clampDuration (pauseNow * 2)
        cfg.publicationFetchFailureBackoff cfg.publicationFetchMaxBackoff } := by
    rw [PublicationFetchState.backOff, hpause]
  rw [heq]
  refine ⟨h.firstQueued, h.deadline, fun hretries => ?_, h.started, clampLifetime_ok _, ⟨?_, ?_⟩,
    fun hattempts _ => ?_, ?_⟩
  · have hwithin : state.attempts ≤ cfg.publicationFetchRetries.toNat := by
      by_contra hover
      exact hleft (decide_eq_true (.inl ⟨hretries, Nat.lt_of_not_le hover⟩))
    exact Nat.succ_le_succ hwithin
  · have hfailures : ∀ (next lifetime pause : Int), PublicationFetchState.failures { state with
        status := .backoff, nextAttempt := next, currentLifetime := lifetime
        currentBackoff := pause } = state.attempts := fun _ _ _ => rfl
    rw [hfailures]
    cases hattempts : state.attempts with
    | zero =>
      rw [pause, NdnSvs.backoff, pow_zero, mul_one]
      exact min_le_min_right _ (le_max_right _ _)
    | succ n =>
      rw [hattempts] at hlower
      exact backoff_succ_le hcap hlower
  · exact (min_le_right _ _).trans (le_max_right _ _)
  · have := h.started hattempts
    unfold toStdDuration
    dsimp only
    omega
  · show env.steadyNow + toStdDuration pauseNow ≤ _
    unfold toStdDuration
    omega

/-! ### The states of all publications -/

/-- The states keep to their budgets, and the lifetimes to the options. -/
structure Budgets (cfg : SubscriberConfig) (s : Subscriber) : Prop where
  states : ∀ (key : PublicationKey) (state : PublicationFetchState),
    s.publicationFetchStates[key]? = some state → Budget cfg s.steadyNow state
  estimates : ∀ (session : ProducerSessionKey) (lifetime : Int),
    s.publicationLifetimeEstimates[session]? = some lifetime → LifetimeOk cfg lifetime
  requests : ∀ (key : PublicationKey) (lifetime : Int),
    DataRequest.publication key lifetime ∈ s.dataFetcher.outstanding → LifetimeOk cfg lifetime

section Calls

variable {s t : Subscriber}

theorem Budgets.of_same (h : Budgets cfg s)
    (hstates : t.publicationFetchStates = s.publicationFetchStates)
    (hestimates : t.publicationLifetimeEstimates = s.publicationLifetimeEstimates)
    (hfetcher : t.dataFetcher = s.dataFetcher) (hnow : t.steadyNow = s.steadyNow) :
    Budgets cfg t :=
  ⟨hstates ▸ hnow ▸ h.states, hestimates ▸ h.estimates, hfetcher ▸ h.requests⟩

/-- The state of one publication changes. -/
theorem Budgets.insert (h : Budgets cfg s) {key : PublicationKey}
    (hstate : Budget cfg s.steadyNow state)
    (hstates : t.publicationFetchStates = s.publicationFetchStates.insert key state)
    (hestimates : t.publicationLifetimeEstimates = s.publicationLifetimeEstimates ∨
      ∃ lifetime, LifetimeOk cfg lifetime ∧ t.publicationLifetimeEstimates =
        s.publicationLifetimeEstimates.insert key.session lifetime)
    (hfetcher : t.dataFetcher = s.dataFetcher) (hnow : t.steadyNow = s.steadyNow) :
    Budgets cfg t := by
  refine ⟨fun key' state' hget => ?_, fun session lifetime hget => ?_, hfetcher ▸ h.requests⟩
  · rw [hstates, Map.get_insert] at hget
    rw [hnow]
    split at hget
    · exact Option.some.inj hget ▸ hstate
    · exact h.states key' state' hget
  · rcases hestimates with hestimates | ⟨lifetime', hlifetime, hestimates⟩
    · exact h.estimates session lifetime (hestimates ▸ hget)
    · rw [hestimates, Map.get_insert] at hget
      split at hget
      · exact Option.some.inj hget ▸ hlifetime
      · exact h.estimates session lifetime hget

theorem Budgets.cleanUpFetch (h : Budgets cfg s) (key : PublicationKey) :
    Budgets cfg (s.cleanUpFetch key) := by
  refine ⟨fun key' state hget => ?_, h.estimates, h.requests⟩
  rw [Subscriber.cleanUpFetch, Map.get_erase] at hget
  split at hget
  · cases hget
  · exact h.states key' state hget

/-- A state that is there has been queued; one that is made is queued now. -/
theorem Budgets.start (h : Budgets cfg s) (hpauses : PausesOk cfg)
    (hnow : s.steadyNow = env.steadyNow)
    (hclock : 0 < env.steadyNow) (key : PublicationKey) (lifetime : Int) :
    Budget cfg env.steadyNow
      (if ((s.publicationFetchStates[key]?).getD {}).firstQueued = 0 then
        PublicationFetchState.start cfg env ((s.publicationFetchStates[key]?).getD {}) lifetime
      else (s.publicationFetchStates[key]?).getD {}) := by
  cases hget : s.publicationFetchStates[key]? with
  | none => exact budget_start hpauses hclock lifetime
  | some state =>
    have hstate := hnow ▸ h.states key state hget
    have hqueued : (Option.some state |>.getD {}).firstQueued ≠ 0 :=
      Int.ne_of_gt hstate.firstQueued.1
    rw [if_neg hqueued]
    exact hstate

theorem Budgets.observed (h : Budgets cfg s) (hpauses : PausesOk cfg) (key : PublicationKey) :
    Budgets cfg (s.observePublicationFetchSuccess cfg env key) := by
  unfold observePublicationFetchSuccess
  split
  · exact h
  · rename_i state hstate
    have hbudget := h.states key state hstate
    split
    · exact h.insert (hbudget.settle hpauses (.inl rfl) hbudget.lifetime) rfl (.inl rfl) rfl rfl
    · have hlifetime : LifetimeOk cfg (s.observedLifetime cfg env key state.attemptStarted) := by
        unfold observedLifetime
        dsimp only
        split
        · exact clampLifetime_ok _
        · exact clampLifetime_ok _
      exact h.insert (hbudget.settle hpauses (.inl rfl) hlifetime) rfl (.inr ⟨_, hlifetime, rfl⟩)
        rfl rfl

theorem Budgets.failed (h : Budgets cfg s) (hpauses : PausesOk cfg)
    (hnow : s.steadyNow = env.steadyNow) (key : PublicationKey) :
    Budgets cfg (s.markPublicationFetchFailed cfg env key) := by
  unfold markPublicationFetchFailed
  split
  · rename_i subs state hsubs hstate
    split
    · exact h.cleanUpFetch key
    · rename_i hleft
      have hbudget : Budget cfg env.steadyNow state := hnow ▸ h.states key state hstate
      have hbackOff := hbudget.backOff hpauses hleft
      obtain ⟨_, heq⟩ := rememberRepairRequest_eq s key
      rw [heq]
      exact h.insert (hnow ▸ hbackOff) rfl (.inr ⟨_, hbackOff.lifetime, rfl⟩) rfl rfl
  · exact h

/-! ### The sweep and the loop -/

/-- The publication is fetched already, or it waits and is not too old. -/
def CanStart (env : SubscribeInputs) (state : PublicationFetchState) : Prop :=
  state.status = .fetching ∨ state.isWaiting ∧ env.steadyNow < state.deadline

theorem canStart_start (lifetime : Int) :
    CanStart env (PublicationFetchState.start cfg env {} lifetime) := by
  refine .inr ⟨rfl, ?_⟩
  show env.steadyNow < env.steadyNow + toStdDuration (longestAge cfg)
  unfold toStdDuration longestAge
  split
  · omega
  · omega

/-- The states of the sweep keep to their budgets, and what it finds ready can start. -/
structure SweepOk (cfg : SubscriberConfig) (env : SubscribeInputs) (sweep : Sweep) : Prop where
  states : ∀ (key : PublicationKey) (state : PublicationFetchState),
    sweep.states[key]? = some state → Budget cfg env.steadyNow state
  ready : ∀ key ∈ sweep.ready, ∀ state : PublicationFetchState,
    sweep.states[key]? = some state → CanStart env state

/-- A round puts one state in place, which stays ready when it was. -/
theorem SweepOk.insert {sweep : Sweep} (h : SweepOk cfg env sweep) {key : PublicationKey}
    (hstate : Budget cfg env.steadyNow state) {ready : List PublicationKey} {inFlight : Nat}
    (hready : ∀ key' ∈ ready, key' = key ∧ CanStart env state ∨ key' ∈ sweep.ready)
    (hstays : key ∈ sweep.ready → CanStart env state) :
    SweepOk cfg env { states := sweep.states.insert key state, inFlight, ready } := by
  constructor
  · intro key' state' hget
    rw [Map.get_insert] at hget
    split at hget
    · exact Option.some.inj hget ▸ hstate
    · exact h.states key' state' hget
  · intro key' hkey' state' hget
    rw [Map.get_insert] at hget
    split at hget
    · rename_i heq
      obtain rfl := Option.some.inj hget
      rcases hready key' hkey' with ⟨-, hstart⟩ | hmem
      · exact hstart
      · exact hstays (heq ▸ hmem)
    · rename_i hne
      rcases hready key' hkey' with ⟨heq, -⟩ | hmem
      · exact absurd heq.symm hne
      · exact h.ready key' hmem state' hget

theorem SweepOk.sweepKey {sweep : Sweep} (h : SweepOk cfg env sweep) (hpauses : PausesOk cfg)
    (hclock : 0 < env.steadyNow) (key : PublicationKey) :
    SweepOk cfg env (sweepKey cfg env sweep key) := by
  unfold Subscriber.sweepKey
  dsimp only
  generalize hstate : (if ((sweep.states[key]?).getD {}).firstQueued = 0 then
      PublicationFetchState.start cfg env ((sweep.states[key]?).getD {})
        cfg.publicationFetchInterestLifetime
    else (sweep.states[key]?).getD {}) = state
  have hbudget : Budget cfg env.steadyNow state := by
    cases hget : sweep.states[key]? with
    | none =>
      rw [hget] at hstate
      exact hstate ▸ budget_start hpauses hclock _
    | some old =>
      have hold := h.states key old hget
      have hqueued : (Option.some old |>.getD {}).firstQueued ≠ 0 :=
        Int.ne_of_gt hold.firstQueued.1
      rw [hget, if_neg hqueued] at hstate
      exact hstate ▸ hold
  have hstays : key ∈ sweep.ready → CanStart env state := by
    intro hmem
    cases hget : sweep.states[key]? with
    | none =>
      rw [hget] at hstate
      exact hstate ▸ canStart_start _
    | some old =>
      have hqueued : (Option.some old |>.getD {}).firstQueued ≠ 0 :=
        Int.ne_of_gt (h.states key old hget).firstQueued.1
      rw [hget, if_neg hqueued] at hstate
      exact hstate ▸ h.ready key hmem old hget
  cases hstatus : state.status with
  | fetching | delivered | expired => exact h.insert hbudget (fun _ => .inr) hstays
  | queued | backoff =>
    have hwaiting : state.isWaiting := by simp [PublicationFetchState.isWaiting, hstatus]
    dsimp only
    split
    · rename_i hold
      refine h.insert (hbudget.settle hpauses (.inr rfl) hbudget.lifetime) (fun _ => .inr) ?_
      intro hmem
      rcases hstays hmem with hfetching | ⟨-, hdeadline⟩
      · rw [hstatus] at hfetching
        cases hfetching
      · omega
    · rename_i hyoung
      split
      · refine h.insert hbudget (fun key' hkey' => ?_) hstays
        rcases List.mem_append.mp hkey' with hkey' | hkey'
        · exact .inr hkey'
        · exact .inl ⟨List.mem_singleton.mp hkey', .inr ⟨hwaiting, Int.lt_of_not_ge hyoung⟩⟩
      · exact h.insert hbudget (fun _ => .inr) hstays

theorem sweepOk_foldl {sweep : Sweep} (h : SweepOk cfg env sweep) (hpauses : PausesOk cfg)
    (hclock : 0 < env.steadyNow) (keys : List PublicationKey) :
    SweepOk cfg env (keys.foldl (sweepKey cfg env) sweep) := by
  induction keys generalizing sweep with
  | nil => exact h
  | cons key keys ih => exact ih (h.sweepKey hpauses hclock key)

/-- The publications can start as far as they have states. -/
def CanStartAll (env : SubscribeInputs) (s : Subscriber) (keys : List PublicationKey) : Prop :=
  ∀ key ∈ keys, ∀ state : PublicationFetchState,
    s.publicationFetchStates[key]? = some state → CanStart env state

theorem Budgets.swept (h : Budgets cfg s) (hpauses : PausesOk cfg)
    (hnow : s.steadyNow = env.steadyNow) (hclock : 0 < env.steadyNow) :
    Budgets cfg (s.sweepFetches cfg env).2 ∧
      CanStartAll env (s.sweepFetches cfg env).2 (s.sweepFetches cfg env).1.1 := by
  have hstart : SweepOk cfg env { states := s.publicationFetchStates } :=
    ⟨hnow ▸ h.states, fun key hkey => absurd hkey List.not_mem_nil⟩
  have hswept := sweepOk_foldl hstart hpauses hclock (s.fetchMap.toList.map Prod.fst)
  refine ⟨⟨fun key state hget => ?_, h.estimates, h.requests⟩, fun key hkey state hget => ?_⟩
  · exact hnow ▸ hswept.states key state (Map.get_of_eraseAll hget)
  · exact hswept.ready key ((List.perm_insertionSort _ _).mem_iff.mp hkey) state
      (Map.get_of_eraseAll hget)

theorem Budgets.started (h : Budgets cfg s) (hnow : s.steadyNow = env.steadyNow)
    {key : PublicationKey} (hget : s.publicationFetchStates[key]? = some state)
    (hstart : CanStart env state) (hidle : state.status ≠ .fetching) :
    Budgets cfg (s.startFetch cfg env key state) := by
  obtain ⟨hwaiting, hdeadline⟩ := hstart.resolve_left hidle
  have hbudget : Budget cfg env.steadyNow state := hnow ▸ h.states key state hget
  have hbudget := hbudget.startFetch hwaiting hdeadline
  refine ⟨fun key' state' hget' => ?_, h.estimates, fun key' lifetime hmem => ?_⟩
  · rw [startFetch, Map.get_insert] at hget'
    split at hget'
    · exact Option.some.inj hget' ▸ hnow ▸ hbudget
    · exact h.states key' state' hget'
  · have hout := (Fetcher.outstanding_expressInterest cfg.fetcher s.dataFetcher
      (.publication key (clampLifetime cfg state.currentLifetime))
      cfg.publicationFetchInnerRetries).mem_iff.mp hmem
    rcases List.mem_cons.mp hout with heq | hmem
    · obtain ⟨-, rfl⟩ := DataRequest.publication.inj heq
      exact clampLifetime_ok _
    · exact h.requests key' lifetime hmem

theorem Budgets.deliverCached (h : Budgets cfg s) (hpauses : PausesOk cfg) (key : PublicationKey)
    (name : Name) (packet : Data) : Budgets cfg (s.deliverCached cfg env key name packet) := by
  rw [Subscriber.deliverCached, invokeAll_eq]
  refine Budgets.cleanUpFetch (Budgets.observed ?_ hpauses key) key
  exact h.of_same rfl rfl rfl rfl

/-- A round of the loop starts only what can start. -/
theorem Budgets.fetchNext (h : Budgets cfg s) (hpauses : PausesOk cfg)
    (hnow : s.steadyNow = env.steadyNow) {key : PublicationKey} {ready : List PublicationKey}
    (hready : CanStartAll env s (key :: ready)) (inFlight : Nat) :
    Budgets cfg (s.fetchNext cfg env key inFlight).2 ∧
      CanStartAll env (s.fetchNext cfg env key inFlight).2 ready := by
  have hrest : CanStartAll env s ready :=
    fun key' hkey' => hready key' (List.mem_cons_of_mem _ hkey')
  have hstarted : ∀ state, s.publicationFetchStates[key]? = some state →
      state.status ≠ .fetching → Budgets cfg (s.startFetch cfg env key state) ∧
        CanStartAll env (s.startFetch cfg env key state) ready := by
    intro state hget hidle
    refine ⟨h.started hnow hget (hready key List.mem_cons_self state hget) hidle, ?_⟩
    intro key' hkey' state' hget'
    rw [startFetch, Map.get_insert] at hget'
    split at hget'
    · exact .inl (Option.some.inj hget' ▸ rfl)
    · exact hrest key' hkey' state' hget'
  unfold Subscriber.fetchNext
  split
  · rename_i subs state hsubs hget
    split
    · exact ⟨h, hrest⟩
    · rename_i hdue
      obtain ⟨hidle, -⟩ := not_or.mp hdue
      split
      · exact hstarted state hget hidle
      · split
        · exact hstarted state hget hidle
        · refine ⟨h.deliverCached hpauses key _ _, fun key' hkey' state' hget' => ?_⟩
          rw [get_deliverCached] at hget'
          split at hget'
          · cases hget'
          · exact hrest key' hkey' state' hget'
  · exact ⟨h, hrest⟩

/-! ### Runs -/

/-- The budgets are kept, and the clock has been read. -/
structure InBudget (cfg : SubscriberConfig) (env : SubscribeInputs) (s : Subscriber) : Prop extends
    Budgets cfg s where
  now : s.steadyNow = env.steadyNow

theorem InBudget.of_same (h : InBudget cfg env s)
    (hstates : t.publicationFetchStates = s.publicationFetchStates)
    (hestimates : t.publicationLifetimeEstimates = s.publicationLifetimeEstimates)
    (hfetcher : t.dataFetcher = s.dataFetcher) (hnow : t.steadyNow = s.steadyNow) :
    InBudget cfg env t :=
  ⟨h.toBudgets.of_same hstates hestimates hfetcher hnow, hnow.trans h.now⟩

theorem InBudget.added (h : InBudget cfg env s) (hpauses : PausesOk cfg)
    (hclock : 0 < env.steadyNow) (key : PublicationKey) (sub : Subscription) :
    InBudget cfg env (s.addPublicationFetch cfg env key sub) :=
  ⟨h.toBudgets.insert (h.now ▸ h.toBudgets.start hpauses h.now hclock key _) rfl (.inl rfl) rfl rfl,
    h.now⟩

theorem Edit.inBudget {call : Call} {s₀ : Subscriber} (hedit : Edit cfg env call s₀ s t)
    (hpauses : PausesOk cfg) (hclock : 0 < env.steadyNow)
    (hcall : ∀ key inFlight, call ≠ .fetchNext key inFlight) (h : InBudget cfg env s) :
    InBudget cfg env t := by
  cases hedit with
  | subscribed key sub => exact h.added hpauses hclock key sub
  | queued key mapping sub => exact h.added hpauses hclock key sub
  | delivered key =>
    rw [invokeAll_eq]
    refine ⟨Budgets.cleanUpFetch ?_ key, h.now⟩
    exact h.toBudgets.of_same rfl rfl rfl rfl
  | divided =>
    rw [invokeAll_eq]
    exact h.of_same rfl rfl rfl rfl
  | dropped key => exact ⟨h.toBudgets.cleanUpFetch key, h.now⟩
  | swept => exact ⟨(h.toBudgets.swept hpauses h.now hclock).1, h.now⟩
  | started key state inFlight heq => exact absurd heq (hcall key inFlight)
  | failed key =>
    obtain ⟨_, _, _, _, _, heq⟩ := @markPublicationFetchFailed_eq cfg env s key
    exact ⟨h.toBudgets.failed hpauses h.now key, heq ▸ h.now⟩
  | observed key =>
    obtain ⟨_, _, heq⟩ := @observePublicationFetchSuccess_eq cfg env s key
    exact ⟨h.toBudgets.observed hpauses key, heq ▸ h.now⟩
  | prefetched key =>
    refine ⟨⟨h.states, h.estimates, fun key' lifetime hmem => ?_⟩, h.now⟩
    have hout := (Fetcher.outstanding_expressInterest cfg.fetcher s.dataFetcher
      (.prefetch key) 0).mem_iff.mp hmem
    rcases List.mem_cons.mp hout with heq | hmem
    · cases heq
    · exact h.requests key' lifetime hmem
  | repaired key =>
    obtain ⟨_, heq⟩ := @enqueueRepairPublication_eq cfg env s key
    rw [heq]
    exact h.of_same rfl rfl rfl rfl
  | _ => exact h.of_same rfl rfl rfl rfl

theorem InBudget.act (h : InBudget cfg env s) (hpauses : PausesOk cfg) (hclock : 0 < env.steadyNow)
    {call : Call} (hcall : ∀ key inFlight, call ≠ .fetchNext key inFlight) :
    InBudget cfg env (act cfg env call s).2 := by
  by_cases hmapping : call.IsMapping
  · obtain ⟨_, _, _, _, heq⟩ := mapping_act cfg env s hmapping
    rw [heq]
    exact h.of_same rfl rfl rfl rfl
  · have hrun : ∀ t, Edits cfg env call s s t → InBudget cfg env t := by
      intro t hedits
      induction hedits with
      | refl => exact h
      | tail _ hedit ih => exact hedit.inBudget hpauses hclock hcall ih
    exact hrun _ (edits_act hmapping s)

theorem InBudget.fetchNext (h : InBudget cfg env s) (hpauses : PausesOk cfg) {key : PublicationKey}
    {ready : List PublicationKey} (hready : CanStartAll env s (key :: ready)) (inFlight : Nat) :
    InBudget cfg env (s.fetchNext cfg env key inFlight).2 ∧
      CanStartAll env (s.fetchNext cfg env key inFlight).2 ready := by
  obtain ⟨hbudgets, hrest⟩ := h.toBudgets.fetchNext hpauses h.now hready inFlight
  refine ⟨⟨hbudgets, ?_⟩, hrest⟩
  rcases @fetchNext_cases cfg env s key inFlight with
    ⟨heq, -⟩ | ⟨-, -, state, heq⟩ | ⟨-, name, packet, heq⟩
  · rw [heq]
    exact h.now
  · rw [heq]
    exact h.now
  · rw [heq]
    have hobserved : ∀ s,
        (observePublicationFetchSuccess cfg env s key).steadyNow = s.steadyNow := by
      intro s
      obtain ⟨_, _, heq⟩ := @observePublicationFetchSuccess_eq cfg env s key
      rw [heq]
    refine (hobserved _).trans ?_
    rw [invokeAll_eq]
    exact h.now

/-- The loop of `fetchAll` goes on with what can start. -/
theorem inBudget_fetchReady (hpauses : PausesOk cfg) (window : Nat) (ready : List PublicationKey)
    (inFlight : Nat) (h : InBudget cfg env s) (hready : CanStartAll env s ready) :
    (fetchReady window ready inFlight).Ends (Subscriber.act cfg env)
      (fun _ t => InBudget cfg env t) s := by
  induction ready generalizing inFlight s with
  | nil => exact Program.ends_ret.mpr h
  | cons key ready ih =>
    rw [fetchReady]
    split
    · exact Program.ends_ret.mpr h
    · obtain ⟨hnext, hrest⟩ := h.fetchNext hpauses hready inFlight
      exact Program.ends_bind (Program.ends_perform.mpr (ih _ hnext hrest))

theorem inBudget_fetchAll (hpauses : PausesOk cfg) (hclock : 0 < env.steadyNow) :
    Program.Keeps (Subscriber.act cfg env) (InBudget cfg env) (fetchAll cfg) fun _ => True := by
  intro s h
  obtain ⟨hswept, hready⟩ := h.toBudgets.swept hpauses h.now hclock
  refine (Program.ends_bind (Program.ends_perform.mpr ?_)).mono fun _ t ht => ⟨trivial, ht⟩
  exact inBudget_fetchReady hpauses _ _ _ ⟨hswept, h.now⟩ hready

theorem inBudget_perform (hpauses : PausesOk cfg) (hclock : 0 < env.steadyNow) {call : Call}
    (hcall : ¬call.Fetches) : Program.Keeps (Subscriber.act cfg env) (InBudget cfg env)
      (perform call) fun _ => True :=
  Program.keeps_perform fun _ h => h.act hpauses hclock fun _ _ heq => hcall (heq ▸ trivial)

theorem inBudget_handler (hpauses : PausesOk cfg) (hclock : 0 < env.steadyNow)
    {begun : Subscriber} {e : SubscriberEvent × SubscribeInputs} {handler : Handler Unit}
    (hbegin : beginStep cfg s e = some (begun, handler)) :
    Program.Keeps (Subscriber.act cfg env) (InBudget cfg env) handler fun _ => True :=
  closed_beginStep (Program.closed_keeps _)
    (fun _ _ _ _ hcall => inBudget_perform hpauses hclock hcall)
    (fun _ _ => inBudget_perform hpauses hclock id) cfg (inBudget_fetchAll hpauses hclock)
    (fun _ _ hcall => inBudget_perform hpauses hclock hcall.not_fetches)
    (fun _ _ hcall => inBudget_perform hpauses hclock hcall.not_fetches)
    (fun _ _ _ _ => ⟨fun _ _ => inBudget_perform hpauses hclock id,
      fun _ _ _ _ => inBudget_perform hpauses hclock id⟩) hbegin

/-- The clock moves on, and requests come to their outcomes. -/
theorem Budgets.begun (h : Budgets cfg s) {e : SubscriberEvent × SubscribeInputs}
    (hnow : s.steadyNow ≤ e.2.steadyNow) {handler : Handler Unit}
    (hbegin : beginStep cfg s e = some (t, handler)) : InBudget cfg e.2 t := by
  have hlater : Budgets cfg { s with steadyNow := e.2.steadyNow } :=
    ⟨fun key state hget => (h.states key state hget).mono hnow, h.estimates, h.requests⟩
  by_cases hevent : ∃ event, e.1 = .dataFetcher event
  · obtain ⟨event, heq⟩ := hevent
    obtain ⟨e, env⟩ := e
    obtain rfl : e = .dataFetcher event := heq
    obtain ⟨⟨fetcher, outcome⟩, hstep, hbegin⟩ := Option.map_eq_some_iff.mp hbegin
    obtain ⟨rfl, -⟩ := Prod.mk.inj hbegin
    refine ⟨⟨hlater.states, hlater.estimates, fun key lifetime hmem => ?_⟩, rfl⟩
    refine h.requests key lifetime ((Fetcher.step_outstanding hstep).mem_iff.mpr ?_)
    exact List.mem_append_right _ hmem
  · rcases beginStep_cases hbegin with hsubscribes | ⟨_, _, _, _, _, _, _, rfl, -, -, hfetcher, -⟩
    · cases hsubscribes with
      | _ => exact ⟨hlater.of_same rfl rfl rfl rfl, rfl⟩
    · exact ⟨hlater.of_same rfl rfl (hfetcher.resolve_right hevent) rfl, rfl⟩

theorem budgets_initial : Budgets cfg (initial cfg) where
  states := fun key state h => by simp [initial] at h
  estimates := fun session lifetime h => by simp [initial] at h
  requests := fun key lifetime h => by
    rw [initial, Fetcher.outstanding_setWindowSize] at h
    exact absurd h List.not_mem_nil

end Calls

/-- Each publication that is to be fetched is tried at most once more than the retries allow, never
from its deadline on, with Interest lifetimes within the options; after `n` tries it is not tried
again before a pause that doubles with each of them up to the bound, and the next try is never more
than the longest pause away. -/
theorem fetches_in_budget {s : Subscriber} {es : List (SubscriberEvent × SubscribeInputs)}
    (hpauses : PausesOk cfg) (hclock : ∀ e ∈ es, 0 < e.2.steadyNow)
    (hrun : run (step cfg) (initial cfg) es = some s) : Budgets cfg s := by
  refine run_invariant_along (fun s e s' hstep hclock h => ?_) budgets_initial
    (along_of_forall (fun e he _ => hclock e he) _) hrun
  obtain ⟨hnow, begun, handler, hbegin, hexec⟩ := step_eq_some hstep
  exact (inBudget_handler hpauses hclock hbegin begun (h.begun hnow hbegin) _ _ hexec).2.toBudgets

/-- The inputs of an event a number of seconds after the clock began. -/
def atSecond (seconds : Int) : SubscribeInputs := { steadyNow := seconds * 1000000000 }

/-- A publication is fetched and refused, and waits for the next try. -/
theorem fetches_in_budget_refused :
    let es := [((subscribeTo (.ofStrings ["x"])).1, atSecond 1),
      ((peerMapping (.ofStrings ["x"])).1, atSecond 2), (.dataFetcher (.nack 0), atSecond 3)]
    let s := (run (step sampleSubscriber) (initial sampleSubscriber) es).get (by decide +kernel)
    (s.publicationFetchStates[sampleKey]?).any (fun state =>
        state.status = .backoff ∧ state.attempts = 1) = true ∧ Budgets sampleSubscriber s := by
  refine ⟨by decide +kernel, ?_⟩
  exact fetches_in_budget ⟨by decide, by decide⟩ (by decide) (Option.some_get _).symm

end Subscriber

end NdnSvs
