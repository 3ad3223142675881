import NdnSvs.PiggyCaches
import NdnSvs.PiggyQueues
import NdnSvs.SubscribeRuns

/-! The queues and the caches of the subscribing side over its runs.  Whatever the events, they are
what some calls make of empty ones, so what holds after any calls holds in every state reached. -/

namespace NdnSvs

open Lib Lib.Tlv Std

namespace Subscriber

variable {cfg : SubscriberConfig} {env : SubscribeInputs} {s t : Subscriber}

def piggyCaches (s : Subscriber) : PiggyCaches where
  piggyDataCache := s.piggyDataCache.queue
  piggyDeliveredPublications := s.piggyDeliveredPublications.queue

def piggyLimits (cfg : SubscriberConfig) : PiggyCaches.Limits where
  piggyDataCacheLimit := max 1 cfg.piggyDataCacheLimit
  piggyDeliveredPublicationLimit := piggyDeliveredPublicationLimit

theorem piggyCaches_cachePiggyData (s : Subscriber) (data : Data) :
    (s.cachePiggyData cfg data).piggyCaches =
      s.piggyCaches.cachePiggyData cfg.pubSub.core.cxx (piggyLimits cfg) data := by
  rw [piggyCaches, cachePiggyData]
  dsimp only
  rw [Fifo.queue_evict, Fifo.queue_insert, Fifo.queue_insert]
  rfl

theorem piggyCaches_remember (s : Subscriber) (publication : PublicationKey) :
    (s.rememberPiggyDeliveredPublication publication).piggyCaches =
      s.piggyCaches.rememberPiggyDeliveredPublication (piggyLimits cfg) publication := by
  rw [piggyCaches, rememberPiggyDeliveredPublication]
  dsimp only
  rw [Fifo.queue_evict, Fifo.queue_insert]
  rfl

/-- The caches and the queues are what some calls make of empty ones. -/
structure PiggyReached (cfg : SubscriberConfig) (s : Subscriber) : Prop where
  caches : ∃ calls : List PiggyCaches.Call, s.piggyCaches =
    calls.foldl (PiggyCaches.step cfg.pubSub.core.cxx (piggyLimits cfg)) {}
  extra : ∃ calls : List ExtraData.Call, s.extra =
    calls.foldl (ExtraData.step cfg.pubSub.core.cxx cfg.pubSub.extraData) {}

theorem PiggyReached.of_same (h : PiggyReached cfg s) (hcaches : t.piggyCaches = s.piggyCaches)
    (hextra : t.extra = s.extra) : PiggyReached cfg t where
  caches := hcaches ▸ h.caches
  extra := hextra ▸ h.extra

theorem PiggyReached.cached (h : PiggyReached cfg s) (call : PiggyCaches.Call)
    (hcaches : t.piggyCaches =
      s.piggyCaches.step cfg.pubSub.core.cxx (piggyLimits cfg) call)
    (hextra : t.extra = s.extra) : PiggyReached cfg t where
  caches := by
    obtain ⟨calls, hcalls⟩ := h.caches
    refine ⟨calls ++ [call], ?_⟩
    rw [List.foldl_append, ← hcalls]
    exact hcaches
  extra := hextra ▸ h.extra

theorem PiggyReached.queued (h : PiggyReached cfg s) (call : ExtraData.Call)
    (hcaches : t.piggyCaches = s.piggyCaches)
    (hextra : t.extra = s.extra.step cfg.pubSub.core.cxx cfg.pubSub.extraData call) :
    PiggyReached cfg t where
  caches := hcaches ▸ h.caches
  extra := by
    obtain ⟨calls, hcalls⟩ := h.extra
    refine ⟨calls ++ [call], ?_⟩
    rw [List.foldl_append, ← hcalls]
    exact hextra

/-! ### Calls -/

theorem PiggyReached.rememberRepairRequest (h : PiggyReached cfg s) (key : PublicationKey) :
    PiggyReached cfg (s.rememberRepairRequest key) := by
  unfold Subscriber.rememberRepairRequest
  dsimp only
  split
  · exact h
  · exact h.queued (.pushRepair _) rfl rfl

theorem PiggyReached.markPublicationFetchFailed (h : PiggyReached cfg s) (key : PublicationKey) :
    PiggyReached cfg (s.markPublicationFetchFailed cfg env key) := by
  unfold Subscriber.markPublicationFetchFailed
  split
  · split
    · exact h.of_same rfl rfl
    · exact (h.rememberRepairRequest key).of_same rfl rfl
  · exact h

theorem PiggyReached.enqueueRepairPublication (h : PiggyReached cfg s) (key : PublicationKey) :
    PiggyReached cfg (s.enqueueRepairPublication cfg env key) := by
  unfold Subscriber.enqueueRepairPublication
  split
  · exact h
  · rename_i mapping hmapping
    let entry : MappingEntry :=
      { bootstrapTime := key.bootstrapTime, seqNo := key.seqNo, mapping }
    let repeated := s.extra.step cfg.pubSub.core.cxx cfg.pubSub.extraData
      (.repeatMapping key.nodeId entry)
    have hrepeated : PiggyReached cfg { s with extra := repeated } :=
      h.queued (.repeatMapping key.nodeId entry) rfl rfl
    dsimp only
    split
    · exact hrepeated
    · exact hrepeated.queued (.pushData _) rfl rfl

theorem Edit.piggyReached {call : Call} {s₀ : Subscriber} (hedit : Edit cfg env call s₀ s t)
    (h : PiggyReached cfg s) : PiggyReached cfg t := by
  cases hedit with
  | remembered key => exact h.cached (.remember key) (piggyCaches_remember s key) rfl
  | kept data => exact h.cached (.receive data) (piggyCaches_cachePiggyData s data) rfl
  | failed key => exact h.markPublicationFetchFailed key
  | repaired key => exact h.enqueueRepairPublication key
  | delivered key subs _ _ data wanted =>
    rw [invokeAll_eq]
    exact h.of_same rfl rfl
  | divided key subs =>
    rw [invokeAll_eq]
    exact h.of_same rfl rfl
  | observed key =>
    obtain ⟨states, estimates, heq⟩ := @observePublicationFetchSuccess_eq cfg env s key
    rw [heq]
    exact h.of_same rfl rfl
  | _ => exact h.of_same rfl rfl

theorem piggyReached_act (h : PiggyReached cfg s) (call : Call) :
    PiggyReached cfg (act cfg env call s).2 := by
  by_cases hmapping : call.IsMapping
  · obtain ⟨_, _, _, _, heq⟩ := mapping_act cfg env s hmapping
    rw [heq]
    exact h.of_same rfl rfl
  · have hedits := @edits_act cfg env call hmapping s
    generalize (act cfg env call s).2 = after at hedits
    induction hedits with
    | refl => exact h
    | tail _ hedit ih => exact hedit.piggyReached ih

/-! ### Runs -/

theorem piggyReached_begin {begun : Subscriber} {e : SubscriberEvent × SubscribeInputs}
    {handler : Handler Unit} (hbegin : beginStep cfg s e = some (begun, handler))
    (h : PiggyReached cfg s) : PiggyReached cfg begun := by
  rcases beginStep_cases hbegin with hsubscribes | ⟨_, _, _, _, _, _, _, rfl, -, hqueues, -⟩
  · cases hsubscribes with
    | _ => exact h.of_same rfl rfl
  · cases hqueues with
    | none => exact h.of_same rfl rfl
    | pushMapping nodeId entry => exact h.queued (.pushMapping nodeId entry) rfl rfl
    | pushData data => exact h.queued (.pushData data) rfl rfl
    | getExtraData => exact h.queued .getExtraData rfl rfl

theorem piggyReached_initial (cfg : SubscriberConfig) : PiggyReached cfg (initial cfg) :=
  ⟨⟨[], rfl⟩, [], rfl⟩

theorem piggyReached_run {es : List (SubscriberEvent × SubscribeInputs)}
    (hrun : run (step cfg) (initial cfg) es = some s) : PiggyReached cfg s := by
  refine run_invariant (fun s e s' hstep h => ?_) (piggyReached_initial cfg) hrun
  obtain ⟨-, begun, handler, hbegin, hexec⟩ := step_eq_some hstep
  have hbegun := piggyReached_begin hbegin h
  exact Program.exec_keeps (P := PiggyReached cfg) (fun _ call h => piggyReached_act h call) hbegun
    hexec

/-- In every state reached the caches list their keys once, in the order in which they came in, and
hold no more than their limits. -/
theorem run_caches_recent {es : List (SubscriberEvent × SubscribeInputs)}
    (hrun : run (step cfg) (initial cfg) es = some s) : ∃ names publications,
      s.piggyCaches.piggyDataCache.Recent (piggyLimits cfg).piggyDataCacheLimit names ∧
      s.piggyCaches.piggyDeliveredPublications.Recent
        (piggyLimits cfg).piggyDeliveredPublicationLimit publications := by
  obtain ⟨calls, hcalls⟩ := (piggyReached_run hrun).caches
  rw [hcalls]
  exact ⟨_, _, PiggyCaches.recent_calls (KeyQueue.recent_empty _) (KeyQueue.recent_empty _) calls⟩

/-- In every state reached the entries of a queue can be numbered so that the queue is fair. -/
theorem run_queues_fair (k : QueueKind) {es : List (SubscriberEvent × SubscribeInputs)}
    (hrun : run (step cfg) (initial cfg) es = some s) : ∃ q : NumberedQueue k,
      q.extra = s.extra ∧ q.Fair cfg.pubSub.core.cxx cfg.pubSub.extraData := by
  obtain ⟨calls, hcalls⟩ := (piggyReached_run hrun).extra
  exact ⟨.run _ _ calls, (NumberedQueue.run_extra calls).trans hcalls.symm,
    .of_bounded (NumberedQueue.run_entries calls) (NumberedQueue.run_bounded calls)⟩

end Subscriber

end NdnSvs
