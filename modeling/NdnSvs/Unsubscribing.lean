import NdnSvs.SubscribeCalls

/-! The end of a subscription.  The subscriptions are copied to the publications that wait to be
fetched; a subscription that no such publication holds when it ends is never called again.  Handles
have 32 bits and come again after 2^32 subscriptions. -/

namespace NdnSvs

open Lib Lib.Tlv Std

namespace Subscriber

/-! ### The handles in use -/

/-- The handle that was given out with the callback. -/
def handle (cfg : SubscriberConfig) (callback : Nat) : Nat :=
  (cfg.subscriptionCount + callback + 1) % 2 ^ 32

/-- Each subscription has the handle that was given out with its callback, and the subscriptions of
a kind are in the order of the calls that made them. -/
structure HandlesOk (cfg : SubscriberConfig) (callbacks : Nat) (subs : List Subscription) :
    Prop where
  handles : ∀ sub ∈ subs, sub.id = handle cfg sub.callback
  rising : subs.Pairwise fun sub later => sub.callback < later.callback
  lt : ∀ sub ∈ subs, sub.callback < callbacks

/-- The first subscription with the handle of the callback is its own, if it is there. -/
def Denotes (cfg : SubscriberConfig) (callback : Nat) (subs : List Subscription) : Prop :=
  ∀ sub ∈ subs, sub.callback = callback →
    subs.find? (fun sub => sub.id = handle cfg callback) = some sub

variable {cfg : SubscriberConfig} {callback callbacks : Nat} {subs : List Subscription}
  {sub first : Subscription}

theorem handlesOk_nil : HandlesOk cfg callbacks [] :=
  ⟨fun _ hsub => absurd hsub List.not_mem_nil, .nil, fun _ hsub => absurd hsub List.not_mem_nil⟩

theorem HandlesOk.append (h : HandlesOk cfg callbacks subs) (hid : sub.id = handle cfg callbacks)
    (hcallback : sub.callback = callbacks) : HandlesOk cfg (callbacks + 1) (subs ++ [sub]) := by
  refine ⟨fun old hold => ?_, List.pairwise_append.mpr ⟨h.rising, List.pairwise_singleton _ _,
    fun old hold new hnew => ?_⟩, fun old hold => ?_⟩
  · rcases List.mem_append.mp hold with hold | hold
    · exact h.handles old hold
    · rw [List.mem_singleton.mp hold, hcallback, hid]
  · rw [List.mem_singleton.mp hnew, hcallback]
    exact h.lt old hold
  · rcases List.mem_append.mp hold with hold | hold
    · exact Nat.lt_succ_of_lt (h.lt old hold)
    · rw [List.mem_singleton.mp hold, hcallback]
      exact Nat.lt_succ_self _

theorem HandlesOk.mono (h : HandlesOk cfg callbacks subs) : HandlesOk cfg (callbacks + 1) subs :=
  ⟨h.handles, h.rising, fun sub hsub => Nat.lt_succ_of_lt (h.lt sub hsub)⟩

theorem HandlesOk.erase (h : HandlesOk cfg callbacks subs) (handle : Nat) :
    HandlesOk cfg callbacks (subs.eraseP fun sub => sub.id = handle) :=
  ⟨fun sub hsub => h.handles sub (List.mem_of_mem_eraseP hsub),
    h.rising.sublist List.eraseP_sublist,
    fun sub hsub => h.lt sub (List.mem_of_mem_eraseP hsub)⟩

theorem HandlesOk.of_cons (h : HandlesOk cfg callbacks (first :: subs)) :
    HandlesOk cfg callbacks subs :=
  ⟨fun sub hsub => h.handles sub (List.mem_cons_of_mem _ hsub), (List.pairwise_cons.mp h.rising).2,
    fun sub hsub => h.lt sub (List.mem_cons_of_mem _ hsub)⟩

/-- The subscription that a handle denotes is gone when the first with the handle is erased. -/
theorem HandlesOk.erased (h : HandlesOk cfg callbacks subs) (hdenotes : Denotes cfg callback subs) :
    ∀ sub ∈ subs.eraseP fun sub => sub.id = handle cfg callback, sub.callback ≠ callback := by
  induction subs with
  | nil => exact fun sub hsub => absurd hsub List.not_mem_nil
  | cons first subs ih =>
    by_cases hfirst : first.id = handle cfg callback
    · rw [List.eraseP_cons_of_pos (by simpa using hfirst)]
      intro sub hsub heq
      have hfind := hdenotes sub (List.mem_cons_of_mem _ hsub) heq
      rw [List.find?_cons_of_pos (by simpa using hfirst)] at hfind
      have hlt := (List.pairwise_cons.mp h.rising).1 sub hsub
      rw [Option.some.inj hfind] at hlt
      exact Nat.lt_irrefl _ hlt
    · rw [List.eraseP_cons_of_neg (by simpa using hfirst)]
      refine List.forall_mem_cons.mpr ⟨fun heq => hfirst ?_, ih h.of_cons fun sub hsub heq => ?_⟩
      · rw [h.handles first List.mem_cons_self, heq]
      · rw [← hdenotes sub (List.mem_cons_of_mem _ hsub) heq]
        exact (List.find?_cons_of_neg (by simpa using hfirst)).symm

/-- Before the count has come round no handle is given out twice. -/
theorem HandlesOk.denotes (h : HandlesOk cfg callbacks subs) (hlt : callback < 2 ^ 32) :
    Denotes cfg callback subs := by
  induction subs with
  | nil => exact fun sub hsub => absurd hsub List.not_mem_nil
  | cons first subs ih =>
    intro sub hsub heq
    by_cases hfirst : first.id = handle cfg callback
    · rw [List.find?_cons_of_pos (by simpa using hfirst)]
      rcases List.mem_cons.mp hsub with rfl | hsub
      · rfl
      · have hbefore := (List.pairwise_cons.mp h.rising).1 sub hsub
        rw [h.handles first List.mem_cons_self, handle, handle] at hfirst
        omega
    · rw [List.find?_cons_of_neg (by simpa using hfirst)]
      rcases List.mem_cons.mp hsub with rfl | hsub
      · exact absurd (heq ▸ h.handles sub List.mem_cons_self) hfirst
      · exact ih h.of_cons sub hsub heq

structure Handles (cfg : SubscriberConfig) (s : Subscriber) : Prop where
  count : s.nextHandle = handle cfg s.callbacks
  producers : HandlesOk cfg s.callbacks s.producerSubscriptions
  prefixes : HandlesOk cfg s.callbacks s.prefixSubscriptions
  regexes : HandlesOk cfg s.callbacks s.regexSubscriptions

/-- In each list of subscriptions the handle of the callback comes first with its own. -/
structure Denoted (cfg : SubscriberConfig) (callback : Nat) (s : Subscriber) : Prop where
  producers : Denotes cfg callback s.producerSubscriptions
  prefixes : Denotes cfg callback s.prefixSubscriptions
  regexes : Denotes cfg callback s.regexSubscriptions

/-- The callback has been subscribed, and no subscription with it is left. -/
structure Ended (callback : Nat) (s : Subscriber) : Prop where
  issued : callback < s.callbacks
  producers : ∀ sub ∈ s.producerSubscriptions, sub.callback ≠ callback
  prefixes : ∀ sub ∈ s.prefixSubscriptions, sub.callback ≠ callback
  regexes : ∀ sub ∈ s.regexSubscriptions, sub.callback ≠ callback

/-- No publication that waits to be fetched holds the subscription. -/
def NotWaiting (callback : Nat) (s : Subscriber) : Prop :=
  ∀ entry ∈ s.fetchMap.toList, ∀ sub ∈ entry.2, sub.callback ≠ callback

instance (callback : Nat) (s : Subscriber) : Decidable (NotWaiting callback s) := by
  unfold NotWaiting
  infer_instance

/-- The calls of the callback so far. -/
def callsOf (callback : Nat) (s : Subscriber) : List Invocation :=
  s.invoked.filter fun invocation => invocation.callback = callback

theorem notWaiting_iff {s : Subscriber} : NotWaiting callback s ↔
    ∀ (key : PublicationKey) (subs : List Subscription), s.fetchMap[key]? = some subs →
      ∀ sub ∈ subs, sub.callback ≠ callback :=
  ⟨fun h key subs hget => h (key, subs) (Map.mem_toList.mpr hget),
    fun h entry hentry => h entry.1 entry.2 (Map.mem_toList.mp hentry)⟩

/-- The count goes on with the callbacks. -/
theorem Handles.next {s : Subscriber} (h : Handles cfg s) :
    (s.nextHandle + 1) % 2 ^ 32 = handle cfg (s.callbacks + 1) := by
  rw [h.count, handle, handle]
  omega

/-- In every state the handles are those that were given out with the callbacks. -/
theorem handles_step {s s' : Subscriber} {e : SubscriberEvent × SubscribeInputs}
    (h : Handles cfg s) (hstep : step cfg s e = some s') : Handles cfg s' := by
  obtain ⟨-, begun, handler, hbegin, hexec⟩ := step_eq_some hstep
  have hbegun : Handles cfg begun := by
    rcases beginStep_cases hbegin with hsubscribes | ⟨_, _, _, _, _, _, _, rfl, -, -⟩
    · cases hsubscribes with
      | subscribe namePrefix packets =>
        exact ⟨h.next, h.producers.mono, h.prefixes.append h.count rfl, h.regexes.mono⟩
      | subscribeWithRegex regex autofetch packets =>
        exact ⟨h.next, h.producers.mono, h.prefixes.mono, h.regexes.append h.count rfl⟩
      | subscribeToProducer nodePrefix prefetch packets =>
        exact ⟨h.next, h.producers.append h.count rfl, h.prefixes.mono, h.regexes.mono⟩
      | unsubscribe handle =>
        exact ⟨h.count, h.producers.erase handle, h.prefixes.erase handle, h.regexes.erase handle⟩
    · exact ⟨h.count, h.producers, h.prefixes, h.regexes⟩
  refine Program.exec_keeps (fun s call h => ?_) hbegun hexec
  by_cases hmapping : call.IsMapping
  · obtain ⟨_, _, _, _, heq⟩ := mapping_act cfg e.2 s hmapping
    rw [heq]
    exact ⟨h.count, h.producers, h.prefixes, h.regexes⟩
  · have hframe := frame_act cfg e.2 s call hmapping
    obtain ⟨hcount, hproducers, hprefixes, hregexes⟩ := h
    rw [nextHandle, ← hframe.subscriptionCount] at hcount
    rw [← hframe.callbacks] at hcount hproducers hprefixes hregexes
    exact ⟨hcount, hframe.producerSubscriptions ▸ hproducers,
      hframe.prefixSubscriptions ▸ hprefixes, hframe.regexSubscriptions ▸ hregexes⟩

theorem handles_initial (cfg : SubscriberConfig) : Handles cfg (initial cfg) :=
  ⟨rfl, handlesOk_nil, handlesOk_nil, handlesOk_nil⟩

theorem run_handles {s : Subscriber} {es : List (SubscriberEvent × SubscribeInputs)}
    (hrun : run (step cfg) (initial cfg) es = some s) : Handles cfg s :=
  run_invariant (fun _ _ _ hstep h => handles_step h hstep) (handles_initial cfg) hrun

/-- The handles of the first 2^32 callbacks are not mistaken for others. -/
theorem Handles.denoted {s : Subscriber} (h : Handles cfg s) (hlt : callback < 2 ^ 32) :
    Denoted cfg callback s :=
  ⟨h.producers.denotes hlt, h.prefixes.denotes hlt, h.regexes.denotes hlt⟩

/-! ### After the end of a subscription -/

/-- The subscription has ended, nothing waits for it, and its callback has been called so far. -/
structure Quiet (callback : Nat) (calls : List Invocation) (s : Subscriber) : Prop where
  ended : Ended callback s
  notWaiting : NotWaiting callback s
  calls : callsOf callback s = calls

section Quiet

variable {env : SubscribeInputs} {calls : List Invocation} {s t : Subscriber}

theorem quiet_act {call : Call} (hcall : call.Spares (· ≠ callback)) (h : Quiet callback calls s) :
    Quiet callback calls (act cfg env call s).2 := by
  by_cases hmapping : call.IsMapping
  · obtain ⟨_, _, _, _, heq⟩ := mapping_act cfg env s hmapping
    rw [heq]
    exact ⟨⟨h.ended.issued, h.ended.producers, h.ended.prefixes, h.ended.regexes⟩, h.notWaiting,
      h.calls⟩
  · have hdelivers := @delivers_act cfg env _ s call hmapping hcall
      ⟨h.ended.prefixes, h.ended.regexes, notWaiting_iff.mp h.notWaiting⟩
    refine ⟨⟨?_, ?_, hdelivers.among.prefixes, hdelivers.among.regexes⟩,
      notWaiting_iff.mpr hdelivers.among.waiting, ?_⟩
    · exact hdelivers.callbacks ▸ h.ended.issued
    · exact hdelivers.producerSubscriptions ▸ h.ended.producers
    · obtain ⟨new, heq, hnew⟩ := hdelivers.calls
      have hnone : new.filter (fun invocation => invocation.callback = callback) = [] :=
        List.filter_eq_nil_iff.mpr fun call hmem => by simpa using hnew call hmem
      rw [callsOf, heq, List.filter_append, hnone, List.append_nil]
      exact h.calls

/-- New subscriptions have other callbacks. -/
theorem quiet_beginStep {begun : Subscriber} {e : SubscriberEvent × SubscribeInputs}
    {handler : Handler Unit} (hbegin : beginStep cfg s e = some (begun, handler))
    (h : Quiet callback calls s) : Quiet callback calls begun := by
  have hnew : ∀ (subs : List Subscription) (sub : Subscription), sub.callback = s.callbacks →
      (∀ old ∈ subs, old.callback ≠ callback) → ∀ old ∈ subs ++ [sub], old.callback ≠ callback := by
    intro subs sub hsub hsubs old hold
    rcases List.mem_append.mp hold with hold | hold
    · exact hsubs old hold
    · obtain rfl := List.mem_singleton.mp hold
      have := h.ended.issued
      omega
  have herased : ∀ (subs : List Subscription) (other : Nat),
      (∀ old ∈ subs, old.callback ≠ callback) →
      ∀ old ∈ subs.eraseP fun sub => sub.id = other, old.callback ≠ callback :=
    fun subs other hsubs old hold => hsubs old (List.mem_of_mem_eraseP hold)
  obtain ⟨⟨hissued, hproducers, hprefixes, hregexes⟩, hwaiting, hcalls⟩ := h
  rcases beginStep_cases hbegin with hsubscribes | ⟨_, _, _, _, _, _, _, rfl, -, -⟩
  · cases hsubscribes with
    | subscribe namePrefix packets =>
      exact ⟨⟨Nat.lt_succ_of_lt hissued, hproducers, hnew _ _ rfl hprefixes, hregexes⟩, hwaiting,
        hcalls⟩
    | subscribeWithRegex regex autofetch packets =>
      exact ⟨⟨Nat.lt_succ_of_lt hissued, hproducers, hprefixes, hnew _ _ rfl hregexes⟩, hwaiting,
        hcalls⟩
    | subscribeToProducer nodePrefix prefetch packets =>
      exact ⟨⟨Nat.lt_succ_of_lt hissued, hnew _ _ rfl hproducers, hprefixes, hregexes⟩, hwaiting,
        hcalls⟩
    | unsubscribe other =>
      exact ⟨⟨hissued, herased _ other hproducers, herased _ other hprefixes,
        herased _ other hregexes⟩, hwaiting, hcalls⟩
  · exact ⟨⟨hissued, hproducers, hprefixes, hregexes⟩, hwaiting, hcalls⟩

theorem quiet_step {s' : Subscriber} {e : SubscriberEvent × SubscribeInputs}
    (h : Quiet callback calls s) (hstep : step cfg s e = some s') : Quiet callback calls s' := by
  obtain ⟨-, begun, handler, hbegin, hexec⟩ := step_eq_some hstep
  have hmakes : Program.Makes (Call.Spares (· ≠ callback)) handler :=
    makes_beginStep (fun _ hcall _ _ => Call.spares_of_not_queues hcall) (fun _ _ => trivial) cfg
      (fun _ _ hcall => Call.spares_of_not_queues hcall.not_queues)
      (fun _ _ hcall => Call.spares_of_not_queues hcall.not_queues)
      (fun _ _ _ _ => ⟨fun _ _ => trivial, fun sub hsub _ _ => h.ended.producers sub hsub⟩)
      hbegin
  have hkeep : ∀ s call, call.Spares (· ≠ callback) → Quiet callback calls s →
      Quiet callback calls (act cfg e.2 call s).2 := fun s call hcall hs => quiet_act hcall hs
  exact Program.exec_invariant hkeep (quiet_beginStep hbegin h)
    (hmakes.along (fun _ _ hcall => hcall) begun) hexec

end Quiet

/-- When no publication that waits holds a subscription, and its handle is not that of an earlier
one, its end is the end of the calls of its callback. -/
theorem unsubscribe_is_final {es es' : List (SubscriberEvent × SubscribeInputs)}
    {env : SubscribeInputs} {s s₁ s₂ : Subscriber}
    (hrun : run (step cfg) (initial cfg) es = some s) (hissued : callback < s.callbacks)
    (hwaiting : NotWaiting callback s) (hdenoted : Denoted cfg callback s)
    (hstep : step cfg s (.unsubscribe (handle cfg callback), env) = some s₁)
    (hrun' : run (step cfg) s₁ es' = some s₂) : callsOf callback s₂ = callsOf callback s := by
  have hhandles := run_handles hrun
  obtain ⟨-, begun, handler, hbegin, hexec⟩ := step_eq_some hstep
  obtain ⟨rfl, rfl⟩ := Prod.mk.inj (Option.some.inj hbegin)
  obtain ⟨-, rfl⟩ := Prod.mk.inj (Option.some.inj hexec)
  have hquiet : Quiet callback (callsOf callback s)
      (Subscriber.unsubscribe { s with steadyNow := env.steadyNow } (handle cfg callback)) :=
    ⟨⟨hissued, hhandles.producers.erased hdenoted.producers,
      hhandles.prefixes.erased hdenoted.prefixes, hhandles.regexes.erased hdenoted.regexes⟩,
      hwaiting, rfl⟩
  exact (run_invariant (fun _ _ _ hstep h => quiet_step h hstep) hquiet hrun').calls

/-- A peer's packet, which comes along with a Sync Interest. -/
def peerPacket (name : Name) : SubscriberEvent × SubscribeInputs :=
  (.extraBlocks [.ofElements tlv.mappingData
    [packetFormat.dataWire { name, signatureValue := some [] }]], {})

theorem unsubscribe_is_final_delivered :
    let s := (run (step sampleSubscriber) (initial sampleSubscriber)
      [subscribeTo (.ofStrings ["x"]), peerMapping (.ofStrings ["x"]),
        peerPacket (.ofStrings ["x"])]).get (by decide +kernel)
    let s₁ := (step sampleSubscriber s (.unsubscribe 1, {})).get (by decide +kernel)
    let s₂ := (run (step sampleSubscriber) s₁ [peerPacket (.ofStrings ["x"])]).get
      (by decide +kernel)
    (callsOf 0 s).length = 1 ∧ callsOf 0 s₂ = callsOf 0 s := by
  intro s s₁ s₂
  have hrun : run (step sampleSubscriber) (initial sampleSubscriber)
      [subscribeTo (.ofStrings ["x"]), peerMapping (.ofStrings ["x"]),
        peerPacket (.ofStrings ["x"])] = some s := (Option.some_get _).symm
  refine ⟨by decide +kernel, ?_⟩
  exact unsubscribe_is_final hrun (by decide +kernel) (by decide +kernel)
    ((run_handles hrun).denoted (by decide)) (Option.some_get _).symm (Option.some_get _).symm

/-- A publication that waited when its subscription ended is delivered to it all the same. -/
theorem called_after_unsubscribe :
    let s := (run (step sampleSubscriber) (initial sampleSubscriber)
      [subscribeTo (.ofStrings ["x"]), peerMapping (.ofStrings ["x"])]).get (by decide +kernel)
    let s₁ := (step sampleSubscriber s (.unsubscribe 1, {})).get (by decide +kernel)
    let s₂ := (run (step sampleSubscriber) s₁ [peerPacket (.ofStrings ["x"])]).get
      (by decide +kernel)
    run (step sampleSubscriber) (initial sampleSubscriber)
        [subscribeTo (.ofStrings ["x"]), peerMapping (.ofStrings ["x"])] = some s ∧
      step sampleSubscriber s (.unsubscribe 1, {}) = some s₁ ∧
      run (step sampleSubscriber) s₁ [peerPacket (.ofStrings ["x"])] = some s₂ ∧
      callsOf 0 s₁ = [] ∧ (callsOf 0 s₂).length = 1 :=
  ⟨(Option.some_get _).symm, (Option.some_get _).symm, (Option.some_get _).symm, by decide +kernel,
    by decide +kernel⟩

end Subscriber

end NdnSvs
