import NdnSvs.Lib.Runs
import NdnSvs.PacketFormat
import NdnSvs.SubscribeFrames

/-! Runs of the subscribing side: conditions on the calls that the steps make, and the rule that
what the calls keep, and the beginnings of the events, holds after a run. -/

namespace NdnSvs

open Lib Lib.Tlv Std

namespace Subscriber

variable (cfg : SubscriberConfig)

/-- The state and the handler of a step, when its event can happen. -/
def beginStep (s : Subscriber) (e : SubscriberEvent × SubscribeInputs) :
    Option (Subscriber × Handler Unit) :=
  begin cfg e.2 { s with steadyNow := e.2.steadyNow } e.1

/-- Every call of the step meets `ok`, a condition on the call and the state before it. -/
def CallsAlong (ok : Subscriber → Call → Prop) (s : Subscriber)
    (e : SubscriberEvent × SubscribeInputs) : Prop :=
  match beginStep cfg s e with
  | none => True
  | some (s, handler) => handler.Along (act cfg e.2) ok s

instance (ok : Subscriber → Call → Prop) [∀ s call, Decidable (ok s call)] (s : Subscriber)
    (e : SubscriberEvent × SubscribeInputs) : Decidable (CallsAlong cfg ok s e) := by
  unfold CallsAlong
  generalize beginStep cfg s e = begun
  rcases begun with _ | ⟨s, handler⟩
  · exact isTrue trivial
  · exact Program.decidableAlong _ ok handler s

variable {cfg}

theorem step_eq_some {s s' : Subscriber} {e : SubscriberEvent × SubscribeInputs}
    (h : step cfg s e = some s') : s.steadyNow ≤ e.2.steadyNow ∧
      ∃ begun handler, beginStep cfg s e = some (begun, handler) ∧
        handler.exec (act cfg e.2) begun = some ((), s') := by
  unfold step at h
  split at h
  · rename_i hclock
    obtain ⟨⟨begun, handler⟩, hbegin, h⟩ := Option.bind_eq_some_iff.mp h
    obtain ⟨⟨u, s₁⟩, hexec, rfl⟩ := Option.map_eq_some_iff.mp h
    exact ⟨hclock, begun, handler, hbegin, hexec⟩
  · cases h

theorem callsAlong_begun {ok : Subscriber → Call → Prop} {s begun : Subscriber}
    {e : SubscriberEvent × SubscribeInputs} {handler : Handler Unit}
    (h : CallsAlong cfg ok s e) (hbegin : beginStep cfg s e = some (begun, handler)) :
    handler.Along (act cfg e.2) ok begun := by
  rw [CallsAlong, hbegin] at h
  exact h

/-- What the beginning of a step keeps, and every call that meets `ok`, holds after a step whose
calls all meet it. -/
theorem step_keeps {P : Subscriber → Prop} {ok : Subscriber → Call → Prop} {s s' : Subscriber}
    {e : SubscriberEvent × SubscribeInputs}
    (hbegin : ∀ begun handler, beginStep cfg s e = some (begun, handler) → P s → P begun)
    (hcall : ∀ s call, ok s call → P s → P (act cfg e.2 call s).2) (hs : P s)
    (hok : CallsAlong cfg ok s e) (hstep : step cfg s e = some s') : P s' := by
  obtain ⟨-, begun, handler, hbegun, hexec⟩ := step_eq_some hstep
  exact Program.exec_invariant hcall (hbegin begun handler hbegun hs) (callsAlong_begun hok hbegun)
    hexec

theorem run_keeps {P : Subscriber → Prop}
    {ok : SubscriberEvent × SubscribeInputs → Subscriber → Call → Prop}
    (hbegin : ∀ s e begun handler, beginStep cfg s e = some (begun, handler) → P s → P begun)
    (hcall : ∀ e s call, ok e s call → P s → P (act cfg e.2 call s).2) {s s' : Subscriber}
    {es : List (SubscriberEvent × SubscribeInputs)} (hs : P s)
    (hok : Along (step cfg) (fun s e => CallsAlong cfg (ok e) s e) s es)
    (hrun : run (step cfg) s es = some s') : P s' :=
  run_invariant_along (fun s e _ hstep hok hs => step_keeps (hbegin s e) (hcall e) hs hok hstep)
    hs hok hrun

/-- The calls of the application for subscriptions. -/
inductive Subscribes (s : Subscriber) : Subscriber → Prop
  | subscribe (namePrefix : Name) (packets : Bool) : Subscribes s (s.subscribe namePrefix packets)
  | subscribeWithRegex (regex : String) (autofetch packets : Bool) :
    Subscribes s (s.subscribeWithRegex regex autofetch packets)
  | subscribeToProducer (nodePrefix : Name) (prefetch packets : Bool) :
    Subscribes s (s.subscribeToProducer nodePrefix prefetch packets)
  | unsubscribe (handle : Nat) : Subscribes s (s.unsubscribe handle)

/-- What an event does to the queues before its handler runs. -/
inductive Queues (cfg : SubscriberConfig) (extra : ExtraData) : ExtraData → Prop
  | none : Queues cfg extra extra
  | pushMapping (nodeId : NodeID) (entry : MappingEntry) :
    Queues cfg extra (extra.pushMapping nodeId entry)
  | pushData (data : Data) : Queues cfg extra (extra.pushData data)
  | getExtraData :
    Queues cfg extra (extra.onGetExtraData cfg.pubSub.core.cxx cfg.pubSub.extraData).2

/-- None of this asks for a repair. -/
theorem Queues.repairs {extra extra' : ExtraData} (h : Queues cfg extra extra') :
    (extra'.repairRequestQueue.map QueueEntry.item).Sublist
      (extra.repairRequestQueue.map QueueEntry.item) := by
  cases h with
  | none => exact .refl _
  | pushMapping nodeId entry => exact .refl _
  | pushData data => exact .refl _
  | getExtraData => exact (ExtraData.onGetExtraData_retained ..).2.2

/-- What an event does before its handler runs: it is a call for a subscription, or it changes only
the queues, the timers and what comes from outside. -/
theorem beginStep_cases {s begun : Subscriber} {e : SubscriberEvent × SubscribeInputs}
    {handler : Handler Unit} (h : beginStep cfg s e = some (begun, handler)) :
    Subscribes { s with steadyNow := e.2.steadyNow } begun ∨
    ∃ extra dataFetcher mappingFetcher timers validations segmentFetches accepted,
      begun = { s with
        steadyNow := e.2.steadyNow, extra, dataFetcher, mappingFetcher, timers, validations
        segmentFetches, accepted } ∧
      (mappingFetcher = s.mappingFetcher ∨ ∃ event, e.1 = .mappingFetcher event) ∧
      Queues cfg s.extra extra ∧
      (dataFetcher = s.dataFetcher ∨ ∃ event, e.1 = .dataFetcher event) ∧
      (timers = s.timers ∨ ∃ index, e.1 = .fetchTimer index) ∧
      (validations = s.validations ∧ accepted = s.accepted ∨ ∃ i ok, e.1 = .verdict i ok) := by
  obtain ⟨e, env⟩ := e
  cases e with
  | subscribe namePrefix packets =>
    obtain ⟨rfl, -⟩ := Prod.mk.inj (Option.some.inj h)
    exact .inl (.subscribe ..)
  | subscribeWithRegex regex autofetch packets =>
    obtain ⟨rfl, -⟩ := Prod.mk.inj (Option.some.inj h)
    exact .inl (.subscribeWithRegex ..)
  | subscribeToProducer nodePrefix prefetch packets =>
    obtain ⟨rfl, -⟩ := Prod.mk.inj (Option.some.inj h)
    exact .inl (.subscribeToProducer ..)
  | unsubscribe handle =>
    obtain ⟨rfl, -⟩ := Prod.mk.inj (Option.some.inj h)
    exact .inl (.unsubscribe ..)
  | publishMapping nodeId entry =>
    obtain ⟨rfl, -⟩ := Prod.mk.inj (Option.some.inj h)
    exact .inr ⟨_, _, _, _, _, _, _, rfl, .inl rfl, .pushMapping nodeId entry, .inl rfl, .inl rfl,
      .inl ⟨rfl, rfl⟩⟩
  | publishData data =>
    obtain ⟨rfl, -⟩ := Prod.mk.inj (Option.some.inj h)
    exact .inr ⟨_, _, _, _, _, _, _, rfl, .inl rfl, .pushData data, .inl rfl, .inl rfl,
      .inl ⟨rfl, rfl⟩⟩
  | getExtraBlocks =>
    obtain ⟨rfl, -⟩ := Prod.mk.inj (Option.some.inj h)
    exact .inr ⟨_, _, _, _, _, _, _, rfl, .inl rfl, .getExtraData, .inl rfl, .inl rfl,
      .inl ⟨rfl, rfl⟩⟩
  | dataFetcher event =>
    obtain ⟨_, -, h⟩ := Option.map_eq_some_iff.mp h
    obtain ⟨rfl, -⟩ := Prod.mk.inj h
    exact .inr ⟨_, _, _, _, _, _, _, rfl, .inl rfl, .none, .inr ⟨event, rfl⟩, .inl rfl,
      .inl ⟨rfl, rfl⟩⟩
  | mappingFetcher event =>
    obtain ⟨_, -, h⟩ := Option.map_eq_some_iff.mp h
    obtain ⟨rfl, -⟩ := Prod.mk.inj h
    exact .inr ⟨_, _, _, _, _, _, _, rfl, .inr ⟨event, rfl⟩, .none, .inl rfl, .inl rfl,
      .inl ⟨rfl, rfl⟩⟩
  | fetchTimer index =>
    obtain ⟨due, -, h⟩ := Option.bind_eq_some_iff.mp h
    split at h
    · obtain ⟨rfl, -⟩ := Prod.mk.inj (Option.some.inj h)
      exact .inr ⟨_, _, _, _, _, _, _, rfl, .inl rfl, .none, .inl rfl, .inr ⟨index, rfl⟩,
        .inl ⟨rfl, rfl⟩⟩
    · cases h
  | verdict index accepted =>
    obtain ⟨_, -, h⟩ := Option.map_eq_some_iff.mp h
    obtain ⟨rfl, -⟩ := Prod.mk.inj h
    exact .inr ⟨_, _, _, _, _, _, _, rfl, .inl rfl, .none, .inl rfl, .inl rfl,
      .inr ⟨index, accepted, rfl⟩⟩
  | segments index content =>
    obtain ⟨_, -, h⟩ := Option.map_eq_some_iff.mp h
    obtain ⟨rfl, -⟩ := Prod.mk.inj h
    exact .inr ⟨_, _, _, _, _, _, _, rfl, .inl rfl, .none, .inl rfl, .inl rfl,
      .inl ⟨rfl, rfl⟩⟩
  | _ =>
    obtain ⟨rfl, -⟩ := Prod.mk.inj (Option.some.inj h)
    exact .inr ⟨_, _, _, _, _, _, _, rfl, .inl rfl, .none, .inl rfl, .inl rfl,
      .inl ⟨rfl, rfl⟩⟩

/-- An event brings nothing into the mapping store before its handler runs. -/
theorem beginStep_mappings {s begun : Subscriber} {e : SubscriberEvent × SubscribeInputs}
    {handler : Handler Unit} (h : beginStep cfg s e = some (begun, handler)) :
    begun.mappings = s.mappings := by
  rcases beginStep_cases h with hsubscribes | ⟨_, _, _, _, _, _, _, rfl, -, -⟩
  · cases hsubscribes with
    | _ => rfl
  · rfl

/-- An event delivers nothing before its handler runs. -/
theorem beginStep_delivered {s begun : Subscriber} {e : SubscriberEvent × SubscribeInputs}
    {handler : Handler Unit} (h : beginStep cfg s e = some (begun, handler)) :
    begun.piggyDeliveredPublications = s.piggyDeliveredPublications := by
  rcases beginStep_cases h with hsubscribes | ⟨_, _, _, _, _, _, _, rfl, -, -⟩
  · cases hsubscribes with
    | _ => rfl
  · rfl

/-- Before its handler runs, an event leaves the queries for mappings alone, unless it comes from
their fetcher. -/
theorem beginStep_queries {s begun : Subscriber} {e : SubscriberEvent × SubscribeInputs}
    {handler : Handler Unit} (h : beginStep cfg s e = some (begun, handler))
    (he : ∀ event, e.1 ≠ .mappingFetcher event) :
    begun.mappingFetcher = s.mappingFetcher ∧
      begun.mappingFetchInFlight = s.mappingFetchInFlight ∧
      begun.mappingFetchSuppressUntil = s.mappingFetchSuppressUntil := by
  rcases beginStep_cases h with hsubscribes | ⟨_, _, _, _, _, _, _, rfl, hfetcher, -⟩
  · cases hsubscribes with
    | _ => exact ⟨rfl, rfl, rfl⟩
  · exact ⟨hfetcher.resolve_right fun hevent => hevent.elim he, rfl, rfl⟩

/-! ### The mappings are stable -/

/-- The call does not give a publication another mapping than the one that is known. -/
def Agrees (s : Subscriber) : Call → Prop
  | .insertMapping key entry => ∀ known ∈ s.getMapping key, known = entry
  | _ => True

instance (s : Subscriber) (call : Call) : Decidable (Agrees s call) := by
  unfold Agrees
  cases call <;> infer_instance

theorem getMapping_act_agrees {env : SubscribeInputs} {s : Subscriber} {call : Call}
    {key : PublicationKey} {mapping : MappingEntryPair} (hok : Agrees s call)
    (h : s.getMapping key = some mapping) :
    (act cfg env call s).2.getMapping key = some mapping := by
  rw [getMapping_act]
  split
  · rename_i key' entry
    rw [getMapping_insertMapping]
    split
    · rename_i heq
      have hknown : s.getMapping key' = some mapping := by rw [getMapping, heq]; exact h
      rw [hok mapping hknown]
    · exact h
  · exact getMapping_insertUnknownMapping h
  · exact h

/-- A mapping that is known stays what it is in a run that never inserts another one over it. -/
theorem mappings_stable {s s' : Subscriber} {es : List (SubscriberEvent × SubscribeInputs)}
    (hok : Along (step cfg) (CallsAlong cfg Agrees) s es) (hrun : run (step cfg) s es = some s')
    {key : PublicationKey} {mapping : MappingEntryPair} (h : s.getMapping key = some mapping) :
    s'.getMapping key = some mapping := by
  refine run_keeps (P := fun s => s.getMapping key = some mapping)
    (fun s e begun handler hbegin h => ?_)
    (fun e s call hok h => getMapping_act_agrees hok h) h hok hrun
  rw [getMapping, beginStep_mappings hbegin]
  exact h

/-- A node for examples. -/
def sampleSubscriber : SubscriberConfig := { pubSub := sampleConfig }

/-- A node with a validator of fetched packets. -/
def checkingSubscriber : SubscriberConfig :=
  { sampleSubscriber with fetcher := { validator := true } }

/-- The key of the first publication of a node. -/
def sampleKey : PublicationKey := ⟨.ofStrings ["a"], 100, 1⟩

def ownMapping : SubscriberEvent × SubscribeInputs :=
  (.publishMapping (.ofStrings ["a"])
    { bootstrapTime := 100, seqNo := 1, mapping := { name := .ofStrings ["x"] } }, {})

/-- A peer's list that maps the publication to a name. -/
def peerMapping (name : Name) : SubscriberEvent × SubscribeInputs :=
  (.extraBlocks [({ nodeId := .ofStrings ["a"], pairs :=
    [{ bootstrapTime := 100, seqNo := 1, mapping := { name } }] } : MappingList).encode], {})

def subscribeTo (name : Name) : SubscriberEvent × SubscribeInputs := (.subscribe name false, {})

theorem mappings_stable_repeated :
    let s := (run (step sampleSubscriber) (initial sampleSubscriber) [ownMapping]).get
      (by decide +kernel)
    let s' := (run (step sampleSubscriber) s [peerMapping (.ofStrings ["x"])]).get
      (by decide +kernel)
    s.getMapping sampleKey = some { name := .ofStrings ["x"] } ∧
      s'.getMapping sampleKey = some { name := .ofStrings ["x"] } := by
  refine ⟨by decide +kernel, ?_⟩
  exact mappings_stable (by decide +kernel) (Option.some_get _).symm (by decide +kernel)

/-- A peer's list replaces the mapping of a publication that the node made itself. -/
theorem own_mapping_replaced :
    let s := (run (step sampleSubscriber) (initial sampleSubscriber) [ownMapping]).get
      (by decide +kernel)
    let s' := (run (step sampleSubscriber) s [peerMapping (.ofStrings ["y"])]).get
      (by decide +kernel)
    run (step sampleSubscriber) (initial sampleSubscriber) [ownMapping] = some s ∧
      run (step sampleSubscriber) s [peerMapping (.ofStrings ["y"])] = some s' ∧
      s.getMapping sampleKey = some { name := .ofStrings ["x"] } ∧
      s'.getMapping sampleKey = some { name := .ofStrings ["y"] } :=
  ⟨(Option.some_get _).symm, (Option.some_get _).symm, by decide +kernel, by decide +kernel⟩

end Subscriber

end NdnSvs
