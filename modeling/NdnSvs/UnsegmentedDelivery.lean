import NdnSvs.ValidatedDelivery

/-! Publications in one packet.  The subscriptions that wait for such a publication get it, unless
its inner packet names a final block: the subscriptions to whole publications are then passed over,
and segments are fetched under the name of the outer packet without its last two components,
although that packet has no version and no segment number to strip off. -/

namespace NdnSvs

open Lib Lib.Tlv Std

namespace Subscriber

section Unsegmented

variable (cfg : SubscriberConfig) (key : PublicationKey) (firstData innerData : Data)

/-- A fetched packet under the name of its publication, with an inner packet that can be read. -/
structure Unsegmented : Prop where
  name : firstData.name = makeDataName cfg.pubSub key.nodeId key.bootstrapTime key.seqNo
  contentType : firstData.contentType = tlv.data
  content : firstData.innerBlock.bind cfg.pubSub.core.cxx.decodeData = some innerData

/-- The entries of the fetch map for a publication. -/
def waiting (s : Subscriber) : List Subscription := (s.fetchMap[key]?).getD []

/-- The calls of the callbacks with an inner packet. -/
def callsWith (subs : List Subscription) : List Invocation :=
  subs.map fun sub => { callback := sub.callback, publication := key
                        data := packetData innerData.name key innerData }

/-- `onSyncData` goes on with an accepted inner packet from one state to another: at once when there
is no validator, or else at the verdict, after whatever else has happened. -/
inductive ReturnsAccepted : Subscriber → Subscriber → Prop
  | unchecked (env : SubscribeInputs) (s s' : Subscriber)
      (hvalidator : cfg.encapsulatedDataValidator = false)
      (hexec : (onSyncData cfg firstData key).exec (act cfg env) s = some ((), s')) :
      ReturnsAccepted s s'
  | accepted (env env' : SubscribeInputs) (s₀ s₁ s s' : Subscriber)
      (es : List (SubscriberEvent × SubscribeInputs)) (index : Nat)
      (hvalidator : cfg.encapsulatedDataValidator = true)
      (hexec : (onSyncData cfg firstData key).exec (act cfg env) s₀ = some ((), s₁))
      (hrun : run (step cfg) s₁ es = some s)
      (hvalidation : s.validations[index]? = some ⟨innerData, .publication key firstData⟩)
      (hverdict : step cfg s (.verdict index true, env') = some s') :
      ReturnsAccepted s s'

/-- Every entry is called once with the inner packet, and none is left. -/
structure ReachesAll (s s' : Subscriber) : Prop where
  invoked : s'.invoked = s.invoked ++ callsWith key innerData (waiting key s)
  removed : key ∉ s'.fetchMap

variable {cfg key firstData innerData}

theorem invoked_returnData_waiting (s : Subscriber) :
    (s.returnData firstData innerData key).invoked = s.invoked ++ callsWith key innerData
      ((waiting key s).filter fun sub =>
        sub.isPacketSubscription || !innerData.finalBlock.isSome) := by
  unfold returnData waiting
  cases s.fetchMap[key]? with
  | none => exact (List.append_nil _).symm
  | some subs =>
    dsimp only
    rw [invokeAll_eq]
    split
    · rfl
    · rfl

/-- A packet that is wanted by all that wait for it ends the fetch. -/
theorem removed_returnData {s : Subscriber}
    (h : innerData.finalBlock = none ∨ ∀ sub ∈ waiting key s, sub.isPacketSubscription) :
    key ∉ (s.returnData firstData innerData key).fetchMap := by
  unfold returnData
  unfold waiting at h
  split
  · rename_i hnone
    exact fun hmem => by
      rw [ExtTreeMap.mem_iff_isSome_getElem?, hnone] at hmem
      cases hmem
  · rename_i subs hsubs
    rw [hsubs, Option.getD_some] at h
    rw [if_neg]
    · simp [cleanUpFetch]
    · rintro ⟨hblob, hfinal, -⟩
      rcases h with hnone | hall
      · simp [hnone] at hfinal
      · obtain ⟨sub, hsub, hblob⟩ := List.any_eq_true.mp hblob
        simp [hall sub hsub] at hblob

/-- The packet goes to all that wait for it if and only if it has no final block, or they are
subscriptions to packets. -/
theorem filter_eq_waiting {subs : List Subscription} :
    (subs.filter fun sub => sub.isPacketSubscription || !innerData.finalBlock.isSome) = subs ↔
      innerData.finalBlock = none ∨ ∀ sub ∈ subs, sub.isPacketSubscription := by
  rw [List.filter_eq_self]
  cases innerData.finalBlock with
  | none => simp
  | some c => simp

theorem reachesAll_returnData {s t : Subscriber} (hmap : t.fetchMap = s.fetchMap)
    (hinvoked : t.invoked = s.invoked) :
    ReachesAll key innerData s (t.returnData firstData innerData key) ↔
      innerData.finalBlock = none ∨ ∀ sub ∈ waiting key s, sub.isPacketSubscription := by
  have hwaiting : waiting key t = waiting key s := by rw [waiting, waiting, hmap]
  constructor
  · intro h
    have hcalls := h.invoked
    rw [invoked_returnData_waiting, hinvoked, hwaiting] at hcalls
    have hlength := congrArg List.length (List.append_cancel_left hcalls)
    rw [callsWith, callsWith, List.length_map, List.length_map] at hlength
    have hall := List.length_filter_eq_length_iff.mp hlength
    exact filter_eq_waiting.mp (List.filter_eq_self.mpr hall)
  · intro h
    refine ⟨?_, removed_returnData (by rw [hwaiting]; exact h)⟩
    rw [invoked_returnData_waiting, hinvoked, hwaiting, filter_eq_waiting.mpr h]

/-- The handler of a publication in one packet when there is no validator. -/
theorem exec_onSyncData {env : SubscribeInputs} (h : Unsegmented cfg key firstData innerData)
    (hvalidator : cfg.encapsulatedDataValidator = false) (s : Subscriber) :
    (onSyncData cfg firstData key).exec (act cfg env) s = some ((),
      (s.observePublicationFetchSuccess cfg env key).returnData firstData innerData key) := by
  rw [onSyncData, if_neg (not_not.mpr h.contentType), h.content]
  dsimp only
  rw [hvalidator, if_neg (by decide)]
  rfl

/-- The callbacks of all that wait for a publication in one packet are called with its inner packet
if and only if that has no final block, or they are subscriptions to packets. -/
theorem reaches_all_iff (h : Unsegmented cfg key firstData innerData) {s s' : Subscriber}
    (hreturns : ReturnsAccepted cfg key firstData innerData s s') :
    ReachesAll key innerData s s' ↔
      innerData.finalBlock = none ∨ ∀ sub ∈ waiting key s, sub.isPacketSubscription := by
  cases hreturns with
  | unchecked env _ _ hvalidator hexec =>
    rw [exec_onSyncData h hvalidator] at hexec
    obtain ⟨-, rfl⟩ := Prod.mk.inj (Option.some.inj hexec)
    obtain ⟨states, estimates, hobserved⟩ := @observePublicationFetchSuccess_eq cfg env s key
    rw [hobserved]
    exact reachesAll_returnData rfl rfl
  | accepted env env' s₀ s₁ _ _ es index hvalidator hexec hrun hvalidation hverdict =>
    unfold step at hverdict
    split at hverdict
    · simp only [begin, hvalidation, Option.map_some, Option.bind_some, onVerdict,
        if_true] at hverdict
      obtain rfl := Option.some.inj hverdict
      exact reachesAll_returnData rfl rfl
    · cases hverdict

end Unsegmented

/-- An inner packet, with or without a final block, and the outer packet around it. -/
def innerPacket (finalBlock : Option Component) : Data :=
  { name := .ofStrings ["x"], finalBlock, content := [1], signatureValue := some [] }

def outerPacket (finalBlock : Option Component) : Data :=
  { name := makeDataName sampleConfig sampleKey.nodeId sampleKey.bootstrapTime sampleKey.seqNo
    contentType := tlv.data, content := (packetFormat.dataWire (innerPacket finalBlock)).wire }

/-- A subscription waits for a publication. -/
def waitingRun : List (SubscriberEvent × SubscribeInputs) :=
  [subscribeTo (.ofStrings ["x"]), peerMapping (.ofStrings ["x"])]

theorem reaches_all_whole :
    let s := (run (step sampleSubscriber) (initial sampleSubscriber) waitingRun).get
      (by decide +kernel)
    let s' := (s.observePublicationFetchSuccess sampleSubscriber {} sampleKey).returnData
      (outerPacket none) (innerPacket none) sampleKey
    (waiting sampleKey s).length = 1 ∧ ReachesAll sampleKey (innerPacket none) s s' := by
  have h : Unsegmented sampleSubscriber sampleKey (outerPacket none) (innerPacket none) :=
    ⟨rfl, rfl, by decide +kernel⟩
  intro s s'
  have hreturns : ReturnsAccepted sampleSubscriber sampleKey (outerPacket none) (innerPacket none)
      s s' := .unchecked {} s s' rfl (exec_onSyncData h rfl s)
  exact ⟨by decide +kernel, (reaches_all_iff h hreturns).mpr (.inl rfl)⟩

/-- A packet that names itself as its final block: the subscription is not called, and segments are
fetched instead. -/
theorem final_block_passed_over :
    let inner := innerPacket (some (.fromSegment 0))
    let outer := outerPacket (some (.fromSegment 0))
    let s := (run (step sampleSubscriber) (initial sampleSubscriber) waitingRun).get
      (by decide +kernel)
    let s' := (s.observePublicationFetchSuccess sampleSubscriber {} sampleKey).returnData
      outer inner sampleKey
    Unsegmented sampleSubscriber sampleKey outer inner ∧
      ReturnsAccepted sampleSubscriber sampleKey outer inner s s' ∧
      (waiting sampleKey s).length = 1 ∧ s'.invoked = [] ∧ s'.segmentFetches = [sampleKey] ∧
      ¬ReachesAll sampleKey inner s s' := by
  intro inner outer s s'
  have h : Unsegmented sampleSubscriber sampleKey outer inner := ⟨rfl, rfl, by decide +kernel⟩
  refine ⟨h, .unchecked {} s s' rfl (exec_onSyncData h rfl s), by decide +kernel,
    by decide +kernel, by decide +kernel, fun hreaches => ?_⟩
  exact absurd hreaches.invoked (by decide +kernel)

end Subscriber

end NdnSvs
