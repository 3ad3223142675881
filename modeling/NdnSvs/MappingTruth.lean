import NdnSvs.Arrivals
import NdnSvs.SelectiveDelivery

/-! Mappings that are true: they name publications as the publications have been named.  What a node
with true mappings sends and answers is true, and a node that gets nothing else keeps nothing
else. -/

namespace NdnSvs

open Lib Lib.Tlv Std

variable (named : Name → Name → Prop)

/-- The entry has 64-bit numbers and a name that the publication has been given. -/
structure MappingEntry.Truthful (nodeId : NodeID) (entry : MappingEntry) : Prop where
  fits : entry.Fits
  named : named (makeMappingKey nodeId entry.bootstrapTime entry.seqNo) entry.mapping.name

/-- The names in a list are those that the publications have been given. -/
def MappingList.Truthful (list : MappingList) : Prop :=
  ∀ entry ∈ list.pairs,
    named (makeMappingKey list.nodeId entry.bootstrapTime entry.seqNo) entry.mapping.name

/-- What waits to be sent names publications as they have been. -/
structure ExtraData.Truthful (e : ExtraData) : Prop where
  notification : ∀ entry ∈ e.notificationMappingList.pairs,
    entry.Truthful named e.notificationMappingList.nodeId
  nodeless : e.notificationMappingList.nodeId = [] → e.notificationMappingList.pairs = []
  queued : ∀ entry ∈ e.piggyMappingQueue, entry.item.2.Truthful named entry.item.1

variable {named}

namespace ExtraData

theorem Truthful.of_same {e e' : ExtraData} (h : e.Truthful named)
    (hnotification : e'.notificationMappingList = e.notificationMappingList)
    (hqueue : e'.piggyMappingQueue = e.piggyMappingQueue) : e'.Truthful named :=
  ⟨hnotification ▸ h.notification, hnotification ▸ h.nodeless, hqueue ▸ h.queued⟩

theorem Truthful.empty : ({} : ExtraData).Truthful named where
  notification := fun _ h => absurd h List.not_mem_nil
  nodeless := fun _ => rfl
  queued := fun _ h => absurd h List.not_mem_nil

theorem Truthful.repeatMapping {e : ExtraData} (h : e.Truthful named) {nodeId : NodeID}
    {entry : MappingEntry} (hentry : entry.Truthful named nodeId) :
    ({ e with piggyMappingQueue :=
        e.piggyMappingQueue ++ [{ item := (nodeId, entry) }] } : ExtraData).Truthful named where
  notification := h.notification
  nodeless := h.nodeless
  queued := fun queued hqueued => by
    rcases List.mem_append.mp hqueued with hqueued | hqueued
    · exact h.queued queued hqueued
    · obtain rfl := List.mem_singleton.mp hqueued
      exact hentry

/-- The notification goes on with the mappings of one node. -/
theorem Truthful.pushMapping {e : ExtraData} (h : e.Truthful named) {nodeId : NodeID}
    (hnode : nodeId ≠ []) {entry : MappingEntry} (hentry : entry.Truthful named nodeId) :
    (e.pushMapping nodeId entry).Truthful named := by
  have hrepeated := h.repeatMapping hentry
  refine ⟨?_, ?_, hrepeated.queued⟩
  · intro entry' hentry'
    unfold ExtraData.pushMapping at hentry' ⊢
    dsimp only at hentry' ⊢
    split at hentry'
    · rename_i hsame
      rw [if_pos hsame]
      rcases List.mem_append.mp hentry' with hold | hnew
      · rcases hsame with hnone | hsame
        · rw [h.nodeless hnone] at hold
          exact absurd hold List.not_mem_nil
        · exact hsame ▸ h.notification entry' hold
      · obtain rfl := List.mem_singleton.mp hnew
        exact hentry
    · rename_i hother
      rw [if_neg hother]
      exact h.notification entry' hentry'
  · intro hnone
    unfold ExtraData.pushMapping at hnone ⊢
    dsimp only at hnone ⊢
    split at hnone
    · exact absurd hnone hnode
    · rename_i hother
      rw [if_neg hother]
      exact h.nodeless hnone

theorem Truthful.onGetExtraData {e : ExtraData} (h : e.Truthful named) (cxx : NdnCxx)
    (opts : ExtraDataOptions) : (ExtraData.onGetExtraData cxx opts e).2.Truthful named where
  notification := fun _ hentry => absurd hentry List.not_mem_nil
  nodeless := fun _ => rfl
  queued := fun entry hentry => by
    obtain ⟨hsublist, -, -⟩ := onGetExtraData_retained cxx opts e
    obtain ⟨old, hold, heq⟩ := List.mem_map.mp (hsublist.subset (List.mem_map_of_mem hentry))
    exact heq ▸ h.queued old hold

/-! ### What is sent -/

variable {cxx : NdnCxx} {opts : ExtraDataOptions} {e : ExtraData}

/-- A part of the composite that the requests for repairs have left has none of them. -/
theorem splitElement_foldlM {bs : List Block} {mappings mappings' : List Block}
    {repairs repairs' : List MissingDataInfo}
    (h : bs.foldlM splitElement (mappings, repairs) = .ok (mappings', repairs')) :
    mappings' = mappings ++ bs.filter fun b => b.type ≠ tlv.repairData := by
  induction bs generalizing mappings repairs with
  | nil =>
    obtain ⟨rfl, -⟩ := Prod.mk.inj (Except.ok.inj h)
    exact (List.append_nil _).symm
  | cons b bs ih =>
    rw [List.foldlM_cons] at h
    obtain ⟨⟨mappings₁, repairs₁⟩, hstep, h⟩ := bind_eq_ok.mp h
    rw [ih h]
    unfold splitElement at hstep
    dsimp only at hstep
    split at hstep
    · rename_i htype
      obtain ⟨_, -, hstep⟩ := bind_eq_ok.mp hstep
      obtain ⟨rfl, -⟩ := Prod.mk.inj (Except.ok.inj hstep)
      rw [List.filter_cons_of_neg (by simpa using htype)]
    · rename_i htype
      obtain ⟨rfl, -⟩ := Prod.mk.inj (Except.ok.inj hstep)
      rw [List.filter_cons_of_pos (by simpa using htype), List.append_assoc]
      rfl

/-- The blocks that are sent: one of the mappings and packets, and perhaps one of repair
requests. -/
theorem onGetExtraBlocks_blocks {blocks : List Block}
    (h : (onGetExtraBlocks cxx opts e).1 = .ok blocks) :
    ∀ block ∈ blocks, block = .ofElements tlv.mappingData (mappingElements cxx opts e) ∨
      ∃ repairs, block = encodeRepairRequests repairs := by
  obtain ⟨⟨mappings, repairs⟩, hsplit, h⟩ := bind_eq_ok.mp h
  obtain rfl := Except.ok.inj h
  have hmappings : mappings = mappingElements cxx opts e := by
    have hall : ∀ infos : List MissingDataInfo,
        (infos.map repairWire).filter (fun b => b.type ≠ tlv.repairData) = [] := by
      intro infos
      refine List.filter_eq_nil_iff.mpr fun b hb => ?_
      obtain ⟨info, -, rfl⟩ := List.mem_map.mp hb
      simp [repairWire, encodeRepairRequests]
    rw [splitElement_foldlM hsplit, compositeElements_eq, List.filter_append, hall,
      List.append_nil, List.nil_append]
    exact List.filter_eq_self.mpr fun b hb => by simpa using mappingElements_type hb
  intro block hblock
  rcases List.mem_cons.mp hblock with rfl | hblock
  · exact .inl (by rw [hmappings])
  · split at hblock
    · exact absurd hblock List.not_mem_nil
    · exact .inr ⟨repairs, List.mem_singleton.mp hblock⟩

/-- An entry is received with the name that it was sent with. -/
theorem received_truthful {nodeId : NodeID} {entry : MappingEntry}
    (h : entry.Truthful named nodeId) :
    named (makeMappingKey nodeId entry.received.bootstrapTime entry.received.seqNo)
      entry.received.mapping.name := h.named

theorem decode_mappingElements (h : e.Truthful named)
    (hfits : (Block.ofElements tlv.mappingData (mappingElements cxx opts e)).Fits) :
    MappingList.decode (.ofElements tlv.mappingData (mappingElements cxx opts e)) =
      .ok { includedMappings opts e.notificationMappingList with
        pairs := (includedMappings opts e.notificationMappingList).pairs.reverse.map
          MappingEntry.received } := by
  refine MappingList.decode_ofElements (fun entry hentry =>
    (h.notification entry (includedMappings_subset _ _ hentry)).fits) ?_ hfits
  intro b hb
  simp only [List.mem_append, List.mem_map] at hb
  rcases hb with ⟨mapping, -, rfl⟩ | ⟨data, -, rfl⟩
  · exact (by decide : tlv.mappingData ≠ tlv.name ∧ tlv.mappingData ≠ tlv.mappingEntry)
  · rw [cxx.dataWire_type]
    decide

/-- What is read in the block of mappings are true names. -/
theorem mappingElements_truthful (h : e.Truthful named)
    (hfits : (Block.ofElements tlv.mappingData (mappingElements cxx opts e)).Fits) :
    ∀ list ∈ mappingListsOf (.ofElements tlv.mappingData (mappingElements cxx opts e)),
      list.Truthful named := by
  intro list hlist
  obtain ⟨block, hblock, hread⟩ := List.mem_filterMap.mp hlist
  rcases List.mem_cons.mp hblock with rfl | hblock
  · rw [MappingList.read, decode_mappingElements h hfits] at hread
    obtain rfl := Option.some.inj hread
    intro entry hentry
    obtain ⟨sent, hsent, rfl⟩ := List.mem_map.mp hentry
    have hmem := includedMappings_subset _ _ (List.mem_reverse.mp hsent)
    have hnode := @includedMappings_nodeId opts e.notificationMappingList
    exact hnode.symm ▸ received_truthful (h.notification sent hmem)
  · rw [childrenOf, hfits.parse, Option.getD_some, filter_mappingData] at hblock
    obtain ⟨mapping, hmapping, rfl⟩ := List.mem_map.mp hblock
    have hwire : (mappingWire mapping).Fits := by
      refine Block.length_lt_of_ofElements ?_ hfits
      exact List.mem_append_right _ (List.mem_append_left _ (List.mem_map_of_mem hmapping))
    obtain ⟨queued, hqueued, rfl⟩ := mem_of_selected hmapping
    have hentry := h.queued queued hqueued
    have hfits : ∀ entry ∈ [queued.item.2], entry.Fits :=
      fun entry hentry' => List.mem_singleton.mp hentry' ▸ hentry.fits
    have hdecode := @MappingList.decode_encode ⟨queued.item.1, [queued.item.2]⟩ hfits hwire
    rw [MappingList.read, mappingWire, hdecode] at hread
    obtain rfl := Option.some.inj hread
    intro entry hentry'
    obtain rfl := List.mem_singleton.mp hentry'
    exact received_truthful hentry

/-- No mapping is read in a block of repair requests. -/
theorem repairs_truthful {repairs : List MissingDataInfo}
    (hfits : (encodeRepairRequests repairs).Fits) :
    ∀ list ∈ mappingListsOf (encodeRepairRequests repairs), list.Truthful named := by
  have hparse : (encodeRepairRequests repairs).parse = some _ := Block.Fits.parse hfits
  have hentry : ∀ child ∈ childrenOf (encodeRepairRequests repairs),
      child.type = tlv.repairEntry := by
    intro child hchild
    rw [childrenOf, hparse, Option.getD_some] at hchild
    obtain ⟨info, -, rfl⟩ := List.mem_map.mp hchild
    rfl
  intro list hlist
  obtain ⟨block, hblock, hread⟩ := List.mem_filterMap.mp hlist
  rcases List.mem_cons.mp hblock with rfl | hblock
  · have hothers := foldlM_decodeElement_others
      (fun child hchild => by rw [hentry child hchild]; decide) {}
    rw [childrenOf, hparse, Option.getD_some] at hothers
    rw [MappingList.read, MappingList.decode, hparse, orMalformed_some, ok_bind, hothers] at hread
    obtain rfl := Option.some.inj hread
    exact fun entry hentry => absurd hentry List.not_mem_nil
  · obtain ⟨hchild, htype⟩ := List.mem_filter.mp hblock
    have htype := of_decide_eq_true htype
    rw [hentry block hchild] at htype
    exact absurd htype (by decide)

theorem Truthful.sent (h : e.Truthful named) {blocks : List Block}
    (hblocks : (onGetExtraBlocks cxx opts e).1 = .ok blocks)
    (hfits : ∀ block ∈ blocks, block.Fits) :
    ∀ block ∈ blocks, ∀ list ∈ mappingListsOf block, list.Truthful named := by
  intro block hblock
  rcases onGetExtraBlocks_blocks hblocks block hblock with rfl | ⟨repairs, rfl⟩
  · exact mappingElements_truthful h (hfits _ hblock)
  · exact repairs_truthful (hfits _ hblock)

end ExtraData

/-- What a reply says of a node's publications is true. -/
def TruthfulReply (named : Name → Name → Prop) (nodeId : NodeID) (data : Data) : Prop :=
  ∀ list ∈ Subscriber.replyOf data, ∀ entry ∈ list.pairs,
    named (makeMappingKey nodeId entry.bootstrapTime entry.seqNo) entry.mapping.name

/-- What satisfies a request, and what waits for the validator, has come for the request. -/
theorem Fetcher.step_brings {α : Type} {opts : FetcherOptions} {P : α → Data → Prop}
    {f f' : Fetcher α} {e : FetcherEvent} {outcome : Option (FetchOutcome α)}
    (h : f.step opts e = some (f', outcome)) (hvalidating : ∀ v ∈ f.validating, P v.1.request v.2)
    (hdata : ∀ index data, e = .data index data → ∀ qi, f.pendingInterests[index]? = some qi →
      P qi.request data) :
    (∀ request data, outcome = some (.satisfied request data) → P request data) ∧
      ∀ v ∈ f'.validating, P v.1.request v.2 := by
  cases e with
  | data index data =>
    obtain ⟨qi, hqi, h⟩ := Option.map_eq_some_iff.mp h
    have hbrought := hdata index data rfl qi hqi
    unfold onData at h
    dsimp only at h
    split at h
    · obtain ⟨rfl, rfl⟩ := Prod.mk.inj h
      refine ⟨fun _ _ houtcome => (nomatch houtcome), fun v hv => ?_⟩
      rcases List.mem_append.mp hv with hv | hv
      · exact hvalidating v hv
      · obtain rfl := List.mem_singleton.mp hv
        exact hbrought
    · obtain ⟨rfl, rfl⟩ := Prod.mk.inj h
      refine ⟨fun request data' houtcome => ?_, hvalidating⟩
      obtain ⟨rfl, rfl⟩ := FetchOutcome.satisfied.inj (Option.some.inj houtcome)
      exact hbrought
  | nack index =>
    obtain ⟨qi, -, h⟩ := Option.map_eq_some_iff.mp h
    obtain ⟨rfl, rfl⟩ := Prod.mk.inj h
    exact ⟨fun _ _ houtcome => (nomatch houtcome), hvalidating⟩
  | timeout index =>
    obtain ⟨qi, -, h⟩ := Option.map_eq_some_iff.mp h
    unfold onTimeout at h
    split at h
    · obtain ⟨rfl, rfl⟩ := Prod.mk.inj h
      exact ⟨fun _ _ houtcome => (nomatch houtcome), hvalidating⟩
    · obtain ⟨rfl, rfl⟩ := Prod.mk.inj h
      exact ⟨fun _ _ houtcome => (nomatch houtcome), hvalidating⟩
  | verdict index accepted =>
    obtain ⟨⟨qi, data⟩, hqi, h⟩ := Option.map_eq_some_iff.mp h
    have hrest : ∀ v ∈ f.validating.eraseIdx index, P v.1.request v.2 :=
      fun v hv => hvalidating v (List.mem_of_mem_eraseIdx hv)
    dsimp only at h
    split at h
    · obtain ⟨rfl, rfl⟩ := Prod.mk.inj h
      refine ⟨fun request data' houtcome => ?_, hrest⟩
      obtain ⟨rfl, rfl⟩ := FetchOutcome.satisfied.inj (Option.some.inj houtcome)
      exact hvalidating _ (List.mem_of_getElem? hqi)
    · unfold onValidationFailed at h
      split at h
      · obtain ⟨rfl, rfl⟩ := Prod.mk.inj h
        exact ⟨fun _ _ houtcome => (nomatch houtcome), hrest⟩
      · obtain ⟨rfl, rfl⟩ := Prod.mk.inj h
        exact ⟨fun _ _ houtcome => (nomatch houtcome), hrest⟩
  | validationRetry index =>
    obtain ⟨qi, -, h⟩ := Option.map_eq_some_iff.mp h
    obtain ⟨rfl, rfl⟩ := Prod.mk.inj h
    exact ⟨fun _ _ houtcome => (nomatch houtcome), hvalidating⟩

namespace Subscriber

/-- The event brings the node nothing that is not true. -/
def Hears (named : Name → Name → Prop) (s : Subscriber) : SubscriberEvent → Prop
  | .publishMapping nodeId entry => nodeId ≠ [] ∧ entry.Truthful named nodeId
  | .extraBlocks blocks => ∀ block ∈ blocks, ∀ list ∈ mappingListsOf block, list.Truthful named
  | .mappingFetcher (.data index data) =>
    ∀ qi, s.mappingFetcher.pendingInterests[index]? = some qi →
      TruthfulReply named qi.request.query.nodeId data
  | _ => True

/-- The stored mappings are true. -/
def Mapped (named : Name → Name → Prop) (s : Subscriber) : Prop :=
  ∀ key mapping, s.getMapping key = some mapping → named key.mappingKey mapping.name

/-- The call keeps to true mappings. -/
def Call.Keeps (named : Name → Name → Prop) : Call → Prop
  | .insertMapping key entry | .insertUnknownMapping key entry => named key.mappingKey entry.name
  | .enqueueRepairPublication key => key.Fits
  | _ => True

/-- The queues, and the replies that the validator has, are true. -/
structure Truthful (named : Name → Name → Prop) (s : Subscriber) : Prop where
  extra : s.extra.Truthful named
  validating : ∀ v ∈ s.mappingFetcher.validating,
    TruthfulReply named v.1.request.query.nodeId v.2

theorem keeps_plain (named : Name → Name → Prop) (call : Call) (h : ¬call.Takes) :
    call.Keeps named := by
  cases call with
  | insertMapping key entry => exact absurd trivial h
  | insertUnknownMapping key entry => exact absurd trivial h
  | enqueueRepairPublication key => exact absurd trivial h
  | _ => trivial

theorem Call.Keeps.names {call : Call} (h : call.Keeps named) : Names named call := by
  cases call with
  | insertMapping key entry => exact h
  | insertUnknownMapping key entry => exact h
  | _ => trivial

variable {cfg : SubscriberConfig} {env : SubscribeInputs} {s t : Subscriber}
  {es : List (SubscriberEvent × SubscribeInputs)}

/-- A publication is offered again under the name that is stored for it. -/
theorem Truthful.enqueueRepairPublication (h : s.extra.Truthful named) (hmapped : Mapped named s)
    {key : PublicationKey} (hfits : key.Fits) :
    (s.enqueueRepairPublication cfg env key).extra.Truthful named := by
  unfold Subscriber.enqueueRepairPublication
  split
  · exact h
  · rename_i mapping hmapping
    let entry : MappingEntry :=
      { bootstrapTime := key.bootstrapTime, seqNo := key.seqNo, mapping }
    have hentry : entry.Truthful named key.nodeId :=
      ⟨⟨hfits.bootstrapTime, hfits.seqNo⟩, hmapped key mapping hmapping⟩
    have hrepeated := h.repeatMapping hentry
    dsimp only
    split
    · exact hrepeated
    · exact hrepeated.of_same rfl rfl

theorem Truthful.failed (h : s.extra.Truthful named) (key : PublicationKey) :
    (s.markPublicationFetchFailed cfg env key).extra.Truthful named := by
  have hremembered : (s.rememberRepairRequest key).extra.Truthful named := by
    unfold rememberRepairRequest
    dsimp only
    split
    · exact h
    · exact h.of_same rfl rfl
  unfold markPublicationFetchFailed
  split
  · split
    · exact h
    · exact hremembered
  · exact h

theorem Edit.truthful {call : Call} {s₀ : Subscriber} (hedit : Edit cfg env call s₀ s t)
    (hkeeps : call.Keeps named) (hmapped : Mapped named s) (h : s.extra.Truthful named) :
    t.extra.Truthful named := by
  cases hedit with
  | repaired key hcall =>
    subst hcall
    exact Truthful.enqueueRepairPublication h hmapped hkeeps
  | failed key => exact Truthful.failed h key
  | observed key =>
    obtain ⟨_, _, heq⟩ := @observePublicationFetchSuccess_eq cfg env s key
    exact heq ▸ h
  | delivered key subs _ _ data wanted =>
    rw [invokeAll_eq]
    exact h
  | divided key subs =>
    rw [invokeAll_eq]
    exact h
  | _ => exact h

theorem Edit.mappings {call : Call} {s₀ : Subscriber} (hedit : Edit cfg env call s₀ s t) :
    t.mappings = s.mappings := by
  cases hedit with
  | repaired key =>
    obtain ⟨_, heq⟩ := @enqueueRepairPublication_eq cfg env s key
    rw [heq]
  | failed key =>
    obtain ⟨_, _, _, _, _, heq⟩ := @markPublicationFetchFailed_eq cfg env s key
    rw [heq]
  | observed key =>
    obtain ⟨_, _, heq⟩ := @observePublicationFetchSuccess_eq cfg env s key
    rw [heq]
  | delivered key subs _ _ data wanted =>
    rw [invokeAll_eq]
    rfl
  | divided key subs => rw [invokeAll_eq]
  | _ => rfl

theorem validating_act (call : Call) :
    (act cfg env call s).2.mappingFetcher.validating = s.mappingFetcher.validating := by
  by_cases hmapping : call.IsMapping
  · cases call with
    | scheduleMappingFetch requested streamName =>
      unfold act scheduleMappingFetch
      dsimp only
      split
      · rfl
      · split
        · rfl
        · rfl
    | insertUnknownMapping key entry =>
      unfold act insertUnknownMapping
      dsimp only
      split
      · rfl
      · rfl
    | markMappingFetchComplete key => rfl
    | markMappingFetchFailed key => rfl
    | insertMapping key entry => rfl
    | _ => exact hmapping.elim
  · rw [(frame_act cfg env s call hmapping).mappingFetcher]

theorem Truthful.act (h : s.Truthful named)
    (hmapped : Mapped named s) {call : Call} (hkeeps : call.Keeps named) :
    (Subscriber.act cfg env call s).2.Truthful named := by
  have hvalidating := h.validating
  rw [← @validating_act cfg env s call] at hvalidating
  refine ⟨?_, hvalidating⟩
  by_cases hmapping : call.IsMapping
  · obtain ⟨_, _, _, _, heq⟩ := mapping_act cfg env s hmapping
    rw [heq]
    exact h.extra
  · have hrun : ∀ t, Edits cfg env call s s t →
        t.extra.Truthful named ∧ t.mappings = s.mappings := by
      intro t hedits
      induction hedits with
      | refl => exact ⟨h.extra, rfl⟩
      | tail _ hedit ih =>
        refine ⟨hedit.truthful hkeeps (fun key mapping hget => hmapped key mapping ?_) ih.1,
          hedit.mappings.trans ih.2⟩
        rw [getMapping, ← ih.2]
        exact hget
    exact (hrun _ (edits_act hmapping s)).1

/-- A handler puts nothing into the store or the queues that is not true. -/
theorem truthful_beginStep {e : SubscriberEvent × SubscribeInputs} {handler : Handler Unit}
    (hhears : Hears named s e.1) (h : s.Truthful named)
    (hbegin : beginStep cfg s e = some (t, handler)) :
    Program.Makes (Call.Keeps named) handler ∧ t.Truthful named := by
  obtain ⟨event, env⟩ := e
  have hplain := keeps_plain named
  have hextra : ∀ extra : ExtraData, extra.Truthful named →
      ({ s with steadyNow := env.steadyNow, extra } : Subscriber).Truthful named :=
    fun extra hextra => ⟨hextra, h.validating⟩
  cases event with
  | publishMapping nodeId entry =>
    obtain ⟨rfl, rfl⟩ := Prod.mk.inj (Option.some.inj hbegin)
    obtain ⟨hnode, hentry⟩ := hhears
    exact ⟨Program.makes_perform hentry.named, hextra _ (h.extra.pushMapping hnode hentry)⟩
  | publishData data =>
    obtain ⟨rfl, rfl⟩ := Prod.mk.inj (Option.some.inj hbegin)
    exact ⟨Program.makes_ret (), hextra _ (h.extra.of_same rfl rfl)⟩
  | update info =>
    obtain ⟨rfl, rfl⟩ := Prod.mk.inj (Option.some.inj hbegin)
    exact ⟨update_plain hplain cfg _ info, hextra _ h.extra⟩
  | extraBlocks blocks =>
    obtain ⟨rfl, rfl⟩ := Prod.mk.inj (Option.some.inj hbegin)
    exact ⟨onRecvExtraBlocks_takes hplain (fun _ => id) fun block hblock =>
      ⟨hhears block hblock, fun _ _ => ⟨trivial, trivial⟩⟩, hextra _ h.extra⟩
  | getExtraBlocks =>
    obtain ⟨rfl, rfl⟩ := Prod.mk.inj (Option.some.inj hbegin)
    exact ⟨Program.makes_ret (), hextra _ (h.extra.onGetExtraData _ _)⟩
  | dataFetcher event =>
    obtain ⟨_, -, hbegin⟩ := Option.map_eq_some_iff.mp hbegin
    obtain ⟨rfl, rfl⟩ := Prod.mk.inj hbegin
    exact ⟨onDataOutcome_takes hplain cfg fun _ _ _ _ _ _ => ⟨trivial, trivial⟩, h.extra,
      h.validating⟩
  | mappingFetcher event =>
    obtain ⟨⟨fetcher, outcome⟩, hstep, hbegin⟩ := Option.map_eq_some_iff.mp hbegin
    obtain ⟨rfl, rfl⟩ := Prod.mk.inj hbegin
    obtain ⟨hsatisfied, hvalidating⟩ := Fetcher.step_brings
      (P := fun request data => TruthfulReply named request.query.nodeId data) hstep h.validating
      fun index data hevent => by subst hevent; exact hhears
    refine ⟨onMappingOutcome_takes hplain cfg fun request data houtcome => ?_,
      h.extra, hvalidating⟩
    exact hsatisfied request data houtcome
  | fetchTimer index =>
    obtain ⟨due, -, hbegin⟩ := Option.bind_eq_some_iff.mp hbegin
    split at hbegin
    · obtain ⟨rfl, rfl⟩ := Prod.mk.inj (Option.some.inj hbegin)
      exact ⟨fetchAll_plain hplain cfg, h.extra, h.validating⟩
    · cases hbegin
  | verdict index accepted =>
    obtain ⟨_, -, hbegin⟩ := Option.map_eq_some_iff.mp hbegin
    obtain ⟨rfl, rfl⟩ := Prod.mk.inj hbegin
    exact ⟨onVerdict_takes hplain accepted fun _ _ _ => trivial, h.extra, h.validating⟩
  | segments index content =>
    obtain ⟨_, -, hbegin⟩ := Option.map_eq_some_iff.mp hbegin
    obtain ⟨rfl, rfl⟩ := Prod.mk.inj hbegin
    exact ⟨onSegments_takes hplain cfg (fun _ _ => trivial) fun _ _ _ _ _ _ => trivial, h.extra,
      h.validating⟩
  | _ =>
    obtain ⟨rfl, rfl⟩ := Prod.mk.inj (Option.some.inj hbegin)
    exact ⟨Program.makes_ret (), h.extra, h.validating⟩

/-- A node that hears nothing but true mappings has no others, and calls callbacks for what they
asked for. -/
theorem truthful_step (hattends : Attends cfg named es s) (h : s.Truthful named)
    {e : SubscriberEvent × SubscribeInputs} (hhears : Hears named s e.1)
    (hstep : step cfg s e = some t) : Attends cfg named (es ++ [e]) t ∧ t.Truthful named := by
  obtain ⟨-, begun, handler, hbegin, hexec⟩ := step_eq_some hstep
  obtain ⟨hmakes, hbegun⟩ := truthful_beginStep hhears h hbegin
  have hkeeps : handler.Along (Subscriber.act cfg e.2) (fun _ => Call.Keeps named) begun :=
    hmakes.along (fun _ _ hcall => hcall) begun
  have hnames : CallsAlong cfg (fun _ => Names named) s e := by
    rw [CallsAlong, hbegin]
    exact hmakes.along (fun _ _ hcall => hcall.names) begun
  have hlistens := hattends.listens.begun hbegin
  have hcall : ∀ (s : Subscriber) (call : Call), call.Keeps named →
      Listens named (es ++ [e]) s ∧ s.Truthful named →
      Listens named (es ++ [e]) (Subscriber.act cfg e.2 call s).2 ∧
        (Subscriber.act cfg e.2 call s).2.Truthful named :=
    fun s call hcall h => ⟨h.1.act hcall.names, h.2.act h.1.mapped hcall⟩
  refine ⟨attends_step hattends hnames hstep, ?_⟩
  exact (Program.exec_invariant hcall ⟨hlistens, hbegun⟩ hkeeps hexec).2

end Subscriber

end NdnSvs
