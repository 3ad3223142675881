import NdnSvs.Collections
import NdnSvs.Coverage

/-! The calls that take in what has come from outside, mappings and packets.  Only events that bring
something make them: extension blocks, Data, segments and verdicts, and the node's own publications.
What a call takes in is what was read in them. -/

namespace NdnSvs

open Lib Lib.Tlv Std

namespace Subscriber

open Program (Makes Yields)

/-- The call takes in a mapping or a packet. -/
def Call.Takes : Call → Prop
  | .insertMapping _ _ | .insertUnknownMapping _ _ | .enqueueRepairPublication _
  | .satisfyPendingFetch _ | .cachePiggyData _ | .validate _ _ | .returnData _ _ _
  | .startValidation _ _ _ => True
  | _ => False

/-- The packets in a block. -/
def packetsOf (cxx : NdnCxx) (block : Block) : List Data :=
  ((childrenOf block).filter fun child => child.type = tlv.data).filterMap cxx.decodeData

section Calls

variable {Q : Call → Prop} (hQ : ∀ call : Call, ¬call.Takes → Q call) (cfg : SubscriberConfig)

include hQ

theorem makes_plain (call : Call) (h : ¬call.Takes) : Makes Q (perform call) :=
  Program.makes_perform (hQ call h)

theorem fetchAll_plain : Makes Q (fetchAll cfg) :=
  (makes_plain hQ _ id).bind fun _ =>
    closed_fetchReady (Program.closed_yields Q) (fun _ _ _ => makes_plain hQ _ id) _ _

theorem updateProducer_plain (stream : MissingDataInfo) (sub : Subscription) :
    Makes Q (updateProducer stream sub) := by
  unfold updateProducer
  split
  · refine (makes_forSeqNos fun seq _ => makes_plain hQ _ id).bind fun _ => ?_
    split
    · exact makes_plain hQ _ id
    · exact Program.makes_ret ()
  · exact Program.makes_ret ()

theorem update_plain (s : Subscriber) (info : List MissingDataInfo) :
    Makes Q (updateCallbackInternal cfg s info) := by
  have hclosed := @Program.closed_yields Call Call.Reply Q
  refine Makes.bind (hclosed.forEach fun stream _ => ?_) fun _ => fetchAll_plain hQ cfg
  refine Makes.bind (hclosed.forEach fun sub _ => updateProducer_plain hQ stream sub) fun _ => ?_
  split
  · exact Makes.bind (closed_processKnown hclosed (fun _ _ => makes_plain hQ _ id) _ _)
      fun low => closed_queryRanges hclosed (fun _ _ => makes_plain hQ _ id) stream _ _
  · exact Program.makes_ret ()

/-! ### Fetched packets -/

theorem onDataOutcome_takes {outcome : Option (FetchOutcome DataRequest)}
    (h : ∀ key lifetime data, outcome = some (.satisfied (.publication key lifetime) data) →
      ∀ inner, data.innerBlock.bind cfg.pubSub.core.cxx.decodeData = some inner →
        Q (.validate inner (.publication key data)) ∧ Q (.returnData data inner key)) :
    Makes Q (onDataOutcome cfg outcome) := by
  unfold onDataOutcome
  split
  · unfold onSyncData
    split
    · exact makes_plain hQ _ id
    · refine (makes_plain hQ _ id).bind fun _ => ?_
      split
      · exact makes_plain hQ _ id
      · rename_i inner hinner
        obtain ⟨hvalidate, hreturn⟩ := h _ _ _ rfl inner hinner
        split
        · exact Program.makes_perform hvalidate
        · exact Program.makes_perform hreturn
  · exact makes_plain hQ _ id
  · exact makes_plain hQ _ id
  · exact Program.makes_ret ()

section Segments

variable (hsegment : ∀ (packet : Data) (index : Nat), Q (.validate packet (.segment index)))
include hsegment

theorem validateSegments_takes (publication : PublicationKey) (index : Nat)
    (blocks : List Block) : Makes Q (validateSegments cfg publication index blocks) := by
  induction blocks with
  | nil => exact Program.makes_ret ()
  | cons block blocks ih =>
    unfold validateSegments
    split
    · exact makes_plain hQ _ id
    · have hvalidate (packet : Data) : Makes Q (validateSegment cfg index packet) := by
        unfold validateSegment
        split
        · exact Program.makes_perform (hsegment packet index)
        · exact makes_plain hQ _ id
      exact (hvalidate _).bind fun _ => ih

theorem onSegments_takes {publication : PublicationKey} {content : Option Bytes}
    (h : ∀ bytes blocks assembly, content = some bytes →
      (⟨tlv.data, bytes⟩ : Block).parse = some blocks →
      decodeInnerSegments cfg.pubSub.core.cxx blocks = some assembly →
        Q (.startValidation publication assembly blocks.length)) :
    Makes Q (onSegments cfg publication content) := by
  unfold onSegments
  split
  · exact makes_plain hQ _ id
  · rename_i blocks hblocks
    obtain ⟨bytes, hbytes, hparse⟩ := Option.bind_eq_some_iff.mp hblocks
    split
    · exact makes_plain hQ _ id
    · rename_i assembly hassembly
      have hstart := h bytes blocks assembly hbytes hparse hassembly
      exact Makes.bind (Program.makes_perform hstart) fun index =>
        validateSegments_takes hQ cfg hsegment publication index _

end Segments

theorem onVerdict_takes {validation : Validation} (accepted : Bool)
    (h : ∀ key firstData, validation.target = .publication key firstData →
      Q (.returnData firstData validation.packet key)) :
    Makes Q (onVerdict validation accepted) := by
  unfold onVerdict
  split
  · rename_i key firstData htarget
    split
    · exact Program.makes_perform (h key firstData htarget)
    · exact makes_plain hQ _ id
  · exact makes_plain hQ _ id

/-! ### Replies to mapping queries -/

/-- What a reply puts into the store is what its list has, under the node that was queried. -/
theorem onMappingData_takes {request : MappingRequest} {data : Data}
    (h : ∀ list ∈ replyOf data, ∀ entry ∈ list.pairs, Q (.insertUnknownMapping
      ⟨request.query.nodeId, entry.bootstrapTime, entry.seqNo⟩ entry.mapping)) :
    Makes Q (onMappingData cfg request data) := by
  have hclosed := @Program.closed_yields Call Call.Reply Q
  unfold onMappingData
  split
  · exact Program.makes_ret ()
  · rename_i block hblock
    split
    · exact Program.makes_ret ()
    · rename_i list hlist
      have hread : list ∈ replyOf data := by
        rw [replyOf, hblock, Option.bind_some, MappingList.read, hlist]
        rfl
      refine Makes.bind (hclosed.forEach fun entry hentry =>
        Program.makes_perform (h list hread entry hentry)) fun _ => ?_
      refine (makes_plain hQ (.markMappingFetchComplete _) id).bind fun _ => ?_
      exact closed_onFetchedNameMappings hclosed (fun _ _ => makes_plain hQ _ id)
        (fun _ _ => makes_plain hQ _ id) cfg (fetchAll_plain hQ cfg) _ _
        (MappingList.decode_fits hlist)

theorem onMappingOutcome_takes {outcome : Option (FetchOutcome MappingRequest)}
    (h : ∀ request data, outcome = some (.satisfied request data) →
      ∀ list ∈ replyOf data, ∀ entry ∈ list.pairs, Q (.insertUnknownMapping
        ⟨request.query.nodeId, entry.bootstrapTime, entry.seqNo⟩ entry.mapping)) :
    Makes Q (onMappingOutcome cfg outcome) := by
  unfold onMappingOutcome
  split
  · exact onMappingData_takes hQ cfg (h _ _ rfl)
  · exact makes_plain hQ _ id
  · exact makes_plain hQ _ id
  · exact Program.makes_ret ()

/-! ### Extension blocks -/

variable {cfg} (hrepair : ∀ key : PublicationKey, key.Fits → Q (.enqueueRepairPublication key))

/-- A packet that comes along may be handed out and kept. -/
def PacketTaken (Q : Call → Prop) (data : Data) : Prop :=
  Q (.satisfyPendingFetch data) ∧ Q (.cachePiggyData data)

/-- The mappings of a list may be stored. -/
def ListTaken (Q : Call → Prop) (list : MappingList) : Prop :=
  ∀ entry ∈ list.pairs,
    Q (.insertMapping ⟨list.nodeId, entry.bootstrapTime, entry.seqNo⟩ entry.mapping)

/-- What a block brings may be taken in. -/
structure BlockTaken (Q : Call → Prop) (cxx : NdnCxx) (block : Block) : Prop where
  lists : ∀ list ∈ mappingListsOf block, ListTaken Q list
  packets : ∀ data ∈ packetsOf cxx block, PacketTaken Q data

omit hQ in
theorem insertMappings_takes {list : MappingList} (h : ListTaken Q list)
    (hfits : ∀ entry ∈ list.pairs, entry.Fits) {received : List PublicationKey}
    (hreceived : ∀ key ∈ received, key.Fits) :
    Yields Q (fun received => ∀ key ∈ received, key.Fits) (insertMappings list received) := by
  refine Yields.foldEach (fun received entry hentry hreceived => ?_) hreceived
  refine (Program.makes_perform (h entry hentry)).bind fun _ key hkey => ?_
  rcases List.mem_append.mp hkey with hkey | hkey
  · exact hreceived key hkey
  · obtain rfl := List.mem_singleton.mp hkey
    exact ⟨(hfits entry hentry).bootstrapTime, (hfits entry hentry).seqNo⟩

omit hQ in
include hrepair in
theorem enqueueRepairs_takes {requests : List MissingDataInfo}
    (h : ∀ request ∈ requests, request.bootstrapTime < 2 ^ 64 ∧ request.high < 2 ^ 64) :
    Makes Q (enqueueRepairs requests) := by
  refine (Program.closed_yields Q).forEach fun request hrequest => ?_
  refine makes_forSeqNos fun seq hseq => ?_
  obtain ⟨hepoch, hhigh⟩ := h request hrequest
  exact Program.makes_perform (hrepair _ ⟨hepoch, Nat.lt_of_le_of_lt hseq hhigh⟩)

omit hQ in
theorem mem_mappingListsOf_self {block : Block} {list : MappingList}
    (h : MappingList.decode block = .ok list) : list ∈ mappingListsOf block := by
  refine List.mem_filterMap.mpr ⟨block, List.mem_cons_self, ?_⟩
  rw [MappingList.read, h]
  rfl

omit hQ in
theorem mem_mappingListsOf_child {block child : Block} {children : List Block}
    (hparse : block.parse = some children) (hchild : child ∈ children)
    (htype : child.type = tlv.mappingData) {list : MappingList}
    (h : MappingList.decode child = .ok list) : list ∈ mappingListsOf block := by
  have hmem : child ∈ (childrenOf block).filter fun child => child.type = tlv.mappingData := by
    rw [childrenOf, hparse]
    exact List.mem_filter.mpr ⟨hchild, decide_eq_true htype⟩
  refine List.mem_filterMap.mpr ⟨child, List.mem_cons_of_mem _ hmem, ?_⟩
  rw [MappingList.read, h]
  rfl

omit hQ in
theorem mem_packetsOf {cxx : NdnCxx} {block child : Block} {children : List Block}
    (hparse : block.parse = some children) (hchild : child ∈ children)
    (htype : child.type = tlv.data) {data : Data} (h : cxx.decodeData child = some data) :
    data ∈ packetsOf cxx block := by
  refine List.mem_filterMap.mpr ⟨child, List.mem_filter.mpr ⟨?_, decide_eq_true htype⟩, h⟩
  rw [childrenOf, hparse]
  exact hchild

include hrepair

omit hQ in
theorem receiveChildren_takes {children : List Block}
    (h : ∀ child ∈ children, child.type = tlv.mappingData → ∀ list,
      MappingList.decode child = .ok list → ListTaken Q list)
    (hdata : ∀ child ∈ children, child.type = tlv.data → ∀ data,
      cfg.pubSub.core.cxx.decodeData child = some data → PacketTaken Q data)
    {received : List PublicationKey} (hreceived : ∀ key ∈ received, key.Fits) :
    Yields Q (fun received => ∀ key ∈ received, key.Fits)
      (receiveChildren cfg children received) := by
  induction children generalizing received with
  | nil => exact hreceived
  | cons child children ih =>
    obtain ⟨hfirst, hrest⟩ := List.forall_mem_cons.mp h
    obtain ⟨hpacket, hpackets⟩ := List.forall_mem_cons.mp hdata
    have hgoOn : ∀ {received : List PublicationKey}, (∀ key ∈ received, key.Fits) →
        Yields Q (fun received => ∀ key ∈ received, key.Fits)
          (receiveChildren cfg children received) := ih hrest hpackets
    rw [receiveChildren]
    split
    · rename_i htype
      split
      · exact hreceived
      · rename_i list hlist
        exact (insertMappings_takes (hfirst htype list hlist) (MappingList.decode_fits hlist)
          hreceived).bind fun received hreceived => hgoOn hreceived
    · split
      · rename_i htype
        split
        · exact hreceived
        · rename_i data hdecodes
          obtain ⟨hsatisfy, hcache⟩ := hpacket htype data hdecodes
          exact Makes.bind (Program.makes_perform hsatisfy) fun _ =>
            Makes.bind (Program.makes_perform hcache) fun _ => hgoOn hreceived
      · split
        · split
          · exact hreceived
          · rename_i requests hrequests
            refine Makes.bind (enqueueRepairs_takes hrepair fun request hrequest => ?_)
              fun _ => hgoOn hreceived
            obtain ⟨info, hinfo, rfl⟩ := List.mem_map.mp hrequest
            obtain ⟨hepoch, -, hle, hhigh⟩ := decodeRepairRequests_range hrequests info hinfo
            exact ⟨hepoch, Nat.max_lt.mpr ⟨hhigh, Nat.lt_of_le_of_lt hle hhigh⟩⟩
        · exact hgoOn hreceived

/-- What is taken in from a block is what is read in it and in the blocks nested in it. -/
theorem commitExtension_takes {block : Block} (h : BlockTaken Q cfg.pubSub.core.cxx block) :
    Makes Q (commitExtension cfg block) := by
  have hclosed := @Program.closed_yields Call Call.Reply Q
  have hlist : Yields Q (fun received => ∀ key ∈ received, key.Fits) (receiveList block) := by
    unfold receiveList
    split
    · exact fun key hkey => absurd hkey List.not_mem_nil
    · rename_i list hlist
      exact insertMappings_takes (h.lists list (mem_mappingListsOf_self hlist))
        (MappingList.decode_fits hlist) fun key hkey => absurd hkey List.not_mem_nil
  refine Yields.bind hlist fun received hreceived => ?_
  split
  · exact Program.makes_ret _
  · rename_i requests hrequests
    have hrepairs : Makes Q (enqueueRepairs requests) := by
      refine enqueueRepairs_takes hrepair fun request hrequest => ?_
      unfold topRepairs at hrequests
      split at hrequests
      · obtain ⟨hepoch, -, -, hhigh⟩ := decodeRepairRequests_range hrequests request hrequest
        exact ⟨hepoch, hhigh⟩
      · rw [← Except.ok.inj hrequests] at hrequest
        exact absurd hrequest List.not_mem_nil
    have helements : Yields Q (fun received => ∀ key ∈ received, key.Fits)
        (receiveElements cfg block received) := by
      unfold receiveElements
      split
      · exact hreceived
      · rename_i children hparse
        refine receiveChildren_takes hrepair (fun child hchild htype list hlist => ?_)
          (fun child hchild htype data hdecodes => ?_) hreceived
        · exact h.lists list (mem_mappingListsOf_child hparse hchild htype hlist)
        · exact h.packets data (mem_packetsOf hparse hchild htype hdecodes)
    refine hrepairs.bind fun _ => Yields.bind helements fun received hreceived => ?_
    refine Makes.bind (closed_processReceived hclosed (fun _ _ => makes_plain hQ _ id) hreceived)
      fun queued => ?_
    exact Makes.bind (closed_fetchAllIf hclosed cfg (fetchAll_plain hQ cfg) queued)
      fun _ => Program.makes_ret _

theorem onRecvExtraBlocks_takes {blocks : List Block}
    (h : ∀ block ∈ blocks, BlockTaken Q cfg.pubSub.core.cxx block) :
    Makes Q (onRecvExtraBlocks cfg blocks) := by
  unfold onRecvExtraBlocks
  split
  · exact Program.makes_ret ()
  · clear * - h hQ hrepair
    induction blocks with
    | nil => exact Program.makes_ret ()
    | cons block blocks ih =>
      obtain ⟨hfirst, hrest⟩ := List.forall_mem_cons.mp h
      have hblock : Makes Q (onRecvExtraData cfg block) := by
        unfold onRecvExtraData
        split
        · exact Program.makes_ret _
        · split
          · exact Program.makes_ret _
          · exact commitExtension_takes hQ hrepair hfirst
      refine hblock.bind fun result => ?_
      cases result with
      | error e => exact Program.makes_ret ()
      | ok u => exact ih hrest

end Calls

end Subscriber

end NdnSvs
