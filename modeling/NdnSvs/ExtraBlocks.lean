import NdnSvs.Extensions
import NdnSvs.PacketFormat

/-! The extension blocks of a Sync Interest: what the producer selects from its queues, the blocks
that it makes of them, and what a receiver reads in them.  A receiver reads what was selected. -/

namespace NdnSvs

open Lib Lib.Tlv

/-! ### What a block carries -/

/-- The elements of a block, none when it does not parse. -/
def childrenOf (b : Block) : List Block := b.parse.getD []

def MappingList.read (b : Block) : Option MappingList := (MappingList.decode b).toOption

/-- The mapping lists that are read in a known block: its own, and those nested in it. -/
def mappingListsOf (b : Block) : List MappingList :=
  (b :: (childrenOf b).filter fun child => child.type = tlv.mappingData).filterMap MappingList.read

/-- The mappings of a list with their node. -/
def MappingList.mappings (list : MappingList) : List (NodeID × MappingEntry) :=
  list.pairs.map fun entry => (list.nodeId, entry)

def mappingsOf (b : Block) : List (NodeID × MappingEntry) :=
  (mappingListsOf b).flatMap MappingList.mappings

def packetsOf (cxx : NdnCxx) (b : Block) : List Data :=
  ((childrenOf b).filter fun child => child.type = tlv.data).filterMap cxx.decodeData

/-- The repair requests that are read in a known block and in the blocks nested in it. -/
def repairsOf (b : Block) : List MissingDataInfo :=
  ((b :: childrenOf b).filter fun child => child.type = tlv.repairData).flatMap fun child =>
    (decodeRepairRequests child).toOption.getD []

/-! ### Reading back what was written -/

/-- The numbers of a mapping can be written. -/
structure MappingEntry.Fits (entry : MappingEntry) : Prop where
  bootstrapTime : entry.bootstrapTime < 2 ^ 64
  seqNo : entry.seqNo < 2 ^ 64

/-- The entry as it is read back: its additional blocks come in reverse. -/
def MappingEntry.received (entry : MappingEntry) : MappingEntry :=
  { entry with mapping := { entry.mapping with additional := entry.mapping.additional.reverse } }

theorem decodeSeqNoEntry_write {bootstrapTime : BootstrapTime} {seqNo : SeqNo}
    (hb : bootstrapTime < 2 ^ 64) (hs : seqNo < 2 ^ 64) :
    decodeSeqNoEntry (.ofElements tlv.seqNoEntry [.ofNumber tlv.bootstrapTime bootstrapTime,
      .ofNumber tlv.seqNo seqNo]) = .ok (bootstrapTime, seqNo) := by
  have hfits : ∀ b ∈ [Block.ofNumber tlv.bootstrapTime bootstrapTime,
      Block.ofNumber tlv.seqNo seqNo],
      b.Fits := by
    intro b hb
    simp only [List.mem_cons, List.not_mem_nil, or_false] at hb
    rcases hb with rfl | rfl
    · exact Block.ofNumber_fits _ _
    · exact Block.ofNumber_fits _ _
  have hreadb := @Block.number_ofNumber tlv.bootstrapTime _ hb
  have hreads := @Block.number_ofNumber tlv.seqNo _ hs
  simp only [decodeSeqNoEntry, Block.parse_ofElements hfits, orMalformed_some, ok_bind, readNumber,
    hreadb, hreads, Block.ofElements_type, Block.ofNumber_type]
  rfl

theorem MappingEntry.decode_block {entry : MappingEntry} (hfits : entry.Fits)
    (hblock : entry.block.Fits) : MappingEntry.decode entry.block = .ok entry.received := by
  obtain ⟨bootstrapTime, seqNo, name, additional⟩ := entry
  have hname : name.block.value.length < 2 ^ 64 :=
    Block.length_lt_of_ofElements (by simp) hblock
  have hparse : (MappingEntry.block ⟨bootstrapTime, seqNo, name, additional⟩).parse = some _ :=
    Block.Fits.parse hblock
  simp only [MappingEntry.decode, hparse, orMalformed_some, ok_bind, elementAt, List.cons_append,
    List.nil_append, List.getElem?_cons_zero, List.getElem?_cons_succ,
    decodeSeqNoEntry_write hfits.bootstrapTime hfits.seqNo, readName, Name.ofBlock_block hname]
  rfl

theorem foldlM_decodeElement_entries {entries : List MappingEntry}
    (hfits : ∀ entry ∈ entries, entry.Fits ∧ entry.block.Fits) (list : MappingList) :
    (entries.map MappingEntry.block).foldlM MappingList.decodeElement list =
      .ok { list with pairs := list.pairs ++ entries.map MappingEntry.received } := by
  induction entries generalizing list with
  | nil =>
    rw [List.map_nil, List.map_nil, List.append_nil]
    rfl
  | cons entry entries ih =>
    obtain ⟨hentry, hblock⟩ := hfits entry List.mem_cons_self
    have hstep : list.decodeElement entry.block =
        .ok { list with pairs := list.pairs ++ [entry.received] } := by
      have htype : entry.block.type = tlv.mappingEntry := rfl
      rw [MappingList.decodeElement, htype, if_neg (by decide), if_pos rfl,
        MappingEntry.decode_block hentry hblock]
      rfl
    rw [List.map_cons, List.foldlM_cons, hstep, ok_bind,
      ih fun e he => hfits e (List.mem_cons_of_mem _ he)]
    simp

theorem foldlM_decodeElement_others {bs : List Block}
    (h : ∀ b ∈ bs, b.type ≠ tlv.name ∧ b.type ≠ tlv.mappingEntry) (list : MappingList) :
    bs.foldlM MappingList.decodeElement list = .ok list := by
  have hstep : ∀ l : MappingList, ∀ b ∈ bs, l.decodeElement b = .ok l := by
    intro l b hb
    rw [MappingList.decodeElement, if_neg (h b hb).1, if_neg (h b hb).2]
  rw [foldlM_ok hstep]
  exact congrArg Except.ok (List.foldl_fixed' (fun _ => rfl) bs)

/-- The list at the front of a block, whatever other elements come after it. -/
theorem MappingList.decode_ofElements {list : MappingList} {others : List Block}
    (hentries : ∀ entry ∈ list.pairs, entry.Fits)
    (hothers : ∀ b ∈ others, b.type ≠ tlv.name ∧ b.type ≠ tlv.mappingEntry)
    (hfits : (Block.ofElements tlv.mappingData (list.nodeId.block ::
      (list.pairs.map MappingEntry.block).reverse ++ others)).Fits) :
    MappingList.decode (.ofElements tlv.mappingData (list.nodeId.block ::
      (list.pairs.map MappingEntry.block).reverse ++ others)) =
      .ok { list with pairs := list.pairs.reverse.map MappingEntry.received } := by
  have hparse := hfits.parse
  have hname : list.nodeId.block.value.length < 2 ^ 64 :=
    Block.length_lt_of_ofElements (by simp) hfits
  have hblocks : ∀ entry ∈ list.pairs.reverse, entry.Fits ∧ entry.block.Fits := by
    intro entry hentry
    rw [List.mem_reverse] at hentry
    refine ⟨hentries entry hentry, Block.length_lt_of_ofElements ?_ hfits⟩
    have := List.mem_map_of_mem (f := MappingEntry.block) hentry
    simp only [List.mem_append, List.mem_cons, List.mem_reverse]
    exact .inl (.inr this)
  have hfirst : MappingList.decodeElement {} list.nodeId.block = .ok { nodeId := list.nodeId } := by
    have htype : list.nodeId.block.type = tlv.name := rfl
    rw [MappingList.decodeElement, if_pos htype, readName, Name.ofBlock_block hname]
    rfl
  rw [MappingList.decode, hparse, orMalformed_some, ok_bind, List.cons_append, List.foldlM_cons,
    hfirst, ok_bind, List.foldlM_append, ← List.map_reverse, foldlM_decodeElement_entries hblocks,
    ok_bind, foldlM_decodeElement_others hothers, List.nil_append]

theorem MappingList.decode_encode {list : MappingList} (hentries : ∀ entry ∈ list.pairs, entry.Fits)
    (hfits : list.encode.Fits) :
    MappingList.decode list.encode =
      .ok { list with pairs := list.pairs.reverse.map MappingEntry.received } := by
  have hdecode := @MappingList.decode_ofElements list [] hentries (by simp)
  rw [List.append_nil] at hdecode
  exact hdecode hfits

/-- A repair request that a receiver accepts. -/
structure MissingDataInfo.Repairable (info : MissingDataInfo) : Prop where
  bootstrapTime : info.bootstrapTime < 2 ^ 64
  low_pos : 1 ≤ info.low
  low_le : info.low ≤ info.high
  high_lt : info.high < 2 ^ 64

/-- The request as it is read back, without the face that it came from. -/
def MissingDataInfo.received (info : MissingDataInfo) : MissingDataInfo :=
  { info with incomingFace := 0 }

/-- A request of 64-bit numbers is read back if it has a range. -/
theorem decodeRepairRequest_numbers {info : MissingDataInfo}
    (hbootstrap : info.bootstrapTime < 2 ^ 64) (hlow : info.low < 2 ^ 64)
    (hhigh : info.high < 2 ^ 64)
    (hfits : (Block.ofElements tlv.repairEntry [info.nodeId.block,
      .ofNumber tlv.bootstrapTime info.bootstrapTime, .ofNumber tlv.seqNo info.low,
      .ofNumber tlv.seqNo info.high]).Fits) :
    decodeRepairRequest (.ofElements tlv.repairEntry [info.nodeId.block,
      .ofNumber tlv.bootstrapTime info.bootstrapTime, .ofNumber tlv.seqNo info.low,
      .ofNumber tlv.seqNo info.high]) = (do
        require (info.low ≠ 0 ∧ info.low ≤ info.high)
          (.invalidArgument "invalid SVS repair sequence range")
        .ok info.received) := by
  have hparse := hfits.parse
  have hname : info.nodeId.block.value.length < 2 ^ 64 :=
    Block.length_lt_of_ofElements (by simp) hfits
  have htype : info.nodeId.block.type = tlv.name := rfl
  have hb := @Block.number_ofNumber tlv.bootstrapTime _ hbootstrap
  have hl := @Block.number_ofNumber tlv.seqNo _ hlow
  have hh := @Block.number_ofNumber tlv.seqNo _ hhigh
  simp only [decodeRepairRequest, hparse, orMalformed_some, ok_bind, Block.ofElements_type,
    Block.ofNumber_type, htype, and_self, require_true, readName, Name.ofBlock_block hname,
    readNumber, hb, hl, hh]
  rfl

theorem decodeRepairRequest_write {info : MissingDataInfo} (hinfo : info.Repairable)
    (hfits : (Block.ofElements tlv.repairEntry [info.nodeId.block,
      .ofNumber tlv.bootstrapTime info.bootstrapTime, .ofNumber tlv.seqNo info.low,
      .ofNumber tlv.seqNo info.high]).Fits) :
    decodeRepairRequest (.ofElements tlv.repairEntry [info.nodeId.block,
      .ofNumber tlv.bootstrapTime info.bootstrapTime, .ofNumber tlv.seqNo info.low,
      .ofNumber tlv.seqNo info.high]) = .ok info.received := by
  have hlow : info.low < 2 ^ 64 := Nat.lt_of_le_of_lt hinfo.low_le hinfo.high_lt
  have hrange : info.low ≠ 0 ∧ info.low ≤ info.high :=
    ⟨Nat.one_le_iff_ne_zero.mp hinfo.low_pos, hinfo.low_le⟩
  rw [decodeRepairRequest_numbers hinfo.bootstrapTime hlow hinfo.high_lt hfits,
    require_of _ hrange]
  rfl

theorem decodeRepairRequests_encode {requests : List MissingDataInfo}
    (hrequests : ∀ info ∈ requests, info.Repairable)
    (hfits : (encodeRepairRequests requests).Fits) :
    decodeRepairRequests (encodeRepairRequests requests) =
      .ok (requests.map MissingDataInfo.received) := by
  have hparse := Block.Fits.parse hfits
  rw [decodeRepairRequests, encodeRepairRequests, hparse, orMalformed_some, ok_bind]
  have hblocks : ∀ info ∈ requests, (Block.ofElements tlv.repairEntry [info.nodeId.block,
      .ofNumber tlv.bootstrapTime info.bootstrapTime, .ofNumber tlv.seqNo info.low,
      .ofNumber tlv.seqNo info.high]).Fits :=
    fun info hinfo => Block.length_lt_of_ofElements (List.mem_map_of_mem hinfo) hfits
  clear hparse hfits
  induction requests with
  | nil => rfl
  | cons info requests ih =>
    rw [List.map_cons, List.mapM_cons,
      decodeRepairRequest_write (hrequests info List.mem_cons_self)
        (hblocks info List.mem_cons_self), ok_bind,
      ih (fun i hi => hrequests i (List.mem_cons_of_mem _ hi))
        fun i hi => hblocks i (List.mem_cons_of_mem _ hi)]
    rfl

/-! ### What is selected -/

section Select

variable {α : Type} (wire : α → Block) (limit repeatCount missLimit : Nat)

/-- The items that a pass over a queue selects, the newest first. -/
def selectNewestFirst : List (QueueEntry α) → Nat → List α
  | [], _ => []
  | entry :: older, size =>
    let block := wire entry.item
    if limit < size + block.size then selectNewestFirst older size
    else entry.item :: selectNewestFirst older (size + block.size)

def selectQueue (queue : List (QueueEntry α)) (size : Nat) : List α :=
  selectNewestFirst wire limit queue.reverse size

variable {wire limit repeatCount missLimit}

theorem packNewestFirst_blocks (queue : List (QueueEntry α)) (size : Nat) :
    (packNewestFirst wire limit repeatCount missLimit queue size).blocks =
      (selectNewestFirst wire limit queue size).map wire := by
  induction queue generalizing size with
  | nil => rfl
  | cons entry older ih =>
    simp only [packNewestFirst, selectNewestFirst]
    split
    · split
      · exact ih size
      · exact ih size
    · rw [List.map_cons, ih]

theorem packQueue_blocks (queue : List (QueueEntry α)) (size : Nat) :
    (packQueue wire limit repeatCount missLimit queue size).blocks =
      (selectQueue wire limit queue size).map wire :=
  packNewestFirst_blocks _ _

theorem selectNewestFirst_subset (queue : List (QueueEntry α)) (size : Nat) :
    selectNewestFirst wire limit queue size ⊆ queue.map QueueEntry.item := by
  induction queue generalizing size with
  | nil => exact List.Subset.refl _
  | cons entry older ih =>
    simp only [selectNewestFirst, List.map_cons]
    split
    · exact fun a ha => List.mem_cons_of_mem _ (ih size ha)
    · exact List.cons_subset_cons _ (ih _)

/-- What is selected comes from the queue, and fits the limit by itself. -/
theorem mem_of_selected {queue : List (QueueEntry α)} {size : Nat} {a : α}
    (h : a ∈ selectQueue wire limit queue size) : ∃ entry ∈ queue, entry.item = a := by
  obtain ⟨entry, hentry, rfl⟩ := List.mem_map.mp (selectNewestFirst_subset _ _ h)
  exact ⟨entry, List.mem_reverse.mp hentry, rfl⟩

theorem selectNewestFirst_size_le {queue : List (QueueEntry α)} {size : Nat} {a : α}
    (h : a ∈ selectNewestFirst wire limit queue size) : (wire a).size ≤ limit := by
  induction queue generalizing size with
  | nil => cases h
  | cons entry older ih =>
    simp only [selectNewestFirst] at h
    split at h
    · exact ih h
    · rcases List.mem_cons.mp h with rfl | h
      · omega
      · exact ih h

end Select

namespace ExtraData

section Blocks

variable (cxx : NdnCxx) (opts : ExtraDataOptions) (e : ExtraData)

def mappingWire (mapping : NodeID × MappingEntry) : Block :=
  ({ nodeId := mapping.1, pairs := [mapping.2] } : MappingList).encode

def repairWire (info : MissingDataInfo) : Block := encodeRepairRequests [info]

/-- The mappings of the queue, packed behind those of the notification. -/
def packedMappings : Packed (NodeID × MappingEntry) :=
  packQueue mappingWire opts.maxApplicationParameters opts.piggybackRepeatCount
    opts.piggybackMissLimit e.piggyMappingQueue
    (includedMappings opts e.notificationMappingList).encode.size

def packedData : Packed Data :=
  packQueue cxx.dataWire opts.maxApplicationParameters opts.piggybackRepeatCount
    opts.piggybackMissLimit e.piggyDataQueue (packedMappings opts e).size

def packedRepairs : Packed MissingDataInfo :=
  packQueue repairWire opts.maxApplicationParameters opts.repairRequestRepeatCount
    opts.piggybackMissLimit e.repairRequestQueue (packedData cxx opts e).size

/-- The elements of the block of `onGetExtraData`. -/
def compositeElements : List Block :=
  let included := includedMappings opts e.notificationMappingList
  (included.nodeId.block :: (included.pairs.map MappingEntry.block).reverse) ++
    (packedMappings opts e).blocks ++ (packedData cxx opts e).blocks ++
    (packedRepairs cxx opts e).blocks

/-- The repair requests leave the composite. -/
def splitElement (blocks : List Block × List MissingDataInfo) (child : Block) :
    Result (List Block × List MissingDataInfo) := do
  let (mappings, repairs) := blocks
  if child.type = tlv.repairData then .ok (mappings, repairs ++ (← decodeRepairRequests child))
  else .ok (mappings ++ [child], repairs)

/-- The extension blocks of the next Sync Interest, and the queues after them.  The composite holds
its elements, so it is not parsed again. -/
def onGetExtraBlocks : Result (List Block) × ExtraData :=
  (do
    let (mappings, repairs) ← (compositeElements cxx opts e).foldlM splitElement ([], [])
    .ok (.ofElements tlv.mappingData mappings ::
      if repairs = [] then [] else [encodeRepairRequests repairs]),
    (onGetExtraData cxx opts e).2)

/-- The mappings that are selected: those of the notification that fit, and those of the queue. -/
def selectedMappings : List (NodeID × MappingEntry) :=
  let included := includedMappings opts e.notificationMappingList
  included.mappings ++
    selectQueue mappingWire opts.maxApplicationParameters e.piggyMappingQueue included.encode.size

def selectedData : List Data :=
  selectQueue cxx.dataWire opts.maxApplicationParameters e.piggyDataQueue
    (packedMappings opts e).size

def selectedRepairs : List MissingDataInfo :=
  selectQueue repairWire opts.maxApplicationParameters e.repairRequestQueue
    (packedData cxx opts e).size

/-- The elements of the block of mappings: the mappings of the notification, the lists of the queued
mappings, and the packets. -/
def mappingElements : List Block :=
  let included := includedMappings opts e.notificationMappingList
  let queued := selectQueue mappingWire opts.maxApplicationParameters e.piggyMappingQueue
    included.encode.size
  included.nodeId.block :: (included.pairs.map MappingEntry.block).reverse ++
    (queued.map mappingWire ++ (selectedData cxx opts e).map cxx.dataWire)

theorem compositeElements_eq : compositeElements cxx opts e =
    mappingElements cxx opts e ++ (selectedRepairs cxx opts e).map repairWire := by
  simp only [compositeElements, packedMappings, packedData, packedRepairs, packQueue_blocks,
    mappingElements, selectedData, selectedRepairs, List.append_assoc, List.cons_append]

theorem mappingElements_type {cxx : NdnCxx} {opts : ExtraDataOptions} {e : ExtraData} {b : Block}
    (h : b ∈ mappingElements cxx opts e) : b.type ≠ tlv.repairData := by
  simp only [mappingElements, List.mem_append, List.mem_cons, List.mem_reverse, List.mem_map] at h
  rcases h with (rfl | ⟨entry, -, rfl⟩) | ⟨mapping, -, rfl⟩ | ⟨data, -, rfl⟩
  · exact (by decide : tlv.name ≠ tlv.repairData)
  · exact (by decide : tlv.mappingEntry ≠ tlv.repairData)
  · exact (by decide : tlv.mappingData ≠ tlv.repairData)
  · rw [cxx.dataWire_type]
    decide

theorem foldlM_splitElement_others {bs : List Block} (h : ∀ b ∈ bs, b.type ≠ tlv.repairData)
    (mappings : List Block) (repairs : List MissingDataInfo) :
    bs.foldlM splitElement (mappings, repairs) = .ok (mappings ++ bs, repairs) := by
  induction bs generalizing mappings with
  | nil =>
    rw [List.append_nil]
    rfl
  | cons b bs ih =>
    have hstep : splitElement (mappings, repairs) b = .ok (mappings ++ [b], repairs) :=
      if_neg (h b List.mem_cons_self)
    rw [List.foldlM_cons, hstep, ok_bind, ih fun b hb => h b (List.mem_cons_of_mem _ hb),
      List.append_assoc]
    rfl

theorem foldlM_splitElement_repairs {infos : List MissingDataInfo}
    (h : ∀ info ∈ infos, info.Repairable ∧ (repairWire info).Fits) (mappings : List Block)
    (repairs : List MissingDataInfo) :
    (infos.map repairWire).foldlM splitElement (mappings, repairs) =
      .ok (mappings, repairs ++ infos.map MissingDataInfo.received) := by
  induction infos generalizing repairs with
  | nil =>
    rw [List.map_nil, List.map_nil, List.append_nil]
    rfl
  | cons info infos ih =>
    obtain ⟨hinfo, hfits⟩ := h info List.mem_cons_self
    have hdecode : decodeRepairRequests (repairWire info) = .ok [info.received] :=
      decodeRepairRequests_encode (fun i hi => List.mem_singleton.mp hi ▸ hinfo) hfits
    have hstep : splitElement (mappings, repairs) (repairWire info) =
        .ok (mappings, repairs ++ [info.received]) := by
      have htype : (repairWire info).type = tlv.repairData := rfl
      simp only [splitElement, htype, if_pos, hdecode, ok_bind]
    rw [List.map_cons, List.foldlM_cons, hstep, ok_bind,
      ih fun i hi => h i (List.mem_cons_of_mem _ hi), List.append_assoc]
    rfl

/-- The blocks when every selected repair request can be read back. -/
theorem onGetExtraBlocks_ok {cxx : NdnCxx} {opts : ExtraDataOptions} {e : ExtraData}
    (h : ∀ info ∈ selectedRepairs cxx opts e, info.Repairable ∧ (repairWire info).Fits) :
    (onGetExtraBlocks cxx opts e).1 =
      .ok (.ofElements tlv.mappingData (mappingElements cxx opts e) ::
        if selectedRepairs cxx opts e = [] then []
        else
          [encodeRepairRequests ((selectedRepairs cxx opts e).map MissingDataInfo.received)]) := by
  simp only [onGetExtraBlocks, compositeElements_eq, List.foldlM_append,
    foldlM_splitElement_others (fun _ => mappingElements_type), ok_bind,
    foldlM_splitElement_repairs h, List.nil_append, List.map_eq_nil_iff]

/-! ### What is received -/

theorem includedMappings_nodeId (notification : MappingList) :
    (includedMappings opts notification).nodeId = notification.nodeId := by
  unfold includedMappings
  split
  · rfl
  · refine List.foldlRecOn
      (motive := fun included : MappingList => included.nodeId = notification.nodeId) _ _ rfl
      fun included h entry _ => ?_
    dsimp only
    split
    · exact h
    · exact h

theorem includedMappings_subset (notification : MappingList) :
    (includedMappings opts notification).pairs ⊆ notification.pairs := by
  unfold includedMappings
  split
  · exact List.nil_subset _
  · refine List.foldlRecOn
      (motive := fun included : MappingList => included.pairs ⊆ notification.pairs) _ _
      (List.nil_subset _) fun included h entry hentry => ?_
    dsimp only
    split
    · exact List.append_subset.mpr ⟨h, List.cons_subset.mpr ⟨hentry, List.nil_subset _⟩⟩
    · exact h

/-- Every item of the queues can be written: the numbers have 64 bits, the packets are signed, and
the repair requests have a range. -/
structure Writable (e : ExtraData) : Prop where
  notification : ∀ entry ∈ e.notificationMappingList.pairs, entry.Fits
  mappings : ∀ entry ∈ e.piggyMappingQueue, entry.item.2.Fits
  data : ∀ entry ∈ e.piggyDataQueue, entry.item.Encodable
  repairs : ∀ entry ∈ e.repairRequestQueue, entry.item.Repairable

variable {cxx opts e}

theorem Writable.selectedRepairs (h : e.Writable) :
    ∀ info ∈ selectedRepairs cxx opts e, info.Repairable := by
  intro info hinfo
  obtain ⟨entry, hentry, rfl⟩ := mem_of_selected hinfo
  exact h.repairs entry hentry

theorem filter_mappingData :
    (mappingElements cxx opts e).filter (fun b => b.type = tlv.mappingData) =
    (selectQueue mappingWire opts.maxApplicationParameters e.piggyMappingQueue
      (includedMappings opts e.notificationMappingList).encode.size).map mappingWire := by
  have hname : ∀ n : Name, n.block.type ≠ tlv.mappingData := fun _ => (by decide :
    tlv.name ≠ tlv.mappingData)
  have hentry : ∀ entry : MappingEntry, entry.block.type ≠ tlv.mappingData := fun _ => (by decide :
    tlv.mappingEntry ≠ tlv.mappingData)
  have hwire : ∀ mapping, (mappingWire mapping).type = tlv.mappingData := fun _ => rfl
  have hdata : ∀ d, (cxx.dataWire d).type ≠ tlv.mappingData := fun d => by
    rw [cxx.dataWire_type]
    decide
  simp only [mappingElements, List.filter_append, List.filter_cons, List.filter_reverse,
    List.filter_map, Function.comp_def, hname, hentry, hwire, hdata, decide_true, decide_false,
    List.filter_true, List.filter_false, List.map_nil, List.reverse_nil, List.nil_append,
    List.append_nil, Bool.false_eq_true, if_false]

theorem filter_data : (mappingElements cxx opts e).filter (fun b => b.type = tlv.data) =
    (selectedData cxx opts e).map cxx.dataWire := by
  have hname : ∀ n : Name, n.block.type ≠ tlv.data := fun _ => (by decide : tlv.name ≠ tlv.data)
  have hentry : ∀ entry : MappingEntry, entry.block.type ≠ tlv.data := fun _ => (by decide :
    tlv.mappingEntry ≠ tlv.data)
  have hwire : ∀ mapping, (mappingWire mapping).type ≠ tlv.data := fun _ => (by decide :
    tlv.mappingData ≠ tlv.data)
  have hdata : ∀ d, (cxx.dataWire d).type = tlv.data := cxx.dataWire_type
  simp only [mappingElements, List.filter_append, List.filter_cons, List.filter_reverse,
    List.filter_map, Function.comp_def, hname, hentry, hwire, hdata, decide_true, decide_false,
    List.filter_true, List.filter_false, List.map_nil, List.reverse_nil, List.nil_append,
    Bool.false_eq_true, if_false]

/-- A mapping without its additional blocks. -/
def named (mapping : NodeID × MappingEntry) : NodeID × BootstrapTime × SeqNo × Name :=
  (mapping.1, mapping.2.bootstrapTime, mapping.2.seqNo, mapping.2.mapping.name)

/-- Repair requests take less space in one block than in one block each. -/
theorem repairs_length_le (infos : List MissingDataInfo) :
    (encodeRepairRequests (infos.map MissingDataInfo.received)).value.length ≤
      (wires (infos.map repairWire)).length := by
  induction infos with
  | nil => exact Nat.le_refl _
  | cons info infos ih =>
    have hwire := (repairWire info).length_le_wire
    simp only [encodeRepairRequests, repairWire, Block.ofElements, List.map_cons, List.map_nil,
      wires, List.flatMap_cons, List.flatMap_nil, List.length_append, List.append_nil] at ih hwire ⊢
    exact Nat.add_le_add hwire ih

section Received

variable (h : e.Writable)
  (hfits : (Block.ofElements tlv.mappingData (compositeElements cxx opts e)).Fits)

include hfits

theorem mappingElements_fits :
    (Block.ofElements tlv.mappingData (mappingElements cxx opts e)).Fits := by
  have hle : (wires (mappingElements cxx opts e)).length ≤
      (wires (compositeElements cxx opts e)).length := by
    rw [compositeElements_eq, wires_append, List.length_append]
    exact Nat.le_add_right _ _
  exact Nat.lt_of_le_of_lt hle hfits

theorem element_fits {b : Block} (hb : b ∈ compositeElements cxx opts e) : b.Fits :=
  Block.length_lt_of_ofElements hb hfits

theorem repairWire_fits {info : MissingDataInfo} (hinfo : info ∈ selectedRepairs cxx opts e) :
    (repairWire info).Fits := by
  refine element_fits hfits ?_
  rw [compositeElements_eq]
  exact List.mem_append_right _ (List.mem_map_of_mem hinfo)

theorem mappingWire_fits {mapping : NodeID × MappingEntry}
    (hmapping : mapping ∈ selectQueue mappingWire opts.maxApplicationParameters
      e.piggyMappingQueue (includedMappings opts e.notificationMappingList).encode.size) :
    (mappingWire mapping).Fits := by
  refine element_fits hfits ?_
  rw [compositeElements_eq]
  exact List.mem_append_left _ (List.mem_append_right _
    (List.mem_append_left _ (List.mem_map_of_mem hmapping)))

theorem dataWire_fits {data : Data} (hdata : data ∈ selectedData cxx opts e) :
    (cxx.dataWire data).Fits := by
  refine element_fits hfits ?_
  rw [compositeElements_eq]
  exact List.mem_append_left _ (List.mem_append_right _
    (List.mem_append_right _ (List.mem_map_of_mem hdata)))

theorem childrenOf_mappings :
    childrenOf (.ofElements tlv.mappingData (mappingElements cxx opts e)) =
      mappingElements cxx opts e := by
  rw [childrenOf, (mappingElements_fits hfits).parse, Option.getD_some]

/-- The repair requests take less space in a block of their own. -/
theorem repairs_fits : (encodeRepairRequests
    ((selectedRepairs cxx opts e).map MissingDataInfo.received)).Fits := by
  refine Nat.lt_of_le_of_lt (repairs_length_le _) (Nat.lt_of_le_of_lt ?_ hfits)
  rw [compositeElements_eq, Block.ofElements, wires_append, List.length_append]
  exact Nat.le_add_left _ _

include h

theorem decode_mappings :
    MappingList.decode (.ofElements tlv.mappingData (mappingElements cxx opts e)) =
      .ok { includedMappings opts e.notificationMappingList with
        pairs := (includedMappings opts e.notificationMappingList).pairs.reverse.map
          MappingEntry.received } := by
  refine MappingList.decode_ofElements
    (fun entry hentry => h.notification entry (includedMappings_subset _ _ hentry)) ?_
    (mappingElements_fits hfits)
  intro b hb
  simp only [List.mem_append, List.mem_map] at hb
  rcases hb with ⟨mapping, -, rfl⟩ | ⟨data, -, rfl⟩
  · exact (by decide : tlv.mappingData ≠ tlv.name ∧ tlv.mappingData ≠ tlv.mappingEntry)
  · rw [cxx.dataWire_type]
    decide

theorem decode_mappingWire {mapping : NodeID × MappingEntry}
    (hmapping : mapping ∈ selectQueue mappingWire opts.maxApplicationParameters
      e.piggyMappingQueue (includedMappings opts e.notificationMappingList).encode.size) :
    MappingList.decode (mappingWire mapping) =
      .ok { nodeId := mapping.1, pairs := [mapping.2.received] } := by
  obtain ⟨entry, hentry, rfl⟩ := mem_of_selected hmapping
  exact MappingList.decode_encode
    (fun e he => List.mem_singleton.mp he ▸ h.mappings entry hentry)
    (mappingWire_fits hfits hmapping)

theorem decode_dataWire {data : Data} (hdata : data ∈ selectedData cxx opts e) :
    cxx.decodeData (cxx.dataWire data) = some data := by
  obtain ⟨entry, hentry, rfl⟩ := mem_of_selected hdata
  exact cxx.decodeData_dataWire _ (h.data entry hentry) (dataWire_fits hfits hdata)

theorem decode_repairs : decodeRepairRequests
    (encodeRepairRequests ((selectedRepairs cxx opts e).map MissingDataInfo.received)) =
      .ok ((selectedRepairs cxx opts e).map MissingDataInfo.received) := by
  have hrepairs : ∀ info ∈ (selectedRepairs cxx opts e).map MissingDataInfo.received,
      info.Repairable := by
    intro received hreceived
    obtain ⟨info, hinfo, rfl⟩ := List.mem_map.mp hreceived
    obtain ⟨hb, hpos, hle, hlt⟩ := h.selectedRepairs info hinfo
    exact ⟨hb, hpos, hle, hlt⟩
  rw [decodeRepairRequests_encode hrepairs (repairs_fits hfits), List.map_map]
  rfl

theorem mappings_received :
    (mappingsOf (.ofElements tlv.mappingData (mappingElements cxx opts e))).map named |>.Perm
      ((selectedMappings opts e).map named) := by
  have hqueued : ∀ queued : List (NodeID × MappingEntry), (∀ mapping ∈ queued,
      MappingList.decode (mappingWire mapping) =
        .ok { nodeId := mapping.1, pairs := [mapping.2.received] }) →
      (((queued.map mappingWire).filterMap MappingList.read).flatMap MappingList.mappings).map
        named = queued.map named := by
    intro queued hread
    induction queued with
    | nil => rfl
    | cons mapping queued ih =>
      have hfirst : MappingList.read (mappingWire mapping) =
          some { nodeId := mapping.1, pairs := [mapping.2.received] } := by
        rw [MappingList.read, hread mapping List.mem_cons_self]
        rfl
      rw [List.map_cons, List.filterMap_cons_some hfirst, List.flatMap_cons, List.map_append,
        ih fun m hm => hread m (List.mem_cons_of_mem _ hm)]
      rfl
  have htop : MappingList.read (.ofElements tlv.mappingData (mappingElements cxx opts e)) = some
      { includedMappings opts e.notificationMappingList with
        pairs := (includedMappings opts e.notificationMappingList).pairs.reverse.map
          MappingEntry.received } := by
    rw [MappingList.read, decode_mappings h hfits]
    rfl
  rw [mappingsOf, mappingListsOf, childrenOf_mappings hfits, filter_mappingData,
    List.filterMap_cons_some htop, List.flatMap_cons, List.map_append,
    hqueued _ fun mapping hmapping => decode_mappingWire h hfits hmapping, selectedMappings,
    List.map_append]
  refine List.Perm.append_right _ ?_
  simp only [MappingList.mappings, List.map_map, List.map_reverse]
  exact List.reverse_perm _

theorem packets_received :
    packetsOf cxx (.ofElements tlv.mappingData (mappingElements cxx opts e)) =
      selectedData cxx opts e := by
  have hread : ∀ packets : List Data, (∀ d ∈ packets, cxx.decodeData (cxx.dataWire d) = some d) →
      (packets.map cxx.dataWire).filterMap cxx.decodeData = packets := by
    intro packets hpackets
    induction packets with
    | nil => rfl
    | cons d packets ih =>
      rw [List.map_cons, List.filterMap_cons_some (hpackets d List.mem_cons_self),
        ih fun d hd => hpackets d (List.mem_cons_of_mem _ hd)]
  rw [packetsOf, childrenOf_mappings hfits, filter_data]
  exact hread _ fun d hd => decode_dataWire h hfits hd

omit h in
theorem repairsOf_mappings :
    repairsOf (.ofElements tlv.mappingData (mappingElements cxx opts e)) = [] := by
  have hnone : ((Block.ofElements tlv.mappingData (mappingElements cxx opts e) ::
      mappingElements cxx opts e).filter fun child => child.type = tlv.repairData) = [] := by
    rw [List.filter_eq_nil_iff]
    intro child hchild
    rcases List.mem_cons.mp hchild with rfl | hchild
    · exact (by decide : ¬decide (tlv.mappingData = tlv.repairData) = true)
    · simpa using mappingElements_type hchild
  rw [repairsOf, childrenOf_mappings hfits, hnone, List.flatMap_nil]

theorem checkChild_mappings {child : Block} (hchild : child ∈ mappingElements cxx opts e) :
    checkChild cxx child = .ok () := by
  unfold checkChild
  simp only [mappingElements, List.mem_append, List.mem_cons, List.mem_reverse,
    List.mem_map] at hchild
  rcases hchild with (rfl | ⟨entry, -, rfl⟩) | ⟨mapping, hmapping, rfl⟩ | ⟨data, hdata, rfl⟩
  · rfl
  · rfl
  · have htype : (mappingWire mapping).type = tlv.mappingData := rfl
    rw [if_pos htype, decode_mappingWire h hfits hmapping]
    rfl
  · have htype := cxx.dataWire_type data
    rw [if_neg (by rw [htype]; decide), if_pos htype, decode_dataWire h hfits hdata]
    rfl

theorem checkKnownBlock_mappings :
    checkKnownBlock cxx (.ofElements tlv.mappingData (mappingElements cxx opts e)) = .ok () := by
  have hchildren : (mappingElements cxx opts e).forM (checkChild cxx) = .ok () :=
    forM_eq_ok.mpr fun child hchild => checkChild_mappings h hfits hchild
  rw [checkKnownBlock, (mappingElements_fits hfits).parse, orMalformed_some, ok_bind,
    Block.ofElements_type, if_pos rfl, decode_mappings h hfits]
  exact hchildren

/-- The block of the repair requests and what is read in it. -/
theorem repairs_block {r : Block} (hr : r = encodeRepairRequests
    ((selectedRepairs cxx opts e).map MissingDataInfo.received)) :
    checkKnownBlock cxx r = .ok () ∧ mappingsOf r = [] ∧ packetsOf cxx r = [] ∧
      repairsOf r = (selectedRepairs cxx opts e).map MissingDataInfo.received := by
  have hdecode := decode_repairs h hfits
  have hparse : (encodeRepairRequests ((selectedRepairs cxx opts e).map
      MissingDataInfo.received)).parse = some _ := Block.Fits.parse (repairs_fits hfits)
  rw [← hr] at hdecode hparse
  have htype : r.type = tlv.repairData := by rw [hr]; rfl
  have hentry : ∀ child ∈ childrenOf r, child.type = tlv.repairEntry := by
    intro child hchild
    rw [childrenOf, hparse, Option.getD_some] at hchild
    obtain ⟨info, -, rfl⟩ := List.mem_map.mp hchild
    rfl
  have hfilter : ∀ type, type ≠ tlv.repairEntry →
      (childrenOf r).filter (fun child => child.type = type) = [] := by
    intro type htype
    rw [List.filter_eq_nil_iff]
    intro child hchild
    simpa [hentry child hchild] using htype.symm
  have hread : MappingList.read r = some {} := by
    have hothers := foldlM_decodeElement_others
      (fun child hchild => by rw [hentry child hchild]; decide) {}
    rw [childrenOf, hparse, Option.getD_some] at hothers
    rw [MappingList.read, MappingList.decode, hparse, orMalformed_some, ok_bind, hothers]
    rfl
  refine ⟨?_, ?_, ?_, ?_⟩
  · rw [checkKnownBlock, hparse, orMalformed_some, ok_bind, if_neg (by rw [htype]; decide), hdecode]
    refine forM_eq_ok.mpr fun child hchild => ?_
    have hentry := hentry child (by rw [childrenOf, hparse]; exact hchild)
    unfold checkChild
    simp only [hentry]
    rfl
  · rw [mappingsOf, mappingListsOf, hfilter _ (by decide), List.filterMap_cons_some hread]
    rfl
  · rw [packetsOf, hfilter _ (by decide)]
    rfl
  · rw [repairsOf, List.filter_cons_of_pos (by simp [htype]), hfilter _ (by decide),
      List.flatMap_cons, List.flatMap_nil, List.append_nil, hdecode]
    rfl

/-- A receiver accepts the blocks, and reads in them the mappings, the packets and the repair
requests that were selected. -/
theorem sent_is_received : ∃ blocks, (onGetExtraBlocks cxx opts e).1 = .ok blocks ∧
    (blocks.filter fun b => b.type = tlv.mappingData).length ≤ 1 ∧
    (blocks.filter fun b => b.type = tlv.repairData).length ≤ 1 ∧
    checkCollection cxx blocks = .ok () ∧
    ((blocks.flatMap mappingsOf).map named).Perm ((selectedMappings opts e).map named) ∧
    blocks.flatMap (packetsOf cxx) = selectedData cxx opts e ∧
    blocks.flatMap repairsOf = (selectedRepairs cxx opts e).map MissingDataInfo.received := by
  have hblocks := onGetExtraBlocks_ok fun info hinfo =>
    ⟨h.selectedRepairs info hinfo, repairWire_fits hfits hinfo⟩
  have hmappings := mappings_received h hfits
  have hpackets := packets_received h hfits
  have hrepairs := @repairsOf_mappings cxx opts e hfits
  have hcheck := checkKnownBlock_mappings h hfits
  refine ⟨_, hblocks, ?_⟩
  generalize hmappingBlock : Block.ofElements tlv.mappingData (mappingElements cxx opts e) = b at *
  have htype : b.type = tlv.mappingData := by rw [← hmappingBlock, Block.ofElements_type]
  have hknown : isKnownExtensionBlock b = true := by simp [isKnownExtensionBlock, htype]
  by_cases hnone : selectedRepairs cxx opts e = []
  · rw [if_pos hnone, hnone]
    refine ⟨by simp [htype], by simp [htype, tlv.mappingData, tlv.repairData], ?_, ?_, ?_, ?_⟩
    · simp [checkCollection, checkBlocks, SyncProtocolCodec.maxExtensionBlocks, hknown, hcheck,
        require]
    · simpa using hmappings
    · simpa using hpackets
    · simpa using hrepairs
  · rw [if_neg hnone]
    obtain ⟨hrcheck, hrmappings, hrpackets, hrrepairs⟩ := repairs_block h hfits rfl
    have hrtype : (encodeRepairRequests ((selectedRepairs cxx opts e).map
      MissingDataInfo.received)).type = tlv.repairData := rfl
    generalize encodeRepairRequests ((selectedRepairs cxx opts e).map
      MissingDataInfo.received) = r at *
    have hrknown : isKnownExtensionBlock r = true := by simp [isKnownExtensionBlock, hrtype]
    refine ⟨by simp [htype, hrtype, tlv.mappingData, tlv.repairData],
      by simp [htype, hrtype, tlv.mappingData, tlv.repairData], ?_, ?_, ?_, ?_⟩
    · simp [checkCollection, checkBlocks, SyncProtocolCodec.maxExtensionBlocks, hknown, hcheck,
        hrknown, hrcheck, htype, hrtype, require, tlv.mappingData, tlv.repairData]
    · simpa [hrmappings] using hmappings
    · simpa [hrpackets] using hpackets
    · simpa [hrrepairs] using hrepairs

end Received

/-- A node's own mapping, one of another node, a packet and a repair request. -/
def sampleQueues : ExtraData where
  notificationMappingList :=
    { nodeId := .ofStrings ["a"]
      pairs :=
        [{ bootstrapTime := 100, seqNo := 1, mapping := { name := .ofStrings ["x", "1"] } }] }
  piggyMappingQueue :=
    [{ item := (.ofStrings ["b"],
        { bootstrapTime := 90, seqNo := 4, mapping := { name := .ofStrings ["y"] } }) }]
  piggyDataQueue := [{ item := { name := .ofStrings ["y"], signatureValue := some [] } }]
  repairRequestQueue :=
    [{ item := { nodeId := .ofStrings ["c"], low := 2, high := 3, bootstrapTime := 80 } }]

theorem sampleQueues_writable : sampleQueues.Writable where
  notification := fun entry hentry => by
    obtain rfl := List.mem_singleton.mp hentry
    exact ⟨by decide, by decide⟩
  mappings := fun entry hentry => by
    obtain rfl := List.mem_singleton.mp hentry
    exact ⟨by decide, by decide⟩
  data := fun entry hentry => by
    obtain rfl := List.mem_singleton.mp hentry
    exact ⟨by decide, by decide, by decide⟩
  repairs := fun entry hentry => by
    obtain rfl := List.mem_singleton.mp hentry
    exact ⟨by decide, by decide, by decide, by decide⟩

theorem sent_is_received_queues :
    ∃ blocks, (onGetExtraBlocks packetFormat {} sampleQueues).1 = .ok blocks ∧
      checkCollection packetFormat blocks = .ok () ∧
      ((blocks.flatMap mappingsOf).map named).Perm
        [(.ofStrings ["a"], 100, 1, .ofStrings ["x", "1"]),
          (.ofStrings ["b"], 90, 4, .ofStrings ["y"])] ∧
      blocks.flatMap repairsOf =
        [{ nodeId := .ofStrings ["c"], low := 2, high := 3, bootstrapTime := 80 }] := by
  obtain ⟨blocks, hblocks, -, -, hcheck, hmappings, -, hrepairs⟩ :=
    @sent_is_received packetFormat {} sampleQueues sampleQueues_writable (by
      unfold Block.Fits
      decide +kernel)
  refine ⟨blocks, hblocks, hcheck, hmappings.trans ?_, hrepairs.trans ?_⟩
  · exact List.Perm.of_eq (by decide +kernel)
  · decide +kernel

end Blocks

end ExtraData

end NdnSvs
