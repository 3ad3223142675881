import NdnSvs.ExtraBlocks

/-! The bytes that a Sync Interest carries for the pub/sub layer.  The packer adds the sizes of the
queued blocks to the size of the block of mappings as it was before they went in, so it does not see
the length field of that block grow, nor the field of the block that the repair requests get. -/

namespace NdnSvs

open Lib Lib.Tlv

/-- The numbers of a request have 64 bits. -/
structure MissingDataInfo.Fits (info : MissingDataInfo) : Prop where
  bootstrapTime : info.bootstrapTime < 2 ^ 64
  low : info.low < 2 ^ 64
  high : info.high < 2 ^ 64

namespace ExtraData

section Budget

variable (cxx : NdnCxx) (opts : ExtraDataOptions) (e : ExtraData)

/-- The number of bytes of a length field. -/
def lengthWidth (n : Nat) : Nat := (varNumber n).length

/-- The block of the notification, before anything is packed behind it. -/
def notificationBlock : Block := (includedMappings opts e.notificationMappingList).encode

def queuedMappings : List (NodeID × MappingEntry) :=
  selectQueue mappingWire opts.maxApplicationParameters e.piggyMappingQueue
    (notificationBlock opts e).size

/-- The queued mappings and packets that are packed. -/
def queuedElements : List Block :=
  (queuedMappings opts e).map mappingWire ++ (selectedData cxx opts e).map cxx.dataWire

/-- The packed repair requests in one block. -/
def repairBlocks : List Block :=
  if selectedRepairs cxx opts e = [] then []
  else [encodeRepairRequests ((selectedRepairs cxx opts e).map MissingDataInfo.received)]

/-- The bytes of what is packed behind the notification. -/
def packedLength : Nat :=
  (wires (queuedElements cxx opts e)).length +
    (wires ((selectedRepairs cxx opts e).map repairWire)).length

/-- What the packer leaves of the limit is enough for the length fields that grow: that of the block
with everything in it and, when its repair requests can be read back, those of the two blocks that
it is split into. -/
structure LengthsHaveRoom : Prop where
  composite :
    lengthWidth ((notificationBlock opts e).value.length + packedLength cxx opts e) -
        lengthWidth (notificationBlock opts e).value.length ≤
      opts.maxApplicationParametersSize -
        ((notificationBlock opts e).size + packedLength cxx opts e)
  blocks : (∀ info ∈ selectedRepairs cxx opts e, info.Repairable) →
    lengthWidth ((notificationBlock opts e).value.length +
          (wires (queuedElements cxx opts e)).length) -
        lengthWidth (notificationBlock opts e).value.length +
        (wires (repairBlocks cxx opts e)).length ≤
      opts.maxApplicationParametersSize -
        ((notificationBlock opts e).size + (wires (queuedElements cxx opts e)).length)

/-- The bytes of the block, and those of the blocks it is split into, keep to the limit. -/
def KeepsBudget : Prop :=
  (onGetExtraData cxx opts e).1.size ≤ opts.maxApplicationParametersSize ∧
    ∀ blocks, (onGetExtraBlocks cxx opts e).1 = .ok blocks →
      (blocks.map Block.size).sum ≤ opts.maxApplicationParametersSize

variable {cxx opts e}

theorem sum_sizes (blocks : List Block) : (blocks.map Block.size).sum = (wires blocks).length := by
  induction blocks with
  | nil => rfl
  | cons b blocks ih =>
    rw [List.map_cons, List.sum_cons, ih, wires, wires, List.flatMap_cons, List.length_append,
      Block.size]

/-- The notification keeps to a limit that its empty list fits. -/
theorem notificationBlock_size_le
    (hlimit : ({ nodeId := e.notificationMappingList.nodeId } : MappingList).encode.size ≤
      opts.maxApplicationParameters) :
    (notificationBlock opts e).size ≤ opts.maxApplicationParameters := by
  rw [notificationBlock, includedMappings]
  split
  · exact hlimit
  · refine List.foldlRecOn (motive := fun included : MappingList =>
      included.encode.size ≤ opts.maxApplicationParameters) _ _ hlimit fun included h entry _ => ?_
    dsimp only
    split
    · assumption
    · exact h

/-- By the count of the packer the limit is kept. -/
theorem packed_le (hlimit : (notificationBlock opts e).size ≤ opts.maxApplicationParameters) :
    (notificationBlock opts e).size + packedLength cxx opts e ≤
      opts.maxApplicationParameters := by
  have hmappings : (packedMappings opts e).size ≤ opts.maxApplicationParameters :=
    packNewestFirst_size_le hlimit
  have hdata : (packedData cxx opts e).size ≤ opts.maxApplicationParameters :=
    packNewestFirst_size_le hmappings
  have hrepairs : (packedRepairs cxx opts e).size ≤ opts.maxApplicationParameters :=
    packNewestFirst_size_le hdata
  have hsizes : (packedRepairs cxx opts e).size = (packedData cxx opts e).size +
      ((packedRepairs cxx opts e).blocks.map Block.size).sum := packNewestFirst_size _ _
  have hsizes' : (packedData cxx opts e).size = (packedMappings opts e).size +
      ((packedData cxx opts e).blocks.map Block.size).sum := packNewestFirst_size _ _
  have hsizes'' : (packedMappings opts e).size = (notificationBlock opts e).size +
      ((packedMappings opts e).blocks.map Block.size).sum := packNewestFirst_size _ _
  have hblocks : (packedRepairs cxx opts e).blocks =
      (selectedRepairs cxx opts e).map repairWire := packQueue_blocks _ _
  have hblocks' : (packedData cxx opts e).blocks = (selectedData cxx opts e).map cxx.dataWire :=
    packQueue_blocks _ _
  have hblocks'' : (packedMappings opts e).blocks = (queuedMappings opts e).map mappingWire :=
    packQueue_blocks _ _
  rw [hblocks, sum_sizes] at hsizes
  rw [hblocks', sum_sizes] at hsizes'
  rw [hblocks'', sum_sizes] at hsizes''
  rw [packedLength, queuedElements, wires_append, List.length_append]
  omega

/-! ### The sizes of the blocks -/

theorem mappingElements_eq : mappingElements cxx opts e =
    ((includedMappings opts e.notificationMappingList).nodeId.block ::
      ((includedMappings opts e.notificationMappingList).pairs.map MappingEntry.block).reverse) ++
      queuedElements cxx opts e := rfl

theorem mappingElements_length : (wires (mappingElements cxx opts e)).length =
    (notificationBlock opts e).value.length + (wires (queuedElements cxx opts e)).length := by
  rw [mappingElements_eq, wires_append, List.length_append]
  rfl

/-- A block with more behind the notification is larger by that and by what its length field
grows. -/
theorem grown_size {b : Block} {more : Nat} (htype : b.type = tlv.mappingData)
    (hlength : b.value.length = (notificationBlock opts e).value.length + more) :
    b.size = (notificationBlock opts e).size + more +
      (lengthWidth ((notificationBlock opts e).value.length + more) -
        lengthWidth (notificationBlock opts e).value.length) := by
  have hmono := varNumber_length_mono
    (Nat.le_add_right (notificationBlock opts e).value.length more)
  have hnotification : (notificationBlock opts e).type = tlv.mappingData := rfl
  rw [Block.size_eq, Block.size_eq, htype, hnotification, hlength, lengthWidth, lengthWidth]
  omega

/-- A request that can be read back has a range. -/
theorem repairable_of_decoded {info : MissingDataInfo} {requests : List MissingDataInfo}
    (hinfo : info.Fits) (hfits : (repairWire info).Fits)
    (h : decodeRepairRequests (repairWire info) = .ok requests) : info.Repairable := by
  have hentry : (Block.ofElements tlv.repairEntry [info.nodeId.block,
      .ofNumber tlv.bootstrapTime info.bootstrapTime, .ofNumber tlv.seqNo info.low,
      .ofNumber tlv.seqNo info.high]).Fits :=
    Block.length_lt_of_ofElements List.mem_cons_self hfits
  have hparse := Block.Fits.parse hfits
  rw [decodeRepairRequests, repairWire, encodeRepairRequests, hparse, orMalformed_some, ok_bind,
    List.map_cons, List.mapM_cons,
    decodeRepairRequest_numbers hinfo.bootstrapTime hinfo.low hinfo.high hentry] at h
  obtain ⟨received, hreceived, -⟩ := bind_eq_ok.mp h
  obtain ⟨hrange, -⟩ := require_bind_eq_ok.mp hreceived
  exact ⟨hinfo.bootstrapTime, Nat.one_le_iff_ne_zero.mpr hrange.1, hrange.2, hinfo.high⟩

/-- Requests that leave the composite have ranges. -/
theorem repairable_of_split {infos : List MissingDataInfo}
    (hinfos : ∀ info ∈ infos, info.Fits ∧ (repairWire info).Fits)
    {state split : List Block × List MissingDataInfo}
    (h : (infos.map repairWire).foldlM splitElement state = .ok split) :
    ∀ info ∈ infos, info.Repairable := by
  induction infos generalizing state with
  | nil => exact fun info hinfo => absurd hinfo List.not_mem_nil
  | cons info infos ih =>
    rw [List.map_cons, List.foldlM_cons] at h
    obtain ⟨next, hnext, h⟩ := bind_eq_ok.mp h
    have htype : (repairWire info).type = tlv.repairData := rfl
    rw [splitElement, if_pos htype] at hnext
    obtain ⟨requests, hrequests, -⟩ := bind_eq_ok.mp hnext
    obtain ⟨hinfo, hfits⟩ := hinfos info List.mem_cons_self
    exact List.forall_mem_cons.mpr ⟨repairable_of_decoded hinfo hfits hrequests,
      ih (fun i hi => hinfos i (List.mem_cons_of_mem _ hi)) h⟩

/-- The size of the block of mappings as it leaves the packer. -/
theorem onGetExtraData_size : (onGetExtraData cxx opts e).1.size =
    (notificationBlock opts e).size + packedLength cxx opts e +
      (lengthWidth ((notificationBlock opts e).value.length + packedLength cxx opts e) -
        lengthWidth (notificationBlock opts e).value.length) := by
  refine grown_size rfl ?_
  have hvalue : (onGetExtraData cxx opts e).1.value = wires (compositeElements cxx opts e) := rfl
  rw [hvalue, compositeElements_eq, wires_append, List.length_append, mappingElements_length,
    packedLength]
  omega

/-- The blocks are given out when their repair requests can be read back. -/
theorem onGetExtraBlocks_eq_ok (hlimit : opts.maxApplicationParameters < 2 ^ 64)
    (hrequests : ∀ entry ∈ e.repairRequestQueue, entry.item.Fits) {blocks : List Block} :
    (onGetExtraBlocks cxx opts e).1 = .ok blocks ↔
      (∀ info ∈ selectedRepairs cxx opts e, info.Repairable) ∧
        blocks = .ofElements tlv.mappingData (mappingElements cxx opts e) ::
          repairBlocks cxx opts e := by
  have hinfos : ∀ info ∈ selectedRepairs cxx opts e, info.Fits ∧ (repairWire info).Fits := by
    intro info hinfo
    obtain ⟨entry, hentry, rfl⟩ := mem_of_selected hinfo
    exact ⟨hrequests entry hentry, Nat.lt_of_le_of_lt (Block.length_le_wire _)
      (Nat.lt_of_le_of_lt (selectNewestFirst_size_le hinfo) hlimit)⟩
  have hgiven (hrepairable : ∀ info ∈ selectedRepairs cxx opts e, info.Repairable) :
      (onGetExtraBlocks cxx opts e).1 = .ok (.ofElements tlv.mappingData
        (mappingElements cxx opts e) :: repairBlocks cxx opts e) :=
    onGetExtraBlocks_ok fun info hinfo => ⟨hrepairable info hinfo, (hinfos info hinfo).2⟩
  constructor
  · intro h
    have hrepairable : ∀ info ∈ selectedRepairs cxx opts e, info.Repairable := by
      rw [onGetExtraBlocks, compositeElements_eq, List.foldlM_append] at h
      obtain ⟨split, hsplit, -⟩ := bind_eq_ok.mp h
      obtain ⟨mappings, -, hrepairs⟩ := bind_eq_ok.mp hsplit
      exact repairable_of_split hinfos hrepairs
    exact ⟨hrepairable, Except.ok.inj (h.symm.trans (hgiven hrepairable))⟩
  · rintro ⟨hrepairable, rfl⟩
    exact hgiven hrepairable

/-- The limit on the application parameters is kept if and only if the length fields have room. -/
theorem byte_budget_iff (cxx : NdnCxx) (opts : ExtraDataOptions) (e : ExtraData)
    (hempty : ({ nodeId := e.notificationMappingList.nodeId } : MappingList).encode.size ≤
      opts.maxApplicationParametersSize)
    (hlimit : opts.maxApplicationParametersSize < 2 ^ 64)
    (hrequests : ∀ entry ∈ e.repairRequestQueue, entry.item.Fits) :
    KeepsBudget cxx opts e ↔ LengthsHaveRoom cxx opts e := by
  have hpositive : 1 ≤ opts.maxApplicationParametersSize :=
    Nat.le_trans (Block.wire_pos _) hempty
  have hmax : opts.maxApplicationParameters = opts.maxApplicationParametersSize :=
    Nat.max_eq_right hpositive
  rw [← hmax] at hempty hlimit
  have hpacked := @packed_le cxx opts e (notificationBlock_size_le hempty)
  have hcomposite := @onGetExtraData_size cxx opts e
  have hmappings := @grown_size opts e (.ofElements tlv.mappingData (mappingElements cxx opts e))
    (wires (queuedElements cxx opts e)).length rfl mappingElements_length
  have hsum : ((Block.ofElements tlv.mappingData (mappingElements cxx opts e) ::
      repairBlocks cxx opts e).map Block.size).sum =
      (Block.ofElements tlv.mappingData (mappingElements cxx opts e)).size +
        (wires (repairBlocks cxx opts e)).length := by
    rw [List.map_cons, List.sum_cons, sum_sizes]
  have hqueued : (wires (queuedElements cxx opts e)).length ≤ packedLength cxx opts e :=
    Nat.le_add_right _ _
  rw [hmax] at hpacked
  constructor
  · rintro ⟨hkept, hblocks⟩
    refine ⟨by omega, fun hrepairable => ?_⟩
    have hkept' := hblocks _ ((onGetExtraBlocks_eq_ok hlimit hrequests).mpr ⟨hrepairable, rfl⟩)
    omega
  · rintro ⟨hroom, hrooms⟩
    refine ⟨by omega, fun blocks h => ?_⟩
    obtain ⟨hrepairable, rfl⟩ := (onGetExtraBlocks_eq_ok hlimit hrequests).mp h
    have hroom' := hrooms hrepairable
    omega

theorem byte_budget_queues : KeepsBudget packetFormat {} sampleQueues := by
  refine (byte_budget_iff packetFormat {} sampleQueues (by decide +kernel) (by decide)
    fun entry hentry => ?_).mpr ⟨by decide +kernel, fun _ => by decide +kernel⟩
  obtain rfl := List.mem_singleton.mp hentry
  exact ⟨by decide, by decide, by decide⟩

/-- A packet of 257 bytes waits to be sent, with nothing else. -/
def oneWaiting : ExtraData where
  piggyDataQueue :=
    [{ item := { name := [], content := List.replicate 240 0, signatureValue := some [] } }]

/-- The empty list takes 4 bytes and the packet 257, but with both the length field of the block
takes 3 bytes in place of 1. -/
theorem limit_exceeded :
    ({ nodeId := oneWaiting.notificationMappingList.nodeId } : MappingList).encode.size ≤ 261 ∧
      (onGetExtraData packetFormat { maxApplicationParametersSize := 261 } oneWaiting).1.size =
        263 ∧
      ¬KeepsBudget packetFormat { maxApplicationParametersSize := 261 } oneWaiting := by
  have hsize : (onGetExtraData packetFormat { maxApplicationParametersSize := 261 }
      oneWaiting).1.size = 263 := by decide +kernel
  refine ⟨by decide +kernel, hsize, fun h => ?_⟩
  have hkept := h.1
  rw [hsize] at hkept
  exact absurd hkept (by decide)

end Budget

end ExtraData

end NdnSvs
