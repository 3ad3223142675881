import NdnSvs.Core

/-! The mappings, packets and repair requests that ride on Sync Interests.  They wait in queues, the
newest is packed first, and each is repeated a number of times or given up when it has not fitted
for a number of rounds. -/

namespace NdnSvs

open Lib Lib.Tlv

structure MappingEntryPair where
  name : Name
  additional : List Block := []
deriving DecidableEq

structure MappingEntry where
  bootstrapTime : BootstrapTime := 0
  seqNo : SeqNo := 0
  mapping : MappingEntryPair
deriving DecidableEq

structure MappingList where
  nodeId : NodeID := []
  pairs : List MappingEntry := []
deriving DecidableEq

/-- The additional blocks are prepended one after the other, so they come out in reverse. -/
def MappingEntry.block (entry : MappingEntry) : Block :=
  .ofElements tlv.mappingEntry
    ([.ofElements tlv.seqNoEntry [.ofNumber tlv.bootstrapTime entry.bootstrapTime,
        .ofNumber tlv.seqNo entry.seqNo], entry.mapping.name.block] ++
      entry.mapping.additional.reverse)

/-- The entries are prepended as well. -/
def MappingList.encode (list : MappingList) : Block :=
  .ofElements tlv.mappingData (list.nodeId.block :: (list.pairs.map MappingEntry.block).reverse)

def encodeRepairRequests (requests : List MissingDataInfo) : Block :=
  .ofElements tlv.repairData (requests.map fun info => .ofElements tlv.repairEntry
    [info.nodeId.block, .ofNumber tlv.bootstrapTime info.bootstrapTime,
      .ofNumber tlv.seqNo info.low,
      .ofNumber tlv.seqNo info.high])

/-- An item that waits to be sent: how often it has been sent, and how often it has not fitted. -/
structure QueueEntry (α : Type) where
  item : α
  sent : Nat := 0
  missed : Nat := 0
deriving DecidableEq

abbrev PiggyDataEntry := QueueEntry Data
abbrev PiggyMappingEntry := QueueEntry (NodeID × MappingEntry)
abbrev RepairRequestEntry := QueueEntry MissingDataInfo

/-- The options of the queues. -/
structure ExtraDataOptions where
  maxApplicationParametersSize : Nat := 4096
  maxPiggyDataSize : Nat := 800
  piggybackRepeatCount : Nat := 3
  piggybackMissLimit : Nat := 3
  repairRequestRepeatCount : Nat := 3

namespace ExtraDataOptions

def maxApplicationParameters (opts : ExtraDataOptions) : Nat :=
  max 1 opts.maxApplicationParametersSize

def maxPiggyData (opts : ExtraDataOptions) : Nat := max 1 opts.maxPiggyDataSize

end ExtraDataOptions

structure ExtraData where
  notificationMappingList : MappingList := {}
  piggyMappingQueue : List PiggyMappingEntry := []
  piggyDataQueue : List PiggyDataEntry := []
  repairRequestQueue : List RepairRequestEntry := []
deriving DecidableEq

/-! ### Packing a queue -/

section Pack

variable {α : Type} (wire : α → Block) (limit repeatCount missLimit : Nat)

/-- The blocks that fit, the size after them, and what stays in the queue. -/
structure Packed (α : Type) where
  blocks : List Block := []
  size : Nat
  retained : List (QueueEntry α) := []

/-- A pass over a queue whose newest entry comes first, with the size so far.  What is retained is
in the order of the queue, the newest last. -/
def packNewestFirst : List (QueueEntry α) → Nat → Packed α
  | [], size => { size }
  | entry :: older, size =>
    let block := wire entry.item
    if limit < size + block.size then
      let packed := packNewestFirst older size
      if entry.missed + 1 < missLimit then
        { packed with
          retained := packed.retained ++ [{ entry with missed := entry.missed + 1 }] }
      else packed
    else
      let packed := packNewestFirst older (size + block.size)
      { packed with
        blocks := block :: packed.blocks
        retained := if entry.sent + 1 < repeatCount then
          packed.retained ++ [{ entry with sent := entry.sent + 1 }] else packed.retained }

def packQueue (queue : List (QueueEntry α)) (size : Nat) : Packed α :=
  packNewestFirst wire limit repeatCount missLimit queue.reverse size

variable {wire limit repeatCount missLimit}

theorem packNewestFirst_size_le {queue : List (QueueEntry α)} {size : Nat} (h : size ≤ limit) :
    (packNewestFirst wire limit repeatCount missLimit queue size).size ≤ limit := by
  induction queue generalizing size with
  | nil => exact h
  | cons entry older ih =>
    simp only [packNewestFirst]
    split
    · split
      · exact ih h
      · exact ih h
    · rename_i hfits
      exact ih (Nat.le_of_not_lt hfits)

/-- The size grows by that of the blocks. -/
theorem packNewestFirst_size (queue : List (QueueEntry α)) (size : Nat) :
    (packNewestFirst wire limit repeatCount missLimit queue size).size = size +
      ((packNewestFirst wire limit repeatCount missLimit queue size).blocks.map
        Block.size).sum := by
  induction queue generalizing size with
  | nil => simp [packNewestFirst]
  | cons entry older ih =>
    simp only [packNewestFirst]
    split
    · split
      · exact ih size
      · exact ih size
    · rw [ih]
      simp only [List.map_cons, List.sum_cons]
      omega

theorem packNewestFirst_retained (queue : List (QueueEntry α)) (size : Nat) :
    ((packNewestFirst wire limit repeatCount missLimit queue size).retained.map
      QueueEntry.item).Sublist (queue.reverse.map QueueEntry.item) := by
  induction queue generalizing size with
  | nil => simp [packNewestFirst]
  | cons entry older ih =>
    simp only [packNewestFirst, List.reverse_cons, List.map_append, List.map_cons, List.map_nil]
    split
    · split
      · simp only [List.map_append, List.map_cons, List.map_nil]
        exact (ih size).append_right _
      · exact (ih size).trans (List.sublist_append_left _ _)
    · split
      · simp only [List.map_append, List.map_cons, List.map_nil]
        exact (ih _).append_right _
      · exact (ih _).trans (List.sublist_append_left _ _)

variable (wire limit repeatCount missLimit) in
/-- What stays in a queue keeps its order. -/
theorem packQueue_retained (queue : List (QueueEntry α)) (size : Nat) :
    ((packQueue wire limit repeatCount missLimit queue size).retained.map QueueEntry.item).Sublist
      (queue.map QueueEntry.item) := by
  have hretained := @packNewestFirst_retained α wire limit repeatCount missLimit queue.reverse size
  rw [List.reverse_reverse] at hretained
  exact hretained

end Pack

namespace ExtraData

/-- A mapping is put in line for the next Sync Interests. -/
def pushMapping (e : ExtraData) (nid : NodeID) (entry : MappingEntry) : ExtraData :=
  { e with
    notificationMappingList :=
      if e.notificationMappingList.nodeId = [] ∨ e.notificationMappingList.nodeId = nid then
        { nodeId := nid, pairs := e.notificationMappingList.pairs ++ [entry] }
      else e.notificationMappingList
    piggyMappingQueue := e.piggyMappingQueue ++ [{ item := (nid, entry) }] }

def pushData (e : ExtraData) (data : Data) : ExtraData :=
  { e with piggyDataQueue := e.piggyDataQueue ++ [{ item := data }] }

/-- The mappings of the notification that fit, each tried after those before it. -/
def includedMappings (opts : ExtraDataOptions) (notification : MappingList) : MappingList :=
  if notification.nodeId = [] then { nodeId := notification.nodeId }
  else
    notification.pairs.foldl (fun included entry =>
        let candidate := { included with pairs := included.pairs ++ [entry] }
        if candidate.encode.size ≤ opts.maxApplicationParameters then candidate else included)
      { nodeId := notification.nodeId }

/-- The block for the next Sync Interest, and the queues after it.  The packets in the queue have
been signed. -/
def onGetExtraData (cxx : NdnCxx) (opts : ExtraDataOptions) (e : ExtraData) : Block × ExtraData :=
  let limit := opts.maxApplicationParameters
  let included := includedMappings opts e.notificationMappingList
  let mappings := packQueue
    (fun (nid, entry) => ({ nodeId := nid, pairs := [entry] } : MappingList).encode) limit
    opts.piggybackRepeatCount opts.piggybackMissLimit e.piggyMappingQueue included.encode.size
  let data := packQueue cxx.dataWire limit opts.piggybackRepeatCount opts.piggybackMissLimit
    e.piggyDataQueue mappings.size
  let repairs := packQueue (fun info => encodeRepairRequests [info]) limit
    opts.repairRequestRepeatCount opts.piggybackMissLimit e.repairRequestQueue data.size
  (.ofElements tlv.mappingData ((included.nodeId.block ::
      (included.pairs.map MappingEntry.block).reverse) ++ mappings.blocks ++ data.blocks ++
      repairs.blocks),
    { notificationMappingList := {}
      piggyMappingQueue := mappings.retained
      piggyDataQueue := data.retained
      repairRequestQueue := repairs.retained })

/-- A round puts nothing into the queues, and what it leaves in them keeps its order. -/
theorem onGetExtraData_retained (cxx : NdnCxx) (opts : ExtraDataOptions) (e : ExtraData) :
    let e' := (onGetExtraData cxx opts e).2
    (e'.piggyMappingQueue.map QueueEntry.item).Sublist (e.piggyMappingQueue.map QueueEntry.item) ∧
      (e'.piggyDataQueue.map QueueEntry.item).Sublist (e.piggyDataQueue.map QueueEntry.item) ∧
      (e'.repairRequestQueue.map QueueEntry.item).Sublist
        (e.repairRequestQueue.map QueueEntry.item) :=
  ⟨packQueue_retained _ _ _ _ _ _, packQueue_retained _ _ _ _ _ _, packQueue_retained _ _ _ _ _ _⟩

end ExtraData

end NdnSvs
