import NdnSvs.ExtraBlocks
import NdnSvs.Publish

/-! Mapping queries and mapping lists in the two versions of the protocol: the names of queries, how
a provider answers them, and which version reads what the other wrote. -/

namespace NdnSvs

open Lib Lib.Tlv

namespace Component

/-- A component that carries a plain number. -/
def fromNumber (n : Nat) : Component := generic (nonNegativeInteger n)

def isNumber (c : Component) : Bool := (readNonNegativeInteger c.value).isSome

def isSequenceNumber (c : Component) : Bool :=
  c.type = tlv.sequenceNumNameComponent && c.isNumber

/-- The seconds since the epoch of a time point, an unsigned 64-bit number. -/
def secondsOfTimePoint (timePoint : Int) : Nat :=
  (timePoint.tdiv 1000000000 % 18446744073709551616).toNat

theorem secondsOfTimePoint_lt (timePoint : Int) : secondsOfTimePoint timePoint < 2 ^ 64 := by
  unfold secondsOfTimePoint
  omega

end Component

/-! ### Lists -/

section Versions

def MappingEntry.blockFor (version : SvsProtocolVersion) (entry : MappingEntry) : Block :=
  match version with
  | .v2 =>
    .ofElements tlv.mappingEntry
      ([.ofNumber tlv.seqNo entry.seqNo, entry.mapping.name.block] ++
        entry.mapping.additional.reverse)
  | .v3 => entry.block

def MappingList.encodeFor (version : SvsProtocolVersion) (list : MappingList) : Block :=
  .ofElements tlv.mappingData
    (list.nodeId.block :: (list.pairs.map (MappingEntry.blockFor version)).reverse)

def MappingEntry.decodeFor (version : SvsProtocolVersion) (b : Block) : Result MappingEntry :=
  match version with
  | .v2 => do
    let elements ← orMalformed b.parse
    let seqNo ← elementAt elements 0
    require (seqNo.type = tlv.seqNo) (.unexpectedType "V2 Mapping SeqNo" seqNo.type)
    let seqNo ← readNumber seqNo
    let name ← readName (← elementAt elements 1)
    .ok { seqNo, mapping := { name, additional := elements.drop 2 } }
  | .v3 => MappingEntry.decode b

def MappingList.decodeElementFor (version : SvsProtocolVersion) (list : MappingList) (b : Block) :
    Result MappingList := do
  if b.type = tlv.name then .ok { list with nodeId := ← readName b }
  else if b.type = tlv.mappingEntry then
    .ok { list with pairs := list.pairs ++ [← MappingEntry.decodeFor version b] }
  else .ok list

def MappingList.decodeFor (version : SvsProtocolVersion) (b : Block) : Result MappingList := do
  (← orMalformed b.parse).foldlM (MappingList.decodeElementFor version) {}

theorem MappingList.encodeFor_v3 (list : MappingList) : list.encodeFor .v3 = list.encode := rfl

theorem MappingList.decodeFor_v3 (b : Block) : MappingList.decodeFor .v3 b = MappingList.decode b :=
  rfl

end Versions

/-- The block reads, in the version, as a list with the node, the numbers and the names of the
list. -/
def ReadsAs (version : SvsProtocolVersion) (b : Block) (list : MappingList) : Prop :=
  ∃ read, MappingList.decodeFor version b = .ok read ∧ read.nodeId = list.nodeId ∧
    (read.pairs.map fun entry => (entry.seqNo, entry.mapping.name)).Perm
      (list.pairs.map fun entry => (entry.seqNo, entry.mapping.name))

/-- A decoder of the legacy version stops at the first entry that begins with an epoch. -/
theorem MappingEntry.decodeFor_v2_block {entry : MappingEntry} (hfits : entry.block.Fits) :
    MappingEntry.decodeFor .v2 entry.block =
      .error (.unexpectedType "V2 Mapping SeqNo" tlv.seqNoEntry) := by
  obtain ⟨bootstrapTime, seqNo, name, additional⟩ := entry
  have hparse : (MappingEntry.block ⟨bootstrapTime, seqNo, name, additional⟩).parse = some _ :=
    Block.Fits.parse hfits
  simp only [MappingEntry.decodeFor, hparse, orMalformed_some, ok_bind, elementAt,
    List.cons_append, List.nil_append, List.getElem?_cons_zero]
  rfl

theorem MappingEntry.decodeFor_v2_blockFor {entry : MappingEntry} (hseq : entry.seqNo < 2 ^ 64)
    (hfits : (entry.blockFor .v2).Fits) :
    MappingEntry.decodeFor .v2 (entry.blockFor .v2) =
      .ok { entry.received with bootstrapTime := 0 } := by
  obtain ⟨bootstrapTime, seqNo, name, additional⟩ := entry
  have hname : name.block.value.length < 2 ^ 64 := Block.length_lt_of_ofElements (by simp) hfits
  have hnumber := @Block.number_ofNumber tlv.seqNo _ hseq
  have hparse :
      (MappingEntry.blockFor .v2 ⟨bootstrapTime, seqNo, name, additional⟩).parse = some _ :=
    Block.Fits.parse hfits
  simp only [MappingEntry.decodeFor, hparse, orMalformed_some, ok_bind, elementAt,
    List.cons_append, List.nil_append, List.getElem?_cons_zero, List.getElem?_cons_succ,
    Block.ofNumber_type, require_true, readNumber, hnumber, readName, Name.ofBlock_block hname]
  rfl

theorem foldlM_decodeElementFor_v2 {entries : List MappingEntry}
    (hfits : ∀ entry ∈ entries, entry.seqNo < 2 ^ 64 ∧ (entry.blockFor .v2).Fits)
    (list : MappingList) :
    (entries.map (MappingEntry.blockFor .v2)).foldlM (MappingList.decodeElementFor .v2) list =
      .ok { list with
        pairs := list.pairs ++ entries.map fun entry =>
          { entry.received with bootstrapTime := 0 } } := by
  induction entries generalizing list with
  | nil =>
    rw [List.map_nil, List.map_nil, List.append_nil]
    rfl
  | cons entry entries ih =>
    obtain ⟨hseq, hblock⟩ := hfits entry List.mem_cons_self
    have hstep : list.decodeElementFor .v2 (entry.blockFor .v2) =
        .ok { list with pairs := list.pairs ++ [{ entry.received with bootstrapTime := 0 }] } := by
      have htype : (entry.blockFor .v2).type = tlv.mappingEntry := rfl
      rw [MappingList.decodeElementFor, htype, if_neg (by decide), if_pos rfl,
        MappingEntry.decodeFor_v2_blockFor hseq hblock]
      rfl
    rw [List.map_cons, List.foldlM_cons, hstep, ok_bind,
      ih fun e he => hfits e (List.mem_cons_of_mem _ he)]
    simp

/-- A block of either version, with other elements behind its entries, is read in the legacy version
exactly when it was written in it, or has no entry. -/
theorem readsAs_v2_iff {version : SvsProtocolVersion} {list : MappingList} {others : List Block}
    (hseq : ∀ entry ∈ list.pairs, entry.seqNo < 2 ^ 64)
    (hothers : ∀ b ∈ others, b.type ≠ tlv.name ∧ b.type ≠ tlv.mappingEntry)
    (hfits : (Block.ofElements tlv.mappingData (list.nodeId.block ::
      (list.pairs.map (MappingEntry.blockFor version)).reverse ++ others)).Fits) :
    ReadsAs .v2 (.ofElements tlv.mappingData (list.nodeId.block ::
      (list.pairs.map (MappingEntry.blockFor version)).reverse ++ others)) list ↔
      version = .v2 ∨ list.pairs = [] := by
  have hname : list.nodeId.block.value.length < 2 ^ 64 :=
    Block.length_lt_of_ofElements (by simp) hfits
  have hblocks : ∀ entry ∈ list.pairs.reverse, (entry.blockFor version).Fits := by
    intro entry hentry
    rw [List.mem_reverse] at hentry
    refine Block.length_lt_of_ofElements ?_ hfits
    have := List.mem_map_of_mem (f := MappingEntry.blockFor version) hentry
    simp only [List.mem_append, List.mem_cons, List.mem_reverse]
    exact .inl (.inr this)
  have hfirst : MappingList.decodeElementFor .v2 {} list.nodeId.block =
      .ok { nodeId := list.nodeId } := by
    have htype : list.nodeId.block.type = tlv.name := rfl
    rw [MappingList.decodeElementFor, if_pos htype, readName, Name.ofBlock_block hname]
    rfl
  have hrest : ∀ l : MappingList, others.foldlM (MappingList.decodeElementFor .v2) l = .ok l := by
    intro l
    have hstep : ∀ l : MappingList, ∀ b ∈ others, l.decodeElementFor .v2 b = .ok l := by
      intro l b hb
      rw [MappingList.decodeElementFor, if_neg (hothers b hb).1, if_neg (hothers b hb).2]
    rw [foldlM_ok hstep]
    exact congrArg Except.ok (List.foldl_fixed' (fun _ => rfl) others)
  have hdecode : MappingList.decodeFor .v2 (.ofElements tlv.mappingData (list.nodeId.block ::
      (list.pairs.map (MappingEntry.blockFor version)).reverse ++ others)) =
      ((list.pairs.reverse.map (MappingEntry.blockFor version)).foldlM
        (MappingList.decodeElementFor .v2) { nodeId := list.nodeId }) := by
    rw [MappingList.decodeFor, hfits.parse, orMalformed_some, ok_bind, List.cons_append,
      List.foldlM_cons, hfirst, ok_bind, List.foldlM_append, ← List.map_reverse]
    cases h : (list.pairs.reverse.map (MappingEntry.blockFor version)).foldlM
      (MappingList.decodeElementFor .v2) { nodeId := list.nodeId } with
    | error e => rfl
    | ok l => exact hrest l
  unfold ReadsAs
  rw [hdecode]
  cases version with
  | v2 =>
    refine iff_of_true ?_ (.inl rfl)
    rw [foldlM_decodeElementFor_v2 fun entry hentry =>
      ⟨hseq entry (List.mem_reverse.mp hentry), hblocks entry hentry⟩]
    refine ⟨_, rfl, rfl, ?_⟩
    simp only [List.nil_append, List.map_map, List.map_reverse]
    exact List.reverse_perm _
  | v3 =>
    cases hpairs : list.pairs.reverse with
    | nil =>
      have hnil := List.reverse_eq_nil_iff.mp hpairs
      exact iff_of_true ⟨_, rfl, rfl, by simp [hnil]⟩ (.inr hnil)
    | cons entry entries =>
      have hne : list.pairs ≠ [] := by
        intro hnil
        rw [hnil] at hpairs
        cases hpairs
      refine iff_of_false ?_ (by simp [hne])
      have hstep : MappingList.decodeElementFor .v2 { nodeId := list.nodeId } (entry.blockFor .v3) =
          .error (.unexpectedType "V2 Mapping SeqNo" tlv.seqNoEntry) := by
        have htype : (entry.blockFor .v3).type = tlv.mappingEntry := rfl
        rw [MappingList.decodeElementFor, htype, if_neg (by decide), if_pos rfl]
        have herror := @MappingEntry.decodeFor_v2_block entry
          (hblocks entry (hpairs ▸ List.mem_cons_self))
        rw [show entry.blockFor .v3 = entry.block from rfl, herror]
        rfl
      rw [List.map_cons, List.foldlM_cons, hstep]
      rintro ⟨read, hread, -⟩
      cases hread

/-! ### Queries -/

structure MappingProvider where
  syncPrefix : Name
  id : NodeID
  protocolVersion : SvsProtocolVersion := .v3
deriving DecidableEq

/-- The provider that the constructor of the pub/sub layer makes.  The version of its options goes
to the core, and not to the provider. -/
def PubSubConfig.mappingProvider (cfg : PubSubConfig) : MappingProvider where
  syncPrefix := cfg.core.syncPrefix
  id := cfg.core.id

namespace MappingProvider

variable (provider : MappingProvider)

def getMappingQueryDataName (info : MissingDataInfo) : Name :=
  let name := info.nodeId ++ provider.syncPrefix
  match provider.protocolVersion with
  | .v2 => name ++ [.ofString "MAPPING", .fromNumber info.low, .fromNumber info.high]
  | .v3 => name ++ [.fromTimestamp (Component.timePointOfSeconds info.bootstrapTime),
      .ofString "MAPPING", .fromSequenceNumber info.low, .fromSequenceNumber info.high]

/-- The query that a name asks. -/
def parseMappingQueryDataName (name : Name) : Result MissingDataInfo :=
  let expectedPrefix := provider.id ++ provider.syncPrefix
  match provider.protocolVersion with
  | .v2 =>
    match name.drop expectedPrefix.length with
    | [marker, low, high] => do
      require (name.take expectedPrefix.length = expectedPrefix ∧ marker = .ofString "MAPPING")
        (.invalidArgument "invalid SVS V2 Mapping query name")
      require low.isNumber (.tlv "Name component does not have NonNegativeInteger value")
      require high.isNumber (.tlv "Name component does not have NonNegativeInteger value")
      .ok { nodeId := name.dropLast (3 + provider.syncPrefix.length), low := low.number,
            high := high.number, bootstrapTime := 0 }
    | _ => .error (.invalidArgument "invalid SVS V2 Mapping query name")
  | .v3 =>
    match name.drop expectedPrefix.length with
    | [bootstrapTime, marker, low, high] => do
      require (name.take expectedPrefix.length = expectedPrefix ∧ marker = .ofString "MAPPING" ∧
        bootstrapTime.isTimestamp ∧ low.isSequenceNumber ∧ high.isSequenceNumber)
        (.invalidArgument "invalid SVS-PS V3 Mapping query name")
      .ok { nodeId := name.dropLast (4 + provider.syncPrefix.length), low := low.number,
            high := high.number,
            bootstrapTime := Component.secondsOfTimePoint bootstrapTime.toTimestamp }
    | _ => .error (.invalidArgument "invalid SVS-PS V3 Mapping query name")

variable (mappings : Map Name MappingEntryPair)

/-- The known mappings of a query. -/
def queryResponse (query : MissingDataInfo) : MappingList :=
  let numbers := List.range' query.low (max query.high query.low + 1 - query.low)
  { nodeId := query.nodeId
    pairs := numbers.filterMap fun seqNo =>
      (mappings[makeMappingKey query.nodeId query.bootstrapTime seqNo]?).map fun mapping =>
        { bootstrapTime := query.bootstrapTime, seqNo, mapping } }

/-- The content of the reply to an Interest, when there is one.  The loop over the numbers does not
end when the last one is the largest of 64 bits. -/
def onMappingQuery (name : Name) : Option Block :=
  match provider.parseMappingQueryDataName name with
  | .error _ => none
  | .ok query =>
    if 2 ^ 64 ≤ max query.high query.low + 1 then none
    else
      let response := queryResponse mappings query
      if response.pairs = [] then none else some (response.encodeFor provider.protocolVersion)

end MappingProvider

/-- A provider reads the name of a query with the bounds that were asked. -/
def MappingProvider.Understands (peer provider : MappingProvider) (info : MissingDataInfo) : Prop :=
  ∃ query, peer.parseMappingQueryDataName (provider.getMappingQueryDataName info) = .ok query ∧
    query.low = info.low ∧ query.high = info.high

theorem isNumber_fromNumber {n : Nat} (h : n < 2 ^ 64) :
    (Component.fromNumber n).isNumber = true ∧ (Component.fromNumber n).number = n := by
  have hread := readNonNegativeInteger_write h
  constructor
  · rw [Component.isNumber, Component.fromNumber, Component.generic, hread]
    rfl
  · rw [Component.number, Component.fromNumber, Component.generic, hread]
    rfl

/-- The provider of the node that a query asks reads it in the legacy version exactly when it was
written in it. -/
theorem understands_v2_iff {peer provider : MappingProvider} {info : MissingDataInfo}
    (hpeer : peer.protocolVersion = .v2) (hid : peer.id = info.nodeId)
    (hsync : peer.syncPrefix = provider.syncPrefix) (hlow : info.low < 2 ^ 64)
    (hhigh : info.high < 2 ^ 64) :
    peer.Understands provider info ↔ provider.protocolVersion = .v2 := by
  unfold MappingProvider.Understands MappingProvider.parseMappingQueryDataName
    MappingProvider.getMappingQueryDataName
  rw [hpeer, hid, hsync]
  cases provider.protocolVersion with
  | v2 =>
    refine iff_of_true ?_ rfl
    simp only [List.drop_left, List.take_left, isNumber_fromNumber hlow, isNumber_fromNumber hhigh,
      and_self, require_true, ok_bind]
    exact ⟨_, rfl, rfl, rfl⟩
  | v3 =>
    refine iff_of_false ?_ (by decide)
    simp only [List.drop_left]
    rintro ⟨query, hquery, -⟩
    cases hquery

/-! ### The legacy version on the wire -/

namespace ExtraData

section Legacy

variable (cxx : NdnCxx) (opts : ExtraDataOptions) (e : ExtraData)

/-- The mapping lists that are sent with the next Sync Interest: that of the notification, and one
for each mapping of the queue. -/
def sentLists : List MappingList :=
  let included := includedMappings opts e.notificationMappingList
  included :: (selectQueue mappingWire opts.maxApplicationParameters e.piggyMappingQueue
    included.encode.size).map fun mapping => { nodeId := mapping.1, pairs := [mapping.2] }

/-- The blocks of mappings in extension blocks, at the top and nested. -/
def mappingBlocks (blocks : List Block) : List Block :=
  (blocks.filter fun b => b.type = tlv.mappingData).flatMap fun b =>
    b :: (childrenOf b).filter fun child => child.type = tlv.mappingData

/-- No mapping of the notification fits the limit by itself, and none of the queue behind it. -/
def NothingFits : Prop :=
  let notification := e.notificationMappingList
  (notification.nodeId = [] ∨ ∀ entry ∈ notification.pairs, opts.maxApplicationParameters <
    ({ nodeId := notification.nodeId, pairs := [entry] } : MappingList).encode.size) ∧
  ∀ entry ∈ e.piggyMappingQueue, opts.maxApplicationParameters <
    ({ nodeId := notification.nodeId } : MappingList).encode.size + (mappingWire entry.item).size

variable {cxx opts e}

theorem selectQueue_eq_nil {α : Type} {wire : α → Block} {limit size : Nat}
    {queue : List (QueueEntry α)} :
    selectQueue wire limit queue size = [] ↔
      ∀ entry ∈ queue, limit < size + (wire entry.item).size := by
  have hnewest : ∀ queue : List (QueueEntry α), selectNewestFirst wire limit queue size = [] ↔
      ∀ entry ∈ queue, limit < size + (wire entry.item).size := by
    intro queue
    induction queue with
    | nil => simp [selectNewestFirst]
    | cons entry older ih =>
      simp only [selectNewestFirst, List.forall_mem_cons]
      split
      · rename_i hlarge
        rw [ih, and_iff_right hlarge]
      · rename_i hfits
        exact iff_of_false (List.cons_ne_nil _ _) fun h => hfits h.1
  rw [selectQueue, hnewest]
  simp only [List.mem_reverse]

theorem includedMappings_eq_nil (notification : MappingList) :
    (includedMappings opts notification).pairs = [] ↔ notification.nodeId = [] ∨
      ∀ entry ∈ notification.pairs, opts.maxApplicationParameters <
        ({ nodeId := notification.nodeId, pairs := [entry] } : MappingList).encode.size := by
  unfold includedMappings
  split
  · rename_i hnode
    exact iff_of_true rfl (.inl hnode)
  · rename_i hnode
    rw [or_iff_right hnode]
    induction notification.pairs with
    | nil => simp
    | cons entry pairs ih =>
      rw [List.foldl_cons, List.forall_mem_cons, List.nil_append]
      dsimp only at ih ⊢
      split
      · rename_i hfits
        refine iff_of_false ?_ fun h => absurd hfits (Nat.not_le_of_lt h.1)
        -- What is included stays included.
        refine List.foldlRecOn (motive := fun included : MappingList => included.pairs ≠ []) _ _
          (List.cons_ne_nil _ _) fun included h entry _ => ?_
        split
        · simp
        · exact h
      · rename_i hlarge
        rw [and_iff_right (Nat.lt_of_not_le hlarge)]
        exact ih

theorem nothingFits_iff : NothingFits opts e ↔
    (includedMappings opts e.notificationMappingList).pairs = [] ∧
      selectQueue mappingWire opts.maxApplicationParameters e.piggyMappingQueue
        (includedMappings opts e.notificationMappingList).encode.size = [] := by
  rw [NothingFits, ← includedMappings_eq_nil, selectQueue_eq_nil]
  refine and_congr_right fun hnil => ?_
  have hincluded : includedMappings opts e.notificationMappingList =
      { nodeId := e.notificationMappingList.nodeId } := by
    rw [← includedMappings_nodeId opts e.notificationMappingList, ← hnil]
  rw [hincluded]

theorem mappingBlocks_eq
    (hfits : (Block.ofElements tlv.mappingData (compositeElements cxx opts e)).Fits)
    {blocks : List Block} (h : e.Writable)
    (hblocks : (onGetExtraBlocks cxx opts e).1 = .ok blocks) :
    mappingBlocks blocks = .ofElements tlv.mappingData (mappingElements cxx opts e) ::
      (selectQueue mappingWire opts.maxApplicationParameters e.piggyMappingQueue
        (includedMappings opts e.notificationMappingList).encode.size).map mappingWire := by
  rw [onGetExtraBlocks_ok fun info hinfo =>
    ⟨h.selectedRepairs info hinfo, repairWire_fits hfits hinfo⟩] at hblocks
  obtain rfl := Except.ok.inj hblocks
  have hrepairs : ((if selectedRepairs cxx opts e = [] then [] else [encodeRepairRequests
      ((selectedRepairs cxx opts e).map MissingDataInfo.received)]).filter
        fun b => b.type = tlv.mappingData) = [] := by
    rw [List.filter_eq_nil_iff]
    intro b hb
    split at hb
    · cases hb
    · obtain rfl := List.mem_singleton.mp hb
      exact (by decide : ¬decide (tlv.repairData = tlv.mappingData) = true)
  rw [mappingBlocks, List.filter_cons_of_pos (by simp), hrepairs, List.flatMap_cons,
    List.flatMap_nil, List.append_nil, childrenOf_mappings hfits, filter_mappingData]

/-- The lists of a Sync Interest are read in the legacy version exactly when it carries no mapping,
since nothing fits. -/
theorem sync_lists_v2_iff (h : e.Writable)
    (hfits : (Block.ofElements tlv.mappingData (compositeElements cxx opts e)).Fits)
    {blocks : List Block} (hblocks : (onGetExtraBlocks cxx opts e).1 = .ok blocks) :
    List.Forall₂ (ReadsAs .v2) (mappingBlocks blocks) (sentLists opts e) ↔ NothingFits opts e := by
  have hothers : ∀ b ∈ (selectQueue mappingWire opts.maxApplicationParameters e.piggyMappingQueue
      (includedMappings opts e.notificationMappingList).encode.size).map mappingWire ++
        (selectedData cxx opts e).map cxx.dataWire, b.type ≠ tlv.name ∧
          b.type ≠ tlv.mappingEntry := by
    intro b hb
    simp only [List.mem_append, List.mem_map] at hb
    rcases hb with ⟨mapping, -, rfl⟩ | ⟨data, -, rfl⟩
    · exact (by decide : tlv.mappingData ≠ tlv.name ∧ tlv.mappingData ≠ tlv.mappingEntry)
    · rw [cxx.dataWire_type]
      decide
  have htop := @readsAs_v2_iff .v3 (includedMappings opts e.notificationMappingList) _
    (fun entry hentry => (h.notification entry (includedMappings_subset _ _ hentry)).seqNo) hothers
    (mappingElements_fits hfits)
  have hnested : ∀ mapping ∈ selectQueue mappingWire opts.maxApplicationParameters
      e.piggyMappingQueue (includedMappings opts e.notificationMappingList).encode.size,
      ¬ReadsAs .v2 (mappingWire mapping) { nodeId := mapping.1, pairs := [mapping.2] } := by
    intro mapping hmapping hreads
    obtain ⟨entry, hentry, rfl⟩ := mem_of_selected hmapping
    have hread := (@readsAs_v2_iff .v3 { nodeId := entry.item.1, pairs := [entry.item.2] } []
      (fun e he => List.mem_singleton.mp he ▸ (h.mappings entry hentry).seqNo) (by simp)
      (mappingWire_fits hfits hmapping)).mp hreads
    rcases hread with hread | hread
    · cases hread
    · cases hread
  rw [mappingBlocks_eq hfits h hblocks, sentLists, List.forall₂_cons, nothingFits_iff]
  refine and_congr (htop.trans (or_iff_right (by decide))) ?_
  rw [List.forall₂_map_left_iff, List.forall₂_map_right_iff, List.forall₂_same]
  generalize selectQueue mappingWire opts.maxApplicationParameters e.piggyMappingQueue
    (includedMappings opts e.notificationMappingList).encode.size = queued at hnested
  cases queued with
  | nil => simp
  | cons mapping queued =>
    refine iff_of_false (fun hall => ?_) (List.cons_ne_nil _ _)
    exact hnested mapping List.mem_cons_self (hall mapping List.mem_cons_self)

end Legacy

end ExtraData

/-! ### The pub/sub layer in the legacy version -/

namespace MappingProvider

/-- The content of a reply, for the query in the name. -/
theorem onMappingQuery_eq_some {provider : MappingProvider} {mappings : Map Name MappingEntryPair}
    {name : Name} {reply : Block} (h : provider.onMappingQuery mappings name = some reply) :
    ∃ query, provider.parseMappingQueryDataName name = .ok query ∧
      (queryResponse mappings query).pairs ≠ [] ∧
      reply = (queryResponse mappings query).encodeFor provider.protocolVersion := by
  unfold onMappingQuery at h
  split at h
  · cases h
  · rename_i query hquery
    split at h
    · cases h
    · dsimp only at h
      split at h
      · cases h
      · rename_i hne
        exact ⟨query, hquery, hne, (Option.some.inj h).symm⟩

/-- The numbers of a query have 64 bits, and a query of the legacy version has no epoch. -/
theorem parse_fits {provider : MappingProvider} {name : Name} {query : MissingDataInfo}
    (h : provider.parseMappingQueryDataName name = .ok query) :
    query.low < 2 ^ 64 ∧ query.high < 2 ^ 64 ∧ query.bootstrapTime < 2 ^ 64 ∧
      (provider.protocolVersion = .v2 → query.bootstrapTime = 0) := by
  unfold parseMappingQueryDataName at h
  dsimp only at h
  split at h
  · split at h
    · obtain ⟨-, h⟩ := require_bind_eq_ok.mp h
      obtain ⟨-, h⟩ := require_bind_eq_ok.mp h
      obtain ⟨-, h⟩ := require_bind_eq_ok.mp h
      obtain rfl := Except.ok.inj h
      exact ⟨Component.number_lt _, Component.number_lt _, Nat.two_pow_pos 64, fun _ => rfl⟩
    · cases h
  · rename_i hversion
    split at h
    · obtain ⟨-, h⟩ := require_bind_eq_ok.mp h
      obtain rfl := Except.ok.inj h
      refine ⟨Component.number_lt _, Component.number_lt _, ?_, fun hv => ?_⟩
      · dsimp only
        exact Component.secondsOfTimePoint_lt _
      · rw [hversion] at hv
        cases hv
    · cases h

/-- The numbers of a reply lie in the range of its query. -/
theorem mem_queryResponse {mappings : Map Name MappingEntryPair} {query : MissingDataInfo}
    {entry : MappingEntry} (h : entry ∈ (queryResponse mappings query).pairs) :
    query.low ≤ entry.seqNo ∧ entry.seqNo ≤ max query.high query.low := by
  obtain ⟨seqNo, hmem, hentry⟩ := List.mem_filterMap.mp h
  obtain ⟨mapping, -, rfl⟩ := Option.map_eq_some_iff.mp hentry
  obtain ⟨hlow, hhigh⟩ := List.mem_range'_1.mp hmem
  dsimp only
  lia

/-- A reply is read in the legacy version exactly when its provider is of that version. -/
theorem reply_v2_iff {provider : MappingProvider} {mappings : Map Name MappingEntryPair}
    {name : Name} {reply : Block} {query : MissingDataInfo}
    (hreply : provider.onMappingQuery mappings name = some reply) (hfits : reply.Fits)
    (hquery : provider.parseMappingQueryDataName name = .ok query) :
    ReadsAs .v2 reply (queryResponse mappings query) ↔ provider.protocolVersion = .v2 := by
  obtain ⟨query', hquery', hne, rfl⟩ := onMappingQuery_eq_some hreply
  obtain rfl : query = query' := Except.ok.inj (hquery.symm.trans hquery')
  obtain ⟨hlow, hhigh, -⟩ := parse_fits hquery
  have hreads := @readsAs_v2_iff provider.protocolVersion (queryResponse mappings query) []
    (fun entry hentry => (mem_queryResponse hentry).2.trans_lt (Nat.max_lt.mpr ⟨hhigh, hlow⟩))
    (by simp)
  rw [List.append_nil] at hreads
  exact (hreads hfits).trans (or_iff_left hne)

end MappingProvider

/-- What the pub/sub layer puts on the wire, whatever the version of its options: no provider of the
legacy version reads its queries, no decoder of that version reads its replies, and one reads the
lists of a Sync Interest exactly when nothing fits. -/
theorem PubSubConfig.legacy_profile (cfg : PubSubConfig) :
    (∀ (info : MissingDataInfo) (peer : MappingProvider), info.low < 2 ^ 64 → info.high < 2 ^ 64 →
      peer.protocolVersion = .v2 → peer.id = info.nodeId → peer.syncPrefix = cfg.core.syncPrefix →
      ¬peer.Understands cfg.mappingProvider info) ∧
    (∀ (mappings : Map Name MappingEntryPair) (name : Name) (reply : Block)
      (query : MissingDataInfo),
      cfg.mappingProvider.onMappingQuery mappings name = some reply → reply.Fits →
      cfg.mappingProvider.parseMappingQueryDataName name = .ok query →
      ¬ReadsAs .v2 reply (MappingProvider.queryResponse mappings query)) ∧
    ∀ (e : ExtraData) (blocks : List Block), e.Writable →
      (Block.ofElements tlv.mappingData (e.compositeElements cfg.core.cxx cfg.extraData)).Fits →
      (e.onGetExtraBlocks cfg.core.cxx cfg.extraData).1 = .ok blocks →
      (List.Forall₂ (ReadsAs .v2) (ExtraData.mappingBlocks blocks) (e.sentLists cfg.extraData) ↔
        e.NothingFits cfg.extraData) := by
  refine ⟨?_, ?_, ?_⟩
  · intro info peer hlow hhigh hpeer hid hsync hunderstands
    cases (understands_v2_iff hpeer hid hsync hlow hhigh).mp hunderstands
  · intro mappings name reply query hreply hfits hquery hreads
    cases (MappingProvider.reply_v2_iff hreply hfits hquery).mp hreads
  · intro e blocks hwritable hfits hblocks
    exact ExtraData.sync_lists_v2_iff hwritable hfits hblocks

/-- A node whose options ask for the legacy version. -/
def legacyConfig : PubSubConfig :=
  { sampleConfig with core := { sampleConfig.core with version := .v2 } }

def legacyPeer : MappingProvider :=
  { syncPrefix := Name.ofStrings ["g"], id := Name.ofStrings ["b"], protocolVersion := .v2 }

def legacyQuery : MissingDataInfo :=
  { nodeId := Name.ofStrings ["b"], low := 4, high := 9, bootstrapTime := 0 }

theorem PubSubConfig.legacy_profile_idle :
    ¬legacyPeer.Understands legacyConfig.mappingProvider legacyQuery ∧
      ∃ blocks, (({} : ExtraData).onGetExtraBlocks packetFormat {}).1 = .ok blocks ∧
        List.Forall₂ (ReadsAs .v2) (ExtraData.mappingBlocks blocks)
          (({} : ExtraData).sentLists {}) := by
  obtain ⟨hqueries, -, hlists⟩ := PubSubConfig.legacy_profile legacyConfig
  refine ⟨hqueries legacyQuery legacyPeer (by decide) (by decide) rfl rfl rfl,
    _, rfl, (hlists {} _ ?_ ?_ rfl).mpr ?_⟩
  · exact ⟨by simp, by simp, by simp, by simp⟩
  · unfold Block.Fits
    decide +kernel
  · exact ⟨.inl rfl, by simp⟩

/-- A query of a node in the legacy version is not read by its peer, nor are the mappings that the
node sends along. -/
theorem PubSubConfig.legacy_profile_not_kept :
    legacyConfig.core.version = .v2 ∧
      (legacyPeer.parseMappingQueryDataName
        (legacyConfig.mappingProvider.getMappingQueryDataName legacyQuery)).toOption = none ∧
      ∃ blocks, (ExtraData.sampleQueues.onGetExtraBlocks packetFormat {}).1.toOption = some blocks ∧
        ∃ b ∈ blocks, b.type = tlv.mappingData ∧
          (MappingList.decodeFor .v2 b).toOption = none := by
  refine ⟨rfl, by decide +kernel, ?_⟩
  exact ⟨((ExtraData.sampleQueues.onGetExtraBlocks packetFormat {}).1.toOption).get
    (by decide +kernel), (Option.some_get _).symm, by decide +kernel⟩

end NdnSvs
