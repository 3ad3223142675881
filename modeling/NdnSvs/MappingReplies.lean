import NdnSvs.MappingCodec

/-! The replies to mapping queries.  A provider answers with every mapping that it knows in the
range of the query, however many there are and however long their names, and nothing looks at the
size of the packet before it is put on the Face. -/

namespace NdnSvs

open Lib Lib.Tlv

namespace MappingProvider

section Replies

variable (provider : MappingProvider) (env : CoreInputs) (mappings : Map Name MappingEntryPair)
  (name : Name) (query : MissingDataInfo)

/-- The packet that `onMappingQuery` puts on the Face. -/
def mappingReply : Option Data := do
  let content ← provider.onMappingQuery mappings name
  (signData env { name, content := content.wire, freshnessPeriod := 1000 }).toOption

/-- The wire size of a reply follows from its name and the lengths of its content and signature. -/
def HasPacketSize (cxx : NdnCxx) (packetSize : Name → Nat → Nat → Nat) : Prop :=
  ∀ (name : Name) (content signature : Bytes),
    (cxx.dataWire { name := name, content := content, freshnessPeriod := 1000
                    signatureValue := some signature }).size =
      packetSize name content.length signature.length

/-- The bytes of the entry of a number, none when its mapping is not known. -/
def entryLength (version : SvsProtocolVersion) (seqNo : SeqNo) : Nat :=
  match mappings[makeMappingKey query.nodeId query.bootstrapTime seqNo]? with
  | none => 0
  | some mapping => (MappingEntry.blockFor version
      { bootstrapTime := query.bootstrapTime, seqNo, mapping }).size

/-- The bytes of the node and of the known mappings of a range. -/
def elementsLength (version : SvsProtocolVersion) : Nat :=
  query.nodeId.block.size +
    ((List.range' query.low (query.high + 1 - query.low)).map
      (entryLength mappings query version)).sum

/-- The same with the type and the length of the list in front. -/
def replyLength (version : SvsProtocolVersion) : Nat :=
  (varNumber tlv.mappingData).length +
    (varNumber (elementsLength mappings query version)).length +
    elementsLength mappings query version

/-- A reader finds an entry of the query in the store. -/
structure KnownEntry (entry : MappingEntry) : Prop where
  epoch : entry.bootstrapTime = query.bootstrapTime
  low_le : query.low ≤ entry.seqNo
  le_high : entry.seqNo ≤ query.high
  known : mappings[makeMappingKey query.nodeId query.bootstrapTime entry.seqNo]? =
    some entry.received.mapping

/-- A reply is as large as a packet may be, and what is read in it is known and was asked. -/
structure FitsPacket (cxx : NdnCxx) (data : Data) : Prop where
  size : (cxx.dataWire data).size ≤ maxNdnPacketSize
  content : ∃ (block : Block) (list : MappingList), blockFromValue data.content = some block ∧
    MappingList.decodeFor provider.protocolVersion block = .ok list ∧
    list.nodeId = query.nodeId ∧ ∀ entry ∈ list.pairs, KnownEntry mappings query entry

variable {provider env mappings name query}

theorem mappingReply_eq_some {data : Data} (h : provider.mappingReply env mappings name = some data)
    (hquery : provider.parseMappingQueryDataName name = .ok query) :
    (queryResponse mappings query).pairs ≠ [] ∧ ∃ signature, data =
      { name := name, freshnessPeriod := 1000, signatureValue := some signature
        content := ((queryResponse mappings query).encodeFor provider.protocolVersion).wire } := by
  unfold mappingReply at h
  obtain ⟨content, hcontent, h⟩ := Option.bind_eq_some_iff.mp h
  obtain ⟨query', hquery', hne, rfl⟩ := onMappingQuery_eq_some hcontent
  obtain rfl : query = query' := Except.ok.inj (hquery.symm.trans hquery')
  refine ⟨hne, ?_⟩
  unfold signData at h
  split at h
  · cases h
  · rename_i signature _
    exact ⟨signature, (Option.some.inj h).symm⟩

/-- The entries of a reply are those of the store. -/
theorem mem_queryResponse_known {entry : MappingEntry}
    (h : entry ∈ (queryResponse mappings query).pairs) :
    entry.bootstrapTime = query.bootstrapTime ∧
      mappings[makeMappingKey query.nodeId query.bootstrapTime entry.seqNo]? =
        some entry.mapping := by
  obtain ⟨seqNo, -, hentry⟩ := List.mem_filterMap.mp h
  obtain ⟨mapping, hmapping, rfl⟩ := Option.map_eq_some_iff.mp hentry
  exact ⟨rfl, hmapping⟩

theorem queryResponse_writable (h : provider.parseMappingQueryDataName name = .ok query) :
    ∀ entry ∈ (queryResponse mappings query).pairs,
      entry.WritableIn provider.protocolVersion := by
  intro entry hentry
  obtain ⟨hlow, hhigh, hepoch, hlegacy⟩ := parse_fits h
  obtain ⟨htime, -⟩ := mem_queryResponse_known hentry
  obtain ⟨-, hle⟩ := mem_queryResponse hentry
  refine ⟨⟨htime ▸ hepoch, ?_⟩, fun hversion => htime.trans (hlegacy hversion)⟩
  exact hle.trans_lt (Nat.max_lt.mpr ⟨hhigh, hlow⟩)

/-- The size of the list of a reply, when the range of its query is not empty. -/
theorem queryResponse_size (hrange : query.low ≤ query.high) (version : SvsProtocolVersion) :
    ((queryResponse mappings query).encodeFor version).size =
      replyLength mappings query version := by
  have hentries : ∀ numbers : List SeqNo,
      (wires ((numbers.filterMap fun seqNo =>
        (mappings[makeMappingKey query.nodeId query.bootstrapTime seqNo]?).map fun mapping =>
          ({ bootstrapTime := query.bootstrapTime, seqNo, mapping } : MappingEntry)).map
            (MappingEntry.blockFor version)).reverse).length =
        (numbers.map (entryLength mappings query version)).sum := by
    intro numbers
    induction numbers with
    | nil => rfl
    | cons seqNo numbers ih =>
      rw [List.map_cons, List.sum_cons, ← ih, entryLength]
      cases hmapping : mappings[makeMappingKey query.nodeId query.bootstrapTime seqNo]? with
      | none => rw [List.filterMap_cons_none (by rw [hmapping]; rfl), Nat.zero_add]
      | some mapping =>
        rw [List.filterMap_cons_some (by rw [hmapping]; rfl), List.map_cons, List.reverse_cons,
          wires_append, List.length_append, Nat.add_comm]
        simp [wires, Block.size]
  have hvalue : ((queryResponse mappings query).encodeFor version).value.length =
      elementsLength mappings query version := by
    have hpairs := hentries (List.range' query.low (max query.high query.low + 1 - query.low))
    rw [Nat.max_eq_left hrange] at hpairs
    rw [elementsLength, ← hpairs]
    simp [MappingList.encodeFor, queryResponse, Block.ofElements, wires, Block.size, hrange]
  rw [Block.size_eq, hvalue]
  rfl

theorem replyLength_eq {data : Data} (hrange : query.low ≤ query.high)
    (h : provider.mappingReply env mappings name = some data)
    (hquery : provider.parseMappingQueryDataName name = .ok query) :
    data.content.length = replyLength mappings query provider.protocolVersion := by
  obtain ⟨-, signature, rfl⟩ := mappingReply_eq_some h hquery
  exact queryResponse_size hrange _

/-- What is read in the content of a reply. -/
theorem reply_read {data : Data} (h : provider.mappingReply env mappings name = some data)
    (hquery : provider.parseMappingQueryDataName name = .ok query)
    (hlength : data.content.length < 2 ^ 64) :
    ∃ block, blockFromValue data.content = some block ∧
      MappingList.decodeFor provider.protocolVersion block =
        .ok { queryResponse mappings query with
          pairs := (queryResponse mappings query).pairs.reverse.map MappingEntry.received } := by
  obtain ⟨-, signature, rfl⟩ := mappingReply_eq_some h hquery
  have hfits : ((queryResponse mappings query).encodeFor provider.protocolVersion).Fits :=
    Nat.lt_of_le_of_lt (Block.length_le_wire _) hlength
  exact ⟨_, blockFromValue_wire hfits,
    MappingList.decodeFor_encodeFor (queryResponse_writable hquery) hfits⟩

end Replies

section Fits

variable {provider : MappingProvider} {cxx : NdnCxx} {env : CoreInputs}
  {mappings : Map Name MappingEntryPair} {name : Name} {query : MissingDataInfo}
  {packetSize : Name → Nat → Nat → Nat}

/-- The reply to a query fits a packet, with known mappings that were asked alone, if and only if
the query has a range and the known mappings in it leave room for the rest of the packet. -/
theorem reply_fits_iff (hsizes : HasPacketSize cxx packetSize) {data : Data} {signature : Bytes}
    (hquery : provider.parseMappingQueryDataName name = .ok query)
    (hreply : provider.mappingReply env mappings name = some data)
    (hsignature : data.signatureValue = some signature) :
    FitsPacket provider mappings query cxx data ↔ query.low ≤ query.high ∧
      packetSize name (replyLength mappings query provider.protocolVersion) signature.length ≤
        maxNdnPacketSize := by
  have hsize : (cxx.dataWire data).size = packetSize name data.content.length signature.length := by
    obtain ⟨-, signature', rfl⟩ := mappingReply_eq_some hreply hquery
    obtain rfl : signature' = signature := Option.some.inj hsignature
    exact hsizes name _ _
  have hcontent (hle : (cxx.dataWire data).size ≤ maxNdnPacketSize) :
      data.content.length < 2 ^ 64 :=
    Nat.lt_of_le_of_lt ((cxx.content_length_le data).trans (Block.length_le_wire _))
      (Nat.lt_of_le_of_lt hle (by decide))
  obtain ⟨hne, -⟩ := mappingReply_eq_some hreply hquery
  constructor
  · rintro ⟨hle, block, list, hblock, hlist, -, hknown⟩
    obtain ⟨block', hblock', hread⟩ := reply_read hreply hquery (hcontent hle)
    obtain rfl : block = block' := Option.some.inj (hblock.symm.trans hblock')
    obtain rfl := Except.ok.inj (hlist.symm.trans hread)
    obtain ⟨entry, hentry⟩ := List.exists_mem_of_ne_nil _ hne
    have hasked := hknown _ (List.mem_map_of_mem (List.mem_reverse.mpr hentry))
    have hrange : query.low ≤ query.high := hasked.low_le.trans hasked.le_high
    rw [hsize, replyLength_eq hrange hreply hquery] at hle
    exact ⟨hrange, hle⟩
  · rintro ⟨hrange, hle⟩
    rw [← replyLength_eq hrange hreply hquery, ← hsize] at hle
    obtain ⟨block, hblock, hread⟩ := reply_read hreply hquery (hcontent hle)
    refine ⟨hle, block, _, hblock, hread, rfl, fun received hreceived => ?_⟩
    obtain ⟨entry, hentry, rfl⟩ := List.mem_map.mp hreceived
    rw [List.mem_reverse] at hentry
    obtain ⟨hepoch, hknown⟩ := mem_queryResponse_known hentry
    obtain ⟨hlow, hhigh⟩ := mem_queryResponse hentry
    rw [Nat.max_eq_left hrange] at hhigh
    exact ⟨hepoch, hlow, hhigh, by rw [MappingEntry.received_received]; exact hknown⟩

end Fits

/-- The size of a packet of the format with a content and a signature of given lengths. -/
def formatSize (name : Name) (length signatureLength : Nat) : Nat :=
  (packetFormat.dataWire
    { name := name, content := List.replicate length 0, freshnessPeriod := 1000
      signatureValue := some (List.replicate signatureLength 0) }).size

theorem hasPacketSize_format : HasPacketSize packetFormat formatSize := by
  intro name content signature
  rw [formatSize, Block.size_eq, Block.size_eq]
  simp [packetFormat, Data.toWire, Data.wireElements, Data.metaInfoElements, Block.ofElements,
    wires, Block.wire]

def signing : CoreInputs := { clock := 1000, signData := fun _ => some [1] }

/-- A provider, with a mapping to a name of one component. -/
def answering : MappingProvider where
  syncPrefix := Name.ofStrings ["g"]
  id := Name.ofStrings ["b"]

def asked : MissingDataInfo :=
  { nodeId := Name.ofStrings ["b"], low := 3, high := 5, bootstrapTime := 90 }

def oneMapping (bytes : Bytes) : Map Name MappingEntryPair :=
  (∅ : Map Name MappingEntryPair).insert (makeMappingKey (Name.ofStrings ["b"]) 90 4)
    { name := [.generic bytes] }

/-- The reply to the query. -/
def oneReply (bytes : Bytes) : Data where
  name := answering.getMappingQueryDataName asked
  content := ((queryResponse (oneMapping bytes) asked).encodeFor .v3).wire
  freshnessPeriod := 1000
  signatureValue := some [1]

def onlyEntry (bytes : Bytes) : MappingEntry where
  bootstrapTime := 90
  seqNo := 4
  mapping := { name := [.generic bytes] }

theorem mem_oneReply (bytes : Bytes) :
    onlyEntry bytes ∈ (queryResponse (oneMapping bytes) asked).pairs :=
  List.mem_filterMap.mpr ⟨4, by decide, by simp [oneMapping, asked, onlyEntry]⟩

theorem mappingReply_one (bytes : Bytes) : answering.mappingReply signing (oneMapping bytes)
    (answering.getMappingQueryDataName asked) = some (oneReply bytes) := by
  have hquery : answering.parseMappingQueryDataName (answering.getMappingQueryDataName asked) =
      .ok asked := by decide +kernel
  unfold mappingReply onMappingQuery
  rw [hquery]
  dsimp only
  rw [if_neg (by decide), if_neg (List.ne_nil_of_mem (mem_oneReply bytes))]
  rfl

/-- No block is shorter than what it holds, down to the component of the name. -/
theorem length_le_oneReply (bytes : Bytes) :
    bytes.length ≤ (packetFormat.dataWire (oneReply bytes)).size := by
  have hinner {type : BlockType} {b : Block} {bs : List Block} (h : b ∈ bs) :
      b.value.length ≤ (Block.ofElements type bs).value.length :=
    (Block.length_le_wire b).trans (length_le_wires h)
  have hentry := List.mem_map_of_mem (f := MappingEntry.block) (mem_oneReply bytes)
  calc bytes.length = (Component.block (.generic bytes)).value.length := rfl
    _ ≤ (Name.block [.generic bytes]).value.length := hinner List.mem_cons_self
    _ ≤ (onlyEntry bytes).block.value.length :=
      hinner (List.mem_cons_of_mem _ List.mem_cons_self)
    _ ≤ ((queryResponse (oneMapping bytes) asked).encodeFor .v3).value.length :=
      hinner (List.mem_cons_of_mem _ (List.mem_reverse.mpr hentry))
    _ ≤ (oneReply bytes).content.length := Block.length_le_wire _
    _ ≤ (packetFormat.dataWire (oneReply bytes)).value.length :=
      packetFormat.content_length_le _
    _ ≤ (packetFormat.dataWire (oneReply bytes)).size := Block.length_le_wire _

theorem reply_fits_one :
    FitsPacket answering (oneMapping [7]) asked packetFormat (oneReply [7]) := by
  refine (@reply_fits_iff answering packetFormat signing (oneMapping [7])
    (answering.getMappingQueryDataName asked) asked formatSize hasPacketSize_format (oneReply [7])
    [1] (by decide +kernel) (mappingReply_one [7]) rfl).mpr ?_
  decide +kernel

/-- The mapping to a name of 9000 bytes is put on the Face in a packet that is too large. -/
theorem reply_too_large :
    answering.parseMappingQueryDataName (answering.getMappingQueryDataName asked) = .ok asked ∧
      answering.mappingReply signing (oneMapping (List.replicate 9000 7))
        (answering.getMappingQueryDataName asked) = some (oneReply (List.replicate 9000 7)) ∧
      maxNdnPacketSize < (packetFormat.dataWire (oneReply (List.replicate 9000 7))).size ∧
      ¬FitsPacket answering (oneMapping (List.replicate 9000 7)) asked packetFormat
        (oneReply (List.replicate 9000 7)) := by
  have hsize : maxNdnPacketSize <
      (packetFormat.dataWire (oneReply (List.replicate 9000 7))).size := by
    have hle := length_le_oneReply (List.replicate 9000 7)
    rw [List.length_replicate] at hle
    exact Nat.lt_of_lt_of_le (by decide) hle
  exact ⟨by decide +kernel, mappingReply_one _, hsize,
    fun h => absurd h.size (Nat.not_le_of_lt hsize)⟩

end MappingProvider

end NdnSvs
