import NdnSvs.ExtraData

/-! Reading the extension blocks of a Sync Interest: mapping lists, repair requests, and the check
that a collection of blocks passes before anything of it is used. -/

namespace NdnSvs

open Lib Lib.Tlv

/-- The element at a position, which must be there. -/
def elementAt (elements : List Block) (i : Nat) : Result Block :=
  match elements[i]? with
  | none => .error (.logicError "vector::_M_range_check")
  | some b => .ok b

def readNumber (b : Block) : Result Nat := orMalformed b.number

def readName (b : Block) : Result Name := orMalformed (Name.ofBlock b)

/-- The bootstrap time and the sequence number of an entry. -/
def decodeSeqNoEntry (b : Block) : Result (BootstrapTime × SeqNo) := do
  match ← orMalformed b.parse with
  | bootstrapTime :: seqNo :: _ => do
    require (b.type = tlv.seqNoEntry ∧ bootstrapTime.type = tlv.bootstrapTime ∧
      seqNo.type = tlv.seqNo) (.unexpectedType "SeqNoEntry" b.type)
    .ok (← readNumber bootstrapTime, ← readNumber seqNo)
  | _ => .error (.unexpectedType "SeqNoEntry" b.type)

def MappingEntry.decode (b : Block) : Result MappingEntry := do
  let elements ← orMalformed b.parse
  let (bootstrapTime, seqNo) ← decodeSeqNoEntry (← elementAt elements 0)
  let name ← readName (← elementAt elements 1)
  .ok { bootstrapTime, seqNo, mapping := { name, additional := elements.drop 2 } }

/-- Elements that are neither a name nor an entry are passed over. -/
def MappingList.decodeElement (list : MappingList) (b : Block) : Result MappingList := do
  if b.type = tlv.name then .ok { list with nodeId := ← readName b }
  else if b.type = tlv.mappingEntry then
    .ok { list with pairs := list.pairs ++ [← MappingEntry.decode b] }
  else .ok list

def MappingList.decode (b : Block) : Result MappingList := do
  (← orMalformed b.parse).foldlM MappingList.decodeElement {}

def decodeRepairRequest (b : Block) : Result MissingDataInfo := do
  require (b.type = tlv.repairEntry) (.unexpectedType "RepairEntry" b.type)
  match ← orMalformed b.parse with
  | [nodeId, bootstrapTime, low, high] => do
    require (nodeId.type = tlv.name ∧ bootstrapTime.type = tlv.bootstrapTime ∧
      low.type = tlv.seqNo ∧ high.type = tlv.seqNo) (.unexpectedType "RepairEntry" b.type)
    let nodeId ← readName nodeId
    let bootstrapTime ← readNumber bootstrapTime
    let low ← readNumber low
    let high ← readNumber high
    require (low ≠ 0 ∧ low ≤ high) (.invalidArgument "invalid SVS repair sequence range")
    .ok { nodeId, bootstrapTime, low, high }
  | _ => .error (.unexpectedType "RepairEntry" b.type)

def decodeRepairRequests (b : Block) : Result (List MissingDataInfo) := do
  (← orMalformed b.parse).mapM decodeRepairRequest

/-! ### The check of a collection -/

section Check

variable (cxx : NdnCxx)

def isKnownExtensionBlock (b : Block) : Bool := b.type = tlv.mappingData ∨ b.type = tlv.repairData

/-- A child of a known block decodes, when it is of a known type. -/
def checkChild (child : Block) : Result Unit := do
  if child.type = tlv.mappingData then
    let _ ← MappingList.decode child
  else if child.type = tlv.data then
    let _ ← orMalformed (cxx.decodeData child)
  else if child.type = tlv.repairData then
    let _ ← decodeRepairRequests child

/-- A known block decodes, and so do its children of known types. -/
def checkKnownBlock (b : Block) : Result Unit := do
  let children ← orMalformed b.parse
  if b.type = tlv.mappingData then
    let _ ← MappingList.decode b
  else
    let _ ← decodeRepairRequests b
  children.forM (checkChild cxx)

/-- The loop over a collection, with the known types that it has met. -/
def checkBlocks : List BlockType → List Block → Result Unit
  | _, [] => .ok ()
  | knownTypes, b :: bs => do
    if isKnownExtensionBlock b then
      require (b.type ∉ knownTypes) (.invalidArgument "duplicate known SVS extension")
      checkKnownBlock cxx b
      checkBlocks (b.type :: knownTypes) bs
    else checkBlocks knownTypes bs

def checkCollection (blocks : List Block) : Result Unit := do
  require (blocks.length ≤ SyncProtocolCodec.maxExtensionBlocks)
    (.invalidArgument "too many SVS extension blocks")
  checkBlocks cxx [] blocks

end Check

end NdnSvs
