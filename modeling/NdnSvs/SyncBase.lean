import NdnSvs.CoreSteps

/-! The base class of the sync classes.  It makes a packet of a block, signs it, stores it under the
name of its number and announces the number.  The classes differ in the names, and in the state
that a node has around its core and its Data store. -/

namespace NdnSvs

open Lib Lib.Tlv

/-- What a call, or a commit attempt, gets from outside. -/
structure PublishInputs where
  core : CoreInputs
  /-- The system clock, in nanoseconds. -/
  now : Int := 0
  hookThrows : Bool := false
  /-- The insertion into the Data store, counted from 0, that throws. -/
  storeThrowsAt : Option Nat := none
  /-- The erasure of a rollback, counted from 0, that throws. -/
  eraseThrowsAt : Option Nat := none
  mappingThrows : Bool := false
  faceThrows : Bool := false

def signData (env : CoreInputs) (data : Data) : Result Data :=
  match env.signData data with
  | none => .error (.runtime "signer failed")
  | some signature => .ok { data with signatureValue := some signature }

def setFreshnessPeriod (data : Data) (freshnessPeriod : Int) : Result Data := do
  require (0 ≤ freshnessPeriod) (.invalidArgument "FreshnessPeriod must be >= 0")
  .ok { data with freshnessPeriod := freshnessPeriod.toNat }

theorem signData_eq {env : CoreInputs} {d d' : Data} (h : signData env d = .ok d') :
    ∃ signature, d' = { d with signatureValue := some signature } := by
  unfold signData at h
  split at h
  · cases h
  · exact ⟨_, (Except.ok.inj h).symm⟩

theorem setFreshnessPeriod_eq {d d' : Data} {period : Int}
    (h : setFreshnessPeriod d period = .ok d') :
    d' = { d with freshnessPeriod := period.toNat } := by
  obtain ⟨-, h⟩ := require_bind_eq_ok.mp h
  exact (Except.ok.inj h).symm

/-- A block that a node inserts, alone or as a segment of what has this number. -/
structure InsertedBlock where
  nid : NodeID
  seqNo : SeqNo
  segNo : Option Nat
  content : Block
deriving DecidableEq

/-- How a sync class names its packets, and what the calls change in the state of a node. -/
structure SVSyncBase (ν : Type) where
  config : CoreConfig
  getDataName : NodeID → BootstrapTime → SeqNo → Name
  getCore : ν → SVSyncCore
  setCore : ν → SVSyncCore → ν
  /-- The packet of a block goes into the Data store. -/
  insert : InsertedBlock → ν → Data → ν
  /-- A packet goes to the Face. -/
  put : ν → Data → ν

namespace SVSyncBase

/-- A block of another type is nested in the content. -/
def setContent (data : Data) (content : Block) : Data :=
  { data with content := if content.type = tlv.content then content.value else content.wire }

/-- The signed packet with a block as its content. -/
def makeData (env : CoreInputs) (name : Name) (content : Block) (freshness : Int)
    (contentType : Nat) (finalBlock : Option Component) : Result Data := do
  let data ← setFreshnessPeriod (setContent { name } content) freshness
  signData env { data with contentType, finalBlock }

variable {ν : Type} (base : SVSyncBase ν) (env : PublishInputs) (node : ν)

/-- The name of the packet that carries a block. -/
def dataName (block : InsertedBlock) : Name :=
  let name := base.getDataName block.nid base.config.bootstrapTime block.seqNo
  match block.segNo with
  | none => name
  | some segNo => (name.appendVersion 0).appendSegment segNo

/-- Signs the packet of a block and stores it. -/
def insertBlock (block : InsertedBlock) (freshness : Int) (contentType : Nat)
    (finalBlock : Option Component) : ν × Result Data :=
  match makeData env.core (base.dataName block) block.content freshness contentType finalBlock with
  | .error e => (node, .error e)
  | .ok data =>
    if env.storeThrowsAt = some 0 then (node, .error (.runtime "DataStore insertion failed"))
    else (base.insert block node data, .ok data)

/-- The state after the call, and the packet that it inserts. -/
def insertDataAtSeq (content : Block) (freshness : Int) (nid : NodeID) (seq : SeqNo)
    (contentType : Nat) : ν × Result Data :=
  let pubId := SVSyncCore.targetNode base.config nid
  match base.insertBlock env node ⟨pubId, seq, none, content⟩ freshness contentType none with
  | (node, .error e) => (node, .error e)
  | (node, .ok data) =>
    if env.faceThrows then (node, .error (.runtime "Face cannot send the Data"))
    else (base.put node data, .ok data)

def insertDataSegment (content : Block) (freshness : Int) (nid : NodeID) (seq : SeqNo)
    (segNo : Nat) (finalBlock : Component) (contentType : Nat) : ν × Result Data :=
  base.insertBlock env node ⟨nid, seq, some segNo, content⟩ freshness contentType (some finalBlock)

def publishDataAtSeq (content : Block) (freshness : Int) (nid : NodeID) (seq : SeqNo)
    (contentType : Nat) : Outcome ν :=
  let pubId := SVSyncCore.targetNode base.config nid
  match base.insertDataAtSeq env node content freshness pubId seq contentType with
  | (node, .error e) => (node, .error e)
  | (node, .ok _) =>
    match (base.getCore node).updateSeqNo base.config env.core seq base.config.bootstrapTime
      pubId with
    | (core, result) => (base.setCore node core, result)

/-- The state after the call, and the number that it returns. -/
def publishData (content : Block) (freshness : Int) (id : NodeID) (contentType : Nat) :
    ν × Result SeqNo :=
  let pubId := SVSyncCore.targetNode base.config id
  let newSeq := ((base.getCore node).getSeqNo base.config pubId + 1) % 2 ^ 64
  match base.publishDataAtSeq env node content freshness pubId newSeq contentType with
  | (node, .error e) => (node, .error e)
  | (node, .ok ()) => (node, .ok newSeq)

/-! ### What the calls do -/

theorem makeData_eq {env : CoreInputs} {name : Name} {content : Block} {freshness : Int}
    {contentType : Nat} {finalBlock : Option Component} {data : Data}
    (h : makeData env name content freshness contentType finalBlock = .ok data) :
    ∃ signature, data =
      { setContent { name } content with
        freshnessPeriod := freshness.toNat, contentType, finalBlock
        signatureValue := some signature } := by
  obtain ⟨fresh, hfresh, h⟩ := bind_eq_ok.mp h
  obtain rfl := setFreshnessPeriod_eq hfresh
  exact signData_eq h

/-- A block is not inserted, or its packet goes into the store. -/
theorem insertBlock_cases (block : InsertedBlock) (freshness : Int) (contentType : Nat)
    (finalBlock : Option Component) :
    (∃ e, base.insertBlock env node block freshness contentType finalBlock = (node, .error e)) ∨
    ∃ data, makeData env.core (base.dataName block) block.content freshness contentType
        finalBlock = .ok data ∧
      base.insertBlock env node block freshness contentType finalBlock =
        (base.insert block node data, .ok data) := by
  unfold insertBlock
  cases makeData env.core (base.dataName block) block.content freshness contentType finalBlock with
  | error e => exact .inl ⟨e, rfl⟩
  | ok data =>
    dsimp only
    split
    · exact .inl ⟨_, rfl⟩
    · exact .inr ⟨data, rfl, rfl⟩

/-- The Face can throw when the packet is already in the store. -/
theorem insertDataAtSeq_cases (content : Block) (freshness : Int) (nid : NodeID) (seq : SeqNo)
    (contentType : Nat) :
    let block : InsertedBlock := ⟨SVSyncCore.targetNode base.config nid, seq, none, content⟩
    let result := base.insertDataAtSeq env node content freshness nid seq contentType
    (∃ e, result = (node, .error e)) ∨
    ∃ data, makeData env.core (base.dataName block) content freshness contentType none = .ok data ∧
      ((∃ e, result = (base.insert block node data, .error e)) ∨
        result = (base.put (base.insert block node data) data, .ok data)) := by
  simp only [insertDataAtSeq]
  rcases base.insertBlock_cases env node ⟨SVSyncCore.targetNode base.config nid, seq, none, content⟩
    freshness contentType none with ⟨e, hinsert⟩ | ⟨data, hdata, hinsert⟩
  · rw [hinsert]
    exact .inl ⟨e, rfl⟩
  · rw [hinsert]
    refine .inr ⟨data, hdata, ?_⟩
    dsimp only
    split
    · exact .inl ⟨_, rfl⟩
    · exact .inr rfl

theorem publishData_eq_ok {content : Block} {freshness : Int} {id : NodeID} {contentType : Nat}
    {seq : SeqNo} (h : (base.publishData env node content freshness id contentType).2 = .ok seq) :
    seq = ((base.getCore node).getSeqNo base.config
      (SVSyncCore.targetNode base.config id) + 1) % 2 ^ 64 := by
  simp only [publishData] at h
  split at h
  · cases h
  · exact (Except.ok.inj h).symm

/-! ### Two views of a node -/

/-- Two classes have the same settings and names, and their operations keep a relation between
their nodes. -/
structure Agrees {ν ν' : Type} (base : SVSyncBase ν) (base' : SVSyncBase ν') (R : ν → ν' → Prop) :
    Prop where
  config : base.config = base'.config
  getDataName : base.getDataName = base'.getDataName
  getCore : ∀ {node node'}, R node node' → base.getCore node = base'.getCore node'
  setCore : ∀ {node node'} (core : SVSyncCore), R node node' →
    R (base.setCore node core) (base'.setCore node' core)
  insert : ∀ {node node'} (block : InsertedBlock) (data : Data), R node node' →
    R (base.insert block node data) (base'.insert block node' data)
  put : ∀ {node node'} (data : Data), R node node' → R (base.put node data) (base'.put node' data)

/-- Two calls end with one result, in nodes that are related. -/
def SameCall {ν ν' α : Type} (R : ν → ν' → Prop) (called : ν × Result α) (called' : ν' × Result α) :
    Prop :=
  called.2 = called'.2 ∧ R called.1 called'.1

namespace Agrees

variable {ν' : Type} {base : SVSyncBase ν} {base' : SVSyncBase ν'} {R : ν → ν' → Prop}
  {node : ν} {node' : ν'} {env : PublishInputs}

theorem insertBlock (h : Agrees base base' R) (hnode : R node node') (block : InsertedBlock)
    (freshness : Int) (contentType : Nat) (finalBlock : Option Component) :
    SameCall R (base.insertBlock env node block freshness contentType finalBlock)
      (base'.insertBlock env node' block freshness contentType finalBlock) := by
  unfold SVSyncBase.insertBlock dataName
  rw [h.getDataName, h.config]
  split
  · exact ⟨rfl, hnode⟩
  · split
    · exact ⟨rfl, hnode⟩
    · exact ⟨rfl, h.insert block _ hnode⟩

theorem insertDataAtSeq (h : Agrees base base' R) (hnode : R node node') (content : Block)
    (freshness : Int) (nid : NodeID) (seq : SeqNo) (contentType : Nat) :
    SameCall R (base.insertDataAtSeq env node content freshness nid seq contentType)
      (base'.insertDataAtSeq env node' content freshness nid seq contentType) := by
  have hinsert := @insertBlock _ _ _ _ _ _ _ env h hnode
    ⟨SVSyncCore.targetNode base'.config nid, seq, none, content⟩ freshness contentType none
  simp only [SVSyncBase.insertDataAtSeq, h.config]
  rcases hafter : base.insertBlock env node _ freshness contentType none with ⟨after, result⟩
  rcases hafter' : base'.insertBlock env node' _ freshness contentType none with ⟨after', result'⟩
  rw [hafter, hafter'] at hinsert
  obtain ⟨hresult, hrelated⟩ := hinsert
  obtain rfl : result = result' := hresult
  cases result with
  | error e => exact ⟨rfl, hrelated⟩
  | ok data =>
    dsimp only
    split
    · exact ⟨rfl, hrelated⟩
    · exact ⟨rfl, h.put data hrelated⟩

theorem publishDataAtSeq (h : Agrees base base' R) (hnode : R node node') (content : Block)
    (freshness : Int) (nid : NodeID) (seq : SeqNo) (contentType : Nat) :
    SameCall R (base.publishDataAtSeq env node content freshness nid seq contentType)
      (base'.publishDataAtSeq env node' content freshness nid seq contentType) := by
  have hinsert := @insertDataAtSeq _ _ _ _ _ _ _ env h hnode content freshness
    (SVSyncCore.targetNode base'.config nid) seq contentType
  simp only [SVSyncBase.publishDataAtSeq, h.config]
  rcases hafter : base.insertDataAtSeq env node content freshness _ seq contentType with
    ⟨after, result⟩
  rcases hafter' : base'.insertDataAtSeq env node' content freshness _ seq contentType with
    ⟨after', result'⟩
  rw [hafter, hafter'] at hinsert
  obtain ⟨hresult, hrelated⟩ := hinsert
  obtain rfl : result = result' := hresult
  cases result with
  | error e => exact ⟨rfl, hrelated⟩
  | ok data =>
    dsimp only
    rw [h.getCore hrelated]
    exact ⟨rfl, h.setCore _ hrelated⟩

theorem publishData (h : Agrees base base' R) (hnode : R node node') (content : Block)
    (freshness : Int) (id : NodeID) (contentType : Nat) :
    SameCall R (base.publishData env node content freshness id contentType)
      (base'.publishData env node' content freshness id contentType) := by
  have hpublish := fun seq => @publishDataAtSeq _ _ _ _ _ _ _ env h hnode content freshness
    (SVSyncCore.targetNode base'.config id) seq contentType
  simp only [SVSyncBase.publishData, h.config, h.getCore hnode]
  generalize ((base'.getCore node').getSeqNo base'.config
    (SVSyncCore.targetNode base'.config id) + 1) % 2 ^ 64 = newSeq
  specialize hpublish newSeq
  rcases hafter : base.publishDataAtSeq env node content freshness _ newSeq contentType with
    ⟨after, result⟩
  rcases hafter' : base'.publishDataAtSeq env node' content freshness _ newSeq contentType with
    ⟨after', result'⟩
  rw [hafter, hafter'] at hpublish
  obtain ⟨hresult, hrelated⟩ := hpublish
  obtain rfl : result = result' := hresult
  cases result with
  | error e => exact ⟨rfl, hrelated⟩
  | ok _ => exact ⟨rfl, hrelated⟩

end Agrees

end SVSyncBase

end NdnSvs
