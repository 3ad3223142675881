import NdnSvs.DefaultStore
import NdnSvs.MappingTruth

/-! The sync classes below the pub/sub layer: nodes that publish blocks under numbers and fetch them
from each other.  The two classes differ in the names of the packets, and the shared one can keep
the packets of others and answer with them.  Data is lost, repeated and reordered on its way.  The
calls that take packets made by the pub/sub layer (`insertPreparedData`, `insertPreparedDataBatch`,
`putPreparedData`) are no events here: what they insert is no block of this layer. -/

namespace NdnSvs

open Lib Lib.Tlv

/-! ### The sync classes -/

inductive SyncClass
  | svSync
  | svSyncShared
deriving DecidableEq

/-- The new store finds nothing, and a store finds only what was inserted into it. -/
structure StoreClass.Finds {σ : Type} (store : StoreClass σ) (empty : σ) : Prop where
  empty : ∀ d, ¬store.Holds empty d
  insert : ∀ {s d d'}, store.Holds (store.insert s d) d' → d' = d ∨ store.Holds s d'

/-- The default store finds only what was inserted into it. -/
theorem memoryDataStore_finds {cxx : NdnCxx} {ims : InMemoryStorage cxx} {empty : ims.State}
    (hempty : ∀ n, ims.lookup empty n = none) : (memoryDataStore ims).Finds empty where
  empty d hholds := by
    have hlookup := MemoryDataStore.holds_iff.mp hholds
    rw [hempty] at hlookup
    cases hlookup
  insert {s d d'} hholds := by
    have hlookup := MemoryDataStore.holds_iff.mp hholds
    rw [show (memoryDataStore ims).insert = ims.insert from rfl, ims.lookup_insert] at hlookup
    split at hlookup
    · cases hold : ims.lookup s (d'.fullName cxx) with
      | none =>
        rw [hold] at hlookup
        exact .inl (Option.some.inj hlookup).symm
      | some there =>
        rw [hold] at hlookup
        exact .inr (MemoryDataStore.holds_iff.mpr (hold.trans hlookup))
    · exact .inr (MemoryDataStore.holds_iff.mpr hlookup)

/-- The class, the prefix and the stores of a group of nodes, and the options of each node. -/
structure SyncGroup (ι σ : Type) where
  cls : SyncClass
  groupPrefix : Name
  version : SvsProtocolVersion := .v3
  node : ι → CoreConfig
  fetcher : ι → FetcherOptions := fun _ => {}
  store : StoreClass σ
  emptyStore : σ
  finds : store.Finds emptyStore

/-- The publication that a call of `fetchData` asks for. -/
structure FetchRequest where
  nid : NodeID
  bootstrapTime : BootstrapTime
  seqNo : SeqNo
deriving DecidableEq

structure SyncNode (σ : Type) where
  core : SVSyncCore := {}
  dataStore : σ
  fetcher : Fetcher FetchRequest := {}
  cacheAll : Bool := false
  /-- The packets that the Face has got. -/
  put : List Data := []
  /-- The blocks that were inserted, and the callbacks of `fetchData` that were called. -/
  inserted : List InsertedBlock := []
  outcomes : List (FetchOutcome FetchRequest) := []

namespace SyncGroup

variable {ι σ : Type} (g : SyncGroup ι σ) (i : ι)

def syncPrefix : Name :=
  match g.cls with
  | .svSync => g.groupPrefix
  | .svSyncShared => g.groupPrefix ++ [.ofString "s"]

def config : CoreConfig := { g.node i with syncPrefix := g.syncPrefix, version := g.version }

/-- The prefix whose Interests come to the node. -/
def dataPrefix : Name :=
  match g.cls with
  | .svSync => (g.config i).id ++ g.groupPrefix
  | .svSyncShared => g.groupPrefix ++ [.ofString "d"]

/-- The name of a publication before its epoch and its number. -/
def nodePrefix (nid : NodeID) : Name :=
  match g.cls with
  | .svSync => nid ++ g.groupPrefix
  | .svSyncShared => g.groupPrefix ++ [.ofString "d"] ++ nid

def makeDataName (nid : NodeID) (bootstrapTime : BootstrapTime) (seqNo : SeqNo) : Name :=
  g.nodePrefix nid ++
    (match g.version with
      | .v3 => [.fromTimestamp (Component.timePointOfSeconds bootstrapTime)]
      | .v2 => []) ++
    [.fromSequenceNumber seqNo]

def shouldCache (node : SyncNode σ) : Bool :=
  match g.cls with
  | .svSync => false
  | .svSyncShared => node.cacheAll

/-- The class over the state of a node, which notes the blocks and what the Face gets. -/
def syncBase : SVSyncBase (SyncNode σ) where
  config := g.config i
  getDataName := g.makeDataName
  getCore := SyncNode.core
  setCore node core := { node with core }
  insert block node data :=
    { node with
      dataStore := g.store.insert node.dataStore data
      inserted := node.inserted ++ [block] }
  put node data := { node with put := node.put ++ [data] }

end SyncGroup

def FetchRequest.name {ι σ : Type} (g : SyncGroup ι σ) (request : FetchRequest) : Name :=
  g.makeDataName request.nid request.bootstrapTime request.seqNo

/-- The name of the packet that carries a block of a node. -/
def InsertedBlock.name {ι σ : Type} (g : SyncGroup ι σ) (i : ι) (block : InsertedBlock) : Name :=
  (g.syncBase i).dataName block

/-! ### The operations of a node -/

namespace SyncNode

variable {ι σ : Type} (g : SyncGroup ι σ) (i : ι) (env : PublishInputs) (node : SyncNode σ)

def onDataInterest (interest : Interest) : SyncNode σ :=
  match g.store.find node.dataStore interest with
  | none => node
  | some data => { node with put := node.put ++ [data] }

/-- Without a bootstrap time, the call asks for the node's own epoch. -/
def fetchData (nid : NodeID) (bootstrapTime : Option BootstrapTime) (seqNo : SeqNo)
    (nRetries : Int) : SyncNode σ :=
  let request := ⟨nid, bootstrapTime.getD (g.config i).bootstrapTime, seqNo⟩
  { node with fetcher := node.fetcher.expressInterest (g.fetcher i) request nRetries }

def onDataValidated (request : FetchRequest) (data : Data) : SyncNode σ :=
  let node := if g.shouldCache node then
    { node with dataStore := g.store.insert node.dataStore data } else node
  { node with outcomes := node.outcomes ++ [.satisfied request data] }

/-- The callback that the fetcher calls. -/
def onOutcome : Option (FetchOutcome FetchRequest) → SyncNode σ
  | none => node
  | some (.satisfied request data) => onDataValidated g node request data
  | some outcome => { node with outcomes := node.outcomes ++ [outcome] }

/-- What an application does with a node, and what happens to it. -/
inductive Event
  | publishData (content : Block) (freshness : Int) (id : NodeID) (contentType : Nat)
  | publishDataAtSeq (content : Block) (freshness : Int) (nid : NodeID) (seq : SeqNo)
      (contentType : Nat)
  | insertDataAtSeq (content : Block) (freshness : Int) (nid : NodeID) (seq : SeqNo)
      (contentType : Nat)
  | insertDataSegment (content : Block) (freshness : Int) (nid : NodeID) (seq : SeqNo)
      (segNo : Nat) (finalBlock : Component) (contentType : Nat)
  | fetchData (nid : NodeID) (bootstrapTime : Option BootstrapTime) (seqNo : SeqNo)
      (nRetries : Int)
  | setCacheAll (val : Bool)
  | setFetchWindowSize (windowSize : Nat)
  | dataInterest (interest : Interest)
  | fetcher (event : FetcherEvent)
  | core (event : SVSyncCore.Event)

/-- What the event asks for. -/
def Event.asks (cfg : CoreConfig) : Event → List FetchRequest
  | .fetchData nid bootstrapTime seqNo _ =>
    [⟨nid, bootstrapTime.getD cfg.bootstrapTime, seqNo⟩]
  | _ => []

def step : Event → Option (SyncNode σ)
  | .publishData content freshness id contentType =>
    some ((g.syncBase i).publishData env node content freshness id contentType).1
  | .publishDataAtSeq content freshness nid seq contentType =>
    some ((g.syncBase i).publishDataAtSeq env node content freshness nid seq contentType).1
  | .insertDataAtSeq content freshness nid seq contentType =>
    some ((g.syncBase i).insertDataAtSeq env node content freshness nid seq contentType).1
  | .insertDataSegment content freshness nid seq segNo finalBlock contentType =>
    some ((g.syncBase i).insertDataSegment env node content freshness nid seq segNo finalBlock
      contentType).1
  | .fetchData nid bootstrapTime seqNo nRetries =>
    some (fetchData g i node nid bootstrapTime seqNo nRetries)
  | .setCacheAll val => some { node with cacheAll := val }
  | .setFetchWindowSize windowSize =>
    some { node with fetcher := node.fetcher.setWindowSize windowSize }
  | .dataInterest interest =>
    if g.dataPrefix i <+: interest.name then some (onDataInterest g node interest) else none
  | .fetcher event =>
    (node.fetcher.step (g.fetcher i) event).map fun (fetcher, outcome) =>
      onOutcome g { node with fetcher } outcome
  | .core event =>
    (node.core.step (g.config i) env.core event).map fun core => { node with core }

/-! ### What a step inserts -/

/-- The packet carries the block under its name, and is signed. -/
structure Carries (data : Data) (block : InsertedBlock) : Prop where
  name : data.name = block.name g i
  content : data.content =
    if block.content.type = tlv.content then block.content.value else block.content.wire
  signed : data.signatureValue.isSome

variable {g i env node}

theorem makeData_carries {block : InsertedBlock} {freshness : Int} {contentType : Nat}
    {finalBlock : Option Component} {data : Data}
    (h : SVSyncBase.makeData env.core (block.name g i) block.content freshness contentType
      finalBlock = .ok data) : Carries g i data block := by
  obtain ⟨signature, rfl⟩ := SVSyncBase.makeData_eq h
  exact ⟨rfl, rfl, rfl⟩

/-- The node `after` comes from `before` by calls that publish: what is new in it carries blocks
that it has inserted. -/
structure Inserts (g : SyncGroup ι σ) (i : ι) (before after : SyncNode σ) : Prop where
  fetcher : after.fetcher = before.fetcher
  outcomes : after.outcomes = before.outcomes
  inserted : before.inserted <+: after.inserted
  stored : ∀ data, g.store.Holds after.dataStore data → g.store.Holds before.dataStore data ∨
    ∃ block ∈ after.inserted, Carries g i data block
  put : ∀ data ∈ after.put, data ∈ before.put ∨ ∃ block ∈ after.inserted, Carries g i data block

theorem Inserts.refl : Inserts g i node node :=
  ⟨rfl, rfl, List.prefix_refl _, fun _ => .inl, fun _ => .inl⟩

/-- What a node does with its core inserts nothing. -/
theorem Inserts.core {after : SyncNode σ} (h : Inserts g i node after) (core : SVSyncCore) :
    Inserts g i node { after with core } :=
  ⟨h.fetcher, h.outcomes, h.inserted, h.stored, h.put⟩

/-- The packet of a block goes into the store. -/
theorem insert_inserts {block : InsertedBlock} {data : Data} (hcarries : Carries g i data block) :
    Inserts g i node ((g.syncBase i).insert block node data) := by
  have hmem : block ∈ node.inserted ++ [block] := by simp
  refine ⟨rfl, rfl, List.prefix_append _ _, fun d hd => ?_, fun _ => .inl⟩
  rcases g.finds.insert hd with rfl | hd
  · exact .inr ⟨block, hmem, hcarries⟩
  · exact .inl hd

theorem insertDataAtSeq_inserts (content : Block) (freshness : Int) (nid : NodeID) (seq : SeqNo)
    (contentType : Nat) : Inserts g i node
      ((g.syncBase i).insertDataAtSeq env node content freshness nid seq contentType).1 := by
  rcases (g.syncBase i).insertDataAtSeq_cases env node content freshness nid seq contentType with
    ⟨e, h⟩ | ⟨data, hdata, ⟨e, h⟩ | h⟩
  · rw [h]
    exact .refl
  · rw [h]
    exact insert_inserts (makeData_carries hdata)
  · rw [h]
    have hcarries := makeData_carries hdata
    have hinserts := @insert_inserts _ _ g i node _ data hcarries
    refine ⟨hinserts.fetcher, hinserts.outcomes, hinserts.inserted, hinserts.stored, fun d hd => ?_⟩
    rcases List.mem_append.mp hd with hd | hd
    · exact .inl hd
    · obtain rfl := List.mem_singleton.mp hd
      exact .inr ⟨_, List.mem_append_right _ (List.mem_singleton_self _), hcarries⟩

theorem insertDataSegment_inserts (content : Block) (freshness : Int) (nid : NodeID) (seq : SeqNo)
    (segNo : Nat) (finalBlock : Component) (contentType : Nat) : Inserts g i node
      ((g.syncBase i).insertDataSegment env node content freshness nid seq segNo finalBlock
        contentType).1 := by
  unfold SVSyncBase.insertDataSegment
  rcases (g.syncBase i).insertBlock_cases env node ⟨nid, seq, some segNo, content⟩ freshness
    contentType (some finalBlock) with ⟨e, h⟩ | ⟨data, hdata, h⟩
  · rw [h]
    exact .refl
  · rw [h]
    exact insert_inserts (makeData_carries hdata)

theorem publishDataAtSeq_inserts (content : Block) (freshness : Int) (nid : NodeID) (seq : SeqNo)
    (contentType : Nat) : Inserts g i node
      ((g.syncBase i).publishDataAtSeq env node content freshness nid seq contentType).1 := by
  have hinserts := @insertDataAtSeq_inserts _ _ g i env node content freshness
    (SVSyncCore.targetNode (g.syncBase i).config nid) seq contentType
  simp only [SVSyncBase.publishDataAtSeq]
  split
  · rename_i heq
    rwa [heq] at hinserts
  · rename_i heq
    rw [heq] at hinserts
    exact hinserts.core _

theorem publishData_inserts (content : Block) (freshness : Int) (id : NodeID)
    (contentType : Nat) : Inserts g i node
      ((g.syncBase i).publishData env node content freshness id contentType).1 := by
  have hinserts := fun seq => @publishDataAtSeq_inserts _ _ g i env node content freshness
    (SVSyncCore.targetNode (g.syncBase i).config id) seq contentType
  simp only [SVSyncBase.publishData]
  generalize (SVSyncCore.getSeqNo _ _ _ + 1) % 2 ^ 64 = newSeq
  specialize hinserts newSeq
  split
  · rename_i heq
    rwa [heq] at hinserts
  · rename_i heq
    rwa [heq] at hinserts

/-! ### The node of the pub/sub layer -/

/-- The sync object of the pub/sub layer is one of its class: it names, stores and announces as
every node does, over the same core and store. -/
theorem syncBase_agrees {ι : Type} {g : SyncGroup ι DataStore} {i : ι} {cfg : PubSubConfig}
    (hclass : g.cls = .svSync) (hstore : g.store.insert = fun s d => s.insert d.name d)
    (hcfg : cfg.core = g.config i) :
    (g.syncBase i).Agrees cfg.svsync fun node p =>
      node.core = p.core ∧ node.dataStore = p.dataStore where
  config := hcfg.symm
  getDataName := by
    have hgroup : (g.config i).syncPrefix = g.groupPrefix := by
      rw [SyncGroup.config, SyncGroup.syncPrefix, hclass]
    funext nid b s
    change g.makeDataName nid b s = makeDataName cfg nid b s
    unfold SyncGroup.makeDataName SyncGroup.nodePrefix makeDataName
    rw [hcfg, hgroup, hclass]
    rfl
  getCore h := h.1
  setCore _ h := ⟨rfl, h.2⟩
  insert block data h := by
    refine ⟨h.1, ?_⟩
    change g.store.insert _ data = _
    rw [hstore, h.2]
    rfl
  put _ h := h

/-- The sync node of the pub/sub layer publishes as every node of its class does. -/
theorem publishData_publisher {ι : Type} {g : SyncGroup ι DataStore} {i : ι} {cfg : PubSubConfig}
    {env : PublishInputs} {node : SyncNode DataStore} {p : Publisher}
    (hclass : g.cls = .svSync) (hstore : g.store.insert = fun s d => s.insert d.name d)
    (hcfg : cfg.core = g.config i) (hcore : node.core = p.core)
    (hdata : node.dataStore = p.dataStore) (content : Block) (freshness : Int) (id : NodeID)
    (contentType : Nat) :
    SVSyncBase.SameCall (fun node p => node.core = p.core ∧ node.dataStore = p.dataStore)
      ((g.syncBase i).publishData env node content freshness id contentType)
      (cfg.svsync.publishData env p content freshness id contentType) :=
  (syncBase_agrees hclass hstore hcfg).publishData ⟨hcore, hdata⟩ content freshness id contentType

/-! ### What a node keeps and gives -/

/-- The packet was made, and its name begins with the name that was asked for. -/
def Brought (g : SyncGroup ι σ) (made : Data → Prop) (request : FetchRequest) (data : Data) :
    Prop :=
  made data ∧ request.name g <+: data.name

/-- All packets of a node were made, and those that came for a request are for it. -/
structure Genuine (g : SyncGroup ι σ) (made : Data → Prop) (node : SyncNode σ) : Prop where
  stored : ∀ data, g.store.Holds node.dataStore data → made data
  put : ∀ data ∈ node.put, made data
  validating : ∀ v ∈ node.fetcher.validating, Brought g made v.1.request v.2
  satisfied : ∀ request data, .satisfied request data ∈ node.outcomes →
    Brought g made request data

variable {made made' : Data → Prop} {after : SyncNode σ}

theorem Genuine.mono (h : Genuine g made node) (hmade : ∀ data, made data → made' data) :
    Genuine g made' node where
  stored data hdata := hmade _ (h.stored data hdata)
  put data hdata := hmade _ (h.put data hdata)
  validating v hv := ⟨hmade _ (h.validating v hv).1, (h.validating v hv).2⟩
  satisfied request data hdata :=
    ⟨hmade _ (h.satisfied request data hdata).1, (h.satisfied request data hdata).2⟩

theorem Genuine.inserts (h : Genuine g made node) (hinserts : Inserts g i node after)
    (hmade : ∀ block ∈ after.inserted, ∀ data, Carries g i data block → made data) :
    Genuine g made after where
  stored data hdata := (hinserts.stored data hdata).elim (h.stored data)
    fun ⟨block, hblock, hcarries⟩ => hmade block hblock data hcarries
  put data hdata := (hinserts.put data hdata).elim (h.put data)
    fun ⟨block, hblock, hcarries⟩ => hmade block hblock data hcarries
  validating := by
    rw [hinserts.fetcher]
    exact h.validating
  satisfied := by
    rw [hinserts.outcomes]
    exact h.satisfied

theorem Genuine.onDataInterest (h : Genuine g made node) (interest : Interest) :
    Genuine g made (onDataInterest g node interest) := by
  unfold SyncNode.onDataInterest
  split
  · exact h
  · rename_i data hfind
    refine ⟨h.stored, fun d hd => ?_, h.validating, h.satisfied⟩
    rcases List.mem_append.mp hd with hd | hd
    · exact h.put d hd
    · obtain rfl := List.mem_singleton.mp hd
      exact h.stored d ⟨interest, hfind⟩

theorem Genuine.onOutcome (h : Genuine g made node) {outcome : Option (FetchOutcome FetchRequest)}
    (hbrought : ∀ request data, outcome = some (.satisfied request data) →
      Brought g made request data) : Genuine g made (onOutcome g node outcome) := by
  unfold SyncNode.onOutcome
  split
  · exact h
  · rename_i request data
    have hdata := hbrought request data rfl
    have hsatisfied : ∀ request' data', .satisfied request' data' ∈
        node.outcomes ++ [.satisfied request data] → Brought g made request' data' := by
      intro request' data' hmem
      rcases List.mem_append.mp hmem with hold | hnew
      · exact h.satisfied request' data' hold
      · obtain ⟨rfl, rfl⟩ := FetchOutcome.satisfied.inj (List.mem_singleton.mp hnew)
        exact hdata
    unfold onDataValidated
    dsimp only
    split
    · refine ⟨fun d hd => ?_, h.put, h.validating, hsatisfied⟩
      rcases g.finds.insert hd with rfl | hd
      · exact hdata.1
      · exact h.stored d hd
    · exact ⟨h.stored, h.put, h.validating, hsatisfied⟩
  · rename_i outcome hother
    refine ⟨h.stored, h.put, h.validating, fun request data hmem => ?_⟩
    rcases List.mem_append.mp hmem with hold | hnew
    · exact h.satisfied request data hold
    · obtain rfl := List.mem_singleton.mp hnew
      exact absurd rfl (hother request data)

/-- One step of a node that gets only packets which were made. -/
theorem Genuine.step (h : Genuine g made node) {event : Event}
    (hstep : step g i env node event = some after)
    (harrives : ∀ index data, event = .fetcher (.data index data) → ∀ qi,
      node.fetcher.pendingInterests[index]? = some qi → Brought g made qi.request data)
    (hmade : ∀ block ∈ after.inserted, ∀ data, Carries g i data block → made data) :
    Genuine g made after := by
  cases event with
  | publishData content freshness id contentType =>
    obtain rfl := Option.some.inj hstep
    exact h.inserts (publishData_inserts content freshness id contentType) hmade
  | publishDataAtSeq content freshness nid seq contentType =>
    obtain rfl := Option.some.inj hstep
    exact h.inserts (publishDataAtSeq_inserts content freshness nid seq contentType) hmade
  | insertDataAtSeq content freshness nid seq contentType =>
    obtain rfl := Option.some.inj hstep
    exact h.inserts (insertDataAtSeq_inserts content freshness nid seq contentType) hmade
  | insertDataSegment content freshness nid seq segNo finalBlock contentType =>
    obtain rfl := Option.some.inj hstep
    exact h.inserts
      (insertDataSegment_inserts content freshness nid seq segNo finalBlock contentType) hmade
  | fetchData nid bootstrapTime seqNo nRetries =>
    obtain rfl := Option.some.inj hstep
    exact ⟨h.stored, h.put, h.validating, h.satisfied⟩
  | setCacheAll val =>
    obtain rfl := Option.some.inj hstep
    exact ⟨h.stored, h.put, h.validating, h.satisfied⟩
  | setFetchWindowSize windowSize =>
    obtain rfl := Option.some.inj hstep
    exact ⟨h.stored, h.put, h.validating, h.satisfied⟩
  | dataInterest interest =>
    rw [SyncNode.step] at hstep
    split at hstep
    · obtain rfl := Option.some.inj hstep
      exact h.onDataInterest interest
    · cases hstep
  | fetcher event =>
    obtain ⟨⟨fetcher, outcome⟩, hfetcher, rfl⟩ := Option.map_eq_some_iff.mp hstep
    obtain ⟨hsatisfied, hvalidating⟩ := Fetcher.step_brings
      (P := Brought g made) hfetcher h.validating
      fun index data hevent => harrives index data (congrArg Event.fetcher hevent)
    have hgenuine : Genuine g made { node with fetcher } :=
      ⟨h.stored, h.put, hvalidating, h.satisfied⟩
    exact hgenuine.onOutcome hsatisfied
  | core event =>
    obtain ⟨core, -, rfl⟩ := Option.map_eq_some_iff.mp hstep
    exact ⟨h.stored, h.put, h.validating, h.satisfied⟩

/-! ### Each call of `fetchData` and its callback -/

/-- The requests whose callback was called, and those that wait for theirs. -/
def requests (node : SyncNode σ) : List FetchRequest :=
  node.outcomes.map FetchOutcome.request ++ node.fetcher.outstanding

theorem Inserts.requests (h : Inserts g i node after) : after.requests = node.requests := by
  rw [SyncNode.requests, SyncNode.requests, h.fetcher, h.outcomes]

theorem onOutcome_fields (outcome : Option (FetchOutcome FetchRequest)) :
    (onOutcome g node outcome).fetcher = node.fetcher ∧
      (onOutcome g node outcome).inserted = node.inserted ∧
      (onOutcome g node outcome).outcomes = node.outcomes ++ outcome.toList := by
  unfold SyncNode.onOutcome
  split
  · exact ⟨rfl, rfl, (List.append_nil _).symm⟩
  · unfold onDataValidated
    dsimp only
    split
    · exact ⟨rfl, rfl, rfl⟩
    · exact ⟨rfl, rfl, rfl⟩
  · exact ⟨rfl, rfl, rfl⟩

/-- A step loses no block that was inserted, and no request. -/
theorem step_keeps {event : Event} (hstep : step g i env node event = some after) :
    node.inserted <+: after.inserted ∧
      after.requests.Perm (node.requests ++ event.asks (g.config i)) := by
  have hinserts : Inserts g i node after → event.asks (g.config i) = [] →
      node.inserted <+: after.inserted ∧
        after.requests.Perm (node.requests ++ event.asks (g.config i)) := by
    intro h hasks
    rw [hasks, List.append_nil, h.requests]
    exact ⟨h.inserted, .refl _⟩
  cases event with
  | publishData content freshness id contentType =>
    obtain rfl := Option.some.inj hstep
    exact hinserts (publishData_inserts content freshness id contentType) rfl
  | publishDataAtSeq content freshness nid seq contentType =>
    obtain rfl := Option.some.inj hstep
    exact hinserts (publishDataAtSeq_inserts content freshness nid seq contentType) rfl
  | insertDataAtSeq content freshness nid seq contentType =>
    obtain rfl := Option.some.inj hstep
    exact hinserts (insertDataAtSeq_inserts content freshness nid seq contentType) rfl
  | insertDataSegment content freshness nid seq segNo finalBlock contentType =>
    obtain rfl := Option.some.inj hstep
    exact hinserts
      (insertDataSegment_inserts content freshness nid seq segNo finalBlock contentType) rfl
  | fetchData nid bootstrapTime seqNo nRetries =>
    obtain rfl := Option.some.inj hstep
    refine ⟨List.prefix_refl _, ?_⟩
    have hperm := Fetcher.outstanding_expressInterest (g.fetcher i) node.fetcher
      ⟨nid, bootstrapTime.getD (g.config i).bootstrapTime, seqNo⟩ nRetries
    rw [requests, requests, List.append_assoc]
    exact (hperm.trans (List.perm_append_singleton _ _).symm).append_left _
  | setCacheAll val =>
    obtain rfl := Option.some.inj hstep
    exact ⟨List.prefix_refl _, by simp [requests, Event.asks]⟩
  | setFetchWindowSize windowSize =>
    obtain rfl := Option.some.inj hstep
    exact ⟨List.prefix_refl _, by simp [requests, Event.asks]⟩
  | dataInterest interest =>
    rw [SyncNode.step] at hstep
    split at hstep
    · obtain rfl := Option.some.inj hstep
      unfold onDataInterest
      split
      · exact ⟨List.prefix_refl _, by simp [Event.asks]⟩
      · exact ⟨List.prefix_refl _, by simp [requests, Event.asks]⟩
    · cases hstep
  | fetcher event =>
    obtain ⟨⟨fetcher, outcome⟩, hfetcher, rfl⟩ := Option.map_eq_some_iff.mp hstep
    obtain ⟨hfields, hinserted, houtcomes⟩ :=
      @onOutcome_fields _ _ g { node with fetcher } outcome
    have hperm := Fetcher.step_outstanding hfetcher
    have hasks : (Event.fetcher event).asks (g.config i) = [] := rfl
    refine ⟨by rw [hinserted], ?_⟩
    rw [requests, requests, hfields, houtcomes, hasks, List.append_nil, List.map_append,
      List.append_assoc]
    refine (hperm.trans ?_).symm.append_left _
    cases outcome
    · rfl
    · rfl
  | core event =>
    obtain ⟨core, -, rfl⟩ := Option.map_eq_some_iff.mp hstep
    exact ⟨List.prefix_refl _, by simp [requests, Event.asks]⟩

end SyncNode

/-! ### The group -/

namespace SyncGroup

variable {ι σ : Type} [DecidableEq ι] (g : SyncGroup ι σ)

inductive Event (ι : Type)
  | run (i : ι) (event : SyncNode.Event) (env : PublishInputs)
  /-- A packet that some node has put reaches a node that waits for it. -/
  | deliver (receiver : ι) (index : Nat) (sender : ι) (packet : Nat) (env : PublishInputs)

def step (s : ι → SyncNode σ) : Event ι → Option (ι → SyncNode σ)
  | .run _ (.fetcher (.data _ _)) _ => none
  | .run i event env => (SyncNode.step g i env (s i) event).map (Function.update s i)
  | .deliver receiver index sender packet env =>
    ((s sender).put[packet]?).bind fun data =>
      ((s receiver).fetcher.pendingInterests[index]?).bind fun qi =>
        if qi.request.name g <+: data.fullName (g.config receiver).cxx then
          (SyncNode.step g receiver env (s receiver) (.fetcher (.data index data))).map
            (Function.update s receiver)
        else none

def initial (_ : ι) : SyncNode σ := { dataStore := g.emptyStore }

/-- What a node asks for with its calls of `fetchData`. -/
def asked (i : ι) (es : List (Event ι)) : List FetchRequest :=
  es.flatMap fun
    | .run node event _ => if node = i then event.asks (g.config node) else []
    | .deliver _ _ _ _ _ => []

/-- Some node has inserted a block that the packet carries. -/
def Made (s : ι → SyncNode σ) (data : Data) : Prop :=
  ∃ i, ∃ block ∈ (s i).inserted, SyncNode.Carries g i data block

/-! ### Names -/

/-- No component of the name is a sequence number. -/
def Unnumbered (n : Name) : Prop := ∀ c ∈ n, c.type ≠ tlv.sequenceNumNameComponent

/-- Two lists with one marked element each: one of them begins with the other up to its mark only
where the marks are at one place. -/
theorem eq_of_marked_prefix {α : Type} {p : α → Prop} {front front' rest : List α} {a a' : α}
    (ha : p a) (hfront : ∀ c ∈ front', ¬p c) (hrest : ∀ c ∈ rest, ¬p c)
    (h : front ++ [a] <+: front' ++ [a'] ++ rest) : front ++ [a] = front' ++ [a'] := by
  obtain ⟨tail, h⟩ := h
  rw [List.append_assoc, List.append_assoc, List.singleton_append, List.singleton_append] at h
  rcases List.append_eq_append_iff.mp h with ⟨between, hfront', htail⟩ | ⟨between, rfl, hrest'⟩
  · cases between with
    | nil => rw [hfront', List.append_nil, (List.cons.inj htail).1]
    | cons c between =>
      obtain ⟨rfl, -⟩ := List.cons.inj htail
      exact absurd ha (hfront _ (by simp [hfront']))
  · cases between with
    | nil => rw [List.append_nil, (List.cons.inj hrest').1]
    | cons c between =>
      have hmem : a ∈ rest := by simp [(List.cons.inj hrest').2]
      exact absurd ha (hrest a hmem)

section Names

variable {g} {request : FetchRequest} {i : ι} {block : InsertedBlock}

omit [DecidableEq ι] in
/-- A name that is asked for ends in a number, so it is no full name. -/
theorem prefix_of_fullName {cxx : NdnCxx} {data : Data}
    (h : request.name g <+: data.fullName cxx) : request.name g <+: data.name := by
  rcases List.prefix_concat_iff.mp h with heq | h
  · have hlast := List.append_inj_right' heq rfl
    have htype := congrArg Component.type (List.singleton_inj.mp hlast)
    exact absurd htype (by decide : tlv.sequenceNumNameComponent ≠ tlv.implicitSha256Digest)
  · exact h

omit [DecidableEq ι] in
/-- What carries a block under a name that begins with the name of a publication belongs to this
publication. -/
theorem name_eq_of_prefix (hnode : Unnumbered (g.nodePrefix block.nid))
    (h : request.name g <+: block.name g i) :
    request.name g = g.makeDataName block.nid (g.config i).bootstrapTime block.seqNo := by
  have hfront : Unnumbered (g.nodePrefix block.nid ++
      (match g.version with
        | .v3 => [.fromTimestamp (Component.timePointOfSeconds (g.config i).bootstrapTime)]
        | .v2 => [])) := by
    intro c hc
    rcases List.mem_append.mp hc with hc | hc
    · exact hnode c hc
    · cases hversion : g.version with
      | v3 =>
        rw [hversion] at hc
        obtain rfl := List.mem_singleton.mp hc
        exact (by decide : tlv.timestampNameComponent ≠ tlv.sequenceNumNameComponent)
      | v2 =>
        rw [hversion] at hc
        cases hc
  have hrest : ∃ rest, block.name g i =
      g.makeDataName block.nid (g.config i).bootstrapTime block.seqNo ++ rest ∧
        Unnumbered rest := by
    simp only [InsertedBlock.name, SVSyncBase.dataName]
    cases block.segNo with
    | none => exact ⟨[], (List.append_nil _).symm, nofun⟩
    | some segNo =>
      refine ⟨[.fromVersion 0, .fromSegment segNo], List.append_assoc .., fun c hc => ?_⟩
      rcases List.mem_cons.mp hc with rfl | hc
      · exact (by decide : tlv.versionNameComponent ≠ tlv.sequenceNumNameComponent)
      · obtain rfl := List.mem_singleton.mp hc
        exact (by decide : tlv.segmentNameComponent ≠ tlv.sequenceNumNameComponent)
  obtain ⟨rest, hname, hrest⟩ := hrest
  rw [hname] at h
  exact eq_of_marked_prefix (p := fun c : Component => c.type = tlv.sequenceNumNameComponent) rfl
    hfront hrest h

end Names

/-! ### Runs -/

variable {g} {s t : ι → SyncNode σ}

omit [DecidableEq ι] in
theorem Made.mono {data : Data} (h : Made g s data)
    (hgrows : ∀ i, (s i).inserted <+: (t i).inserted) : Made g t data := by
  obtain ⟨i, block, hblock, hcarries⟩ := h
  exact ⟨i, block, (hgrows i).mem hblock, hcarries⟩

theorem update_keeps {i : ι} {node : SyncNode σ} (h : (s i).inserted <+: node.inserted) (j : ι) :
    (s j).inserted <+: (Function.update s i node j).inserted := by
  by_cases hj : j = i
  · subst hj
    rwa [Function.update_self]
  · rw [Function.update_of_ne hj]

/-- The step of one node in a group whose packets were all made. -/
theorem genuine_update (h : ∀ i, SyncNode.Genuine g (Made g s) (s i)) {i : ι}
    {event : SyncNode.Event} {env : PublishInputs} {node : SyncNode σ}
    (hstep : SyncNode.step g i env (s i) event = some node)
    (harrives : ∀ index data, event = .fetcher (.data index data) → ∀ qi,
      (s i).fetcher.pendingInterests[index]? = some qi →
        SyncNode.Brought g (Made g s) qi.request data) (j : ι) :
    SyncNode.Genuine g (Made g (Function.update s i node)) (Function.update s i node j) := by
  have hgrows := update_keeps (SyncNode.step_keeps hstep).1
  have hmade : ∀ data, Made g s data → Made g (Function.update s i node) data :=
    fun data hdata => hdata.mono hgrows
  by_cases hj : j = i
  · subst hj
    rw [Function.update_self]
    refine ((h j).mono hmade).step hstep (fun index data hevent qi hqi => ?_) ?_
    · obtain ⟨hdata, hname⟩ := harrives index data hevent qi hqi
      exact ⟨hmade data hdata, hname⟩
    · intro block hblock data hcarries
      exact ⟨j, block, by rwa [Function.update_self], hcarries⟩
  · rw [Function.update_of_ne hj]
    exact (h j).mono hmade

theorem genuine_step {e : Event ι} (h : ∀ i, SyncNode.Genuine g (Made g s) (s i))
    (hstep : step g s e = some t) : ∀ i, SyncNode.Genuine g (Made g t) (t i) := by
  unfold step at hstep
  split at hstep
  · cases hstep
  · rename_i i event env hlocal
    obtain ⟨node, hnode, rfl⟩ := Option.map_eq_some_iff.mp hstep
    refine genuine_update h hnode fun index data hevent => ?_
    exact absurd hevent (hlocal index data)
  · rename_i receiver index sender packet env
    obtain ⟨data, hdata, hstep⟩ := Option.bind_eq_some_iff.mp hstep
    obtain ⟨qi, hqi, hstep⟩ := Option.bind_eq_some_iff.mp hstep
    split at hstep
    · rename_i hname
      obtain ⟨node, hnode, rfl⟩ := Option.map_eq_some_iff.mp hstep
      refine genuine_update h hnode fun index' data' hevent qi' hqi' => ?_
      obtain ⟨rfl, rfl⟩ := FetcherEvent.data.inj (SyncNode.Event.fetcher.inj hevent)
      obtain rfl := Option.some.inj (hqi.symm.trans hqi')
      exact ⟨(h sender).put data (List.mem_of_getElem? hdata), prefix_of_fullName hname⟩
    · cases hstep

theorem requests_update {past asks : List FetchRequest} {i j : ι} {node : SyncNode σ}
    (h : ((s j).requests).Perm past)
    (hnode : j = i → node.requests.Perm ((s i).requests ++ asks)) :
    ((Function.update s i node j).requests).Perm (past ++ if i = j then asks else []) := by
  by_cases hj : j = i
  · subst hj
    rw [Function.update_self, if_pos rfl]
    exact (hnode rfl).trans (h.append_right asks)
  · rw [Function.update_of_ne hj, if_neg (Ne.symm hj), List.append_nil]
    exact h

/-- Each request of a node is in one place. -/
theorem requests_step {e : Event ι} {past : List (Event ι)}
    (h : ∀ i, ((s i).requests).Perm (asked g i past)) (hstep : step g s e = some t) (i : ι) :
    ((t i).requests).Perm (asked g i (past ++ [e])) := by
  rw [asked, List.flatMap_append, List.flatMap_singleton]
  unfold step at hstep
  split at hstep
  · cases hstep
  · obtain ⟨node, hnode, rfl⟩ := Option.map_eq_some_iff.mp hstep
    exact requests_update (h i) fun _ => (SyncNode.step_keeps hnode).2
  · obtain ⟨data, -, hstep⟩ := Option.bind_eq_some_iff.mp hstep
    obtain ⟨qi, -, hstep⟩ := Option.bind_eq_some_iff.mp hstep
    split at hstep
    · obtain ⟨node, hnode, rfl⟩ := Option.map_eq_some_iff.mp hstep
      have hperm := requests_update (h i) fun _ => (SyncNode.step_keeps hnode).2
      rwa [show SyncNode.Event.asks _ _ = [] from rfl, ite_self] at hperm
    · cases hstep

omit [DecidableEq ι] in
theorem genuine_initial (i : ι) : SyncNode.Genuine g (Made g (initial g)) (initial g i) where
  stored data hdata := absurd hdata (g.finds.empty data)
  put _ hdata := absurd hdata List.not_mem_nil
  validating _ hv := absurd hv List.not_mem_nil
  satisfied _ _ hmem := absurd hmem List.not_mem_nil

/-- Each call of `fetchData` has one callback or is still under way, and whatever node a packet for
a callback comes from, it carries a block that some node has inserted, under a name that begins with
the name that was asked for: the name of the block's publication, when no other component can be
mistaken for its number. -/
theorem fetched_is_published {es : List (Event ι)}
    (hrun : run (step g) (initial g) es = some s) (i : ι) :
    (asked g i es).Perm ((s i).outcomes.map FetchOutcome.request ++ (s i).fetcher.outstanding) ∧
      (∀ data ∈ (s i).put, Made g s data) ∧
      ∀ request data, .satisfied request data ∈ (s i).outcomes →
        ∃ j, ∃ block ∈ (s j).inserted, SyncNode.Carries g j data block ∧
          request.name g <+: data.name ∧
          (Unnumbered (g.nodePrefix block.nid) →
            request.name g = g.makeDataName block.nid (g.config j).bootstrapTime block.seqNo) := by
  have hgenuine : ∀ i, SyncNode.Genuine g (Made g s) (s i) :=
    run_invariant (P := fun s => ∀ i, SyncNode.Genuine g (Made g s) (s i))
      (fun s e t hstep h => genuine_step h hstep) genuine_initial hrun
  have hall : Along (step g) (fun _ _ => True) (initial g) es :=
    along_of_forall (fun _ _ _ => trivial) _
  have hnone : ∀ i, ((initial g i).requests).Perm (asked g i []) := fun _ => .refl []
  have hrequests : ∀ i, ((s i).requests).Perm (asked g i es) :=
    run_history (P := fun past s => ∀ i, ((s i).requests).Perm (asked g i past))
      (fun past s e t hstep _ h => requests_step h hstep) hnone hall hrun
  refine ⟨(hrequests i).symm, (hgenuine i).put, fun request data hmem => ?_⟩
  obtain ⟨⟨j, block, hblock, hcarries⟩, hname⟩ := (hgenuine i).satisfied request data hmem
  refine ⟨j, block, hblock, hcarries, hname, fun hnode => ?_⟩
  exact name_eq_of_prefix hnode (hcarries.name ▸ hname)

/-- Three nodes under one prefix. -/
def exampleNodes : SyncGroup (Fin 3) (FullNameMap packetFormat) where
  cls := .svSyncShared
  groupPrefix := .ofStrings ["g"]
  node i := { sampleConfig.core with id := [.fromSegment i] }
  store := memoryDataStore (fullNameStorage packetFormat)
  emptyStore := ⟨∅, by simp⟩
  finds := memoryDataStore_finds (fun n => by simp [fullNameStorage])

def exampleRequest : FetchRequest := ⟨[.fromSegment 0], 100, 1⟩

/-- The first node publishes, the second one fetches and caches, and answers the third one. -/
def exampleFetches : List (Event (Fin 3)) :=
  let inputs : PublishInputs := { core := { signData := fun _ => some [1] } }
  [.run 0 (.publishData ⟨tlv.content, [7]⟩ 1000 [] 0) inputs,
    .run 1 (.setCacheAll true) inputs,
    .run 1 (.fetchData exampleRequest.nid none 1 0) inputs,
    .deliver 1 0 0 0 inputs,
    .run 2 (.fetchData exampleRequest.nid (some 100) 1 2) inputs,
    .run 1 (.dataInterest { name := exampleRequest.name exampleNodes }) inputs,
    .deliver 2 0 1 0 inputs]

theorem fetched_is_published_cached :
    let s := (run (step exampleNodes) (initial exampleNodes) exampleFetches).get
      (by decide +kernel)
    let data : Data :=
      { name := exampleRequest.name exampleNodes, freshnessPeriod := 1000, content := [7]
        signatureValue := some [1] }
    .satisfied exampleRequest data ∈ (s 2).outcomes ∧ ∃ j, ∃ block ∈ (s j).inserted,
      SyncNode.Carries exampleNodes j data block := by
  intro s data
  have hrun : run (step exampleNodes) (initial exampleNodes) exampleFetches = some s :=
    (Option.some_get _).symm
  have hcalled : .satisfied exampleRequest data ∈ (s 2).outcomes := by decide +kernel
  obtain ⟨-, -, hfetched⟩ := fetched_is_published hrun 2
  obtain ⟨j, block, hblock, hcarries, -⟩ := hfetched exampleRequest data hcalled
  exact ⟨hcalled, j, block, hblock, hcarries⟩

end SyncGroup

end NdnSvs
