import NdnSvs.Segmentation

/-! What each function of the publishing side changes.  A batch touches only the names of its own
publication, a commit attempt that gets through leaves the packets and the mapping behind, and the
loop of commits keeps what each of its rounds keeps. -/

namespace NdnSvs

open Lib Lib.Tlv

/-! ### Names of packets -/

/-- A name of a packet of the publication: its own, or that of a segment. -/
def IsPacketName (cfg : PubSubConfig) (nid : NodeID) (seqNo : SeqNo) (n : Name) : Prop :=
  let name := makeDataName cfg nid cfg.core.bootstrapTime seqNo
  n = name ∨ ∃ i, n = (name.appendVersion 0).appendSegment i

theorem segment_ne_sequenceNumber (m n : Nat) :
    Component.fromSegment m ≠ Component.fromSequenceNumber n := by
  intro h
  have htype := congrArg Component.type h
  simp [Component.fromSegment, Component.fromSequenceNumber, tlv.segmentNameComponent,
    tlv.sequenceNumNameComponent] at htype

theorem makeDataName_injective {cfg : PubSubConfig} {nid nid' : NodeID} {b : BootstrapTime}
    {s s' : SeqNo} (hs : s < 2 ^ 64) (hs' : s' < 2 ^ 64)
    (h : makeDataName cfg nid b s = makeDataName cfg nid' b s') : nid = nid' ∧ s = s' := by
  obtain ⟨hname, hseq⟩ := List.append_inj' h rfl
  obtain ⟨hnode, -⟩ := List.append_inj' hname rfl
  obtain ⟨hnid, -⟩ := List.append_inj' hnode rfl
  exact ⟨hnid, Component.fromSequenceNumber_injective hs hs' (List.singleton_inj.mp hseq)⟩

theorem makeMappingKey_injective {nid nid' : NodeID} {b : BootstrapTime} {s s' : SeqNo}
    (hs : s < 2 ^ 64) (hs' : s' < 2 ^ 64) (h : makeMappingKey nid b s = makeMappingKey nid' b s') :
    nid = nid' ∧ s = s' := by
  obtain ⟨hnid, htail⟩ := List.append_inj' h rfl
  have hseq := (List.cons.inj (List.cons.inj htail).2).1
  exact ⟨hnid, Component.fromSequenceNumber_injective hs hs' hseq⟩

/-- A packet name belongs to one publication only. -/
theorem IsPacketName.unique {cfg : PubSubConfig} {nid nid' : NodeID} {s s' : SeqNo} {n : Name}
    (hs : s < 2 ^ 64) (hs' : s' < 2 ^ 64) (h : IsPacketName cfg nid s n)
    (h' : IsPacketName cfg nid' s' n) : nid = nid' ∧ s = s' := by
  have hlast : ∀ (nid nid' : NodeID) (s s' i : Nat),
      makeDataName cfg nid cfg.core.bootstrapTime s ≠
        ((makeDataName cfg nid' cfg.core.bootstrapTime s').appendVersion 0).appendSegment i := by
    intro nid nid' s s' i heq
    obtain ⟨-, hseq⟩ := List.append_inj' heq rfl
    exact segment_ne_sequenceNumber _ _ (List.singleton_inj.mp hseq).symm
  rcases h with rfl | ⟨i, rfl⟩ <;> rcases h' with h' | ⟨j, h'⟩
  · exact makeDataName_injective hs hs' h'
  · exact absurd h' (hlast _ _ _ _ _)
  · exact absurd h'.symm (hlast _ _ _ _ _)
  · obtain ⟨hversion, -⟩ := List.append_inj' h' rfl
    obtain ⟨hname, -⟩ := List.append_inj' hversion rfl
    exact makeDataName_injective hs hs' hname

/-! ### Preparation -/

/-- The packets of a publication bear its names, each another one. -/
structure WellNamed (cfg : PubSubConfig) (nid : NodeID) (seqNo : SeqNo) (packets : List Data) :
    Prop where
  isName : ∀ d ∈ packets, IsPacketName cfg nid seqNo d.name
  nodup : (packets.map Data.name).Nodup

theorem WellNamed.nil (cfg : PubSubConfig) (nid : NodeID) (seqNo : SeqNo) :
    WellNamed cfg nid seqNo [] := ⟨by simp, by simp⟩

section Prepare

variable {cfg : PubSubConfig} {env : CoreInputs}

theorem encapsulate_name {name : Name} {inner outer : Data} {period : Int}
    {finalBlock : Option Component} (h : encapsulate cfg env name inner period
      finalBlock = .ok outer) :
    outer.name = name := by
  obtain ⟨wire, -, h⟩ := bind_eq_ok.mp h
  obtain ⟨fresh, hfresh, h⟩ := bind_eq_ok.mp h
  obtain rfl := setFreshnessPeriod_eq hfresh
  obtain ⟨signature, rfl⟩ := signData_eq h
  rfl

/-- The record that a preparation returns. -/
structure Prepares (cfg : PubSubConfig) (publication : AsyncPublication)
    (prepared : PreparedPublication) : Prop where
  seqNo : prepared.seqNo = publication.seqNo
  bootstrapTime : prepared.bootstrapTime = publication.bootstrapTime
  nodePrefix : prepared.nodePrefix = publication.nodePrefix
  ok : prepared.ok = true
  stored : prepared.stored = false
  retryScheduled : prepared.retryScheduled = false
  wellNamed : publication.bootstrapTime = cfg.core.bootstrapTime →
    WellNamed cfg publication.nodePrefix publication.seqNo prepared.outerPackets

theorem wellNamed_single {publication : AsyncPublication} {d : Data}
    (h : d.name = publication.dataName cfg)
    (hb : publication.bootstrapTime = cfg.core.bootstrapTime) :
    WellNamed cfg publication.nodePrefix publication.seqNo [d] := by
  refine ⟨fun d' hd' => .inl ?_, by simp⟩
  rw [List.mem_singleton.mp hd', h, AsyncPublication.dataName, hb]

theorem wellNamed_segments {publication : AsyncPublication} {packets : List Data}
    (hlength : packets.length < 2 ^ 64)
    (hnames : packets.map Data.name = (List.range packets.length).map
      fun i => ((publication.dataName cfg).appendVersion 0).appendSegment i)
    (hb : publication.bootstrapTime = cfg.core.bootstrapTime) :
    WellNamed cfg publication.nodePrefix publication.seqNo packets := by
  refine ⟨fun d hd => .inr ?_, ?_⟩
  · have hmem : d.name ∈ packets.map Data.name := List.mem_map_of_mem hd
    rw [hnames] at hmem
    obtain ⟨i, -, hi⟩ := List.mem_map.mp hmem
    rw [AsyncPublication.dataName, hb] at hi
    exact ⟨i, hi.symm⟩
  · rw [hnames]
    refine List.Nodup.map_on ?_ List.nodup_range
    intro i hi j hj hij
    obtain ⟨-, hsegment⟩ := List.append_inj' hij rfl
    have hi := List.mem_range.mp hi
    have hj := List.mem_range.mp hj
    exact nonNegativeInteger_injective (by omega) (by omega)
      (congrArg Component.value (List.singleton_inj.mp hsegment))

theorem prepare_prepares {publication : AsyncPublication} {prepared : PreparedPublication}
    (h : prepare cfg env publication = .ok prepared) : Prepares cfg publication prepared := by
  unfold prepare at h
  cases hkind : publication.kind with
  | bytes value =>
    rw [hkind] at h
    obtain ⟨data, -, h⟩ := bind_eq_ok.mp h
    obtain ⟨data, -, h⟩ := bind_eq_ok.mp h
    obtain ⟨innerWire, -, h⟩ := bind_eq_ok.mp h
    obtain ⟨outer, houter, h⟩ := bind_eq_ok.mp h
    obtain ⟨wire, -, h⟩ := bind_eq_ok.mp h
    split at h
    · obtain rfl := Except.ok.inj h
      exact ⟨rfl, rfl, rfl, rfl, rfl, rfl, wellNamed_single (encapsulate_name houter)⟩
    · obtain ⟨packets, hpackets, h⟩ := bind_eq_ok.mp h
      obtain rfl := Except.ok.inj h
      obtain ⟨-, inners, hcut⟩ := prepareSegmentedPackets_cut hpackets
      have hnames := hcut.names
      rw [← List.range_eq_range'] at hnames
      exact ⟨rfl, rfl, rfl, rfl, rfl, rfl,
        wellNamed_segments (hcut.length_le.trans_lt value.property) hnames⟩
  | nameOnly =>
    rw [hkind] at h
    obtain rfl := Except.ok.inj h
    exact ⟨rfl, rfl, rfl, rfl, rfl, rfl, fun _ => .nil _ _ _⟩
  | packet packet =>
    rw [hkind] at h
    obtain ⟨outer, houter, h⟩ := bind_eq_ok.mp h
    obtain rfl := Except.ok.inj h
    exact ⟨rfl, rfl, rfl, rfl, rfl, rfl, wellNamed_single (encapsulate_name houter)⟩

end Prepare

/-! ### The Data store -/

/-- The store has every packet under its name. -/
def DataStore.Has (store : DataStore) (packets : List Data) : Prop :=
  ∀ d ∈ packets, store[d.name]? = some d

/-- Only entries under packet names of the publication differ. -/
def DataStore.Differs (cfg : PubSubConfig) (nid : NodeID) (seqNo : SeqNo)
    (store store' : DataStore) :
    Prop :=
  ∀ n, ¬IsPacketName cfg nid seqNo n → store'[n]? = store[n]?

/-- The checks that a batch passes before its first insertion. -/
def Insertable (cfg : PubSubConfig) (packets : List Data) : Prop :=
  (packets = [] ∨ cfg.supportsErase) ∧
    packets.forM (checkFinalPacketSize cfg "prepared SVS Data exceeds MAX_NDN_PACKET_SIZE") = .ok ()

namespace DataStore

variable {cfg : PubSubConfig} {nid : NodeID} {seqNo : SeqNo}

theorem Differs.refl (store : DataStore) : Differs cfg nid seqNo store store := fun _ _ => rfl

theorem Differs.trans {s s' s'' : DataStore} (h : Differs cfg nid seqNo s s')
    (h' : Differs cfg nid seqNo s' s'') : Differs cfg nid seqNo s s'' :=
  fun n hn => (h' n hn).trans (h n hn)

/-- The packets of another publication stay. -/
theorem Differs.has {s s' : DataStore} (h : Differs cfg nid seqNo s s') {nid' : NodeID}
    {seqNo' : SeqNo} {packets : List Data} (hs : seqNo < 2 ^ 64) (hs' : seqNo' < 2 ^ 64)
    (hne : ¬(nid = nid' ∧ seqNo = seqNo')) (hnamed : WellNamed cfg nid' seqNo' packets)
    (hhas : s.Has packets) : s'.Has packets := by
  intro d hd
  rw [h d.name fun hname => hne (hname.unique hs hs' (hnamed.isName d hd))]
  exact hhas d hd

theorem insertLoop_get (packets : List Data) (store : DataStore) (inserted : List Name)
    (throwsAt : Option Nat) {n : Name} (hn : n ∉ packets.map Data.name) :
    (store.insertLoop inserted packets throwsAt).1[n]? = store[n]? := by
  induction packets generalizing store inserted throwsAt with
  | nil => rfl
  | cons d packets ih =>
    rw [List.map_cons, List.mem_cons, not_or] at hn
    rw [insertLoop]
    split
    · rfl
    · rw [ih _ _ _ hn.2, Map.get_insert_ne (Ne.symm hn.1)]

theorem insertLoop_has {packets : List Data} {store : DataStore} {inserted : List Name}
    {throwsAt : Option Nat} (hnodup : (packets.map Data.name).Nodup)
    (h : (store.insertLoop inserted packets throwsAt).2.2 = true) :
    (store.insertLoop inserted packets throwsAt).1.Has packets := by
  induction packets generalizing store inserted throwsAt with
  | nil => simp [Has]
  | cons d packets ih =>
    obtain ⟨hd, hnodup⟩ := List.nodup_cons.mp hnodup
    rw [insertLoop] at h ⊢
    by_cases hthrows : throwsAt = some 0
    · rw [if_pos hthrows] at h
      cases h
    · rw [if_neg hthrows] at h ⊢
      intro d' hd'
      rcases List.mem_cons.mp hd' with rfl | hd'
      · rw [insertLoop_get _ _ _ _ hd, Map.get_insert, if_pos rfl]
      · exact ih hnodup h d' hd'

theorem insertLoop_inserted (packets : List Data) (store : DataStore) (inserted : List Name)
    (throwsAt : Option Nat) : ∀ n ∈ (store.insertLoop inserted packets throwsAt).2.1,
      n ∈ inserted ∨ n ∈ packets.map Data.name := by
  induction packets generalizing store inserted throwsAt with
  | nil => exact fun n hn => .inl hn
  | cons d packets ih =>
    rw [insertLoop]
    split
    · exact fun n hn => .inl hn
    · intro n hn
      rcases ih _ _ _ n hn with hn | hn
      · rcases List.mem_append.mp hn with hn | hn
        · exact .inl hn
        · exact .inr (List.mem_cons.mpr (.inl (List.mem_singleton.mp hn)))
      · exact .inr (List.mem_cons_of_mem _ hn)

theorem insertLoop_none (packets : List Data) (store : DataStore) (inserted : List Name) :
    (store.insertLoop inserted packets none).2.2 = true := by
  induction packets generalizing store inserted with
  | nil => rfl
  | cons d packets ih => exact ih _ _

theorem eraseLoop_get (store : DataStore) {names : List Name} {throwsAt : Option Nat} {n : Name}
    (hn : n ∉ names) : (store.eraseLoop names throwsAt).1[n]? = store[n]? := by
  induction names generalizing store throwsAt with
  | nil => rfl
  | cons m names ih =>
    rw [List.mem_cons, not_or] at hn
    rw [eraseLoop]
    split
    · rfl
    · rw [ih _ hn.2, Map.get_erase_ne (Ne.symm hn.1)]

def eraseAll (store : DataStore) (names : List Name) : DataStore :=
  names.foldl (fun store name => store.erase name) store

/-- A loop none of whose erasures throws erases everything. -/
theorem eraseLoop_of_reliable {store : DataStore} {names : List Name} {throwsAt : Option Nat}
    (h : ∀ j ∈ throwsAt, names.length ≤ j) :
    store.eraseLoop names throwsAt = (store.eraseAll names, true) := by
  induction names generalizing store throwsAt with
  | nil => rfl
  | cons n names ih =>
    rw [eraseLoop, if_neg fun hzero => ?_]
    · refine ih fun j hj => ?_
      obtain ⟨i, hi, rfl⟩ := Option.map_eq_some_iff.mp hj
      have := h i hi
      rw [List.length_cons] at this
      omega
    · have := h 0 hzero
      simp at this

/-- A loop that throws has erased something, unless its first erasure throws. -/
theorem eraseLoop_false {store store' : DataStore} {names : List Name} {throwsAt : Option Nat}
    (h : store.eraseLoop names throwsAt = (store', false)) :
    ∃ j, throwsAt = some j ∧ j < names.length ∧ (j = 0 → store' = store) := by
  induction names generalizing store throwsAt with
  | nil => cases h
  | cons n names ih =>
    rw [eraseLoop] at h
    split at h
    · rename_i hzero
      exact ⟨0, hzero, Nat.zero_lt_succ _, fun _ => (Prod.mk.inj h).1.symm⟩
    · rename_i hzero
      obtain ⟨j, hj, hlt, -⟩ := ih h
      obtain ⟨i, rfl, rfl⟩ := Option.map_eq_some_iff.mp hj
      have hi : i ≠ 0 := fun hi => hzero (congrArg some hi)
      have hlt : i - 1 < names.length := hlt
      exact ⟨i, rfl, by rw [List.length_cons]; omega, fun h => absurd h hi⟩

/-- A loop with an erasure that throws ends with an exception. -/
theorem eraseLoop_fails {store : DataStore} {names : List Name} {j : Nat} (hj : j < names.length) :
    (store.eraseLoop names (some j)).2 = false := by
  induction names generalizing store j with
  | nil => exact absurd hj (Nat.not_lt_zero _)
  | cons n names ih =>
    rw [eraseLoop]
    split
    · rfl
    · rename_i hzero
      have hzero : j ≠ 0 := fun h => hzero (congrArg some h)
      rw [List.length_cons] at hj
      exact ih (show j - 1 < names.length by omega)

theorem eraseAll_get (store : DataStore) {names : List Name} {n : Name} (hn : n ∉ names) :
    (store.eraseAll names)[n]? = store[n]? := by
  induction names generalizing store with
  | nil => rfl
  | cons m names ih =>
    rw [List.mem_cons, not_or] at hn
    exact (ih _ hn.2).trans (Map.get_erase_ne (Ne.symm hn.1))

variable {env : PublishInputs} {store : DataStore} {packets : List Data}

theorem insertPreparedDataBatch_differs (hnamed : WellNamed cfg nid seqNo packets) :
    Differs cfg nid seqNo store (store.insertPreparedDataBatch cfg env packets).1 := by
  intro n hn
  have hnames : n ∉ packets.map Data.name := fun hmem => by
    obtain ⟨d, hd, rfl⟩ := List.mem_map.mp hmem
    exact hn (hnamed.isName d hd)
  have hloop := insertLoop_get packets store [] env.storeThrowsAt hnames
  have hinserted := insertLoop_inserted packets store [] env.storeThrowsAt n
  unfold insertPreparedDataBatch
  split
  · rfl
  · split
    · rfl
    · split
      · rename_i h
        rw [h] at hloop
        exact hloop
      · rename_i store' inserted h
        rw [h] at hloop hinserted
        have hn : n ∉ inserted.reverse := fun hmem => by
          rcases hinserted (List.mem_reverse.mp hmem) with h | h
          · cases h
          · exact hnames h
        have herased := @eraseLoop_get store' inserted.reverse env.eraseThrowsAt n hn
        split
        · rename_i herase
          rw [herase] at herased
          exact herased.trans hloop
        · rename_i herase
          rw [herase] at herased
          exact herased.trans hloop

theorem insertPreparedDataBatch_ok
    (h : (store.insertPreparedDataBatch cfg env packets).2 = .ok ()) : Insertable cfg packets ∧
      ((packets.map Data.name).Nodup →
        (store.insertPreparedDataBatch cfg env packets).1.Has packets) := by
  unfold insertPreparedDataBatch at h ⊢
  split at h
  · cases h
  · rename_i herase
    have herase : packets = [] ∨ cfg.supportsErase := by
      by_contra hnot
      exact herase ⟨fun hnil => hnot (.inl hnil), fun hs => hnot (.inr hs)⟩
    rw [if_neg ‹_›]
    split at h
    · cases h
    · rename_i hcheck
      refine ⟨⟨herase, hcheck⟩, fun hnodup => ?_⟩
      split at h
      · rename_i hloop
        have hhas := @insertLoop_has packets store [] env.storeThrowsAt hnodup
        rw [hloop] at hhas
        exact hhas rfl
      · split at h
        · cases h
        · cases h

/-- A batch that passes its checks is inserted when the store throws at none of it. -/
theorem insertPreparedDataBatch_of_insertable (h : Insertable cfg packets)
    (hthrows : env.storeThrowsAt = none) :
    (store.insertPreparedDataBatch cfg env packets).2 = .ok () := by
  have herase : ¬(packets ≠ [] ∧ ¬cfg.supportsErase) := fun hnot => by
    rcases h.1 with hnil | hs
    · exact hnot.1 hnil
    · exact hnot.2 hs
  have hloop := insertLoop_none packets store []
  unfold insertPreparedDataBatch
  rw [if_neg herase, h.2, hthrows]
  cases hresult : store.insertLoop [] packets none with
  | mk store result =>
    obtain ⟨inserted, done⟩ := result
    rw [hresult] at hloop
    obtain rfl : done = true := hloop
    rfl

theorem removePreparedDataBatch_differs (hnamed : WellNamed cfg nid seqNo packets)
    (throwsAt : Option Nat) :
    Differs cfg nid seqNo store (store.removePreparedDataBatch cfg packets throwsAt).1 := by
  intro n hn
  unfold removePreparedDataBatch
  split
  · rfl
  · refine eraseLoop_get _ fun hmem => ?_
    obtain ⟨d, hd, rfl⟩ := List.mem_map.mp (List.mem_reverse.mp hmem)
    exact hn (hnamed.isName d hd)

/-- A removal that does not succeed leaves the store as it is, unless an erasure has gone before the
one that throws. -/
theorem removePreparedDataBatch_false {throwsAt : Option Nat} {store' : DataStore}
    (hfirst : ∀ j ∈ throwsAt, j = 0)
    (h : store.removePreparedDataBatch cfg packets throwsAt = (store', false)) :
    store' = store := by
  unfold removePreparedDataBatch at h
  split at h
  · exact (Prod.mk.inj h).1.symm
  · obtain ⟨j, hj, -, hsame⟩ := eraseLoop_false h
    exact hsame (hfirst j hj)

end DataStore

/-! ### Commit attempts -/

/-- The rollback of a commit attempt takes all packets back or none: when a mapping insertion
throws, no erasure after the first one does. -/
def PublishInputs.TakesBack (env : PublishInputs) : Prop :=
  env.mappingThrows → ∀ j ∈ env.eraseThrowsAt, j = 0

instance (env : PublishInputs) : Decidable env.TakesBack := by
  unfold PublishInputs.TakesBack
  infer_instance

namespace Publisher

variable {cfg : PubSubConfig} {env : PublishInputs}

theorem nodeOf_eq (cfg : PubSubConfig) (nodePrefix : Name) :
    SVSyncCore.targetNode cfg.core (nodeOf cfg nodePrefix) = nodeOf cfg nodePrefix := by
  simp only [SVSyncCore.targetNode, nodeOf]
  split <;> simp_all

/-- The mappings of a store stay, and those of other publications are the same. -/
structure MappingsGrow (nid : NodeID) (b : BootstrapTime) (seqNo : SeqNo)
    (m m' : Map Name MappingEntryPair) : Prop where
  kept : ∀ key : Name, (m[key]?).isSome → (m'[key]?).isSome
  other : ∀ key : Name, key ≠ makeMappingKey nid b seqNo → m'[key]? = m[key]?

theorem MappingsGrow.refl {nid : NodeID} {b : BootstrapTime} {seqNo : SeqNo}
    (m : Map Name MappingEntryPair) : MappingsGrow nid b seqNo m m := ⟨fun _ h => h, fun _ _ => rfl⟩

theorem MappingsGrow.trans {nid : NodeID} {b : BootstrapTime} {seqNo : SeqNo}
    {m m' m'' : Map Name MappingEntryPair} (h : MappingsGrow nid b seqNo m m')
    (h' : MappingsGrow nid b seqNo m' m'') : MappingsGrow nid b seqNo m m'' :=
  ⟨fun key hkey => h'.kept key (h.kept key hkey),
    fun key hkey => (h'.other key hkey).trans (h.other key hkey)⟩

variable (cfg env) in
theorem insertMapping_cases (p : Publisher) (nid : NodeID) (b : BootstrapTime) (seqNo : SeqNo)
    (name : Name) (additional : List Block) :
    (env.mappingThrows = true ∧ ∃ extra e,
      p.insertMapping cfg env nid b seqNo name additional = ({ p with extra }, .error e)) ∨
    (env.mappingThrows = false ∧ ∃ extra mappings, MappingsGrow nid b seqNo p.mappings mappings ∧
      (mappings[makeMappingKey nid b seqNo]?).isSome ∧
      p.insertMapping cfg env nid b seqNo name additional =
        ({ p with extra, mappings }, .ok ())) := by
  unfold insertMapping
  cases hthrows : env.mappingThrows with
  | true => exact .inl ⟨rfl, _, _, rfl⟩
  | false =>
    refine .inr ⟨rfl, _, _, ⟨fun key hkey => ?_, fun key hkey =>
      Map.get_insert_ne (Ne.symm hkey)⟩, ?_,
      rfl⟩
    · rw [Map.get_insert]
      split
      · rfl
      · exact hkey
    · rw [Map.get_insert, if_pos rfl]
      rfl

/-- The packets of a publication are in the store when it says so. -/
def Held (store : DataStore) (publication : PreparedPublication) : Prop :=
  publication.stored → store.Has publication.outerPackets

/-- A step of a commit attempt, which works on the stores and on the mark of the publication. -/
structure Tries (cfg : PubSubConfig) (p : Publisher) (publication : PreparedPublication)
    (p' : Publisher) (publication' : PreparedPublication) : Prop where
  state : p' = { p with dataStore := p'.dataStore, mappings := p'.mappings, extra := p'.extra }
  mark : publication' = { publication with stored := publication'.stored }
  differs : WellNamed cfg publication.nodePrefix publication.seqNo publication.outerPackets →
    p.dataStore.Differs cfg publication.nodePrefix publication.seqNo p'.dataStore
  grow : MappingsGrow publication.nodePrefix publication.bootstrapTime publication.seqNo p.mappings
    p'.mappings

theorem Tries.refl (p : Publisher) (publication : PreparedPublication) :
    Tries cfg p publication p publication :=
  ⟨rfl, rfl, fun _ => .refl _, .refl _⟩

theorem Tries.queue (p : Publisher) (publication : PreparedPublication) (extra : ExtraData) :
    Tries cfg p publication { p with extra } publication :=
  ⟨rfl, rfl, fun _ => .refl _, .refl _⟩

section Fields

variable {p p' : Publisher} {publication publication' : PreparedPublication}
  (h : Tries cfg p publication p' publication')

include h

theorem Tries.seqNo : publication'.seqNo = publication.seqNo := by rw [h.mark]

theorem Tries.nodePrefix : publication'.nodePrefix = publication.nodePrefix := by rw [h.mark]

theorem Tries.bootstrapTime : publication'.bootstrapTime = publication.bootstrapTime := by
  rw [h.mark]

theorem Tries.outerPackets : publication'.outerPackets = publication.outerPackets := by rw [h.mark]

theorem Tries.ok : publication'.ok = publication.ok := by rw [h.mark]

theorem Tries.core : p'.core = p.core := by rw [h.state]

theorem Tries.exists_state :
    ∃ dataStore mappings extra, p' = { p with dataStore, mappings, extra } := ⟨_, _, _, h.state⟩

end Fields

theorem Tries.trans {p p' p'' : Publisher} {publication publication' publication'' :
    PreparedPublication} (h : Tries cfg p publication p' publication')
    (h' : Tries cfg p' publication' p'' publication'') :
    Tries cfg p publication p'' publication'' := by
  obtain ⟨hstate, hpub, hdiffers, hgrow⟩ := h
  obtain ⟨hstate', hpub', hdiffers', hgrow'⟩ := h'
  rw [hpub] at hdiffers' hgrow'
  refine ⟨?_, ?_, fun hnamed => (hdiffers hnamed).trans (hdiffers' hnamed), hgrow.trans hgrow'⟩
  · rw [hstate', hstate]
  · rw [hpub', hpub]

variable (cfg env) in
theorem storePackets_tries (p : Publisher) (publication : PreparedPublication) :
    Tries cfg p publication (p.storePackets cfg env publication).1.1
      (p.storePackets cfg env publication).1.2 := by
  unfold storePackets
  split
  · exact .refl p publication
  · have hdiffers := fun hnamed : WellNamed cfg publication.nodePrefix publication.seqNo
      publication.outerPackets => @DataStore.insertPreparedDataBatch_differs cfg _ _ env
        p.dataStore _ hnamed
    split
    · rename_i hresult
      rw [hresult] at hdiffers
      exact ⟨rfl, rfl, hdiffers, .refl _⟩
    · rename_i hresult
      rw [hresult] at hdiffers
      exact ⟨rfl, rfl, hdiffers, .refl _⟩

theorem storePackets_held {p : Publisher} {publication : PreparedPublication}
    (hnamed : WellNamed cfg publication.nodePrefix publication.seqNo publication.outerPackets)
    (h : Held p.dataStore publication) :
    Held (p.storePackets cfg env publication).1.1.dataStore
      (p.storePackets cfg env publication).1.2 := by
  unfold storePackets
  split
  · exact h
  · rename_i hstored
    have hbatch := @DataStore.insertPreparedDataBatch_ok cfg env p.dataStore
      publication.outerPackets
    split
    · exact fun h => absurd h hstored
    · rename_i hresult
      rw [hresult] at hbatch
      exact fun _ => (hbatch rfl).2 hnamed.nodup

theorem storePackets_stored {p : Publisher} {publication : PreparedPublication}
    (h : (p.storePackets cfg env publication).2 = .ok ()) :
    (p.storePackets cfg env publication).1.2.stored = true ∨ publication.outerPackets = [] := by
  unfold storePackets at h ⊢
  split
  · rename_i hstored
    exact .inl hstored
  · rename_i hstored
    rw [if_neg hstored] at h
    split at h
    · cases h
    · by_cases hnil : publication.outerPackets = []
      · exact .inr hnil
      · exact .inl (by simp [hnil])

theorem storePackets_of_insertable {p : Publisher} {publication : PreparedPublication}
    (h : Insertable cfg publication.outerPackets) (hthrows : env.storeThrowsAt = none) :
    (p.storePackets cfg env publication).2 = .ok () := by
  have hnone := @DataStore.insertPreparedDataBatch_of_insertable cfg env p.dataStore _ h hthrows
  unfold storePackets
  split
  · rfl
  · split
    · rename_i hresult
      rw [hresult] at hnone
      cases hnone
    · rfl

variable (cfg env) in
theorem rollBack_tries (p : Publisher) (publication : PreparedPublication) (e : Error) :
    Tries cfg p publication (p.rollBack cfg env publication e).1.1
        (p.rollBack cfg env publication e).1.2 ∧
      (p.rollBack cfg env publication e).2 ≠ .ok () := by
  unfold rollBack
  split
  · have hdiffers := fun hnamed : WellNamed cfg publication.nodePrefix publication.seqNo
      publication.outerPackets => @DataStore.removePreparedDataBatch_differs cfg _ _ p.dataStore
        _ hnamed env.eraseThrowsAt
    split
    · rename_i hresult
      rw [hresult] at hdiffers
      exact ⟨⟨rfl, rfl, hdiffers, .refl _⟩, by simp⟩
    · rename_i hresult
      rw [hresult] at hdiffers
      exact ⟨⟨rfl, rfl, hdiffers, .refl _⟩, by simp⟩
  · exact ⟨⟨rfl, rfl, fun _ => .refl _, .refl _⟩, by simp⟩

theorem rollBack_held {p : Publisher} {publication : PreparedPublication}
    (hfirst : ∀ j ∈ env.eraseThrowsAt, j = 0) (h : Held p.dataStore publication) (e : Error) :
    Held (p.rollBack cfg env publication e).1.1.dataStore
      (p.rollBack cfg env publication e).1.2 := by
  unfold rollBack
  split
  · split
    · rename_i hresult
      rw [DataStore.removePreparedDataBatch_false hfirst hresult]
      exact h
    · exact fun h => (Bool.false_ne_true h).elim
  · exact fun h => (Bool.false_ne_true h).elim

variable (cfg env) in
theorem commitPreparedPublication_tries (p : Publisher) (publication : PreparedPublication) :
    Tries cfg p publication (p.commitPreparedPublication cfg env publication).1.1
      (p.commitPreparedPublication cfg env publication).1.2 := by
  have hstore := storePackets_tries cfg env p publication
  unfold commitPreparedPublication
  split
  · exact .refl p publication
  · split
    · rename_i hresult
      rw [hresult] at hstore
      exact hstore
    · rename_i p₁ publication₁ hresult
      rw [hresult] at hstore
      rcases insertMapping_cases cfg env p₁ publication₁.nodePrefix
        publication₁.bootstrapTime publication₁.seqNo publication₁.mappingName
        publication₁.mappingBlocks with
        ⟨-, extra, e, hmapping⟩ | ⟨-, extra, mappings, hgrow, -, hmapping⟩
      · rw [hmapping]
        exact (hstore.trans (.queue p₁ publication₁ extra)).trans (rollBack_tries _ _ _ _ e).1
      · rw [hmapping]
        exact hstore.trans ⟨rfl, rfl, fun _ => .refl _, hgrow⟩

/-- A commit leaves the packets of a publication in the store that says so. -/
theorem commitPreparedPublication_held {p : Publisher} {publication : PreparedPublication}
    (hnamed : WellNamed cfg publication.nodePrefix publication.seqNo publication.outerPackets)
    (htakes : env.TakesBack) (h : Held p.dataStore publication) :
    Held (p.commitPreparedPublication cfg env publication).1.1.dataStore
      (p.commitPreparedPublication cfg env publication).1.2 := by
  have hstore := @storePackets_held cfg env p publication hnamed h
  unfold commitPreparedPublication
  split
  · exact h
  · split
    · rename_i hresult
      rw [hresult] at hstore
      exact hstore
    · rename_i p₁ publication₁ hresult
      rw [hresult] at hstore
      rcases insertMapping_cases cfg env p₁ publication₁.nodePrefix
        publication₁.bootstrapTime publication₁.seqNo publication₁.mappingName
        publication₁.mappingBlocks with
        ⟨hthrows, extra, e, hmapping⟩ | ⟨-, extra, mappings, -, -, hmapping⟩
      · rw [hmapping]
        exact rollBack_held (p := { p₁ with extra }) (htakes hthrows) hstore e
      · rw [hmapping]
        exact hstore

/-- What a publication leaves behind that has got through. -/
structure Available (cfg : PubSubConfig) (p : Publisher) (nid : NodeID) (seqNo : SeqNo)
    (packets : List Data) : Prop where
  mapping : (p.mappings[makeMappingKey nid cfg.core.bootstrapTime seqNo]?).isSome
  packets : p.dataStore.Has packets

theorem commitPreparedPublication_ok {p : Publisher} {publication : PreparedPublication}
    (h : (p.commitPreparedPublication cfg env publication).2 = .ok ())
    (hb : publication.bootstrapTime = cfg.core.bootstrapTime)
    (hnamed : WellNamed cfg publication.nodePrefix publication.seqNo publication.outerPackets)
    (hheld : Held p.dataStore publication) :
    Available cfg (p.commitPreparedPublication cfg env publication).1.1 publication.nodePrefix
      publication.seqNo publication.outerPackets := by
  have hstore := storePackets_tries cfg env p publication
  have hstored := @storePackets_stored cfg env p publication
  unfold commitPreparedPublication at h ⊢
  split at h
  · cases h
  · rw [if_neg ‹_›]
    split at h
    · cases h
    · rename_i p₁ publication₁ hresult
      have hheld := @storePackets_held cfg env p publication hnamed hheld
      rw [hresult] at hstore hstored hheld
      rcases insertMapping_cases cfg env p₁ publication₁.nodePrefix
        publication₁.bootstrapTime publication₁.seqNo publication₁.mappingName
        publication₁.mappingBlocks with
        ⟨-, extra, e, hmapping⟩ | ⟨-, extra, mappings, -, hkey, hmapping⟩
      · rw [hmapping] at h
        exact absurd h (rollBack_tries _ _ _ _ e).2
      · simp only [hmapping]
        refine ⟨?_, ?_⟩
        · rw [← hb, ← hstore.nodePrefix, ← hstore.seqNo, ← hstore.bootstrapTime]
          exact hkey
        · rcases hstored rfl with hstored | hnil
          · exact hstore.outerPackets ▸ hheld hstored
          · rw [hnil]
            simp [DataStore.Has]

theorem commitPreparedPublication_of_insertable {p : Publisher} {publication : PreparedPublication}
    (hok : publication.ok = true) (h : Insertable cfg publication.outerPackets)
    (hstore : env.storeThrowsAt = none) (hmapping : env.mappingThrows = false) :
    (p.commitPreparedPublication cfg env publication).2 = .ok () := by
  have hstored := storePackets_of_insertable (p := p) h hstore
  unfold commitPreparedPublication
  rw [if_neg (by simp [hok])]
  split
  · rename_i hresult
    rw [hresult] at hstored
    exact hstored
  · rename_i p₁ publication₁ hresult
    rcases insertMapping_cases cfg env p₁ publication₁.nodePrefix
      publication₁.bootstrapTime publication₁.seqNo publication₁.mappingName
      publication₁.mappingBlocks with ⟨hthrows, -⟩ | ⟨-, extra, mappings, -, -, hinsert⟩
    · rw [hmapping] at hthrows
      cases hthrows
    · rw [hinsert]

/-! ### Announcements -/

/-- The core after the announcement of a number. -/
structure Announces (cfg : PubSubConfig) (nid : NodeID) (seqNo : SeqNo)
    (c c' : SVSyncCore) : Prop where
  pos : seqNo ≠ 0
  emits : SVSyncCore.Emits cfg.core
    (c.assigned cfg.core seqNo cfg.core.bootstrapTime nid) c'

variable (cfg env) in
theorem updateSeqNo_cases (p : Publisher) (seqNo : SeqNo) (nid : NodeID) :
    (seqNo = 0 ∧ ∃ e, p.updateSeqNo cfg env seqNo nid = (p, .error e)) ∨
      ∃ core, Announces cfg nid seqNo p.core core ∧
        p.updateSeqNo cfg env seqNo nid = ({ p with core }, .ok ()) := by
  unfold updateSeqNo
  by_cases hzero : seqNo = 0
  · refine .inl ⟨hzero, .invalidArgument "SVS sequence number must be positive", ?_⟩
    simp [SVSyncCore.updateSeqNo, VersionVector.set, hzero]
  · rcases SVSyncCore.updateSeqNo_cases cfg.core env.core p.core seqNo
      cfg.core.bootstrapTime nid with ⟨h, -⟩ | ⟨-, hok, hemits⟩
    · exact absurd h hzero
    · refine .inr ⟨_, ⟨hzero, hemits⟩, ?_⟩
      cases hresult : p.core.updateSeqNo cfg.core env.core seqNo cfg.core.bootstrapTime nid with
      | mk core result =>
        rw [hresult] at hok
        obtain rfl : result = .ok () := hok
        rfl

theorem updateSeqNo_core {p p' : Publisher} {seqNo : SeqNo} {nid : NodeID} {result : Result Unit}
    (h : p.updateSeqNo cfg env seqNo nid = (p', result)) :
    p'.core = (p.core.updateSeqNo cfg.core env.core seqNo cfg.core.bootstrapTime nid).1 := by
  have hcore := congrArg (fun outcome => outcome.1.core) h
  exact hcore.symm

theorem Announces.get {c c' : SVSyncCore} {nid : NodeID} {seqNo : SeqNo}
    (h : Announces cfg nid seqNo c c') (nid' : NodeID) (b : BootstrapTime) :
    c'.vv.get nid' b =
      if SVSyncCore.targetNode cfg.core nid = nid' ∧ cfg.core.bootstrapTime = b then seqNo
      else c.vv.get nid' b := by
  rw [h.emits.vv]
  exact VersionVector.get_put _ _ _ _ _ _

variable (cfg env) in
/-- A commit attempt throws, or it leaves everything behind that the publication needs and announces
it. -/
theorem attemptCommit_cases (p : Publisher) (nid : NodeID) (publication : PreparedPublication) :
    (∃ p' publication' e, p.attemptCommit cfg env nid publication = ((p', publication'), .error e) ∧
      Tries cfg p publication p' publication') ∨
    ∃ p' publication' core, p.attemptCommit cfg env nid publication =
        (({ p' with core, committed := p'.committed ++ [(nid, publication.seqNo)] }, publication'),
          .ok ()) ∧
      Tries cfg p publication p' publication' ∧ Announces cfg nid publication.seqNo p.core core ∧
      (publication.bootstrapTime = cfg.core.bootstrapTime →
        WellNamed cfg publication.nodePrefix publication.seqNo publication.outerPackets →
        Held p.dataStore publication →
        Available cfg p' publication.nodePrefix publication.seqNo publication.outerPackets) := by
  have htries := commitPreparedPublication_tries cfg env p publication
  have hok := @commitPreparedPublication_ok cfg env p publication
  unfold attemptCommit
  split
  · exact .inl ⟨p, publication, _, rfl, .refl p publication⟩
  · split
    · rename_i hresult
      rw [hresult] at htries
      exact .inl ⟨_, _, _, rfl, htries⟩
    · rename_i p₁ publication₁ hresult
      rw [hresult] at htries hok
      have hseq : publication₁.seqNo = publication.seqNo := htries.seqNo
      have hcore : p₁.core = p.core := htries.core
      rcases updateSeqNo_cases cfg env p₁ publication₁.seqNo nid with
        ⟨-, e, hupdate⟩ | ⟨core, hannounce, hupdate⟩
      · rw [hupdate]
        exact .inl ⟨_, _, _, rfl, htries⟩
      · rw [hupdate]
        rw [hseq, hcore] at hannounce
        exact .inr ⟨p₁, publication₁, core, by rw [← hseq], htries, hannounce, hok rfl⟩

theorem attemptCommit_error {p p' : Publisher} {nid : NodeID}
    {publication publication' : PreparedPublication} {e : Error}
    (h : p.attemptCommit cfg env nid publication = ((p', publication'), .error e)) :
    Tries cfg p publication p' publication' := by
  rcases attemptCommit_cases cfg env p nid publication with
    ⟨p₁, publication₁, e₁, hresult, htries⟩ | ⟨p₁, publication₁, core, hresult, -⟩
  · rw [h] at hresult
    obtain ⟨heq, -⟩ := Prod.mk.inj hresult
    obtain ⟨rfl, rfl⟩ := Prod.mk.inj heq
    exact htries
  · rw [h] at hresult
    cases (Prod.mk.inj hresult).2

theorem attemptCommit_held {p p' : Publisher} {nid : NodeID}
    {publication publication' : PreparedPublication} {result : Result Unit}
    (h : p.attemptCommit cfg env nid publication = ((p', publication'), result))
    (hnamed : WellNamed cfg publication.nodePrefix publication.seqNo publication.outerPackets)
    (htakes : env.TakesBack) (hheld : Held p.dataStore publication) :
    Held p'.dataStore publication' := by
  have hcommit := @commitPreparedPublication_held cfg env p publication hnamed htakes hheld
  unfold attemptCommit at h
  split at h
  · obtain ⟨heq, -⟩ := Prod.mk.inj h
    obtain ⟨rfl, rfl⟩ := Prod.mk.inj heq
    exact hheld
  · split at h
    · rename_i hresult
      rw [hresult] at hcommit
      obtain ⟨heq, -⟩ := Prod.mk.inj h
      obtain ⟨rfl, rfl⟩ := Prod.mk.inj heq
      exact hcommit
    · rename_i p₁ publication₁ hresult
      rw [hresult] at hcommit
      rcases updateSeqNo_cases cfg env p₁ publication₁.seqNo nid with
        ⟨-, e, hupdate⟩ | ⟨core, -, hupdate⟩
      · rw [hupdate] at h
        obtain ⟨heq, -⟩ := Prod.mk.inj h
        obtain ⟨rfl, rfl⟩ := Prod.mk.inj heq
        exact hcommit
      · rw [hupdate] at h
        obtain ⟨heq, -⟩ := Prod.mk.inj h
        obtain ⟨rfl, rfl⟩ := Prod.mk.inj heq
        exact hcommit

theorem attemptCommit_ok {p p' : Publisher} {nid : NodeID}
    {publication publication' : PreparedPublication}
    (h : p.attemptCommit cfg env nid publication = ((p', publication'), .ok ())) :
    ∃ p₁ core, p' = { p₁ with core, committed := p₁.committed ++ [(nid, publication.seqNo)] } ∧
      Tries cfg p publication p₁ publication' ∧ Announces cfg nid publication.seqNo p.core core ∧
      (publication.bootstrapTime = cfg.core.bootstrapTime →
        WellNamed cfg publication.nodePrefix publication.seqNo publication.outerPackets →
        Held p.dataStore publication →
        Available cfg p₁ publication.nodePrefix publication.seqNo publication.outerPackets) := by
  rcases attemptCommit_cases cfg env p nid publication with
    ⟨p₁, publication₁, e₁, hresult, -⟩ | ⟨p₁, publication₁, core, hresult, hrest⟩
  · rw [h] at hresult
    cases (Prod.mk.inj hresult).2
  · rw [h] at hresult
    obtain ⟨heq, -⟩ := Prod.mk.inj hresult
    obtain ⟨rfl, rfl⟩ := Prod.mk.inj heq
    exact ⟨p₁, core, rfl, hrest⟩

/-! ### Calls -/

/-- The stores differ only in what belongs to the publication. -/
structure Alters (cfg : PubSubConfig) (nid : NodeID) (seqNo : SeqNo) (p p' : Publisher) : Prop where
  state : p' = { p with dataStore := p'.dataStore, mappings := p'.mappings, extra := p'.extra }
  differs : p.dataStore.Differs cfg nid seqNo p'.dataStore
  grow : MappingsGrow nid cfg.core.bootstrapTime seqNo p.mappings p'.mappings

theorem Alters.refl (nid : NodeID) (seqNo : SeqNo) (p : Publisher) : Alters cfg nid seqNo p p :=
  ⟨rfl, .refl _, .refl _⟩

theorem Alters.core {nid : NodeID} {seqNo : SeqNo} {p p' : Publisher}
    (h : Alters cfg nid seqNo p p') : p'.core = p.core := by rw [h.state]

theorem Alters.trans {nid : NodeID} {seqNo : SeqNo} {p p' p'' : Publisher}
    (h : Alters cfg nid seqNo p p') (h' : Alters cfg nid seqNo p' p'') :
    Alters cfg nid seqNo p p'' :=
  ⟨by rw [h'.state, h.state], h.differs.trans h'.differs, h.grow.trans h'.grow⟩

theorem Tries.alters {p p' : Publisher} {publication publication' : PreparedPublication}
    (h : Tries cfg p publication p' publication')
    (hb : publication.bootstrapTime = cfg.core.bootstrapTime)
    (hnamed : WellNamed cfg publication.nodePrefix publication.seqNo publication.outerPackets) :
    Alters cfg publication.nodePrefix publication.seqNo p p' :=
  ⟨h.state, h.differs hnamed, hb ▸ h.grow⟩

/-- A synchronous call from the state `p`, once it has its number: it throws, or it leaves
everything behind that the publication needs, announces it and returns. -/
def Publishes (cfg : PubSubConfig) (nid : NodeID) (seqNo : SeqNo) (p : Publisher)
    (result : Outcome Publisher) (settle : Publisher → Publisher) : Prop :=
  (Alters cfg nid seqNo p result.1 ∧ result.2 ≠ .ok ()) ∨
    ∃ p₁ core packets, Alters cfg nid seqNo p p₁ ∧ Announces cfg nid seqNo p.core core ∧
      WellNamed cfg nid seqNo packets ∧ Available cfg p₁ nid seqNo packets ∧
      result = ((settle { p₁ with core }).return_ nid seqNo packets false, .ok ())

/-- The counters after a publication of bytes. -/
def settleBytes (nid : NodeID) (seqNo : SeqNo) (p : Publisher) : Publisher :=
  { p with
    reservedSeqNo := p.reservedSeqNo.insert nid seqNo
    nextAsyncCommitSeq := p.nextAsyncCommitSeq.insert nid ((seqNo + 1) % 2 ^ 64) }

theorem publishBytes_publishes (p : Publisher) (name : Name) (value : Span) (nodePrefix : Name)
    (freshnessPeriod : Int) (mappingBlocks : List Block) :
    Publishes cfg (nodeOf cfg nodePrefix) (p.nextSeqNo cfg (nodeOf cfg nodePrefix)) p
      (p.publishBytes cfg env name value nodePrefix freshnessPeriod mappingBlocks)
      (settleBytes (nodeOf cfg nodePrefix) (p.nextSeqNo cfg (nodeOf cfg nodePrefix))) := by
  simp only [publishBytes]
  split
  · exact .inl ⟨.refl _ _ p, by simp⟩
  · rename_i prepared hprepare
    have hprepares := prepare_prepares hprepare
    have hnamed := hprepares.wellNamed rfl
    have hseq := hprepares.seqNo
    have hnode := hprepares.nodePrefix
    have htries := commitPreparedPublication_tries cfg env p prepared
    have hok := @commitPreparedPublication_ok cfg env p prepared
    simp only at hseq hnode hnamed
    rw [← hseq, ← hnode] at hnamed
    have halters := htries.alters hprepares.bootstrapTime hnamed
    have hheld : Held p.dataStore prepared := fun h => by rw [hprepares.stored] at h; cases h
    rw [← hseq, ← hnode]
    split
    · rename_i hresult
      rw [hresult] at halters
      exact .inl ⟨halters, by simp⟩
    · rename_i p₁ prepared₁ hresult
      rw [hresult] at halters hok htries
      have havailable := hok rfl hprepares.bootstrapTime hnamed hheld
      have hcore : p₁.core = p.core := htries.core
      rcases updateSeqNo_cases cfg env p₁ prepared.seqNo prepared.nodePrefix with
        ⟨-, e, hupdate⟩ | ⟨core, hannounce, hupdate⟩
      · rw [hupdate]
        exact .inl ⟨halters, by simp⟩
      · rw [hupdate]
        rw [hcore] at hannounce
        have hpackets : prepared₁.outerPackets = prepared.outerPackets := htries.outerPackets
        exact .inr ⟨p₁, core, prepared.outerPackets, halters, hannounce, hnamed, havailable,
          by rw [← hpackets]; rfl⟩

theorem announce_publishes (p : Publisher) {p₀ : Publisher} (nid : NodeID) (seqNo : SeqNo)
    (name : Name) (mappingBlocks : List Block) {packets : List Data}
    (halters : Alters cfg nid seqNo p₀ p) (hnamed : WellNamed cfg nid seqNo packets)
    (hhas : p.dataStore.Has packets) :
    Publishes cfg nid seqNo p₀ (p.announce cfg env nid seqNo name mappingBlocks packets) id := by
  unfold announce
  have hcore : p.core = p₀.core := by rw [halters.state]
  rcases insertMapping_cases cfg env p nid cfg.core.bootstrapTime seqNo name
    mappingBlocks with ⟨-, extra, e, hmapping⟩ | ⟨-, extra, mappings, hgrow, hkey, hmapping⟩
  · rw [hmapping]
    exact .inl ⟨halters.trans ⟨rfl, .refl _, .refl _⟩, by simp⟩
  · have halters₁ : Alters cfg nid seqNo p₀ { p with extra, mappings } :=
      halters.trans ⟨rfl, .refl _, hgrow⟩
    rw [hmapping]
    simp only
    rcases updateSeqNo_cases cfg env { p with extra, mappings } seqNo nid with
      ⟨-, e, hupdate⟩ | ⟨core, hannounce, hupdate⟩
    · rw [hupdate]
      exact .inl ⟨halters₁, by simp⟩
    · rw [hupdate]
      exact .inr ⟨_, core, packets, halters₁, hcore ▸ hannounce, hnamed, ⟨hkey, hhas⟩, rfl⟩

theorem publishName_publishes (p : Publisher) (name nodePrefix : Name)
    (mappingBlocks : List Block) :
    Publishes cfg (nodeOf cfg nodePrefix) (p.nextSeqNo cfg (nodeOf cfg nodePrefix))
      (p.reserveSeqNo cfg (nodeOf cfg nodePrefix)).1
      (p.publishName cfg env name nodePrefix mappingBlocks) id :=
  announce_publishes _ _ _ _ _ (.refl _ _ _) (.nil _ _ _) (by simp [DataStore.Has])

variable (cfg env) in
theorem insertPacketAtSeq_cases (p : Publisher) (data : Data) (nid : NodeID) (seqNo : SeqNo) :
    let node := SVSyncCore.targetNode cfg.core nid
    (∃ p' e, p.insertPacketAtSeq cfg env data nid seqNo = (p', .error e) ∧
      Alters cfg node seqNo p p') ∨
    ∃ p' packet, p.insertPacketAtSeq cfg env data nid seqNo = (p', .ok packet) ∧
      Alters cfg node seqNo p p' ∧ WellNamed cfg node seqNo [packet] ∧
        p'.dataStore.Has [packet] := by
  intro node
  unfold insertPacketAtSeq
  cases data.wireEncode cfg.core.cxx with
  | error e => exact .inl ⟨p, e, rfl, .refl _ _ _⟩
  | ok wire =>
    rcases cfg.svsync.insertDataAtSeq_cases env p wire data.freshnessPeriod nid seqNo tlv.data with
      ⟨e, hresult⟩ | ⟨packet, hpacket, hresult⟩
    · exact .inl ⟨p, e, hresult, .refl _ _ _⟩
    · have hname : packet.name = makeDataName cfg node cfg.core.bootstrapTime seqNo := by
        obtain ⟨signature, rfl⟩ := SVSyncBase.makeData_eq hpacket
        rfl
      have halters : Alters cfg node seqNo p
          { p with dataStore := p.dataStore.insert packet.name packet } := by
        refine ⟨rfl, fun n hn => ?_, .refl _⟩
        exact Map.get_insert_ne fun heq => hn (.inl (heq.symm.trans hname))
      rcases hresult with ⟨e, hresult⟩ | hresult
      · exact .inl ⟨_, e, hresult, halters⟩
      · refine .inr ⟨_, packet, hresult, halters, ⟨fun d hd => .inl ?_, by simp⟩, fun d hd => ?_⟩
        · rw [List.mem_singleton.mp hd, hname]
        · obtain rfl := List.mem_singleton.mp hd
          have hhas : (p.dataStore.insert d.name d)[d.name]? = some d := by simp
          exact hhas

theorem publishPacket_publishes (p : Publisher) (data : Data) (nodePrefix : Name)
    (mappingBlocks : List Block) :
    Publishes cfg (nodeOf cfg nodePrefix) (p.nextSeqNo cfg (nodeOf cfg nodePrefix))
      (p.reserveSeqNo cfg (nodeOf cfg nodePrefix)).1
      (p.publishPacket cfg env data nodePrefix mappingBlocks) id := by
  have hcases := insertPacketAtSeq_cases cfg env (p.reserveSeqNo cfg (nodeOf cfg nodePrefix)).1
    data (nodeOf cfg nodePrefix) (p.reserveSeqNo cfg (nodeOf cfg nodePrefix)).2
  simp only [nodeOf_eq] at hcases
  simp only [publishPacket]
  rcases hcases with ⟨p', e, hinsert, halters⟩ | ⟨p', packet, hinsert, halters, hnamed, hhas⟩
  · rw [hinsert]
    exact .inl ⟨halters, by simp⟩
  · rw [hinsert]
    exact announce_publishes p' _ _ _ _ halters hnamed hhas

/-- What an asynchronous call puts in line. -/
structure Stages (cfg : PubSubConfig) (nid : NodeID) (s : SeqNo) (dataStore : DataStore)
    (prepared : PreparedPublication) : Prop where
  seqNo : prepared.seqNo = s
  nodePrefix : prepared.nodePrefix = nid
  bootstrapTime : prepared.bootstrapTime = cfg.core.bootstrapTime
  ok : prepared.ok = true
  retryScheduled : prepared.retryScheduled = false
  wellNamed : WellNamed cfg nid s prepared.outerPackets
  insertable : Insertable cfg prepared.outerPackets
  has : dataStore.Has prepared.outerPackets

/-- The state after a publication has been staged. -/
def stage (nid : NodeID) (seqNo : SeqNo) (prepared : PreparedPublication) (p : Publisher) :
    Publisher :=
  { p with
    reservedSeqNo := p.reservedSeqNo.insert nid seqNo
    nextAsyncCommitSeq :=
      if nid ∈ p.nextAsyncCommitSeq then p.nextAsyncCommitSeq
      else p.nextAsyncCommitSeq.insert nid seqNo
    stagedPublicationPackets :=
      p.stagedPublicationPackets.insertAt nid seqNo prepared.outerPackets
    posted := p.posted ++ [prepared] }

variable (cfg env) in
/-- An asynchronous call throws, or it stages its publication and returns. -/
theorem prepareAndStage_cases (p : Publisher) (kind : AsyncPublication.Kind)
    (name nodePrefix : Name)
    (freshnessPeriod : Int) (mappingBlocks : List Block) :
    let nid := nodeOf cfg nodePrefix
    let seqNo := p.nextSeqNo cfg nid
    let p₀ := p.reserve nid (p.lastSeqNo cfg nid)
    let result := p.prepareAndStageAsyncPublication cfg env kind name nodePrefix freshnessPeriod
      mappingBlocks
    (Alters cfg nid seqNo p₀ result.1 ∧ result.2 ≠ .ok ()) ∨
      ∃ p₁ prepared, Alters cfg nid seqNo p₀ p₁ ∧ Stages cfg nid seqNo p₁.dataStore prepared ∧
        result = ((stage nid seqNo prepared p₁).return_ nid seqNo prepared.outerPackets true,
          .ok ()) := by
  simp only [prepareAndStageAsyncPublication]
  split
  · exact .inl ⟨.refl _ _ _, by simp⟩
  · rename_i prepared hprepare
    have hprepares := prepare_prepares hprepare
    have hnamed := hprepares.wellNamed rfl
    simp only at hnamed
    have hbatch := @DataStore.insertPreparedDataBatch_ok cfg env p.dataStore
      prepared.outerPackets
    have hdiffers := @DataStore.insertPreparedDataBatch_differs cfg _ _ env p.dataStore _ hnamed
    split
    · rename_i hresult
      have hresult : p.dataStore.insertPreparedDataBatch cfg env
        prepared.outerPackets = _ := hresult
      rw [hresult] at hdiffers
      exact .inl ⟨⟨rfl, hdiffers, .refl _⟩, by simp⟩
    · rename_i dataStore hresult
      have hresult : p.dataStore.insertPreparedDataBatch cfg env
        prepared.outerPackets = _ := hresult
      rw [hresult] at hdiffers hbatch
      obtain ⟨hinsertable, hhas⟩ := hbatch rfl
      exact .inr ⟨{ p.reserve (nodeOf cfg nodePrefix) (p.lastSeqNo cfg (nodeOf cfg nodePrefix)) with
          dataStore }, { prepared with stored := prepared.outerPackets ≠ [] },
        ⟨rfl, hdiffers, .refl _⟩, ⟨hprepares.seqNo, hprepares.nodePrefix, hprepares.bootstrapTime,
          hprepares.ok, hprepares.retryScheduled, hnamed, hinsertable, hhas hnamed.nodup⟩, rfl⟩

/-- Nothing fails from outside. -/
structure Quiet (env : PublishInputs) : Prop where
  hook : env.hookThrows = false
  store : env.storeThrowsAt = none
  mapping : env.mappingThrows = false

theorem attemptCommit_of_insertable {p : Publisher} {nid : NodeID}
    {publication : PreparedPublication} (hseq : publication.seqNo ≠ 0)
    (hok : publication.ok = true) (h : Insertable cfg publication.outerPackets)
    (hquiet : Quiet env) : (p.attemptCommit cfg env nid publication).2 = .ok () := by
  have hcommit := commitPreparedPublication_of_insertable (p := p) hok h hquiet.store hquiet.mapping
  have htries := commitPreparedPublication_tries cfg env p publication
  unfold attemptCommit
  rw [if_neg (by simp [hquiet.hook])]
  split
  · rename_i hresult
    rw [hresult] at hcommit
    exact hcommit
  · rename_i p₁ publication₁ hresult
    rw [hresult] at htries
    rcases updateSeqNo_cases cfg env p₁ publication₁.seqNo nid with
      ⟨hzero, -⟩ | ⟨core, -, hupdate⟩
    · exact absurd (htries.seqNo.symm.trans hzero) hseq
    · rw [hupdate]

/-! ### The loop of commits -/

theorem takeHead_eq_some {p p' : Publisher} {nid : NodeID} {publication : PreparedPublication} :
    p.takeHead nid = some (publication, p') ↔ ∃ next, p.nextAsyncCommitSeq[nid]? = some next ∧
      p.preparedPublications.getAt nid next = some publication ∧
      publication.retryScheduled = false ∧
      p' = { p with preparedPublications := p.preparedPublications.eraseAt nid next } := by
  unfold takeHead
  cases hnext : p.nextAsyncCommitSeq[nid]? with
  | none => simp
  | some next =>
    simp only [Option.some.injEq, exists_eq_left']
    cases hat : p.preparedPublications.getAt nid next with
    | none => simp
    | some found =>
      cases hretry : found.retryScheduled with
      | true =>
        simp only [hretry, if_true, Option.some.injEq, reduceCtorEq, false_iff]
        rintro ⟨rfl, hfalse, -⟩
        rw [hretry] at hfalse
        cases hfalse
      | false =>
        simp only [hretry, Bool.false_eq_true, if_false, Option.some.injEq, Prod.mk.injEq]
        constructor
        · rintro ⟨rfl, rfl⟩
          exact ⟨rfl, hretry, rfl⟩
        · rintro ⟨rfl, -, rfl⟩
          exact ⟨rfl, rfl⟩

/-- What every round keeps holds after the loop, when the inputs of all rounds are of one kind. -/
theorem commitLoop_invariant {P : Publisher → Prop} {E : PublishInputs → Prop} {nid : NodeID}
    (hfail : ∀ env p publication p₀ p' publication' e, E env → P p →
      p.takeHead nid = some (publication, p₀) →
      p₀.attemptCommit cfg env nid publication = ((p', publication'), .error e) →
      P (p'.requeueFailedPublication nid publication'))
    (hdone : ∀ env p publication p₀ p' publication', E env → P p →
      p.takeHead nid = some (publication, p₀) →
      p₀.attemptCommit cfg env nid publication = ((p', publication'), .ok ()) →
      P (p'.advanceHead nid publication'.seqNo))
    (fuel : Nat) {attempts : Nat → PublishInputs} (hattempts : ∀ i, E (attempts i)) {p : Publisher}
    (hp : P p) : P (commitLoop cfg nid fuel attempts p) := by
  induction fuel generalizing attempts p with
  | zero => exact hp
  | succ fuel ih =>
    rw [commitLoop]
    split
    · exact hp
    · rename_i publication p₀ htake
      split
      · rename_i hattempt
        exact hfail _ _ _ _ _ _ _ (hattempts 0) hp htake hattempt
      · rename_i hattempt
        exact ih (fun i => hattempts (i + 1)) (hdone _ _ _ _ _ _ (hattempts 0) hp htake hattempt)

variable (cfg) in
/-- The first round of the loop, which no other round has prepared. -/
theorem commitReady_cases (p : Publisher) (attempts : Nat → PublishInputs) (nid : NodeID) :
    p.commitReadyPreparedPublications cfg attempts nid = p ∨
      ∃ publication p₀ p' publication', p.takeHead nid = some (publication, p₀) ∧
        ((∃ e, p₀.attemptCommit cfg (attempts 0) nid publication = ((p', publication'), .error e) ∧
            p.commitReadyPreparedPublications cfg attempts nid =
              p'.requeueFailedPublication nid publication') ∨
          (p₀.attemptCommit cfg (attempts 0) nid publication = ((p', publication'), .ok ()) ∧
            p.commitReadyPreparedPublications cfg attempts nid =
              commitLoop cfg nid (p.preparedPublications.sizeAt nid) (fun i => attempts (i + 1))
                (p'.advanceHead nid publication'.seqNo))) := by
  unfold commitReadyPreparedPublications
  rw [commitLoop]
  split
  · exact .inl rfl
  · rename_i publication p₀ htake
    split
    · rename_i p' publication' e hattempt
      exact .inr ⟨publication, p₀, p', publication', htake, .inl ⟨e, hattempt, rfl⟩⟩
    · rename_i p' publication' hattempt
      exact .inr ⟨publication, p₀, p', publication', htake, .inr ⟨hattempt, rfl⟩⟩

/-! ### Steps of the queues and of the core -/

section Steps

variable {p p' : Publisher} {o : Occurrence}

theorem step_preparedPublication {index : Nat} (ho : o.event = .preparedPublication index) :
    p.step cfg o = some p' ↔ ∃ publication, p.posted[index]? = some publication ∧
      p' = ({ p with posted := p.posted.eraseIdx index } : Publisher).onPreparedPublication cfg
        o.inputs publication := by
  simp only [step, ho]
  cases p.posted[index]? <;> simp [eq_comm]

theorem step_retry {index : Nat} (ho : o.event = .retry index) :
    p.step cfg o = some p' ↔ ∃ nid seqNo, p.retries[index]? = some (nid, seqNo) ∧
      p' = ({ p with retries := p.retries.eraseIdx index } : Publisher).onRetry cfg o.inputs nid
        seqNo := by
  simp only [step, ho]
  rcases p.retries[index]? with _ | ⟨nid, seqNo⟩ <;> simp [eq_comm]

theorem step_core {event : SVSyncCore.Event} (ho : o.event = .core event) :
    p.step cfg o = some p' ↔ ∃ core, p.core.step cfg.core (o.inputs 0).core event = some core ∧
      p' = { p with core } := by
  simp only [step, ho]
  cases p.core.step cfg.core (o.inputs 0).core event <;> simp [eq_comm]

end Steps

end Publisher

end NdnSvs
