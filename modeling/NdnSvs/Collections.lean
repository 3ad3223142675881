import NdnSvs.SubscribeRuns

/-! Extension blocks are applied all or nothing: a collection with a malformed known block changes
nothing, and after any other collection every mapping of its lists is known. -/

namespace NdnSvs

open Lib Lib.Tlv Std

/-- The block decodes, when it is of a known type. -/
structure Decodes (cxx : NdnCxx) (b : Block) : Prop where
  mappings : b.type = tlv.mappingData → ∃ list, MappingList.decode b = .ok list
  packet : b.type = tlv.data → ∃ data, cxx.decodeData b = some data
  repairs : b.type = tlv.repairData → ∃ requests, decodeRepairRequests b = .ok requests

/-- A known block is well-formed with its children of known types. -/
structure KnownWellFormed (cxx : NdnCxx) (b : Block) : Prop where
  parses : b.parse.isSome
  decodes : Decodes cxx b
  children : ∀ child ∈ childrenOf b, Decodes cxx child

structure WellFormedCollection (cxx : NdnCxx) (blocks : List Block) : Prop where
  length_le : blocks.length ≤ SyncProtocolCodec.maxExtensionBlocks
  nodup : ((blocks.filter isKnownExtensionBlock).map Block.type).Nodup
  known : ∀ b ∈ blocks, isKnownExtensionBlock b → KnownWellFormed cxx b

section Check

variable {cxx : NdnCxx}

theorem decode_bind_ok {α : Type} {x : Result α} : (do let _ ← x; pure () : Result Unit) = .ok () ↔
    ∃ a, x = .ok a := by
  cases x with
  | ok a => exact iff_of_true rfl ⟨a, rfl⟩
  | error e => exact iff_of_false (by simp) (by simp)

theorem checkChild_eq_ok {child : Block} : checkChild cxx child = .ok () ↔ Decodes cxx child := by
  unfold checkChild
  split
  · rename_i htype
    rw [decode_bind_ok]
    refine ⟨fun h => ⟨fun _ => h, ?_, ?_⟩, fun h => h.mappings htype⟩
    · rw [htype]
      exact fun h => absurd h (by decide)
    · rw [htype]
      exact fun h => absurd h (by decide)
  · rename_i hmappings
    split
    · rename_i htype
      rw [decode_bind_ok]
      refine ⟨fun h => ⟨fun h => absurd h hmappings, fun _ => ?_, ?_⟩, fun h => ?_⟩
      · obtain ⟨data, hdata⟩ := h
        exact ⟨data, orMalformed_eq_ok.mp hdata⟩
      · rw [htype]
        exact fun h => absurd h (by decide)
      · obtain ⟨data, hdata⟩ := h.packet htype
        exact ⟨data, orMalformed_eq_ok.mpr hdata⟩
    · rename_i hdata
      split
      · rename_i htype
        rw [decode_bind_ok]
        exact ⟨fun h => ⟨fun h => absurd h hmappings, fun h => absurd h hdata, fun _ => h⟩,
          fun h => h.repairs htype⟩
      · rename_i hrepairs
        exact iff_of_true rfl ⟨fun h => absurd h hmappings, fun h => absurd h hdata,
          fun h => absurd h hrepairs⟩

theorem checkKnownBlock_eq_ok {b : Block} (hknown : isKnownExtensionBlock b) :
    checkKnownBlock cxx b = .ok () ↔ KnownWellFormed cxx b := by
  have hchildren : ∀ children, b.parse = some children →
      (children.forM (checkChild cxx) = .ok () ↔ ∀ child ∈ childrenOf b, Decodes cxx child) := by
    intro children hparse
    rw [forM_eq_ok, childrenOf, hparse, Option.getD_some]
    exact forall₂_congr fun child _ => checkChild_eq_ok
  unfold checkKnownBlock
  cases hparse : b.parse with
  | none => exact iff_of_false (by simp [orMalformed]) fun h => by simpa [hparse] using h.parses
  | some children =>
    rw [orMalformed_some, ok_bind]
    by_cases htype : b.type = tlv.mappingData
    · rw [if_pos htype]
      cases hdecode : MappingList.decode b with
      | error e =>
        refine iff_of_false (by simp) fun h => ?_
        obtain ⟨list, hlist⟩ := h.decodes.mappings htype
        simp [hdecode] at hlist
      | ok list =>
        refine (hchildren children hparse).trans
          ⟨fun h => ⟨by simp [hparse], ?_, h⟩, fun h => h.children⟩
        refine ⟨fun _ => ⟨list, hdecode⟩, ?_, ?_⟩
        · rw [htype]
          exact fun h => absurd h (by decide)
        · rw [htype]
          exact fun h => absurd h (by decide)
    · have hrepair : b.type = tlv.repairData := by
        simp only [isKnownExtensionBlock, decide_eq_true_eq] at hknown
        exact hknown.resolve_left htype
      rw [if_neg htype]
      cases hdecode : decodeRepairRequests b with
      | error e =>
        refine iff_of_false (by simp) fun h => ?_
        obtain ⟨requests, hrequests⟩ := h.decodes.repairs hrepair
        simp [hdecode] at hrequests
      | ok requests =>
        refine (hchildren children hparse).trans
          ⟨fun h => ⟨by simp [hparse], ?_, h⟩, fun h => h.children⟩
        refine ⟨fun h => absurd h htype, ?_, fun _ => ⟨requests, hdecode⟩⟩
        rw [hrepair]
        exact fun h => absurd h (by decide)

theorem checkBlocks_eq_ok {types : List BlockType} {blocks : List Block} :
    checkBlocks cxx types blocks = .ok () ↔
      ((blocks.filter isKnownExtensionBlock).map Block.type).Nodup ∧
      (∀ b ∈ blocks, isKnownExtensionBlock b → b.type ∉ types) ∧
      ∀ b ∈ blocks, isKnownExtensionBlock b → KnownWellFormed cxx b := by
  induction blocks generalizing types with
  | nil => simp [checkBlocks]
  | cons b blocks ih =>
    rw [checkBlocks]
    split
    · rename_i hknown
      rw [require_bind_eq_ok, bind_eq_ok]
      have hcheck : (∃ u, checkKnownBlock cxx b = .ok u ∧
          checkBlocks cxx (b.type :: types) blocks = .ok ()) ↔ KnownWellFormed cxx b ∧
          checkBlocks cxx (b.type :: types) blocks = .ok () := by
        rw [← checkKnownBlock_eq_ok hknown]
        exact ⟨fun h => h.elim fun _ h => h, fun h => ⟨(), h⟩⟩
      rw [hcheck, ih, List.filter_cons_of_pos hknown, List.map_cons, List.nodup_cons,
        List.forall_mem_cons, List.forall_mem_cons]
      constructor
      · rintro ⟨hnew, hb, hnodup, htypes, hblocks⟩
        refine ⟨⟨fun hmem => ?_, hnodup⟩, ⟨fun _ => hnew, fun c hc hk hmem => ?_⟩,
          fun _ => hb, hblocks⟩
        · obtain ⟨c, hc, heq⟩ := List.mem_map.mp hmem
          obtain ⟨hc, hk⟩ := List.mem_filter.mp hc
          exact htypes c hc hk (heq ▸ List.mem_cons_self)
        · exact htypes c hc hk (List.mem_cons_of_mem _ hmem)
      · rintro ⟨⟨hfirst, hnodup⟩, ⟨hnew, htypes⟩, hb, hblocks⟩
        refine ⟨hnew hknown, hb hknown, hnodup, fun c hc hk hmem => ?_, hblocks⟩
        rcases List.mem_cons.mp hmem with heq | hmem
        · exact hfirst (List.mem_map.mpr ⟨c, List.mem_filter.mpr ⟨hc, hk⟩, heq⟩)
        · exact htypes c hc hk hmem
    · rename_i hknown
      rw [ih, List.filter_cons_of_neg hknown]
      simp only [List.forall_mem_cons, hknown, Bool.false_eq_true, false_implies, true_and]

theorem checkCollection_eq_ok {blocks : List Block} :
    checkCollection cxx blocks = .ok () ↔ WellFormedCollection cxx blocks := by
  rw [checkCollection, require_bind_eq_ok, checkBlocks_eq_ok]
  constructor
  · rintro ⟨hlength, hnodup, -, hknown⟩
    exact ⟨hlength, hnodup, hknown⟩
  · rintro ⟨hlength, hnodup, hknown⟩
    exact ⟨hlength, hnodup, fun _ _ _ => List.not_mem_nil, hknown⟩

end Check

/-- A repair request that was decoded has a range of 64-bit numbers. -/
theorem decodeRepairRequest_range {b : Block} {info : MissingDataInfo}
    (h : decodeRepairRequest b = .ok info) : info.Repairable := by
  have hread : ∀ {c : Block} {n : Nat}, readNumber c = .ok n → n < 2 ^ 64 :=
    fun h => readNonNegativeInteger_lt (orMalformed_eq_ok.mp h)
  unfold decodeRepairRequest at h
  obtain ⟨-, h⟩ := require_bind_eq_ok.mp h
  obtain ⟨elements, -, h⟩ := bind_eq_ok.mp h
  split at h
  · obtain ⟨-, h⟩ := require_bind_eq_ok.mp h
    obtain ⟨nodeId, -, h⟩ := bind_eq_ok.mp h
    obtain ⟨bootstrapTime, hbootstrap, h⟩ := bind_eq_ok.mp h
    obtain ⟨low, -, h⟩ := bind_eq_ok.mp h
    obtain ⟨high, hhigh, h⟩ := bind_eq_ok.mp h
    obtain ⟨hrange, h⟩ := require_bind_eq_ok.mp h
    obtain rfl := Except.ok.inj h
    exact ⟨hread hbootstrap, Nat.one_le_iff_ne_zero.mpr hrange.1, hrange.2, hread hhigh⟩
  · cases h

theorem decodeRepairRequests_range {b : Block} {requests : List MissingDataInfo}
    (h : decodeRepairRequests b = .ok requests) : ∀ info ∈ requests, info.Repairable := by
  rw [decodeRepairRequests, bind_eq_ok] at h
  obtain ⟨elements, -, h⟩ := h
  induction elements generalizing requests with
  | nil =>
    obtain rfl := Except.ok.inj h
    exact fun info hinfo => absurd hinfo List.not_mem_nil
  | cons element elements ih =>
    rw [List.mapM_cons] at h
    obtain ⟨info, hinfo, h⟩ := bind_eq_ok.mp h
    obtain ⟨infos, hinfos, h⟩ := bind_eq_ok.mp h
    obtain rfl := Except.ok.inj h
    exact List.forall_mem_cons.mpr ⟨decodeRepairRequest_range hinfo, ih hinfos⟩

namespace Subscriber

open Program (Halts Ends)

/-! ### The handlers end -/

section Halts

theorem halts_forSeqNos {low high : SeqNo} {f : SeqNo → Handler Unit} (h : high + 1 < 2 ^ 64)
    (hf : ∀ seq, Halts (f seq)) : Halts (forSeqNos low high f) := by
  rw [forSeqNos, if_neg (Nat.not_le_of_lt h)]
  exact Halts.foldEach (fun _ seq _ => hf seq) ()

theorem halts_enqueueRepairs {requests : List MissingDataInfo}
    (h : ∀ info ∈ requests, info.high + 1 < 2 ^ 64) : Halts (enqueueRepairs requests) :=
  Halts.foldEach (fun _ info hinfo => halts_forSeqNos (h info hinfo) fun _ =>
    Program.halts_perform _) ()

theorem halts_insertMappings (list : MappingList) (received : List PublicationKey) :
    Halts (insertMappings list received) :=
  Halts.foldEach (fun _ _ _ => (Program.halts_perform _).bind fun _ => Program.halts_ret _) received

theorem halts_processReceived (received : List PublicationKey) :
    Halts (processReceived received) := by
  refine Halts.foldEach (fun queued key _ => ?_) false
  refine (Program.halts_perform _).bind fun reply => ?_
  cases reply with
  | error e => trivial
  | ok q => trivial

theorem halts_fetchReady (window : Nat) (ready : List PublicationKey) (inFlight : Nat) :
    Halts (fetchReady window ready inFlight) := by
  induction ready generalizing inFlight with
  | nil => trivial
  | cons key ready ih =>
    rw [fetchReady]
    split
    · trivial
    · exact (Program.halts_perform _).bind fun inFlight => ih inFlight

theorem halts_fetchAll (cfg : SubscriberConfig) : Halts (fetchAll cfg) :=
  (Program.halts_perform _).bind fun _ => halts_fetchReady _ _ _

/-- The repair requests of a block end below the largest number. -/
def EndsBelow (b : Block) : Prop :=
  ∀ requests, decodeRepairRequests b = .ok requests → ∀ info ∈ requests, info.high + 1 < 2 ^ 64

theorem halts_receiveChildren (cfg : SubscriberConfig) {children : List Block}
    (h : ∀ child ∈ children, child.type = tlv.repairData → EndsBelow child)
    (received : List PublicationKey) : Halts (receiveChildren cfg children received) := by
  induction children generalizing received with
  | nil => trivial
  | cons child children ih =>
    have ih := ih fun child hchild => h child (List.mem_cons_of_mem _ hchild)
    rw [receiveChildren]
    split
    · split
      · trivial
      · exact (halts_insertMappings _ _).bind fun received => ih received
    · split
      · split
        · trivial
        · exact (Program.halts_perform _).bind fun _ => (Program.halts_perform _).bind fun _ =>
            ih received
      · split
        · rename_i htype
          split
          · trivial
          · rename_i requests hrequests
            refine (halts_enqueueRepairs fun info hinfo => ?_).bind fun _ => ih received
            obtain ⟨request, hrequest, rfl⟩ := List.mem_map.mp hinfo
            have hrange := (decodeRepairRequests_range hrequests request hrequest).low_le
            have hbelow := h child List.mem_cons_self htype requests hrequests request hrequest
            rw [Nat.max_eq_left hrange]
            exact hbelow
        · exact ih received

theorem halts_receiveElements (cfg : SubscriberConfig) {block : Block}
    (h : ∀ child ∈ childrenOf block, child.type = tlv.repairData → EndsBelow child)
    (received : List PublicationKey) : Halts (receiveElements cfg block received) := by
  unfold receiveElements
  split
  · trivial
  · rename_i children hchildren
    rw [childrenOf, hchildren] at h
    exact halts_receiveChildren cfg h received

theorem halts_fetchAllIf (cfg : SubscriberConfig) (queued : Bool) :
    Halts (fetchAllIf cfg queued) := by
  unfold fetchAllIf
  split
  · exact halts_fetchAll cfg
  · trivial

theorem halts_receiveList (block : Block) : Halts (receiveList block) := by
  unfold receiveList
  split
  · trivial
  · exact halts_insertMappings _ _

theorem topRepairs_endsBelow {block : Block} (h : block.type = tlv.repairData → EndsBelow block)
    {requests : List MissingDataInfo} (hrequests : topRepairs block = .ok requests) :
    ∀ info ∈ requests, info.high + 1 < 2 ^ 64 := by
  unfold topRepairs at hrequests
  split at hrequests
  · rename_i htype
    exact h htype requests hrequests
  · obtain rfl := Except.ok.inj hrequests
    exact fun info hinfo => absurd hinfo List.not_mem_nil

/-- The repair ranges of a known block and of its children end below the largest number. -/
def RangesEndBelow (block : Block) : Prop :=
  isKnownExtensionBlock block → ∀ info ∈ repairsOf block, info.high + 1 < 2 ^ 64

instance (block : Block) : Decidable (RangesEndBelow block) := by
  unfold RangesEndBelow
  infer_instance

theorem RangesEndBelow.endsBelow {block : Block} (h : RangesEndBelow block)
    (hknown : isKnownExtensionBlock block) :
    ∀ b ∈ block :: childrenOf block, b.type = tlv.repairData → EndsBelow b := by
  intro b hb htype requests hrequests info hinfo
  refine h hknown info (List.mem_flatMap.mpr ⟨b, List.mem_filter.mpr ⟨hb, by simp [htype]⟩, ?_⟩)
  rw [hrequests]
  exact hinfo

theorem halts_onRecvExtraData (cfg : SubscriberConfig) {block : Block} (h : RangesEndBelow block) :
    Halts (onRecvExtraData cfg block) := by
  unfold onRecvExtraData
  split
  · trivial
  · rename_i hknown
    obtain ⟨hblock, hchildren⟩ := List.forall_mem_cons.mp (h.endsBelow (not_not.mp hknown))
    split
    · trivial
    · refine (halts_receiveList block).bind fun received => ?_
      split
      · trivial
      · rename_i requests hrequests
        exact (halts_enqueueRepairs (topRepairs_endsBelow hblock hrequests)).bind fun _ =>
          (halts_receiveElements cfg hchildren received).bind fun _ =>
            (halts_processReceived _).bind fun _ =>
              (halts_fetchAllIf cfg _).bind fun _ => Program.halts_ret _

theorem halts_receiveBlocks (cfg : SubscriberConfig) {blocks : List Block}
    (h : ∀ block ∈ blocks, RangesEndBelow block) : Halts (receiveBlocks cfg blocks) := by
  induction blocks with
  | nil => trivial
  | cons block blocks ih =>
    obtain ⟨hblock, hblocks⟩ := List.forall_mem_cons.mp h
    refine (halts_onRecvExtraData cfg hblock).bind fun result => ?_
    cases result with
    | error e => trivial
    | ok u => exact ih hblocks

end Halts

/-! ### The mappings are stored -/

section Stored

variable (cfg : SubscriberConfig) (env : SubscribeInputs)

/-- Every mapping of the list has an entry in the store. -/
def Stored (list : MappingList) (s : Subscriber) : Prop :=
  ∀ entry ∈ list.pairs, Knows ⟨list.nodeId, entry.bootstrapTime, entry.seqNo⟩ s

theorem stored_act {list : MappingList} {s : Subscriber} (call : Call) (h : Stored list s) :
    Stored list (act cfg env call s).2 :=
  fun entry hentry => knows_act cfg env call (h entry hentry)

theorem insertMappings_stored (list : MappingList) (received : List PublicationKey)
    (s : Subscriber) :
    Ends (act cfg env) (fun _ s' => Stored list s') (insertMappings list received) s := by
  have hkeep : ∀ (entry : MappingEntry) (s : Subscriber) (call : Call),
      Knows ⟨list.nodeId, entry.bootstrapTime, entry.seqNo⟩ s →
        Knows ⟨list.nodeId, entry.bootstrapTime, entry.seqNo⟩ (act cfg env call s).2 :=
    fun entry s call h => knows_act cfg env call h
  refine Program.Ends.mono ?_ (Program.ends_foldEach_each (I := fun _ => True) hkeep
    (fun received entry _ s _ => ?_) received trivial)
  · exact fun _ _ h => h.2
  · intro received' s' hexec
    obtain ⟨-, rfl⟩ := Prod.mk.inj (Option.some.inj hexec)
    refine ⟨trivial, ?_⟩
    rw [Knows, act, getMapping_insertMapping_self]
    rfl

theorem receiveChildren_stored {children : List Block}
    (h : ∀ child ∈ children, Decodes cfg.pubSub.core.cxx child) (received : List PublicationKey)
    (s : Subscriber) :
    Ends (act cfg env) (fun _ s' => ∀ list ∈ (children.filter fun child =>
      child.type = tlv.mappingData).filterMap MappingList.read, Stored list s')
      (receiveChildren cfg children received) s := by
  induction children generalizing received s with
  | nil => exact Program.ends_ret.mpr fun list hlist => absurd hlist List.not_mem_nil
  | cons child children ih =>
    obtain ⟨hchild, hchildren⟩ := List.forall_mem_cons.mp h
    have ih := ih hchildren
    rw [receiveChildren]
    by_cases htype : child.type = tlv.mappingData
    · rw [if_pos htype, List.filter_cons_of_pos (by simp [htype])]
      obtain ⟨list, hlist⟩ := hchild.mappings htype
      have hread : MappingList.read child = some list := by rw [MappingList.read, hlist]; rfl
      rw [hlist, List.filterMap_cons_some hread]
      have hfirst := Program.ends_bind_of_keeps (f := receiveChildren cfg children)
        (fun s call h => stored_act cfg env call h) (insertMappings_stored cfg env list received s)
      have hrest : Ends (act cfg env) _ ((insertMappings list received).bind
          (receiveChildren cfg children)) s :=
        Program.ends_bind fun received s' _ => ih received s'
      refine (hfirst.and hrest).mono fun _ s' h => ?_
      exact List.forall_mem_cons.mpr h
    · rw [if_neg htype, List.filter_cons_of_neg (by simp [htype])]
      split
      · rename_i hdata
        obtain ⟨data, hdata⟩ := hchild.packet hdata
        rw [hdata]
        exact Program.ends_bind fun _ s' _ => Program.ends_bind fun _ s' _ => ih received s'
      · split
        · rename_i hrepairs
          obtain ⟨requests, hrequests⟩ := hchild.repairs hrepairs
          rw [hrequests]
          exact Program.ends_bind fun _ s' _ => ih received s'
        · exact ih received s

theorem receiveList_stored (block : Block) (s : Subscriber) :
    Ends (act cfg env) (fun _ s' => ∀ list ∈ MappingList.read block, Stored list s')
      (receiveList block) s := by
  unfold receiveList MappingList.read
  cases MappingList.decode block with
  | error e => exact Program.ends_ret.mpr fun list hlist => by cases hlist
  | ok list =>
    refine (insertMappings_stored cfg env list [] s).mono fun _ s' h list' hlist => ?_
    obtain rfl : list = list' := Option.some.inj hlist
    exact h

theorem receiveElements_stored {block : Block} (h : KnownWellFormed cfg.pubSub.core.cxx block)
    (received : List PublicationKey) (s : Subscriber) :
    Ends (act cfg env) (fun _ s' => ∀ list ∈ ((childrenOf block).filter fun child =>
      child.type = tlv.mappingData).filterMap MappingList.read, Stored list s')
      (receiveElements cfg block received) s := by
  obtain ⟨children, hchildren⟩ := Option.isSome_iff_exists.mp h.parses
  have hdecodes := h.children
  unfold receiveElements
  rw [childrenOf, hchildren, Option.getD_some] at hdecodes ⊢
  exact receiveChildren_stored cfg env hdecodes received s

theorem topRepairs_ok {block : Block} (h : KnownWellFormed cfg.pubSub.core.cxx block) :
    ∃ requests, topRepairs block = .ok requests := by
  unfold topRepairs
  split
  · rename_i htype
    exact h.decodes.repairs htype
  · exact ⟨[], rfl⟩

theorem commitExtension_stored {block : Block} (h : KnownWellFormed cfg.pubSub.core.cxx block)
    (s : Subscriber) :
    Ends (act cfg env) (fun result s' => result = .ok () ∧ ∀ list ∈ mappingListsOf block,
      Stored list s') (commitExtension cfg block) s := by
  obtain ⟨requests, hrequests⟩ := topRepairs_ok cfg h
  have hkeep : ∀ lists : List MappingList, ∀ s call, (∀ list ∈ lists, Stored list s) →
      ∀ list ∈ lists, Stored list (act cfg env call s).2 :=
    fun lists s call h list hlist => stored_act cfg env call (h list hlist)
  unfold commitExtension
  rw [hrequests]
  have htop := Program.ends_bind_of_keeps (hkeep (MappingList.read block).toList)
    (f := fun received => (enqueueRepairs requests).bind fun _ =>
      (receiveElements cfg block received).bind fun received =>
        (processReceived received).bind fun queued => (fetchAllIf cfg queued).bind fun _ =>
          (.ret (.ok ()) : Handler (Result Unit)))
    ((receiveList_stored cfg env block s).mono fun _ s' h list hlist =>
      h list (by simpa using hlist))
  have hchildren : Ends (act cfg env) _ ((receiveList block).bind fun received =>
      (enqueueRepairs requests).bind fun _ => (receiveElements cfg block received).bind
        fun received =>
        (processReceived received).bind fun queued => (fetchAllIf cfg queued).bind fun _ =>
          (.ret (.ok ()) : Handler (Result Unit))) s :=
    Program.ends_bind fun received s' _ => Program.ends_bind fun _ s' _ =>
      Program.ends_bind_of_keeps (hkeep _) (receiveElements_stored cfg env h received s')
  have hok : Ends (act cfg env) (fun result _ => result = .ok ()) ((receiveList block).bind
      fun received => (enqueueRepairs requests).bind fun _ =>
        (receiveElements cfg block received).bind fun received =>
          (processReceived received).bind fun queued => (fetchAllIf cfg queued).bind fun _ =>
            (.ret (.ok ()) : Handler (Result Unit))) s :=
    Program.ends_bind fun _ _ _ => Program.ends_bind fun _ _ _ => Program.ends_bind fun _ _ _ =>
      Program.ends_bind fun _ _ _ => Program.ends_bind fun _ _ _ => Program.ends_ret.mpr rfl
  refine (hok.and (htop.and hchildren)).mono fun result s' ⟨hresult, htop, hchildren⟩ =>
    ⟨hresult, ?_⟩
  intro list hlist
  rw [mappingListsOf, List.filterMap_cons] at hlist
  cases hread : MappingList.read block with
  | none =>
    rw [hread] at hlist
    exact hchildren list hlist
  | some top =>
    rw [hread] at hlist htop
    rcases List.mem_cons.mp hlist with rfl | hlist
    · exact htop _ (by simp)
    · exact hchildren list hlist

theorem onRecvExtraData_stored {block : Block} (hknown : isKnownExtensionBlock block)
    (h : KnownWellFormed cfg.pubSub.core.cxx block) (s : Subscriber) :
    Ends (act cfg env) (fun result s' => result = .ok () ∧ ∀ list ∈ mappingListsOf block,
      Stored list s') (onRecvExtraData cfg block) s := by
  unfold onRecvExtraData
  rw [if_neg (not_not.mpr hknown), (checkKnownBlock_eq_ok hknown).mpr h]
  exact commitExtension_stored cfg env h s

theorem receiveBlocks_stored {blocks : List Block}
    (h : ∀ b ∈ blocks, isKnownExtensionBlock b → KnownWellFormed cfg.pubSub.core.cxx b)
    (s : Subscriber) :
    Ends (act cfg env) (fun _ s' => ∀ b ∈ blocks, isKnownExtensionBlock b →
      ∀ list ∈ mappingListsOf b, Stored list s') (receiveBlocks cfg blocks) s := by
  induction blocks generalizing s with
  | nil => exact Program.ends_ret.mpr fun b hb => absurd hb List.not_mem_nil
  | cons block blocks ih =>
    obtain ⟨hblock, hblocks⟩ := List.forall_mem_cons.mp h
    rw [receiveBlocks]
    refine Program.ends_bind fun result s₁ hexec => ?_
    by_cases hknown : isKnownExtensionBlock block
    · obtain ⟨rfl, hstored⟩ :=
        onRecvExtraData_stored cfg env hknown (hblock hknown) s result s₁ hexec
      have hkept := Program.ends_of_keeps
        (fun s call (h : ∀ list ∈ mappingListsOf block, Stored list s) list hlist =>
          stored_act cfg env call (h list hlist)) (receiveBlocks cfg blocks) hstored
      exact (hkept.and (ih hblocks s₁)).mono fun _ s' h => List.forall_mem_cons.mpr
        ⟨fun _ => h.1, h.2⟩
    · rw [onRecvExtraData, if_pos hknown] at hexec
      obtain ⟨rfl, rfl⟩ := Prod.mk.inj (Option.some.inj hexec)
      exact (ih hblocks s).mono fun _ s' h => List.forall_mem_cons.mpr
        ⟨fun hk => absurd hk hknown, h⟩

/-- All or nothing: a malformed collection leaves the state as it was, and after any other the store
has a mapping for every entry of every list. -/
theorem collection_applied {blocks : List Block} (h : ∀ b ∈ blocks, RangesEndBelow b)
    (s : Subscriber) :
    ∃ s', (onRecvExtraBlocks cfg blocks).exec (act cfg env) s = some ((), s') ∧
      (¬WellFormedCollection cfg.pubSub.core.cxx blocks ∧ s' = s ∨
        WellFormedCollection cfg.pubSub.core.cxx blocks ∧
          ∀ b ∈ blocks, isKnownExtensionBlock b → ∀ list ∈ mappingListsOf b,
            ∀ entry ∈ list.pairs,
              (s'.getMapping ⟨list.nodeId, entry.bootstrapTime, entry.seqNo⟩).isSome) := by
  unfold onRecvExtraBlocks
  cases hcheck : checkCollection cfg.pubSub.core.cxx blocks with
  | error e =>
    refine ⟨s, rfl, .inl ⟨fun hwell => ?_, rfl⟩⟩
    rw [checkCollection_eq_ok.mpr hwell] at hcheck
    cases hcheck
  | ok u =>
    have hwell := checkCollection_eq_ok.mp hcheck
    obtain ⟨u, s', hexec⟩ := @Program.Halts.exec _ _ _ _ (act cfg env) _
      (halts_receiveBlocks cfg h) s
    exact ⟨s', hexec, .inr ⟨hwell, receiveBlocks_stored cfg env hwell.known s u s' hexec⟩⟩

end Stored

/-- The extension blocks of the sample queues. -/
def sampleBlocks : List Block :=
  ((ExtraData.sampleQueues.onGetExtraBlocks packetFormat {}).1.toOption).getD []

theorem collection_applied_sample :
    ∃ s', (onRecvExtraBlocks sampleSubscriber sampleBlocks).exec (act sampleSubscriber {}) {} =
        some ((), s') ∧
      (s'.getMapping ⟨.ofStrings ["a"], 100, 1⟩).isSome := by
  obtain ⟨s', hexec, ⟨hnot, -⟩ | ⟨-, hstored⟩⟩ := @collection_applied sampleSubscriber {}
    sampleBlocks (by decide +kernel) {}
  · refine absurd (checkCollection_eq_ok.mp ?_) hnot
    have hok : (checkCollection packetFormat sampleBlocks).toOption = some () := by decide +kernel
    cases hcheck : checkCollection packetFormat sampleBlocks with
    | error e => simp [hcheck, Except.toOption] at hok
    | ok u => exact hcheck
  · refine ⟨s', hexec, ?_⟩
    have hlist : ∃ b ∈ sampleBlocks, isKnownExtensionBlock b ∧ ∃ list ∈ mappingListsOf b,
        list.nodeId = Name.ofStrings ["a"] ∧ ∃ entry ∈ list.pairs,
          entry.bootstrapTime = 100 ∧ entry.seqNo = 1 := by
      decide +kernel
    obtain ⟨b, hb, hknown, list, hlist, hnode, entry, hentry, hbootstrap, hseq⟩ := hlist
    have hsome := hstored b hb hknown list hlist entry hentry
    rwa [hnode, hbootstrap, hseq] at hsome

end Subscriber

end NdnSvs
