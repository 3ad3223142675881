import NdnSvs.SubscribeRuns

/-! The calls that the handlers of the subscribing side make.  The keys of the publications that
they queue come from the core, or from mapping lists that were read; queries for mappings are made
and ended only by updates from the core and by the ends of queries. -/

namespace NdnSvs

open Lib Lib.Tlv Std

/-- The numbers of an entry that was read have 64 bits. -/
theorem MappingEntry.decode_fits {b : Block} {entry : MappingEntry}
    (h : MappingEntry.decode b = .ok entry) : entry.Fits := by
  have hread : ∀ {c : Block} {n : Nat}, readNumber c = .ok n → n < 2 ^ 64 :=
    fun h => readNonNegativeInteger_lt (orMalformed_eq_ok.mp h)
  unfold MappingEntry.decode at h
  obtain ⟨elements, -, h⟩ := bind_eq_ok.mp h
  obtain ⟨first, -, h⟩ := bind_eq_ok.mp h
  obtain ⟨⟨bootstrapTime, seqNo⟩, hentry, h⟩ := bind_eq_ok.mp h
  obtain ⟨second, -, h⟩ := bind_eq_ok.mp h
  obtain ⟨name, -, h⟩ := bind_eq_ok.mp h
  obtain rfl := Except.ok.inj h
  unfold decodeSeqNoEntry at hentry
  obtain ⟨numbers, -, hentry⟩ := bind_eq_ok.mp hentry
  split at hentry
  · obtain ⟨-, hentry⟩ := require_bind_eq_ok.mp hentry
    obtain ⟨b, hb, hentry⟩ := bind_eq_ok.mp hentry
    obtain ⟨s, hs, hentry⟩ := bind_eq_ok.mp hentry
    obtain ⟨rfl, rfl⟩ := Prod.mk.inj (Except.ok.inj hentry)
    exact ⟨hread hb, hread hs⟩
  · cases hentry

theorem MappingList.decodeElement_fits {list list' : MappingList} {b : Block}
    (hlist : ∀ entry ∈ list.pairs, entry.Fits) (h : list.decodeElement b = .ok list') :
    ∀ entry ∈ list'.pairs, entry.Fits := by
  unfold MappingList.decodeElement at h
  split at h
  · obtain ⟨nodeId, -, h⟩ := bind_eq_ok.mp h
    obtain rfl := Except.ok.inj h
    exact hlist
  · split at h
    · obtain ⟨entry, hentry, h⟩ := bind_eq_ok.mp h
      obtain rfl := Except.ok.inj h
      intro entry' hentry'
      rcases List.mem_append.mp hentry' with hentry' | hentry'
      · exact hlist entry' hentry'
      · obtain rfl := List.mem_singleton.mp hentry'
        exact MappingEntry.decode_fits hentry
    · obtain rfl := Except.ok.inj h
      exact hlist

theorem MappingList.decode_fits {b : Block} {list : MappingList}
    (h : MappingList.decode b = .ok list) :
    ∀ entry ∈ list.pairs, entry.Fits := by
  obtain ⟨elements, -, h⟩ := bind_eq_ok.mp h
  have hempty : ∀ entry ∈ ({} : MappingList).pairs, entry.Fits := by simp
  exact foldlM_invariant (P := fun list : MappingList => ∀ entry ∈ list.pairs, entry.Fits)
    (fun list b list' hlist hstep => MappingList.decodeElement_fits hlist hstep) hempty h

theorem MappingList.decode_of_read {b : Block} {list : MappingList}
    (h : MappingList.read b = some list) : MappingList.decode b = .ok list := by
  rw [MappingList.read] at h
  cases hdecode : MappingList.decode b with
  | error e =>
    rw [hdecode] at h
    cases h
  | ok decoded =>
    rw [hdecode] at h
    rw [Option.some.inj h]

/-- The numbers of the publication have 64 bits. -/
structure PublicationKey.Fits (key : PublicationKey) : Prop where
  bootstrapTime : key.bootstrapTime < 2 ^ 64
  seqNo : key.seqNo < 2 ^ 64

/-- The streams that the core reports have 64-bit numbers. -/
def SubscriberEvent.Fits : SubscriberEvent → Prop
  | .update info => ∀ stream ∈ info, stream.bootstrapTime < 2 ^ 64 ∧ stream.high < 2 ^ 64
  | _ => True

/-- The events whose handlers make queries for mappings, or end them. -/
def SubscriberEvent.Queries : SubscriberEvent → Prop
  | .update _ | .mappingFetcher _ => True
  | _ => False

/-- The events whose handlers hand packets on that need no validator any more, or segments. -/
def SubscriberEvent.Settles (cfg : SubscriberConfig) : SubscriberEvent → Prop
  | .verdict _ _ | .segments _ _ => True
  | .dataFetcher _ => cfg.encapsulatedDataValidator = false
  | _ => False

namespace Subscriber

open Program (Makes Yields)

/-- The calls that can put a publication in line to be fetched. -/
def Call.Queues : Call → Prop
  | .addPublicationFetch _ _ | .processMapping _ => True
  | _ => False

/-- The calls that make a query for mappings, or end one. -/
def Call.Queries : Call → Prop
  | .scheduleMappingFetch _ _ | .markMappingFetchComplete _ | .markMappingFetchFailed _ => True
  | _ => False

/-- The calls that hand on packets that need no validator any more, or segments. -/
def Call.Settles : Call → Prop
  | .returnData _ _ _ | .startValidation _ _ _ | .finishOne _ _ | .validate _ (.segment _) => True
  | _ => False

theorem Call.Queries.not_queues {call : Call} (h : call.Queries) : ¬call.Queues := by
  cases call with
  | scheduleMappingFetch requested streamName => exact id
  | markMappingFetchComplete key => exact id
  | markMappingFetchFailed key => exact id
  | _ => exact h.elim

theorem Call.Settles.not_queues {call : Call} (h : call.Settles) : ¬call.Queues := by
  cases call with
  | returnData firstData innerData key => exact id
  | startValidation key assembly expected => exact id
  | finishOne index failed => exact id
  | validate packet target => exact id
  | _ => exact h.elim

theorem Call.Settles.not_queries {call : Call} (h : call.Settles) : ¬call.Queries := by
  cases call with
  | returnData firstData innerData key => exact id
  | startValidation key assembly expected => exact id
  | finishOne index failed => exact id
  | validate packet target => exact id
  | _ => exact h.elim

theorem Call.spares_of_not_queues {p : Nat → Prop} {call : Call} (h : ¬call.Queues) :
    call.Spares p := by
  cases call with
  | addPublicationFetch key sub => exact absurd trivial h
  | _ => trivial

theorem Call.Queued.queues {call : Call} {key : PublicationKey} (h : call.Queued key) :
    call.Queues := by
  cases call with
  | addPublicationFetch key sub => trivial
  | processMapping key => trivial
  | _ => exact h.elim

/-- The calls of `fetchAll`. -/
def Call.Fetches : Call → Prop
  | .sweepFetches | .fetchNext _ _ => True
  | _ => False

theorem Call.Queries.not_fetches {call : Call} (h : call.Queries) : ¬call.Fetches := by
  cases call with
  | sweepFetches => exact h.elim
  | fetchNext key inFlight => exact h.elim
  | _ => exact id

theorem Call.Settles.not_fetches {call : Call} (h : call.Settles) : ¬call.Fetches := by
  cases call with
  | sweepFetches => exact h.elim
  | fetchNext key inFlight => exact h.elim
  | _ => exact id

/-- The calls for the publications of a stream meet `Q`. -/
structure StreamCalls (Q : Call → Prop) (subs : List Subscription) (stream : MissingDataInfo) : Prop
    where
  process : ∀ seq, seq ≤ stream.high →
    Q (.processMapping ⟨stream.nodeId, stream.bootstrapTime, seq⟩)
  add : ∀ sub ∈ subs, ∀ seq, seq ≤ stream.high →
    Q (.addPublicationFetch ⟨stream.nodeId, stream.bootstrapTime, seq⟩ sub)

/-! ### A property that sequencing keeps holds of a handler when it holds of the calls -/

section Handlers

variable {G : ∀ {α : Type}, Handler α → (α → Prop) → Prop} (hG : Program.Closed @G)
  (hother : ∀ call : Call, ¬call.Queues → ¬call.Queries → ¬call.Settles → ¬call.Fetches →
    G (perform call) fun _ => True)
  (hprocess : ∀ key : PublicationKey, key.Fits → G (process key) fun _ => True)
  (hqueries : ∀ call : Call, call.Queries → G (perform call) fun _ => True)
  (hschedule : ∀ (requested : MissingDataInfo) (streamName : Name),
    G (perform (.scheduleMappingFetch requested streamName)) fun _ => True)
  (hsettles : ∀ call : Call, call.Settles → G (perform call) fun _ => True)
  (cfg : SubscriberConfig) (hfetch : G (fetchAll cfg) fun _ => True)

include hG

theorem closed_forSeqNos {low high : SeqNo} {f : SeqNo → Handler Unit}
    (h : ∀ seq, seq ≤ high → G (f seq) fun _ => True) :
    G (forSeqNos low high f) fun _ => True := by
  unfold forSeqNos
  split
  · exact hG.diverge
  · refine hG.foldEach (fun _ seq hseq _ => h seq ?_) trivial
    obtain ⟨i, hi, rfl⟩ := List.mem_range'.mp hseq
    lia

include hprocess in
theorem closed_processReceived {received : List PublicationKey}
    (h : ∀ key ∈ received, key.Fits) : G (processReceived received) fun _ => True := by
  refine hG.foldEach (fun queued key hkey _ => ?_) trivial
  refine hG.bind (hprocess key (h key hkey)) fun reply _ => ?_
  cases reply with
  | error e => exact hG.ret trivial
  | ok q => exact hG.ret trivial

include hprocess in
theorem closed_processReply {streamName : Name} {entries : List MappingEntry}
    (h : ∀ entry ∈ entries, entry.Fits) (queued : Bool) :
    G (processReply streamName entries queued) fun _ => True := by
  induction entries generalizing queued with
  | nil => exact hG.ret trivial
  | cons entry entries ih =>
    obtain ⟨hentry, hentries⟩ := List.forall_mem_cons.mp h
    have hkey : PublicationKey.Fits ⟨streamName, entry.bootstrapTime, entry.seqNo⟩ :=
      ⟨hentry.bootstrapTime, hentry.seqNo⟩
    refine hG.bind (hprocess _ hkey) fun reply _ => ?_
    cases reply with
    | error e => exact hG.ret trivial
    | ok q => exact ih hentries _

theorem closed_fetchReady {window : Nat} (hnext : ∀ key inFlight, inFlight < window →
      G (perform (.fetchNext key inFlight)) fun _ => True)
    (ready : List PublicationKey) (inFlight : Nat) :
    G (fetchReady window ready inFlight) fun _ => True := by
  induction ready generalizing inFlight with
  | nil => exact hG.ret trivial
  | cons key ready ih =>
    rw [fetchReady]
    split
    · exact hG.ret trivial
    · rename_i hroom
      exact hG.bind (hnext key inFlight (Nat.lt_of_not_le hroom)) fun inFlight _ => ih inFlight

include hfetch in
theorem closed_fetchAllIf (queued : Bool) : G (fetchAllIf cfg queued) fun _ => True := by
  unfold fetchAllIf
  split
  · exact hfetch
  · exact hG.ret trivial

theorem closed_processKnown {stream : MissingDataInfo}
    (h : ∀ seq, seq ≤ stream.high →
      G (process ⟨stream.nodeId, stream.bootstrapTime, seq⟩) fun _ => True)
    (fuel : Nat) (low : SeqNo) : G (processKnown stream fuel low) fun _ => True := by
  induction fuel generalizing low with
  | zero => exact hG.diverge
  | succ fuel ih =>
    rw [processKnown]
    split
    · exact hG.ret trivial
    · rename_i hlow
      refine hG.bind (h low (Nat.le_of_not_lt hlow)) fun reply _ => ?_
      cases reply with
      | error e => exact hG.ret trivial
      | ok q => exact ih _

include hschedule in
theorem closed_queryRanges (stream : MissingDataInfo) (fuel : Nat) (low : SeqNo) :
    G (queryRanges stream fuel low) fun _ => True := by
  induction fuel generalizing low with
  | zero => exact hG.diverge
  | succ fuel ih =>
    rw [queryRanges]
    split
    · exact hG.ret trivial
    · exact hG.bind (hschedule _ _) fun _ _ => ih _

include hother in
theorem closed_updateProducer {subs : List Subscription} {stream : MissingDataInfo}
    (h : StreamCalls (fun call => G (perform call) fun _ => True) subs stream)
    {sub : Subscription} (hsub : sub ∈ subs) : G (updateProducer stream sub) fun _ => True := by
  unfold updateProducer
  split
  · have hadds : G (forSeqNos stream.low stream.high fun i =>
        perform (.addPublicationFetch ⟨stream.nodeId, stream.bootstrapTime, i⟩ sub))
          fun _ => True := closed_forSeqNos hG fun seq hseq => h.add sub hsub seq hseq
    refine hG.bind hadds fun _ _ => ?_
    split
    · exact hother _ id id id id
    · exact hG.ret trivial
  · exact hG.ret trivial

include hother hschedule hfetch in
theorem closed_updateCallbackInternal {s : Subscriber} {info : List MissingDataInfo}
    (h : ∀ stream ∈ info,
      StreamCalls (fun call => G (perform call) fun _ => True) s.producerSubscriptions stream) :
    G (updateCallbackInternal cfg s info) fun _ => True := by
  refine hG.bind (hG.forEach fun stream hstream => ?_) fun _ _ => hfetch
  have hcalls := h stream hstream
  refine hG.bind (hG.forEach fun sub hsub => closed_updateProducer hG hother hcalls hsub)
    fun _ _ => ?_
  split
  · exact hG.bind (closed_processKnown hG hcalls.process _ _) fun low _ =>
      closed_queryRanges hG hschedule stream _ _
  · exact hG.ret trivial

include hschedule in
theorem closed_requeryGaps (requested : MissingDataInfo) (streamName : Name)
    (returned : List SeqNo) (requestedHigh : SeqNo) (seqs : List SeqNo)
    (missingLow : Option SeqNo) :
    G (requeryGaps requested streamName returned requestedHigh seqs missingLow)
      fun _ => True := by
  induction seqs generalizing missingLow with
  | nil =>
    cases missingLow with
    | none => exact hG.ret trivial
    | some low => exact hG.bind (hschedule _ _) fun _ _ => hG.ret trivial
  | cons seq seqs ih =>
    unfold requeryGaps
    split
    · exact ih _
    · cases missingLow with
      | none => exact ih _
      | some low => exact hG.bind (hschedule _ _) fun _ _ => ih _

include hother

theorem closed_enqueueRepairs (requests : List MissingDataInfo) :
    G (enqueueRepairs requests) fun _ => True :=
  hG.forEach fun _ _ => closed_forSeqNos hG fun _ _ => hother _ id id id id

/-- The keys of a list that was read are among the keys that were received. -/
theorem closed_insertMappings {list : MappingList} (h : ∀ entry ∈ list.pairs, entry.Fits)
    {received : List PublicationKey} (hreceived : ∀ key ∈ received, key.Fits) :
    G (insertMappings list received) fun received => ∀ key ∈ received, key.Fits := by
  refine hG.foldEach (fun received entry hentry hreceived => ?_) hreceived
  refine hG.bind (hother _ id id id id) fun _ _ => hG.ret fun key hkey => ?_
  rcases List.mem_append.mp hkey with hkey | hkey
  · exact hreceived key hkey
  · obtain rfl := List.mem_singleton.mp hkey
    exact ⟨(h entry hentry).bootstrapTime, (h entry hentry).seqNo⟩

theorem closed_receiveChildren (children : List Block) {received : List PublicationKey}
    (hreceived : ∀ key ∈ received, key.Fits) :
    G (receiveChildren cfg children received) fun received => ∀ key ∈ received, key.Fits := by
  induction children generalizing received with
  | nil => exact hG.ret hreceived
  | cons child children ih =>
    rw [receiveChildren]
    split
    · split
      · exact hG.ret hreceived
      · rename_i list hlist
        exact hG.bind (closed_insertMappings hG hother (MappingList.decode_fits hlist) hreceived)
          fun received hreceived => ih hreceived
    · split
      · split
        · exact hG.ret hreceived
        · exact hG.bind (hother _ id id id id) fun _ _ =>
            hG.bind (hother _ id id id id) fun _ _ => ih hreceived
      · split
        · split
          · exact hG.ret hreceived
          · exact hG.bind (closed_enqueueRepairs hG hother _) fun _ _ => ih hreceived
        · exact ih hreceived

theorem closed_receiveElements (block : Block) {received : List PublicationKey}
    (hreceived : ∀ key ∈ received, key.Fits) :
    G (receiveElements cfg block received) fun received => ∀ key ∈ received, key.Fits := by
  unfold receiveElements
  split
  · exact hG.ret hreceived
  · exact closed_receiveChildren hG hother cfg _ hreceived

theorem closed_receiveList (block : Block) :
    G (receiveList block) fun received => ∀ key ∈ received, key.Fits := by
  unfold receiveList
  split
  · exact hG.ret fun key hkey => absurd hkey List.not_mem_nil
  · rename_i list hlist
    exact closed_insertMappings hG hother (MappingList.decode_fits hlist)
      fun key hkey => absurd hkey List.not_mem_nil

theorem closed_onDataOutcome (hsettles : cfg.encapsulatedDataValidator = false →
      ∀ call : Call, call.Settles → G (perform call) fun _ => True)
    (outcome : Option (FetchOutcome DataRequest)) :
    G (onDataOutcome cfg outcome) fun _ => True := by
  unfold onDataOutcome
  split
  · unfold onSyncData
    split
    · exact hother _ id id id id
    · refine hG.bind (hother _ id id id id) fun _ _ => ?_
      split
      · exact hother _ id id id id
      · split
        · exact hother _ id id id id
        · rename_i hvalidator
          exact hsettles (Bool.eq_false_iff.mpr hvalidator) (.returnData _ _ _) trivial
  · exact hother _ id id id id
  · exact hother _ id id id id
  · exact hG.ret trivial

include hsettles

theorem closed_validateSegments (publication : PublicationKey) (index : Nat)
    (blocks : List Block) :
    G (validateSegments cfg publication index blocks) fun _ => True := by
  induction blocks with
  | nil => exact hG.ret trivial
  | cons block blocks ih =>
    unfold validateSegments
    split
    · exact hother _ id id id id
    · rename_i packet hpacket
      have hvalidate : G (validateSegment cfg index packet) fun _ => True := by
        unfold validateSegment
        split
        · exact hsettles (.validate packet (.segment index)) trivial
        · exact hsettles (.finishOne index false) trivial
      exact hG.bind hvalidate fun _ _ => ih

theorem closed_onSegments (publication : PublicationKey) (content : Option Bytes) :
    G (onSegments cfg publication content) fun _ => True := by
  unfold onSegments
  split
  · exact hother _ id id id id
  · split
    · exact hother _ id id id id
    · exact hG.bind (hsettles (.startValidation _ _ _) trivial) fun _ _ =>
        closed_validateSegments hG hother hsettles cfg _ _ _

omit cfg hG in
theorem closed_onVerdict (validation : Validation) (accepted : Bool) :
    G (onVerdict validation accepted) fun _ => True := by
  unfold onVerdict
  split
  · split
    · exact hsettles (.returnData _ _ _) trivial
    · exact hother _ id id id id
  · exact hsettles (.finishOne _ _) trivial

omit hsettles hother

include hprocess hfetch

include hschedule in
theorem closed_onFetchedNameMappings (requested : MissingDataInfo) (streamName : Name)
    {list : MappingList} (h : ∀ entry ∈ list.pairs, entry.Fits) :
    G (onFetchedNameMappings cfg requested streamName list) fun _ => True := by
  unfold onFetchedNameMappings
  split
  · exact hG.ret trivial
  · refine hG.bind (closed_processReply hG hprocess h _) fun result _ => ?_
    cases result with
    | error e => exact hG.ret trivial
    | ok queued =>
      refine hG.bind (closed_fetchAllIf hG cfg hfetch queued) fun _ _ => ?_
      unfold requery
      split
      · exact hG.diverge
      · exact closed_requeryGaps hG hschedule requested streamName _ _ _ _

include hother

include hqueries in
theorem closed_onMappingOutcome (outcome : Option (FetchOutcome MappingRequest)) :
    G (onMappingOutcome cfg outcome) fun _ => True := by
  unfold onMappingOutcome
  split
  · unfold onMappingData
    split
    · exact hG.ret trivial
    · split
      · exact hG.ret trivial
      · rename_i list hlist
        refine hG.bind (hG.forEach fun entry _ => hother (.insertUnknownMapping _ _) id id id id)
          fun _ _ => hG.bind (hqueries (.markMappingFetchComplete _) trivial) fun _ _ => ?_
        exact closed_onFetchedNameMappings hG hprocess
          (fun _ _ => hqueries (.scheduleMappingFetch _ _) trivial) cfg hfetch _ _
          (MappingList.decode_fits hlist)
  · exact hqueries (.markMappingFetchFailed _) trivial
  · exact hqueries (.markMappingFetchFailed _) trivial
  · exact hG.ret trivial

theorem closed_commitExtension (block : Block) :
    G (commitExtension cfg block) fun _ => True := by
  refine hG.bind (closed_receiveList hG hother block) fun received hreceived => ?_
  split
  · exact hG.ret trivial
  · refine hG.bind (closed_enqueueRepairs hG hother _) fun _ _ => hG.bind
      (closed_receiveElements hG hother cfg block hreceived) fun received hreceived => ?_
    exact hG.bind (closed_processReceived hG hprocess hreceived) fun queued _ =>
      hG.bind (closed_fetchAllIf hG cfg hfetch queued) fun _ _ => hG.ret trivial

theorem closed_receiveBlocks (blocks : List Block) :
    G (receiveBlocks cfg blocks) fun _ => True := by
  induction blocks with
  | nil => exact hG.ret trivial
  | cons block blocks ih =>
    have hblock : G (onRecvExtraData cfg block) fun _ => True := by
      unfold onRecvExtraData
      split
      · exact hG.ret trivial
      · split
        · exact hG.ret trivial
        · exact closed_commitExtension hG hother hprocess cfg hfetch block
    refine hG.bind hblock fun result _ => ?_
    cases result with
    | error e => exact hG.ret trivial
    | ok u => exact ih

theorem closed_onRecvExtraBlocks (blocks : List Block) :
    G (onRecvExtraBlocks cfg blocks) fun _ => True := by
  unfold onRecvExtraBlocks
  split
  · exact hG.ret trivial
  · exact closed_receiveBlocks hG hother hprocess cfg hfetch blocks

/-- The property holds of the handler of a step when it holds of the calls for the streams that the
core reports, and of those for queries and validated packets where there are any. -/
theorem closed_beginStep {s begun : Subscriber} {e : SubscriberEvent × SubscribeInputs}
    {handler : Handler Unit}
    (hqueries : e.1.Queries → ∀ call : Call, call.Queries → G (perform call) fun _ => True)
    (hsettles : e.1.Settles cfg → ∀ call : Call, call.Settles → G (perform call) fun _ => True)
    (hupdate : ∀ info, e.1 = .update info → ∀ stream ∈ info,
      StreamCalls (fun call => G (perform call) fun _ => True) s.producerSubscriptions stream)
    (hbegin : beginStep cfg s e = some (begun, handler)) : G handler fun _ => True := by
  obtain ⟨e, env⟩ := e
  cases e with
  | update info =>
    obtain ⟨-, rfl⟩ := Prod.mk.inj (Option.some.inj hbegin)
    have hschedule : ∀ (requested : MissingDataInfo) (streamName : Name),
        G (perform (.scheduleMappingFetch requested streamName)) fun _ => True :=
      fun _ _ => hqueries trivial (.scheduleMappingFetch _ _) trivial
    exact closed_updateCallbackInternal hG hother hschedule cfg hfetch (hupdate info rfl)
  | extraBlocks blocks =>
    obtain ⟨-, rfl⟩ := Prod.mk.inj (Option.some.inj hbegin)
    exact closed_onRecvExtraBlocks hG hother hprocess cfg hfetch blocks
  | publishMapping nodeId entry =>
    obtain ⟨-, rfl⟩ := Prod.mk.inj (Option.some.inj hbegin)
    exact hother _ id id id id
  | dataFetcher event =>
    obtain ⟨_, -, hbegin⟩ := Option.map_eq_some_iff.mp hbegin
    obtain ⟨-, rfl⟩ := Prod.mk.inj hbegin
    exact closed_onDataOutcome hG hother cfg hsettles _
  | mappingFetcher event =>
    obtain ⟨_, -, hbegin⟩ := Option.map_eq_some_iff.mp hbegin
    obtain ⟨-, rfl⟩ := Prod.mk.inj hbegin
    exact closed_onMappingOutcome hG hother hprocess (hqueries trivial) cfg hfetch _
  | fetchTimer index =>
    obtain ⟨due, -, hbegin⟩ := Option.bind_eq_some_iff.mp hbegin
    split at hbegin
    · obtain ⟨-, rfl⟩ := Prod.mk.inj (Option.some.inj hbegin)
      exact hfetch
    · cases hbegin
  | verdict index accepted =>
    obtain ⟨_, -, hbegin⟩ := Option.map_eq_some_iff.mp hbegin
    obtain ⟨-, rfl⟩ := Prod.mk.inj hbegin
    exact closed_onVerdict hother (hsettles trivial) _ _
  | segments index content =>
    obtain ⟨_, -, hbegin⟩ := Option.map_eq_some_iff.mp hbegin
    obtain ⟨-, rfl⟩ := Prod.mk.inj hbegin
    exact closed_onSegments hG hother (hsettles trivial) cfg _ _
  | _ =>
    obtain ⟨-, rfl⟩ := Prod.mk.inj (Option.some.inj hbegin)
    exact hG.ret trivial

end Handlers

/-! ### The calls of the handlers -/

section Calls

variable {Q : Call → Prop}

theorem makes_forSeqNos {low high : SeqNo} {f : SeqNo → Handler Unit}
    (h : ∀ seq, seq ≤ high → Makes Q (f seq)) : Makes Q (forSeqNos low high f) :=
  closed_forSeqNos (Program.closed_yields Q) h

theorem StreamCalls.makes {subs : List Subscription} {stream : MissingDataInfo}
    (h : StreamCalls Q subs stream) :
    StreamCalls (fun call => Makes Q (perform call)) subs stream :=
  ⟨fun seq hseq => Program.makes_perform (h.process seq hseq),
    fun sub hsub seq hseq => Program.makes_perform (h.add sub hsub seq hseq)⟩

variable (hQ : ∀ call : Call, ¬call.Queues → ¬call.Queries → ¬call.Settles → Q call)

include hQ

theorem makes_other (call : Call) (h : ¬call.Queues) (h' : ¬call.Queries) (h'' : ¬call.Settles) :
    Makes Q (perform call) :=
  Program.makes_perform (hQ call h h' h'')

theorem makes_fetchAll (cfg : SubscriberConfig) : Makes Q (fetchAll cfg) :=
  (makes_other hQ _ id id id).bind fun _ =>
    closed_fetchReady (Program.closed_yields Q) (fun _ _ _ => makes_other hQ _ id id id) _ _

theorem makes_fetchAllIf (cfg : SubscriberConfig) (queued : Bool) :
    Makes Q (fetchAllIf cfg queued) :=
  closed_fetchAllIf (Program.closed_yields Q) cfg (makes_fetchAll hQ cfg) queued

theorem makes_updateProducer {subs : List Subscription} {stream : MissingDataInfo}
    (h : StreamCalls Q subs stream) {sub : Subscription} (hsub : sub ∈ subs) :
    Makes Q (updateProducer stream sub) :=
  closed_updateProducer (Program.closed_yields Q)
    (fun call h h' h'' _ => makes_other hQ call h h' h'') h.makes hsub

/-- The calls of a step meet `Q` when those for the streams that the core reports do, and those for
queries and validated packets where there are any. -/
theorem makes_beginStep (hprocess : ∀ key : PublicationKey, key.Fits → Q (.processMapping key))
    (cfg : SubscriberConfig) {s begun : Subscriber} {e : SubscriberEvent × SubscribeInputs}
    {handler : Handler Unit} (hqueries : e.1.Queries → ∀ call : Call, call.Queries → Q call)
    (hsettles : e.1.Settles cfg → ∀ call : Call, call.Settles → Q call)
    (hupdate : ∀ info, e.1 = .update info →
      ∀ stream ∈ info, StreamCalls Q s.producerSubscriptions stream)
    (hbegin : beginStep cfg s e = some (begun, handler)) : Makes Q handler :=
  closed_beginStep (Program.closed_yields Q) (fun call h h' h'' _ => makes_other hQ call h h' h'')
    (fun key hkey => Program.makes_perform (hprocess key hkey)) cfg (makes_fetchAll hQ cfg)
    (fun h call hcall => Program.makes_perform (hqueries h call hcall))
    (fun h call hcall => Program.makes_perform (hsettles h call hcall))
    (fun info hinfo stream hstream => (hupdate info hinfo stream hstream).makes) hbegin

end Calls

end Subscriber

end NdnSvs
