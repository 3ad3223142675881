import NdnSvs.SubscribeCalls

/-! Missing publications and the queries for their mappings.  While every query is answered, each
publication that the core has reported is known and processed, or covered by a query. -/

namespace NdnSvs

open Lib Lib.Tlv Std

/-- The query covers the publication. -/
structure MappingRequest.Asks (request : MappingRequest) (key : PublicationKey) : Prop where
  nodeId : request.query.nodeId = key.nodeId
  bootstrapTime : request.query.bootstrapTime = key.bootstrapTime
  low_le : request.query.low ≤ key.seqNo
  le_high : key.seqNo ≤ request.query.high

instance (request : MappingRequest) (key : PublicationKey) : Decidable (request.Asks key) :=
  decidable_of_iff (request.query.nodeId = key.nodeId ∧
      request.query.bootstrapTime = key.bootstrapTime ∧ request.query.low ≤ key.seqNo ∧
      key.seqNo ≤ request.query.high)
    ⟨fun ⟨hn, hb, hl, hh⟩ => ⟨hn, hb, hl, hh⟩, fun ⟨hn, hb, hl, hh⟩ => ⟨hn, hb, hl, hh⟩⟩

/-- A query for a range, under the key of the range and in the name of the node. -/
structure MappingRequest.WellFormed (request : MappingRequest) : Prop where
  key : request.key = ⟨request.query.nodeId, request.query.bootstrapTime, request.query.low,
    request.query.high⟩
  streamName : request.streamName = request.query.nodeId
  range : request.query.low ≤ request.query.high

/-- Queries under one key cover the same publications. -/
theorem MappingRequest.WellFormed.asks {request request' : MappingRequest}
    (h : request.WellFormed) (h' : request'.WellFormed) (hkey : request.key = request'.key)
    {key : PublicationKey} (hasks : request'.Asks key) : request.Asks key := by
  rw [h.key, h'.key, MappingFetchKey.mk.injEq] at hkey
  obtain ⟨hnode, hbootstrap, hlow, hhigh⟩ := hkey
  exact ⟨hnode.trans hasks.nodeId, hbootstrap.trans hasks.bootstrapTime, hlow ▸ hasks.low_le,
    hhigh ▸ hasks.le_high⟩

namespace Subscriber

open Program (Ends)

/-! ### The bookkeeping of the queries -/

/-- The publication is known and has been processed, or a query that covers it is in flight or waits
to be sent. -/
def Served (s : Subscriber) (processed : List PublicationKey) (key : PublicationKey) : Prop :=
  (Knows key s ∧ key ∈ processed) ∨
    ∃ request ∈ s.mappingFetcher.outstanding, request.Asks key

instance (s : Subscriber) (processed : List PublicationKey) (key : PublicationKey) :
    Decidable (Served s processed key) := by
  unfold Served Knows
  infer_instance

/-- The publication whose mapping a call processes, unless there is an exception. -/
def processedBy (cfg : SubscriberConfig) (env : SubscribeInputs) (s : Subscriber) :
    Call → List PublicationKey
  | .processMapping key =>
    match (s.processMapping cfg env key).1 with
    | .ok _ => [key]
    | .error _ => []
  | _ => []

/-- What is in flight is outstanding, but for the query that is just being ended; none is held back;
and what has been delivered from packets that came along is known. -/
structure Tracked (ended : Option MappingFetchKey) (s : Subscriber) : Prop where
  inFlight : ∀ key ∈ s.mappingFetchInFlight,
    ended = some key ∨ ∃ request ∈ s.mappingFetcher.outstanding, request.key = key
  wellFormed : ∀ request ∈ s.mappingFetcher.outstanding, request.WellFormed
  suppressed : ∀ key : MappingFetchKey, s.mappingFetchSuppressUntil[key]? = none
  delivered : ∀ key ∈ s.piggyDeliveredPublications.entries, Knows key s

variable {cfg : SubscriberConfig} {env : SubscribeInputs}

/-- Calls that neither make a query nor end one leave the queries as they are. -/
theorem queries_act (s : Subscriber) {call : Call} (h : ¬call.Queries) :
    (act cfg env call s).2.mappingFetcher = s.mappingFetcher ∧
      (act cfg env call s).2.mappingFetchInFlight = s.mappingFetchInFlight ∧
      (act cfg env call s).2.mappingFetchSuppressUntil = s.mappingFetchSuppressUntil := by
  by_cases hmapping : call.IsMapping
  · cases call with
    | insertMapping key entry => exact ⟨rfl, rfl, rfl⟩
    | insertUnknownMapping key entry =>
      unfold act insertUnknownMapping
      dsimp only
      split
      · exact ⟨rfl, rfl, rfl⟩
      · exact ⟨rfl, rfl, rfl⟩
    | scheduleMappingFetch requested streamName => exact absurd trivial h
    | markMappingFetchComplete key => exact absurd trivial h
    | markMappingFetchFailed key => exact absurd trivial h
    | _ => exact hmapping.elim
  · have hframe := frame_act cfg env s call hmapping
    exact ⟨hframe.mappingFetcher, hframe.mappingFetchInFlight, hframe.mappingFetchSuppressUntil⟩

/-- A publication is delivered from a packet that came along only when its mapping is known. -/
theorem delivered_act {s : Subscriber} (call : Call)
    (h : ∀ key ∈ s.piggyDeliveredPublications.entries, Knows key s) :
    ∀ key ∈ (act cfg env call s).2.piggyDeliveredPublications.entries,
      Knows key (act cfg env call s).2 := by
  intro key hkey
  by_cases hmapping : call.IsMapping
  · refine knows_act cfg env call (h key ?_)
    obtain ⟨_, _, _, _, heq⟩ := mapping_act cfg env s hmapping
    rw [heq] at hkey
    exact hkey
  · rcases (frame_act cfg env s call hmapping).delivered key hkey with hkey | hknows
    · exact knows_act cfg env call (h key hkey)
    · exact knows_act cfg env call hknows

theorem Tracked.act {ended : Option MappingFetchKey} {s : Subscriber} (h : Tracked ended s)
    {call : Call} (hcall : ¬call.Queries) : Tracked ended (Subscriber.act cfg env call s).2 := by
  obtain ⟨hfetcher, hinFlight, hsuppress⟩ := @queries_act cfg env s call hcall
  constructor
  · rw [hinFlight, hfetcher]
    exact h.inFlight
  · rw [hfetcher]
    exact h.wellFormed
  · rw [hsuppress]
    exact h.suppressed
  · exact delivered_act call h.delivered

/-- The end of a query. -/
theorem Tracked.markComplete {key : MappingFetchKey} {s : Subscriber} (h : Tracked (some key) s) :
    Tracked none (s.markMappingFetchComplete key) where
  inFlight := fun key' hkey' => by
    obtain ⟨hne, hmem⟩ := ExtTreeMap.mem_erase.mp hkey'
    rcases h.inFlight key' hmem with heq | hrequest
    · exact absurd (Std.compare_eq_iff_eq.mpr (Option.some.inj heq)) hne
    · exact .inr hrequest
  wellFormed := h.wellFormed
  suppressed := fun key' => by
    rw [markMappingFetchComplete, Map.get_erase, h.suppressed key', ite_self]
  delivered := h.delivered

/-- The query for a range that is asked for. -/
def queryFor (requested : MissingDataInfo) : MappingRequest :=
  let query := { requested with high := max requested.high requested.low }
  { query, streamName := requested.nodeId,
    key := ⟨query.nodeId, query.bootstrapTime, query.low, query.high⟩ }

theorem queryFor_wellFormed (requested : MissingDataInfo) : (queryFor requested).WellFormed :=
  ⟨rfl, rfl, le_max_right _ _⟩

theorem scheduleMappingFetch_eq (s : Subscriber) (requested : MissingDataInfo) :
    s.scheduleMappingFetch cfg env requested requested.nodeId =
      if (queryFor requested).key ∈ s.mappingFetchInFlight then (false, s)
      else if (s.mappingFetchSuppressUntil[(queryFor requested).key]?).any fun suppress =>
          env.steadyNow < suppress then (false, s)
      else (true, { s with
        mappingFetchSuppressUntil := s.mappingFetchSuppressUntil.erase (queryFor requested).key
        mappingFetchInFlight := s.mappingFetchInFlight.insert (queryFor requested).key true
        mappingFetcher := s.mappingFetcher.expressInterest cfg.fetcher (queryFor requested)
          cfg.mappingFetchRetries }) := rfl

/-- A range that is asked for is covered, by the new query or by one that has been made. -/
theorem Tracked.schedule {s : Subscriber} (h : Tracked none s) (requested : MissingDataInfo) :
    let s' := (s.scheduleMappingFetch cfg env requested requested.nodeId).2
    Tracked none s' ∧ ∃ request ∈ s'.mappingFetcher.outstanding, request.WellFormed ∧
      request.key = (queryFor requested).key := by
  have hdelivered : ∀ key ∈ (s.scheduleMappingFetch cfg env requested
      requested.nodeId).2.piggyDeliveredPublications.entries,
      Knows key (s.scheduleMappingFetch cfg env requested requested.nodeId).2 :=
    delivered_act (.scheduleMappingFetch requested requested.nodeId) h.delivered
  rw [scheduleMappingFetch_eq] at hdelivered ⊢
  split
  · rename_i hinFlight
    rcases h.inFlight _ hinFlight with hended | ⟨request, hrequest, hkey⟩
    · cases hended
    · exact ⟨h, request, hrequest, h.wellFormed request hrequest, hkey⟩
  · split
    · rename_i hsuppressed
      rw [h.suppressed] at hsuppressed
      cases hsuppressed
    · rename_i hfree hnot
      rw [if_neg hfree, if_neg hnot] at hdelivered
      have hperm := Fetcher.outstanding_expressInterest cfg.fetcher s.mappingFetcher
        (queryFor requested) cfg.mappingFetchRetries
      have hnew : queryFor requested ∈ (s.mappingFetcher.expressInterest cfg.fetcher
          (queryFor requested) cfg.mappingFetchRetries).outstanding :=
        hperm.mem_iff.mpr List.mem_cons_self
      refine ⟨⟨fun key hkey => .inr ?_, fun request hrequest => ?_, fun key => ?_, hdelivered⟩,
        queryFor requested, hnew, queryFor_wellFormed requested, rfl⟩
      · rcases ExtTreeMap.mem_insert.mp hkey with heq | hkey
        · exact ⟨_, hnew, Std.compare_eq_iff_eq.mp heq⟩
        · rcases h.inFlight key hkey with hended | ⟨request, hrequest, hrequestKey⟩
          · cases hended
          · exact ⟨request, hperm.mem_iff.mpr (List.mem_cons_of_mem _ hrequest), hrequestKey⟩
      · rcases List.mem_cons.mp (hperm.mem_iff.mp hrequest) with rfl | hrequest
        · exact queryFor_wellFormed requested
        · exact h.wellFormed request hrequest
      · rw [Map.get_erase, h.suppressed key, ite_self]

/-- No call takes a query back. -/
theorem outstanding_act {s : Subscriber} (call : Call) {request : MappingRequest}
    (h : request ∈ s.mappingFetcher.outstanding) :
    request ∈ (act cfg env call s).2.mappingFetcher.outstanding := by
  by_cases hqueries : call.Queries
  · cases call with
    | scheduleMappingFetch requested streamName =>
      unfold act scheduleMappingFetch
      dsimp only
      split
      · exact h
      · split
        · exact h
        · exact (Fetcher.outstanding_expressInterest _ _ _ _).mem_iff.mpr (List.mem_cons_of_mem _ h)
    | markMappingFetchComplete key => exact h
    | markMappingFetchFailed key => exact h
    | _ => exact hqueries.elim
  · rw [(queries_act s hqueries).1]
    exact h

/-- What is served stays served under every call. -/
theorem served_noting {key : PublicationKey} {p : Subscriber × List PublicationKey} (call : Call)
    (h : Served p.1 p.2 key) :
    let p' := (Program.noting (act cfg env) (processedBy cfg env) call p).2
    Served p'.1 p'.2 key := by
  rcases h with ⟨hknows, hmem⟩ | ⟨request, hrequest, hasks⟩
  · exact .inl ⟨knows_act cfg env call hknows, List.mem_append_left _ hmem⟩
  · exact .inr ⟨request, outstanding_act call hrequest, hasks⟩

/-! ### What the handlers leave behind -/

/-- The calls with notes on what they process. -/
abbrev noted (cfg : SubscriberConfig) (env : SubscribeInputs) (call : Call)
    (p : Subscriber × List PublicationKey) : call.Reply × (Subscriber × List PublicationKey) :=
  Program.noting (act cfg env) (processedBy cfg env) call p

section Handlers

variable {ended : Option MappingFetchKey} {p : Subscriber × List PublicationKey}

theorem ends_of_makes {α : Type} {handler : Handler α}
    (hmakes : Program.Makes (fun call : Call => ¬call.Queries) handler) (hp : Tracked ended p.1) :
    Ends (noted cfg env) (fun _ p' => Tracked ended p'.1) handler p := by
  have hkeep : ∀ (p : Subscriber × List PublicationKey) (call : Call), ¬call.Queries →
      Tracked ended p.1 → Tracked ended (noted cfg env call p).2.1 :=
    fun p call hcall hp => hp.act hcall
  exact fun a p' hexec => Program.exec_invariant hkeep hp
    (hmakes.along (fun _ _ hcall => hcall) p) hexec

/-- What is served stays served under a program. -/
theorem served_exec {α : Type} {handler : Handler α} {key : PublicationKey} {a : α}
    {p' : Subscriber × List PublicationKey} (h : Served p.1 p.2 key)
    (hexec : handler.exec (noted cfg env) p = some (a, p')) : Served p'.1 p'.2 key := by
  have hkeep : ∀ (p : Subscriber × List PublicationKey) (call : Call), Served p.1 p.2 key →
      Served (noted cfg env call p).2.1 (noted cfg env call p).2.2 key :=
    fun p call h => served_noting call h
  exact @Program.exec_keeps _ _ _ _ _ (fun p => Served p.1 p.2 key) hkeep _ _ _ _ h hexec

theorem ends_schedule (hp : Tracked none p.1) (requested : MissingDataInfo) :
    Ends (noted cfg env) (fun _ p' => Tracked none p'.1 ∧ ∀ seq, requested.low ≤ seq →
        seq ≤ max requested.high requested.low →
          Served p'.1 p'.2 ⟨requested.nodeId, requested.bootstrapTime, seq⟩)
      (perform (.scheduleMappingFetch requested requested.nodeId)) p := by
  obtain ⟨htracked, request, hrequest, hwell, hkey⟩ := @Tracked.schedule cfg env p.1 hp requested
  refine Program.ends_perform.mpr ⟨htracked, fun seq hlow hhigh => .inr ⟨request, hrequest, ?_⟩⟩
  exact hwell.asks (queryFor_wellFormed requested) hkey ⟨rfl, rfl, hlow, hhigh⟩

/-- A mapping is processed only when it is known. -/
theorem knows_of_processed {s : Subscriber}
    (h : ∀ key ∈ s.piggyDeliveredPublications.entries, Knows key s) {key : PublicationKey} {q : Bool}
    (hprocessed : (s.processMapping cfg env key).1 = .ok q) : Knows key s := by
  unfold processMapping at hprocessed
  split at hprocessed
  · rename_i hdelivered
    exact h key (of_decide_eq_true hdelivered)
  · split at hprocessed
    · cases hprocessed
    · rename_i mapping hmapping
      rw [Knows, hmapping]
      rfl

theorem ends_process (hp : Tracked ended p.1) (key : PublicationKey) :
    Ends (noted cfg env) (fun reply p' => Tracked ended p'.1 ∧
        ∀ q, reply = .ok q → Served p'.1 p'.2 key) (process key) p := by
  intro reply p' hexec
  obtain ⟨rfl, rfl⟩ := Prod.mk.inj (Option.some.inj hexec)
  refine ⟨hp.act id, fun q hreply => .inl ⟨?_, ?_⟩⟩
  · exact knows_act cfg env (.processMapping key) (knows_of_processed hp.delivered hreply)
  · have hnote : processedBy cfg env p.1 (.processMapping key) = [key] := by
      have hreply : (p.1.processMapping cfg env key).1 = .ok q := hreply
      rw [processedBy, hreply]
    exact List.mem_append_right _ (hnote ▸ List.mem_cons_self)

/-- Up to where the loop stops everything has been processed. -/
theorem ends_processKnown {stream : MissingDataInfo} (hhigh : stream.high < 2 ^ 64) (fuel : Nat)
    (low : SeqNo) (hp : Tracked none p.1) :
    Ends (noted cfg env) (fun low' p' => Tracked none p'.1 ∧ ∀ seq, low ≤ seq → seq ≤ stream.high →
        low' ≤ seq ∨ Served p'.1 p'.2 ⟨stream.nodeId, stream.bootstrapTime, seq⟩)
      (processKnown stream fuel low) p := by
  induction fuel generalizing low p with
  | zero => exact fun low' p' hexec => by cases hexec
  | succ fuel ih =>
    rw [processKnown]
    split
    · exact Program.ends_ret.mpr ⟨hp, fun seq hlow _ => .inl hlow⟩
    · rename_i hlow
      refine Program.ends_bind fun reply p₁ hexec => ?_
      obtain ⟨hp₁, hserved⟩ := ends_process hp _ reply p₁ hexec
      cases reply with
      | error e => exact Program.ends_ret.mpr ⟨hp₁, fun seq hlow _ => .inl hlow⟩
      | ok q =>
        intro low' p' hexec'
        obtain ⟨htracked, hrest⟩ := ih ((low + 1) % 2 ^ 64) hp₁ low' p' hexec'
        refine ⟨htracked, fun seq hle hseq => ?_⟩
        rcases Nat.eq_or_lt_of_le hle with rfl | hlt
        · exact .inr (served_exec (hserved q rfl) hexec')
        · have hnext : (low + 1) % 2 ^ 64 = low + 1 :=
            Nat.mod_eq_of_lt (Nat.lt_of_le_of_lt (Nat.le_trans hlt hseq) hhigh)
          rw [hnext] at hrest
          exact hrest seq hlt hseq

/-- Queries cover a range to its end. -/
theorem ends_queryRanges {stream : MissingDataInfo} (hhigh : stream.high < 2 ^ 64) (fuel : Nat)
    (low : SeqNo) (hp : Tracked none p.1) :
    Ends (noted cfg env) (fun _ p' => Tracked none p'.1 ∧ ∀ seq, low ≤ seq → seq ≤ stream.high →
        Served p'.1 p'.2 ⟨stream.nodeId, stream.bootstrapTime, seq⟩)
      (queryRanges stream fuel low) p := by
  induction fuel generalizing low p with
  | zero => exact fun low' p' hexec => by cases hexec
  | succ fuel ih =>
    rw [queryRanges]
    split
    · rename_i hend
      exact Program.ends_ret.mpr ⟨hp, fun seq hlow hseq => absurd hend (by lia)⟩
    · rename_i hlow
      dsimp only
      generalize hend : (if 10 < stream.high - low then low + 10 else stream.high) = high
      refine Program.ends_bind fun asked p₁ hexec => ?_
      obtain ⟨hp₁, hserved⟩ := ends_schedule hp { stream with low, high } asked p₁ hexec
      intro u p' hexec'
      obtain ⟨htracked, hrest⟩ := ih ((low + 11) % 2 ^ 64) hp₁ u p' hexec'
      refine ⟨htracked, fun seq hle hseq => ?_⟩
      by_cases hchunk : seq ≤ high
      · exact served_exec (hserved seq hle (le_max_of_le_left hchunk)) hexec'
      · -- the next range begins behind this one, and so before the counter overflows
        have hnext : low + 11 ≤ seq := by
          clear hrest hserved ih hexec hexec' hhigh
          split at hend
          · lia
          · lia
        refine hrest seq ?_ hseq
        rw [Nat.mod_eq_of_lt (Nat.lt_of_le_of_lt (hnext.trans hseq) hhigh)]
        exact hnext

/-- A stream that is reported is served to its end, when there is a subscription to names. -/
theorem ends_updateStream {s : Subscriber}
    (hs : s.prefixSubscriptions ≠ [] ∨ s.regexSubscriptions ≠ [])
    {stream : MissingDataInfo} (hhigh : stream.high < 2 ^ 64) (hp : Tracked none p.1) :
    Ends (noted cfg env) (fun _ p' => Tracked none p'.1 ∧ ∀ seq, stream.low ≤ seq →
        seq ≤ stream.high → Served p'.1 p'.2 ⟨stream.nodeId, stream.bootstrapTime, seq⟩)
      (updateStream s stream) p := by
  have hproducers : Program.Makes (fun call : Call => ¬call.Queries)
      (Program.forEach (updateProducer stream) s.producerSubscriptions) :=
    Program.Makes.foldEach (fun _ sub hsub => makes_updateProducer (fun _ _ hcall _ => hcall)
      ⟨fun _ _ => id, fun _ _ _ _ => id⟩ hsub) ()
  refine Program.ends_bind fun u p₁ hexec => ?_
  have hp₁ := ends_of_makes hproducers hp u p₁ hexec
  rw [if_pos hs]
  refine Program.ends_bind fun low p₂ hexec₂ => ?_
  obtain ⟨hp₂, hknown⟩ := ends_processKnown hhigh counterFuel stream.low hp₁ low p₂ hexec₂
  intro v p' hexec'
  obtain ⟨htracked, hqueried⟩ := ends_queryRanges hhigh counterFuel low hp₂ v p' hexec'
  refine ⟨htracked, fun seq hlow hseq => ?_⟩
  rcases hknown seq hlow hseq with hle | hserved
  · exact hqueried seq hle hseq
  · exact served_exec hserved hexec'

theorem ends_updateCallbackInternal {s : Subscriber}
    (hs : s.prefixSubscriptions ≠ [] ∨ s.regexSubscriptions ≠ []) {info : List MissingDataInfo}
    (hhigh : ∀ stream ∈ info, stream.high < 2 ^ 64) (hp : Tracked none p.1) :
    Ends (noted cfg env) (fun _ p' => Tracked none p'.1 ∧ ∀ stream ∈ info, ∀ seq,
        stream.low ≤ seq → seq ≤ stream.high →
          Served p'.1 p'.2 ⟨stream.nodeId, stream.bootstrapTime, seq⟩)
      (updateCallbackInternal cfg s info) p := by
  have hkeep : ∀ (stream : MissingDataInfo) (p : Subscriber × List PublicationKey) (call : Call),
      (∀ seq, stream.low ≤ seq → seq ≤ stream.high →
        Served p.1 p.2 ⟨stream.nodeId, stream.bootstrapTime, seq⟩) →
      ∀ seq, stream.low ≤ seq → seq ≤ stream.high →
        Served (noted cfg env call p).2.1 (noted cfg env call p).2.2
          ⟨stream.nodeId, stream.bootstrapTime, seq⟩ :=
    fun stream p call h seq hlow hseq => served_noting call (h seq hlow hseq)
  have heach := Program.ends_foldEach_each (f := fun _ => updateStream s) hkeep
    (fun _ stream hstream p hp => ends_updateStream hs (hhigh stream hstream) hp) () hp
  refine Program.ends_bind fun u p₁ hexec => ?_
  obtain ⟨hp₁, hserved⟩ := heach u p₁ hexec
  intro v p' hexec'
  exact ⟨ends_of_makes (makes_fetchAll (fun _ _ hcall _ => hcall) cfg) hp₁ v p' hexec',
    fun stream hstream seq hlow hseq => served_exec (hserved stream hstream seq hlow hseq) hexec'⟩

/-! ### Replies -/

/-- The mappings of the Data of a query, nothing when they cannot be read. -/
def replyOf (data : Data) : Option MappingList :=
  (blockFromValue data.content).bind MappingList.read

/-- Processing the mapping, when it is known, meets no timestamp that cannot be read. -/
def Dated (cfg : SubscriberConfig) (env : SubscribeInputs) (s : Subscriber) : Call → Prop
  | .processMapping key => ∀ mapping ∈ s.getMapping key, cfg.maxPubAge ≤ 0 ∨
      s.hasPiggyDeliveredPublication key ∨ (isTooOld cfg env mapping.additional).toOption.isSome
  | _ => True

instance (cfg : SubscriberConfig) (env : SubscribeInputs) (s : Subscriber) (call : Call) :
    Decidable (Dated cfg env s call) := by
  apply Call.casesOn (motive := fun call => Decidable (Dated cfg env s call)) call
  all_goals
    intros
    unfold Dated
    infer_instance

/-- Processing a mapping throws no exception: the publication has been delivered, or its mapping is
known, and has no timestamp that cannot be read when the age of publications is limited. -/
def Processes (cfg : SubscriberConfig) (env : SubscribeInputs) (s : Subscriber) : Call → Prop
  | .processMapping key => s.hasPiggyDeliveredPublication key ∨ ∃ mapping ∈ s.getMapping key,
      cfg.maxPubAge ≤ 0 ∨ (isTooOld cfg env mapping.additional).toOption.isSome
  | _ => True

theorem processes_iff {s : Subscriber} {key : PublicationKey} :
    Processes cfg env s (.processMapping key) ↔ ∃ q, (s.processMapping cfg env key).1 = .ok q := by
  show (_ ∨ ∃ mapping ∈ s.getMapping key, _) ↔ _
  unfold processMapping
  split
  · rename_i hdelivered
    exact iff_of_true (.inl hdelivered) ⟨false, rfl⟩
  · rename_i hdelivered
    cases hmapping : s.getMapping key with
    | none => simp [hdelivered]
    | some mapping =>
      simp only [hdelivered, Option.mem_def, Option.some.injEq, exists_eq_left', false_or,
        Bool.false_eq_true]
      by_cases hage : 0 < cfg.maxPubAge
      · rw [if_pos hage, or_iff_right (Int.not_le.mpr hage)]
        cases isTooOld cfg env mapping.additional with
        | error e => exact iff_of_false (by simp [Except.toOption]) (by rintro ⟨q, hq⟩; cases hq)
        | ok old =>
          refine iff_of_true rfl ?_
          cases old with
          | false => exact ⟨_, rfl⟩
          | true => exact ⟨false, rfl⟩
      · rw [if_neg hage]
        exact iff_of_true (.inl (Int.not_lt.mp hage)) ⟨_, rfl⟩

theorem processed_of_dated {s : Subscriber} {key : PublicationKey} (hknows : Knows key s)
    (h : Dated cfg env s (.processMapping key)) :
    ∃ q, (s.processMapping cfg env key).1 = .ok q := by
  obtain ⟨mapping, hmapping⟩ := Option.isSome_iff_exists.mp hknows
  refine processes_iff.mp ?_
  rcases h mapping hmapping with hage | hdelivered | hdated
  · exact .inr ⟨mapping, hmapping, .inl hage⟩
  · exact .inl hdelivered
  · exact .inr ⟨mapping, hmapping, .inr hdated⟩

/-- Every mapping of a reply is processed, unless one has a timestamp that cannot be read. -/
theorem ends_processReply {streamName : Name} {entries : List MappingEntry} {queued : Bool}
    (hknown : ∀ entry ∈ entries, Knows ⟨streamName, entry.bootstrapTime, entry.seqNo⟩ p.1)
    (hdated : (processReply streamName entries queued).Along (noted cfg env)
      (fun p call => Dated cfg env p.1 call) p) (hp : Tracked none p.1) :
    Ends (noted cfg env) (fun result p' => Tracked none p'.1 ∧ (∃ q, result = .ok q) ∧
        ∀ entry ∈ entries, Served p'.1 p'.2 ⟨streamName, entry.bootstrapTime, entry.seqNo⟩)
      (processReply streamName entries queued) p := by
  induction entries generalizing p queued with
  | nil =>
    exact Program.ends_ret.mpr
      ⟨hp, ⟨queued, rfl⟩, fun entry hentry => absurd hentry List.not_mem_nil⟩
  | cons entry entries ih =>
    obtain ⟨hentry, hentries⟩ := List.forall_mem_cons.mp hknown
    obtain ⟨hfirst, hrest⟩ := hdated
    obtain ⟨q, hq⟩ := processed_of_dated hentry hfirst
    have hreply : (noted cfg env (.processMapping ⟨streamName, entry.bootstrapTime, entry.seqNo⟩)
      p).1 = .ok q := hq
    obtain ⟨hp₁, hserved⟩ := ends_process hp ⟨streamName, entry.bootstrapTime, entry.seqNo⟩ _ _ rfl
    intro result p' hexec
    rw [processReply, Program.exec_bind] at hexec
    obtain ⟨⟨reply, p₁⟩, hprocess, hexec⟩ := Option.bind_eq_some_iff.mp hexec
    obtain ⟨rfl, rfl⟩ := Prod.mk.inj (Option.some.inj hprocess)
    dsimp only at hexec hrest
    rw [hreply] at hexec hrest
    have hknown₁ : ∀ entry' ∈ entries, Knows ⟨streamName, entry'.bootstrapTime, entry'.seqNo⟩
        (noted cfg env (.processMapping ⟨streamName, entry.bootstrapTime, entry.seqNo⟩) p).2.1 :=
      fun entry' hentry' => knows_act cfg env _ (hentries entry' hentry')
    obtain ⟨htracked, hok, hall⟩ := ih hknown₁ hrest hp₁ result p' hexec
    exact ⟨htracked, hok, List.forall_mem_cons.mpr ⟨served_exec (hserved q hreply) hexec, hall⟩⟩

/-- The numbers of a range that a reply left out are asked for again. -/
theorem ends_requeryGaps {requested : MissingDataInfo} {returned : List SeqNo} {high : SeqNo}
    {seqs : List SeqNo} {missingLow : Option SeqNo} {k n : SeqNo} (hseqs : seqs = List.range' k n)
    (hend : k + n = high + 1) (hmissing : ∀ low ∈ missingLow, low < k) (hp : Tracked none p.1) :
    Ends (noted cfg env) (fun _ p' => Tracked none p'.1 ∧ ∀ seq, missingLow.getD k ≤ seq →
        seq ≤ high → seq ∈ returned ∨ Served p'.1 p'.2
          ⟨requested.nodeId, requested.bootstrapTime, seq⟩)
      (requeryGaps requested requested.nodeId returned high seqs missingLow) p := by
  induction seqs generalizing missingLow k n p with
  | nil =>
    obtain rfl : n = 0 := by simpa using hseqs.symm
    cases missingLow with
    | none =>
      refine Program.ends_ret.mpr ⟨hp, fun seq hlow hseq => ?_⟩
      simp only [Option.getD_none] at hlow
      lia
    | some low =>
      refine Program.ends_bind fun asked p₁ hexec => ?_
      obtain ⟨hp₁, hserved⟩ := ends_schedule hp { requested with low, high } asked p₁ hexec
      exact Program.ends_ret.mpr ⟨hp₁, fun seq hlow hseq =>
        .inr (hserved seq hlow (le_max_of_le_left hseq))⟩
  | cons seq seqs ih =>
    obtain ⟨n, rfl⟩ : ∃ m, n = m + 1 := by
      cases n with
      | zero => cases hseqs
      | succ m => exact ⟨m, rfl⟩
    rw [List.range'_succ, List.cons.injEq] at hseqs
    obtain ⟨rfl, hseqs⟩ := hseqs
    have hend' : seq + 1 + n = high + 1 := by lia
    unfold requeryGaps
    split
    · rename_i hnot
      refine (ih hseqs hend' ?_ hp).mono fun _ p' h =>
        ⟨h.1, fun seq' hlow hseq' => h.2 seq' ?_ hseq'⟩
      · intro low hlow
        cases missingLow with
        | none =>
          obtain rfl : seq = low := by simpa using hlow
          exact Nat.lt_succ_self _
        | some missing =>
          obtain rfl : missing = low := by simpa using hlow
          exact Nat.lt_succ_of_lt (hmissing missing rfl)
      · cases missingLow with
        | none => simpa using hlow
        | some missing => simpa using hlow
    · rename_i hreturned
      have hthere : seq ∈ returned := not_not.mp hreturned
      cases missingLow with
      | none =>
        refine (ih hseqs hend' (by simp) hp).mono fun _ p' h => ⟨h.1, fun seq' hlow hseq' => ?_⟩
        rcases Nat.eq_or_lt_of_le hlow with rfl | hlt
        · exact .inl hthere
        · exact h.2 seq' hlt hseq'
      | some low =>
        have hlow := hmissing low rfl
        refine Program.ends_bind fun asked p₁ hexec => ?_
        obtain ⟨hp₁, hserved⟩ :=
          ends_schedule hp { requested with low, high := seq - 1 } asked p₁ hexec
        intro u p' hexec'
        obtain ⟨htracked, hrest⟩ := ih hseqs hend' (by simp) hp₁ u p' hexec'
        refine ⟨htracked, fun seq' hle hseq' => ?_⟩
        rcases Nat.lt_trichotomy seq' seq with hlt | rfl | hgt
        · have hbelow : seq' ≤ max (seq - 1) low := le_max_of_le_left (Nat.le_sub_one_of_lt hlt)
          exact .inr (served_exec (hserved seq' hle hbelow) hexec')
        · exact .inl hthere
        · exact hrest seq' hgt hseq'

/-- After a reply the range of its query is processed, or asked for again. -/
theorem ends_onFetchedNameMappings {requested : MissingDataInfo} {list : MappingList}
    (hnonempty : list.pairs ≠ []) (hrange : requested.low ≤ requested.high)
    (hknown : ∀ entry ∈ list.pairs, Knows ⟨requested.nodeId, entry.bootstrapTime, entry.seqNo⟩ p.1)
    (hdated : (onFetchedNameMappings cfg requested requested.nodeId list).Along (noted cfg env)
      (fun p call => Dated cfg env p.1 call) p) (hp : Tracked none p.1) :
    Ends (noted cfg env) (fun _ p' => Tracked none p'.1 ∧ ∀ seq, requested.low ≤ seq →
        seq ≤ requested.high → Served p'.1 p'.2 ⟨requested.nodeId, requested.bootstrapTime, seq⟩)
      (onFetchedNameMappings cfg requested requested.nodeId list) p := by
  unfold onFetchedNameMappings at hdated ⊢
  rw [if_neg hnonempty] at hdated ⊢
  dsimp only at hdated ⊢
  rw [max_eq_left hrange] at hdated ⊢
  refine Program.ends_bind fun result p₁ hexec => ?_
  obtain ⟨hp₁, ⟨queued, rfl⟩, hserved⟩ :=
    ends_processReply hknown (Program.along_bind.mp hdated).1 hp result p₁ hexec
  refine Program.ends_bind fun u p₂ hexec₂ => ?_
  have hp₂ := ends_of_makes (makes_fetchAllIf (fun _ _ hcall _ => hcall) cfg queued) hp₁ u p₂ hexec₂
  intro v p' hexec'
  unfold requery at hexec'
  split at hexec'
  · cases hexec'
  · have hend : requested.low + (requested.high + 1 - requested.low) = requested.high + 1 := by lia
    obtain ⟨htracked, hgaps⟩ := ends_requeryGaps rfl hend (by simp) hp₂ v p' hexec'
    refine ⟨htracked, fun seq hlow hhigh => ?_⟩
    rcases hgaps seq hlow hhigh with hreturned | hasked
    · obtain ⟨entry, hentry, rfl⟩ := List.mem_map.mp hreturned
      obtain ⟨hentry, hfilter⟩ := List.mem_filter.mp hentry
      have hbootstrap := (of_decide_eq_true hfilter).1
      have hprocessed := served_exec (served_exec (hserved entry hentry) hexec₂) hexec'
      rwa [hbootstrap] at hprocessed
    · exact hasked

theorem onMappingData_of_reply {request : MappingRequest} {data : Data} {list : MappingList}
    (h : replyOf data = some list) : onMappingData cfg request data =
      (Program.forEach (fun entry : MappingEntry => perform (.insertUnknownMapping
        ⟨request.query.nodeId, entry.bootstrapTime, entry.seqNo⟩ entry.mapping)) list.pairs).bind
      fun _ => (perform (.markMappingFetchComplete request.key)).bind fun _ =>
        onFetchedNameMappings cfg request.query request.streamName list := by
  obtain ⟨block, hblock, hread⟩ := Option.bind_eq_some_iff.mp h
  unfold onMappingData
  rw [hblock]
  dsimp only
  rw [MappingList.decode_of_read hread]
  rfl

/-- Nothing is done with Data whose mappings cannot be read. -/
theorem onMappingData_of_unreadable {request : MappingRequest} {data : Data}
    (h : replyOf data = none) : onMappingData cfg request data = .ret () := by
  unfold onMappingData
  cases hblock : blockFromValue data.content with
  | none => rfl
  | some block =>
    rw [replyOf, hblock, Option.bind_some, MappingList.read] at h
    dsimp only
    cases hdecode : MappingList.decode block with
    | error e => rfl
    | ok list =>
      rw [hdecode] at h
      cases h

/-- A reply with mappings ends its query, and serves what the query covered. -/
theorem ends_onMappingData {request : MappingRequest} {data : Data} {list : MappingList}
    (hreply : replyOf data = some list) (hnonempty : list.pairs ≠ []) (hwell : request.WellFormed)
    (hdated : (onMappingData cfg request data).Along (noted cfg env)
      (fun p call => Dated cfg env p.1 call) p) (hp : Tracked (some request.key) p.1) :
    Ends (noted cfg env) (fun _ p' => Tracked none p'.1 ∧
        ∀ key, request.Asks key → Served p'.1 p'.2 key) (onMappingData cfg request data) p := by
  rw [onMappingData_of_reply hreply, hwell.streamName] at hdated ⊢
  have hkeep : ∀ (entry : MappingEntry) (p : Subscriber × List PublicationKey) (call : Call),
      Knows ⟨request.query.nodeId, entry.bootstrapTime, entry.seqNo⟩ p.1 →
      Knows ⟨request.query.nodeId, entry.bootstrapTime, entry.seqNo⟩ (noted cfg env call p).2.1 :=
    fun entry p call hknows => knows_act cfg env call hknows
  have hinsert : ∀ (u : Unit), ∀ entry ∈ list.pairs, ∀ p : Subscriber × List PublicationKey,
      Tracked (some request.key) p.1 → Ends (noted cfg env) (fun _ p' =>
        Tracked (some request.key) p'.1 ∧
          Knows ⟨request.query.nodeId, entry.bootstrapTime, entry.seqNo⟩ p'.1)
        (perform (.insertUnknownMapping
          ⟨request.query.nodeId, entry.bootstrapTime, entry.seqNo⟩ entry.mapping)) p := by
    intro _ entry _ p hp u p' hexec
    obtain ⟨-, rfl⟩ := Prod.mk.inj (Option.some.inj hexec)
    refine ⟨hp.act id, ?_⟩
    show Knows _ (p.1.insertUnknownMapping _ _)
    unfold insertUnknownMapping
    split
    · rename_i known hknown
      rw [Knows, hknown]
      rfl
    · rw [Knows, getMapping_insertMapping_self]
      rfl
  refine Program.ends_bind fun u p₁ hexec => ?_
  obtain ⟨hp₁, hknown⟩ := Program.ends_foldEach_each hkeep hinsert () hp u p₁ hexec
  have hrest := (Program.along_bind.mp hdated).2 u p₁ hexec
  refine Program.ends_bind fun v p₂ hexec₂ => ?_
  obtain ⟨-, rfl⟩ := Prod.mk.inj (Option.some.inj hexec₂)
  have hended := hp₁.markComplete
  refine (ends_onFetchedNameMappings hnonempty hwell.range ?_ hrest.2 hended).mono
    fun _ p' h => ⟨h.1, fun key hasks => ?_⟩
  · exact fun entry hentry => knows_act cfg env (.markMappingFetchComplete request.key)
      (hknown entry hentry)
  · have hserved := h.2 key.seqNo hasks.low_le hasks.le_high
    rwa [hasks.nodeId, hasks.bootstrapTime] at hserved

end Handlers

/-! ### Runs -/

/-- What the core has reported so far, and what has been processed. -/
structure Notes where
  reported : List MissingDataInfo := []
  processed : List PublicationKey := []

/-- What the core reports in an event. -/
def reportedBy : SubscriberEvent → List MissingDataInfo
  | .update info => info
  | _ => []

def Notes.add (cfg : SubscriberConfig) (notes : Notes) (s : Subscriber)
    (e : SubscriberEvent × SubscribeInputs) (_ : Subscriber) : Notes where
  reported := notes.reported ++ reportedBy e.1
  processed := notes.processed ++ match beginStep cfg s e with
    | none => []
    | some (begun, handler) => handler.notes (act cfg e.2) (processedBy cfg e.2) begun

/-- There is a subscription to names when the core reports. -/
def HasSubscription (s : Subscriber) (e : SubscriberEvent × SubscribeInputs) : Prop :=
  match e.1 with
  | .update _ => s.prefixSubscriptions ≠ [] ∨ s.regexSubscriptions ≠ []
  | _ => True

instance (s : Subscriber) (e : SubscriberEvent × SubscribeInputs) :
    Decidable (HasSubscription s e) := by
  unfold HasSubscription
  obtain ⟨e, env⟩ := e
  cases e <;> infer_instance

/-- The query ends with Data that brings mappings. -/
def Answered : FetchOutcome MappingRequest → Prop
  | .satisfied _ data => ∃ list ∈ replyOf data, list.pairs ≠ []
  | _ => False

instance (outcome : FetchOutcome MappingRequest) : Decidable (Answered outcome) := by
  unfold Answered
  cases outcome <;> infer_instance

/-- A query for mappings that ends is answered, and the answer can be processed. -/
def QueriesAnswered (cfg : SubscriberConfig) (s : Subscriber)
    (e : SubscriberEvent × SubscribeInputs) : Prop :=
  match e.1 with
  | .mappingFetcher event =>
    (∀ outcome ∈ (s.mappingFetcher.step cfg.fetcher event).bind Prod.snd, Answered outcome) ∧
      CallsAlong cfg (Dated cfg e.2) s e
  | _ => True

instance (cfg : SubscriberConfig) (s : Subscriber) (e : SubscriberEvent × SubscribeInputs) :
    Decidable (QueriesAnswered cfg s e) := by
  unfold QueriesAnswered
  obtain ⟨e, env⟩ := e
  cases e <;> infer_instance

/-- Every publication that has been reported is served. -/
structure Accounted (s : Subscriber) (notes : Notes) : Prop where
  tracked : Tracked none s
  served : ∀ stream ∈ notes.reported, ∀ seq, stream.low ≤ seq → seq ≤ stream.high →
    Served s notes.processed ⟨stream.nodeId, stream.bootstrapTime, seq⟩

section Steps

variable {s s' begun : Subscriber} {notes notes' : Notes} {handler : Handler Unit}

/-- Before its handler runs, an event changes neither the queries nor what is known, unless it comes
from the fetcher of mappings. -/
theorem accounted_begun {e : SubscriberEvent × SubscribeInputs}
    (hbegin : beginStep cfg s e = some (begun, handler)) (he : ∀ event, e.1 ≠ .mappingFetcher event)
    (h : Accounted s notes) : Accounted begun notes := by
  obtain ⟨hfetcher, hinFlight, hsuppress⟩ := beginStep_queries hbegin he
  have hknows : ∀ key, Knows key begun ↔ Knows key s := fun key => by
    rw [Knows, Knows, getMapping, getMapping, beginStep_mappings hbegin]
  refine ⟨⟨?_, ?_, ?_, ?_⟩, fun stream hstream seq hlow hhigh => ?_⟩
  · rw [hinFlight, hfetcher]
    exact h.tracked.inFlight
  · rw [hfetcher]
    exact h.tracked.wellFormed
  · rw [hsuppress]
    exact h.tracked.suppressed
  · rw [beginStep_delivered hbegin]
    exact fun key hkey => (hknows key).mpr (h.tracked.delivered key hkey)
  · rw [Served, hknows, hfetcher]
    exact h.served stream hstream seq hlow hhigh

/-- A handler that keeps track of the queries keeps what was served before it. -/
theorem Accounted.served_exec (h : Accounted begun notes) {processed : List PublicationKey}
    (hexec : handler.exec (noted cfg env) (begun, notes.processed) = some ((), s', processed)) :
    ∀ stream ∈ notes.reported, ∀ seq, stream.low ≤ seq → seq ≤ stream.high →
      Served s' processed ⟨stream.nodeId, stream.bootstrapTime, seq⟩ :=
  fun stream hstream seq hlow hhigh =>
    Subscriber.served_exec (p := (begun, notes.processed)) (h.served stream hstream seq hlow hhigh)
      hexec

/-- A report is served at the end of its step. -/
theorem accounted_update {info : List MissingDataInfo} (h : Accounted begun notes)
    (hs : begun.prefixSubscriptions ≠ [] ∨ begun.regexSubscriptions ≠ [])
    (hfits : SubscriberEvent.Fits (.update info)) {processed : List PublicationKey}
    (hexec : (updateCallbackInternal cfg begun info).exec (noted cfg env) (begun, notes.processed) =
      some ((), s', processed)) :
    Accounted s' { reported := notes.reported ++ info, processed } := by
  obtain ⟨htracked, hserved⟩ := ends_updateCallbackInternal hs
    (fun stream hstream => (hfits stream hstream).2) h.tracked () (s', processed) hexec
  refine ⟨htracked, fun stream hstream => ?_⟩
  rcases List.mem_append.mp hstream with hstream | hstream
  · exact h.served_exec hexec stream hstream
  · exact hserved stream hstream

/-- A handler of another event leaves the queries alone. -/
theorem accounted_quiet {e : SubscriberEvent × SubscribeInputs} (he : ¬e.1.Queries)
    (hbegin : beginStep cfg s e = some (begun, handler)) (h : Accounted s notes)
    {processed : List PublicationKey}
    (hexec : handler.exec (noted cfg e.2) (begun, notes.processed) = some ((), s', processed)) :
    Accounted s' { notes with processed } := by
  have hbegun := accounted_begun hbegin (fun event heq => he (heq ▸ trivial)) h
  have hmakes : Program.Makes (fun call : Call => ¬call.Queries) handler :=
    makes_beginStep (fun _ _ hcall _ => hcall) (fun _ _ => id) cfg
      (fun hqueries => absurd hqueries he) (fun _ _ hsettles => hsettles.not_queries)
      (fun info hinfo => absurd (hinfo ▸ trivial) he) hbegin
  exact ⟨ends_of_makes hmakes hbegun.tracked () (s', processed) hexec, hbegun.served_exec hexec⟩

/-- A query that has ended leaves its publications served, when it was answered. -/
theorem accounted_outcome {event : FetcherEvent} {fetcher : Fetcher MappingRequest}
    {outcome : Option (FetchOutcome MappingRequest)} (h : Accounted s notes)
    (hstep : s.mappingFetcher.step cfg.fetcher event = some (fetcher, outcome))
    (hanswered : ∀ o ∈ outcome, Answered o) (hmappings : begun.mappings = s.mappings)
    (hfetcher : begun.mappingFetcher = fetcher)
    (hinFlight : begun.mappingFetchInFlight = s.mappingFetchInFlight)
    (hsuppress : begun.mappingFetchSuppressUntil = s.mappingFetchSuppressUntil)
    (hdelivered : begun.piggyDeliveredPublications = s.piggyDeliveredPublications)
    (hdated : (onMappingOutcome cfg outcome).Along (noted cfg env)
      (fun p call => Dated cfg env p.1 call) (begun, notes.processed))
    {processed : List PublicationKey}
    (hexec : (onMappingOutcome cfg outcome).exec (noted cfg env) (begun, notes.processed) =
      some ((), s', processed)) :
    Accounted s' { notes with processed } := by
  have hperm := Fetcher.step_outstanding hstep
  have hknows : ∀ key, Knows key begun ↔ Knows key s := fun key => by
    rw [Knows, Knows, getMapping, getMapping, hmappings]
  have htracked : ∀ ended, (∀ request ∈ outcome.map FetchOutcome.request,
      ended = some request.key) → Tracked ended begun := by
    intro ended hended
    refine ⟨fun key hkey => ?_, fun request hrequest => ?_, fun key => ?_, fun key hkey => ?_⟩
    · rw [hinFlight] at hkey
      rcases h.tracked.inFlight key hkey with hnone | ⟨request, hrequest, rfl⟩
      · cases hnone
      · rcases List.mem_append.mp (hperm.mem_iff.mp hrequest) with hrequest | hrequest
        · exact .inl (hended request (Option.mem_toList.mp hrequest))
        · exact .inr ⟨request, hfetcher ▸ hrequest, rfl⟩
    · rw [hfetcher] at hrequest
      exact h.tracked.wellFormed request (hperm.mem_iff.mpr (List.mem_append_right _ hrequest))
    · rw [hsuppress]
      exact h.tracked.suppressed key
    · rw [hdelivered] at hkey
      exact (hknows key).mpr (h.tracked.delivered key hkey)
  have hserved : ∀ key, Served s notes.processed key →
      Served begun notes.processed key ∨ ∃ request ∈ outcome.map FetchOutcome.request,
        request.Asks key := by
    rintro key (⟨hknown, hprocessed⟩ | ⟨request, hrequest, hasks⟩)
    · exact .inl (.inl ⟨(hknows key).mpr hknown, hprocessed⟩)
    · rcases List.mem_append.mp (hperm.mem_iff.mp hrequest) with hrequest | hrequest
      · exact .inr ⟨request, Option.mem_toList.mp hrequest, hasks⟩
      · exact .inl (.inr ⟨request, hfetcher ▸ hrequest, hasks⟩)
  cases outcome with
  | none =>
    obtain ⟨-, heq⟩ := Prod.mk.inj (Option.some.inj hexec)
    obtain ⟨rfl, rfl⟩ := Prod.mk.inj heq
    refine ⟨htracked none (by simp), fun stream hstream seq hlow hhigh => ?_⟩
    rcases hserved _ (h.served stream hstream seq hlow hhigh) with hserved | ⟨request, hrequest, -⟩
    · exact hserved
    · simp at hrequest
  | some o =>
    have hreply := hanswered o rfl
    cases o with
    | satisfied request data =>
      obtain ⟨list, hlist, hnonempty⟩ := hreply
      have hwell : request.WellFormed := h.tracked.wellFormed request
        (hperm.mem_iff.mpr (List.mem_append_left _ (Option.mem_toList.mpr rfl)))
      have hbegun := htracked (some request.key) fun r hr => by
        obtain rfl : request = r := by simpa [FetchOutcome.request] using hr
        rfl
      obtain ⟨htracked', hasked⟩ := ends_onMappingData hlist hnonempty hwell hdated hbegun ()
        (s', processed) hexec
      refine ⟨htracked', fun stream hstream seq hlow hhigh => ?_⟩
      rcases hserved _ (h.served stream hstream seq hlow hhigh) with hserved | ⟨r, hr, hasks⟩
      · exact Subscriber.served_exec (p := (begun, notes.processed)) hserved hexec
      · obtain rfl : request = r := by simpa [FetchOutcome.request] using hr
        exact hasked _ hasks
    | nacked request => exact hreply.elim
    | timedOut request => exact hreply.elim
    | validationFailed request => exact hreply.elim

theorem accounted_step {e : SubscriberEvent × SubscribeInputs} (hfits : e.1.Fits)
    (hsubscribed : HasSubscription s e) (hanswered : QueriesAnswered cfg s e)
    (h : Accounted s notes)
    (hstep : step cfg s e = some s') : Accounted s' (notes.add cfg s e s') := by
  obtain ⟨-, begun, handler, hbegin, hexec⟩ := step_eq_some hstep
  have hnoted : handler.exec (noted cfg e.2) (begun, notes.processed) = some ((), s',
      notes.processed ++ handler.notes (act cfg e.2) (processedBy cfg e.2) begun) := by
    have hnoting : handler.exec (noted cfg e.2) (begun, notes.processed) =
        (handler.exec (act cfg e.2) begun).map fun r => (r.1, r.2, notes.processed ++
          handler.notes (act cfg e.2) (processedBy cfg e.2) begun) :=
      Program.exec_noting handler begun notes.processed
    rw [hexec] at hnoting
    exact hnoting
  rw [Notes.add, hbegin]
  dsimp only
  by_cases hqueries : e.1.Queries
  · obtain ⟨e, env⟩ := e
    cases e with
    | update info =>
      have hbegun := accounted_begun hbegin (fun _ => nofun) h
      obtain ⟨rfl, rfl⟩ := Prod.mk.inj (Option.some.inj hbegin)
      exact accounted_update hbegun hsubscribed hfits hnoted
    | mappingFetcher event =>
      obtain ⟨hanswered, hdated⟩ := hanswered
      have hdated := callsAlong_begun hdated hbegin
      obtain ⟨⟨fetcher, outcome⟩, hfetcher, hbegin⟩ := Option.map_eq_some_iff.mp hbegin
      obtain ⟨hbegun, rfl⟩ := Prod.mk.inj hbegin
      have hends : ∀ o ∈ outcome, Answered o := by
        intro o ho
        refine hanswered o ?_
        rw [hfetcher]
        exact ho
      have hreported : notes.reported ++ reportedBy (.mappingFetcher event) = notes.reported :=
        List.append_nil _
      rw [hreported]
      exact accounted_outcome h hfetcher hends (hbegun ▸ rfl) (hbegun ▸ rfl) (hbegun ▸ rfl)
        (hbegun ▸ rfl) (hbegun ▸ rfl) (hdated.noting notes.processed) hnoted
    | _ => exact hqueries.elim
  · have hreported : reportedBy e.1 = [] := by
      obtain ⟨e, env⟩ := e
      cases e with
      | update info => exact absurd trivial hqueries
      | _ => rfl
    rw [hreported, List.append_nil]
    exact accounted_quiet hqueries hbegin h hnoted

end Steps

/-- No publication that is reported is forgotten in a run whose queries for mappings are all
answered. -/
theorem reported_served {es : List (SubscriberEvent × SubscribeInputs)}
    (hfits : ∀ e ∈ es, e.1.Fits)
    (hsubscribed : Along (step cfg) HasSubscription (initial cfg) es)
    (hanswered : Along (step cfg) (QueriesAnswered cfg) (initial cfg) es) {s : Subscriber}
    {notes : Notes}
    (hrun : run (noting (step cfg) (Notes.add cfg)) (initial cfg, {}) es = some (s, notes)) :
    ∀ stream ∈ notes.reported, ∀ seq, stream.low ≤ seq → seq ≤ stream.high →
      Served s notes.processed ⟨stream.nodeId, stream.bootstrapTime, seq⟩ := by
  have hinitial : Accounted (initial cfg) {} := by
    refine ⟨⟨fun key hkey => absurd hkey ExtTreeMap.not_mem_empty, fun request hrequest => ?_,
      fun key => ExtTreeMap.getElem?_empty,
      fun key hkey => absurd hkey ExtTreeMap.not_mem_empty⟩, fun stream hstream => nomatch hstream⟩
    rw [initial, Fetcher.outstanding_setWindowSize] at hrequest
    cases hrequest
  have hok := (@along_of_forall _ _ (step cfg) _ es (fun e he _ => hfits e he) (initial cfg)).and
    (hsubscribed.and hanswered)
  refine (run_invariant_along (P := fun p : Subscriber × Notes => Accounted p.1 p.2)
    (fun p e p' hstep hmet hp => ?_) hinitial (hok.noting {}) hrun).served
  obtain ⟨hstep, hnotes⟩ := noting_eq_some.mp hstep
  rw [hnotes]
  exact accounted_step hmet.1 hmet.2.1 hmet.2.2 hp hstep

/-- A subscription, and two publications that the core reports. -/
def reportedPair : List (SubscriberEvent × SubscribeInputs) :=
  [subscribeTo (.ofStrings ["x"]),
    (.update [{ nodeId := .ofStrings ["a"], bootstrapTime := 100, low := 1, high := 2 }], {})]

/-- The mapping of the first publication alone, in reply to a query for both. -/
def partialReply : SubscriberEvent × SubscribeInputs :=
  (.mappingFetcher (.data 0 { name := [], content := ({ nodeId := .ofStrings ["a"], pairs :=
    [{ bootstrapTime := 100, seqNo := 1, mapping := { name := .ofStrings ["x"] } }] } :
      MappingList).encode.wire }), {})

def nackedQuery : SubscriberEvent × SubscribeInputs := (.mappingFetcher (.nack 0), {})

theorem reported_served_partial :
    let p := (run (noting (step sampleSubscriber) (Notes.add sampleSubscriber))
      (initial sampleSubscriber, {}) (reportedPair ++ [partialReply])).get (by decide +kernel)
    p.2.processed = [sampleKey] ∧ Served p.1 p.2.processed ⟨.ofStrings ["a"], 100, 2⟩ := by
  intro p
  have hrun : run (noting (step sampleSubscriber) (Notes.add sampleSubscriber))
      (initial sampleSubscriber, {}) (reportedPair ++ [partialReply]) = some p :=
    (Option.some_get _).symm
  have hprocessed : p.2.processed = [sampleKey] := by decide +kernel
  have hreported : { nodeId := .ofStrings ["a"], bootstrapTime := 100, low := 1, high := 2 } ∈
      p.2.reported := by decide +kernel
  clear_value p
  have hfits : ∀ e ∈ reportedPair ++ [partialReply], e.1.Fits := by
    intro e he
    simp only [reportedPair, partialReply, subscribeTo, List.mem_append, List.mem_cons,
      List.not_mem_nil, or_false] at he
    rcases he with (rfl | rfl) | rfl
    · trivial
    · intro stream hstream
      obtain rfl := List.mem_singleton.mp hstream
      exact ⟨by decide, by decide⟩
    · trivial
  exact ⟨hprocessed, reported_served hfits (by decide +kernel) (by decide +kernel) hrun _ hreported
    2 (by decide) (by decide)⟩

/-- After a Nack nothing is known of the publications that the core has reported, and nothing asks
for them. -/
theorem forgotten_after_nack :
    let p := (run (noting (step sampleSubscriber) (Notes.add sampleSubscriber))
      (initial sampleSubscriber, {}) (reportedPair ++ [nackedQuery])).get
      (by decide +kernel)
    run (noting (step sampleSubscriber) (Notes.add sampleSubscriber))
        (initial sampleSubscriber, {}) (reportedPair ++ [nackedQuery]) = some p ∧
      p.1.prefixSubscriptions ≠ [] ∧
      p.2.reported = [{ nodeId := .ofStrings ["a"], bootstrapTime := 100, low := 1, high := 2 }] ∧
      ¬Served p.1 p.2.processed sampleKey :=
  ⟨(Option.some_get _).symm, by decide +kernel, by decide +kernel, by decide +kernel⟩

end Subscriber

end NdnSvs
