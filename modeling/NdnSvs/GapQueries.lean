import NdnSvs.RangeQueries

/-! What is asked again behind a reply with mappings: the gaps that the reply leaves in the range of
its query. -/

namespace NdnSvs

open Lib Lib.Tlv Std

namespace Subscriber

open Program (Leads Along)

variable {cfg : SubscriberConfig} {env : SubscribeInputs} {s : Subscriber}

/-! ### Ranges and replies -/

/-- The range and the stream that a call passes to `scheduleMappingFetch`. -/
def askedRange (_ : Subscriber) : Call → List (MissingDataInfo × Name)
  | .scheduleMappingFetch requested streamName => [(requested, streamName)]
  | _ => []

/-- The reply has an entry of the queried epoch for the number. -/
def Returned (requested : MissingDataInfo) (list : MappingList) (seq : SeqNo) : Prop :=
  ∃ entry ∈ list.pairs, entry.bootstrapTime = requested.bootstrapTime ∧ entry.seqNo = seq

instance (requested : MissingDataInfo) (list : MappingList) :
    DecidablePred (Returned requested list) :=
  fun _ => inferInstanceAs (Decidable (∃ entry ∈ list.pairs, _))

/-- What is asked are the gaps of the reply, each once, and each smaller than the query. -/
structure AsksGaps (requested : MissingDataInfo) (streamName : Name) (list : MappingList)
    (asked : List (MissingDataInfo × Name)) : Prop where
  nodup : asked.Nodup
  exactly : ∀ query : MissingDataInfo × Name, query ∈ asked ↔
    ∃ gap, IsGap (Returned requested list) requested.low requested.high gap ∧
      query = ({ requested with low := gap.1, high := gap.2 }, streamName)
  smaller : ∀ query ∈ asked, query.1.high - query.1.low < requested.high - requested.low

/-! ### What the handler asks for -/

/-- Processing the mappings of a reply asks for nothing, and comes to its end when no mapping throws
an exception. -/
theorem leads_processReply (streamName : Name) (entries : List MappingEntry) (queued : Bool)
    (s : Subscriber) :
    Leads (act cfg env) askedRange (fun result _ asked => asked = [] ∧ ((∃ q, result = .ok q) ↔
        (processReply streamName entries queued).Along (act cfg env) (Processes cfg env) s))
      (processReply streamName entries queued) s := by
  induction entries generalizing queued s with
  | nil => exact Program.leads_ret ⟨rfl, iff_of_true ⟨queued, rfl⟩ trivial⟩
  | cons entry entries ih =>
    generalize hkey : (⟨streamName, entry.bootstrapTime, entry.seqNo⟩ : PublicationKey) = key
    have hprocess : Leads (act cfg env) askedRange (fun reply s' asked => asked = [] ∧
        reply = (s.processMapping cfg env key).1 ∧ s' = (s.processMapping cfg env key).2)
        (process key) s :=
      Program.leads_perform (i := Call.processMapping key) ⟨rfl, rfl, rfl⟩
    have halong (f : Result Bool → Handler (Result Bool)) :
        ((process key).bind f).Along (act cfg env) (Processes cfg env) s ↔
          (∃ q, (s.processMapping cfg env key).1 = .ok q) ∧
            (f (s.processMapping cfg env key).1).Along (act cfg env) (Processes cfg env)
              (s.processMapping cfg env key).2 := and_congr_left' processes_iff
    rw [processReply, hkey, halong]
    refine hprocess.bind ?_
    rintro reply s₁ _ ⟨rfl, hreply, rfl⟩
    rw [← hreply]
    cases reply with
    | error e =>
      refine Program.leads_ret ⟨rfl, iff_of_false (by rintro ⟨q, hq⟩; cases hq) ?_⟩
      rintro ⟨⟨q, hq⟩, -⟩
      cases hq
    | ok q =>
      refine (ih (queued || q) _).mono ?_
      rintro result s₂ asked ⟨rfl, hresult⟩
      exact ⟨rfl, hresult.trans (and_iff_right ⟨q, rfl⟩).symm⟩

/-- The loop over the range of a query asks for the gaps. -/
theorem leads_requeryGaps (requested : MissingDataInfo) (streamName : Name) (returned : List SeqNo)
    (high : SeqNo) (seqs : List SeqNo) (missingLow : Option SeqNo) (s : Subscriber) :
    Leads (act cfg env) askedRange (fun _ _ asked => asked =
        (gapsFrom (· ∈ returned) high missingLow seqs).map fun gap =>
          ({ requested with low := gap.1, high := gap.2 }, streamName))
      (requeryGaps requested streamName returned high seqs missingLow) s := by
  have hasks (low high : SeqNo) (s : Subscriber) : Leads (act cfg env) askedRange
      (fun _ _ asked => asked = [({ requested with low, high }, streamName)])
      (perform (.scheduleMappingFetch { requested with low, high } streamName)) s :=
    Program.leads_perform (i := Call.scheduleMappingFetch _ _) rfl
  induction seqs generalizing missingLow s with
  | nil =>
    cases missingLow with
    | none => exact Program.leads_ret rfl
    | some low =>
      refine (hasks low high s).bind ?_
      rintro _ s₁ _ rfl
      exact Program.leads_ret rfl
  | cons seq seqs ih =>
    unfold requeryGaps
    rw [gapsFrom]
    by_cases hreturned : seq ∈ returned
    · rw [if_neg (not_not.mpr hreturned), if_pos hreturned]
      cases missingLow with
      | none => exact ih none s
      | some low =>
        refine (hasks low (seq - 1) s).bind ?_
        rintro _ s₁ _ rfl
        refine (ih none s₁).mono ?_
        rintro _ s₂ asked rfl
        rfl
    · rw [if_pos hreturned, if_neg hreturned]
      exact ih _ s

/-- Processing the mappings of a reply and fetching asks for nothing. -/
theorem leads_fetchAllIf (queued : Bool) (s : Subscriber) :
    Leads (act cfg env) askedRange (fun _ _ asked => asked = []) (fetchAllIf cfg queued) s := by
  have hquiet : ∀ (s : Subscriber) (call : Call), ¬call.Queries → askedRange s call = [] := by
    intro s call hcall
    cases call with
    | scheduleMappingFetch requested streamName => exact absurd trivial hcall
    | _ => rfl
  have hmakes : Program.Makes (fun call : Call => ¬call.Queries) (fetchAllIf cfg queued) :=
    makes_fetchAllIf (fun _ _ hcall _ => hcall) cfg queued
  refine (Program.leads_of_makes (P := fun _ => True) (fun _ _ _ _ => trivial) hquiet hmakes
    (halts_fetchAllIf cfg queued) trivial).mono ?_
  rintro _ s' asked ⟨-, rfl⟩
  rfl

/-- Queries for the gaps that a reply leaves. -/
def gapQueries (requested : MissingDataInfo) (streamName : Name) (list : MappingList) :
    List (MissingDataInfo × Name) :=
  (gaps (Returned requested list) requested.low requested.high).map fun gap =>
    ({ requested with low := gap.1, high := gap.2 }, streamName)

section Replies

variable {requested : MissingDataInfo} {streamName : Name} {list : MappingList}
  (hrange : requested.low ≤ requested.high) (hhigh : requested.high < 2 ^ 64 - 1)
  (hnonempty : list.pairs ≠ [])

include hrange hhigh in
theorem leads_requery (returned : List SeqNo) (hreturned : ∀ seq, requested.low ≤ seq →
    seq ≤ requested.high → (seq ∈ returned ↔ Returned requested list seq)) (s : Subscriber) :
    Leads (act cfg env) askedRange (fun _ _ asked => asked = gapQueries requested streamName list)
      (requery requested streamName returned (max requested.high requested.low)) s := by
  unfold requery
  rw [Nat.max_eq_left hrange, if_neg (by lia)]
  refine (leads_requeryGaps requested streamName returned requested.high _ none s).mono ?_
  rintro _ s' asked rfl
  exact congrArg (List.map _) (gaps_congr hreturned)

include hrange hhigh hnonempty

/-- When every mapping of the reply can be processed, the handler asks for the gaps. -/
theorem leads_gaps_of_processes
    (hall : (processReply streamName list.pairs false).Along (act cfg env) (Processes cfg env) s) :
    Leads (act cfg env) askedRange (fun _ _ asked => asked = gapQueries requested streamName list)
      (onFetchedNameMappings cfg requested streamName list) s := by
  unfold onFetchedNameMappings
  rw [if_neg hnonempty]
  refine (leads_processReply streamName list.pairs false s).bind ?_
  rintro result s₁ _ ⟨rfl, hresult⟩
  obtain ⟨queued, rfl⟩ := hresult.mpr hall
  refine (leads_fetchAllIf queued s₁).bind ?_
  rintro _ s₂ _ rfl
  refine leads_requery hrange hhigh _ (fun seq hlow hle => ?_) s₂
  simp only [Returned, List.mem_map, List.mem_filter, decide_eq_true_eq, Nat.max_eq_left hrange]
  constructor
  · rintro ⟨entry, ⟨hentry, hepoch, -, -⟩, rfl⟩
    exact ⟨entry, hentry, hepoch, rfl⟩
  · rintro ⟨entry, hentry, hepoch, rfl⟩
    exact ⟨entry, ⟨hentry, hepoch, hlow, hle⟩, rfl⟩

omit hrange hhigh in
/-- When processing a mapping throws an exception, the handler asks for nothing. -/
theorem leads_nothing_of_throws (hthrows : ¬(processReply streamName list.pairs false).Along
      (act cfg env) (Processes cfg env) s) :
    Leads (act cfg env) askedRange (fun _ _ asked => asked = [])
      (onFetchedNameMappings cfg requested streamName list) s := by
  unfold onFetchedNameMappings
  rw [if_neg hnonempty]
  refine (leads_processReply streamName list.pairs false s).bind ?_
  rintro result s₁ _ ⟨rfl, hresult⟩
  cases result with
  | error e => exact Program.leads_ret rfl
  | ok queued => exact absurd (hresult.mp ⟨queued, rfl⟩) hthrows

end Replies

/-! ### When the gaps are asked for -/

theorem gapQuery_inj {requested : MissingDataInfo} {streamName : Name} {gap gap' : Nat × Nat}
    (h : (({ requested with low := gap.1, high := gap.2 }, streamName) : MissingDataInfo × Name) =
      ({ requested with low := gap'.1, high := gap'.2 }, streamName)) : gap = gap' := by
  injection h with hquery
  injection hquery with _ hlow hhigh
  exact Prod.ext hlow hhigh

theorem mem_gapQueries {requested : MissingDataInfo} {streamName : Name} {list : MappingList}
    (hrange : requested.low ≤ requested.high) (query : MissingDataInfo × Name) :
    query ∈ gapQueries requested streamName list ↔
      ∃ gap, IsGap (Returned requested list) requested.low requested.high gap ∧
        query = ({ requested with low := gap.1, high := gap.2 }, streamName) := by
  simp only [gapQueries, List.mem_map, mem_gaps hrange, eq_comm]

/-- The queries for the gaps are each smaller than the query of the reply, unless the reply has
nothing of what was queried. -/
theorem asksGaps_gapQueries_iff {requested : MissingDataInfo} {streamName : Name}
    {list : MappingList} (hrange : requested.low ≤ requested.high) :
    AsksGaps requested streamName list (gapQueries requested streamName list) ↔
      ∃ seq, requested.low ≤ seq ∧ seq ≤ requested.high ∧ Returned requested list seq := by
  constructor
  · intro h
    by_contra hnone
    have hwhole : IsGap (Returned requested list) requested.low requested.high
        (requested.low, requested.high) :=
      isGap_whole hrange fun n hlow hhigh hn => hnone ⟨n, hlow, hhigh, hn⟩
    exact Nat.lt_irrefl _ (h.smaller _ ((mem_gapQueries hrange _).mpr ⟨_, hwhole, rfl⟩))
  · rintro ⟨seq, hlow, hhigh, hseq⟩
    refine ⟨(nodup_gaps hrange).map fun _ _ => gapQuery_inj, mem_gapQueries hrange, ?_⟩
    intro query hquery
    obtain ⟨gap, hgap, rfl⟩ := (mem_gapQueries hrange query).mp hquery
    exact hgap.smaller hseq hlow hhigh

/-- Nothing is to be asked for when the reply has every number of the range. -/
theorem asksGaps_nil_iff {requested : MissingDataInfo} {streamName : Name} {list : MappingList}
    (hrange : requested.low ≤ requested.high) : AsksGaps requested streamName list [] ↔
      ∀ seq, requested.low ≤ seq → seq ≤ requested.high → Returned requested list seq := by
  rw [← no_gap_iff hrange]
  constructor
  · intro h gap hgap
    exact List.not_mem_nil ((h.exactly _).mpr ⟨gap, hgap, rfl⟩)
  · intro hnone
    refine ⟨List.nodup_nil, fun query => iff_of_false List.not_mem_nil ?_, ?_⟩
    · rintro ⟨gap, hgap, -⟩
      exact hnone gap hgap
    · exact fun query hquery => absurd hquery List.not_mem_nil

/-- Behind a reply with mappings the gaps are asked for, each once and each smaller than the query,
exactly when the reply has something of what was queried, and no exception leaves the loop over its
mappings before, unless there is no gap. -/
theorem asks_gaps_iff (cfg : SubscriberConfig) (env : SubscribeInputs) (s : Subscriber)
    {requested : MissingDataInfo} (hrange : requested.low ≤ requested.high)
    (hhigh : requested.high < 2 ^ 64 - 1) (streamName : Name) {list : MappingList}
    (hnonempty : list.pairs ≠ []) :
    Leads (act cfg env) askedRange (fun _ _ asked => AsksGaps requested streamName list asked)
        (onFetchedNameMappings cfg requested streamName list) s ↔
      (∃ seq, requested.low ≤ seq ∧ seq ≤ requested.high ∧ Returned requested list seq) ∧
        ((processReply streamName list.pairs false).Along (act cfg env) (Processes cfg env) s ∨
          ∀ seq, requested.low ≤ seq → seq ≤ requested.high → Returned requested list seq) := by
  by_cases hall : (processReply streamName list.pairs false).Along (act cfg env)
    (Processes cfg env) s
  · have hasked := @leads_gaps_of_processes cfg env s requested streamName list hrange hhigh
      hnonempty hall
    rw [Program.leads_notes_iff hasked, asksGaps_gapQueries_iff hrange]
    exact (and_iff_left (.inl hall)).symm
  · have hasked := @leads_nothing_of_throws cfg env s requested streamName list hnonempty hall
    rw [Program.leads_notes_iff hasked, asksGaps_nil_iff hrange, or_iff_right hall]
    exact (and_iff_right_of_imp fun h => ⟨_, le_rfl, hrange, h _ le_rfl hrange⟩).symm

/-- `query'` is asked for behind a reply to `query` from which only gaps are asked for. -/
def FollowsUp (cfg : SubscriberConfig) (query' query : MissingDataInfo) : Prop :=
  ∃ env s streamName list,
    Leads (act cfg env) askedRange (fun _ _ asked => AsksGaps query streamName list asked)
      (onFetchedNameMappings cfg query streamName list) s ∧
    (query', streamName) ∈
      (onFetchedNameMappings cfg query streamName list).notes (act cfg env) askedRange s

/-- Replies from which only gaps are asked for cannot make queries go on forever. -/
theorem wellFounded_followsUp (cfg : SubscriberConfig) : WellFounded (FollowsUp cfg) := by
  have hsmaller : ∀ {query' query : MissingDataInfo}, FollowsUp cfg query' query →
      query'.high - query'.low < query.high - query.low := by
    rintro query' query ⟨env, s, streamName, list, ⟨_, _, _, hasks⟩, hquery'⟩
    exact hasks.smaller _ hquery'
  exact Subrelation.wf hsmaller
    (measure fun query : MissingDataInfo => query.high - query.low).wf

/-- A query for three publications. -/
def threeQuery : MissingDataInfo :=
  { nodeId := .ofStrings ["a"], low := 1, high := 3, bootstrapTime := 100 }

/-- A reply with one mapping. -/
def replyWith (bootstrapTime seqNo : Nat) : MappingList :=
  { nodeId := .ofStrings ["a"]
    pairs := [{ bootstrapTime, seqNo, mapping := { name := .ofStrings ["y"] } }] }

/-- A subscriber that knows one mapping. -/
def knowing (bootstrapTime seqNo : Nat) : Subscriber :=
  (initial sampleSubscriber).insertMapping ⟨.ofStrings ["a"], bootstrapTime, seqNo⟩
    { name := .ofStrings ["y"] }

theorem asks_gaps_middle :
    Leads (act sampleSubscriber {}) askedRange
      (fun _ _ asked => AsksGaps threeQuery (.ofStrings ["a"]) (replyWith 100 2) asked)
      (onFetchedNameMappings sampleSubscriber threeQuery (.ofStrings ["a"]) (replyWith 100 2))
      (knowing 100 2) := by
  refine (asks_gaps_iff sampleSubscriber {} (knowing 100 2) (by decide) (by decide)
    (.ofStrings ["a"]) (by decide)).mpr ⟨⟨2, by decide, by decide, by decide⟩, .inl ⟨?_, trivial⟩⟩
  exact .inr ⟨{ name := .ofStrings ["y"] }, by decide +kernel, .inl (by decide)⟩

/-- A mapping of another epoch, in reply to the query of the pair that has been reported. -/
def otherEpoch : SubscriberEvent × SubscribeInputs :=
  (.mappingFetcher (.data 0 { name := [], content := (replyWith 200 1).encode.wire }), {})

/-- The subscriber after the first such reply. -/
def askingAgain : Subscriber :=
  (run (step sampleSubscriber) (initial sampleSubscriber) (reportedPair ++ [otherEpoch])).get
    (by decide +kernel)

theorem step_askingAgain : step sampleSubscriber askingAgain otherEpoch = some askingAgain := by
  have hstep : (step sampleSubscriber askingAgain otherEpoch).get (by decide +kernel) =
      askingAgain := by with_unfolding_all rfl
  exact Option.eq_some_iff_get_eq.mpr ⟨_, hstep⟩

/-- Behind a reply with a mapping of another epoch the same range is asked for, and as often as such
replies come. -/
theorem same_range_asked_again :
    (onFetchedNameMappings sampleSubscriber threeQuery (.ofStrings ["a"]) (replyWith 200 1)).notes
        (act sampleSubscriber {}) askedRange (knowing 200 1) = [(threeQuery, .ofStrings ["a"])] ∧
      ¬Leads (act sampleSubscriber {}) askedRange
        (fun _ _ asked => AsksGaps threeQuery (.ofStrings ["a"]) (replyWith 200 1) asked)
        (onFetchedNameMappings sampleSubscriber threeQuery (.ofStrings ["a"]) (replyWith 200 1))
        (knowing 200 1) ∧
      ∀ n, (run (step sampleSubscriber) (initial sampleSubscriber)
          (reportedPair ++ [otherEpoch] ++ List.replicate n otherEpoch)).map
            (fun s => s.mappingFetcher.outstanding.map MappingRequest.query) =
        some [{ nodeId := .ofStrings ["a"], bootstrapTime := 100, low := 1, high := 2 }] := by
  have hasked : (onFetchedNameMappings sampleSubscriber threeQuery (.ofStrings ["a"])
      (replyWith 200 1)).notes (act sampleSubscriber {}) askedRange (knowing 200 1) =
        [(threeQuery, .ofStrings ["a"])] := by decide +kernel
  refine ⟨hasked, ?_, fun n => ?_⟩
  · rintro ⟨_, _, _, hasks⟩
    rw [hasked] at hasks
    exact Nat.lt_irrefl _ (hasks.smaller _ (List.mem_singleton.mpr rfl))
  · have hfirst : run (step sampleSubscriber) (initial sampleSubscriber)
        (reportedPair ++ [otherEpoch]) = some askingAgain := (Option.some_get _).symm
    have hqueries : askingAgain.mappingFetcher.outstanding.map MappingRequest.query =
        [{ nodeId := .ofStrings ["a"], bootstrapTime := 100, low := 1, high := 2 }] := by
      decide +kernel
    rw [run_append, hfirst, Option.bind_some, run_replicate step_askingAgain]
    exact congrArg some hqueries

end Subscriber

end NdnSvs
