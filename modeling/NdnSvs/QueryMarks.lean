import NdnSvs.Coverage

/-! The marks of the ranges whose mappings are being queried.  A mark is released when its query
comes to its outcome, unless the reply cannot be read or fails its validation for good: such a mark
stays. -/

namespace NdnSvs

open Lib Lib.Tlv Std

namespace Subscriber

variable {cfg : SubscriberConfig} {env : SubscribeInputs} {s t : Subscriber}
  {lost : List MappingFetchKey} {key : MappingFetchKey}

/-! ### Marks and queries -/

/-- Every range that is marked has a query that has not come to its outcome. -/
def MarksHeld (s : Subscriber) : Prop :=
  ∀ key ∈ s.mappingFetchInFlight, ∃ request ∈ s.mappingFetcher.outstanding, request.key = key

/-- The ranges of the queries that have not come to their outcome. -/
def queried (s : Subscriber) : List MappingFetchKey :=
  s.mappingFetcher.outstanding.map MappingRequest.key

/-- The marks are those of the queries and the ones that are lost; no range is marked for two. -/
structure Marks (lost : List MappingFetchKey) (s : Subscriber) : Prop where
  distinct : (lost ++ s.queried).Nodup
  mem_iff : ∀ key, key ∈ s.mappingFetchInFlight ↔ key ∈ lost ++ s.queried

theorem Marks.of_same (h : Marks lost s) (hfetcher : t.mappingFetcher = s.mappingFetcher)
    (hinFlight : t.mappingFetchInFlight = s.mappingFetchInFlight) : Marks lost t := by
  have hqueried : t.queried = s.queried := by rw [queried, queried, hfetcher]
  constructor
  · rw [hqueried]
    exact h.distinct
  · rw [hqueried, hinFlight]
    exact h.mem_iff

/-- The marks are held when none is lost, and only then. -/
theorem Marks.held_iff (h : Marks lost s) : MarksHeld s ↔ lost = [] := by
  constructor
  · intro hheld
    refine List.eq_nil_iff_forall_not_mem.mpr fun key hkey => ?_
    have hmarked := (h.mem_iff key).mpr (List.mem_append_left _ hkey)
    exact (List.disjoint_of_nodup_append h.distinct) hkey (List.mem_map.mpr (hheld key hmarked))
  · rintro rfl key hkey
    exact List.mem_map.mp ((h.mem_iff key).mp hkey)

/-- A query that comes to its outcome leaves its mark behind. -/
theorem Marks.lose {ended : List MappingRequest} {fetcher : Fetcher MappingRequest}
    (h : Marks lost s) (hperm : s.mappingFetcher.outstanding.Perm (ended ++ fetcher.outstanding))
    (hfetcher : t.mappingFetcher = fetcher)
    (hinFlight : t.mappingFetchInFlight = s.mappingFetchInFlight) :
    Marks (ended.map MappingRequest.key ++ lost) t := by
  have hqueried : (lost ++ s.queried).Perm
      (ended.map MappingRequest.key ++ lost ++ t.queried) := by
    rw [queried, queried, hfetcher, List.append_assoc]
    refine ((hperm.map MappingRequest.key).append_left lost).trans ?_
    rw [List.map_append]
    exact List.perm_append_comm_assoc _ _ _
  constructor
  · exact hqueried.nodup_iff.mp h.distinct
  · intro key
    rw [hinFlight, h.mem_iff, hqueried.mem_iff]

/-- A mark is released. -/
theorem Marks.release (h : Marks (key :: lost) s) (hfetcher : t.mappingFetcher = s.mappingFetcher)
    (hinFlight : t.mappingFetchInFlight = s.mappingFetchInFlight.erase key) : Marks lost t := by
  have hqueried : t.queried = s.queried := by rw [queried, queried, hfetcher]
  obtain ⟨hfresh, hdistinct⟩ := List.nodup_cons.mp h.distinct
  constructor
  · rw [hqueried]
    exact hdistinct
  · intro key'
    rw [hqueried, hinFlight, ExtTreeMap.mem_erase, h.mem_iff]
    constructor
    · rintro ⟨hne, hmem⟩
      rcases List.mem_cons.mp hmem with rfl | hmem
      · exact absurd ReflCmp.compare_self hne
      · exact hmem
    · intro hmem
      refine ⟨fun heq => hfresh ?_, List.mem_cons_of_mem _ hmem⟩
      rw [LawfulEqOrd.eq_of_compare heq]
      exact hmem

/-- A range that is queried is marked. -/
theorem Marks.schedule (h : Marks lost s) (requested : MissingDataInfo) (streamName : Name) :
    Marks lost (s.scheduleMappingFetch cfg env requested streamName).2 := by
  unfold scheduleMappingFetch
  dsimp only
  generalize hkey : (⟨requested.nodeId, requested.bootstrapTime, requested.low,
    max requested.high requested.low⟩ : MappingFetchKey) = key
  split
  · exact h
  · rename_i hfree
    split
    · exact h
    · generalize hrequest : (⟨{ requested with high := max requested.high requested.low },
        streamName, key⟩ : MappingRequest) = request
      generalize hasking : ({ s with
        mappingFetchSuppressUntil := s.mappingFetchSuppressUntil.erase key
        mappingFetchInFlight := s.mappingFetchInFlight.insert key true
        mappingFetcher := s.mappingFetcher.expressInterest cfg.fetcher request
          cfg.mappingFetchRetries } : Subscriber) = t
      have hqueried : (lost ++ t.queried).Perm (key :: (lost ++ s.queried)) := by
        have hperm := (Fetcher.outstanding_expressInterest cfg.fetcher s.mappingFetcher request
          cfg.mappingFetchRetries).map MappingRequest.key
        rw [← hrequest, List.map_cons] at hperm
        rw [← hasking, queried, ← hrequest]
        exact (hperm.append_left lost).trans List.perm_middle
      refine ⟨hqueried.nodup_iff.mpr (List.nodup_cons.mpr ⟨?_, h.distinct⟩), fun key' => ?_⟩
      · rw [← h.mem_iff]
        exact hfree
      · rw [hqueried.mem_iff, List.mem_cons, ← h.mem_iff, ← hasking]
        refine ExtTreeMap.mem_insert.trans (or_congr ?_ Iff.rfl)
        rw [Std.compare_eq_iff_eq]
        exact eq_comm

/-! ### What the handlers keep -/

theorem Marks.act (h : Marks lost s) {call : Call} (hcall : ¬call.Queries) :
    Marks lost (Subscriber.act cfg env call s).2 := by
  obtain ⟨hfetcher, hinFlight, -⟩ := @queries_act cfg env s call hcall
  exact h.of_same hfetcher hinFlight

theorem Marks.keeps_perform {call : Call} (hcall : ¬call.Queries) :
    Program.Keeps (Subscriber.act cfg env) (Marks lost) (perform call) fun _ => True :=
  Program.keeps_perform fun _ h => h.act hcall

theorem Marks.keeps_schedule (requested : MissingDataInfo) (streamName : Name) :
    Program.Keeps (Subscriber.act cfg env) (Marks lost)
      (perform (.scheduleMappingFetch requested streamName)) fun _ => True :=
  Program.keeps_perform (i := Call.scheduleMappingFetch requested streamName)
    fun _ h => h.schedule requested streamName

theorem Marks.keeps_fetchAll :
    Program.Keeps (Subscriber.act cfg env) (Marks lost) (fetchAll cfg) fun _ => True := by
  have hclosed := @Program.closed_keeps _ _ _ (Subscriber.act cfg env) (Marks lost)
  exact hclosed.bind (Marks.keeps_perform id) fun _ _ =>
    closed_fetchReady hclosed (fun _ _ _ => Marks.keeps_perform id) _ _

/-- The handler of missing data marks what it queries. -/
theorem Marks.keeps_update (s : Subscriber) (info : List MissingDataInfo) :
    Program.Keeps (Subscriber.act cfg env) (Marks lost) (updateCallbackInternal cfg s info)
      fun _ => True :=
  closed_updateCallbackInternal (Program.closed_keeps _)
    (fun _ _ hcall _ _ => Marks.keeps_perform hcall) Marks.keeps_schedule cfg Marks.keeps_fetchAll
    fun _ _ => ⟨fun _ _ => Marks.keeps_perform id, fun _ _ _ _ => Marks.keeps_perform id⟩

/-- The handlers of the events that make no query, and end none, leave the marks alone. -/
theorem Marks.keeps_quiet {begun : Subscriber} {e : SubscriberEvent × SubscribeInputs}
    {handler : Handler Unit} (he : ¬e.1.Queries)
    (hbegin : beginStep cfg s e = some (begun, handler)) :
    Program.Keeps (Subscriber.act cfg e.2) (Marks lost) handler fun _ => True :=
  closed_beginStep (Program.closed_keeps _) (fun _ _ hcall _ _ => Marks.keeps_perform hcall)
    (fun _ _ => Marks.keeps_perform id) cfg Marks.keeps_fetchAll
    (fun hqueries => absurd hqueries he)
    (fun _ _ hcall => Marks.keeps_perform hcall.not_queries)
    (fun _ _ _ _ => ⟨fun _ _ => Marks.keeps_perform id, fun _ _ _ _ => Marks.keeps_perform id⟩)
    hbegin

/-- A reply that can be read releases the mark of its query. -/
theorem Marks.ends_reply {request : MappingRequest} {data : Data} {list : MappingList}
    (hreply : replyOf data = some list) (h : Marks (request.key :: lost) s) :
    (onMappingData cfg request data).Ends (Subscriber.act cfg env)
      (fun _ s' => Marks lost s') s := by
  have hclosed (lost : List MappingFetchKey) :=
    @Program.closed_keeps _ _ _ (Subscriber.act cfg env) (Marks lost)
  rw [onMappingData_of_reply hreply]
  have hinserts : Program.Keeps (Subscriber.act cfg env) (Marks (request.key :: lost))
      (Program.forEach (fun entry : MappingEntry => perform (.insertUnknownMapping
        ⟨request.query.nodeId, entry.bootstrapTime, entry.seqNo⟩ entry.mapping)) list.pairs)
      fun _ => True :=
    (hclosed _).forEach fun _ _ => Marks.keeps_perform id
  refine Program.ends_bind fun _ s₁ hexec => ?_
  obtain ⟨-, hs₁⟩ := hinserts s h _ s₁ hexec
  refine Program.ends_bind (Program.ends_perform.mpr ?_)
  have hreleased : Marks lost (s₁.markMappingFetchComplete request.key) := hs₁.release rfl rfl
  obtain ⟨block, -, hread⟩ := Option.bind_eq_some_iff.mp hreply
  have hfits := MappingList.decode_fits (MappingList.decode_of_read hread)
  have hrest := closed_onFetchedNameMappings (hclosed lost) (fun _ _ => Marks.keeps_perform id)
    Marks.keeps_schedule cfg Marks.keeps_fetchAll request.query request.streamName hfits
  exact (hrest _ hreleased).mono fun _ _ h => h.2

/-! ### Steps -/

/-- The mark that the callback of a query does not release. -/
def lostOf : FetchOutcome MappingRequest → List MappingFetchKey
  | .satisfied request data => if (replyOf data).isSome then [] else [request.key]
  | .nacked _ | .timedOut _ => []
  | .validationFailed request => [request.key]

/-- The mark that an event loses. -/
def lostBy (cfg : SubscriberConfig) (s : Subscriber) : SubscriberEvent → List MappingFetchKey
  | .mappingFetcher event =>
    ((s.mappingFetcher.step cfg.fetcher event).bind Prod.snd).toList.flatMap lostOf
  | _ => []

theorem Marks.ends_failed {request : MappingRequest} (h : Marks (request.key :: lost) s) :
    (perform (.markMappingFetchFailed request.key)).Ends (Subscriber.act cfg env)
      (fun _ s' => Marks lost s') s := by
  intro _ s' hexec
  obtain ⟨-, rfl⟩ := Prod.mk.inj (Option.some.inj hexec)
  exact h.release rfl rfl

/-- The callback of a query releases its mark, unless the outcome loses it. -/
theorem Marks.ends_outcome {outcome : FetchOutcome MappingRequest}
    (h : Marks (outcome.request.key :: lost) s) :
    (onMappingOutcome cfg (some outcome)).Ends (Subscriber.act cfg env)
      (fun _ s' => Marks (lostOf outcome ++ lost) s') s := by
  cases outcome with
  | satisfied request data =>
    rw [lostOf]
    cases hreply : replyOf data with
    | none =>
      show (onMappingData cfg request data).Ends _ _ _
      rw [onMappingData_of_unreadable hreply]
      exact Program.ends_ret.mpr h
    | some list => exact Marks.ends_reply hreply h
  | nacked request => exact Marks.ends_failed h
  | timedOut request => exact Marks.ends_failed h
  | validationFailed request => exact Program.ends_ret.mpr h

/-- Before its handler runs, an event leaves the marks alone, unless it comes from the fetcher of
mappings. -/
theorem Marks.begun {begun : Subscriber} {e : SubscriberEvent × SubscribeInputs}
    {handler : Handler Unit} (h : Marks lost s)
    (hbegin : beginStep cfg s e = some (begun, handler))
    (he : ∀ event, e.1 ≠ .mappingFetcher event) : Marks lost begun := by
  obtain ⟨hfetcher, hinFlight, -⟩ := beginStep_queries hbegin he
  exact h.of_same hfetcher hinFlight

/-- A step loses the mark of a query that it ends so, and no other. -/
theorem Marks.step {e : SubscriberEvent × SubscribeInputs} (h : Marks lost s)
    (hstep : Subscriber.step cfg s e = some t) : Marks (lostBy cfg s e.1 ++ lost) t := by
  obtain ⟨-, begun, handler, hbegin, hexec⟩ := step_eq_some hstep
  by_cases hqueries : e.1.Queries
  · obtain ⟨e, env⟩ := e
    cases e with
    | update info =>
      have hbegun := h.begun hbegin fun _ => nofun
      obtain ⟨-, rfl⟩ := Prod.mk.inj (Option.some.inj hbegin)
      exact (Marks.keeps_update _ info begun hbegun () t hexec).2
    | mappingFetcher event =>
      obtain ⟨⟨fetcher, outcome⟩, hfetcher, hbegin⟩ := Option.map_eq_some_iff.mp hbegin
      obtain ⟨hbegun, rfl⟩ := Prod.mk.inj hbegin
      have hperm := Fetcher.step_outstanding hfetcher
      have hfetched : s.mappingFetcher.step cfg.fetcher event = some (fetcher, outcome) := hfetcher
      rw [lostBy, hfetched, Option.bind_some]
      have hended : Marks ((outcome.map FetchOutcome.request).toList.map MappingRequest.key ++ lost)
          begun := h.lose hperm (hbegun ▸ rfl) (hbegun ▸ rfl)
      cases outcome with
      | none =>
        obtain ⟨-, rfl⟩ := Prod.mk.inj (Option.some.inj hexec)
        exact hended
      | some outcome =>
        rw [Option.toList_some, List.flatMap_singleton]
        exact Marks.ends_outcome hended () t hexec
    | _ => exact hqueries.elim
  · have hbegun := h.begun hbegin fun event heq => hqueries (heq ▸ trivial)
    have hlost : lostBy cfg s e.1 = [] := by
      obtain ⟨e, env⟩ := e
      cases e with
      | mappingFetcher event => exact absurd trivial hqueries
      | _ => rfl
    rw [hlost]
    exact (Marks.keeps_quiet hqueries hbegin begun hbegun () t hexec).2

/-- A reply of the fetcher of mappings can be read, and a query whose reply fails its validation has
a retry left. -/
def Releases (cfg : SubscriberConfig) (s : Subscriber) : SubscriberEvent → Prop
  | .mappingFetcher (.data index data) => cfg.fetcher.validator = false →
    index < s.mappingFetcher.pendingInterests.length → (replyOf data).isSome
  | .mappingFetcher (.verdict index accepted) => ∀ v ∈ s.mappingFetcher.validating[index]?,
    if accepted then (replyOf v.2).isSome else 0 < v.1.nRetriesOnValidationFail
  | _ => True

theorem lostOf_satisfied_eq_nil {request : MappingRequest} {data : Data} :
    lostOf (.satisfied request data) = [] ↔ (replyOf data).isSome := by
  rw [lostOf]
  split
  · rename_i hreply
    exact iff_of_true rfl hreply
  · rename_i hreply
    exact iff_of_false (by simp) hreply

theorem lostBy_eq_nil_iff (cfg : SubscriberConfig) (s : Subscriber) (e : SubscriberEvent) :
    lostBy cfg s e = [] ↔ Releases cfg s e := by
  cases e with
  | mappingFetcher event =>
    cases event with
    | data index data =>
      simp only [lostBy, Releases, Fetcher.step]
      cases hpending : s.mappingFetcher.pendingInterests[index]? with
      | none =>
        have hlength := List.getElem?_eq_none_iff.mp hpending
        exact iff_of_true rfl fun _ hlt => absurd hlt (Nat.not_lt.mpr hlength)
      | some qi =>
        obtain ⟨hlt, -⟩ := List.getElem?_eq_some_iff.mp hpending
        rw [Option.map_some, Option.bind_some, Fetcher.onData]
        cases hvalidator : cfg.fetcher.validator with
        | true => exact iff_of_true rfl nofun
        | false =>
          simp only [Bool.false_eq_true, if_false, Option.toList_some, List.flatMap_singleton,
            lostOf_satisfied_eq_nil, hlt, forall_const]
    | verdict index accepted =>
      simp only [lostBy, Releases, Fetcher.step]
      cases hvalidating : s.mappingFetcher.validating[index]? with
      | none => exact iff_of_true rfl nofun
      | some v =>
        simp only [Option.map_some, Option.bind_some, Option.mem_def, Option.some.injEq,
          forall_eq']
        cases accepted with
        | true => simp only [if_true, Option.toList_some, List.flatMap_singleton,
            lostOf_satisfied_eq_nil]
        | false =>
          simp only [Bool.false_eq_true, if_false, Fetcher.onValidationFailed]
          split
          · rename_i hretry
            exact iff_of_true rfl hretry
          · rename_i hretry
            exact iff_of_false (by simp [lostOf]) hretry
    | nack index =>
      simp only [lostBy, Releases, Fetcher.step]
      cases s.mappingFetcher.pendingInterests[index]? with
      | none => exact iff_of_true rfl trivial
      | some qi => exact iff_of_true rfl trivial
    | timeout index =>
      simp only [lostBy, Releases, Fetcher.step, Fetcher.onTimeout]
      cases s.mappingFetcher.pendingInterests[index]? with
      | none => exact iff_of_true rfl trivial
      | some qi =>
        refine iff_of_true ?_ trivial
        rw [Option.map_some, Option.bind_some]
        split
        · rfl
        · rfl
    | validationRetry index =>
      simp only [lostBy, Releases, Fetcher.step]
      cases s.mappingFetcher.validationRetries[index]? with
      | none => exact iff_of_true rfl trivial
      | some qi => exact iff_of_true rfl trivial
  | _ => exact iff_of_true rfl trivial

/-! ### Runs -/

theorem marks_initial (cfg : SubscriberConfig) : Marks [] (initial cfg) := by
  have hqueried : (initial cfg).queried = [] := by
    rw [queried, initial, Fetcher.outstanding_setWindowSize]
    rfl
  constructor
  · rw [hqueried]
    exact List.nodup_nil
  · intro key
    rw [hqueried]
    exact iff_of_false ExtTreeMap.not_mem_empty List.not_mem_nil

/-- Every mark has its query in every state of the runs whose replies can all be read, and do not
fail their validation for good, and of no others. -/
theorem marks_held_iff (cfg : SubscriberConfig) (es : List (SubscriberEvent × SubscribeInputs)) :
    Throughout (step cfg) MarksHeld (initial cfg) es ↔
      Along (step cfg) (fun s e => (step cfg s e).isSome → Releases cfg s e.1)
        (initial cfg) es := by
  have hany : Along (step cfg) (fun _ _ => True) (initial cfg) es :=
    along_of_forall (fun _ _ _ => trivial) _
  refine throughout_iff_along_of_invariant (I := Marks []) (fun s e t hstep _ hok hs => ?_)
    (fun s hs => hs.held_iff.mpr rfl) (fun s e t hstep _ hs ht _ => ?_)
    (fun s e hnone hsome => by rw [hnone] at hsome; cases hsome) (marks_initial cfg) hany
  · have hkept : lostBy cfg s e.1 = [] :=
      (lostBy_eq_nil_iff cfg s e.1).mpr (hok (by rw [hstep]; rfl))
    have hmarks := hs.step hstep
    rw [hkept] at hmarks
    exact hmarks
  · have hkept := (hs.step hstep).held_iff.mp ht
    exact (lostBy_eq_nil_iff cfg s e.1).mp (List.append_eq_nil_iff.mp hkept).1

/-- A mark that is lost stays, and its range is not queried again. -/
theorem lost_forever {es : List (SubscriberEvent × SubscribeInputs)} (h : Marks lost s)
    (hkey : key ∈ lost) (hrun : run (step cfg) s es = some t) :
    key ∈ t.mappingFetchInFlight ∧ key ∉ t.queried := by
  obtain ⟨lost', hlost', hmarks⟩ : ∃ lost', key ∈ lost' ∧ Marks lost' t := by
    refine run_invariant (P := fun s => ∃ lost', key ∈ lost' ∧ Marks lost' s)
      (fun s e s' hstep hs => ?_) ⟨lost, hkey, h⟩ hrun
    obtain ⟨lost', hlost', hmarks⟩ := hs
    exact ⟨_, List.mem_append_right _ hlost', hmarks.step hstep⟩
  exact ⟨(hmarks.mem_iff key).mpr (List.mem_append_left _ hlost'),
    List.disjoint_of_nodup_append hmarks.distinct hlost'⟩

/-- A range whose mark has been released can be queried again, when its last try is not recent. -/
theorem queries_again {requested : MissingDataInfo} (h : Marks [] s)
    (hended : (queryFor requested).key ∉ s.queried) (hrecent : ∀ suppress ∈
      s.mappingFetchSuppressUntil[(queryFor requested).key]?, suppress ≤ env.steadyNow) :
    (s.scheduleMappingFetch cfg env requested requested.nodeId).1 = true := by
  have hfree : (queryFor requested).key ∉ s.mappingFetchInFlight := by
    rw [h.mem_iff]
    exact hended
  have hexpired : ¬((s.mappingFetchSuppressUntil[(queryFor requested).key]?).any fun suppress =>
      env.steadyNow < suppress) = true := by
    rw [Option.any_eq_true]
    rintro ⟨suppress, hsuppress, hlater⟩
    exact absurd (of_decide_eq_true hlater) (Int.not_lt.mpr (hrecent suppress hsuppress))
  rw [scheduleMappingFetch_eq, if_neg hfree, if_neg hexpired]

/-- The range of the pair that has been reported. -/
def pairKey : MappingFetchKey := ⟨.ofStrings ["a"], 100, 1, 2⟩

/-- Data without content, in reply to the query for the pair. -/
def unreadableReply : SubscriberEvent × SubscribeInputs :=
  (.mappingFetcher (.data 0 { name := [], content := [] }), {})

def rejectedReply : SubscriberEvent × SubscribeInputs := (.mappingFetcher (.verdict 0 false), {})

/-- A run to a state with a mark and without a query. -/
theorem not_held_of_run {es : List (SubscriberEvent × SubscribeInputs)}
    (h : (run (step cfg) (initial cfg) es).map
      (fun s => (s.mappingFetchInFlight[key]?, s.mappingFetcher.outstanding)) =
        some (some true, [])) : ¬Throughout (step cfg) MarksHeld (initial cfg) es := by
  obtain ⟨s, hrun, hstate⟩ := Option.map_eq_some_iff.mp h
  obtain ⟨hmark, hnone⟩ := Prod.mk.inj hstate
  intro hheld
  rw [← List.take_length (l := es)] at hrun
  have hmem : key ∈ s.mappingFetchInFlight := by
    rw [ExtTreeMap.mem_iff_isSome_getElem?, hmark]
    rfl
  obtain ⟨request, hrequest, -⟩ := hheld es.length s hrun key hmem
  rw [hnone] at hrequest
  cases hrequest

/-- A mark is lost with a reply that cannot be read, and with one that fails its validation. -/
theorem marks_lost :
    ((run (step sampleSubscriber) (initial sampleSubscriber)
        (reportedPair ++ [unreadableReply])).map fun s =>
          (s.mappingFetchInFlight[pairKey]?, s.mappingFetcher.outstanding)) =
        some (some true, []) ∧
      ¬Throughout (step sampleSubscriber) MarksHeld (initial sampleSubscriber)
        (reportedPair ++ [unreadableReply]) ∧
      ((run (step checkingSubscriber) (initial checkingSubscriber)
        (reportedPair ++ [unreadableReply, rejectedReply])).map fun s =>
          (s.mappingFetchInFlight[pairKey]?, s.mappingFetcher.outstanding)) =
        some (some true, []) ∧
      ¬Throughout (step checkingSubscriber) MarksHeld (initial checkingSubscriber)
        (reportedPair ++ [unreadableReply, rejectedReply]) := by
  have hunreadable : ((run (step sampleSubscriber) (initial sampleSubscriber)
      (reportedPair ++ [unreadableReply])).map fun s =>
        (s.mappingFetchInFlight[pairKey]?, s.mappingFetcher.outstanding)) =
      some (some true, []) := by decide +kernel
  have hrejected : ((run (step checkingSubscriber) (initial checkingSubscriber)
      (reportedPair ++ [unreadableReply, rejectedReply])).map fun s =>
        (s.mappingFetchInFlight[pairKey]?, s.mappingFetcher.outstanding)) =
      some (some true, []) := by decide +kernel
  exact ⟨hunreadable, not_held_of_run hunreadable, hrejected, not_held_of_run hrejected⟩

end Subscriber

end NdnSvs
