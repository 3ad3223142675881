import NdnSvs.Collections
import NdnSvs.Coverage
import NdnSvs.Lib.Ranges

/-! What an update asks for.  Of a range that is reported, the publications that are known from its
start on are processed, and queries cover the others, each once. -/

namespace NdnSvs

open Lib Lib.Tlv Std

namespace Subscriber

open Program (Leads Halts)

/-! ### What is known -/

/-- What has been delivered from packets that came along is known. -/
def Recalls (s : Subscriber) : Prop :=
  ∀ key ∈ s.piggyDeliveredPublications.entries, Knows key s

/-- The additional blocks of the mappings can be read as name components, when the age of
publications is limited. -/
def Readable (cfg : SubscriberConfig) (s : Subscriber) : Prop :=
  0 < cfg.maxPubAge → ∀ key : PublicationKey, ∀ mapping ∈ s.getMapping key,
    ∀ block ∈ mapping.additional, (Component.ofBlock block).isSome

variable {cfg : SubscriberConfig} {env : SubscribeInputs}

/-- In every state that is reached, what has been delivered is known. -/
theorem recalls_reachable {s : Subscriber} {es : List (SubscriberEvent × SubscribeInputs)}
    (hrun : run (step cfg) (initial cfg) es = some s) : Recalls s := by
  have hinitial : Recalls (initial cfg) := fun key hkey => by cases hkey
  refine run_invariant (P := Recalls) (fun s e s' hstep hs => ?_) hinitial hrun
  obtain ⟨-, begun, handler, hbegin, hexec⟩ := step_eq_some hstep
  have hbegun : Recalls begun := by
    intro key hkey
    rw [Knows, getMapping, beginStep_mappings hbegin]
    rw [beginStep_delivered hbegin] at hkey
    exact hs key hkey
  have hkeep : ∀ (s : Subscriber) (call : Call), Recalls s → Recalls (act cfg e.2 call s).2 :=
    fun s call h => delivered_act call h
  exact Program.exec_keeps hkeep hbegun hexec

/-- The mappings are those of `s₀`, and what has been delivered is known. -/
structure Keeps (s₀ s : Subscriber) : Prop where
  mapping : ∀ key, s.getMapping key = s₀.getMapping key
  recalls : Recalls s

theorem Keeps.knows {s₀ s : Subscriber} (h : Keeps s₀ s) (key : PublicationKey) :
    Knows key s ↔ Knows key s₀ := by
  rw [Knows, Knows, h.mapping]

theorem Keeps.readable {s₀ s : Subscriber} (h : Keeps s₀ s) (hs₀ : Readable cfg s₀) :
    Readable cfg s := fun hage key => h.mapping key ▸ hs₀ hage key

/-- The calls that insert no mapping. -/
def Call.Inserts : Call → Prop
  | .insertMapping _ _ | .insertUnknownMapping _ _ => True
  | _ => False

theorem Keeps.act {s₀ s : Subscriber} (h : Keeps s₀ s) {call : Call} (hcall : ¬call.Inserts) :
    Keeps s₀ (Subscriber.act cfg env call s).2 := by
  refine ⟨fun key => ?_, delivered_act call h.recalls⟩
  rw [getMapping_act, ← h.mapping key]
  cases call with
  | insertMapping key entry => exact absurd trivial hcall
  | insertUnknownMapping key entry => exact absurd trivial hcall
  | _ => rfl

theorem isTooOld_readable {additional : List Block}
    (h : ∀ block ∈ additional, (Component.ofBlock block).isSome) :
    (isTooOld cfg env additional).toOption.isSome := by
  induction additional with
  | nil => rfl
  | cons block rest ih =>
    obtain ⟨component, hcomponent⟩ := Option.isSome_iff_exists.mp (h block List.mem_cons_self)
    rw [isTooOld, hcomponent, orMalformed_some, ok_bind]
    split
    · rfl
    · exact ih fun b hb => h b (List.mem_cons_of_mem _ hb)

theorem processed_iff_knows {s : Subscriber} (hs : Recalls s) (hread : Readable cfg s)
    (key : PublicationKey) :
    (∃ q, (s.processMapping cfg env key).1 = .ok q) ↔ Knows key s := by
  constructor
  · rintro ⟨q, hq⟩
    exact knows_of_processed hs hq
  · intro hknows
    refine processed_of_dated hknows fun mapping hmapping => ?_
    rcases Int.lt_or_le 0 cfg.maxPubAge with hage | hage
    · exact .inr (.inr (isTooOld_readable (hread hage key mapping hmapping)))
    · exact .inl hage

/-! ### What an update does to a range -/

/-- What an update does to a range: a publication is processed, or a range is asked for. -/
abbrev RangeNote := PublicationKey ⊕ MissingDataInfo

/-- The publication that a call processes without an exception, and the range that is passed to
`scheduleMappingFetch`. -/
def rangeNote (cfg : SubscriberConfig) (env : SubscribeInputs) (s : Subscriber) (call : Call) :
    List RangeNote :=
  match call with
  | .scheduleMappingFetch requested _ => [.inr requested]
  | _ => (processedBy cfg env s call).map .inl

theorem rangeNote_processMapping (s : Subscriber) (key : PublicationKey) :
    rangeNote cfg env s (.processMapping key) =
      match (s.processMapping cfg env key).1 with
      | .ok _ => [.inl key]
      | .error _ => [] := by
  rw [rangeNote, processedBy]
  · cases (s.processMapping cfg env key).1 with
    | ok q => rfl
    | error e => rfl
  · rintro requested streamName ⟨⟩

/-- The publication of a number of the stream. -/
def keyOf (stream : MissingDataInfo) (seq : SeqNo) : PublicationKey :=
  ⟨stream.nodeId, stream.bootstrapTime, seq⟩

/-- The numbers of the stream from `low` on that are known, up to the first that is not. -/
def knownFrom (s : Subscriber) (stream : MissingDataInfo) (low : SeqNo) : List SeqNo :=
  (List.range' low (stream.high + 1 - low)).takeWhile fun seq =>
    (s.getMapping (keyOf stream seq)).isSome

/-- The longest known prefix of the range that a stream reports. -/
def knownPrefix (s : Subscriber) (stream : MissingDataInfo) : List SeqNo :=
  knownFrom s stream stream.low

/-- Queries for the numbers of the stream from `low` on. -/
def queriesFrom (stream : MissingDataInfo) (low : SeqNo) : List MissingDataInfo :=
  (chunks 11 low stream.high).map fun r => { stream with low := r.1, high := r.2 }

/-- The queries for what comes after the known prefix. -/
def rangeQueries (s : Subscriber) (stream : MissingDataInfo) : List MissingDataInfo :=
  queriesFrom stream (stream.low + (knownPrefix s stream).length)

/-- What an update does to a stream: the known prefix is processed, then queries are made. -/
def walk (s : Subscriber) (stream : MissingDataInfo) : List RangeNote :=
  (knownPrefix s stream).map (fun seq => .inl (keyOf stream seq)) ++
    (rangeQueries s stream).map .inr

variable {s₀ s : Subscriber} {stream : MissingDataInfo}

theorem leads_process (hs : Keeps s₀ s) (hread : Readable cfg s₀) (key : PublicationKey) :
    Leads (act cfg env) (rangeNote cfg env) (fun reply s' g => Keeps s₀ s' ∧
        (Knows key s₀ → (∃ q, reply = .ok q) ∧ g = [.inl key]) ∧
        (¬Knows key s₀ → (∃ e, reply = .error e) ∧ g = [])) (process key) s := by
  have hiff := @processed_iff_knows cfg env s hs.recalls (hs.readable hread) key
  refine Program.leads_perform (i := Call.processMapping key) ?_
  refine ⟨@Keeps.act cfg env _ _ hs (.processMapping key) id, fun hknows => ?_, fun hunknown => ?_⟩
  · obtain ⟨q, hq⟩ := hiff.mpr ((hs.knows key).mpr hknows)
    refine ⟨⟨q, hq⟩, ?_⟩
    rw [rangeNote_processMapping, hq]
  · cases hreply : (s.processMapping cfg env key).1 with
    | ok q => exact absurd ((hs.knows key).mp (hiff.mp ⟨q, hreply⟩)) hunknown
    | error e =>
      refine ⟨⟨e, hreply⟩, ?_⟩
      rw [rangeNote_processMapping, hreply]

theorem knownFrom_of_lt {low : SeqNo} (h : stream.high < low) : knownFrom s stream low = [] := by
  rw [knownFrom, Nat.sub_eq_zero_of_le h]
  rfl

theorem knownFrom_of_knows {low : SeqNo} (h : low ≤ stream.high)
    (hknows : Knows (keyOf stream low) s) :
    knownFrom s stream low = low :: knownFrom s stream (low + 1) := by
  have hsplit : stream.high + 1 - low = (stream.high + 1 - (low + 1)) + 1 := by lia
  rw [knownFrom, hsplit, List.range'_succ, List.takeWhile_cons]
  exact if_pos hknows

theorem knownFrom_of_not_knows {low : SeqNo} (h : low ≤ stream.high)
    (hunknown : ¬Knows (keyOf stream low) s) : knownFrom s stream low = [] := by
  have hsplit : stream.high + 1 - low = (stream.high + 1 - (low + 1)) + 1 := by lia
  rw [knownFrom, hsplit, List.range'_succ, List.takeWhile_cons]
  exact if_neg hunknown

/-- The loop over the known numbers processes them, and stops behind the last one. -/
theorem leads_processKnown (hread : Readable cfg s₀) (hhigh : stream.high + 1 < 2 ^ 64)
    (fuel : Nat) {low : SeqNo} (hfuel : stream.high + 1 - low < fuel) (hs : Keeps s₀ s) :
    Leads (act cfg env) (rangeNote cfg env) (fun low' s' g => Keeps s₀ s' ∧
        low' = low + (knownFrom s₀ stream low).length ∧
        g = (knownFrom s₀ stream low).map fun seq => .inl (keyOf stream seq))
      (processKnown stream fuel low) s := by
  induction fuel generalizing low s with
  | zero => exact absurd hfuel (Nat.not_lt_zero _)
  | succ fuel ih =>
    rw [processKnown]
    split
    · rename_i hend
      rw [knownFrom_of_lt hend]
      exact Program.leads_ret ⟨hs, rfl, rfl⟩
    · rename_i hlow
      have hle : low ≤ stream.high := Nat.not_lt.mp hlow
      refine (leads_process hs hread (keyOf stream low)).bind ?_
      rintro reply s₁ g ⟨hs₁, hknown, hunknown⟩
      by_cases hknows : Knows (keyOf stream low) s₀
      · obtain ⟨⟨q, rfl⟩, rfl⟩ := hknown hknows
        have hnext : (low + 1) % 2 ^ 64 = low + 1 := Nat.mod_eq_of_lt (by lia)
        rw [knownFrom_of_knows hle hknows, hnext]
        have hrest := @ih s₁ (low + 1) (by lia) hs₁
        refine hrest.mono ?_
        rintro low' s₂ g' ⟨hs₂, hlow', rfl⟩
        refine ⟨hs₂, ?_, rfl⟩
        rw [hlow', List.length_cons]
        lia
      · obtain ⟨⟨e, rfl⟩, rfl⟩ := hunknown hknows
        rw [knownFrom_of_not_knows hle hknows]
        exact Program.leads_ret ⟨hs₁, rfl, rfl⟩

theorem queriesFrom_of_le {low : SeqNo} (h : low ≤ stream.high) :
    queriesFrom stream low =
      { stream with low, high := if 10 < stream.high - low then low + 10 else stream.high } ::
        queriesFrom stream (low + 11) := by
  have hhigh : min (low + (11 - 1)) stream.high =
      if 10 < stream.high - low then low + 10 else stream.high := by
    split <;> lia
  rw [queriesFrom, chunks_of_le (by decide) h, List.map_cons, hhigh]
  rfl

/-- The loop of the queries asks for the pieces of what is left. -/
theorem leads_queryRanges (hhigh : stream.high + 11 < 2 ^ 64) (fuel : Nat) {low : SeqNo}
    (hfuel : stream.high + 1 - low < fuel) (hs : Keeps s₀ s) :
    Leads (act cfg env) (rangeNote cfg env)
      (fun _ s' g => Keeps s₀ s' ∧ g = (queriesFrom stream low).map .inr)
      (queryRanges stream fuel low) s := by
  induction fuel generalizing low s with
  | zero => exact absurd hfuel (Nat.not_lt_zero _)
  | succ fuel ih =>
    rw [queryRanges]
    split
    · rename_i hend
      rw [queriesFrom, chunks_of_lt (by decide) hend]
      exact Program.leads_ret ⟨hs, rfl⟩
    · rename_i hlow
      have hnext : (low + 11) % 2 ^ 64 = low + 11 := Nat.mod_eq_of_lt (by lia)
      simp only [queriesFrom_of_le (Nat.not_lt.mp hlow), hnext]
      generalize (if 10 < stream.high - low then low + 10 else stream.high) = high
      have hasked : Leads (act cfg env) (rangeNote cfg env)
          (fun _ s' g => Keeps s₀ s' ∧ g = [.inr { stream with low, high }])
          (perform (.scheduleMappingFetch { stream with low, high } stream.nodeId)) s :=
        Program.leads_perform ⟨@Keeps.act cfg env _ _ hs (.scheduleMappingFetch _ _) id, rfl⟩
      refine hasked.bind ?_
      rintro asked s₁ g ⟨hs₁, rfl⟩
      have hrest := @ih s₁ (low + 11) (by lia) hs₁
      refine hrest.mono ?_
      rintro _ s₂ g' ⟨hs₂, rfl⟩
      exact ⟨hs₂, rfl⟩

/-- The calls that neither insert a mapping nor process one nor ask for a range. -/
def Call.Passes (call : Call) : Prop :=
  ¬call.Inserts ∧ ∀ cfg env s, rangeNote cfg env s call = []

theorem passes_fetchAll (cfg : SubscriberConfig) : Program.Makes Call.Passes (fetchAll cfg) := by
  have hready : ∀ (window : Nat) (ready : List PublicationKey) (inFlight : Nat),
      Program.Makes Call.Passes (fetchReady window ready inFlight) := by
    intro window ready
    induction ready with
    | nil => exact fun _ => trivial
    | cons key ready ih =>
      intro inFlight
      rw [fetchReady]
      split
      · trivial
      · exact (Program.makes_perform ⟨id, fun _ _ _ => rfl⟩).bind fun inFlight => ih inFlight
  exact (Program.makes_perform ⟨id, fun _ _ _ => rfl⟩).bind fun _ => hready _ _ _

theorem leads_passes {handler : Handler Unit}
    (hmakes : Program.Makes Call.Passes handler) (hhalts : Halts handler) (hs : Keeps s₀ s) :
    Leads (act cfg env) (rangeNote cfg env) (fun _ s' g => Keeps s₀ s' ∧ g = []) handler s := by
  have hkeep : ∀ (s : Subscriber) (call : Call), call.Passes → Keeps s₀ s →
      Keeps s₀ (act cfg env call s).2 := fun _ _ hcall h => h.act hcall.1
  have hnote : ∀ (s : Subscriber) (call : Call), call.Passes → rangeNote cfg env s call = [] :=
    fun s _ hcall => hcall.2 cfg env s
  exact Program.leads_of_makes hkeep hnote hmakes hhalts hs

theorem leads_updateProducer (hhigh : stream.high + 1 < 2 ^ 64) (sub : Subscription)
    (hs : Keeps s₀ s) :
    Leads (act cfg env) (rangeNote cfg env) (fun _ s' g => Keeps s₀ s' ∧ g = [])
      (updateProducer stream sub) s := by
  refine leads_passes ?_ ?_ hs
  · unfold updateProducer
    split
    · refine Program.Makes.bind (makes_forSeqNos fun seq _ => ?_) fun _ => ?_
      · exact Program.makes_perform ⟨id, fun _ _ _ => rfl⟩
      · split
        · exact Program.makes_perform ⟨id, fun _ _ _ => rfl⟩
        · trivial
    · trivial
  · unfold updateProducer
    split
    · refine (halts_forSeqNos hhigh fun _ => Program.halts_perform _).bind fun _ => ?_
      split
      · exact Program.halts_perform _
      · trivial
    · trivial

theorem leads_updateStream (hread : Readable cfg s₀)
    {begun : Subscriber} (hsubs : begun.prefixSubscriptions ≠ [] ∨ begun.regexSubscriptions ≠ [])
    (hhigh : stream.high + 11 < 2 ^ 64) (hs : Keeps s₀ s) :
    Leads (act cfg env) (rangeNote cfg env) (fun _ s' g => Keeps s₀ s' ∧ g = walk s₀ stream)
      (updateStream begun stream) s := by
  have hproducers : Leads (act cfg env) (rangeNote cfg env) (fun _ s' g => Keeps s₀ s' ∧ g = [])
      (Program.forEach (updateProducer stream) begun.producerSubscriptions) s := by
    have heach : ∀ sub ∈ begun.producerSubscriptions, ∀ s, Keeps s₀ s →
        Leads (act cfg env) (rangeNote cfg env) (fun _ s' g => Keeps s₀ s' ∧ g = [])
          (updateProducer stream sub) s :=
      fun sub _ s hs => leads_updateProducer (by lia) sub hs
    refine (Program.leads_forEach heach hs).mono fun _ s' g h => ⟨h.1, ?_⟩
    rw [h.2]
    exact List.flatMap_eq_nil_iff.mpr fun _ _ => rfl
  refine hproducers.bind ?_
  rintro _ s₁ _ ⟨hs₁, rfl⟩
  rw [if_pos hsubs]
  refine (leads_processKnown hread (by lia) counterFuel (by unfold counterFuel; lia) hs₁).bind ?_
  rintro low s₂ g ⟨hs₂, rfl, rfl⟩
  refine (leads_queryRanges hhigh counterFuel (by unfold counterFuel; lia) hs₂).mono ?_
  rintro _ s₃ g ⟨hs₃, rfl⟩
  exact ⟨hs₃, rfl⟩

theorem leads_updateCallbackInternal (hread : Readable cfg s)
    (hsubs : s.prefixSubscriptions ≠ [] ∨ s.regexSubscriptions ≠ []) {info : List MissingDataInfo}
    (hhigh : ∀ stream ∈ info, stream.high + 11 < 2 ^ 64) (hs : Recalls s) :
    Leads (act cfg env) (rangeNote cfg env)
      (fun _ s' g => Keeps s s' ∧ g = info.flatMap (walk s)) (updateCallbackInternal cfg s info)
      s := by
  have heach : ∀ stream ∈ info, ∀ s', Keeps s s' →
      Leads (act cfg env) (rangeNote cfg env) (fun _ s'' g => Keeps s s'' ∧ g = walk s stream)
        (updateStream s stream) s' :=
    fun stream hstream s' hs' => leads_updateStream hread hsubs (hhigh stream hstream) hs'
  refine (Program.leads_forEach heach ⟨fun _ => rfl, hs⟩).bind ?_
  rintro _ s₁ g ⟨hs₁, rfl⟩
  refine (leads_passes (passes_fetchAll cfg) (halts_fetchAll cfg) hs₁).mono ?_
  rintro _ s₂ g' ⟨hs₂, rfl⟩
  exact ⟨hs₂, List.append_nil _⟩

/-! ### The parts of a range -/

/-- How the known prefix and the queries divide the range of a stream. -/
structure Divides (s : Subscriber) (stream : MissingDataInfo) : Prop where
  known : ∀ seq ∈ knownPrefix s stream, Knows (keyOf stream seq) s
  longest : ∀ seq, seq = stream.low + (knownPrefix s stream).length → seq ≤ stream.high →
    ¬Knows (keyOf stream seq) s
  covers : knownPrefix s stream ++ (rangeQueries s stream).flatMap (fun r => numbers (r.low, r.high)) =
    List.range' stream.low (stream.high + 1 - stream.low)
  ofStream : ∀ r ∈ rangeQueries s stream,
    r.nodeId = stream.nodeId ∧ r.bootstrapTime = stream.bootstrapTime
  atMost : ∀ r ∈ rangeQueries s stream, r.low ≤ r.high ∧ r.high < r.low + 11
  disjoint : (rangeQueries s stream).Pairwise fun r r' => r.high < r'.low

/-- The known numbers are those from `low` on, as far as they go, and behind them is one that is not
known or the end of the range. -/
theorem knownFrom_spec (s : Subscriber) (stream : MissingDataInfo) (low : SeqNo)
    (hlow : low ≤ stream.high + 1) :
    ∃ n, knownFrom s stream low = List.range' low n ∧ low + n ≤ stream.high + 1 ∧
      (∀ seq, low ≤ seq → seq < low + n → Knows (keyOf stream seq) s) ∧
      (low + n ≤ stream.high → ¬Knows (keyOf stream (low + n)) s) := by
  induction hrest : stream.high + 1 - low generalizing low with
  | zero =>
    have hend : stream.high < low := by lia
    exact ⟨0, knownFrom_of_lt hend, hlow, fun seq _ _ => by lia, fun _ => by lia⟩
  | succ rest ih =>
    have hle : low ≤ stream.high := by lia
    by_cases hknows : Knows (keyOf stream low) s
    · obtain ⟨n, heq, hend, hall, hnext⟩ := ih (low + 1) (by lia) (by lia)
      refine ⟨n + 1, ?_, by lia, fun seq hseq hlt => ?_, fun h => ?_⟩
      · rw [knownFrom_of_knows hle hknows, heq, List.range'_succ]
      · rcases Nat.eq_or_lt_of_le hseq with rfl | hmore
        · exact hknows
        · exact hall seq hmore (by lia)
      · rw [Nat.add_comm n 1, ← Nat.add_assoc] at h ⊢
        exact hnext h
    · exact ⟨0, knownFrom_of_not_knows hle hknows, hlow, fun seq _ _ => by lia, fun _ => hknows⟩

theorem divides (s : Subscriber) {stream : MissingDataInfo} (hrange : stream.low ≤ stream.high) :
    Divides s stream := by
  obtain ⟨n, hfront, hend, hknown, hnext⟩ := knownFrom_spec s stream stream.low (by lia)
  have hlength : (knownPrefix s stream).length = n := by
    rw [knownPrefix, hfront, List.length_range']
  have hmem : ∀ r ∈ rangeQueries s stream, ∃ c ∈ chunks 11
      (stream.low + (knownPrefix s stream).length) stream.high,
      r = { stream with low := c.1, high := c.2 } := by
    intro r hr
    obtain ⟨c, hc, rfl⟩ := List.mem_map.mp hr
    exact ⟨c, hc, rfl⟩
  constructor
  · intro seq hseq
    rw [knownPrefix, hfront, List.mem_range'_1] at hseq
    exact hknown seq hseq.1 hseq.2
  · rintro seq rfl hle
    rw [hlength] at hle ⊢
    exact hnext hle
  · have hrest : (rangeQueries s stream).flatMap (fun r => numbers (r.low, r.high)) =
        List.range' (stream.low + (knownPrefix s stream).length)
          (stream.high + 1 - (stream.low + (knownPrefix s stream).length)) := by
      rw [rangeQueries, queriesFrom, List.flatMap_map]
      exact numbers_chunks (by decide) _ _
    have hsplit : stream.high + 1 - stream.low = n + (stream.high + 1 - (stream.low + n)) := by
      lia
    rw [hrest, hlength, knownPrefix, hfront, hsplit, ← List.range'_append, Nat.one_mul]
  · intro r hr
    obtain ⟨c, -, rfl⟩ := hmem r hr
    exact ⟨rfl, rfl⟩
  · intro r hr
    obtain ⟨c, hc, rfl⟩ := hmem r hr
    obtain ⟨-, hle, -, hlt⟩ := mem_chunks (by decide) hc
    exact ⟨hle, hlt⟩
  · exact List.Pairwise.map _ (fun _ _ h => h) (pairwise_chunks (by decide))

/-- In every state that is reached what has been delivered is known.  From such a state, with a
subscription to names, an update goes through its streams one after the other: it processes the
longest known prefix of each, and asks for the rest in disjoint ranges of at most eleven numbers. -/
theorem range_queries_exact (cfg : SubscriberConfig) :
    (∀ es s, run (step cfg) (initial cfg) es = some s → Recalls s) ∧
    ∀ (env : SubscribeInputs) (s : Subscriber) (info : List MissingDataInfo), Recalls s →
      Readable cfg s → (s.prefixSubscriptions ≠ [] ∨ s.regexSubscriptions ≠ []) →
      (∀ stream ∈ info, stream.low ≤ stream.high ∧ stream.high < 2 ^ 64 - 11) →
      (∃ s', (updateCallbackInternal cfg s info).exec
          (Program.noting (act cfg env) (rangeNote cfg env)) (s, []) =
          some ((), s', info.flatMap (walk s))) ∧
        ∀ stream ∈ info, Divides s stream := by
  refine ⟨fun _ _ => recalls_reachable, fun env s info hs hread hsubs hhigh => ⟨?_, ?_⟩⟩
  · have hends : ∀ stream ∈ info, stream.high + 11 < 2 ^ 64 := by
      intro stream hstream
      have hend := (hhigh stream hstream).2
      lia
    obtain ⟨u, s', hexec, -, hnotes⟩ :=
      @leads_updateCallbackInternal cfg env s hread hsubs info hends hs
    refine ⟨s', ?_⟩
    rw [Program.exec_noting, hexec, hnotes]
    rfl
  · exact fun stream hstream => divides s (hhigh stream hstream).1

/-- Thirteen publications, of which the first is known. -/
def sampleStream : MissingDataInfo :=
  { nodeId := .ofStrings ["a"], low := 1, high := 13, bootstrapTime := 100 }

theorem range_queries_exact_thirteen :
    let s := (run (step sampleSubscriber) (initial sampleSubscriber)
      [ownMapping, subscribeTo (.ofStrings ["x"])]).get (by decide +kernel)
    knownPrefix s sampleStream = [1] ∧
      (rangeQueries s sampleStream).map (fun r => (r.low, r.high)) = [(2, 12), (13, 13)] ∧
      (∃ s', (updateCallbackInternal sampleSubscriber s [sampleStream]).exec
        (Program.noting (act sampleSubscriber {}) (rangeNote sampleSubscriber {})) (s, []) =
        some ((), s', [sampleStream].flatMap (walk s))) ∧
      ∀ stream ∈ [sampleStream], Divides s stream := by
  intro s
  have hrun : run (step sampleSubscriber) (initial sampleSubscriber)
      [ownMapping, subscribeTo (.ofStrings ["x"])] = some s := (Option.some_get _).symm
  have hknown : knownPrefix s sampleStream = [1] := by decide +kernel
  have hqueries : (rangeQueries s sampleStream).map (fun r => (r.low, r.high)) =
      [(2, 12), (13, 13)] := by decide +kernel
  have hsubs : s.prefixSubscriptions ≠ [] := by decide +kernel
  clear_value s
  refine ⟨hknown, hqueries, ?_⟩
  obtain ⟨hreached, hexact⟩ := range_queries_exact sampleSubscriber
  refine hexact {} s [sampleStream] (hreached _ s hrun) (fun hage => absurd hage (by decide))
    (.inl hsubs) fun stream hstream => ?_
  obtain rfl := List.mem_singleton.mp hstream
  exact ⟨by decide, by decide⟩

end Subscriber

end NdnSvs
