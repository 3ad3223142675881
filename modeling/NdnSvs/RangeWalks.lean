import NdnSvs.Lib.Loops
import NdnSvs.MappingQueries
import NdnSvs.RangeQueries

/-! The loops over sequence numbers.  Their counters have 64 bits and are compared with the end of a
range that comes from the network, so a range that ends at the largest number has no end for them. -/

namespace NdnSvs

open Lib Lib.Tlv Std

namespace Subscriber

open Program (Halts exec foldEach)

/-! ### The loops -/

/-- `for (SeqNo i = low; i <= high; i++)` around a handler. -/
def seqLoop (high : SeqNo) (f : SeqNo → Handler Unit) : ForLoop Call Call.Reply Unit where
  modulus := 2 ^ 64
  step := 1
  high := high
  body i _ := (f i).bind fun _ => .ret ((), true)

/-- The loop of `updateCallbackInternal` for a producer subscription. -/
def producerLoop (stream : MissingDataInfo) (sub : Subscription) : ForLoop Call Call.Reply Unit :=
  seqLoop stream.high fun i => perform (.addPublicationFetch (keyOf stream i) sub)

/-- The loop of `updateCallbackInternal` over the mappings that are known; an exception leaves it. -/
def knownLoop (stream : MissingDataInfo) : ForLoop Call Call.Reply Unit where
  modulus := 2 ^ 64
  step := 1
  high := stream.high
  body i _ := (process (keyOf stream i)).bind fun reply => .ret ((), reply.isOk)

/-- The loop of `updateCallbackInternal` that asks for the mappings, eleven a round. -/
def chunkLoop (stream : MissingDataInfo) : ForLoop Call Call.Reply Unit where
  modulus := 2 ^ 64
  step := 11
  high := stream.high
  body low _ :=
    let high := if 10 < stream.high - low then low + 10 else stream.high
    (perform (.scheduleMappingFetch { stream with low, high } stream.nodeId)).bind fun _ =>
      .ret ((), true)

/-- A round of the loop of `onFetchedNameMappings`: the start of the gap that the number is in. -/
def requeryRound (requested : MissingDataInfo) (streamName : Name) (returned : List SeqNo)
    (missingLow : Option SeqNo) (seq : SeqNo) : Handler (Option SeqNo) :=
  if seq ∉ returned then .ret (missingLow.orElse fun _ => seq)
  else
    match missingLow with
    | none => .ret none
    | some low =>
      (perform (.scheduleMappingFetch { requested with low, high := seq - 1 } streamName)).bind
        fun _ => .ret none

/-- The loop of `onFetchedNameMappings`. -/
def requeryLoop (requested : MissingDataInfo) (streamName : Name) (returned : List SeqNo) :
    ForLoop Call Call.Reply (Option SeqNo) where
  modulus := 2 ^ 64
  step := 1
  high := max requested.high requested.low
  body seq missingLow :=
    (requeryRound requested streamName returned missingLow seq).bind fun low => .ret (low, true)

/-- What `onFetchedNameMappings` asks for behind its loop. -/
def requeryLast (requested : MissingDataInfo) (streamName : Name) (missingLow : Option SeqNo) :
    Handler Unit :=
  match missingLow with
  | none => .ret ()
  | some low =>
    (perform (.scheduleMappingFetch
      { requested with low, high := max requested.high requested.low } streamName)).bind fun _ =>
        .ret ()

/-- The loops of `onRecvExtraData` over a repair request, up to `high`. -/
def repairLoop (request : MissingDataInfo) (high : SeqNo) : ForLoop Call Call.Reply Unit :=
  seqLoop high fun seq => perform (.enqueueRepairPublication (keyOf request seq))

/-- The mappings that the loop of `onMappingQuery` finds for a number. -/
def queryRound (mappings : Map Name MappingEntryPair) (query : MissingDataInfo) (i : SeqNo) :
    List MappingEntry :=
  ((mappings[makeMappingKey query.nodeId query.bootstrapTime i]?).map fun mapping =>
    { bootstrapTime := query.bootstrapTime, seqNo := i, mapping }).toList

/-- The loop of `onMappingQuery`. -/
def queryLoop (mappings : Map Name MappingEntryPair) (query : MissingDataInfo) :
    ForLoop Call Call.Reply (List MappingEntry) where
  modulus := 2 ^ 64
  step := 1
  high := max query.high query.low
  body i pairs := (.ret (pairs ++ queryRound mappings query i) : Handler _).bind fun pairs =>
    .ret (pairs, true)

/-! ### The loops are those of the handlers -/

variable {cfg : SubscriberConfig} {env : SubscribeInputs} {s s' : Subscriber}

theorem onward_of_halts {α : Type} {L : ForLoop Call Call.Reply α} {g : α → Nat → Handler α}
    (hbody : ∀ i a, L.body i a = (g a i).bind fun a => .ret (a, true))
    (hhalts : ∀ a i, Halts (g a i)) : L.Onward (act cfg env) := by
  intro i a s
  obtain ⟨a', s', hexec⟩ : ∃ a' s', exec (act cfg env) (g a i) s = some (a', s') :=
    (hhalts a i).exec s
  exact ⟨a', s', by rw [hbody, Program.exec_bind, hexec]; rfl⟩

theorem onward_seqLoop {high : SeqNo} {f : SeqNo → Handler Unit} (hf : ∀ i, Halts (f i)) :
    (seqLoop high f).Onward (act cfg env) :=
  onward_of_halts (g := fun _ i => f i) (fun _ _ => rfl) fun _ i => hf i

/-- A loop with one number a round ends as the summary of it does. -/
theorem forSeqNos_eq_loop {low high : SeqNo} {f : SeqNo → Handler Unit} (hf : ∀ i, Halts (f i))
    (hlow : low ≤ high) (hhigh : high < 2 ^ 64) :
    (∃ fuel i, exec (act cfg env) ((seqLoop high f).run fuel low ()) s = some ((i, ()), s')) ↔
      exec (act cfg env) (forSeqNos low high f) s = some ((), s') := by
  rw [ForLoop.exec_run_iff (L := seqLoop high f) (g := fun _ i => f i) rfl (fun _ _ => rfl)
    (onward_seqLoop hf) hhigh hlow]
  unfold forSeqNos
  split
  · rename_i hlast
    exact iff_of_false (fun h => absurd h.1 (Nat.not_lt.mpr hlast)) (by rintro ⟨⟩)
  · rename_i hbelow
    exact and_iff_right (Nat.not_le.mp hbelow)

theorem processKnown_eq_loop (stream : MissingDataInfo) (fuel : Nat) (low : SeqNo) :
    processKnown stream fuel low =
      ((knownLoop stream).run fuel low ()).bind fun r => .ret r.1 := by
  induction fuel generalizing low with
  | zero => rfl
  | succ fuel ih =>
    rw [processKnown, ForLoop.run]
    split
    · rename_i hend
      rw [if_pos (show (knownLoop stream).high < low from hend)]
      rfl
    · rename_i hle
      rw [if_neg (show ¬(knownLoop stream).high < low from hle), Program.bind_assoc]
      change _ = Program.bind (Program.bind _ _) _
      rw [Program.bind_assoc]
      refine congrArg _ (funext fun reply => ?_)
      cases reply with
      | error e => rfl
      | ok q => exact ih _

theorem queryRanges_eq_loop (stream : MissingDataInfo) (fuel : Nat) (low : SeqNo) :
    queryRanges stream fuel low =
      ((chunkLoop stream).run fuel low ()).bind fun _ => .ret () := by
  induction fuel generalizing low with
  | zero => rfl
  | succ fuel ih =>
    rw [queryRanges, ForLoop.run]
    split
    · rename_i hend
      rw [if_pos (show (chunkLoop stream).high < low from hend)]
      rfl
    · rename_i hle
      rw [if_neg (show ¬(chunkLoop stream).high < low from hle), Program.bind_assoc]
      change _ = Program.bind (Program.bind _ _) _
      rw [Program.bind_assoc]
      exact congrArg _ (funext fun _ => ih _)

theorem requeryGaps_eq_foldEach (requested : MissingDataInfo) (streamName : Name)
    (returned seqs : List SeqNo) (missingLow : Option SeqNo) :
    requeryGaps requested streamName returned (max requested.high requested.low) seqs missingLow =
      (foldEach (requeryRound requested streamName returned) missingLow seqs).bind
        (requeryLast requested streamName) := by
  induction seqs generalizing missingLow with
  | nil => cases missingLow <;> rfl
  | cons seq seqs ih =>
    rw [foldEach, Program.bind_assoc]
    unfold requeryGaps requeryRound
    split
    · exact ih _
    · cases missingLow with
      | none => exact ih _
      | some low =>
        rw [Program.bind_assoc]
        exact congrArg _ (funext fun _ => ih _)

theorem halts_requeryRound (requested : MissingDataInfo) (streamName : Name)
    (returned : List SeqNo) (missingLow : Option SeqNo) (seq : SeqNo) :
    Halts (requeryRound requested streamName returned missingLow seq) := by
  unfold requeryRound
  split
  · trivial
  · cases missingLow with
    | none => trivial
    | some low => exact (Program.halts_perform _).bind fun _ => trivial

theorem onward_requeryLoop (requested : MissingDataInfo) (streamName : Name)
    (returned : List SeqNo) : (requeryLoop requested streamName returned).Onward (act cfg env) :=
  onward_of_halts (fun _ _ => rfl) fun low seq =>
    halts_requeryRound requested streamName returned low seq

theorem requery_eq_loop {requested : MissingDataInfo} (streamName : Name) (returned : List SeqNo)
    (hlow : requested.low < 2 ^ 64) (hhigh : requested.high < 2 ^ 64) :
    (∃ low s₁, (∃ fuel i, exec (act cfg env)
        ((requeryLoop requested streamName returned).run fuel requested.low none) s =
          some ((i, low), s₁)) ∧
      exec (act cfg env) (requeryLast requested streamName low) s₁ = some ((), s')) ↔
      exec (act cfg env) (requery requested streamName returned (max requested.high requested.low))
        s = some ((), s') := by
  have hloop : ∀ low s₁, (∃ fuel i, exec (act cfg env)
      ((requeryLoop requested streamName returned).run fuel requested.low none) s =
        some ((i, low), s₁)) ↔ _ := fun low s₁ =>
    ForLoop.exec_run_iff (L := requeryLoop requested streamName returned) rfl (fun _ _ => rfl)
      (onward_requeryLoop requested streamName returned) (max_lt hhigh hlow) (le_max_right _ _)
      none low s s₁
  simp only [hloop, requery]
  split
  · rename_i hlast
    exact iff_of_false (fun ⟨_, _, h, _⟩ => absurd h.1 (Nat.not_lt.mpr hlast)) (by rintro ⟨⟩)
  · rename_i hbelow
    rw [requeryGaps_eq_foldEach, Program.exec_bind]
    constructor
    · rintro ⟨low, s₁, ⟨-, hfold⟩, hrest⟩
      exact Option.bind_eq_some_iff.mpr ⟨_, hfold, hrest⟩
    · intro h
      obtain ⟨⟨low, s₁⟩, hfold, hrest⟩ := Option.bind_eq_some_iff.mp h
      exact ⟨low, s₁, ⟨Nat.not_le.mp hbelow, hfold⟩, hrest⟩

theorem exec_queryRounds (mappings : Map Name MappingEntryPair) (query : MissingDataInfo)
    (pairs : List MappingEntry) (seqs : List SeqNo) :
    exec (act cfg env) (foldEach (fun pairs i => .ret (pairs ++ queryRound mappings query i)) pairs
      seqs) s = some (pairs ++ seqs.flatMap (queryRound mappings query), s) := by
  induction seqs generalizing pairs with
  | nil =>
    rw [List.flatMap_nil, List.append_nil]
    rfl
  | cons seq seqs ih =>
    rw [List.flatMap_cons, ← List.append_assoc]
    exact ih _

theorem onward_queryLoop (mappings : Map Name MappingEntryPair) (query : MissingDataInfo) :
    (queryLoop mappings query).Onward (act cfg env) :=
  onward_of_halts (g := fun pairs i => .ret (pairs ++ queryRound mappings query i))
    (fun _ _ => rfl) fun _ _ => trivial

/-- The reply to a query is made of what the loop has found when it ends. -/
theorem onMappingQuery_eq_loop (provider : MappingProvider)
    (mappings : Map Name MappingEntryPair) (name : Name) (reply : Block) :
    (∃ query, provider.parseMappingQueryDataName name = .ok query ∧ ∃ pairs,
      (∃ fuel i, exec (act cfg env) ((queryLoop mappings query).run fuel query.low []) s =
        some ((i, pairs), s)) ∧ pairs ≠ [] ∧
      reply = ({ nodeId := query.nodeId, pairs } : MappingList).encodeFor
        provider.protocolVersion) ↔ provider.onMappingQuery mappings name = some reply := by
  unfold MappingProvider.onMappingQuery
  cases hquery : provider.parseMappingQueryDataName name with
  | error e => simp
  | ok query =>
    obtain ⟨hlow, hhigh, -⟩ := MappingProvider.parse_fits hquery
    have hpairs : (MappingProvider.queryResponse mappings query).pairs =
        (List.range' query.low (max query.high query.low + 1 - query.low)).flatMap
          (queryRound mappings query) := List.filterMap_eq_flatMap_toList _ _
    have hloop : ∀ pairs, (∃ fuel i, exec (act cfg env)
        ((queryLoop mappings query).run fuel query.low []) s = some ((i, pairs), s)) ↔
          max query.high query.low + 1 < 2 ^ 64 ∧
            (MappingProvider.queryResponse mappings query).pairs = pairs := by
      intro pairs
      rw [ForLoop.exec_run_iff (L := queryLoop mappings query)
        (g := fun pairs i => .ret (pairs ++ queryRound mappings query i)) rfl (fun _ _ => rfl)
        (onward_queryLoop mappings query) (max_lt hhigh hlow) (le_max_right _ _),
        exec_queryRounds, hpairs, List.nil_append, Option.some.injEq, Prod.mk.injEq]
      exact and_congr_right fun _ => and_iff_left rfl
    simp only [Except.ok.injEq, exists_eq_left', hloop]
    split
    · rename_i hlast
      exact iff_of_false (fun ⟨_, h, _⟩ => absurd h.1 (Nat.not_lt.mpr hlast)) (by rintro ⟨⟩)
    · rename_i hbelow
      have hlt := Nat.not_le.mp hbelow
      simp only [hlt, true_and, exists_eq_left']
      split
      · rename_i hnil
        exact iff_of_false (fun h => h.1 hnil) (by rintro ⟨⟩)
      · rename_i hne
        rw [Option.some.injEq]
        constructor
        · rintro ⟨-, rfl⟩
          rfl
        · rintro rfl
          exact ⟨hne, rfl⟩

/-! ### Which ranges are walked once -/

theorem exec_knownLoop_body (stream : MissingDataInfo) (i : SeqNo) (s : Subscriber) :
    exec (act cfg env) ((knownLoop stream).body i ()) s =
      some (((), (s.processMapping cfg env (keyOf stream i)).1.isOk),
        (s.processMapping cfg env (keyOf stream i)).2) := rfl

theorem total_knownLoop (stream : MissingDataInfo) : (knownLoop stream).Total (act cfg env) :=
  fun i _ s => ⟨_, _, exec_knownLoop_body stream i s⟩

theorem onward_chunkLoop (stream : MissingDataInfo) : (chunkLoop stream).Onward (act cfg env) :=
  fun _ _ _ => ⟨_, _, rfl⟩

theorem walksOnce_seqLoop_iff {low high : SeqNo} {f : SeqNo → Handler Unit}
    (hf : ∀ i, Halts (f i)) (hlow : low ≤ high) (hhigh : high < 2 ^ 64) :
    (seqLoop high f).WalksOnce (act cfg env) low () s ↔ high + 1 < 2 ^ 64 := by
  rw [ForLoop.walksOnce_iff (onward_seqLoop hf) Nat.one_pos (by decide : 1 ≤ 2 ^ 64) hhigh hlow]
  simp only [seqLoop, Nat.one_mul, Nat.div_one]
  lia

/-- A publication that is not known leaves the loop over the known mappings, at the latest when the
counter comes to it. -/
theorem leaves_of_unknown {stream : MissingDataInfo} (hs : Recalls s) (j : Nat) (i : SeqNo)
    (hunknown : ¬Knows (keyOf stream ((i + j) % 2 ^ 64)) s) (hi : i < 2 ^ 64) :
    ∃ j' ≤ j, (knownLoop stream).LeavesAt (act cfg env) j' i () s := by
  have hbody := @exec_knownLoop_body cfg env stream i s
  induction j generalizing i s with
  | zero =>
    rw [Nat.add_zero, Nat.mod_eq_of_lt hi] at hunknown
    cases hreply : (s.processMapping cfg env (keyOf stream i)).1 with
    | ok q => exact absurd (knows_of_processed hs hreply) hunknown
    | error e =>
      rw [hreply] at hbody
      exact ⟨0, le_rfl, (), _, hbody⟩
  | succ j ih =>
    cases hreply : (s.processMapping cfg env (keyOf stream i)).1 with
    | error e =>
      rw [hreply] at hbody
      exact ⟨0, Nat.zero_le _, (), _, hbody⟩
    | ok q =>
      rw [hreply] at hbody
      have hkeeps : Keeps s (s.processMapping cfg env (keyOf stream i)).2 :=
        @Keeps.act cfg env s s ⟨fun _ => rfl, hs⟩ (.processMapping _) id
      have hnumber : ((i + 1) % 2 ^ 64 + j) % 2 ^ 64 = (i + (j + 1)) % 2 ^ 64 := by
        rw [Nat.mod_add_mod, Nat.add_assoc, Nat.add_comm 1 j]
      rw [← hnumber, ← hkeeps.knows] at hunknown
      obtain ⟨j', hj', hleaves⟩ := ih hkeeps.recalls ((i + 1) % 2 ^ 64) hunknown
        (Nat.mod_lt _ (by decide)) (exec_knownLoop_body _ _ _)
      exact ⟨j' + 1, Nat.succ_le_succ hj', (), _, hbody, hleaves⟩

/-- Of an admitted range, the loops with one number a round end, and go over no number twice, exactly
when it ends below the largest number; the loop over the known mappings also when one of the numbers
leaves it before the counter has turned once, as an unknown one does; and the loop of the queries
exactly when its counter does not wrap on the way behind the range. -/
theorem range_walks_iff (cfg : SubscriberConfig) (env : SubscribeInputs) (s : Subscriber)
    {info : MissingDataInfo} (hrange : info.low ≤ info.high) (hhigh : info.high < 2 ^ 64) :
    (∀ sub, (producerLoop info sub).WalksOnce (act cfg env) info.low () s ↔
      info.high + 1 < 2 ^ 64) ∧
    ((knownLoop info).WalksOnce (act cfg env) info.low () s ↔ info.high + 1 < 2 ^ 64 ∨
      ∃ j < 2 ^ 64, (knownLoop info).LeavesAt (act cfg env) j info.low () s) ∧
    (Recalls s → (∃ seq < 2 ^ 64, ¬Knows (keyOf info seq) s) →
      (knownLoop info).WalksOnce (act cfg env) info.low () s) ∧
    (∀ low ≤ info.high, (chunkLoop info).WalksOnce (act cfg env) low () s ↔
      low + 11 * ((info.high - low) / 11 + 1) < 2 ^ 64) ∧
    (∀ streamName returned, (requeryLoop info streamName returned).WalksOnce (act cfg env) info.low
      none s ↔ info.high + 1 < 2 ^ 64) ∧
    ((repairLoop info info.high).WalksOnce (act cfg env) info.low () s ↔
      info.high + 1 < 2 ^ 64) ∧
    ((repairLoop info (max info.high info.low)).WalksOnce (act cfg env) info.low () s ↔
      info.high + 1 < 2 ^ 64) ∧
    ∀ mappings, (queryLoop mappings info).WalksOnce (act cfg env) info.low [] s ↔
      info.high + 1 < 2 ^ 64 := by
  have hlow : info.low < 2 ^ 64 := Nat.lt_of_le_of_lt hrange hhigh
  have hmax : max info.high info.low = info.high := Nat.max_eq_left hrange
  have hcalls : ∀ call : Call, Halts (perform call) := fun call => Program.halts_perform call
  have hrepair : (repairLoop info info.high).WalksOnce (act cfg env) info.low () s ↔
      info.high + 1 < 2 ^ 64 := walksOnce_seqLoop_iff (fun _ => hcalls _) hrange hhigh
  have hknown := ForLoop.walksOnce_iff_leaves (L := knownLoop info) rfl
    (@total_knownLoop cfg env info) hhigh hrange () s
  refine ⟨fun sub => walksOnce_seqLoop_iff (fun _ => hcalls _) hrange hhigh, hknown, ?_, ?_, ?_,
    hrepair, by rw [hmax]; exact hrepair, ?_⟩
  · rintro hs ⟨seq, hseq, hunknown⟩
    have hnumber : (info.low + (seq + (2 ^ 64 - info.low)) % 2 ^ 64) % 2 ^ 64 = seq := by lia
    rw [← hnumber] at hunknown
    obtain ⟨j, hj, hleaves⟩ := @leaves_of_unknown cfg env s info hs _ _ hunknown hlow
    exact hknown.mpr (.inr ⟨j, Nat.lt_of_le_of_lt hj (Nat.mod_lt _ (by decide)), hleaves⟩)
  · exact fun low hlow => ForLoop.walksOnce_iff (onward_chunkLoop info) (by decide : 0 < 11)
      (by decide : 11 ≤ 2 ^ 64) hhigh hlow () s
  · intro streamName returned
    rw [ForLoop.walksOnce_iff (onward_requeryLoop info streamName returned) Nat.one_pos
      (by decide : 1 ≤ 2 ^ 64) (max_lt hhigh hlow) (le_max_right _ _)]
    simp only [requeryLoop, hmax, Nat.one_mul, Nat.div_one]
    lia
  · intro mappings
    rw [ForLoop.walksOnce_iff (onward_queryLoop mappings info) Nat.one_pos
      (by decide : 1 ≤ 2 ^ 64) (max_lt hhigh hlow) (le_max_right _ _)]
    simp only [queryLoop, hmax, Nat.one_mul, Nat.div_one]
    lia

theorem range_walks_iff_twelve :
    let info : MissingDataInfo :=
      { nodeId := .ofStrings ["a"], low := 1, high := 12, bootstrapTime := 100 }
    let s := initial sampleSubscriber
    (∀ sub, (producerLoop info sub).WalksOnce (act sampleSubscriber {}) info.low () s ↔
      info.high + 1 < 2 ^ 64) ∧
    ((knownLoop info).WalksOnce (act sampleSubscriber {}) info.low () s ↔ info.high + 1 < 2 ^ 64 ∨
      ∃ j < 2 ^ 64, (knownLoop info).LeavesAt (act sampleSubscriber {}) j info.low () s) ∧
    (Recalls s → (∃ seq < 2 ^ 64, ¬Knows (keyOf info seq) s) →
      (knownLoop info).WalksOnce (act sampleSubscriber {}) info.low () s) ∧
    (∀ low ≤ info.high, (chunkLoop info).WalksOnce (act sampleSubscriber {}) low () s ↔
      low + 11 * ((info.high - low) / 11 + 1) < 2 ^ 64) ∧
    (∀ streamName returned, (requeryLoop info streamName returned).WalksOnce
      (act sampleSubscriber {}) info.low none s ↔ info.high + 1 < 2 ^ 64) ∧
    ((repairLoop info info.high).WalksOnce (act sampleSubscriber {}) info.low () s ↔
      info.high + 1 < 2 ^ 64) ∧
    ((repairLoop info (max info.high info.low)).WalksOnce (act sampleSubscriber {}) info.low () s ↔
      info.high + 1 < 2 ^ 64) ∧
    ∀ mappings, (queryLoop mappings info).WalksOnce (act sampleSubscriber {}) info.low [] s ↔
      info.high + 1 < 2 ^ 64 :=
  range_walks_iff sampleSubscriber {} (initial sampleSubscriber) (by decide) (by decide)

/-- A request for the publication with the largest number. -/
def lastRequest : MissingDataInfo :=
  { nodeId := .ofStrings ["a"], low := 2 ^ 64 - 1, high := 2 ^ 64 - 1, bootstrapTime := 100 }

/-- The request is read from the wire, and the loop over its one number does not end. -/
theorem last_number_walked_forever :
    decodeRepairRequests (encodeRepairRequests [lastRequest]) = .ok [lastRequest] ∧
      ¬(repairLoop lastRequest lastRequest.high).Terminates (act sampleSubscriber {})
        lastRequest.low () (initial sampleSubscriber) ∧
      ¬(repairLoop lastRequest lastRequest.high).WalksOnce (act sampleSubscriber {})
        lastRequest.low () (initial sampleSubscriber) := by
  have hforever : ¬(repairLoop lastRequest lastRequest.high).Terminates (act sampleSubscriber {})
      lastRequest.low () (initial sampleSubscriber) :=
    (onward_seqLoop fun _ => Program.halts_perform _).not_terminates (by decide) (by decide) _ _
  exact ⟨by decide +kernel, hforever, fun h => hforever h.1⟩

end Subscriber

end NdnSvs
