import NdnSvs.Lib.Runs
import NdnSvs.PacketFormat
import NdnSvs.PublishLine

/-! The order of the commits.  Between events a prepared publication at the head of its line waits
for a retry, so the posted callbacks and the retries commit everything in line, each publication
once. -/

namespace NdnSvs

open Lib Lib.Tlv

namespace Publisher

variable {cfg : PubSubConfig} {p p' : Publisher} {nid : NodeID}

/-- A prepared publication at the head of the line of a node waits for its retry. -/
def Blocked (p : Publisher) (nid : NodeID) : Prop :=
  ∀ h publication, p.nextAsyncCommitSeq[nid]? = some h →
    p.preparedPublications.getAt nid h = some publication → publication.retryScheduled = true

theorem Blocked.congr (h : p.Blocked nid)
    (hprepared : ∀ s, p'.preparedPublications.getAt nid s = p.preparedPublications.getAt nid s)
    (hnext : p'.nextAsyncCommitSeq[nid]? = p.nextAsyncCommitSeq[nid]? ∨
      ∀ s, p.preparedPublications.getAt nid s = none) : p'.Blocked nid := by
  intro head publication hhead hat
  rw [hprepared] at hat
  rcases hnext with hnext | hnone
  · exact h head publication (hnext ▸ hhead) hat
  · rw [hnone] at hat
    cases hat

theorem blocked_of_takeHead (h : p.takeHead nid = none) : p.Blocked nid := by
  intro head publication hhead hat
  by_contra hretry
  have htake := takeHead_eq_some.mpr ⟨head, hhead, hat, by simpa using hretry, rfl⟩
  rw [h] at htake
  cases htake

theorem advanceHead_preparedPublications (p : Publisher) (nid : NodeID) (s : SeqNo) :
    (p.advanceHead nid s).preparedPublications = p.preparedPublications := by
  unfold advanceHead
  split <;> rfl

/-- The prepared publications are filed under their keys. -/
def Keyed (p : Publisher) : Prop :=
  ∀ nid s publication, p.preparedPublications.getAt nid s = some publication →
    publication.key = (nid, s)

theorem Keyed.erase (h : p.Keyed) (nid : NodeID) (s : SeqNo)
    (hprepared : p'.preparedPublications = p.preparedPublications.eraseAt nid s) : p'.Keyed := by
  intro nid' s' publication hat
  rw [hprepared, Map.getAt_eraseAt] at hat
  split at hat
  · cases hat
  · exact h nid' s' publication hat

/-- The loop ends with the head missing or waiting for a retry. -/
theorem Keyed.commitLoop_blocked (h : p.Keyed) {fuel : Nat}
    (hfuel : p.preparedPublications.sizeAt nid < fuel) (attempts : Nat → PublishInputs) :
    (Publisher.commitLoop cfg nid fuel attempts p).Blocked nid := by
  induction fuel generalizing p attempts with
  | zero => exact absurd hfuel (Nat.not_lt_zero _)
  | succ fuel ih =>
    rw [Publisher.commitLoop]
    split
    · rename_i htake
      exact blocked_of_takeHead htake
    · rename_i publication p₀ htake
      obtain ⟨next, hnext, hat, -, rfl⟩ := takeHead_eq_some.mp htake
      split
      · rename_i hattempt
        obtain htries := attemptCommit_error hattempt
        have hseq := htries.seqNo.trans (congrArg Prod.snd (h nid next publication hat))
        obtain ⟨dataStore, mappings, extra, rfl⟩ := htries.exists_state
        intro head found hhead hfound
        obtain rfl := Option.some.inj (hnext.symm.trans hhead)
        change ((p.preparedPublications.eraseAt nid next).insertAt nid _ _).getAt nid next =
          some found at hfound
        rw [Map.getAt_insertAt, if_pos ⟨rfl, hseq⟩] at hfound
        obtain rfl := Option.some.inj hfound
        rfl
      · rename_i hattempt
        obtain ⟨p₁, core, rfl, htries, -⟩ := attemptCommit_ok hattempt
        obtain ⟨dataStore, mappings, extra, rfl⟩ := htries.exists_state
        refine ih (h.erase nid next (advanceHead_preparedPublications _ _ _)) ?_ _
        have hsize := Map.sizeAt_eraseAt hat
        rw [advanceHead_preparedPublications]
        change (p.preparedPublications.eraseAt nid next).sizeAt nid < fuel
        omega

/-- The loop of one node leaves the others as they are. -/
theorem commitLoop_other {nid' : NodeID} (hne : nid ≠ nid') (fuel : Nat)
    (attempts : Nat → PublishInputs) (h : p.Blocked nid') :
    (commitLoop cfg nid fuel attempts p).Blocked nid' := by
  refine commitLoop_invariant (P := fun p => p.Blocked nid') (E := fun _ => True) ?_ ?_ fuel
    (fun _ => trivial) h
  · intro env p publication p₀ p' publication' e _ hp htake hattempt
    obtain ⟨next, -, -, -, rfl⟩ := takeHead_eq_some.mp htake
    obtain ⟨dataStore, mappings, extra, rfl⟩ := (attemptCommit_error hattempt).exists_state
    refine hp.congr (fun s => ?_) (.inl rfl)
    change ((p.preparedPublications.eraseAt nid next).insertAt nid _ _).getAt nid' s = _
    rw [Map.getAt_insertAt, if_neg fun heq => hne heq.1, Map.getAt_eraseAt,
      if_neg fun heq => hne heq.1]
  · intro env p publication p₀ p' publication' _ hp htake hattempt
    obtain ⟨next, -, -, -, rfl⟩ := takeHead_eq_some.mp htake
    obtain ⟨p₁, core, rfl, htries, -⟩ := attemptCommit_ok hattempt
    obtain ⟨dataStore, mappings, extra, rfl⟩ := htries.exists_state
    refine hp.congr (fun s => ?_) (.inl ?_)
    · rw [advanceHead_preparedPublications]
      change (p.preparedPublications.eraseAt nid next).getAt nid' s = _
      rw [Map.getAt_eraseAt, if_neg fun heq => hne heq.1]
    · unfold advanceHead
      split
      · exact Map.get_insert_ne hne
      · rfl

theorem Keyed.commitReady_blocked (h : p.Keyed) (nid : NodeID) (attempts : Nat → PublishInputs)
    {nid' : NodeID} (hblocked : nid ≠ nid' → p.Blocked nid') :
    (p.commitReadyPreparedPublications cfg attempts nid).Blocked nid' := by
  by_cases hne : nid = nid'
  · subst hne
    exact h.commitLoop_blocked (Nat.lt_succ_self _) attempts
  · exact commitLoop_other hne _ attempts (hblocked hne)

/-! ### Steps -/

/-- The state between events. -/
structure Settled (cfg : PubSubConfig) (p : Publisher) : Prop extends Lined cfg p where
  blocked : ∀ nid, p.Blocked nid

theorem settled_empty (core : SVSyncCore) : Settled cfg { core } :=
  ⟨lined_empty core, fun nid h publication hhead => by simp at hhead⟩

theorem Publishes.blocked {seqNo : SeqNo} {result : Outcome Publisher}
    {settle : Publisher → Publisher} (h : Publishes cfg nid seqNo p result settle) {nid' : NodeID}
    (hblocked : p.Blocked nid')
    (hsettle : result.2 = .ok () → ∀ p' : Publisher, p'.nextAsyncCommitSeq = p.nextAsyncCommitSeq →
      p'.preparedPublications = p.preparedPublications →
      (settle p').preparedPublications = p.preparedPublications ∧
        ((settle p').nextAsyncCommitSeq[nid']? = p.nextAsyncCommitSeq[nid']? ∨
          ∀ s, p.preparedPublications.getAt nid' s = none)) : result.1.Blocked nid' := by
  rcases h with ⟨halters, -⟩ | ⟨p₁, core, packets, halters, -, -, -, hresult⟩
  · have hstate := halters.state
    exact hblocked.congr (fun s => by rw [hstate]) (.inl (by rw [hstate]))
  · have hstate := halters.state
    have hok : result.2 = .ok () := by rw [hresult]
    obtain ⟨hprepared, hnext⟩ := hsettle hok { p₁ with core } (by rw [hstate]) (by rw [hstate])
    rw [hresult]
    exact hblocked.congr (fun s => congrArg (fun m => m.getAt nid' s) hprepared) hnext

theorem Lined.unprepared (h : Lined cfg p) (hnext : nid ∉ p.nextAsyncCommitSeq) (s : SeqNo) :
    p.preparedPublications.getAt nid s = none := by
  by_contra hsome
  obtain ⟨head, hhead, -⟩ := h.head nid s (.inr (Option.isSome_iff_ne_none.mpr hsome))
  rw [Std.ExtTreeMap.getElem?_eq_none hnext] at hhead
  cases hhead

/-- A head pointer that is set for the first time. -/
theorem Settled.firstNext (h : Settled cfg p) (next : SeqNo) (nid' : NodeID)
    (hnext : p'.nextAsyncCommitSeq = if nid ∈ p.nextAsyncCommitSeq then p.nextAsyncCommitSeq
      else p.nextAsyncCommitSeq.insert nid next)
    (hprepared : p'.preparedPublications = p.preparedPublications) : p'.Blocked nid' := by
  refine (h.blocked nid').congr (fun s => by rw [hprepared]) ?_
  rw [hnext]
  split
  · exact .inl rfl
  · rename_i hmem
    by_cases hne : nid = nid'
    · subst hne
      exact .inr (h.unprepared hmem)
    · exact .inl (Map.get_insert_ne hne)

theorem Settled.reserveSeqNo (h : Settled cfg p) (hroom : HasRoom cfg p nid) :
    Settled cfg (p.reserveSeqNo cfg nid).1 :=
  ⟨h.toLined.reserveSeqNo hroom, fun nid' => h.firstNext _ nid' rfl rfl⟩

theorem Settled.publishes (h : Settled cfg p) {seqNo : SeqNo} {result : Outcome Publisher}
    (hpublishes : Publishes cfg nid seqNo p result id) : Settled cfg result.1 :=
  ⟨h.toLined.publishes hpublishes fun _ _ h _ _ _ => h, fun nid' =>
    Publishes.blocked hpublishes (h.blocked nid') fun _ _ hnext hprepared =>
      ⟨hprepared, .inl (by rw [← hnext]; rfl)⟩⟩

theorem Settled.publishesBytes (h : Settled cfg p) {result : Outcome Publisher}
    (hpublishes : Publishes cfg nid (p.nextSeqNo cfg nid) p result
      (settleBytes nid (p.nextSeqNo cfg nid)))
    (hok : result.2 = .ok () → HasRoom cfg p nid ∧ p.Idle nid) : Settled cfg result.1 := by
  refine ⟨h.toLined.publishes hpublishes fun hresult p' hp' hstaged hprepared hreserved => ?_,
    fun nid' => Publishes.blocked hpublishes (h.blocked nid') fun hresult p' hnext hprepared => ?_⟩
  · obtain ⟨hroom, hidle⟩ := hok hresult
    refine hp'.settleBytes ?_ ?_
    · rw [Idle, hstaged, hprepared]
      exact hidle
    · have := reserved_le_last cfg p nid
      rw [hreserved, nextSeqNo_eq hroom]
      lia
  · refine ⟨hprepared, ?_⟩
    by_cases hne : nid = nid'
    · subst hne
      refine .inr fun s => ?_
      by_contra hsome
      exact (hok hresult).2.not_pending s (.inr (Option.isSome_iff_ne_none.mpr hsome))
    · refine .inl ?_
      rw [← hnext]
      exact Map.get_insert_ne hne

theorem Settled.alters (h : Settled cfg p) {seqNo : SeqNo} (halters : Alters cfg nid seqNo p p') :
    Settled cfg p' := by
  have hstate := halters.state
  refine ⟨h.toLined.alters halters p'.core, fun nid' =>
    (h.blocked nid').congr (fun s => ?_) (.inl ?_)⟩
  · rw [hstate]
  · rw [hstate]

theorem Settled.stages (h : Settled cfg p) {env : PublishInputs} {kind : AsyncPublication.Kind}
    {name nodePrefix : Name} {freshnessPeriod : Int} {mappingBlocks : List Block}
    (hok : (p.prepareAndStageAsyncPublication cfg env kind name nodePrefix freshnessPeriod
      mappingBlocks).2.isOk →
      HasRoom cfg p (nodeOf cfg nodePrefix) ∧ Follows cfg p (nodeOf cfg nodePrefix)) :
    Settled cfg (p.prepareAndStageAsyncPublication cfg env kind name nodePrefix freshnessPeriod
      mappingBlocks).1 := by
  have hreserve : Settled cfg (p.reserve (nodeOf cfg nodePrefix)
      (p.lastSeqNo cfg (nodeOf cfg nodePrefix))) :=
    ⟨h.toLined.reserve, fun nid' => (h.blocked nid').congr (fun _ => rfl) (.inl rfl)⟩
  rcases prepareAndStage_cases cfg env p kind name nodePrefix freshnessPeriod
    mappingBlocks with ⟨halters, -⟩ | ⟨p₁, prepared, halters, hstages, hresult⟩
  · exact hreserve.alters halters
  · rw [hresult] at hok ⊢
    obtain ⟨hroom, hfollows⟩ := hok rfl
    have h₁ := hreserve.alters halters
    have hseq := nextSeqNo_eq hroom
    have hlt : p.nextSeqNo cfg (nodeOf cfg nodePrefix) < 2 ^ 64 := Nat.mod_lt _ (by decide)
    have hpos : 0 < p.nextSeqNo cfg (nodeOf cfg nodePrefix) := by
      rw [hseq]
      exact Nat.succ_pos _
    have hstate := halters.state
    have hreserved : (p₁.reservedSeqNo[nodeOf cfg nodePrefix]?).getD 0 <
        p.nextSeqNo cfg (nodeOf cfg nodePrefix) := by
      rw [hstate, hseq]
      simp [Publisher.reserve]
    have hpending : ∀ s, p₁.Pending (nodeOf cfg nodePrefix) s ↔
      p.Pending (nodeOf cfg nodePrefix) s :=
      fun s => by
        rw [hstate]
        rfl
    have hnext : p₁.nextAsyncCommitSeq = p.nextAsyncCommitSeq := by
      rw [hstate]
      rfl
    have hfollows₁ : (∀ s, ¬p₁.Pending (nodeOf cfg nodePrefix) s) ∧
        (p₁.nextAsyncCommitSeq[nodeOf cfg nodePrefix]? = none ∨
          p₁.nextAsyncCommitSeq[nodeOf cfg nodePrefix]? =
            some (p.nextSeqNo cfg (nodeOf cfg nodePrefix))) ∨
        p₁.Pending (nodeOf cfg nodePrefix) (p.nextSeqNo cfg (nodeOf cfg nodePrefix) - 1) := by
      simp only [hpending, hnext]
      unfold Follows at hfollows
      split at hfollows
      · rename_i hidle
        exact .inl ⟨hidle.not_pending, hfollows⟩
      · exact .inr hfollows
    refine ⟨⟨h₁.toInLine.stage hpos hlt hreserved hfollows₁, h₁.toFiled.stage hstages fun hs => ?_⟩,
      fun nid' => h₁.firstNext _ nid' rfl rfl⟩
    exact h₁.not_returned hreserved (h₁.pending_returned hs)

theorem Settled.onPrepared (h : Settled cfg p) {index : Nat} {publication : PreparedPublication}
    (hindex : p.posted[index]? = some publication) (attempts : Nat → PublishInputs) :
    Settled cfg (({ p with posted := p.posted.eraseIdx index } :
      Publisher).onPreparedPublication cfg attempts publication) := by
  have hlined := h.toLined.unstage hindex
  refine ⟨hlined.commitLoop _ _ _, fun nid' =>
    Keyed.commitReady_blocked hlined.keyed _ _ fun hne => ?_⟩
  refine (h.blocked nid').congr (fun s => ?_) (.inl rfl)
  simp only [unstage, Map.getAt_insertAt]
  rw [if_neg fun heq => hne heq.1]

theorem Settled.onRetry (h : Settled cfg p) {index : Nat} {s : SeqNo}
    (hindex : p.retries[index]? = some (nid, s)) (attempts : Nat → PublishInputs) :
    Settled cfg (({ p with retries := p.retries.eraseIdx index } : Publisher).onRetry
      cfg attempts nid s) := by
  unfold Publisher.onRetry
  split
  · rename_i hat
    exact ⟨h.toLined.dropRetry hindex hat, fun nid' =>
      (h.blocked nid').congr (fun _ => rfl) (.inl rfl)⟩
  · rename_i publication hat
    have hlined := h.toLined.clearRetry hindex hat
    refine ⟨hlined.commitLoop _ _ _, fun nid' =>
    Keyed.commitReady_blocked hlined.keyed _ _ fun hne => ?_⟩
    refine (h.blocked nid').congr (fun s => ?_) (.inl rfl)
    simp only [Publisher.clearRetry, Map.getAt_insertAt]
    rw [if_neg fun heq => hne heq.1]

theorem Settled.step {o : Occurrence} (hstep : Publisher.step cfg p o = some p')
    (hok : Ordered cfg p o) (h : Settled cfg p) : Settled cfg p' := by
  obtain ⟨event, inputs⟩ := o
  cases event with
  | publishBytes name value nodePrefix freshnessPeriod mappingBlocks =>
    obtain rfl := Option.some.inj hstep
    exact h.publishesBytes (publishBytes_publishes _ _ _ _ _ _) fun hresult =>
      hok (by rw [hresult]; rfl)
  | publishName name nodePrefix mappingBlocks =>
    obtain rfl := Option.some.inj hstep
    exact (h.reserveSeqNo hok).publishes (publishName_publishes _ _ _ _)
  | publishPacket data nodePrefix mappingBlocks =>
    obtain rfl := Option.some.inj hstep
    exact (h.reserveSeqNo hok).publishes (publishPacket_publishes _ _ _ _)
  | publishBytesAsync name value nodePrefix freshnessPeriod mappingBlocks =>
    obtain rfl := Option.some.inj hstep
    exact h.stages hok
  | publishNameAsync name nodePrefix freshnessPeriod mappingBlocks =>
    obtain rfl := Option.some.inj hstep
    exact h.stages hok
  | publishPacketAsync data nodePrefix mappingBlocks =>
    obtain rfl := Option.some.inj hstep
    exact h.stages hok
  | preparedPublication index =>
    obtain ⟨_, hindex, rfl⟩ := (Publisher.step_preparedPublication rfl).mp hstep
    exact h.onPrepared hindex _
  | retry index =>
    obtain ⟨_, _, hindex, rfl⟩ := (Publisher.step_retry rfl).mp hstep
    exact h.onRetry hindex _
  | extraBlocks =>
    obtain rfl := Option.some.inj hstep
    exact ⟨h.toLined.congr rfl rfl rfl rfl rfl rfl rfl fun _ => le_rfl,
      fun nid' => (h.blocked nid').congr (fun _ => rfl) (.inl rfl)⟩
  | core event =>
    obtain ⟨_, -, rfl⟩ := (Publisher.step_core rfl).mp hstep
    exact ⟨h.toLined.congr rfl rfl rfl rfl rfl rfl rfl fun _ => le_rfl,
      fun nid' => (h.blocked nid').congr (fun _ => rfl) (.inl rfl)⟩

/-! ### Draining the line -/

/-- A posted callback or a retry during which nothing fails from outside. -/
structure Occurrence.Drains (o : Occurrence) : Prop where
  event : (∃ index, o.event = .preparedPublication index) ∨ ∃ index, o.event = .retry index
  quiet : ∀ i, Quiet (o.inputs i)

/-- The callbacks and the timers that have not run. -/
def outstanding (p : Publisher) : Nat := p.posted.length + p.retries.length

theorem Occurrence.Drains.ordered {o : Occurrence} (h : o.Drains) (p : Publisher) :
    Ordered cfg p o := by
  obtain ⟨event, inputs⟩ := o
  rcases h.event with ⟨index, rfl⟩ | ⟨index, rfl⟩ <;> trivial

/-- When nothing fails from outside, the loop sets no timer. -/
theorem Lined.commitLoop_quiet (h : Lined cfg p) (nid : NodeID) (fuel : Nat)
    {attempts : Nat → PublishInputs} (hquiet : ∀ i, Quiet (attempts i)) :
    (Publisher.commitLoop cfg nid fuel attempts p).outstanding = p.outstanding := by
  have hloop : Lined cfg (Publisher.commitLoop cfg nid fuel attempts p) ∧
      (Publisher.commitLoop cfg nid fuel attempts p).outstanding = p.outstanding := by
    refine commitLoop_invariant (P := fun q => Lined cfg q ∧ q.outstanding = p.outstanding)
      (E := Quiet) ?_ ?_ fuel hquiet ⟨h, rfl⟩
    · intro env q publication q₀ q' publication' e henv hq htake hattempt
      obtain ⟨next, hnext, hat, -, -⟩ := takeHead_eq_some.mp htake
      have hseq : publication.seqNo = next := congrArg Prod.snd
        (hq.1.keyed nid next publication hat)
      have hpos := (hq.1.bounds nid next (.inr (by rw [hat]; rfl))).1
      have hsound := hq.1.prepared_sound nid next publication hat
      have hok := @attemptCommit_of_insertable cfg _ q₀ nid publication
        (by lia) hsound.ok hsound.insertable henv
      rw [hattempt] at hok
      cases hok
    · intro env q publication q₀ q' publication' _ hq htake hattempt
      refine ⟨hq.1.attempt_done htake hattempt, ?_⟩
      obtain ⟨next, -, -, -, rfl⟩ := takeHead_eq_some.mp htake
      obtain ⟨p₁, core, rfl, htries, -⟩ := attemptCommit_ok hattempt
      obtain ⟨dataStore, mappings, extra, rfl⟩ := htries.exists_state
      rw [← hq.2]
      unfold advanceHead
      split <;> rfl
  exact hloop.2

theorem length_eraseIdx_succ {α : Type} {l : List α} {i : Nat} {a : α} (h : l[i]? = some a) :
    (l.eraseIdx i).length + 1 = l.length := by
  obtain ⟨hi, -⟩ := List.getElem?_eq_some_iff.mp h
  rw [List.length_eraseIdx_of_lt hi]
  omega

theorem Settled.drain {o : Occurrence} (h : Settled cfg p) (ho : o.Drains)
    (hstep : Publisher.step cfg p o = some p') : p'.outstanding + 1 = p.outstanding := by
  obtain ⟨event, inputs⟩ := o
  rcases ho.event with ⟨index, rfl⟩ | ⟨index, rfl⟩
  · obtain ⟨publication, hindex, rfl⟩ := (Publisher.step_preparedPublication rfl).mp hstep
    have hloop := (h.toLined.unstage hindex).commitLoop_quiet publication.nodePrefix
      ((({ p with posted := p.posted.eraseIdx index } :
        Publisher).unstage publication).preparedPublications.sizeAt publication.nodePrefix + 1)
      ho.quiet
    have hlength := length_eraseIdx_succ hindex
    unfold onPreparedPublication commitReadyPreparedPublications
    rw [hloop]
    simp only [outstanding, unstage]
    omega
  · obtain ⟨nid, s, hindex, rfl⟩ := (Publisher.step_retry rfl).mp hstep
    have hlength := length_eraseIdx_succ hindex
    unfold Publisher.onRetry
    split
    · simp only [outstanding]
      omega
    · rename_i publication hat
      have hloop := (h.toLined.clearRetry hindex hat).commitLoop_quiet nid
        ((({ p with retries := p.retries.eraseIdx index } :
          Publisher).clearRetry nid s publication).preparedPublications.sizeAt nid + 1) ho.quiet
      unfold commitReadyPreparedPublications
      rw [hloop]
      simp only [outstanding, Publisher.clearRetry]
      omega

theorem Settled.run_drain {ds : List Occurrence} (h : Settled cfg p) (hds : ∀ d ∈ ds, d.Drains)
    (hrun : run (Publisher.step cfg) p ds = some p') :
    Settled cfg p' ∧ p'.outstanding + ds.length = p.outstanding := by
  induction ds generalizing p with
  | nil =>
    obtain rfl := Option.some.inj hrun
    exact ⟨h, rfl⟩
  | cons d ds ih =>
    obtain ⟨q, hstep, hrun⟩ := Option.bind_eq_some_iff.mp hrun
    have hd := hds d List.mem_cons_self
    obtain ⟨hp', hlength⟩ := ih (h.step hstep (hd.ordered p))
      (fun d' hd' => hds d' (List.mem_cons_of_mem _ hd')) hrun
    have := h.drain hd hstep
    rw [List.length_cons]
    exact ⟨hp', by omega⟩

/-- As long as something is outstanding, it can run. -/
theorem Settled.exists_drain (h : Settled cfg p) : ∃ ds p', (∀ d ∈ ds, Occurrence.Drains d) ∧
    ds.length = p.outstanding ∧ run (Publisher.step cfg) p ds = some p' := by
  obtain ⟨n, hn⟩ : ∃ n, p.outstanding = n := ⟨_, rfl⟩
  induction n generalizing p with
  | zero => exact ⟨[], p, by simp, hn.symm, rfl⟩
  | succ n ih =>
    let inputs : Nat → PublishInputs := fun _ => { core := { signData := fun _ => none } }
    have hquiet : ∀ i, Quiet (inputs i) := fun _ => ⟨rfl, rfl, rfl⟩
    have hstep : ∃ d q, Occurrence.Drains d ∧ Publisher.step cfg p d = some q := by
      cases hposted : p.posted with
      | cons publication posted =>
        exact ⟨⟨.preparedPublication 0, inputs⟩, _, ⟨.inl ⟨0, rfl⟩, hquiet⟩,
          by simp only [Publisher.step, hposted, List.getElem?_cons_zero]; rfl⟩
      | nil =>
        cases hretries : p.retries with
        | cons key retries =>
          exact ⟨⟨.retry 0, inputs⟩, _, ⟨.inr ⟨0, rfl⟩, hquiet⟩,
            by simp only [Publisher.step, hretries, List.getElem?_cons_zero]; rfl⟩
        | nil => simp [outstanding, hposted, hretries] at hn
    obtain ⟨d, q, hd, hq⟩ := hstep
    have hless := h.drain hd hq
    obtain ⟨ds, p', hds, hlength, hrun⟩ := ih (h.step hq (hd.ordered p)) (by omega)
    refine ⟨d :: ds, p', fun d' hd' => ?_, by rw [List.length_cons]; omega, ?_⟩
    · rcases List.mem_cons.mp hd' with rfl | hd'
      · exact hd
      · exact hds d' hd'
    · rw [run_cons, hq]
      exact hrun

/-- Nothing is left in line, and every number that an asynchronous call has returned has been
committed once. -/
structure Finished (p : Publisher) : Prop where
  staged : p.stagedPublicationPackets = ∅
  prepared : p.preparedPublications = ∅
  committed : ∀ r ∈ p.returned, r.async → p.committed.count (r.nodePrefix, r.seqNo) = 1

theorem Settled.finished (h : Settled cfg p) (hnone : p.outstanding = 0) : p.Finished := by
  have hposted : p.posted = [] := List.length_eq_zero_iff.mp
    (Nat.eq_zero_of_add_eq_zero_right hnone)
  have hretries : p.retries = [] := List.length_eq_zero_iff.mp
    (Nat.eq_zero_of_add_eq_zero_left hnone)
  have hstaged : ∀ nid s, p.stagedPublicationPackets.getAt nid s = none := fun nid s => by
    by_contra hsome
    have := (h.staged nid s).mp (Option.isSome_iff_ne_none.mpr hsome)
    rw [hposted] at this
    cases this
  have hprepared : ∀ nid s, p.preparedPublications.getAt nid s = none := fun nid s => by
    by_contra hsome
    obtain ⟨head, hhead, hpending, -⟩ := h.head nid s (.inr (Option.isSome_iff_ne_none.mpr hsome))
    rw [Pending, hstaged] at hpending
    obtain ⟨publication, hat⟩ := Option.isSome_iff_exists.mp (hpending.resolve_left (by simp))
    have htimer := h.timer nid head publication hat (h.blocked nid head publication hhead hat)
    rw [hretries] at htimer
    cases htimer
  refine ⟨h.staged_noEmpty.eq_empty hstaged, h.prepared_noEmpty.eq_empty hprepared,
    fun r hr hasync => ?_⟩
  have hmem : (r.nodePrefix, r.seqNo) ∈ p.asyncReturned :=
    List.mem_map.mpr ⟨r, List.mem_filter.mpr ⟨hr, hasync⟩, rfl⟩
  have hcount := h.accounted (r.nodePrefix, r.seqNo)
  have hpos := List.count_pos_iff.mpr hmem
  have honce := h.once (r.nodePrefix, r.seqNo)
  rw [if_neg] at hcount
  · omega
  · simp [Pending, hstaged, hprepared]

/-- When no publication of bytes overtakes one in line and every asynchronous one gets the number
that follows, the head pointer is always the smallest pending number; and once the posted callbacks
and the retries have run without a failure, everything is committed. -/
theorem commits_in_order {core : SVSyncCore} {es : List Occurrence}
    (hok : Along (Publisher.step cfg) (Ordered cfg) { core } es)
    (hrun : run (Publisher.step cfg) { core } es = some p) : p.HeadsAreSmallest ∧
      (∃ ds p', (∀ d ∈ ds, Occurrence.Drains d) ∧ ds.length = p.outstanding ∧
        run (Publisher.step cfg) p ds = some p') ∧
      ∀ ds p', (∀ d ∈ ds, Occurrence.Drains d) → ds.length = p.outstanding →
        run (Publisher.step cfg) p ds = some p' → p'.Finished := by
  have h : Settled cfg p := run_invariant_along
    (fun p o p' hstep hok h => h.step hstep hok) (settled_empty core) hok hrun
  refine ⟨h.toInLine.heads, h.exists_drain, fun ds p' hds hlength hdrain => ?_⟩
  obtain ⟨hp', hleft⟩ := h.run_drain hds hdrain
  exact hp'.finished (by omega)

def sampleInputs : Nat → PublishInputs := fun _ => { core := { signData := fun _ => some [1] } }

/-- Two asynchronous publications of which the first is prepared, and fails once. -/
def orderedRun : List Occurrence :=
  [⟨.publishNameAsync (Name.ofStrings ["x"]) [] 0 [], sampleInputs⟩,
    ⟨.publishNameAsync (Name.ofStrings ["y"]) [] 0 [], sampleInputs⟩,
    ⟨.preparedPublication 0, fun i => { sampleInputs i with hookThrows := true }⟩]

theorem commits_in_order_after_failure :
    let p := (run (Publisher.step sampleConfig) {} orderedRun).get (by decide +kernel)
    p.Pending sampleConfig.core.id 1 ∧ p.outstanding = 2 ∧ p.HeadsAreSmallest ∧
      (∃ ds p', (∀ d ∈ ds, Occurrence.Drains d) ∧ ds.length = p.outstanding ∧
        run (Publisher.step sampleConfig) p ds = some p') ∧
      ∀ ds p', (∀ d ∈ ds, Occurrence.Drains d) → ds.length = p.outstanding →
        run (Publisher.step sampleConfig) p ds = some p' → p'.Finished :=
  ⟨by decide +kernel, by decide +kernel,
    commits_in_order (by decide +kernel) (Option.some_get _).symm⟩

def sampleSpan : Span := ⟨[1], by decide⟩

/-- An asynchronous publication that is overtaken by one of bytes before its callback runs. -/
def overtakenRun : List Occurrence :=
  [⟨.publishNameAsync (Name.ofStrings ["x"]) [] 0 [], sampleInputs⟩,
    ⟨.publishBytes (Name.ofStrings ["y"]) sampleSpan [] 0 [], sampleInputs⟩,
    ⟨.preparedPublication 0, sampleInputs⟩]

theorem bytes_strand_async : ∃ p, run (Publisher.step sampleConfig) {} overtakenRun = some p ∧
    p.outstanding = 0 ∧ ¬p.HeadsAreSmallest ∧ ¬p.Finished := by
  let p := (run (Publisher.step sampleConfig) {} overtakenRun).get (by decide +kernel)
  have hpending : p.Pending sampleConfig.core.id 1 := by decide +kernel
  have hnext : p.nextAsyncCommitSeq[sampleConfig.core.id]? = some 3 := by decide +kernel
  refine ⟨p, (Option.some_get _).symm, by decide +kernel, fun hheads => ?_, fun hfinished => ?_⟩
  · obtain ⟨h, hhead, -, hle⟩ := hheads _ _ hpending
    rw [hnext] at hhead
    obtain rfl := Option.some.inj hhead
    exact absurd (hle 1 hpending) (by decide)
  · rw [Pending, hfinished.staged, hfinished.prepared] at hpending
    simp at hpending

end Publisher

end NdnSvs
