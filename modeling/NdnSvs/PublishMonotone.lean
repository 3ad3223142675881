import NdnSvs.CoreRuns
import NdnSvs.Lib.Runs
import NdnSvs.PublishOrder

/-! Monotonicity of the state vector over runs of whole calls and callbacks, which nothing
interrupts.  A synchronous publication raises its entry, so only a direct assignment or the commit
of a publication that has been overtaken can lower one. -/

namespace NdnSvs

open Lib Lib.Tlv SVSyncCore

namespace Publisher

variable {cfg : PubSubConfig} {p p' : Publisher} {nid : NodeID}

/-! ### The condition on the events -/

/-- The head of a node commits, unless it throws, at or above the entry that it sets. -/
def HeadRises (cfg : PubSubConfig) (env : PublishInputs) (p : Publisher) (nid : NodeID) : Prop :=
  match p.takeHead nid with
  | none => True
  | some (publication, p₀) => (p₀.attemptCommit cfg env nid publication).2.isOk →
    p.core.vv.get (targetNode cfg.core nid) cfg.core.bootstrapTime ≤ publication.seqNo

instance (env : PublishInputs) (p : Publisher) (nid : NodeID) :
    Decidable (HeadRises cfg env p nid) := by
  unfold HeadRises
  generalize p.takeHead nid = head
  rcases head with _ | ⟨publication, p₀⟩ <;> infer_instance

/-- A direct assignment throws or does not lower its entry, and a callback or a retry finds a head
that does not lower it. -/
def Rising (cfg : PubSubConfig) (p : Publisher) (o : Occurrence) : Prop :=
  match o.event with
  | .core (.updateSeqNo seq b nid) =>
    seq = 0 ∨ p.core.vv.get (targetNode cfg.core nid) b ≤ seq ∧ seq < 2 ^ 64
  | .preparedPublication index =>
    match p.posted[index]? with
    | none => True
    | some publication =>
      HeadRises cfg (o.inputs 0) (({ p with posted := p.posted.eraseIdx index } :
        Publisher).unstage publication) publication.nodePrefix
  | .retry index =>
    match p.retries[index]? with
    | none => True
    | some (nid, s) =>
      match p.preparedPublications.getAt nid s with
      | none => True
      | some publication =>
        HeadRises cfg (o.inputs 0) (({ p with retries := p.retries.eraseIdx index } :
          Publisher).clearRetry nid s publication) nid
  | _ => True

instance (p : Publisher) (o : Occurrence) : Decidable (Rising cfg p o) := by
  unfold Rising
  generalize o.event = event
  rcases event
  case preparedPublication index =>
    dsimp only
    generalize p.posted[index]? = found
    rcases found <;> infer_instance
  case retry index =>
    dsimp only
    generalize p.retries[index]? = retry
    rcases retry with _ | ⟨nid, s⟩
    · infer_instance
    · dsimp only
      generalize p.preparedPublications.getAt nid s = found
      rcases found <;> infer_instance
  case core event => rcases event <;> infer_instance
  all_goals infer_instance

/-! ### Steps -/

/-- No entry of the state vector is lower than before. -/
def Rises (p p' : Publisher) : Prop := ∀ nid b, p.core.vv.get nid b ≤ p'.core.vv.get nid b

theorem Rises.refl (p : Publisher) : Rises p p := fun _ _ => le_rfl

/-- The numbers in the publisher fit 64 bits, and the jobs of its core are up to date. -/
structure Sane (cfg : PubSubConfig) (p : Publisher) : Prop where
  posted : ∀ publication ∈ p.posted, publication.seqNo < 2 ^ 64
  prepared : ∀ nid s publication, p.preparedPublications.getAt nid s = some publication →
    publication.seqNo = s ∧ s < 2 ^ 64
  reserved : ∀ nid : NodeID, (p.reservedSeqNo[nid]?).getD 0 < 2 ^ 64
  snapshots : p.core.Snapshots
  bounded : ∀ nid b, Bounded cfg.core nid b SVSyncCore.maxSeqNo p.core

theorem sane_empty : Sane cfg {} := by
  refine ⟨fun publication h => (List.not_mem_nil h).elim,
    fun nid s publication h => ?_, fun nid => ?_,
    snapshots_empty, fun nid b => bounded_empty⟩
  · simp at h
  · simp

variable (cfg) in
theorem nextSeqNo_lt (p : Publisher) (nid : NodeID) : p.nextSeqNo cfg nid < 2 ^ 64 :=
  Nat.mod_lt _ (by decide)

/-- A number that does not wrap is above the known one. -/
theorem Sane.nextSeqNo_eq (h : Sane cfg p) (hpos : p.nextSeqNo cfg nid ≠ 0) :
    p.nextSeqNo cfg nid = p.lastSeqNo cfg nid + 1 := by
  have hlast : p.lastSeqNo cfg nid < 2 ^ 64 := max_lt (h.reserved nid) (getSeqNo_lt h.bounded nid)
  unfold nextSeqNo at hpos ⊢
  refine Nat.mod_eq_of_lt (lt_of_le_of_ne hlast fun heq => hpos ?_)
  have heq : p.lastSeqNo cfg nid + 1 = 2 ^ 64 := heq
  rw [heq, Nat.mod_self]

theorem Sane.get_lt_next (h : Sane cfg p) (hpos : p.nextSeqNo cfg nid ≠ 0) :
    p.core.vv.get (targetNode cfg.core nid) cfg.core.bootstrapTime < p.nextSeqNo cfg nid := by
  rw [h.nextSeqNo_eq hpos]
  exact Nat.lt_succ_of_le ((get_le_getSeqNo _ p.core nid).trans (le_max_right _ _))

theorem Sane.alters (h : Sane cfg p) {seqNo : SeqNo} (halters : Alters cfg nid seqNo p p') :
    Sane cfg p' := by
  rw [halters.state]
  exact ⟨h.posted, h.prepared, h.reserved, h.snapshots, h.bounded⟩

/-- An announcement that does not lower the entry. -/
theorem Sane.announces (h : Sane cfg p) {seqNo : SeqNo} {core : SVSyncCore}
    (hannounces : Announces cfg nid seqNo p.core core) (hlt : seqNo < 2 ^ 64)
    (hle : p.core.vv.get (targetNode cfg.core nid) cfg.core.bootstrapTime ≤ seqNo) :
    Sane cfg { p with core } ∧ Rises p { p with core } := by
  refine ⟨⟨h.posted, h.prepared, h.reserved,
    hannounces.emits.snapshots (assigned_snapshots h.snapshots hannounces.pos hle),
      fun nid b => ?_⟩,
    fun nid' b => ?_⟩
  · exact hannounces.emits.bounded (assigned_bounded (h.bounded nid b) fun _ =>
      Nat.le_sub_one_of_lt hlt)
  · change _ ≤ core.vv.get nid' b
    rw [hannounces.get]
    split
    · rename_i heq
      rw [← heq.1, ← heq.2]
      exact hle
    · exact le_rfl

theorem Sane.setReserved (h : Sane cfg p) {seqNo : SeqNo} (hlt : seqNo < 2 ^ 64) :
    Sane cfg { p with reservedSeqNo := p.reservedSeqNo.insert nid seqNo } := by
  refine { h with reserved := fun nid' => ?_ }
  change ((p.reservedSeqNo.insert nid seqNo)[nid']?).getD 0 < 2 ^ 64
  rw [Map.get_insert]
  split
  · exact hlt
  · exact h.reserved nid'

theorem Sane.reserveSeqNo (h : Sane cfg p) (nid : NodeID) :
    Sane cfg (p.reserveSeqNo cfg nid).1 := by
  have hset := @Sane.setReserved cfg _ nid h _ (nextSeqNo_lt cfg p nid)
  exact ⟨hset.posted, hset.prepared, hset.reserved, hset.snapshots, hset.bounded⟩

theorem Sane.publishes (h : Sane cfg p) {seqNo : SeqNo} {result : Outcome Publisher}
    {settle : Publisher → Publisher} (hpublishes : Publishes cfg nid seqNo p result settle)
    (hlt : seqNo < 2 ^ 64) (hle : seqNo ≠ 0 →
      p.core.vv.get (targetNode cfg.core nid) cfg.core.bootstrapTime ≤ seqNo)
    (hsettle : ∀ p', Sane cfg p' → Sane cfg (settle p') ∧ (settle p').core = p'.core) :
    Sane cfg result.1 ∧ Rises p result.1 := by
  rcases hpublishes with ⟨halters, -⟩ | ⟨p₁, core, packets, halters, hannounces, -, -, hresult⟩
  · refine ⟨h.alters halters, ?_⟩
    rw [halters.state]
    exact .refl p
  · have hcore : p₁.core = p.core := by rw [halters.state]
    rw [← hcore] at hannounces
    obtain ⟨hsane, hrises⟩ := (h.alters halters).announces hannounces hlt
      (by rw [hcore]; exact hle hannounces.pos)
    obtain ⟨hsettled, hsame⟩ := hsettle _ hsane
    rw [hresult]
    refine ⟨⟨hsettled.posted, hsettled.prepared, hsettled.reserved, hsettled.snapshots,
      hsettled.bounded⟩, fun nid b => ?_⟩
    change _ ≤ (settle { p₁ with core }).core.vv.get nid b
    rw [hsame, ← hcore]
    exact hrises nid b

theorem Sane.stages (h : Sane cfg p) {env : PublishInputs} {kind : AsyncPublication.Kind}
    {name nodePrefix : Name} {freshnessPeriod : Int} {mappingBlocks : List Block} :
    Sane cfg (p.prepareAndStageAsyncPublication cfg env kind name nodePrefix freshnessPeriod
      mappingBlocks).1 ∧
    Rises p (p.prepareAndStageAsyncPublication cfg env kind name nodePrefix freshnessPeriod
      mappingBlocks).1 := by
  have hreserve : Sane cfg (p.reserve (nodeOf cfg nodePrefix)
      (p.lastSeqNo cfg (nodeOf cfg nodePrefix))) :=
    h.setReserved (max_lt (h.reserved _) (getSeqNo_lt h.bounded _))
  rcases prepareAndStage_cases cfg env p kind name nodePrefix freshnessPeriod
    mappingBlocks with ⟨halters, -⟩ | ⟨p₁, prepared, halters, hstages, hresult⟩
  · refine ⟨hreserve.alters halters, ?_⟩
    rw [halters.state]
    exact .refl p
  · have h₁ := @Sane.setReserved cfg _ (nodeOf cfg nodePrefix) (hreserve.alters halters) _
      (nextSeqNo_lt cfg p (nodeOf cfg nodePrefix))
    rw [hresult]
    refine ⟨⟨fun publication hmem => ?_, h₁.prepared, h₁.reserved, h₁.snapshots, h₁.bounded⟩, ?_⟩
    · rcases List.mem_append.mp hmem with hmem | hmem
      · exact h₁.posted publication hmem
      · rw [List.mem_singleton.mp hmem, hstages.seqNo]
        exact nextSeqNo_lt _ p _
    · have hcore : p₁.core = p.core := by
        rw [halters.state]
        rfl
      intro nid b
      change p.core.vv.get nid b ≤ p₁.core.vv.get nid b
      rw [hcore]

/-! ### Commits -/

theorem Sane.requeue (h : Sane cfg p) {publication publication' : PreparedPublication}
    {p₀ : Publisher} (htake : p.takeHead nid = some (publication, p₀))
    (htries : Tries cfg p₀ publication p' publication') :
    Sane cfg (p'.requeueFailedPublication nid publication') ∧
      Rises p (p'.requeueFailedPublication nid publication') := by
  obtain ⟨next, hnext, hat, -, rfl⟩ := takeHead_eq_some.mp htake
  obtain ⟨dataStore, mappings, extra, rfl⟩ := htries.exists_state
  obtain ⟨hseq, hlt⟩ := h.prepared nid next publication hat
  refine ⟨⟨h.posted, fun nid' s found hfound => ?_, h.reserved, h.snapshots, h.bounded⟩, .refl p⟩
  simp only [requeueFailedPublication, Map.getAt_insertAt, Map.getAt_eraseAt] at hfound
  split at hfound
  · rename_i heq
    obtain rfl := Option.some.inj hfound
    refine ⟨heq.2, ?_⟩
    rw [← heq.2, htries.seqNo, hseq]
    exact hlt
  · split at hfound
    · cases hfound
    · exact h.prepared nid' s found hfound

/-- After a commit the next head is above the entry. -/
def NextRises (cfg : PubSubConfig) (p : Publisher) (nid : NodeID) : Prop :=
  ∀ next, p.nextAsyncCommitSeq[nid]? = some next → next ≠ 0 →
    p.core.vv.get (targetNode cfg.core nid) cfg.core.bootstrapTime ≤ next

theorem Sane.advance (h : Sane cfg p) {publication publication' : PreparedPublication}
    {p₀ : Publisher} (htake : p.takeHead nid = some (publication, p₀))
    (htries : Tries cfg p₀ publication p' publication') {core : SVSyncCore}
    (hannounces : Announces cfg nid publication.seqNo p₀.core core)
    (hle : p.core.vv.get (targetNode cfg.core nid) cfg.core.bootstrapTime ≤ publication.seqNo) :
    let q := ({ p' with core, committed := p'.committed ++ [(nid, publication.seqNo)] } :
      Publisher).advanceHead nid publication'.seqNo
    Sane cfg q ∧ NextRises cfg q nid ∧ Rises p q := by
  obtain ⟨next, hnext, hat, -, rfl⟩ := takeHead_eq_some.mp htake
  obtain ⟨dataStore, mappings, extra, rfl⟩ := htries.exists_state
  obtain ⟨hseq, hlt⟩ := h.prepared nid next publication hat
  obtain ⟨hsane, hrises⟩ := h.announces hannounces (by rw [hseq]; exact hlt) hle
  rw [htries.seqNo, advanceHead, hseq, if_pos hnext]
  refine ⟨⟨h.posted, fun nid' s found hfound => ?_, h.reserved, hsane.snapshots, hsane.bounded⟩,
    fun next' hnext' hpos => ?_, hrises⟩
  · simp only [Map.getAt_eraseAt] at hfound
    split at hfound
    · cases hfound
    · exact h.prepared nid' s found hfound
  · simp only [Map.get_insert, if_pos] at hnext'
    obtain rfl := Option.some.inj hnext'
    change core.vv.get (targetNode cfg.core nid) cfg.core.bootstrapTime ≤ _
    rw [hannounces.get, if_pos ⟨rfl, rfl⟩, hseq]
    by_cases hwrap : next + 1 = 2 ^ 64
    · exact absurd (by rw [hwrap, Nat.mod_self]) hpos
    · rw [Nat.mod_eq_of_lt (by lia)]
      exact Nat.le_succ next

theorem Sane.commitLoop (h : Sane cfg p) (hnext : NextRises cfg p nid) (fuel : Nat)
    (attempts : Nat → PublishInputs) : Sane cfg (Publisher.commitLoop cfg nid fuel attempts p) ∧
      Rises p (Publisher.commitLoop cfg nid fuel attempts p) := by
  have hloop : Sane cfg (Publisher.commitLoop cfg nid fuel attempts p) ∧
      NextRises cfg (Publisher.commitLoop cfg nid fuel attempts p) nid ∧
      Rises p (Publisher.commitLoop cfg nid fuel attempts p) := by
    refine commitLoop_invariant (P := fun q => Sane cfg q ∧ NextRises cfg q nid ∧ Rises p q)
      (E := fun _ => True) ?_ ?_ fuel (fun _ => trivial) ⟨h, hnext, .refl p⟩
    · intro env q publication q₀ q' publication' e _ ⟨hq, hup, hrises⟩ htake hattempt
      have htries := attemptCommit_error hattempt
      obtain ⟨hsane, hrises'⟩ := hq.requeue htake htries
      refine ⟨hsane, ?_, fun nid b => (hrises nid b).trans (hrises' nid b)⟩
      obtain ⟨next, -, -, -, rfl⟩ := takeHead_eq_some.mp htake
      obtain ⟨dataStore, mappings, extra, rfl⟩ := htries.exists_state
      exact hup
    · intro env q publication q₀ q' publication' _ ⟨hq, hup, hrises⟩ htake hattempt
      obtain ⟨p₁, core, rfl, htries, hannounces, -⟩ := attemptCommit_ok hattempt
      obtain ⟨next, hnext, hat, -, -⟩ := takeHead_eq_some.mp htake
      obtain ⟨hseq, -⟩ := hq.prepared nid next publication hat
      obtain ⟨hsane, hup', hrises'⟩ := hq.advance htake htries hannounces
        (hseq ▸ hup next hnext (hseq ▸ hannounces.pos))
      exact ⟨hsane, hup', fun nid b => (hrises nid b).trans (hrises' nid b)⟩
  exact ⟨hloop.1, hloop.2.2⟩

/-- Only the first round can meet an overtaken head. -/
theorem Sane.commitReady (h : Sane cfg p) {attempts : Nat → PublishInputs}
    (hhead : HeadRises cfg (attempts 0) p nid) :
    Sane cfg (p.commitReadyPreparedPublications cfg attempts nid) ∧
      Rises p (p.commitReadyPreparedPublications cfg attempts nid) := by
  rcases commitReady_cases cfg p attempts nid with hsame |
    ⟨publication, p₀, p', publication', htake, ⟨e, hattempt, hresult⟩ | ⟨hattempt, hresult⟩⟩
  · rw [hsame]
    exact ⟨h, .refl p⟩
  · rw [hresult]
    exact h.requeue htake (attemptCommit_error hattempt)
  · rw [hresult]
    rw [HeadRises, htake] at hhead
    have hle := hhead (by rw [hattempt]; rfl)
    obtain ⟨p₁, core, rfl, htries, hannounces, -⟩ := attemptCommit_ok hattempt
    have hcore : p₀.core = p.core := by
      obtain ⟨next, -, -, -, rfl⟩ := takeHead_eq_some.mp htake
      rfl
    obtain ⟨hsane, hnext, hrises⟩ := h.advance htake htries hannounces (hcore ▸ hle)
    obtain ⟨hloop, hrises'⟩ := hsane.commitLoop hnext _ fun i => attempts (i + 1)
    exact ⟨hloop, fun nid b => (hrises nid b).trans (hrises' nid b)⟩

/-! ### Steps of the node -/

theorem Sane.core (h : Sane cfg p) {env : CoreInputs} {e : SVSyncCore.Event} {core : SVSyncCore}
    (hstep : p.core.step cfg.core env e = some core)
    (hok : ∀ seq b nid, e = .updateSeqNo seq b nid →
      seq = 0 ∨ p.core.vv.get (targetNode cfg.core nid) b ≤ seq ∧ seq < 2 ^ 64) :
    Sane cfg { p with core } ∧ Rises p { p with core } := by
  by_cases hassign : ∃ seq b nid, e = .updateSeqNo seq b nid
  · obtain ⟨seq, b, nid, rfl⟩ := hassign
    obtain rfl := Option.some.inj hstep
    have hcurrent := (hok seq b nid rfl).imp_right And.left
    refine ⟨⟨h.posted, h.prepared, h.reserved, updateSeqNo_snapshots h.snapshots hcurrent,
      fun nid' b' => ?_⟩, (updateSeqNo_le_iff cfg.core env p.core seq b nid).mpr hcurrent⟩
    rcases SVSyncCore.updateSeqNo_cases cfg.core env p.core seq b nid with
      ⟨-, hsame⟩ | ⟨hpos, -, hemits⟩
    · rw [hsame]
      exact h.bounded nid' b'
    · have hlt := ((hok seq b nid rfl).resolve_left hpos).2
      exact hemits.bounded (assigned_bounded (h.bounded nid' b') fun _ => Nat.le_sub_one_of_lt hlt)
  · obtain ⟨other, htakes⟩ := step_takes h.snapshots hstep fun seq b nid he =>
      hassign ⟨seq, b, nid, he⟩
    exact ⟨⟨h.posted, h.prepared, h.reserved, htakes.snapshots h.snapshots, fun nid b =>
      htakes.bounded (h.bounded nid b) fun interest _ => claims_maxSeqNo interest⟩, htakes.le⟩

theorem Sane.unstage (h : Sane cfg p) {index : Nat} {publication : PreparedPublication}
    (hindex : p.posted[index]? = some publication) :
    Sane cfg (({ p with posted := p.posted.eraseIdx index } : Publisher).unstage publication) := by
  have hlt := h.posted publication (List.mem_of_getElem? hindex)
  refine ⟨fun other hmem => h.posted other (List.mem_of_mem_eraseIdx hmem),
    fun nid s found hfound => ?_, h.reserved, h.snapshots, h.bounded⟩
  simp only [Publisher.unstage, Map.getAt_insertAt] at hfound
  split at hfound
  · rename_i heq
    obtain rfl := Option.some.inj hfound
    exact ⟨heq.2, heq.2 ▸ hlt⟩
  · exact h.prepared nid s found hfound

theorem Sane.clearRetry (h : Sane cfg p) {index : Nat} {s : SeqNo}
    {publication : PreparedPublication}
    (hat : p.preparedPublications.getAt nid s = some publication) :
    Sane cfg (({ p with retries := p.retries.eraseIdx index } : Publisher).clearRetry nid s
      publication) := by
  refine ⟨h.posted, fun nid' s' found hfound => ?_, h.reserved, h.snapshots, h.bounded⟩
  simp only [Publisher.clearRetry, Map.getAt_insertAt] at hfound
  split at hfound
  · rename_i heq
    obtain rfl := Option.some.inj hfound
    obtain ⟨hseq, hlt⟩ := h.prepared nid s publication hat
    exact ⟨hseq.trans heq.2, heq.2 ▸ hlt⟩
  · exact h.prepared nid' s' found hfound

theorem Sane.step {o : Occurrence} (hstep : Publisher.step cfg p o = some p')
    (hok : Rising cfg p o) (h : Sane cfg p) : Sane cfg p' ∧ Rises p p' := by
  obtain ⟨event, inputs⟩ := o
  cases event with
  | publishBytes name value nodePrefix freshnessPeriod mappingBlocks =>
    obtain rfl := Option.some.inj hstep
    have hlt := nextSeqNo_lt cfg p (nodeOf cfg nodePrefix)
    refine h.publishes (publishBytes_publishes _ _ _ _ _ _) hlt
      (fun hpos => (h.get_lt_next hpos).le)
      fun p' hp' => ⟨?_, rfl⟩
    have hset := @Sane.setReserved cfg _ (nodeOf cfg nodePrefix) hp' _ hlt
    exact ⟨hset.posted, hset.prepared, hset.reserved, hset.snapshots, hset.bounded⟩
  | publishName name nodePrefix mappingBlocks =>
    obtain rfl := Option.some.inj hstep
    exact (h.reserveSeqNo _).publishes (publishName_publishes _ _ _ _) (nextSeqNo_lt _ p _)
      (fun hpos => (h.get_lt_next hpos).le) fun p' hp' => ⟨hp', rfl⟩
  | publishPacket data nodePrefix mappingBlocks =>
    obtain rfl := Option.some.inj hstep
    exact (h.reserveSeqNo _).publishes (publishPacket_publishes _ _ _ _) (nextSeqNo_lt _ p _)
      (fun hpos => (h.get_lt_next hpos).le) fun p' hp' => ⟨hp', rfl⟩
  | publishBytesAsync name value nodePrefix freshnessPeriod mappingBlocks =>
    obtain rfl := Option.some.inj hstep
    exact h.stages
  | publishNameAsync name nodePrefix freshnessPeriod mappingBlocks =>
    obtain rfl := Option.some.inj hstep
    exact h.stages
  | publishPacketAsync data nodePrefix mappingBlocks =>
    obtain rfl := Option.some.inj hstep
    exact h.stages
  | preparedPublication index =>
    obtain ⟨publication, hindex, rfl⟩ := (Publisher.step_preparedPublication rfl).mp hstep
    simp only [Rising, hindex] at hok
    exact (h.unstage hindex).commitReady hok
  | retry index =>
    obtain ⟨nid, s, hindex, rfl⟩ := (Publisher.step_retry rfl).mp hstep
    simp only [Rising, hindex] at hok
    unfold onRetry
    split
    · exact ⟨⟨h.posted, h.prepared, h.reserved, h.snapshots, h.bounded⟩, .refl p⟩
    · rename_i publication hat
      have hat : p.preparedPublications.getAt nid s = some publication := hat
      rw [hat] at hok
      exact (h.clearRetry hat).commitReady hok
  | extraBlocks =>
    obtain rfl := Option.some.inj hstep
    exact ⟨⟨h.posted, h.prepared, h.reserved, h.snapshots, h.bounded⟩, .refl p⟩
  | core event =>
    obtain ⟨core, hcore, rfl⟩ := (Publisher.step_core rfl).mp hstep
    refine h.core hcore fun seq b nid he => ?_
    subst he
    exact hok

/-- A synchronous publication that no other call interrupts raises its entry, so the steps of whole
calls lower none as long as no direct assignment and no commit of an overtaken publication does. -/
theorem uninterrupted_rises {es : List Occurrence} {o : Occurrence}
    (hok : Along (Publisher.step cfg) (Rising cfg) {} (es ++ [o]))
    (hrun : run (Publisher.step cfg) {} es = some p) (hstep : Publisher.step cfg p o = some p') :
    Rises p p' := by
  rw [along_append, hrun] at hok
  have h : Sane cfg p := run_invariant_along
    (fun p o p' hstep hok h => (h.step hstep hok).1) sane_empty hok.1 hrun
  exact (h.step hstep (hok.2 p rfl).1).2

end Publisher

end NdnSvs
