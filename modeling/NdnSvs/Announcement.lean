import NdnSvs.CoreNotes

/-! The announcement of a local update.  From the call on, an Interest that covers the update has
been sent, or the batch event is pending, or a production job whose snapshot covers it is
outstanding, as long as no step discards what the announcement rests on. -/

namespace NdnSvs

open Lib Lib.Tlv

namespace SVSyncCore

variable (cfg : CoreConfig)

/-- An Interest or a job with at least the number `s` for the entry, or a pending batch event. -/
def Announced (nid : NodeID) (b : BootstrapTime) (s : SeqNo) (c : SVSyncCore) : Prop :=
  (∃ interest ∈ c.sent, ∃ vv, Carries cfg vv interest ∧ s ≤ vv.get nid b) ∨
    c.publicationSyncPending ∨ ∃ job ∈ c.production, s ≤ job.localVector.get nid b

/-- The result of the job is dropped: the state has changed since the job was made, and the worker
has not called the extra-block callback. -/
def IsStale (c : SVSyncCore) (job : SyncProductionJob) : Prop :=
  c.stateGeneration ≠ job.stateGeneration ∧
    ¬(c.parallelSyncProductionExtraBlock ∧ cfg.getExtraBlocks)

instance (c : SVSyncCore) (job : SyncProductionJob) : Decidable (IsStale cfg c job) := by
  unfold IsStale
  infer_instance

/-- A batch event that is cancelled, a stale result and the jobs of workers that are turned off are
not what the announcement of the entry rests on. -/
def Spares (nid : NodeID) (b : BootstrapTime) (s : SeqNo) (c : SVSyncCore) : Occurrence → Prop
  | (.setSyncInterestBatching false, _) =>
    Announced cfg nid b s { c with publicationSyncPending := false }
  | (.setParallelSyncProduction false _ _, _) => Announced cfg nid b s { c with production := [] }
  | (.productionResult index, _) => ∀ job, c.production[index]? = some job → IsStale cfg c job →
    Announced cfg nid b s { c with production := c.production.eraseIdx index }
  | _ => True

/-- No send, signing or encoding fails in the announcement of an update or in a worker's job. -/
def Succeeds (c : SVSyncCore) : Occurrence → Prop
  | (.updateSeqNo seq b nid, env) =>
    c.vv.get (targetNode cfg nid) b < seq → ¬c.syncInterestBatching →
      (({ c.assigned cfg seq b nid with recordedVv := none } :
        SVSyncCore).sendSyncInterest cfg env).2.isOk
  | (.publicationBatch, env) =>
    (({ c with publicationSyncPending := false, recordedVv := none } :
      SVSyncCore).sendSyncInterest cfg env).2.isOk
  | (.productionResult index, env) =>
    match c.production[index]? with
    | none => True
    | some job =>
      let c := { c with production := c.production.eraseIdx index }
      (c.produce cfg env job).isOk ∧ (c.processSyncProductionResult cfg env job).2.isOk
  | _ => True

instance (c : SVSyncCore) (o : Occurrence) : Decidable (Succeeds cfg c o) := by
  obtain ⟨event, env⟩ := o
  unfold Succeeds
  rcases event
  case productionResult index =>
    dsimp only
    generalize c.production[index]? = job
    rcases job <;> infer_instance
  all_goals infer_instance

/-- What has been sent, queued or scheduled stays so. -/
structure Extends (c c' : SVSyncCore) : Prop where
  sent : c.sent <+: c'.sent
  production : c.production <+: c'.production
  pending : c.publicationSyncPending → c'.publicationSyncPending
  initialized : c.initialized → c'.initialized

variable {cfg} {env : CoreInputs} {c c' c'' : SVSyncCore} {nid : NodeID} {b : BootstrapTime}
  {s : SeqNo}

theorem Extends.refl (c : SVSyncCore) : Extends c c :=
  ⟨List.prefix_refl _, List.prefix_refl _, id, id⟩

theorem Extends.trans (h : Extends c c') (h' : Extends c' c'') : Extends c c'' :=
  ⟨h.sent.trans h'.sent, h.production.trans h'.production, h'.pending ∘ h.pending,
    h'.initialized ∘ h.initialized⟩

theorem Announced.extends (h : Announced cfg nid b s c) (hc : Extends c c') :
    Announced cfg nid b s c' := by
  rcases h with ⟨interest, hmem, hcarries⟩ | hpending | ⟨job, hmem, hle⟩
  · exact .inl ⟨interest, hc.sent.subset hmem, hcarries⟩
  · exact .inr (.inl (hc.pending hpending))
  · exact .inr (.inr ⟨job, hc.production.subset hmem, hle⟩)

/-! ### Handlers -/

variable (cfg env) in
theorem sendSyncInterest_extends (c : SVSyncCore) : Extends c (c.sendSyncInterest cfg env).1 := by
  have hemits := sendSyncInterest_emits cfg env c
  have honly := sendSyncInterest_sendsOnly cfg env c
  obtain ⟨jobs, hjobs, -⟩ := hemits.production
  obtain ⟨interests, hsent, -⟩ := hemits.sent
  refine ⟨⟨interests, hsent.symm⟩, ⟨jobs, hjobs.symm⟩, fun h => ?_, fun h => ?_⟩
  · rw [honly]
    exact h
  · rw [honly]
    exact h

theorem scheduleRetx_extends (c : SVSyncCore) (delay : Nat) :
    Extends c (c.scheduleRetx env delay) :=
  ⟨List.prefix_refl _, List.prefix_refl _, id, id⟩

variable (cfg env) in
theorem sendUnlessSuppressed_extends (c : SVSyncCore) :
    Extends c (c.sendUnlessSuppressed cfg env).1 := by
  unfold sendUnlessSuppressed
  split
  · exact sendSyncInterest_extends _ _ c
  · rename_i recorded _
    have hmerge : Extends c (c.mergeStateVector recorded).1 :=
      ⟨List.prefix_refl _, List.prefix_refl _, id, id⟩
    simp only
    split
    · exact hmerge.trans (sendSyncInterest_extends _ _ _)
    · exact hmerge

theorem retxSyncInterest_extends (c : SVSyncCore) (delay : Nat) :
    Extends c (c.retxSyncInterest cfg env true delay).1 := by
  have hsend := sendUnlessSuppressed_extends cfg env c
  have hdrop : ∀ c : SVSyncCore, Extends c { c with recordedVv := none } := fun c =>
    ⟨List.prefix_refl _, List.prefix_refl _, id, id⟩
  rcases retxSyncInterest_cases cfg env c delay with ⟨-, hretx⟩ | ⟨-, hretx⟩
  · rw [hretx]
    exact hsend
  · rw [hretx]
    exact (hsend.trans (hdrop _)).trans (scheduleRetx_extends _ _)

theorem sendLocalPublicationSyncInterest_extends (c : SVSyncCore) :
    Extends c (c.sendLocalPublicationSyncInterest cfg env) := by
  have hdrop : Extends c { c with recordedVv := none } :=
    ⟨List.prefix_refl _, List.prefix_refl _, id, id⟩
  have hsend := hdrop.trans (sendSyncInterest_extends cfg env _)
  rcases sendLocalPublicationSyncInterest_cases cfg env c with ⟨-, hlocal⟩ | ⟨-, hlocal⟩
  · rw [hlocal]
    exact hsend
  · rw [hlocal]
    exact hsend.trans (scheduleRetx_extends _ _)

theorem receipt_extends (hc : c.Snapshots) {e : Event} (he : e.isReceipt)
    (hstep : c.step cfg env e = some c') : Extends c c' := by
  cases hreceives : c.receives cfg (e, env) with
  | none =>
    rw [step_unreceived he hstep hreceives]
    exact ⟨List.prefix_refl _, List.prefix_refl _, id, id⟩
  | some envelope =>
    obtain ⟨-, hreports⟩ := step_receives hc hstep hreceives
    have hdequeue : Extends c (c.dequeue e) := by
      cases e <;> exact ⟨List.prefix_refl _, List.prefix_refl _, id, id⟩
    refine hdequeue.trans ⟨?_, ?_, fun h => ?_, fun h => ?_⟩
    · exact hreports.sent ▸ List.prefix_refl _
    · exact hreports.production ▸ List.prefix_refl _
    · rw [hreports.publicationSyncPending]
      exact h
    · rw [hreports.initialized]
      exact h

theorem updateSeqNo_extends (c : SVSyncCore) (seq : SeqNo) (b : BootstrapTime) (nid : NodeID) :
    Extends c (c.updateSeqNo cfg env seq b nid).1 := by
  by_cases hseq : seq = 0
  · rw [hseq, updateSeqNo_zero]
    exact .refl c
  · simp only [updateSeqNo, VersionVector.set, if_neg hseq]
    split
    · have hset : Extends c { c with
          vv := c.vv.put (targetNode cfg nid) b seq
          stateGeneration := c.stateGeneration + 1 } :=
        ⟨List.prefix_refl _, List.prefix_refl _, id, id⟩
      split
      · exact ⟨List.prefix_refl _, List.prefix_refl _, fun _ => rfl, id⟩
      · exact hset.trans (sendLocalPublicationSyncInterest_extends _)
    · exact ⟨List.prefix_refl _, List.prefix_refl _, id, id⟩

/-! ### Sending what is announced -/

/-- A send that succeeds leaves an Interest or a job with the vector. -/
theorem sendSyncInterest_announces (hinit : c.initialized) (hle : s ≤ c.vv.get nid b)
    (hok : (c.sendSyncInterest cfg env).2.isOk) :
    Announced cfg nid b s (c.sendSyncInterest cfg env).1 := by
  rcases sendSyncInterest_puts hinit hok with ⟨interest, hcarries, hsent, -⟩ |
    ⟨job, hvector, -, hproduction⟩
  · refine .inl ⟨interest, ?_, c.vv, hcarries, hle⟩
    rw [hsent]
    exact List.mem_append_right _ List.mem_cons_self
  · refine .inr (.inr ⟨job, ?_, hvector ▸ hle⟩)
    rw [hproduction]
    exact List.mem_append_right _ List.mem_cons_self

theorem sendLocalPublicationSyncInterest_announces (hinit : c.initialized)
    (hle : s ≤ c.vv.get nid b)
    (hok : (({ c with recordedVv := none } : SVSyncCore).sendSyncInterest cfg env).2.isOk) :
    Announced cfg nid b s (c.sendLocalPublicationSyncInterest cfg env) := by
  have hsend := @sendSyncInterest_announces cfg env { c with recordedVv := none } nid b s
    hinit hle hok
  rcases sendLocalPublicationSyncInterest_cases cfg env c with ⟨⟨e, he⟩, -⟩ | ⟨-, hlocal⟩
  · rw [he] at hok
    cases hok
  · rw [hlocal]
    exact hsend.extends (scheduleRetx_extends _ _)

theorem processSyncProductionResult_stale {job : SyncProductionJob} (h : IsStale cfg c job) :
    (c.processSyncProductionResult cfg env job).1 = c := by
  unfold processSyncProductionResult
  split
  · rfl
  · rw [IsStale] at h
    rw [if_pos h]

/-- A result that is neither dropped nor failed is sent. -/
theorem processSyncProductionResult_sends {job : SyncProductionJob} (h : ¬IsStale cfg c job)
    (hproduce : (c.produce cfg env job).isOk)
    (hok : (c.processSyncProductionResult cfg env job).2.isOk) :
    ∃ interest, Carries cfg job.localVector interest ∧
      (c.processSyncProductionResult cfg env job).1 = { c with sent := c.sent ++ [interest] } := by
  obtain ⟨result, hresult⟩ : ∃ result, c.produce cfg env job = .ok result := by
    cases h : c.produce cfg env job with
    | error e =>
      rw [h] at hproduce
      cases hproduce
    | ok result => exact ⟨result, rfl⟩
  rw [processSyncProductionResult, hresult] at hok ⊢
  simp only at hok ⊢
  rw [IsStale] at h
  rw [if_neg h] at hok ⊢
  split at hok
  · cases hok
  · rename_i interest hcomplete
    obtain ⟨extensions, -, hencode⟩ := produce_complete hresult hcomplete
    unfold expressInterest at hok ⊢
    split at hok
    · rename_i haccepts
      rw [if_pos haccepts]
      exact ⟨interest, ⟨haccepts.2, env, extensions, hencode⟩, rfl⟩
    · cases hok

theorem updateSeqNo_announces {seq : SeqNo} (hinit : c.initialized)
    (hraises : c.vv.get (targetNode cfg nid) b < seq)
    (hok : Succeeds cfg c (.updateSeqNo seq b nid, env)) :
    Announced cfg (targetNode cfg nid) b seq (c.updateSeqNo cfg env seq b nid).1 := by
  have hseq : seq ≠ 0 := Nat.ne_of_gt (Nat.zero_lt_of_lt hraises)
  simp only [updateSeqNo, VersionVector.set, if_neg hseq, if_pos hraises]
  split
  · exact .inr (.inl rfl)
  · rename_i hbatching
    have hsent := hok hraises hbatching
    simp only [assigned, if_pos hraises] at hsent
    refine sendLocalPublicationSyncInterest_announces hinit ?_ hsent
    exact Nat.le_of_eq (VersionVector.get_put_self _ _ _ _).symm

/-! ### Runs -/

/-- An event that may discard a batch event or a job. -/
def Event.discards : Event → Bool
  | .publicationBatch | .productionResult _ | .setSyncInterestBatching false
  | .setParallelSyncProduction false _ _ => true
  | _ => false

theorem step_extends (hc : c.Snapshots) {e : Event} (he : ¬e.discards)
    (hstep : c.step cfg env e = some c') : Extends c c' := by
  by_cases hreceipt : e.isReceipt
  · exact receipt_extends hc hreceipt hstep
  · cases e with
    | initialInterest =>
      obtain rfl := Option.some.inj hstep
      have hinit : Extends c { c with initialized := true } :=
        ⟨List.prefix_refl _, List.prefix_refl _, id, fun _ => rfl⟩
      exact hinit.trans (retxSyncInterest_extends _ 0)
    | retransmission =>
      obtain ⟨-, rfl⟩ := step_retransmission.mp hstep
      have hevent : Extends c { c with retxEvent := none } :=
        ⟨List.prefix_refl _, List.prefix_refl _, id, id⟩
      exact hevent.trans (retxSyncInterest_extends _ 0)
    | updateSeqNo seq b nid =>
      obtain rfl := Option.some.inj hstep
      exact updateSeqNo_extends c seq b nid
    | setMaxSuppressionTime delay =>
      obtain rfl := Option.some.inj hstep
      exact ⟨List.prefix_refl _, List.prefix_refl _, id, id⟩
    | setParallelSyncProcessing enabled =>
      obtain rfl := Option.some.inj hstep
      exact ⟨List.prefix_refl _, List.prefix_refl _, id, id⟩
    | setSyncInterestBatching enabled =>
      obtain rfl := Option.some.inj hstep
      cases enabled with
      | true => exact ⟨List.prefix_refl _, List.prefix_refl _, id, id⟩
      | false => exact absurd rfl he
    | setParallelSyncProduction enabled signInWorker buildExtraBlockInWorker =>
      obtain rfl := Option.some.inj hstep
      cases enabled with
      | true => exact ⟨List.prefix_refl _, List.prefix_refl _, id, id⟩
      | false => exact absurd rfl he
    | publicationBatch => exact absurd rfl he
    | productionResult index => exact absurd rfl he
    | _ => exact absurd rfl hreceipt

theorem step_initialized (hc : c.Snapshots) {e : Event} (hinit : c.initialized)
    (hstep : c.step cfg env e = some c') : c'.initialized := by
  by_cases he : e.discards
  · cases e with
    | publicationBatch =>
      obtain ⟨-, rfl⟩ := step_publicationBatch.mp hstep
      exact (sendLocalPublicationSyncInterest_extends
        { c with publicationSyncPending := false }).initialized hinit
    | productionResult index =>
      obtain ⟨job, -, rfl⟩ := step_productionResult.mp hstep
      rw [processSyncProductionResult_sendsOnly cfg env
        { c with production := c.production.eraseIdx index } job]
      exact hinit
    | setSyncInterestBatching enabled =>
      obtain rfl := Option.some.inj hstep
      exact hinit
    | setParallelSyncProduction enabled signInWorker buildExtraBlockInWorker =>
      obtain rfl := Option.some.inj hstep
      exact hinit
    | _ => cases he
  · exact (step_extends hc he hstep).initialized hinit

/-- A job leaves the queue; what is announced without it stays announced, and a result that is sent
announces what the job did. -/
theorem productionResult_announced {index : Nat}
    (hok : Succeeds cfg c (.productionResult index, env))
    (h : Announced cfg nid b s c) (hstep : c.step cfg env (.productionResult index) = some c') :
    Announced cfg nid b s c' ↔ Spares cfg nid b s c (.productionResult index, env) := by
  obtain ⟨job, hindex, rfl⟩ := step_productionResult.mp hstep
  simp only [Succeeds, hindex] at hok
  obtain ⟨hproduce, hsent⟩ := hok
  have hspares : Spares cfg nid b s c (.productionResult index, env) ↔
      (IsStale cfg c job →
        Announced cfg nid b s { c with production := c.production.eraseIdx index }) := by
    simp only [Spares, hindex, Option.some.injEq]
    exact ⟨fun h => h job rfl, fun h job' heq => heq ▸ h⟩
  rw [hspares]
  by_cases hstale : IsStale cfg c job
  · rw [processSyncProductionResult_stale
      (c := { c with production := c.production.eraseIdx index }) hstale]
    exact ⟨fun h _ => h, fun h => h hstale⟩
  · refine ⟨fun _ h => absurd h hstale, fun _ => ?_⟩
    obtain ⟨interest, hcarries, heq⟩ := processSyncProductionResult_sends
      (c := { c with production := c.production.eraseIdx index }) hstale hproduce hsent
    rw [heq]
    rcases h with ⟨sent, hmem, hcarries⟩ | hpending | ⟨job', hmem, hle⟩
    · exact .inl ⟨sent, List.mem_append_left _ hmem, hcarries⟩
    · exact .inr (.inl hpending)
    · have hsplit : job' = job ∨ job' ∈ c.production.eraseIdx index := by
        obtain ⟨hlt, rfl⟩ := List.getElem?_eq_some_iff.mp hindex
        exact List.mem_cons.mp ((List.getElem_cons_eraseIdx_perm hlt).mem_iff.mpr hmem)
      rcases hsplit with rfl | hkept
      · exact .inl ⟨interest, List.mem_append_right _ List.mem_cons_self, _, hcarries, hle⟩
      · exact .inr (.inr ⟨job', hkept, hle⟩)

/-- A step keeps the announcement exactly when what it discards is not what it rests on. -/
theorem step_announced (hc : c.Snapshots) (hinit : c.initialized) (hle : s ≤ c.vv.get nid b)
    {o : Occurrence} (hok : Succeeds cfg c o) (h : Announced cfg nid b s c)
    (hstep : c.next cfg o = some c') : Announced cfg nid b s c' ↔ Spares cfg nid b s c o := by
  obtain ⟨e, env⟩ := o
  by_cases he : e.discards
  · cases e with
    | publicationBatch =>
      simp only [next, step] at hstep
      split at hstep
      · obtain rfl := Option.some.inj hstep
        refine ⟨fun _ => trivial, fun _ => ?_⟩
        exact sendLocalPublicationSyncInterest_announces
          (c := { c with publicationSyncPending := false }) hinit hle hok
      · cases hstep
    | productionResult index => exact productionResult_announced hok h hstep
    | setSyncInterestBatching enabled =>
      cases enabled with
      | true => cases he
      | false =>
        obtain rfl := Option.some.inj hstep
        exact Iff.rfl
    | setParallelSyncProduction enabled signInWorker buildExtraBlockInWorker =>
      cases enabled with
      | true => cases he
      | false =>
        obtain rfl := Option.some.inj hstep
        exact Iff.rfl
    | _ => cases he
  · have hspares : Spares cfg nid b s c (e, env) := by
      cases e with
      | productionResult index => exact absurd rfl he
      | setSyncInterestBatching enabled =>
        cases enabled with
        | true => trivial
        | false => exact absurd rfl he
      | setParallelSyncProduction enabled signInWorker buildExtraBlockInWorker =>
        cases enabled with
        | true => trivial
        | false => exact absurd rfl he
      | _ => trivial
    exact ⟨fun _ => hspares, fun _ => h.extends (step_extends hc he hstep)⟩

theorem spares_of_impossible {o : Occurrence} (hstep : c.next cfg o = none) :
    Spares cfg nid b s c o := by
  obtain ⟨e, env⟩ := o
  cases e with
  | productionResult index =>
    intro job hindex
    simp [next, step, hindex] at hstep
  | setSyncInterestBatching enabled => cases hstep
  | setParallelSyncProduction enabled signInWorker buildExtraBlockInWorker => cases hstep
  | _ => trivial

/-- After initialization, from a call that raises an entry on and without failures, the update stays
announced in every state reached exactly when each step of the run spares what the announcement
rests on. -/
theorem announcement_stays {c₀ c₁ : SVSyncCore} {before after : List Occurrence} (h₀ : c₀.Sound)
    (hrun : run (next cfg) c₀ before = some c) (hinit : c.initialized)
    (hraises : c.vv.get (targetNode cfg nid) b < s)
    (hcall : c.next cfg (.updateSeqNo s b nid, env) = some c₁)
    (hlow : Along (next cfg) (NeverLowers cfg) c₀ (before ++ (.updateSeqNo s b nid, env) :: after))
    (hok : Along (next cfg) (Succeeds cfg) c ((.updateSeqNo s b nid, env) :: after)) :
    Throughout (next cfg) (Announced cfg (targetNode cfg nid) b s) c₁ after ↔
      Along (next cfg) (Spares cfg (targetNode cfg nid) b s) c₁ after := by
  obtain ⟨hbefore, hlater⟩ := along_append.mp hlow
  obtain ⟨hcallLow, hafter⟩ := along_cons.mp (hlater c hrun)
  obtain ⟨hcallOk, hafterOk⟩ := along_cons.mp hok
  have hsound : c.Sound := run_invariant_along
    (fun c o c' hstep hok hc => step_sound hc hok hstep) h₀ hbefore hrun
  have hsound₁ := step_sound hsound hcallLow hcall
  have hinit₁ := step_initialized hsound.snapshots hinit hcall
  have hannounced : Announced cfg (targetNode cfg nid) b s c₁ := by
    obtain rfl := Option.some.inj hcall
    exact updateSeqNo_announces hinit hraises hcallOk
  have hle : s ≤ c₁.vv.get (targetNode cfg nid) b := by
    have hseq : s ≠ 0 := Nat.ne_of_gt (Nat.zero_lt_of_lt hraises)
    obtain rfl := Option.some.inj hcall
    rw [(updateSeqNo_rests hseq b nid).vv, assigned, VersionVector.get_put_self]
  refine throughout_iff_along
    (I := fun c => c.Sound ∧ c.initialized ∧ s ≤ c.vv.get (targetNode cfg nid) b)
    (fun c o c' hstep hok hI => ?_) (fun c o c' hstep hok hI hP => ?_)
    (fun c o hnone => spares_of_impossible hnone) ⟨hsound₁, hinit₁, hle⟩ hannounced
    ((hafter c₁ hcall).and (hafterOk c₁ hcall))
  · obtain ⟨hsound, hinit, hle⟩ := hI
    exact ⟨step_sound hsound hok.1 hstep, step_initialized hsound.snapshots hinit hstep,
      hle.trans (step_le hsound hok.1 hstep _ _)⟩
  · exact step_announced hI.1.snapshots hI.2.1 hI.2.2 hok.2 hP hstep

/-- A core that has sent its first Interest and batches its announcements. -/
def batchingRun : List Occurrence :=
  [(.setParallelSyncProduction true false false, sampleInputs), (.initialInterest, sampleInputs),
    (.setSyncInterestBatching true, sampleInputs)]

def sampleUpdate : Occurrence := (.updateSeqNo 1 100 [], sampleInputs)

theorem announcement_stays_batched :
    let c := (run (next sampleConfig) {} batchingRun).get (by decide +kernel)
    let c₁ := (c.next sampleConfig sampleUpdate).get (by decide +kernel)
    let after := [(.publicationBatch, sampleInputs), (.productionResult 1, sampleInputs)]
    Throughout (next sampleConfig) (Announced sampleConfig (Name.ofStrings ["a"]) 100 1) c₁ after ↔
      Along (next sampleConfig) (Spares sampleConfig (Name.ofStrings ["a"]) 100 1) c₁ after :=
  @announcement_stays sampleConfig _ _ [] _ _ _ _ batchingRun _
    ⟨fun job hjob => absurd hjob List.not_mem_nil, fun r hr => (by cases hr)⟩
    (Option.some_get _).symm (by decide +kernel) (by decide +kernel) (Option.some_get _).symm
    (by decide +kernel) (by decide +kernel)

theorem batching_off_loses : ∃ c c₁ c₂, run (next sampleConfig) {} batchingRun = some c ∧
    c.initialized ∧ c.vv.get (Name.ofStrings ["a"]) 100 < 1 ∧
    c.next sampleConfig sampleUpdate = some c₁ ∧
    c₁.next sampleConfig (.setSyncInterestBatching false, sampleInputs) = some c₂ ∧
    Along (next sampleConfig) (Succeeds sampleConfig) c
      [sampleUpdate, (.setSyncInterestBatching false, sampleInputs)] ∧
    ¬Announced sampleConfig (Name.ofStrings ["a"]) 100 1 c₂ := by
  let c := (run (next sampleConfig) {} batchingRun).get (by decide +kernel)
  let c₁ := (c.next sampleConfig sampleUpdate).get (by decide +kernel)
  let c₂ := (c₁.next sampleConfig (.setSyncInterestBatching false, sampleInputs)).get
    (by decide +kernel)
  have hsent : c₂.sent = [] := by decide +kernel
  have hpending : c₂.publicationSyncPending = false := by decide +kernel
  have hjobs : ∀ job ∈ c₂.production, ¬1 ≤ job.localVector.get (Name.ofStrings ["a"]) 100 := by
    decide +kernel
  refine ⟨c, c₁, c₂, (Option.some_get _).symm, by decide +kernel, by decide +kernel,
    (Option.some_get _).symm, (Option.some_get _).symm, by decide +kernel, ?_⟩
  rintro (⟨interest, hmem, -⟩ | h | ⟨job, hmem, hle⟩)
  · rw [hsent] at hmem
    cases hmem
  · rw [hpending] at h
    cases h
  · exact hjobs job hmem hle

end SVSyncCore

end NdnSvs
