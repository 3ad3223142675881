import NdnSvs.Suppression

/-! The serial and the parallel receive paths agree.  Whatever the workers do, the vector is the
pointwise maximum of what the core has taken in, each accepted Interest is processed once, and the
ranges reported for an entry that no local call sets follow each other without a gap. -/

namespace NdnSvs

open Lib Lib.Tlv

namespace SVSyncCore

/-- The largest number that local calls have set for an entry. -/
def latestUpdate (updates : List VersionVector.Entry) (nid : NodeID) (b : BootstrapTime) : SeqNo :=
  largest ((updates.filter fun e => e.nid = nid ∧ e.bootstrapTime = b).map (·.seqNo))

theorem latestUpdate_append (us us' : List VersionVector.Entry) (nid : NodeID) (b : BootstrapTime) :
    latestUpdate (us ++ us') nid b = max (latestUpdate us nid b) (latestUpdate us' nid b) := by
  simp [latestUpdate, largest_append]

theorem latestUpdate_singleton (e : VersionVector.Entry) (nid : NodeID) (b : BootstrapTime) :
    latestUpdate [e] nid b = if e.nid = nid ∧ e.bootstrapTime = b then e.seqNo else 0 := by
  by_cases hkey : e.nid = nid ∧ e.bootstrapTime = b <;> simp [latestUpdate, hkey]

/-- What some envelopes have for an entry at most. -/
def latestReceived (received : List DecodedSyncEnvelope) (nid : NodeID)
    (b : BootstrapTime) : SeqNo :=
  largestOf (received.map (·.stateVector)) nid b

theorem latestReceived_append (es : List DecodedSyncEnvelope) (envelope : DecodedSyncEnvelope)
    (nid : NodeID) (b : BootstrapTime) : latestReceived (es ++ [envelope]) nid b =
      max (latestReceived es nid b) (envelope.stateVector.get nid b) := by
  rw [latestReceived, List.map_append, largestOf_append]
  congr 1

/-- No local call has set the entry. -/
def NotUpdated (updates : List VersionVector.Entry) (nid : NodeID) (b : BootstrapTime) : Prop :=
  ∀ e ∈ updates, ¬(e.nid = nid ∧ e.bootstrapTime = b)

/-- The state of a core that began as `c₀`, in terms of the notes on its run. -/
structure Accounts (c₀ c : SVSyncCore) (n : Notes) : Prop where
  sound : c.Sound
  queue : n.admitted.Perm (n.processed ++ c.queued)
  get : ∀ nid b, c.vv.get nid b = max (c₀.vv.get nid b)
    (max (latestUpdate n.updates nid b) (latestReceived n.received nid b))
  ranges : ∀ nid b, NotUpdated n.updates nid b →
    Contiguous (c₀.vv.get nid b) (Upcall.rangesOf nid b c.upcalls) (c.vv.get nid b)

variable {cfg : CoreConfig} {env : CoreInputs} {c c' c₀ : SVSyncCore} {n n' : Notes}

theorem Fresh.accounts (h : c₀.Fresh) : Accounts c₀ c₀ {} := by
  refine ⟨h.sound, ?_, fun nid b => ?_, fun nid b _ => ?_⟩
  · simp [queued, h.processing]
  · simp [latestUpdate, latestReceived, largestOf]
  · rw [h.upcalls]
    rfl

theorem note_updates_of_receives {e : Event} {c' : SVSyncCore} {envelope : DecodedSyncEnvelope}
    (h : c.receives cfg (e, env) = some envelope) :
    (note cfg n c (e, env) c').updates = n.updates := by
  cases e with
  | updateSeqNo seq b nid =>
    rw [receives_update] at h
    cases h
  | _ => simp [note, Event.assigns]

theorem note_updates_of_not_update {e : Event} {c' : SVSyncCore} (h : ¬e.isUpdate) :
    (note cfg n c (e, env) c').updates = n.updates := by
  cases e with
  | updateSeqNo seq b nid => exact absurd rfl h
  | _ => simp [note, Event.assigns]

/-- Every accepted Interest has been processed or waits, and not both. -/
theorem step_accounts_queue (h : Accounts c₀ c n) {o : Occurrence} (hkeeps : KeepsJobs c o)
    (hstep : c.next cfg o = some c') :
    (note cfg n c o c').admitted.Perm ((note cfg n c o c').processed ++ c'.queued) := by
  obtain ⟨e, env⟩ := o
  have hqueue := step_queue h.sound.snapshots h.sound.recordedLE
    (fun heq => by
      subst heq
      exact hkeeps) hstep
  have hadmitted := h.queue.append_right (c.admits cfg (e, env)).toList
  rw [List.append_assoc] at hadmitted
  have hprocessed := hadmitted.trans (hqueue.append_left n.processed)
  rwa [← List.append_assoc] at hprocessed

/-- The entries and the reports after an envelope has been taken in. -/
theorem step_accounts_receives (h : Accounts c₀ c n) {e : Event} {envelope : DecodedSyncEnvelope}
    (hstep : c.step cfg env e = some c') (hreceives : c.receives cfg (e, env) = some envelope)
    (nid : NodeID) (b : BootstrapTime) :
    c'.vv.get nid b = max (c₀.vv.get nid b) (max (latestUpdate n.updates nid b)
      (latestReceived (n.received ++ [envelope]) nid b)) ∧
    (NotUpdated n.updates nid b →
      Contiguous (c₀.vv.get nid b) (Upcall.rangesOf nid b c'.upcalls) (c'.vv.get nid b)) := by
  obtain ⟨habsorbs, hreports⟩ := step_receives h.sound.snapshots hstep hreceives
  refine ⟨?_, fun hnot => ?_⟩
  · rw [habsorbs.get, dequeue_vv, h.get, latestReceived_append, max_assoc, max_assoc]
  · obtain ⟨missing, incomingFace, hupcalls, hranges⟩ := hreports.upcalls
    rw [hupcalls, dequeue_upcalls, Upcall.rangesOf_append, rangesOf_upcallsFor]
    have hmissing := hranges nid b
    rw [dequeue_vv] at hmissing
    exact (h.ranges nid b hnot).append hmissing

/-- The entries after a local call, which does not lower its entry. -/
theorem step_accounts_update (h : Accounts c₀ c n) {seq : SeqNo} {b' : BootstrapTime}
    {nid' : NodeID} (hle : c.vv.get (targetNode cfg nid') b' ≤ seq) (nid : NodeID)
    (b : BootstrapTime) :
    (c.assigned cfg seq b' nid').vv.get nid b = max (c₀.vv.get nid b)
      (max (latestUpdate (n.updates ++ [⟨targetNode cfg nid', b', seq⟩]) nid b)
        (latestReceived n.received nid b)) := by
  have hget := h.get nid b
  rw [latestUpdate_append, latestUpdate_singleton, assigned, VersionVector.get_put]
  split
  · rename_i hkey
    obtain ⟨rfl, rfl⟩ := hkey
    lia
  · lia

theorem step_accounts (h : Accounts c₀ c n) {o : Occurrence}
    (hok : NeverLowers cfg c o) (hkeeps : KeepsJobs c o) (hstep : c.next cfg o = some c') :
    Accounts c₀ c' (note cfg n c o c') := by
  obtain ⟨e, env⟩ := o
  have hsound := step_sound h.sound hok hstep
  have hqueue := step_accounts_queue h hkeeps hstep
  cases hreceives : c.receives cfg (e, env) with
  | some envelope =>
    have hreceived : (note cfg n c (e, env) c').received = n.received ++ [envelope] := by
      simp [note, hreceives]
    refine ⟨hsound, hqueue, fun nid b => ?_, fun nid b hnot => ?_⟩
    · rw [hreceived, note_updates_of_receives hreceives]
      exact (step_accounts_receives h hstep hreceives nid b).1
    · rw [note_updates_of_receives hreceives] at hnot
      exact (step_accounts_receives h hstep hreceives nid b).2 hnot
  | none =>
    have hreceived : (note cfg n c (e, env) c').received = n.received := by simp [note, hreceives]
    by_cases he : e.isUpdate
    · obtain ⟨seq, b', nid', rfl⟩ := isUpdate_iff.mp he
      obtain rfl := Option.some.inj hstep
      by_cases hseq : seq = 0
      · have hupdates : ∀ c', (note cfg n c (.updateSeqNo seq b' nid', env) c').updates =
            n.updates := fun c' => by simp [note, Event.assigns, hseq]
        have hsame : (c.updateSeqNo cfg env seq b' nid').1 = c := by rw [hseq, updateSeqNo_zero]
        refine ⟨hsound, hqueue, fun nid b => ?_, fun nid b hnot => ?_⟩
        · rw [hreceived, hupdates, hsame]
          exact h.get nid b
        · rw [hupdates] at hnot
          rw [hsame]
          exact h.ranges nid b hnot
      · have hupdates : ∀ c', (note cfg n c (.updateSeqNo seq b' nid', env) c').updates =
            n.updates ++ [⟨targetNode cfg nid', b', seq⟩] := fun c' => by
          simp [note, Event.assigns, hseq]
        have hrests := @updateSeqNo_rests cfg env c _ hseq b' nid'
        refine ⟨hsound, hqueue, fun nid b => ?_, fun nid b hnot => ?_⟩
        · rw [hreceived, hupdates, hrests.vv]
          exact step_accounts_update h (hok.resolve_left hseq) nid b
        · rw [hupdates] at hnot
          have hother := hnot _ (List.mem_append_right _ List.mem_cons_self)
          rw [hrests.upcalls, hrests.vv]
          simp only [assigned]
          rw [VersionVector.get_put_ne hother]
          exact h.ranges nid b fun e he => hnot e (List.mem_append_left _ he)
    · obtain ⟨hvv, -, hupcalls, -⟩ := step_rests h.sound.recordedLE he hstep hreceives
      have hupdates := @note_updates_of_not_update cfg env c n _ c' he
      refine ⟨hsound, hqueue, fun nid b => ?_, fun nid b hnot => ?_⟩
      · rw [hreceived, hupdates, hvv]
        exact h.get nid b
      · rw [hupdates] at hnot
        rw [hupcalls, hvv]
        exact h.ranges nid b hnot

theorem run_accounts {os : List Occurrence} (h₀ : c₀.Fresh)
    (hok : Along (next cfg) (fun c o => NeverLowers cfg c o ∧ KeepsJobs c o) c₀ os)
    (hrun : run (noted cfg) (c₀, {}) os = some (c, n)) : Accounts c₀ c n :=
  run_invariant_along (P := fun p : SVSyncCore × Notes => Accounts c₀ p.1 p.2)
    (fun p o p' hstep hok hp => by
      obtain ⟨hstep, hnote⟩ := noting_eq_some.mp hstep
      rw [hnote]
      exact step_accounts hp hok.1 hok.2 hstep) h₀.accounts (hok.noting {}) hrun

/-- Once all results are processed, each accepted Interest has been processed once, the vector is
the pointwise maximum of the initial one, the local updates and the vectors of the accepted
Interests, and the ranges reported for an entry without local updates contain each number from the
initial entry, exclusive, to the final one once and in order. -/
theorem parallel_agrees_with_serial {os : List Occurrence} (h₀ : c₀.Fresh)
    (hok : Along (next cfg) (fun c o => NeverLowers cfg c o ∧ KeepsJobs c o) c₀ os)
    (hrun : run (noted cfg) (c₀, {}) os = some (c, n)) (hdone : c.processing = []) :
    n.processed.Perm n.admitted ∧
    (∀ nid b, c.vv.get nid b = max (c₀.vv.get nid b)
      (max (latestUpdate n.updates nid b) (latestReceived n.received nid b))) ∧
    ∀ nid b, NotUpdated n.updates nid b →
      let ranges := Upcall.rangesOf nid b c.upcalls
      Contiguous (c₀.vv.get nid b) ranges (c.vv.get nid b) ∧
      ranges.flatMap numbers =
        List.range' (c₀.vv.get nid b + 1) (c.vv.get nid b - c₀.vv.get nid b) := by
  have h := run_accounts h₀ hok hrun
  refine ⟨?_, h.get, fun nid b hnot => ⟨h.ranges nid b hnot, (h.ranges nid b hnot).numbers_eq⟩⟩
  have hqueue := h.queue
  rw [queued, hdone, List.map_nil, List.append_nil] at hqueue
  exact hqueue.symm

/-- Two Interests go to the workers; the result of the second is posted first, and a local update
makes the other one stale. -/
def overtakingRun : List Occurrence :=
  [(.setParallelSyncProcessing true, sampleInputs),
    (.interest (carrying sampleConfig (sampleVector 2) []), sampleInputs),
    (.interest (carrying sampleConfig (sampleVector 3) []), sampleInputs),
    (.processingResult 1, sampleInputs), (.updateSeqNo 1 100 [], sampleInputs),
    (.processingResult 0, sampleInputs)]

theorem parallel_agrees_with_serial_overtaking :
    let p := (run (noted sampleConfig) ({}, {}) overtakingRun).get (by decide +kernel)
    p.1.vv.get (Name.ofStrings ["b"]) 100 = 3 ∧ p.2.processed.Perm p.2.admitted ∧
    (∀ nid b, p.1.vv.get nid b = max (({} : SVSyncCore).vv.get nid b)
      (max (latestUpdate p.2.updates nid b) (latestReceived p.2.received nid b))) ∧
    ∀ nid b, NotUpdated p.2.updates nid b →
      let ranges := Upcall.rangesOf nid b p.1.upcalls
      Contiguous (({} : SVSyncCore).vv.get nid b) ranges (p.1.vv.get nid b) ∧
      ranges.flatMap numbers = List.range' (({} : SVSyncCore).vv.get nid b + 1)
        (p.1.vv.get nid b - ({} : SVSyncCore).vv.get nid b) := by
  intro p
  have hrun : run (noted sampleConfig) ({}, {}) overtakingRun = some p := (Option.some_get _).symm
  have hentry : p.1.vv.get (Name.ofStrings ["b"]) 100 = 3 := by decide +kernel
  have hdone : p.1.processing = [] := by decide +kernel
  clear_value p
  exact ⟨hentry, parallel_agrees_with_serial (by decide +kernel) (by decide +kernel) hrun hdone⟩

end SVSyncCore

end NdnSvs
