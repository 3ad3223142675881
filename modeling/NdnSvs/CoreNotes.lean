import NdnSvs.CoreHistory
import NdnSvs.Lib.Runs
import NdnSvs.PacketFormat

/-! Runs of a core with notes.  The notes say which Interests were accepted and which processed,
what these decoded to, which entries were set by local calls, and which vectors were processed since
suppression was entered. -/

namespace NdnSvs

open Lib Lib.Tlv

namespace SVSyncCore

structure Notes where
  admitted : List Interest := []
  processed : List Interest := []
  received : List DecodedSyncEnvelope := []
  updates : List VersionVector.Entry := []
  /-- The vectors processed since suppression was entered. -/
  suppressing : List VersionVector := []

variable (cfg : CoreConfig)

/-- The entry that a call of `updateSeqNo` sets, unless it throws. -/
def Event.assigns : Event → List VersionVector.Entry
  | .updateSeqNo seq b nid => if seq = 0 then [] else [⟨targetNode cfg nid, b, seq⟩]
  | _ => []

def note (n : Notes) (c : SVSyncCore) (o : Occurrence) (c' : SVSyncCore) : Notes where
  admitted := n.admitted ++ (c.admits cfg o).toList
  processed := n.processed ++ (c.processes cfg o).toList
  received := n.received ++ (c.receives cfg o).toList
  updates := n.updates ++ o.1.assigns cfg
  suppressing :=
    if c'.recordedVv.isNone then []
    else n.suppressing ++ ((c.receives cfg o).map (·.stateVector)).toList

/-- One step of a core with notes. -/
abbrev noted : SVSyncCore × Notes → Occurrence → Option (SVSyncCore × Notes) :=
  noting (next cfg) (note cfg)

/-- Local calls do not lower an entry. -/
def NeverLowers (c : SVSyncCore) : Occurrence → Prop
  | (.updateSeqNo seq b nid, _) => seq = 0 ∨ c.vv.get (targetNode cfg nid) b ≤ seq
  | _ => True

/-- The workers are not turned off while a result is outstanding. -/
def KeepsJobs (c : SVSyncCore) : Occurrence → Prop
  | (.setParallelSyncProcessing false, _) => c.processing = []
  | _ => True

instance (c : SVSyncCore) (o : Occurrence) : Decidable (NeverLowers cfg c o) := by
  obtain ⟨event, env⟩ := o
  unfold NeverLowers
  rcases event <;> infer_instance

instance (c : SVSyncCore) (o : Occurrence) : Decidable (KeepsJobs c o) := by
  obtain ⟨event, env⟩ := o
  unfold KeepsJobs
  rcases event
  case setParallelSyncProcessing on => rcases on <;> infer_instance
  all_goals infer_instance

variable {cfg} {env : CoreInputs} {c c' : SVSyncCore} {n : Notes}

/-! ### What a step keeps -/

/-- What every state of a core satisfies whose local updates lower no entry. -/
structure Sound (c : SVSyncCore) : Prop where
  snapshots : c.Snapshots
  recordedLE : c.RecordedLE

theorem isUpdate_iff {e : Event} : e.isUpdate ↔ ∃ seq b nid, e = .updateSeqNo seq b nid := by
  cases e <;> simp [Event.isUpdate]

theorem receives_update (seq : SeqNo) (b : BootstrapTime) (nid : NodeID) :
    c.receives cfg (.updateSeqNo seq b nid, env) = none := by
  simp [receives, processes, admits]

theorem assigned_le {seq : SeqNo} {b : BootstrapTime} {nid : NodeID}
    (h : c.vv.get (targetNode cfg nid) b ≤ seq) : c.vv.LE (c.assigned cfg seq b nid).vv := by
  intro nid' b'
  simp only [assigned, VersionVector.get_put]
  split
  · rename_i hkey
    obtain ⟨rfl, rfl⟩ := hkey
    exact h
  · exact le_rfl

/-- What was recorded after a merge is at most the merged vector. -/
theorem recordedAfter_le {recorded : Option VersionVector} {merged other r : VersionVector}
    (h : ∀ r, recorded = some r → r.LE merged) (hother : other.LE merged)
    (hr : recordedAfter recorded merged other = some r) : r.LE merged := by
  unfold recordedAfter at hr
  split at hr
  · rename_i r₀
    obtain rfl := Option.some.inj hr
    intro nid b
    rw [get_recordEntries]
    exact max_le (h r₀ rfl nid b) (hother nid b)
  · split at hr
    · obtain rfl := Option.some.inj hr
      exact hother
    · cases hr

theorem dequeue_recordedVv (c : SVSyncCore) (e : Event) :
    (c.dequeue e).recordedVv = c.recordedVv := by
  cases e <;> rfl

theorem dequeue_upcalls (c : SVSyncCore) (e : Event) : (c.dequeue e).upcalls = c.upcalls := by
  cases e <;> rfl

/-- A step that lowers no entry and receives no envelope drops the recorded vector or keeps it. -/
theorem step_unreceived_recorded (hc : c.RecordedLE) {e : Event}
    (hstep : c.step cfg env e = some c') (h : c.receives cfg (e, env) = none) :
    c'.recordedVv = c.recordedVv ∨ c'.recordedVv = none := by
  by_cases he : e.isUpdate
  · obtain ⟨seq, b, nid, rfl⟩ := isUpdate_iff.mp he
    obtain rfl := Option.some.inj hstep
    by_cases hseq : seq = 0
    · rw [hseq, updateSeqNo_zero]
      exact .inl rfl
    · exact (updateSeqNo_rests hseq b nid).recorded
  · exact (step_rests hc he hstep h).2.2.2

/-- No entry is lowered. -/
theorem step_le (hc : c.Sound) {e : Event} (hok : NeverLowers cfg c (e, env))
    (hstep : c.step cfg env e = some c') : c.vv.LE c'.vv := by
  cases hreceives : c.receives cfg (e, env) with
  | some envelope =>
    intro nid b
    rw [(step_receives hc.snapshots hstep hreceives).1.get, dequeue_vv]
    exact le_max_left _ _
  | none =>
    by_cases he : e.isUpdate
    · obtain ⟨seq, b, nid, rfl⟩ := isUpdate_iff.mp he
      obtain rfl := Option.some.inj hstep
      by_cases hseq : seq = 0
      · rw [hseq, updateSeqNo_zero]
        exact fun _ _ => le_rfl
      · rw [(updateSeqNo_rests hseq b nid).vv]
        exact assigned_le (hok.resolve_left hseq)
    · rw [(step_rests hc.recordedLE he hstep hreceives).1]
      exact fun _ _ => le_rfl

theorem step_recordedLE (hc : c.Sound) {e : Event} (hok : NeverLowers cfg c (e, env))
    (hstep : c.step cfg env e = some c') : c'.RecordedLE := by
  have hle := step_le hc hok hstep
  have hold : ∀ r, c.recordedVv = some r → r.LE c'.vv := fun r hr nid b =>
    (hc.recordedLE r hr nid b).trans (hle nid b)
  intro r hr
  cases hreceives : c.receives cfg (e, env) with
  | some envelope =>
    obtain ⟨habsorbs, hreports⟩ := step_receives hc.snapshots hstep hreceives
    rw [hreports.recorded, dequeue_recordedVv] at hr
    refine recordedAfter_le hold (fun nid b => ?_) hr
    rw [habsorbs.get]
    exact le_max_right _ _
  | none =>
    rcases step_unreceived_recorded hc.recordedLE hstep hreceives with hsame | hnone
    · exact hold r (hsame ▸ hr)
    · rw [hnone] at hr
      cases hr

theorem step_snapshots (hc : c.Sound) {e : Event} (hok : NeverLowers cfg c (e, env))
    (hstep : c.step cfg env e = some c') : c'.Snapshots := by
  by_cases he : e.isUpdate
  · obtain ⟨seq, b, nid, rfl⟩ := isUpdate_iff.mp he
    obtain rfl := Option.some.inj hstep
    by_cases hseq : seq = 0
    · rw [hseq, updateSeqNo_zero]
      exact hc.snapshots
    · have hrests := @updateSeqNo_rests cfg env c _ hseq b nid
      have hassigned := @assigned_snapshots cfg _ hc.snapshots _ _ _ hseq (hok.resolve_left hseq)
      intro job hjob
      rw [hrests.stateGeneration, hrests.vv]
      exact hassigned job (hrests.processing ▸ hjob)
  · obtain ⟨other, htakes⟩ := step_takes hc.snapshots hstep fun seq b nid heq =>
      he (isUpdate_iff.mpr ⟨seq, b, nid, heq⟩)
    exact htakes.snapshots hc.snapshots

theorem step_sound (hc : c.Sound) {e : Event} (hok : NeverLowers cfg c (e, env))
    (hstep : c.step cfg env e = some c') : c'.Sound :=
  ⟨step_snapshots hc hok hstep, step_recordedLE hc hok hstep⟩

/-! ### An example core -/

def sampleConfig : CoreConfig where
  cxx := packetFormat
  syncPrefix := Name.ofStrings ["g"]
  id := Name.ofStrings ["a"]
  bootstrapTime := 100
  suppressionCurve := fun _ delay => delay

def sampleInputs : CoreInputs := { clock := 1000, signData := fun _ => some [1] }

/-- The vector with one number for another node. -/
def sampleVector (seq : SeqNo) : VersionVector :=
    ({} : VersionVector).put (Name.ofStrings ["b"]) 100 seq

/-- An Interest that carries a vector, with a nameless one in place of a failure. -/
def carrying (cfg : CoreConfig) (vv : VersionVector) (extensions : List Block) : Interest :=
  match encodeSyncInterest cfg sampleInputs vv extensions with
  | .error _ => { name := [] }
  | .ok interest => interest

end SVSyncCore

end NdnSvs
