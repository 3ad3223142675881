import NdnSvs.CoreNotes

/-! Suppression.  The recorded vector is the pointwise maximum of the vectors processed since
suppression was entered and never exceeds the local vector, so the merge that the timer makes of it
changes and discards nothing. -/

namespace NdnSvs

open Lib Lib.Tlv

namespace SVSyncCore

/-- The largest number that some vectors have for an entry. -/
def largestOf (vs : List VersionVector) (nid : NodeID) (b : BootstrapTime) : SeqNo :=
  largest (vs.map (·.get nid b))

theorem largestOf_append (vs vs' : List VersionVector) (nid : NodeID) (b : BootstrapTime) :
    largestOf (vs ++ vs') nid b = max (largestOf vs nid b) (largestOf vs' nid b) := by
  rw [largestOf, List.map_append, largest_append]
  rfl

theorem largestOf_singleton (v : VersionVector) (nid : NodeID) (b : BootstrapTime) :
    largestOf [v] nid b = v.get nid b := largest_singleton _

/-- A core without a suppression, jobs of workers or calls to the application. -/
structure Fresh (c : SVSyncCore) : Prop where
  recordedVv : c.recordedVv = none
  processing : c.processing = []
  upcalls : c.upcalls = []

instance (c : SVSyncCore) : Decidable c.Fresh :=
  decidable_of_iff (c.recordedVv = none ∧ c.processing = [] ∧ c.upcalls = [])
    ⟨fun ⟨h, h', h''⟩ => ⟨h, h', h''⟩, fun ⟨h, h', h''⟩ => ⟨h, h', h''⟩⟩

variable {cfg : CoreConfig} {env : CoreInputs} {c c' c₀ : SVSyncCore} {n n' : Notes}

theorem Fresh.sound (h : c.Fresh) : c.Sound := by
  refine ⟨fun job hjob => ?_, fun r hr => ?_⟩
  · rw [h.processing] at hjob
    cases hjob
  · rw [h.recordedVv] at hr
    cases hr

/-- The recorded vector is the maximum of the vectors noted since suppression was entered. -/
structure Suppresses (c : SVSyncCore) (n : Notes) : Prop where
  sound : c.Sound
  outside : c.recordedVv = none → n.suppressing = []
  nonempty : ∀ r, c.recordedVv = some r → n.suppressing ≠ []
  recorded : ∀ r, c.recordedVv = some r → ∀ nid b, r.get nid b = largestOf n.suppressing nid b

theorem Fresh.suppresses (h : c.Fresh) : Suppresses c {} := by
  refine ⟨h.sound, fun _ => rfl, fun r hr => ?_, fun r hr => ?_⟩ <;>
  · rw [h.recordedVv] at hr
    cases hr

/-- Recording a vector adds it to those that the maximum is taken of. -/
theorem Suppresses.after_merge (h : Suppresses c n) {merged other r : VersionVector}
    (hr : recordedAfter c.recordedVv merged other = some r) (nid : NodeID) (b : BootstrapTime) :
    r.get nid b = largestOf (n.suppressing ++ [other]) nid b := by
  rw [largestOf_append, largestOf_singleton]
  unfold recordedAfter at hr
  split at hr
  · rename_i r₀ hrecorded
    obtain rfl := Option.some.inj hr
    rw [get_recordEntries, h.recorded r₀ hrecorded]
  · rename_i hnone
    split at hr
    · obtain rfl := Option.some.inj hr
      rw [h.outside hnone]
      exact (Nat.zero_max _).symm
    · cases hr

theorem step_suppresses (h : Suppresses c n) {o : Occurrence} (hok : NeverLowers cfg c o)
    (hstep : c.next cfg o = some c') : Suppresses c' (note cfg n c o c') := by
  obtain ⟨e, env⟩ := o
  have hsound := step_sound h.sound hok hstep
  have hnote : ∀ r, c'.recordedVv = some r → (note cfg n c (e, env) c').suppressing =
      n.suppressing ++ ((c.receives cfg (e, env)).map (·.stateVector)).toList := fun r hr => by
    simp [note, hr]
  cases hreceives : c.receives cfg (e, env) with
  | some envelope =>
    obtain ⟨-, hreports⟩ := step_receives h.sound.snapshots hstep hreceives
    rw [hreceives] at hnote
    refine ⟨hsound, fun hnone => by simp [note, hnone], fun r hr => ?_, fun r hr nid b => ?_⟩
    · rw [hnote r hr]
      simp
    · rw [hnote r hr]
      rw [hreports.recorded, dequeue_recordedVv] at hr
      exact h.after_merge hr nid b
  | none =>
    rw [hreceives] at hnote
    have hkept : ∀ r, c'.recordedVv = some r → c.recordedVv = some r := fun r hr =>
      (step_unreceived_recorded h.sound.recordedLE hstep hreceives).elim (fun hsame => hsame ▸ hr)
        fun hnone => by simp [hnone] at hr
    refine ⟨hsound, fun hnone => by simp [note, hnone], fun r hr => ?_, fun r hr nid b => ?_⟩
    · simpa [hnote r hr] using h.nonempty r (hkept r hr)
    · simpa [hnote r hr] using h.recorded r (hkept r hr) nid b

theorem run_suppresses {os : List Occurrence} (h₀ : Suppresses c₀ n)
    (hok : Along (next cfg) (NeverLowers cfg) c₀ os)
    (hrun : run (noted cfg) (c₀, n) os = some (c, n')) : Suppresses c n' :=
  run_invariant_along (P := fun p : SVSyncCore × Notes => Suppresses p.1 p.2)
    (fun p o p' hstep hok hp => by
      obtain ⟨hstep, hnote⟩ := noting_eq_some.mp hstep
      rw [hnote]
      exact step_suppresses hp hok hstep) h₀ (hok.noting n) hrun

/-! ### What is withheld -/

/-- Every entry of the vector is covered by one of the others. -/
def CoveredBy (v : VersionVector) (vs : List VersionVector) : Prop :=
  ∀ nid b s, v.entryAt nid b = some s → ∃ w ∈ vs, s ≤ w.get nid b

theorem Suppresses.exceeds_iff (h : Suppresses c n) {r : VersionVector}
    (hr : c.recordedVv = some r) : exceeds c.vv r = false ↔ CoveredBy c.vv n.suppressing := by
  have hne : ∀ nid b, n.suppressing.map (·.get nid b) ≠ [] := fun nid b => by
    simpa using h.nonempty r hr
  rw [exceeds_eq_false]
  refine forall₄_congr fun nid b s _ => ?_
  rw [h.recorded r hr, largestOf, le_largest (hne nid b)]
  simp

/-- In every state reached, the recorded vector is the pointwise maximum of the vectors processed
since suppression was entered and at most the local vector.  The timer therefore leaves the local
vector as it is and discards no missing data, and it withholds the Sync Interest exactly when each
entry is covered by one of those vectors: when it is covered nothing is sent or handed to a worker,
and otherwise the timer puts out what a send does, which is one Interest or one job with the local
vector when the core has been started and nothing throws. -/
theorem suppression_swallows_nothing {os : List Occurrence} (h₀ : c₀.Fresh)
    (hok : Along (next cfg) (NeverLowers cfg) c₀ os)
    (hrun : run (noted cfg) (c₀, {}) os = some (c, n)) :
    (∀ env delay, (c.retxSyncInterest cfg env true delay).1.vv = c.vv) ∧
    ∀ r, c.recordedVv = some r →
      (∀ nid b, r.get nid b = largestOf n.suppressing nid b ∧ r.get nid b ≤ c.vv.get nid b) ∧
      (c.mergeStateVector r).2.missingData = [] ∧
      ∀ env delay,
        (CoveredBy c.vv n.suppressing →
          SameOutput (c.retxSyncInterest cfg env true delay) (c, .ok ())) ∧
        (¬CoveredBy c.vv n.suppressing →
          SameOutput (c.retxSyncInterest cfg env true delay) (c.sendSyncInterest cfg env) ∧
          (c.initialized → (c.retxSyncInterest cfg env true delay).2.isOk →
            PutsOut cfg c (c.retxSyncInterest cfg env true delay).1)) := by
  have h := run_suppresses h₀.suppresses hok hrun
  have hle := h.sound.recordedLE
  refine ⟨fun env delay => (retxSyncInterest_rests hle true delay).vv, fun r hr =>
    ⟨fun nid b => ⟨h.recorded r hr nid b, hle r hr nid b⟩, ?_, fun env delay => ?_⟩⟩
  · rw [mergeStateVector_of_le (hle r hr)]
  · have houtput := retxSyncInterest_output cfg env c delay
    rw [sendUnlessSuppressed_eq hle, hr] at houtput
    dsimp only at houtput
    rw [← h.exceeds_iff hr]
    refine ⟨fun hcovered => ?_, fun huncovered => ?_⟩
    · rwa [if_neg (by simp [hcovered])] at houtput
    · rw [if_pos (by simpa using huncovered)] at houtput
      exact ⟨houtput, fun hinitialized hreturned =>
        houtput.putsOut (sendSyncInterest_puts hinitialized (houtput.1 ▸ hreturned))⟩

/-- A local update, and then an older vector, at which suppression is entered. -/
def suppressedRun : List Occurrence :=
  [(.initialInterest, sampleInputs),
    (.interest (carrying sampleConfig (sampleVector 3) []), sampleInputs),
    (.updateSeqNo 1 100 [], sampleInputs),
    (.interest (carrying sampleConfig (sampleVector 2) []), sampleInputs)]

theorem suppression_swallows_nothing_example :
    let p := (run (noted sampleConfig) ({}, {}) suppressedRun).get (by decide +kernel)
    p.1.recordedVv.isSome ∧ p.1.initialized ∧
    (∀ env delay, (p.1.retxSyncInterest sampleConfig env true delay).1.vv = p.1.vv) ∧
    ∀ r, p.1.recordedVv = some r →
      (∀ nid b, r.get nid b = largestOf p.2.suppressing nid b ∧ r.get nid b ≤ p.1.vv.get nid b) ∧
      (p.1.mergeStateVector r).2.missingData = [] ∧
      ∀ env delay,
        (CoveredBy p.1.vv p.2.suppressing →
          SameOutput (p.1.retxSyncInterest sampleConfig env true delay) (p.1, .ok ())) ∧
        (¬CoveredBy p.1.vv p.2.suppressing →
          SameOutput (p.1.retxSyncInterest sampleConfig env true delay)
            (p.1.sendSyncInterest sampleConfig env) ∧
          (p.1.initialized → (p.1.retxSyncInterest sampleConfig env true delay).2.isOk →
            PutsOut sampleConfig p.1
              (p.1.retxSyncInterest sampleConfig env true delay).1)) := by
  intro p
  have hrun : run (noted sampleConfig) ({}, {}) suppressedRun = some p := (Option.some_get _).symm
  have hrecorded : p.1.recordedVv.isSome := by decide +kernel
  have hinitialized : p.1.initialized := by decide +kernel
  clear_value p
  exact ⟨hrecorded, hinitialized,
    suppression_swallows_nothing (by decide +kernel) (by decide +kernel) hrun⟩

end SVSyncCore

end NdnSvs
