import NdnSvs.Core

/-! What the handlers of the core do to its vectors, its queues and its output.  A merge takes the
larger entry everywhere, sending changes no vector, and a state whose generation is unchanged has an
unchanged vector. -/

namespace NdnSvs

open Lib Lib.Tlv

/-! ### Merging -/

theorem mergeEntry_mergedVector (r : MergeComputationResult) (e : VersionVector.Entry) :
    (mergeEntry r e).mergedVector = r.mergedVector.raise e := by
  simp only [mergeEntry, VersionVector.raise]
  split <;> rfl

theorem foldl_mergeEntry (es : List VersionVector.Entry) (r : MergeComputationResult) :
    (es.foldl mergeEntry r).mergedVector = es.foldl VersionVector.raise r.mergedVector := by
  induction es generalizing r with
  | nil => rfl
  | cons e es ih => rw [List.foldl_cons, ih, mergeEntry_mergedVector, List.foldl_cons]

theorem computeMerge_eq (l r : VersionVector) : computeMergeStateVector l r =
    { r.allEntries.foldl mergeEntry { mergedVector := l } with
      myVectorNew := exceeds (r.allEntries.foldl mergeEntry
        { mergedVector := l }).mergedVector r } := by
  rw [computeMergeStateVector, VersionVector.foldl_entries r mergeEntry]

theorem mergedVector_eq (l r : VersionVector) :
    (computeMergeStateVector l r).mergedVector = r.allEntries.foldl VersionVector.raise l := by
  rw [computeMerge_eq]
  exact foldl_mergeEntry _ _

/-- A merged vector has the larger entry everywhere. -/
theorem get_computeMerge (l r : VersionVector) (nid : NodeID) (b : BootstrapTime) :
    (computeMergeStateVector l r).mergedVector.get nid b = max (l.get nid b) (r.get nid b) := by
  rw [mergedVector_eq, VersionVector.get_raiseAll]

/-- Every entry of a merged vector is an entry of one of the two. -/
theorem entryAt_computeMerge {l r : VersionVector} {nid : NodeID} {b : BootstrapTime} {s : SeqNo}
    (h : (computeMergeStateVector l r).mergedVector.entryAt nid b = some s) :
    l.entryAt nid b = some s ∨ r.entryAt nid b = some s := by
  rw [mergedVector_eq] at h
  exact VersionVector.entryAt_raiseAll h

theorem otherVectorNew_mono (es : List VersionVector.Entry) {r : MergeComputationResult}
    (h : r.otherVectorNew) : (es.foldl mergeEntry r).otherVectorNew := by
  induction es generalizing r with
  | nil => exact h
  | cons e es ih =>
    refine ih ?_
    simp only [mergeEntry]
    split
    · rfl
    · exact h

theorem foldl_mergeEntry_of_not_new {es : List VersionVector.Entry} {r : MergeComputationResult}
    (h : (es.foldl mergeEntry r).otherVectorNew = false) :
    (es.foldl mergeEntry r).mergedVector = r.mergedVector := by
  induction es generalizing r with
  | nil => rfl
  | cons e es ih =>
    by_cases hlt : r.mergedVector.get e.nid e.bootstrapTime < e.seqNo
    · have hnew : (mergeEntry r e).otherVectorNew := by rw [mergeEntry, if_pos hlt]
      have hlast := otherVectorNew_mono es hnew
      rw [List.foldl_cons] at h
      simp [h] at hlast
    · have hsame : mergeEntry r e = r := if_neg hlt
      rw [List.foldl_cons, hsame] at h ⊢
      exact ih h

/-- A merge that reports nothing new leaves the local vector as it was. -/
theorem computeMerge_of_not_new {l r : VersionVector}
    (h : (computeMergeStateVector l r).otherVectorNew = false) :
    (computeMergeStateVector l r).mergedVector = l := by
  rw [computeMerge_eq] at h ⊢
  exact foldl_mergeEntry_of_not_new h

/-- Merging depends only on the entries. -/
theorem get_computeMerge_same {l l' r : VersionVector} (h : l.Same l') (nid : NodeID)
    (b : BootstrapTime) : (computeMergeStateVector l r).mergedVector.get nid b =
      max (l'.get nid b) (r.get nid b) := by
  rw [get_computeMerge, h.get]

/-- A vector exceeds another one unless all its entries are covered. -/
theorem exceeds_eq_false {v other : VersionVector} : exceeds v other = false ↔
    ∀ nid b s, v.entryAt nid b = some s → s ≤ other.get nid b := by
  simp only [exceeds, List.any_eq_false, decide_eq_true_eq, Bool.not_eq_true, List.any_eq_false,
    Nat.not_lt]
  constructor
  · intro h nid b s hs
    obtain ⟨node, hnode, hb⟩ := Option.bind_eq_some_iff.mp hs
    exact h (nid, node) (Map.mem_toList.mpr hnode) (b, s) (Map.mem_toList.mpr hb)
  · intro h node hnode e he
    refine h node.1 e.1 e.2 ?_
    exact Option.bind_eq_some_iff.mpr ⟨node.2, Map.mem_toList.mp hnode, Map.mem_toList.mp he⟩

theorem recordEntries_eq (recorded other : VersionVector) :
    recordEntries recorded other = other.allEntries.foldl VersionVector.raise recorded :=
  VersionVector.foldl_entries other VersionVector.raise recorded

theorem get_recordEntries (recorded other : VersionVector) (nid : NodeID) (b : BootstrapTime) :
    (recordEntries recorded other).get nid b = max (recorded.get nid b) (other.get nid b) := by
  rw [recordEntries_eq, VersionVector.get_raiseAll]

theorem entryAt_recordEntries {recorded other : VersionVector} {nid : NodeID} {b : BootstrapTime}
    {s : SeqNo} (h : (recordEntries recorded other).entryAt nid b = some s) :
    recorded.entryAt nid b = some s ∨ other.entryAt nid b = some s := by
  rw [recordEntries_eq] at h
  exact VersionVector.entryAt_raiseAll h

namespace SVSyncCore

/-! ### Steps on the vectors -/

/-- An Interest that carries the vector and that the Face can send. -/
def Carries (cfg : CoreConfig) (vv : VersionVector) (interest : Interest) : Prop :=
  interest.size ≤ maxNdnPacketSize ∧
    ∃ env extensions, encodeSyncInterest cfg env vv extensions = .ok interest

theorem encodeSyncInterest_v3 {cfg : CoreConfig} (hv : cfg.version = .v3) (env : CoreInputs)
    (vv : VersionVector) (extensions : List Block) : encodeSyncInterest cfg env vv extensions =
      SyncProtocolCodec.encode cfg.cxx cfg.syncPrefix vv extensions .v3 cfg.syncInterestLifetime
        (some env.signData) := by
  rw [encodeSyncInterest, hv]
  cases SyncProtocolCodec.encode cfg.cxx cfg.syncPrefix vv extensions .v3 cfg.syncInterestLifetime
    (some env.signData) <;> rfl

/-- The core has taken in the entries of another vector, and sent or queued nothing but its own
vector. -/
structure Absorbs (cfg : CoreConfig) (other : VersionVector) (c c' : SVSyncCore) : Prop where
  get : ∀ nid b, c'.vv.get nid b = max (c.vv.get nid b) (other.get nid b)
  entry : ∀ nid b s, c'.vv.entryAt nid b = some s →
    c.vv.entryAt nid b = some s ∨ other.entryAt nid b = some s
  generation_le : c.stateGeneration ≤ c'.stateGeneration
  unchanged : c'.stateGeneration = c.stateGeneration → c'.vv.Same c.vv
  recorded : ∀ r', c'.recordedVv = some r' → c.recordedVv = some r' ∨ r' = other ∨
    ∃ r, c.recordedVv = some r ∧ r' = recordEntries r other
  validating : c'.validating = c.validating
  processing : c'.processing = c.processing
  production : ∃ jobs, c'.production = c.production ++ jobs ∧ ∀ job ∈ jobs, job.localVector = c'.vv
  sent : ∃ interests, c'.sent = c.sent ++ interests ∧ ∀ i ∈ interests, Carries cfg c'.vv i

/-- The core has sent or queued at most its own vector, and changed no vector but the recorded one,
which it may have dropped. -/
structure Emits (cfg : CoreConfig) (c c' : SVSyncCore) : Prop where
  vv : c'.vv = c.vv
  stateGeneration : c'.stateGeneration = c.stateGeneration
  recorded : c'.recordedVv = c.recordedVv ∨ c'.recordedVv = none
  validating : c'.validating = c.validating
  processing : c'.processing = c.processing
  production : ∃ jobs, c'.production = c.production ++ jobs ∧ ∀ job ∈ jobs, job.localVector = c.vv
  sent : ∃ interests, c'.sent = c.sent ++ interests ∧ ∀ i ∈ interests, Carries cfg c.vv i

variable {cfg : CoreConfig} {env : CoreInputs} {c c' c'' : SVSyncCore} {other : VersionVector}

theorem Emits.refl (c : SVSyncCore) : Emits cfg c c :=
  ⟨rfl, rfl, .inl rfl, rfl, rfl, ⟨[], by simp⟩, ⟨[], by simp⟩⟩

theorem Emits.trans (h : Emits cfg c c') (h' : Emits cfg c' c'') : Emits cfg c c'' := by
  obtain ⟨jobs, hjobs, hown⟩ := h.production
  obtain ⟨jobs', hjobs', hown'⟩ := h'.production
  obtain ⟨interests, hsent, hcarry⟩ := h.sent
  obtain ⟨interests', hsent', hcarry'⟩ := h'.sent
  refine ⟨h'.vv.trans h.vv, h'.stateGeneration.trans h.stateGeneration, ?_,
    h'.validating.trans h.validating, h'.processing.trans h.processing,
    ⟨jobs ++ jobs', by rw [hjobs', hjobs, List.append_assoc], ?_⟩,
    ⟨interests ++ interests', by rw [hsent', hsent, List.append_assoc], ?_⟩⟩
  · rcases h'.recorded with h' | h'
    · rw [h']
      exact h.recorded
    · exact .inr h'
  · intro job hjob
    rcases List.mem_append.mp hjob with hjob | hjob
    · exact hown job hjob
    · exact (hown' job hjob).trans h.vv
  · intro i hi
    rcases List.mem_append.mp hi with hi | hi
    · exact hcarry i hi
    · exact h.vv ▸ hcarry' i hi

theorem Absorbs.emits (h : Absorbs cfg other c c') (h' : Emits cfg c' c'') :
    Absorbs cfg other c c'' := by
  obtain ⟨jobs, hjobs, hown⟩ := h.production
  obtain ⟨jobs', hjobs', hown'⟩ := h'.production
  obtain ⟨interests, hsent, hcarry⟩ := h.sent
  obtain ⟨interests', hsent', hcarry'⟩ := h'.sent
  refine ⟨by rw [h'.vv]; exact h.get, by rw [h'.vv]; exact h.entry,
    by rw [h'.stateGeneration]; exact h.generation_le,
    by rw [h'.stateGeneration, h'.vv]; exact h.unchanged, ?_,
    h'.validating.trans h.validating, h'.processing.trans h.processing,
    ⟨jobs ++ jobs', by rw [hjobs', hjobs, List.append_assoc], ?_⟩,
    ⟨interests ++ interests', by rw [hsent', hsent, List.append_assoc], ?_⟩⟩
  · intro r' hr'
    rcases h'.recorded with hsame | hnone
    · exact h.recorded r' (hsame ▸ hr')
    · rw [hnone] at hr'
      cases hr'
  · intro job hjob
    rw [h'.vv]
    rcases List.mem_append.mp hjob with hjob | hjob
    · exact hown job hjob
    · exact hown' job hjob
  · intro i hi
    rw [h'.vv]
    rcases List.mem_append.mp hi with hi | hi
    · exact hcarry i hi
    · exact hcarry' i hi

/-- Sending takes in nothing. -/
theorem Emits.absorbs (h : Emits cfg c c') : Absorbs cfg {} c c' := by
  have hrefl : Absorbs cfg {} c c := by
    refine ⟨fun nid b => ?_, fun _ _ _ h => .inl h, le_rfl, fun _ => .refl _, fun _ h => .inl h,
      rfl, rfl, ⟨[], by simp⟩, ⟨[], by simp⟩⟩
    rw [VersionVector.get_empty, Nat.max_zero]
  exact hrefl.emits h

theorem expressInterest_emits {interest : Interest} {extensions : List Block}
    (h : encodeSyncInterest cfg env c.vv extensions = .ok interest) :
    Emits cfg c (c.expressInterest env interest).1 := by
  unfold expressInterest
  split
  · rename_i haccept
    exact ⟨rfl, rfl, .inl rfl, rfl, rfl, ⟨[], by simp⟩,
      ⟨[interest], rfl, by simpa using ⟨haccept.2, env, extensions, h⟩⟩⟩
  · exact .refl c

theorem sendSyncInterestSerial_emits (c : SVSyncCore) :
    Emits cfg c (c.sendSyncInterestSerial cfg env).1 := by
  unfold sendSyncInterestSerial
  split
  · exact .refl c
  · split
    · exact .refl c
    · rename_i interest h
      obtain ⟨extensions, -, h⟩ := bind_eq_ok.mp h
      exact expressInterest_emits h

variable (cfg env) in
theorem sendSyncInterest_emits (c : SVSyncCore) :
    Emits cfg c (c.sendSyncInterest cfg env).1 := by
  unfold sendSyncInterest
  split
  · exact .refl c
  · split
    · exact sendSyncInterestSerial_emits c
    · split
      · exact .refl c
      · split
        · exact sendSyncInterestSerial_emits c
        · exact ⟨rfl, rfl, .inl rfl, rfl, rfl, ⟨[_], rfl, by simp⟩, ⟨[], by simp⟩⟩

theorem scheduleRetx_emits (c : SVSyncCore) (delay : Nat) :
    Emits cfg c (c.scheduleRetx env delay) :=
  ⟨rfl, rfl, .inl rfl, rfl, rfl, ⟨[], by simp [scheduleRetx]⟩, ⟨[], by simp [scheduleRetx]⟩⟩

variable (cfg) in
theorem mergeStateVector_absorbs (c : SVSyncCore) (other : VersionVector) :
    Absorbs cfg other c (c.mergeStateVector other).1 := by
  have hgen : c.stateGeneration ≤ (c.mergeStateVector other).1.stateGeneration := by
    simp only [mergeStateVector]
    split <;> omega
  refine ⟨get_computeMerge c.vv other, fun _ _ _ => entryAt_computeMerge, hgen, fun hsame => ?_,
    fun r' h => .inl h, rfl, rfl, ⟨[], by simp [mergeStateVector]⟩,
    ⟨[], by simp [mergeStateVector]⟩⟩
  simp only [mergeStateVector] at hsame ⊢
  split at hsame
  · omega
  · rename_i hnew
    rw [computeMerge_of_not_new (by simpa using hnew)]
    exact .refl _

variable (cfg env) in
theorem sendUnlessSuppressed_absorbs (c : SVSyncCore) :
    Absorbs cfg (c.recordedVv.getD {}) c (c.sendUnlessSuppressed cfg env).1 := by
  unfold sendUnlessSuppressed
  split
  · rename_i h
    rw [h]
    exact (sendSyncInterest_emits _ _ c).absorbs
  · rename_i recorded h
    rw [h]
    have hmerge := mergeStateVector_absorbs cfg c recorded
    simp only
    split
    · exact hmerge.emits (sendSyncInterest_emits _ _ _)
    · exact hmerge

variable (cfg env) in
/-- The timer sets itself anew after a send that returns, and does nothing more after one that
throws. -/
theorem retxSyncInterest_cases (c : SVSyncCore) (delay : Nat) :
    ((∃ e, (c.sendUnlessSuppressed cfg env).2 = .error e) ∧
      (c.retxSyncInterest cfg env true delay).1 = (c.sendUnlessSuppressed cfg env).1) ∨
    ((c.sendUnlessSuppressed cfg env).2 = .ok () ∧
      (c.retxSyncInterest cfg env true delay).1 =
        ({ (c.sendUnlessSuppressed cfg env).1 with recordedVv := none } : SVSyncCore).scheduleRetx
          env (if delay = 0 then env.retxDelay else delay)) := by
  simp only [retxSyncInterest, if_pos]
  cases c.sendUnlessSuppressed cfg env with
  | mk c₁ sent =>
    cases sent with
    | error e => exact .inl ⟨⟨e, rfl⟩, rfl⟩
    | ok _ => exact .inr ⟨rfl, rfl⟩

variable (cfg env) in
theorem sendLocalPublicationSyncInterest_cases (c : SVSyncCore) :
    ((∃ e, (({ c with recordedVv := none } : SVSyncCore).sendSyncInterest cfg env).2 = .error e) ∧
      c.sendLocalPublicationSyncInterest cfg env =
        (({ c with recordedVv := none } : SVSyncCore).sendSyncInterest cfg env).1) ∨
    ((({ c with recordedVv := none } : SVSyncCore).sendSyncInterest cfg env).2 = .ok () ∧
      c.sendLocalPublicationSyncInterest cfg env =
        (({ c with recordedVv := none } : SVSyncCore).sendSyncInterest cfg env).1.scheduleRetx
          env env.retxDelay) := by
  unfold sendLocalPublicationSyncInterest
  cases ({ c with recordedVv := none } : SVSyncCore).sendSyncInterest cfg env with
  | mk c₁ sent =>
    cases sent with
    | error e => exact .inl ⟨⟨e, rfl⟩, rfl⟩
    | ok _ => exact .inr ⟨rfl, rfl⟩

theorem retxSyncInterest_emits (c : SVSyncCore) (delay : Nat) :
    Emits cfg c (c.retxSyncInterest cfg env false delay).1 :=
  scheduleRetx_emits c _

variable (cfg env) in
/-- The retransmission timer merges what was recorded. -/
theorem retxSyncInterest_absorbs (c : SVSyncCore) (delay : Nat) :
    Absorbs cfg (c.recordedVv.getD {}) c (c.retxSyncInterest cfg env true delay).1 := by
  have hsend := sendUnlessSuppressed_absorbs cfg env c
  have hdrop : ∀ c : SVSyncCore, Emits cfg c { c with recordedVv := none } := fun c =>
    ⟨rfl, rfl, .inr rfl, rfl, rfl, ⟨[], by simp⟩, ⟨[], by simp⟩⟩
  rcases retxSyncInterest_cases cfg env c delay with ⟨-, hretx⟩ | ⟨-, hretx⟩
  · rw [hretx]
    exact hsend
  · rw [hretx]
    exact (hsend.emits (hdrop _)).emits (scheduleRetx_emits _ _)

variable (cfg env) in
theorem sendLocalPublicationSyncInterest_emits (c : SVSyncCore) :
    Emits cfg c (c.sendLocalPublicationSyncInterest cfg env) := by
  have hdrop : Emits cfg c { c with recordedVv := none } :=
    ⟨rfl, rfl, .inr rfl, rfl, rfl, ⟨[], by simp⟩, ⟨[], by simp⟩⟩
  have hsend := hdrop.trans (sendSyncInterest_emits _ env { c with recordedVv := none })
  rcases sendLocalPublicationSyncInterest_cases cfg env c with ⟨-, hlocal⟩ | ⟨-, hlocal⟩
  · rw [hlocal]
    exact hsend
  · rw [hlocal]
    exact hsend.trans (scheduleRetx_emits _ _)

/-- The state with an entry set, before it is announced. -/
def assigned (cfg : CoreConfig) (c : SVSyncCore) (seq : SeqNo) (b : BootstrapTime) (nid : NodeID) :
    SVSyncCore :=
  { c with
    vv := c.vv.put (targetNode cfg nid) b seq
    stateGeneration := if c.vv.get (targetNode cfg nid) b < seq then c.stateGeneration + 1
      else c.stateGeneration }

variable (cfg env) in
/-- A call with 0 throws and changes nothing; another sets the entry and may announce it. -/
theorem updateSeqNo_cases (c : SVSyncCore) (seq : SeqNo) (b : BootstrapTime) (nid : NodeID) :
    (seq = 0 ∧ (c.updateSeqNo cfg env seq b nid).1 = c) ∨
      (seq ≠ 0 ∧ (c.updateSeqNo cfg env seq b nid).2 = .ok () ∧
        Emits cfg (c.assigned cfg seq b nid) (c.updateSeqNo cfg env seq b nid).1) := by
  have hbatch : ∀ c : SVSyncCore, Emits cfg c c.schedulePublicationSync := fun c =>
    ⟨rfl, rfl, .inl rfl, rfl, rfl, ⟨[], by simp [schedulePublicationSync]⟩,
      ⟨[], by simp [schedulePublicationSync]⟩⟩
  by_cases hseq : seq = 0
  · refine .inl ⟨hseq, ?_⟩
    simp [updateSeqNo, VersionVector.set, hseq]
  · refine .inr ⟨hseq, ?_⟩
    simp only [updateSeqNo, VersionVector.set, if_neg hseq, assigned]
    split
    · refine ⟨rfl, ?_⟩
      split
      · exact hbatch _
      · exact sendLocalPublicationSyncInterest_emits _ _ _
    · exact ⟨rfl, .refl _⟩

theorem afterMerge_absorbs (h : Absorbs cfg other c c') (hrecorded : c'.recordedVv = c.recordedVv)
    (myVectorNew : Bool) : Absorbs cfg other c (c'.afterMerge cfg env other myVectorNew).1 := by
  have hrecord : ∀ r, (c.recordedVv = some r ∨ r = other ∨
      ∃ r₀, c.recordedVv = some r₀ ∧ r = recordEntries r₀ other) →
      Absorbs cfg other c { c' with recordedVv := some r } := by
    intro r hr
    exact { h with recorded := fun r' hr' => Option.some.inj hr' ▸ hr }
  unfold afterMerge recordVector
  cases hrec : c'.recordedVv with
  | some r =>
    rw [hrec] at hrecorded
    exact hrecord _ (.inr (.inr ⟨r, hrecorded.symm, rfl⟩))
  | none =>
    have henter : Absorbs cfg other c (c'.enterSuppressionState other) := by
      rw [enterSuppressionState, hrec]
      exact hrecord _ (.inr (.inl rfl))
    simp only
    split
    · exact h.emits (retxSyncInterest_emits c' _)
    · split
      · exact henter.emits (retxSyncInterest_emits _ _)
      · exact henter

/-- The vector that an Interest decodes to at a receiver. -/
def decodesTo (cfg : CoreConfig) (env : CoreInputs) (interest : Interest) (other : VersionVector) :
    Prop :=
  ∃ envelope, SyncProtocolCodec.decode cfg.cxx env.clock interest cfg.syncPrefix cfg.version true =
    .ok envelope ∧ envelope.stateVector = other

variable (cfg env) in
theorem onSyncInterestValidatedSerial_cases (c : SVSyncCore) (interest : Interest) :
    (c.onSyncInterestValidatedSerial cfg env interest).1 = c ∧
        (∀ v, ¬decodesTo cfg env interest v) ∨
      ∃ other, decodesTo cfg env interest other ∧
        Absorbs cfg other c (c.onSyncInterestValidatedSerial cfg env interest).1 := by
  unfold onSyncInterestValidatedSerial
  cases h : SyncProtocolCodec.decode cfg.cxx env.clock interest cfg.syncPrefix cfg.version true with
  | error e =>
    refine .inl ⟨rfl, ?_⟩
    rintro v ⟨envelope, hv, -⟩
    rw [h] at hv
    cases hv
  | ok envelope =>
    refine .inr ⟨envelope.stateVector, ⟨envelope, h, rfl⟩, ?_⟩
    have hmerge := mergeStateVector_absorbs cfg c envelope.stateVector
    have hlog : ∀ upcalls, Absorbs cfg envelope.stateVector c
        { (c.mergeStateVector envelope.stateVector).1 with upcalls } := fun _ => { hmerge with }
    exact afterMerge_absorbs (hlog _) rfl _

variable (cfg env) in
/-- What a received Interest does: nothing, a place in the queue of the workers, or the entries it
carries. -/
theorem onSyncInterestValidated_cases (c : SVSyncCore) (interest : Interest) :
    ((c.onSyncInterestValidated cfg env interest).1 =
        { c with processing := c.processing ++
          [⟨interest, c.vv, c.stateGeneration, interest.incomingFaceId.getD 0⟩] }) ∨
      (c.onSyncInterestValidated cfg env interest).1 =
        (c.onSyncInterestValidatedSerial cfg env interest).1 := by
  unfold onSyncInterestValidated
  split
  · exact .inr rfl
  · exact .inl rfl

variable (cfg env) in
/-- The result of a worker adds what the Interest carries, when the state is the one that the job
was made from. -/
theorem processSyncInterestResult_cases (c : SVSyncCore) (job : SyncProcessingJob)
    (hjob : job.stateGeneration = c.stateGeneration → job.localVector.Same c.vv) :
    (c.processSyncInterestResult cfg env job).1 = c ∧
        (∀ v, ¬decodesTo cfg env job.interest v) ∨
      ∃ other, decodesTo cfg env job.interest other ∧
        Absorbs cfg other c (c.processSyncInterestResult cfg env job).1 := by
  unfold processSyncInterestResult
  cases h : SyncProtocolCodec.decode cfg.cxx env.clock job.interest cfg.syncPrefix cfg.version
    true with
  | error e =>
    refine .inl ⟨rfl, ?_⟩
    rintro v ⟨envelope, hv, -⟩
    rw [h] at hv
    cases hv
  | ok envelope =>
    have hdecodes : decodesTo cfg env job.interest envelope.stateVector := ⟨envelope, h, rfl⟩
    simp only
    split
    · rcases onSyncInterestValidatedSerial_cases cfg env c job.interest with
        ⟨-, hnone⟩ | hsome
      · exact absurd hdecodes (hnone _)
      · exact .inr hsome
    · rename_i hgen
      have hsame := hjob (not_not.mp hgen).symm
      refine .inr ⟨envelope.stateVector, hdecodes, ?_⟩
      have hlog : ∀ upcalls, Absorbs cfg envelope.stateVector c
          { c with
            vv := (computeMergeStateVector job.localVector envelope.stateVector).mergedVector
            stateGeneration :=
              if (computeMergeStateVector job.localVector envelope.stateVector).otherVectorNew then
                c.stateGeneration + 1 else c.stateGeneration
            upcalls } := by
        refine fun upcalls => ⟨get_computeMerge_same hsame,
          fun nid b s hs => ?_, ?_, fun hkept => ?_,
          fun r' h => .inl h, rfl, rfl, ⟨[], by simp⟩, ⟨[], by simp⟩⟩
        · rw [← hsame nid b]
          exact entryAt_computeMerge hs
        · simp only
          split <;> omega
        · simp only at hkept ⊢
          split at hkept
          · omega
          · rename_i hnew
            rw [computeMerge_of_not_new (by simpa using hnew)]
            exact hsame
      exact afterMerge_absorbs (hlog _) rfl _

/-- The blocks that the Interest of a job gets: those of the worker when it encodes, and those of
the job when the Face thread does. -/
def blocksOf (cfg : CoreConfig) (env : CoreInputs) (c : SVSyncCore) (job : SyncProductionJob) :
    Result (List Block) :=
  if cfg.version = .v2 ∨ c.parallelSyncProductionSigning then c.workerBlocks cfg env job
  else .ok job.extraBlocks

theorem produce_complete {job : SyncProductionJob} {result : Option Interest} {interest : Interest}
    (hproduce : c.produce cfg env job = .ok result)
    (hcomplete : c.completeProduction cfg env job result = .ok interest) :
    ∃ extensions, c.blocksOf cfg env job = .ok extensions ∧
      encodeSyncInterest cfg env job.localVector extensions = .ok interest := by
  rw [produce] at hproduce
  obtain ⟨extensions, hblocks, hproduce⟩ := bind_eq_ok.mp hproduce
  by_cases hworker : cfg.version = .v2 ∨ c.parallelSyncProductionSigning
  · rw [if_pos hworker] at hproduce
    obtain ⟨encoded, hencode, hproduce⟩ := bind_eq_ok.mp hproduce
    refine ⟨extensions, by rw [blocksOf, if_pos hworker, hblocks], ?_⟩
    rw [encodeSyncInterest, hencode, ok_bind]
    cases hv : cfg.version with
    | v2 =>
      by_cases hsign : c.parallelSyncProductionSigning
      · rw [if_pos ⟨hv, hsign⟩] at hproduce
        obtain ⟨signed, hsigned, hproduce⟩ := bind_eq_ok.mp hproduce
        obtain rfl := Except.ok.inj hproduce
        have hkept : ¬(cfg.version = .v2 ∧ ¬c.parallelSyncProductionSigning) := fun h => h.2 hsign
        rw [completeProduction, if_neg hkept] at hcomplete
        exact hsigned.trans hcomplete
      · rw [if_neg fun h => hsign h.2] at hproduce
        obtain rfl := Except.ok.inj hproduce
        rw [completeProduction, if_pos ⟨hv, hsign⟩] at hcomplete
        exact hcomplete
    | v3 =>
      have hv3 : cfg.version ≠ .v2 := by simp [hv]
      rw [if_neg fun h => hv3 h.1] at hproduce
      obtain rfl := Except.ok.inj hproduce
      rw [completeProduction, if_neg fun h => hv3 h.1] at hcomplete
      exact hcomplete
  · rw [if_neg hworker] at hproduce
    obtain rfl := Except.ok.inj hproduce
    refine ⟨job.extraBlocks, by rw [blocksOf, if_neg hworker], ?_⟩
    cases hv : cfg.version with
    | v2 => exact absurd (.inl hv) hworker
    | v3 =>
      rw [completeProduction] at hcomplete
      rw [encodeSyncInterest, hcomplete, ok_bind, hv]

/-- What a job sends has the vector and the blocks of the job. -/
theorem processSyncProductionResult_sent {c : SVSyncCore} {job : SyncProductionJob}
    (h : (c.processSyncProductionResult cfg env job).1 ≠ c) :
    ∃ extensions interest, c.blocksOf cfg env job = .ok extensions ∧
      encodeSyncInterest cfg env job.localVector extensions = .ok interest ∧
      interest.size ≤ maxNdnPacketSize ∧
      (c.processSyncProductionResult cfg env job).1 = { c with sent := c.sent ++ [interest] } := by
  unfold processSyncProductionResult at h ⊢
  split at h
  · exact absurd rfl h
  · rename_i result hproduce
    split at h
    · exact absurd rfl h
    · rename_i hfresh
      rw [if_neg hfresh]
      split at h
      · exact absurd rfl h
      · rename_i interest hcomplete
        obtain ⟨extensions, hblocks, hencode⟩ := produce_complete hproduce hcomplete
        unfold expressInterest at h ⊢
        split at h
        · rename_i haccept
          rw [if_pos haccept]
          exact ⟨extensions, interest, hblocks, hencode, haccept.2, rfl⟩
        · exact absurd rfl h

variable (cfg env) in
/-- The result of a production job sends at most an Interest with the vector of the job. -/
theorem processSyncProductionResult_cases (c : SVSyncCore) (job : SyncProductionJob) :
    (c.processSyncProductionResult cfg env job).1 = c ∨
      ∃ interest, Carries cfg job.localVector interest ∧
        (c.processSyncProductionResult cfg env job).1 =
          { c with sent := c.sent ++ [interest] } := by
  by_cases h : (c.processSyncProductionResult cfg env job).1 = c
  · exact .inl h
  · obtain ⟨extensions, interest, -, hencode, hsize, heq⟩ := processSyncProductionResult_sent h
    exact .inr ⟨interest, ⟨hsize, env, extensions, hencode⟩, heq⟩

/-! ### Steps of the timers and of the queues -/

theorem step_retransmission : c.step cfg env .retransmission = some c' ↔
    c.retxEvent.isSome ∧
      c' = (({ c with retxEvent := none } : SVSyncCore).retxSyncInterest cfg env true 0).1 := by
  rw [step, Option.ite_none_right_eq_some, Option.some.injEq, eq_comm (b := c')]

theorem step_publicationBatch : c.step cfg env .publicationBatch = some c' ↔
    c.publicationSyncPending ∧ c' = ({ c with publicationSyncPending := false } :
      SVSyncCore).sendLocalPublicationSyncInterest cfg env := by
  rw [step, Option.ite_none_right_eq_some, Option.some.injEq, eq_comm (b := c')]

/-- A verdict that refuses its Interest drops it. -/
theorem step_verdict {index : Nat} {accepted : Bool} :
    c.step cfg env (.verdict index accepted) = some c' ↔
      ∃ interest, c.validating[index]? = some interest ∧
        c' = if accepted then (({ c with validating := c.validating.eraseIdx index } :
          SVSyncCore).onSyncInterestValidated cfg env interest).1
        else { c with validating := c.validating.eraseIdx index } := by
  rw [step]
  cases c.validating[index]? with
  | none => simp
  | some interest => cases accepted <;> simp [eq_comm]

theorem step_processingResult {index : Nat} : c.step cfg env (.processingResult index) = some c' ↔
    ∃ job, c.processing[index]? = some job ∧
      c' = (({ c with processing := c.processing.eraseIdx index } :
        SVSyncCore).processSyncInterestResult cfg env job).1 := by
  rw [step]
  cases c.processing[index]? <;> simp [eq_comm]

theorem step_productionResult {index : Nat} : c.step cfg env (.productionResult index) = some c' ↔
    ∃ job, c.production[index]? = some job ∧
      c' = (({ c with production := c.production.eraseIdx index } :
        SVSyncCore).processSyncProductionResult cfg env job).1 := by
  rw [step]
  cases c.production[index]? <;> simp [eq_comm]

end SVSyncCore

end NdnSvs
