import NdnSvs.CoreNotes

/-! Provenance in a core of the current version with a validator.  Every entry of its vectors and
every block that it hands on was in the signed Data of an Interest that the validator accepted, or
was set by a local call. -/

namespace NdnSvs

open Lib Lib.Tlv

/-! ### Signed State Vector Data -/

namespace SyncProtocolCodec

/-- The Data holds the vector and the extension blocks. -/
def SignedState (data : Data) (vv : VersionVector) (extensions : List Block) : Prop :=
  data.signatureValue.isSome ∧ ∃ now stateBlock,
    (Block.mk tlv.content data.content).parse = some (stateBlock :: extensions) ∧
      VersionVector.decode now stateBlock = .ok vv

variable {cxx : NdnCxx} {now : Nat} {expectedPrefix : Name} {first : Block} {more : List Block}
  {envelope : DecodedSyncEnvelope}

theorem foldlM_decodeExtension {bs : List Block} {found found' : List Block × List BlockType}
    (h : bs.foldlM decodeExtension found = .ok found') : found'.1 = found.1 ++ bs := by
  induction bs generalizing found with
  | nil =>
    obtain rfl := Except.ok.inj h
    simp
  | cons b bs ih =>
    obtain ⟨found₁, hb, hbs⟩ := bind_eq_ok.mp h
    obtain ⟨-, hb⟩ := require_bind_eq_ok.mp hb
    obtain ⟨-, hb⟩ := require_bind_eq_ok.mp hb
    obtain ⟨-, hb⟩ := require_bind_eq_ok.mp hb
    obtain rfl := Except.ok.inj hb
    rw [ih hbs]
    simp

/-- The decoder returns all extensions, in order. -/
theorem decodeExtensions_eq {bs extensions : List Block}
    (h : decodeExtensions bs = .ok extensions) :
    extensions = bs := by
  obtain ⟨found, hfold, h⟩ := bind_eq_ok.mp h
  obtain rfl := Except.ok.inj h
  simpa using foldlM_decodeExtension hfold

theorem decodeStateData_ok (h : decodeStateData cxx expectedPrefix first = .ok envelope) :
    ∃ data stateBlock,
      envelope = { extensions := envelope.extensions, stateVectorData := some data } ∧
      data.signatureValue.isSome ∧
      (Block.mk tlv.content data.content).parse = some (stateBlock :: envelope.extensions) := by
  obtain ⟨-, h⟩ := require_bind_eq_ok.mp h
  obtain ⟨data, -, h⟩ := bind_eq_ok.mp h
  obtain ⟨⟨-, hsigned⟩, h⟩ := require_bind_eq_ok.mp h
  obtain ⟨blocks, hparse, h⟩ := bind_eq_ok.mp h
  split at h
  · cases h
  · obtain ⟨-, h⟩ := require_bind_eq_ok.mp h
    obtain ⟨extensions, hextensions, h⟩ := bind_eq_ok.mp h
    obtain rfl := Except.ok.inj h
    obtain rfl := decodeExtensions_eq hextensions
    exact ⟨data, _, rfl, hsigned, orMalformed_eq_ok.mp hparse⟩

/-- What is decoded with the state vector was in the Data that is decoded without it. -/
theorem decode_v3_ok {interest : Interest} {groupPrefix : Name}
    (h : decode cxx now interest groupPrefix .v3 true = .ok envelope) (now' : Nat) :
    ∃ judged data, decode cxx now' interest groupPrefix .v3 false = .ok judged ∧
      judged.stateVectorData = some data ∧
      SignedState data envelope.stateVector envelope.extensions := by
  obtain ⟨judged, vv, hjudged, hvv, rfl⟩ := (decode_two_steps now').mp h
  obtain ⟨first, -, hstate⟩ := decode_unjudged.mp hjudged
  obtain ⟨data, stateBlock, heq, hsigned, hparse⟩ := decodeStateData_ok hstate
  have hdata : judged.stateVectorData = some data := by rw [heq]
  obtain ⟨data', stateBlock', blocks, hdata', hparse', hdecode⟩ := decodeStateVector_v3_ok hvv
  obtain rfl := Option.some.inj (hdata.symm.trans hdata')
  obtain ⟨rfl, -⟩ := List.cons.inj (Option.some.inj (hparse.symm.trans hparse'))
  exact ⟨judged, data, hjudged, hdata, hsigned, now, stateBlock, hparse, hdecode⟩

end SyncProtocolCodec

namespace SVSyncCore

variable (cfg : CoreConfig)

/-- The Data that the validator judges for an Interest. -/
def judgedData (interest : Interest) : Option Data :=
  (SyncProtocolCodec.decode cfg.cxx 0 interest cfg.syncPrefix .v3 false).toOption.bind
    (·.stateVectorData)

/-- An Interest among those accepted has signed Data with the vector and the blocks. -/
def Vouched (accepted : List Interest) (vv : VersionVector) (extensions : List Block) : Prop :=
  ∃ interest ∈ accepted, ∃ data, judgedData cfg interest = some data ∧
    SyncProtocolCodec.SignedState data vv extensions

/-- An entry of a vector in the signed Data of an accepted Interest. -/
def VouchedEntry (accepted : List Interest) (e : VersionVector.Entry) : Prop :=
  ∃ vv extensions, Vouched cfg accepted vv extensions ∧ e ∈ vv.allEntries

/-- An extension block in the signed Data of an accepted Interest. -/
def VouchedBlock (accepted : List Interest) (b : Block) : Prop :=
  ∃ vv extensions, Vouched cfg accepted vv extensions ∧ b ∈ extensions

/-- The Interests that the validator has accepted, and the entries set by local calls. -/
structure Evidence where
  accepted : List Interest := []
  updates : List VersionVector.Entry := []

/-- The Interest that a verdict accepts. -/
def acceptedBy (c : SVSyncCore) : Occurrence → Option Interest
  | (.verdict index true, _) => c.validating[index]?
  | _ => none

def Evidence.add (g : Evidence) (c : SVSyncCore) (o : Occurrence) (_ : SVSyncCore) : Evidence where
  accepted := g.accepted ++ (c.acceptedBy o).toList
  updates := g.updates ++ o.1.assigns cfg

/-- Every entry and every block has a source. -/
structure Legitimate (g : Evidence) (c : SVSyncCore) : Prop where
  vv : ∀ e ∈ c.vv.allEntries, VouchedEntry cfg g.accepted e ∨ e ∈ g.updates
  recorded : ∀ r, c.recordedVv = some r → ∀ e ∈ r.allEntries, VouchedEntry cfg g.accepted e
  blocks : ∀ b ∈ Upcall.extensions c.upcalls, VouchedBlock cfg g.accepted b
  waits : ∀ job ∈ c.processing, job.interest ∈ g.accepted ∧
    ∀ e ∈ job.localVector.allEntries, VouchedEntry cfg g.accepted e ∨ e ∈ g.updates

variable {cfg} {env : CoreInputs} {c c' : SVSyncCore} {g g' : Evidence} {other : VersionVector}

theorem Vouched.mono {accepted accepted' : List Interest} {vv : VersionVector}
    {extensions : List Block} (h : Vouched cfg accepted vv extensions)
    (hsub : accepted ⊆ accepted') : Vouched cfg accepted' vv extensions := by
  obtain ⟨interest, hmem, hstate⟩ := h
  exact ⟨interest, hsub hmem, hstate⟩

theorem Legitimate.mono (h : Legitimate cfg g c) (haccepted : g.accepted ⊆ g'.accepted)
    (hupdates : g.updates ⊆ g'.updates) : Legitimate cfg g' c := by
  have hentry : ∀ e, VouchedEntry cfg g.accepted e → VouchedEntry cfg g'.accepted e :=
    fun e ⟨vv, extensions, hvouched, he⟩ => ⟨vv, extensions, hvouched.mono haccepted, he⟩
  refine ⟨fun e he => (h.vv e he).imp (hentry e) (@hupdates e),
    fun r hr e he => hentry e (h.recorded r hr e he), fun b hb => ?_,
    fun job hjob => ⟨haccepted (h.waits job hjob).1,
      fun e he => ((h.waits job hjob).2 e he).imp (hentry e) (@hupdates e)⟩⟩
  obtain ⟨vv, extensions, hvouched, hb⟩ := h.blocks b hb
  exact ⟨vv, extensions, hvouched.mono haccepted, hb⟩

/-- What an Interest decodes to is in the Data that was judged. -/
theorem envelopeOf_vouched (hv : cfg.version = .v3) {accepted : List Interest} {interest : Interest}
    (hmem : interest ∈ accepted) {envelope : DecodedSyncEnvelope}
    (h : envelopeOf cfg env interest = some envelope) :
    Vouched cfg accepted envelope.stateVector envelope.extensions := by
  have hdecode := envelopeOf_eq_some.mp h
  rw [hv] at hdecode
  obtain ⟨judged, data, hjudged, hdata, hstate⟩ := SyncProtocolCodec.decode_v3_ok hdecode 0
  exact ⟨interest, hmem, data, by simp [judgedData, hjudged, Except.toOption, hdata], hstate⟩

/-- A merge of legitimate entries, recorded and reported. -/
theorem Legitimate.merge (h : Legitimate cfg g c) {l : VersionVector}
    (hl : ∀ e ∈ l.allEntries, VouchedEntry cfg g.accepted e ∨ e ∈ g.updates)
    {envelope : DecodedSyncEnvelope}
    (henvelope : Vouched cfg g.accepted envelope.stateVector envelope.extensions)
    (incomingFace : Nat) (c₁ : SVSyncCore)
    (hc₁ : c₁ = { c with
      vv := (computeMergeStateVector l envelope.stateVector).mergedVector
      stateGeneration := c₁.stateGeneration
      upcalls := c.upcalls ++ upcallsFor envelope.extensions envelope.stateVector
        (computeMergeStateVector l envelope.stateVector).missingData incomingFace }) :
    Legitimate cfg g (c₁.afterMerge cfg env envelope.stateVector
      (computeMergeStateVector l envelope.stateVector).myVectorNew).1 := by
  have hother : ∀ e ∈ envelope.stateVector.allEntries, VouchedEntry cfg g.accepted e :=
    fun e he => ⟨_, _, henvelope, he⟩
  have hvv : c₁.vv = (computeMergeStateVector l envelope.stateVector).mergedVector := by rw [hc₁]
  have hupcalls : c₁.upcalls = c.upcalls ++ upcallsFor envelope.extensions envelope.stateVector
      (computeMergeStateVector l envelope.stateVector).missingData incomingFace := by rw [hc₁]
  have hrecorded : c₁.recordedVv = c.recordedVv := by rw [hc₁]
  have hprocessing : c₁.processing = c.processing := by rw [hc₁]
  have hnew : (computeMergeStateVector l envelope.stateVector).myVectorNew =
      exceeds c₁.vv envelope.stateVector := by
    rw [computeMerge_myVectorNew, hvv]
  rw [hnew, afterMerge_eq]
  refine ⟨fun e he => ?_, fun r hr e he => ?_, fun b hb => ?_, ?_⟩
  · simp only [hvv, VersionVector.mem_allEntries] at he
    rcases entryAt_computeMerge he with he | he
    · exact hl e (VersionVector.mem_allEntries.mpr he)
    · exact .inl (hother e (VersionVector.mem_allEntries.mpr he))
  · simp only [recordedAfter, hrecorded] at hr
    split at hr
    · rename_i r₀ hr₀
      obtain rfl := Option.some.inj hr
      rcases entryAt_recordEntries (VersionVector.mem_allEntries.mp he) with he | he
      · exact h.recorded r₀ hr₀ e (VersionVector.mem_allEntries.mpr he)
      · exact hother e (VersionVector.mem_allEntries.mpr he)
    · split at hr
      · obtain rfl := Option.some.inj hr
        exact hother e he
      · cases hr
  · simp only [hupcalls, Upcall.extensions_append, extensions_upcallsFor] at hb
    rcases List.mem_append.mp hb with hb | hb
    · exact h.blocks b hb
    · exact ⟨_, _, henvelope, hb⟩
  · simp only [hprocessing]
    exact h.waits

/-! ### Handlers -/

theorem Legitimate.rests (h : Legitimate cfg g c) (hrests : Rests c c') : Legitimate cfg g c' := by
  refine ⟨hrests.vv ▸ h.vv, fun r hr => ?_, hrests.upcalls ▸ h.blocks, hrests.processing ▸ h.waits⟩
  rcases hrests.recorded with hsame | hnone
  · exact h.recorded r (hsame ▸ hr)
  · rw [hnone] at hr
    cases hr

theorem Legitimate.mergeStateVector (h : Legitimate cfg g c)
    (hother : ∀ e ∈ other.allEntries, VouchedEntry cfg g.accepted e) :
    Legitimate cfg g (c.mergeStateVector other).1 := by
  refine ⟨fun e he => ?_, h.recorded, h.blocks, h.waits⟩
  rcases entryAt_computeMerge (VersionVector.mem_allEntries.mp he) with he | he
  · exact h.vv e (VersionVector.mem_allEntries.mpr he)
  · exact .inl (hother e (VersionVector.mem_allEntries.mpr he))

theorem Legitimate.sendUnlessSuppressed (h : Legitimate cfg g c) :
    Legitimate cfg g (c.sendUnlessSuppressed cfg env).1 := by
  unfold SVSyncCore.sendUnlessSuppressed
  split
  · exact h.rests (sendSyncInterest_sendsOnly _ _ c).rests
  · rename_i recorded hrecorded
    have hmerged := h.mergeStateVector (h.recorded recorded hrecorded)
    simp only
    split
    · exact hmerged.rests (sendSyncInterest_sendsOnly _ _ _).rests
    · exact hmerged

theorem Legitimate.retxSyncInterest (h : Legitimate cfg g c) (delay : Nat) :
    Legitimate cfg g (c.retxSyncInterest cfg env true delay).1 := by
  have hsend : Legitimate cfg g (c.sendUnlessSuppressed cfg env).1 := h.sendUnlessSuppressed
  rcases retxSyncInterest_cases cfg env c delay with ⟨-, hretx⟩ | ⟨-, hretx⟩
  · rw [hretx]
    exact hsend
  · rw [hretx]
    exact hsend.rests ((dropRecorded_rests _).trans (scheduleRetx_rests _ _))

theorem Legitimate.onSyncInterestValidatedSerial (hv : cfg.version = .v3) (h : Legitimate cfg g c)
    {interest : Interest} (hmem : interest ∈ g.accepted) :
    Legitimate cfg g (c.onSyncInterestValidatedSerial cfg env interest).1 := by
  cases henvelope : envelopeOf cfg env interest with
  | none =>
    rw [onSyncInterestValidatedSerial_none henvelope]
    exact h
  | some envelope =>
    rw [SVSyncCore.onSyncInterestValidatedSerial, envelopeOf_eq_some.mp henvelope]
    exact h.merge h.vv (envelopeOf_vouched hv hmem henvelope) _ _ rfl

theorem Legitimate.onSyncInterestValidated (hv : cfg.version = .v3) (h : Legitimate cfg g c)
    {interest : Interest} (hmem : interest ∈ g.accepted) :
    Legitimate cfg g (c.onSyncInterestValidated cfg env interest).1 := by
  by_cases hserial : ¬c.parallelSyncProcessing ∨ env.queueFull
  · rw [onSyncInterestValidated_serial hserial]
    exact h.onSyncInterestValidatedSerial hv hmem
  · rw [onSyncInterestValidated_queued hserial]
    refine ⟨h.vv, h.recorded, h.blocks, fun job hjob => ?_⟩
    rcases List.mem_append.mp hjob with hjob | hjob
    · exact h.waits job hjob
    · obtain rfl := List.mem_singleton.mp hjob
      exact ⟨hmem, h.vv⟩

/-- The result of a worker: its snapshot was legitimate when it was taken. -/
theorem Legitimate.processSyncInterestResult (hv : cfg.version = .v3) (h : Legitimate cfg g c)
    {job : SyncProcessingJob} (hmem : job.interest ∈ g.accepted)
    (hjob : ∀ e ∈ job.localVector.allEntries, VouchedEntry cfg g.accepted e ∨ e ∈ g.updates) :
    Legitimate cfg g (c.processSyncInterestResult cfg env job).1 := by
  cases henvelope : envelopeOf cfg env job.interest with
  | none =>
    rw [processSyncInterestResult_none henvelope]
    exact h
  | some envelope =>
    rw [SVSyncCore.processSyncInterestResult, envelopeOf_eq_some.mp henvelope]
    simp only
    split
    · exact h.onSyncInterestValidatedSerial hv hmem
    · exact h.merge hjob (envelopeOf_vouched hv hmem henvelope) _ _ rfl

theorem Legitimate.assigned (h : Legitimate cfg g c) {seq : SeqNo} {b : BootstrapTime}
    {nid : NodeID} (hmem : ⟨targetNode cfg nid, b, seq⟩ ∈ g.updates) :
    Legitimate cfg g (c.assigned cfg seq b nid) := by
  refine ⟨fun e he => ?_, h.recorded, h.blocks, h.waits⟩
  have hentry := VersionVector.mem_allEntries.mp he
  rw [SVSyncCore.assigned, VersionVector.entryAt_put] at hentry
  split at hentry
  · rename_i hkey
    obtain ⟨hnid, hb⟩ := hkey
    obtain rfl : e = ⟨targetNode cfg nid, b, seq⟩ := by
      cases e
      simp_all
    exact .inr hmem
  · exact h.vv e (VersionVector.mem_allEntries.mpr hentry)

theorem admission_ne_accepted (hv : cfg.version = .v3) (hvalidator : cfg.validator)
    (interest : Interest) : admission cfg env interest ≠ .accepted := by
  rw [admission, hv]
  simp only
  split
  · simp
  · rw [if_pos hvalidator]
    split <;> simp

/-- An Interest that arrives waits for the validator at most. -/
theorem receives_interest (hv : cfg.version = .v3) (hvalidator : cfg.validator)
    (interest : Interest) : c.receives cfg (.interest interest, env) = none := by
  simp [receives, processes, admits, admission_ne_accepted hv hvalidator]

theorem receives_refused (index : Nat) : c.receives cfg (.verdict index false, env) = none := by
  simp [receives, processes, admits]

theorem step_legitimate (hv : cfg.version = .v3) (hvalidator : cfg.validator)
    (h : Legitimate cfg g c) {o : Occurrence} (hstep : c.next cfg o = some c') :
    Legitimate cfg (g.add cfg c o c') c' := by
  obtain ⟨e, env⟩ := o
  have hmono : Legitimate cfg (g.add cfg c (e, env) c') c :=
    h.mono (List.subset_append_left _ _) (List.subset_append_left _ _)
  generalize hg : g.add cfg c (e, env) c' = g' at hmono ⊢
  cases e with
  | initialInterest =>
    obtain rfl := Option.some.inj hstep
    have hinit : Legitimate cfg g' { c with initialized := true } := { hmono with }
    exact hinit.retxSyncInterest 0
  | retransmission =>
    simp only [next, step] at hstep
    split at hstep
    · obtain rfl := Option.some.inj hstep
      have hretx : Legitimate cfg g' { c with retxEvent := none } := { hmono with }
      exact hretx.retxSyncInterest 0
    · cases hstep
  | publicationBatch =>
    simp only [next, step] at hstep
    split at hstep
    · obtain rfl := Option.some.inj hstep
      have hbatch : Legitimate cfg g' { c with publicationSyncPending := false } := { hmono with }
      exact hbatch.rests (sendLocalPublicationSyncInterest_rests _)
    · cases hstep
  | interest arrived =>
    obtain rfl := Option.some.inj hstep
    rw [onSyncInterest_eq]
    cases hadmission : admission cfg env arrived with
    | refused => exact hmono
    | judged => exact { hmono with }
    | accepted => exact absurd hadmission (admission_ne_accepted hv hvalidator arrived)
  | verdict index accepted =>
    simp only [next, step] at hstep
    split at hstep
    · cases hstep
    · rename_i interest hindex
      have herased : Legitimate cfg g' { c with validating := c.validating.eraseIdx index } :=
        { hmono with }
      split at hstep
      · rename_i haccepted
        obtain rfl := Option.some.inj hstep
        refine herased.onSyncInterestValidated hv ?_
        subst hg
        simp [Evidence.add, acceptedBy, haccepted, hindex]
      · obtain rfl := Option.some.inj hstep
        exact herased
  | processingResult index =>
    simp only [next, step] at hstep
    split at hstep
    · cases hstep
    · rename_i job hindex
      obtain rfl := Option.some.inj hstep
      have herased : Legitimate cfg g' { c with processing := c.processing.eraseIdx index } :=
        { hmono with waits := fun job hjob => hmono.waits job (List.mem_of_mem_eraseIdx hjob) }
      obtain ⟨hmem, hvector⟩ := hmono.waits job (List.mem_of_getElem? hindex)
      exact herased.processSyncInterestResult hv hmem hvector
  | productionResult index =>
    simp only [next, step] at hstep
    split at hstep
    · cases hstep
    · rename_i job hindex
      obtain rfl := Option.some.inj hstep
      have herased : Legitimate cfg g' { c with production := c.production.eraseIdx index } :=
        { hmono with }
      exact herased.rests (processSyncProductionResult_sendsOnly _ _ _ job).rests
  | updateSeqNo seq b nid =>
    obtain rfl := Option.some.inj hstep
    by_cases hseq : seq = 0
    · rw [hseq, updateSeqNo_zero]
      exact hmono
    · refine (hmono.assigned ?_).rests (updateSeqNo_rests hseq b nid)
      subst hg
      simp [Evidence.add, Event.assigns, hseq]
  | setParallelSyncProcessing enabled =>
    obtain rfl := Option.some.inj hstep
    cases enabled with
    | true => exact { hmono with }
    | false => exact { hmono with waits := fun job hjob => absurd hjob List.not_mem_nil }
  | setMaxSuppressionTime delay =>
    obtain rfl := Option.some.inj hstep
    exact { hmono with }
  | setSyncInterestBatching enabled =>
    obtain rfl := Option.some.inj hstep
    exact { hmono with }
  | setParallelSyncProduction enabled signInWorker buildExtraBlockInWorker =>
    obtain rfl := Option.some.inj hstep
    exact { hmono with }

theorem legitimate_initial : Legitimate cfg {} {} := by
  refine ⟨fun e he => ?_, fun r hr => (by cases hr), fun b hb => absurd hb List.not_mem_nil,
    fun job hjob => absurd hjob List.not_mem_nil⟩
  have hentry := VersionVector.mem_allEntries.mp he
  simp at hentry

theorem run_legitimate (hv : cfg.version = .v3) (hvalidator : cfg.validator) {os : List Occurrence}
    (hrun : run (noting (next cfg) (Evidence.add cfg)) ({}, {}) os = some (c, g)) :
    Legitimate cfg g c :=
  run_invariant (P := fun p : SVSyncCore × Evidence => Legitimate cfg p.2 p.1)
    (fun p o p' hstep hp => by
      obtain ⟨hstep, hnote⟩ := noting_eq_some.mp hstep
      rw [hnote]
      exact step_legitimate hv hvalidator hp hstep) legitimate_initial hrun

/-- The vectors and the timer are as they were. -/
def Untouched (c c' : SVSyncCore) : Prop :=
  c'.vv = c.vv ∧ c'.recordedVv = c.recordedVv ∧ c'.retxEvent = c.retxEvent ∧
    c'.nextSyncInterest = c.nextSyncInterest

theorem step_untouched {e : Event} (he : e.isReceipt) (hstep : c.step cfg env e = some c')
    (h : c.receives cfg (e, env) = none) : Untouched c c' := by
  rw [step_unreceived he hstep h]
  exact ⟨rfl, rfl, rfl, rfl⟩

/-- In every state reached, what the core holds and has handed on was vouched for by the validator
or set by a local call.  An Interest that arrives or is refused, and an accepted one that does not
decode, leaves the vectors and the timer as they were. -/
theorem only_validated_state (hv : cfg.version = .v3) (hvalidator : cfg.validator)
    {os : List Occurrence}
    (hrun : run (noting (next cfg) (Evidence.add cfg)) ({}, {}) os = some (c, g)) :
    (∀ e ∈ c.vv.allEntries, VouchedEntry cfg g.accepted e ∨ e ∈ g.updates) ∧
    (∀ r, c.recordedVv = some r → ∀ e ∈ r.allEntries, VouchedEntry cfg g.accepted e) ∧
    (∀ b ∈ Upcall.extensions c.upcalls, VouchedBlock cfg g.accepted b) ∧
    ∀ env c',
      (∀ interest, c.step cfg env (.interest interest) = some c' → Untouched c c') ∧
      (∀ index, c.step cfg env (.verdict index false) = some c' → Untouched c c') ∧
      ∀ e, e.isReceipt → c.receives cfg (e, env) = none → c.step cfg env e = some c' →
        Untouched c c' := by
  have h := run_legitimate hv hvalidator hrun
  refine ⟨h.vv, h.recorded, h.blocks, fun env c' =>
    ⟨fun interest hstep => ?_, fun index hstep => ?_,
    fun e he hnone hstep => step_untouched he hstep hnone⟩⟩
  · exact step_untouched rfl hstep (receives_interest hv hvalidator interest)
  · exact step_untouched rfl hstep (receives_refused index)

/-- An accepted Interest with an extension block, and one that is refused. -/
def judgedRun : List Occurrence :=
  let cfg := { sampleConfig with validator := true }
  [(.interest (carrying cfg (sampleVector 2) [Block.ofNumber tlv.mappingData 1]), sampleInputs),
    (.interest (carrying cfg (sampleVector 3) []), sampleInputs),
    (.verdict 1 false, sampleInputs), (.verdict 0 true, sampleInputs)]

theorem only_validated_state_judged :
    let cfg := { sampleConfig with validator := true }
    let p := (run (noting (next cfg) (Evidence.add cfg)) ({}, {}) judgedRun).get (by decide +kernel)
    p.1.vv.get (Name.ofStrings ["b"]) 100 = 2 ∧
    (∀ e ∈ p.1.vv.allEntries, VouchedEntry cfg p.2.accepted e ∨ e ∈ p.2.updates) ∧
    (∀ r, p.1.recordedVv = some r → ∀ e ∈ r.allEntries, VouchedEntry cfg p.2.accepted e) ∧
    (∀ b ∈ Upcall.extensions p.1.upcalls, VouchedBlock cfg p.2.accepted b) ∧
    ∀ env c',
      (∀ interest, p.1.step cfg env (.interest interest) = some c' → Untouched p.1 c') ∧
      (∀ index, p.1.step cfg env (.verdict index false) = some c' → Untouched p.1 c') ∧
      ∀ e, e.isReceipt → p.1.receives cfg (e, env) = none → p.1.step cfg env e = some c' →
        Untouched p.1 c' := by
  intro cfg p
  have hrun : run (noting (next cfg) (Evidence.add cfg)) ({}, {}) judgedRun = some p :=
    (Option.some_get _).symm
  have hentry : p.1.vv.get (Name.ofStrings ["b"]) 100 = 2 := by decide +kernel
  clear_value p
  exact ⟨hentry, only_validated_state rfl rfl hrun⟩

end SVSyncCore

end NdnSvs
