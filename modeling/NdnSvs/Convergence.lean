import NdnSvs.Network
import NdnSvs.PacketFormat

/-! Convergence of a group.  Every run of the network is matched by a run of replicas that gossip
vectors under the pointwise maximum, so the vector of a node is the maximum over the local updates
in its causal past. -/

namespace NdnSvs

open Lib Lib.Tlv Lib.Gossip

/-- A vector as a function, ordered pointwise. -/
def VersionVector.view (v : VersionVector) : NodeID × BootstrapTime → Nat := fun k => v.get k.1 k.2

theorem VersionVector.Same.view_eq {v w : VersionVector} (h : v.Same w) : v.view = w.view :=
  funext fun k => h.get k.1 k.2

@[simp] theorem VersionVector.view_empty : ({} : VersionVector).view = ⊥ :=
  funext fun k => VersionVector.get_empty k.1 k.2

namespace Network

variable {ι : Type} [DecidableEq ι]

/-- What an update contributes: its number at its own entry. -/
def contribution (u : LocalUpdate ι) : NodeID × BootstrapTime → Nat :=
  fun k => if (u.nid, u.bootstrapTime) = k then u.seqNo else 0

/-- The largest number among the updates of one entry. -/
def latest (past : Past ι) (nid : NodeID) (b : BootstrapTime) : SeqNo :=
  (past.filter fun u => u.nid = nid ∧ u.bootstrapTime = b).sup (·.seqNo)

omit [DecidableEq ι] in
theorem sup_contribution (past : Past ι) (nid : NodeID) (b : BootstrapTime) :
    (past.sup contribution) (nid, b) = latest past nid b := by
  have hzero : ∀ s : Past ι, (s.sup fun _ => (0 : Nat)) = 0 := fun s => Finset.sup_bot s
  simp only [Finset.sup_apply, latest, contribution, Prod.mk.injEq, Finset.sup_ite, hzero]
  exact max_eq_left (Nat.zero_le _)

abbrev Gossip (ι : Type) := System ι (LocalUpdate ι) (NodeID × BootstrapTime → Nat)

variable (g : Group ι) (limit : BootstrapTime)

/-- An Interest whose vector some replica emitted with the given past. -/
def Emitted (s : Gossip ι) (interest : Interest) (past : Past ι) : Prop :=
  ∃ j vv sent face, SVSyncCore.Carries (g.config j) vv sent ∧ vv.Acceptable limit ∧
    interest = { sent with incomingFaceId := face } ∧ ⟨past, vv.view⟩ ∈ s.messages

/-- A core and its history agree with a replica. -/
structure NodeRefines (i : ι) (c : SVSyncCore) (h : History ι) (s : Gossip ι) : Prop where
  replica : s.replica i = ⟨h.past, c.vv.view⟩
  acceptable : c.vv.Acceptable limit
  recorded : ∀ r, c.recordedVv = some r → r.view ≤ c.vv.view ∧ r.Acceptable limit
  validating_eq : h.validating.map Prod.fst = c.validating
  validating : ∀ e ∈ h.validating, Emitted g limit s e.1 e.2
  processing_eq : h.processing.map Prod.fst = c.processing
  processing : ∀ e ∈ h.processing, Emitted g limit s e.1.interest e.2
  snapshot : ∀ job ∈ c.processing, job.stateGeneration ≤ c.stateGeneration ∧
    (job.stateGeneration = c.stateGeneration → job.localVector.Same c.vv)
  production_eq : h.production.map Prod.fst = c.production
  production : ∀ e ∈ h.production, e.1.localVector.Acceptable limit ∧
    ⟨e.2, e.1.localVector.view⟩ ∈ s.messages

/-- A network agrees with a system of replicas. -/
structure Refines (n : Network ι) (s : Gossip ι) : Prop where
  node : ∀ i, NodeRefines g limit i (n.core i) (n.history i) s
  message : ∀ m ∈ n.messages, Emitted g limit s m.interest m.past

variable {g limit}

omit [DecidableEq ι] in
theorem Emitted.mono {s s' : Gossip ι} {interest : Interest} {past : Past ι}
    (h : Emitted g limit s interest past) (hs : s.messages ⊆ s'.messages) :
    Emitted g limit s' interest past := by
  obtain ⟨j, vv, sent, face, hcarries, hacc, heq, hmem⟩ := h
  exact ⟨j, vv, sent, face, hcarries, hacc, heq, hs hmem⟩

omit [DecidableEq ι] in
theorem NodeRefines.mono {i : ι} {c : SVSyncCore} {h : History ι} {s s' : Gossip ι}
    (hn : NodeRefines g limit i c h s) (hs : s.messages ⊆ s'.messages)
    (hi : s'.replica i = s.replica i) : NodeRefines g limit i c h s' :=
  { hn with
    replica := hi.trans hn.replica
    validating := fun e he => (hn.validating e he).mono hs
    processing := fun e he => (hn.processing e he).mono hs
    production := fun e he => ⟨(hn.production e he).1, hs (hn.production e he).2⟩ }

omit [DecidableEq ι] in
/-- An Interest that a replica emitted decodes, at a receiver whose clock is not too far behind, to
the vector it carries. -/
theorem Emitted.decodesTo {s : Gossip ι} {interest : Interest} {past : Past ι}
    (h : Emitted g limit s interest past) (i : ι) {env : CoreInputs}
    (hclock : limit ≤ env.clock + 86400) :
    ∃ other, SVSyncCore.decodesTo (g.config i) env interest other ∧ other.Acceptable limit ∧
      ⟨past, other.view⟩ ∈ s.messages := by
  obtain ⟨j, vv, sent, face, ⟨hsize, env', extensions, hencode⟩, hacc, rfl, hmem⟩ := h
  rw [SVSyncCore.encodeSyncInterest_v3 rfl] at hencode
  obtain ⟨envelope, hdecode, -, -, hsame⟩ :=
    @SyncProtocolCodec.decode_encode _ env.clock _ _ _ _ _ _
    g.plain hencode (SyncProtocolCodec.size_lt hsize) (hacc.mono hclock) true
  have hsame := hsame rfl
  refine ⟨envelope.stateVector, ⟨envelope, hdecode, rfl⟩, ?_, ?_⟩
  · rw [VersionVector.acceptable_iff] at hacc ⊢
    exact fun nid b s hs => hacc nid b s (hsame nid b ▸ hs)
  · rw [hsame.view_eq]
    exact hmem

/-- The replicas have gone on until one of them has become `r` and sent it; the others are as they
were. -/
structure Advances (i : ι) (r : Replica (LocalUpdate ι) (NodeID × BootstrapTime → Nat))
    (s s' : Gossip ι) : Prop where
  steps : Relation.ReflTransGen (Step contribution) s s'
  messages : s.messages ⊆ s'.messages
  replica : s'.replica i = r
  sent : r ∈ s'.messages
  others : ∀ j, j ≠ i → s'.replica j = s.replica j

theorem advances_stay (s : Gossip ι) (i : ι) : Advances i (s.replica i) s (s.emit i) :=
  ⟨.single (.emit s i), Set.subset_insert .., rfl, Set.mem_insert .., fun _ _ => rfl⟩

theorem advances_deliver {s : Gossip ι} {m} (i : ι) (hm : m ∈ s.messages) :
    Advances i ⟨(s.replica i).past ∪ m.past, (s.replica i).value ⊔ m.value⟩ s
      ((s.deliver i m).emit i) := by
  have hself : (s.deliver i m).replica i =
      ⟨(s.replica i).past ∪ m.past, (s.replica i).value ⊔ m.value⟩ := System.set_replica_self ..
  refine ⟨(Relation.ReflTransGen.single (.deliver s i m hm)).tail (.emit _ i),
    Set.subset_insert .., hself, ?_, fun j hj => System.set_replica_ne s _ hj⟩
  exact Set.mem_insert_iff.mpr (.inl hself.symm)

/-- A network step at one node keeps the agreement when that node's new state agrees and its new
messages carry what it sent. -/
theorem Refines.commit {n : Network ι} {s s' : Gossip ι} (hn : Refines g limit n s) {i : ι} {r}
    (hadv : Advances i r s s') {c' : SVSyncCore} {h' : History ι} {past : Past ι}
    (hnode : NodeRefines g limit i c' h' s')
    (hsent : ∀ interest ∈ c'.sent.drop (n.core i).sent.length,
      Emitted g limit s' interest past) :
    Refines g limit (n.commit i c' h' past) s' := by
  refine ⟨fun j => ?_, fun m hm => ?_⟩
  · simp only [Network.commit]
    by_cases hj : j = i
    · subst hj
      rw [Function.update_self, Function.update_self]
      exact hnode
    · rw [Function.update_of_ne hj, Function.update_of_ne hj]
      exact (hn.node j).mono hadv.messages (hadv.others j hj)
  · rcases List.mem_append.mp hm with hm | hm
    · exact (hn.message m hm).mono hadv.messages
    · obtain ⟨interest, hinterest, rfl⟩ := List.mem_map.mp hm
      exact hsent interest hinterest

omit [DecidableEq ι] in
theorem carries_emitted {s : Gossip ι} {i : ι} {past : Past ι} {vv : VersionVector}
    {interest : Interest} (hcarries : SVSyncCore.Carries (g.config i) vv interest)
    (hacc : vv.Acceptable limit) (hmem : ⟨past, vv.view⟩ ∈ s.messages) :
    Emitted g limit s interest past :=
  ⟨i, vv, interest, interest.incomingFaceId, hcarries, hacc, rfl, hmem⟩

/-- A core that has taken in a vector agrees with a replica that has taken it in. -/
theorem NodeRefines.absorbs {i : ι} {c c' : SVSyncCore} {h : History ι} {s s' : Gossip ι}
    {other : VersionVector} {past : Past ι} (hn : NodeRefines g limit i c h s)
    (habs : SVSyncCore.Absorbs (g.config i) other c c') (hother : other.Acceptable limit)
    (hadv : Advances i ⟨past, c'.vv.view⟩ s s') :
    NodeRefines g limit i c' (h.settle c c' past) s' ∧
      ∀ interest ∈ c'.sent.drop c.sent.length, Emitted g limit s' interest past := by
  have hle : c.vv.view ≤ c'.vv.view := fun k => by
    simp only [VersionVector.view, habs.get]
    exact le_max_left ..
  have hother_le : other.view ≤ c'.vv.view := fun k => by
    simp only [VersionVector.view, habs.get]
    exact le_max_right ..
  have hacc : c'.vv.Acceptable limit := hn.acceptable.of_entries hother habs.entry
  obtain ⟨jobs, hjobs, hown⟩ := habs.production
  obtain ⟨interests, hsent, hcarries⟩ := habs.sent
  refine ⟨⟨hadv.replica, hacc, fun r' hr' => ?_, ?_, ?_, ?_, ?_, ?_, ?_, ?_⟩, ?_⟩
  · rcases habs.recorded r' hr' with hr | rfl | ⟨r, hr, rfl⟩
    · exact ⟨(hn.recorded r' hr).1.trans hle, (hn.recorded r' hr).2⟩
    · exact ⟨hother_le, hother⟩
    · obtain ⟨hr_le, hr_acc⟩ := hn.recorded r hr
      refine ⟨fun k => ?_, hr_acc.of_entries hother fun _ _ _ => entryAt_recordEntries⟩
      simp only [VersionVector.view, get_recordEntries]
      exact max_le ((hr_le.trans hle) k) (hother_le k)
  · rw [habs.validating]
    exact hn.validating_eq
  · exact fun e he => (hn.validating e he).mono hadv.messages
  · rw [habs.processing]
    exact hn.processing_eq
  · exact fun e he => (hn.processing e he).mono hadv.messages
  · intro job hjob
    rw [habs.processing] at hjob
    obtain ⟨hgen, hsame⟩ := hn.snapshot job hjob
    refine ⟨hgen.trans habs.generation_le, fun heq => ?_⟩
    have hkept : c'.stateGeneration = c.stateGeneration := by
      have := habs.generation_le
      omega
    exact (hsame (heq.trans hkept)).trans (habs.unchanged hkept).symm
  · rw [hjobs, ← hn.production_eq]
    simp [History.settle, hjobs, Function.comp_def]
  · intro e he
    rcases List.mem_append.mp he with he | he
    · exact ⟨(hn.production e he).1, hadv.messages (hn.production e he).2⟩
    · obtain ⟨job, hjob, rfl⟩ := List.mem_map.mp he
      rw [hjobs, List.drop_left] at hjob
      rw [hown job hjob]
      exact ⟨hacc, hadv.sent⟩
  · intro interest hinterest
    rw [hsent, List.drop_left] at hinterest
    exact carries_emitted (hcarries interest hinterest) hacc hadv.sent

variable (g limit) in
/-- A step of one node from `c` to `c'` is matched by steps of the replicas. -/
def Matched (i : ι) (c c' : SVSyncCore) (h' : History ι) (past : Past ι) (s : Gossip ι) : Prop :=
  ∃ r s', Advances i r s s' ∧ NodeRefines g limit i c' h' s' ∧
    ∀ interest ∈ c'.sent.drop c.sent.length, Emitted g limit s' interest past

variable {i : ι} {c c' : SVSyncCore} {h : History ι} {s : Gossip ι} {env : CoreInputs}

/-- A step that sends nothing and keeps the vector. -/
theorem matched_of_quiet {h' : History ι} {past : Past ι} (hn : NodeRefines g limit i c h s)
    (hsent : c'.sent = c.sent)
    (hn' : ∀ s' : Gossip ι, s.messages ⊆ s'.messages → s'.replica i = s.replica i →
      NodeRefines g limit i c h s' → NodeRefines g limit i c' h' s') :
    Matched g limit i c c' h' past s := by
  have hadv := advances_stay s i
  refine ⟨_, _, hadv, hn' _ hadv.messages hadv.replica (hn.mono hadv.messages hadv.replica), ?_⟩
  simp [hsent]

theorem matched_of_absorbs {other : VersionVector} {past : Past ι}
    (hn : NodeRefines g limit i c h s) (habs : SVSyncCore.Absorbs (g.config i) other c c')
    (hacc : other.Acceptable limit) (hmem : ⟨past, other.view⟩ ∈ s.messages) :
    Matched g limit i c c' (h.settle c c' (h.past ∪ past)) (h.past ∪ past) s := by
  have hadv := advances_deliver i hmem
  have hview : c'.vv.view = c.vv.view ⊔ other.view := funext fun k => habs.get k.1 k.2
  rw [hn.replica, ← hview] at hadv
  obtain ⟨hnode, hsent⟩ := hn.absorbs habs hacc hadv
  exact ⟨_, _, hadv, hnode, hsent⟩

/-- A step that takes in at most what the node already knew. -/
theorem matched_of_absorbs_known {other : VersionVector} (hn : NodeRefines g limit i c h s)
    (habs : SVSyncCore.Absorbs (g.config i) other c c') (hacc : other.Acceptable limit)
    (hle : other.view ≤ c.vv.view) :
    Matched g limit i c c' (h.settle c c' h.past) h.past s := by
  have hadv := advances_stay s i
  have hview : c'.vv.view = c.vv.view := funext fun k => (habs.get k.1 k.2).trans
    (max_eq_left (hle k))
  rw [hn.replica, ← hview] at hadv
  obtain ⟨hnode, hsent⟩ := hn.absorbs habs hacc hadv
  exact ⟨_, _, hadv, hnode, hsent⟩

theorem matched_of_emits (hn : NodeRefines g limit i c h s)
    (hemits : SVSyncCore.Emits (g.config i) c c') :
    Matched g limit i c c' (h.settle c c' h.past) h.past s :=
  matched_of_absorbs_known hn hemits.absorbs (VersionVector.acceptable_empty limit)
    (by rw [VersionVector.view_empty]; exact bot_le)

omit [DecidableEq ι] in
theorem recorded_known (hn : NodeRefines g limit i c h s) :
    (c.recordedVv.getD {}).Acceptable limit ∧ (c.recordedVv.getD {}).view ≤ c.vv.view := by
  cases hr : c.recordedVv with
  | none => exact ⟨VersionVector.acceptable_empty limit, by simp⟩
  | some r => exact ⟨(hn.recorded r hr).2, (hn.recorded r hr).1⟩

omit [DecidableEq ι] in
theorem decodesTo_unique {cfg : CoreConfig} {interest : Interest} {v w : VersionVector}
    (hv : SVSyncCore.decodesTo cfg env interest v) (hw : SVSyncCore.decodesTo cfg env interest w) :
    v = w := by
  obtain ⟨e, he, rfl⟩ := hv
  obtain ⟨e', he', rfl⟩ := hw
  rw [he] at he'
  rw [Except.ok.inj he']

theorem receive_settle {interest : Interest} {past : Past ι}
    (hvalidating : c'.validating = c.validating) (hprocessing : c'.processing = c.processing) :
    h.receive c c' interest past = h.settle c c' (h.past ∪ past) := by
  rw [History.receive, hvalidating, if_neg (lt_irrefl _), hprocessing, List.drop_length]

/-- An Interest that the validator accepted, or that needs no validation. -/
theorem matched_validated {interest : Interest} {past : Past ι} (hn : NodeRefines g limit i c h s)
    (hemitted : Emitted g limit s interest past) (hclock : limit ≤ env.clock + 86400) :
    let c' := (c.onSyncInterestValidated (g.config i) env interest).1
    let h' := h.receive c c' interest past
    Matched g limit i c c' h' h'.past s := by
  obtain ⟨other, hdecodes, hacc, hmem⟩ := hemitted.decodesTo i hclock
  intro c' h'
  rcases SVSyncCore.onSyncInterestValidated_cases (g.config i) env c interest with
    hqueued | hserial
  · have hc' : c' = _ := hqueued
    have hh' : h' = { h with processing := h.processing ++
        [(⟨interest, c.vv, c.stateGeneration, interest.incomingFaceId.getD 0⟩, past)] } := by
      simp [h', hc', History.receive]
    rw [hh', hc']
    refine matched_of_quiet hn rfl fun s' hsub _ hn' => ?_
    refine { hn' with
      processing_eq := by simp [hn'.processing_eq]
      processing := fun e he => ?_
      snapshot := fun job hjob => ?_ }
    · rcases List.mem_append.mp he with he | he
      · exact hn'.processing e he
      · obtain rfl := List.mem_singleton.mp he
        exact hemitted.mono hsub
    · rcases List.mem_append.mp hjob with hjob | hjob
      · exact hn'.snapshot job hjob
      · obtain rfl := List.mem_singleton.mp hjob
        exact ⟨le_rfl, fun _ => .refl _⟩
  · have hc' : c' = (c.onSyncInterestValidatedSerial (g.config i) env interest).1 := hserial
    rcases SVSyncCore.onSyncInterestValidatedSerial_cases (g.config i) env c
      interest with ⟨-, hnone⟩ | ⟨v, hv, habs⟩
    · exact absurd hdecodes (hnone other)
    · obtain rfl := decodesTo_unique hdecodes hv
      rw [← hc'] at habs
      have hh' : h' = h.settle c c' (h.past ∪ past) :=
        receive_settle habs.validating habs.processing
      rw [hh']
      exact matched_of_absorbs hn habs hacc hmem

omit [DecidableEq ι] in
/-- An Interest that a replica emitted passes the checks before validation. -/
theorem onSyncInterest_emitted {interest : Interest} {past : Past ι}
    (hemitted : Emitted g limit s interest past) (hclock : limit ≤ env.clock + 86400) :
    (c.onSyncInterest (g.config i) env interest).1 =
      if (g.config i).validator then { c with validating := c.validating ++ [interest] }
      else (c.onSyncInterestValidated (g.config i) env interest).1 := by
  obtain ⟨j, vv, sent, face, ⟨hsize, env', extensions, hencode⟩, hacc, rfl, -⟩ := hemitted
  rw [SVSyncCore.encodeSyncInterest_v3 rfl] at hencode
  obtain ⟨envelope, hdecode, hdata, -, -⟩ :=
    @SyncProtocolCodec.decode_encode _ env.clock _ _ _ _ _ _
    g.plain hencode (SyncProtocolCodec.size_lt hsize) (hacc.mono hclock) false
  have hdecode : SyncProtocolCodec.decode (g.config i).cxx env.clock
      { sent with incomingFaceId := face } (g.config i).syncPrefix .v3 false =
        .ok envelope := hdecode
  have hversion : (g.config i).version = .v3 := rfl
  simp only [SVSyncCore.onSyncInterest, hversion, hdecode]
  rw [if_neg (by simpa using Option.isSome_iff_ne_none.mp hdata)]
  split <;> rfl

theorem matched_deliver {interest : Interest} {past : Past ι} (hn : NodeRefines g limit i c h s)
    (hemitted : Emitted g limit s interest past) (hclock : limit ≤ env.clock + 86400) :
    let c' := (c.onSyncInterest (g.config i) env interest).1
    let h' := h.receive c c' interest past
    Matched g limit i c c' h' h'.past s := by
  rw [onSyncInterest_emitted hemitted hclock]
  by_cases hvalidator : (g.config i).validator
  · rw [if_pos hvalidator]
    have hreceive : h.receive c { c with validating := c.validating ++ [interest] } interest past =
        { h with validating := h.validating ++ [(interest, past)] } := by
      simp [History.receive]
    intro c' h'
    have hh' : h' = { h with validating := h.validating ++ [(interest, past)] } := hreceive
    rw [hh']
    refine matched_of_quiet hn rfl fun s' hsub _ hn' => ?_
    refine { hn' with
      validating_eq := by simp [c', hn'.validating_eq]
      validating := fun e he => ?_ }
    rcases List.mem_append.mp he with he | he
    · exact hn'.validating e he
    · obtain rfl := List.mem_singleton.mp he
      exact hemitted.mono hsub
  · rw [if_neg hvalidator]
    exact matched_validated hn hemitted hclock

theorem getElem?_of_map_fst {α β : Type} {l : List (α × β)} {as : List α} {k : Nat} {e : α × β}
    (h : l.map Prod.fst = as) (he : l[k]? = some e) : as[k]? = some e.1 := by
  rw [← h, List.getElem?_map, he]
  rfl

theorem map_eraseIdx_fst {α β : Type} {l : List (α × β)} {as : List α} (h : l.map Prod.fst = as)
    (k : Nat) : (l.eraseIdx k).map Prod.fst = as.eraseIdx k := by
  rw [← h, List.eraseIdx_map]

omit [DecidableEq ι] in
/-- The entry of a queue that waits for the validator can be taken out. -/
theorem NodeRefines.eraseValidating (hn : NodeRefines g limit i c h s) (k : Nat) :
    NodeRefines g limit i { c with validating := c.validating.eraseIdx k }
      { h with validating := h.validating.eraseIdx k } s :=
  { hn with
    validating_eq := map_eraseIdx_fst hn.validating_eq k
    validating := fun e he => hn.validating e (List.mem_of_mem_eraseIdx he) }

omit [DecidableEq ι] in
theorem NodeRefines.eraseProcessing (hn : NodeRefines g limit i c h s) (k : Nat) :
    NodeRefines g limit i { c with processing := c.processing.eraseIdx k }
      { h with processing := h.processing.eraseIdx k } s :=
  { hn with
    processing_eq := map_eraseIdx_fst hn.processing_eq k
    processing := fun e he => hn.processing e (List.mem_of_mem_eraseIdx he)
    snapshot := fun job hjob => hn.snapshot job (List.mem_of_mem_eraseIdx hjob) }

omit [DecidableEq ι] in
theorem NodeRefines.eraseProduction (hn : NodeRefines g limit i c h s) (k : Nat) :
    NodeRefines g limit i { c with production := c.production.eraseIdx k }
      { h with production := h.production.eraseIdx k } s :=
  { hn with
    production_eq := map_eraseIdx_fst hn.production_eq k
    production := fun e he => hn.production e (List.mem_of_mem_eraseIdx he) }

theorem matched_processingResult {index : Nat} {h' : History ι} {past : Past ι}
    (hn : NodeRefines g limit i c h s) (hclock : limit ≤ env.clock + 86400)
    (hstep : c.step (g.config i) env (.processingResult index) = some c')
    (hafter : historyAfter (g.config i) i h c c' (.processingResult index) = some (h', past)) :
    Matched g limit i c c' h' past s := by
  simp only [historyAfter] at hafter
  split at hafter
  · cases hafter
  · rename_i job q he
    obtain ⟨rfl, rfl⟩ := Prod.mk.inj (Option.some.inj hafter)
    have hjob := getElem?_of_map_fst hn.processing_eq he
    simp only [SVSyncCore.step, hjob] at hstep
    obtain rfl := Option.some.inj hstep
    have herased := hn.eraseProcessing index
    obtain ⟨other, hdecodes, hacc, hmem⟩ :=
      (hn.processing _ (List.mem_of_getElem? he)).decodesTo i hclock
    have hsnapshot := (hn.snapshot job (List.mem_of_getElem? hjob)).2
    rcases SVSyncCore.processSyncInterestResult_cases (g.config i) env
      { c with processing := c.processing.eraseIdx index }
        job hsnapshot with ⟨-, hnone⟩ | ⟨v, hv, habs⟩
    · exact absurd hdecodes (hnone other)
    · obtain rfl := decodesTo_unique hdecodes hv
      have hmatched := matched_of_absorbs herased habs hacc hmem
      exact hmatched

theorem matched_productionResult {index : Nat} {h' : History ι} {past : Past ι}
    (hn : NodeRefines g limit i c h s)
    (hstep : c.step (g.config i) env (.productionResult index) = some c')
    (hafter : historyAfter (g.config i) i h c c' (.productionResult index) = some (h', past)) :
    Matched g limit i c c' h' past s := by
  simp only [historyAfter] at hafter
  split at hafter
  · cases hafter
  · rename_i job q he
    obtain ⟨rfl, rfl⟩ := Prod.mk.inj (Option.some.inj hafter)
    have hjob := getElem?_of_map_fst hn.production_eq he
    simp only [SVSyncCore.step, hjob] at hstep
    obtain rfl := Option.some.inj hstep
    have herased := hn.eraseProduction index
    obtain ⟨hacc, hmem⟩ := hn.production _ (List.mem_of_getElem? he)
    rcases SVSyncCore.processSyncProductionResult_cases (g.config i) env
      { c with production := c.production.eraseIdx index } job with
      hsame | ⟨interest, hcarries, hsent⟩
    · rw [hsame]
      exact matched_of_quiet hn rfl fun s' hsub hrep _ => herased.mono hsub hrep
    · rw [hsent]
      have hadv := advances_stay s i
      refine ⟨_, _, hadv, ?_, fun sent hmem' => ?_⟩
      · exact { herased.mono hadv.messages hadv.replica with }
      · simp only [List.drop_left, List.mem_singleton] at hmem'
        obtain rfl := hmem'
        exact carries_emitted hcarries hacc (hadv.messages hmem)

theorem matched_verdict {index : Nat} {accepted : Bool} {h' : History ι} {past : Past ι}
    (hn : NodeRefines g limit i c h s) (hclock : limit ≤ env.clock + 86400)
    (hstep : c.step (g.config i) env (.verdict index accepted) = some c')
    (hafter : historyAfter (g.config i) i h c c' (.verdict index accepted) = some (h', past)) :
    Matched g limit i c c' h' past s := by
  simp only [historyAfter] at hafter
  split at hafter
  · cases hafter
  · rename_i interest q he
    obtain ⟨rfl, rfl⟩ := Prod.mk.inj (Option.some.inj hafter)
    have hinterest := getElem?_of_map_fst hn.validating_eq he
    have herased := hn.eraseValidating index
    have hemitted := hn.validating _ (List.mem_of_getElem? he)
    simp only [SVSyncCore.step, hinterest] at hstep
    cases accepted with
    | true =>
      obtain rfl := Option.some.inj hstep
      exact matched_validated herased hemitted hclock
    | false =>
      obtain rfl := Option.some.inj hstep
      exact matched_of_quiet hn rfl fun s' hsub hrep _ => herased.mono hsub hrep

omit [DecidableEq ι] in
theorem view_put {v : VersionVector} {u : LocalUpdate ι}
    (hge : v.get u.nid u.bootstrapTime ≤ u.seqNo) :
    (v.put u.nid u.bootstrapTime u.seqNo).view = v.view ⊔ contribution u := by
  funext k
  simp only [VersionVector.view, VersionVector.get_put, Pi.sup_apply, contribution, Prod.ext_iff]
  split
  · rename_i hkey
    obtain ⟨h₁, h₂⟩ := hkey
    rw [h₁, h₂] at hge
    exact (max_eq_right hge).symm
  · exact (max_eq_left (Nat.zero_le _)).symm

/-- The core with the entry set agrees with the replica that has made the update. -/
theorem NodeRefines.assigned {seq : SeqNo} {b : BootstrapTime} {nid : NodeID}
    (hn : NodeRefines g limit i c h s) (hseq : seq ≠ 0)
    (hge : c.vv.get (SVSyncCore.targetNode (g.config i) nid) b ≤ seq) (hlt : seq < 2 ^ 64)
    (hblt : b < 2 ^ 64) (hble : b ≤ limit) :
    let u : LocalUpdate ι := ⟨i, SVSyncCore.targetNode (g.config i) nid, b, seq⟩
    NodeRefines g limit i (c.assigned (g.config i) seq b nid) { h with past := insert u h.past }
      (s.update contribution i u) := by
  intro u
  have hview : (c.assigned (g.config i) seq b nid).vv.view = c.vv.view ⊔ contribution u :=
    view_put (u := u) hge
  refine { hn with replica := ?_, acceptable := ?_, recorded := ?_, snapshot := ?_ }
  · rw [hview, System.update, System.set_replica_self, hn.replica]
  · refine VersionVector.acceptable_iff.mpr fun nid' b' q hq => ?_
    simp only [SVSyncCore.assigned, VersionVector.entryAt_put] at hq
    split at hq
    · rename_i hkey
      obtain ⟨-, rfl⟩ := hkey
      obtain rfl := Option.some.inj hq
      exact ⟨Nat.pos_of_ne_zero hseq, hlt, hblt, hble⟩
    · exact VersionVector.acceptable_iff.mp hn.acceptable nid' b' q hq
  · intro r hr
    rw [hview]
    exact ⟨(hn.recorded r hr).1.trans le_sup_left, (hn.recorded r hr).2⟩
  · intro job hjob
    obtain ⟨hgen, hsame⟩ := hn.snapshot job hjob
    by_cases hraise : c.vv.get (SVSyncCore.targetNode (g.config i) nid) b < seq
    · have hgen' : (c.assigned (g.config i) seq b nid).stateGeneration = c.stateGeneration + 1 :=
        if_pos hraise
      refine ⟨hgen.trans (hgen' ▸ Nat.le_succ _), fun heq => ?_⟩
      have := heq.trans hgen'
      omega
    · have hgen' : (c.assigned (g.config i) seq b nid).stateGeneration = c.stateGeneration :=
        if_neg hraise
      refine ⟨hgen.trans hgen'.ge, fun heq =>
        (hsame (heq.trans hgen')).trans (VersionVector.Same.symm ?_)⟩
      refine VersionVector.put_same ?_
      have hget : c.vv.get (SVSyncCore.targetNode (g.config i) nid) b = seq :=
        le_antisymm hge (not_lt.mp hraise)
      rw [VersionVector.get] at hget
      cases hentry : c.vv.entryAt (SVSyncCore.targetNode (g.config i) nid) b with
      | none =>
        rw [hentry] at hget
        exact absurd hget.symm hseq
      | some q => simpa [hentry] using hget

/-- An update that does not lower its entry. -/
theorem matched_updateSeqNo {seq : SeqNo} {b : BootstrapTime} {nid : NodeID}
    (hn : NodeRefines g limit i c h s)
    (hok : seq = 0 ∨ c.vv.get (SVSyncCore.targetNode (g.config i) nid) b ≤ seq ∧ seq < 2 ^ 64 ∧
      b < 2 ^ 64 ∧ b ≤ limit) :
    let c' := (c.updateSeqNo (g.config i) env seq b nid).1
    let past := addUpdate h.past i (SVSyncCore.targetNode (g.config i) nid) b seq
    Matched g limit i c c' (h.settle c c' past) past s := by
  intro c' past
  rcases SVSyncCore.updateSeqNo_cases (g.config i) env c seq b nid with
    ⟨rfl, hsame⟩ | ⟨hseq, -, hemits⟩
  · have hc' : c' = c := hsame
    rw [hc', show past = h.past from if_pos rfl]
    exact matched_of_emits hn (.refl c)
  · obtain ⟨hge, hlt, hblt, hble⟩ := hok.resolve_left hseq
    obtain ⟨r, s', hadv, hnode, hsent⟩ :=
      matched_of_emits (hn.assigned hseq hge hlt hblt hble) hemits
    rw [show past = insert _ h.past from if_neg hseq]
    refine ⟨r, s', ⟨.head (.update s i _) hadv.steps, hadv.messages, hadv.replica, hadv.sent, ?_⟩,
      hnode, hsent⟩
    exact fun j hj => (hadv.others j hj).trans (System.set_replica_ne s _ hj)

/-- A step of one node, other than the delivery of a message. -/
theorem matched_run {event : SVSyncCore.Event} {h' : History ι} {past : Past ι} {n : Network ι}
    (hn : NodeRefines g limit i c h s) (hc : n.core i = c)
    (hok : Admits g limit n (.run i event, env))
    (hstep : c.step (g.config i) env event = some c')
    (hafter : historyAfter (g.config i) i h c c' event = some (h', past)) :
    Matched g limit i c c' h' past s := by
  obtain ⟨hknown, hle⟩ := recorded_known hn
  cases event with
  | interest interest => cases hafter
  | verdict index accepted => exact matched_verdict hn hok hstep hafter
  | processingResult index => exact matched_processingResult hn hok hstep hafter
  | productionResult index => exact matched_productionResult hn hstep hafter
  | updateSeqNo seq b nid =>
    obtain rfl := Option.some.inj hstep
    obtain ⟨rfl, rfl⟩ := Prod.mk.inj (Option.some.inj hafter)
    exact matched_updateSeqNo hn (hc ▸ hok)
  | initialInterest =>
    obtain rfl := Option.some.inj hstep
    obtain ⟨rfl, rfl⟩ := Prod.mk.inj (Option.some.inj hafter)
    have habs := SVSyncCore.retxSyncInterest_absorbs (g.config i) env
      { c with initialized := true } 0
    exact matched_of_absorbs_known hn { habs with } hknown hle
  | retransmission =>
    obtain ⟨-, rfl⟩ := SVSyncCore.step_retransmission.mp hstep
    obtain ⟨rfl, rfl⟩ := Prod.mk.inj (Option.some.inj hafter)
    have habs := SVSyncCore.retxSyncInterest_absorbs (g.config i) env
      { c with retxEvent := none } 0
    exact matched_of_absorbs_known hn { habs with } hknown hle
  | publicationBatch =>
    obtain ⟨-, rfl⟩ := SVSyncCore.step_publicationBatch.mp hstep
    obtain ⟨rfl, rfl⟩ := Prod.mk.inj (Option.some.inj hafter)
    have hemits := SVSyncCore.sendLocalPublicationSyncInterest_emits (g.config i) env
      { c with publicationSyncPending := false }
    exact matched_of_emits hn { hemits with }
  | setMaxSuppressionTime delay =>
    obtain rfl := Option.some.inj hstep
    obtain ⟨rfl, rfl⟩ := Prod.mk.inj (Option.some.inj hafter)
    exact matched_of_emits hn { SVSyncCore.Emits.refl c with }
  | setSyncInterestBatching enabled =>
    obtain rfl := Option.some.inj hstep
    obtain ⟨rfl, rfl⟩ := Prod.mk.inj (Option.some.inj hafter)
    exact matched_of_emits hn { SVSyncCore.Emits.refl c with }
  | setParallelSyncProcessing enabled =>
    obtain rfl := Option.some.inj hstep
    obtain ⟨rfl, rfl⟩ := Prod.mk.inj (Option.some.inj hafter)
    refine matched_of_quiet hn rfl fun s' _ _ hn' => ?_
    cases enabled with
    | true => exact { hn' with }
    | false => exact { hn' with
        processing_eq := rfl
        processing := fun e he => absurd he List.not_mem_nil
        snapshot := fun e he => absurd he List.not_mem_nil }
  | setParallelSyncProduction enabled signInWorker buildExtraBlockInWorker =>
    obtain rfl := Option.some.inj hstep
    obtain ⟨rfl, rfl⟩ := Prod.mk.inj (Option.some.inj hafter)
    refine matched_of_quiet hn rfl fun s' _ _ hn' => ?_
    cases enabled with
    | true => exact { hn' with }
    | false => exact { hn' with
        production_eq := rfl
        production := fun e he => absurd he List.not_mem_nil }

/-- Every step of the network is matched by steps of the replicas. -/
theorem step_refines {n n' : Network ι} {e : Event ι × CoreInputs}
    (hn : Refines g limit n s) (hok : Admits g limit n e) (hstep : n.step g e = some n') :
    ∃ s', Relation.ReflTransGen (Step contribution) s s' ∧ Refines g limit n' s' := by
  obtain ⟨event, env⟩ := e
  cases event with
  | deliver i index face =>
    simp only [step] at hstep
    split at hstep
    · cases hstep
    · rename_i m hm
      obtain rfl := Option.some.inj hstep
      obtain ⟨j, vv, sent, face', hcarries, hacc, heq, hmem⟩ :=
        hn.message m (List.mem_of_getElem? hm)
      have hemitted : Emitted g limit s { m.interest with incomingFaceId := face } m.past :=
        ⟨j, vv, sent, face, hcarries, hacc, by rw [heq], hmem⟩
      obtain ⟨r, s', hadv, hnode, hsent⟩ := matched_deliver (hn.node i) hemitted hok
      exact ⟨s', hadv.steps, hn.commit hadv hnode hsent⟩
  | run i event =>
    simp only [step] at hstep
    split at hstep
    · cases hstep
    · rename_i c' hcore
      split at hstep
      · cases hstep
      · rename_i h' past hafter
        obtain rfl := Option.some.inj hstep
        obtain ⟨r, s', hadv, hnode, hsent⟩ := matched_run (hn.node i) rfl hok hcore hafter
        exact ⟨s', hadv.steps, hn.commit hadv hnode hsent⟩

omit [DecidableEq ι] in
variable (g limit) in
theorem refines_initial : Refines g limit ({} : Network ι) System.initial := by
  refine ⟨fun i => ?_, fun m hm => absurd hm List.not_mem_nil⟩
  have hview : ({} : VersionVector).view = ⊥ := VersionVector.view_empty
  exact
    { replica := by rw [hview]; rfl
      acceptable := VersionVector.acceptable_empty limit
      recorded := fun r hr => by cases hr
      validating_eq := rfl
      validating := fun e he => by cases he
      processing_eq := rfl
      processing := fun e he => by cases he
      snapshot := fun job hjob => by cases hjob
      production_eq := rfl
      production := fun e he => by cases he }

/-- After an admitted run the network agrees with reachable replicas. -/
theorem run_refines {n : Network ι} {es : List (Event ι × CoreInputs)}
    (hok : Along (step g) (Admits g limit) {} es) (hrun : Lib.run (step g) {} es = some n) :
    ∃ s, Reachable contribution s ∧ Refines g limit n s :=
  run_invariant_along (P := fun n => ∃ s, Reachable contribution s ∧ Refines g limit n s)
    (fun n e n' hstep hok ⟨s, hreach, hn⟩ => by
      obtain ⟨s', hsteps, hn'⟩ := step_refines hn hok hstep
      exact ⟨s', Relation.ReflTransGen.trans hreach hsteps, hn'⟩)
    ⟨_, .refl, refines_initial g limit⟩ hok hrun

/-- Each entry of a node's vector is the largest number set for it by the local updates in the
node's causal past; nodes with the same past hold the same entries. -/
theorem converges {n : Network ι} {es : List (Event ι × CoreInputs)}
    (hok : Along (step g) (Admits g limit) {} es) (hrun : Lib.run (step g) {} es = some n) :
    (∀ i nid b, (n.core i).vv.get nid b = latest (n.history i).past nid b) ∧
      ∀ i j, (n.history i).past = (n.history j).past →
        ∀ nid b, (n.core i).vv.get nid b = (n.core j).vv.get nid b := by
  obtain ⟨s, hreach, hn⟩ := run_refines hok hrun
  have hentry : ∀ i nid b, (n.core i).vv.get nid b = latest (n.history i).past nid b := by
    intro i nid b
    have hvalue := hreach.accounted.replica i
    rw [(hn.node i).replica, Replica.Accounted] at hvalue
    have hvalue := congrFun hvalue (nid, b)
    rwa [sup_contribution] at hvalue
  refine ⟨hentry, fun i j hpast nid b => ?_⟩
  rw [hentry, hentry, hpast]

/-- A group of two nodes. -/
def exampleGroup : Group Bool where
  cxx := packetFormat
  syncPrefix := Name.ofStrings ["g"]
  plain := by decide
  node i :=
    { cxx := packetFormat, syncPrefix := [], id := Name.ofStrings [if i then "b" else "a"]
      bootstrapTime := 100, suppressionCurve := fun _ delay => delay }

def exampleInputs : CoreInputs := { clock := 1000, signData := fun _ => some [1] }

/-- One node publishes and its Interest reaches the other. -/
def exampleEvents : List (Event Bool × CoreInputs) :=
  [(.run false .initialInterest, exampleInputs),
    (.run false (.updateSeqNo 3 100 []), exampleInputs),
    (.deliver true 1 none, exampleInputs)]

theorem converges_two_nodes :
    let n := (Lib.run (step exampleGroup) {} exampleEvents).get (by decide +kernel)
    (n.core true).vv.get (Name.ofStrings ["a"]) 100 = 3 ∧
      (∀ i nid b, (n.core i).vv.get nid b = latest (n.history i).past nid b) ∧
      ∀ i j, (n.history i).past = (n.history j).past →
        ∀ nid b, (n.core i).vv.get nid b = (n.core j).vv.get nid b :=
  ⟨by decide +kernel, @converges _ _ _ 100 _ _ (by decide +kernel) (Option.some_get _).symm⟩

end Network

end NdnSvs
