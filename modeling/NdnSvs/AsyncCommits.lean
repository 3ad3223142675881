import NdnSvs.Advertised
import NdnSvs.PublishMonotone

/-! Asynchronous commits.  A node whose own prefix is published asynchronously only, and whose own
entry nothing but the commits advances, commits its numbers one after the other, whatever fails and
in whatever order the callbacks and the retries run. -/

namespace NdnSvs

open Lib Lib.Tlv SVSyncCore

namespace Publisher

variable {cfg : PubSubConfig} {p p' : Publisher} {nid : NodeID}

/-- The commits of a node, the first one first. -/
def commitsOf (p : Publisher) (nid : NodeID) : List SeqNo :=
  (p.committed.filter fun k => k.1 = nid).map Prod.snd

/-- The own prefix is not published synchronously, and the core leaves the own entry alone. -/
def AsyncOnly (cfg : PubSubConfig) (p : Publisher) (o : Occurrence) : Prop :=
  match o.event with
  | .publishBytes _ _ nodePrefix _ _ | .publishName _ nodePrefix _
  | .publishPacket _ nodePrefix _ =>
    nodeOf cfg nodePrefix ≠ cfg.core.id
  | .core event => ∀ core ∈ p.core.step cfg.core (o.inputs 0).core event,
    core.vv.get cfg.core.id cfg.core.bootstrapTime = p.advertised cfg cfg.core.id
  | _ => True

instance (p : Publisher) (o : Occurrence) : Decidable (AsyncOnly cfg p o) := by
  unfold AsyncOnly
  generalize o.event = event
  rcases event <;> infer_instance

/-! ### Publications in the hands of the publisher -/

/-- A publication as a call makes it. -/
structure Regular (cfg : PubSubConfig) (publication : PreparedPublication) : Prop where
  bootstrapTime : publication.bootstrapTime = cfg.core.bootstrapTime
  target : targetNode cfg.core publication.nodePrefix = publication.nodePrefix
  lt : publication.seqNo < 2 ^ 64

/-- The posted and the prepared publications are regular, and the prepared ones filed. -/
structure Proper (cfg : PubSubConfig) (p : Publisher) : Prop where
  posted : ∀ publication ∈ p.posted, Regular cfg publication
  keyed : p.Keyed
  prepared : ∀ nid s publication, p.preparedPublications.getAt nid s = some publication →
    Regular cfg publication

theorem Proper.congr (h : Proper cfg p)
    (hposted : ∀ publication ∈ p'.posted, publication ∈ p.posted ∨ Regular cfg publication)
    (hprepared : ∀ nid s publication, p'.preparedPublications.getAt nid s = some publication →
      p.preparedPublications.getAt nid s = some publication ∨
        publication.key = (nid, s) ∧ Regular cfg publication) : Proper cfg p' := by
  refine ⟨fun publication hmem => ?_, fun nid s publication hat => ?_,
    fun nid s publication hat => ?_⟩
  · exact (hposted publication hmem).elim (h.posted publication) id
  · exact (hprepared nid s publication hat).elim (h.keyed nid s publication) And.left
  · exact (hprepared nid s publication hat).elim (h.prepared nid s publication) And.right

theorem Proper.same (h : Proper cfg p) (hposted : p'.posted = p.posted)
    (hprepared : p'.preparedPublications = p.preparedPublications) : Proper cfg p' :=
  h.congr (fun _ hmem => .inl (hposted ▸ hmem)) fun _ _ _ hat => .inl (hprepared ▸ hat)

theorem Regular.tries {publication publication' : PreparedPublication}
    (h : Regular cfg publication) (htries : Tries cfg p publication p' publication') :
    Regular cfg publication' :=
  ⟨htries.bootstrapTime.trans h.bootstrapTime, by rw [htries.nodePrefix, h.target],
    htries.seqNo ▸ h.lt⟩

theorem Proper.requeue (h : Proper cfg p) {publication publication' : PreparedPublication}
    {p₀ : Publisher} (htake : p.takeHead nid = some (publication, p₀))
    (htries : Tries cfg p₀ publication p' publication') :
    Proper cfg (p'.requeueFailedPublication nid publication') := by
  obtain ⟨next, -, hat, -, rfl⟩ := takeHead_eq_some.mp htake
  obtain ⟨dataStore, mappings, extra, rfl⟩ := htries.exists_state
  have hregular := (h.prepared nid next publication hat).tries htries
  have hkey := h.keyed nid next publication hat
  have hnode : publication'.nodePrefix = nid :=
    htries.nodePrefix.trans (congrArg Prod.fst hkey)
  refine h.congr (fun _ hmem => .inl hmem) fun nid' s found hfound => ?_
  simp only [requeueFailedPublication, Map.getAt_insertAt, Map.getAt_eraseAt] at hfound
  split at hfound
  · rename_i heq
    obtain rfl := Option.some.inj hfound
    obtain ⟨rfl, rfl⟩ := heq
    exact .inr ⟨by rw [← hnode]; rfl, ⟨hregular.bootstrapTime, hregular.target, hregular.lt⟩⟩
  · split at hfound
    · cases hfound
    · exact .inl hfound

theorem Proper.advance (h : Proper cfg p) {publication publication' : PreparedPublication}
    {p₀ : Publisher} (htake : p.takeHead nid = some (publication, p₀))
    (htries : Tries cfg p₀ publication p' publication') (core : SVSyncCore)
    (committed : List (NodeID × SeqNo)) (s : SeqNo) :
    Proper cfg (({ p' with core, committed } : Publisher).advanceHead nid s) := by
  obtain ⟨next, -, -, -, rfl⟩ := takeHead_eq_some.mp htake
  obtain ⟨dataStore, mappings, extra, rfl⟩ := htries.exists_state
  refine h.congr (fun found hmem => .inl ?_) fun nid' s' found hfound => ?_
  · unfold advanceHead at hmem
    split at hmem <;> exact hmem
  · rw [advanceHead_preparedPublications, Map.getAt_eraseAt] at hfound
    split at hfound
    · cases hfound
    · exact .inl hfound

/-! ### The own line -/

/-- The own numbers: those up to the own entry are committed one after the other, and those of the
calls that have returned are committed or pending. -/
structure OwnLine (cfg : PubSubConfig) (p : Publisher) : Prop where
  commits : p.commitsOf cfg.core.id = List.range' 1 (p.advertised cfg cfg.core.id)
  entry_lt : p.advertised cfg cfg.core.id < 2 ^ 64
  next : ∀ head, p.nextAsyncCommitSeq[cfg.core.id]? = some head →
    head = (p.advertised cfg cfg.core.id + 1) % 2 ^ 64
  unstarted : p.nextAsyncCommitSeq[cfg.core.id]? = none →
    p.advertised cfg cfg.core.id = 0 ∧ ∀ s, (cfg.core.id, s) ∉ p.asyncReturned
  dense : ∀ s t, (cfg.core.id, s) ∈ p.asyncReturned → 0 < t → t < s →
    (cfg.core.id, t) ∈ p.asyncReturned
  lt : ∀ s, (cfg.core.id, s) ∈ p.asyncReturned → s < 2 ^ 64
  reserved : (p.reservedSeqNo[cfg.core.id]?).getD 0 = 0 ∨
    (cfg.core.id, (p.reservedSeqNo[cfg.core.id]?).getD 0) ∈ p.asyncReturned
  reached : ∀ s, 0 < s → s ≤ p.advertised cfg cfg.core.id → (cfg.core.id, s) ∈ p.asyncReturned
  left : ∀ s, (cfg.core.id, s) ∈ p.asyncReturned → 0 < s →
    s ≤ p.advertised cfg cfg.core.id ∨ p.Pending cfg.core.id s
  posted : ∀ publication ∈ p.posted, publication.nodePrefix = cfg.core.id →
    (cfg.core.id, publication.seqNo) ∈ p.asyncReturned ∧ publication.retryScheduled = false
  staged : ∀ s, (p.stagedPublicationPackets.getAt cfg.core.id s).isSome →
    ∃ publication ∈ p.posted, publication.key = (cfg.core.id, s)
  prepared : ∀ s, (p.preparedPublications.getAt cfg.core.id s).isSome →
    (cfg.core.id, s) ∈ p.asyncReturned
  timer : ∀ s publication, p.preparedPublications.getAt cfg.core.id s = some publication →
    publication.retryScheduled = true → (cfg.core.id, s) ∈ p.retries
  mapped : ∀ s, 0 < s → s < 2 ^ 64 →
    ((p.mappings[makeMappingKey cfg.core.id cfg.core.bootstrapTime s]?).isSome ↔
      s ≤ p.advertised cfg cfg.core.id)

theorem ownLine_empty : OwnLine cfg {} where
  commits := by simp [commitsOf, advertised]
  entry_lt := by simp [advertised]
  next head h := by simp at h
  unstarted _ := by simp [advertised, asyncReturned]
  dense s t h := by simp [asyncReturned] at h
  lt s h := by simp [asyncReturned] at h
  reserved := .inl (by simp)
  reached s hpos hle := by
    rw [advertised, VersionVector.get_empty] at hle
    lia
  left s h := by simp [asyncReturned] at h
  posted publication h := by simp at h
  staged s h := by simp at h
  prepared s h := by simp at h
  timer s publication h := by simp at h
  mapped s hpos _ := by
    rw [advertised, VersionVector.get_empty]
    simp
    lia

/-- The states agree on the own numbers. -/
structure SameOwn (cfg : PubSubConfig) (p p' : Publisher) : Prop where
  reserved : p'.reservedSeqNo[cfg.core.id]? = p.reservedSeqNo[cfg.core.id]?
  next : p'.nextAsyncCommitSeq[cfg.core.id]? = p.nextAsyncCommitSeq[cfg.core.id]?
  staged : ∀ s, p'.stagedPublicationPackets.getAt cfg.core.id s =
    p.stagedPublicationPackets.getAt cfg.core.id s
  prepared : ∀ s, p'.preparedPublications.getAt cfg.core.id s =
    p.preparedPublications.getAt cfg.core.id s
  posted : ∀ publication, publication.nodePrefix = cfg.core.id →
    (publication ∈ p'.posted ↔ publication ∈ p.posted)
  retries : ∀ s, (cfg.core.id, s) ∈ p.retries → (cfg.core.id, s) ∈ p'.retries
  returned : ∀ s, (cfg.core.id, s) ∈ p'.asyncReturned ↔ (cfg.core.id, s) ∈ p.asyncReturned
  commits : p'.commitsOf cfg.core.id = p.commitsOf cfg.core.id
  entry : p'.advertised cfg cfg.core.id = p.advertised cfg cfg.core.id
  mapped : ∀ s, 0 < s → s < 2 ^ 64 →
    ((p'.mappings[makeMappingKey cfg.core.id cfg.core.bootstrapTime s]?).isSome ↔
      (p.mappings[makeMappingKey cfg.core.id cfg.core.bootstrapTime s]?).isSome)

theorem SameOwn.refl (p : Publisher) : SameOwn cfg p p where
  reserved := rfl
  next := rfl
  staged _ := rfl
  prepared _ := rfl
  posted _ _ := .rfl
  retries _ h := h
  returned _ := .rfl
  commits := rfl
  entry := rfl
  mapped _ _ _ := .rfl

theorem SameOwn.trans {p'' : Publisher} (h : SameOwn cfg p p') (h' : SameOwn cfg p' p'') :
    SameOwn cfg p p'' where
  reserved := h'.reserved.trans h.reserved
  next := h'.next.trans h.next
  staged s := (h'.staged s).trans (h.staged s)
  prepared s := (h'.prepared s).trans (h.prepared s)
  posted publication hnode := (h'.posted publication hnode).trans (h.posted publication hnode)
  retries s hmem := h'.retries s (h.retries s hmem)
  returned s := (h'.returned s).trans (h.returned s)
  commits := h'.commits.trans h.commits
  entry := h'.entry.trans h.entry
  mapped s hpos hlt := (h'.mapped s hpos hlt).trans (h.mapped s hpos hlt)

theorem SameOwn.pending (h : SameOwn cfg p p') (s : SeqNo) :
    p'.Pending cfg.core.id s ↔ p.Pending cfg.core.id s := by
  rw [Pending, Pending, h.staged, h.prepared]

theorem OwnLine.congr (h : OwnLine cfg p) (hsame : SameOwn cfg p p') : OwnLine cfg p' where
  commits := by rw [hsame.commits, hsame.entry, h.commits]
  entry_lt := hsame.entry ▸ h.entry_lt
  next head hhead := by
    rw [hsame.entry]
    exact h.next head (hsame.next ▸ hhead)
  unstarted hnone := by
    obtain ⟨hentry, hreturned⟩ := h.unstarted (hsame.next ▸ hnone)
    exact ⟨hsame.entry.trans hentry, fun s hs => hreturned s ((hsame.returned s).mp hs)⟩
  dense s t hs hpos hlt :=
    (hsame.returned t).mpr (h.dense s t ((hsame.returned s).mp hs) hpos hlt)
  lt s hs := h.lt s ((hsame.returned s).mp hs)
  reserved := by
    rw [hsame.reserved, hsame.returned]
    exact h.reserved
  reached s hpos hle := (hsame.returned s).mpr (h.reached s hpos (hsame.entry ▸ hle))
  left s hs hpos := by
    rw [hsame.entry, hsame.pending]
    exact h.left s ((hsame.returned s).mp hs) hpos
  posted publication hmem hnode := by
    rw [hsame.returned]
    exact h.posted publication ((hsame.posted publication hnode).mp hmem) hnode
  staged s hs := by
    obtain ⟨publication, hmem, hkey⟩ := h.staged s (hsame.staged s ▸ hs)
    exact ⟨publication, (hsame.posted publication (congrArg Prod.fst hkey)).mpr hmem, hkey⟩
  prepared s hs := (hsame.returned s).mpr (h.prepared s (hsame.prepared s ▸ hs))
  timer s publication hat hretry :=
    hsame.retries s (h.timer s publication (hsame.prepared s ▸ hat) hretry)
  mapped s hpos hlt := by
    rw [hsame.mapped s hpos hlt, hsame.entry]
    exact h.mapped s hpos hlt

/-! ### The other nodes -/

theorem MappingsGrow.same {b : BootstrapTime} {s s' : SeqNo} {nid' : NodeID}
    {m m' : Map Name MappingEntryPair} (h : MappingsGrow nid b s m m') (hs : s < 2 ^ 64)
    (hs' : s' < 2 ^ 64) (hne : ¬(nid' = nid ∧ s' = s)) :
    m'[makeMappingKey nid' b s']? = m[makeMappingKey nid' b s']? :=
  h.other _ fun heq => hne (makeMappingKey_injective hs' hs heq)

theorem SameOwn.stores {b : BootstrapTime} {s : SeqNo} (hs : s < 2 ^ 64) (hne : nid ≠ cfg.core.id)
    (hb : b = cfg.core.bootstrapTime) (dataStore : DataStore) (extra : ExtraData)
    {mappings : Map Name MappingEntryPair} (h : MappingsGrow nid b s p.mappings mappings) :
    SameOwn cfg p { p with dataStore, mappings, extra } :=
  { SameOwn.refl p with
    mapped := fun s' _ hs' => by
      subst hb
      rw [h.same hs hs' fun heq => hne heq.1.symm] }

theorem SameOwn.alters {s : SeqNo} (hs : s < 2 ^ 64) (hne : nid ≠ cfg.core.id)
    (h : Alters cfg nid s p p') : SameOwn cfg p p' := by
  rw [h.state]
  exact .stores hs hne rfl _ _ h.grow

theorem SameOwn.of_alters {s : SeqNo} (h : Alters cfg nid s p p')
    (hmappings : p'.mappings = p.mappings) : SameOwn cfg p p' := by
  rw [h.state, hmappings]
  exact { SameOwn.refl p with }

/-- Another core, with the same own entry. -/
theorem SameOwn.core {core : SVSyncCore}
    (h : core.vv.get cfg.core.id cfg.core.bootstrapTime = p.advertised cfg cfg.core.id) :
    SameOwn cfg p { p with core } :=
  { SameOwn.refl p with entry := h }

theorem Announces.get_own {c c' : SVSyncCore} {s : SeqNo} (h : Announces cfg nid s c c')
    (htarget : targetNode cfg.core nid = nid) (hne : nid ≠ cfg.core.id) :
    c'.vv.get cfg.core.id cfg.core.bootstrapTime = c.vv.get cfg.core.id cfg.core.bootstrapTime := by
  rw [h.get, htarget, if_neg fun heq => hne heq.1]

/-- Another node's counters. -/
theorem SameOwn.counters {s : SeqNo} (hne : nid ≠ cfg.core.id) (next : Map NodeID SeqNo)
    (hnext : next[cfg.core.id]? = p.nextAsyncCommitSeq[cfg.core.id]?) :
    SameOwn cfg p
      { p with reservedSeqNo := p.reservedSeqNo.insert nid s, nextAsyncCommitSeq := next } :=
  { SameOwn.refl p with
    reserved := Map.get_insert_ne hne
    next := hnext }

theorem next_other (hne : nid ≠ cfg.core.id) (s : SeqNo) :
    (if nid ∈ p.nextAsyncCommitSeq then p.nextAsyncCommitSeq
      else p.nextAsyncCommitSeq.insert nid s)[cfg.core.id]? =
      p.nextAsyncCommitSeq[cfg.core.id]? := by
  split
  · rfl
  · exact Map.get_insert_ne hne

theorem SameOwn.return_sync (s : SeqNo) (packets : List Data) :
    SameOwn cfg p (p.return_ nid s packets false) :=
  { SameOwn.refl p with
    returned := fun s' => by rw [asyncReturned_sync] }

theorem SameOwn.return_async (hne : nid ≠ cfg.core.id) (s : SeqNo) (packets : List Data) :
    SameOwn cfg p (p.return_ nid s packets true) :=
  { SameOwn.refl p with
    returned := fun s' => by
      rw [asyncReturned_async, List.mem_append, List.mem_singleton]
      exact or_iff_left fun heq => hne (congrArg Prod.fst heq).symm }

theorem SameOwn.publishes {s : SeqNo} {result : Outcome Publisher} {settle : Publisher → Publisher}
    (hs : s < 2 ^ 64) (hne : nid ≠ cfg.core.id) (htarget : targetNode cfg.core nid = nid)
    (h : Publishes cfg nid s p result settle) (hsettle : ∀ q, SameOwn cfg q (settle q)) :
    SameOwn cfg p result.1 := by
  rcases h with ⟨halters, -⟩ | ⟨p₁, core, packets, halters, hannounces, -, -, hresult⟩
  · exact .alters hs hne halters
  · have hentry : p₁.advertised cfg cfg.core.id = p.advertised cfg cfg.core.id := by
      rw [advertised, advertised, halters.state]
    have hcore : SameOwn cfg p₁ { p₁ with core } :=
      .core ((hannounces.get_own htarget hne).trans hentry.symm)
    rw [hresult]
    exact (((SameOwn.alters hs hne halters).trans hcore).trans (hsettle _)).trans
      (.return_sync s packets)

theorem SameOwn.stage {s : SeqNo} {prepared : PreparedPublication} (hne : nid ≠ cfg.core.id)
    (hnode : prepared.nodePrefix = nid) : SameOwn cfg p (p.stage nid s prepared) :=
  { SameOwn.counters hne _ (next_other hne s) with
    staged := fun s' => by
      rw [Publisher.stage, Map.getAt_insertAt, if_neg fun heq => hne heq.1]
    posted := fun publication hown => by
      rw [Publisher.stage, List.mem_append, List.mem_singleton]
      refine or_iff_left ?_
      rintro rfl
      exact hne (hnode.symm.trans hown) }

/-- What the loop of another node does with its publications. -/
theorem SameOwn.file {publication : PreparedPublication} (hne : nid ≠ cfg.core.id) (s s' : SeqNo) :
    SameOwn cfg p { p with
      preparedPublications := (p.preparedPublications.eraseAt nid s).insertAt nid s' publication
      retries := p.retries ++ [(nid, s')] } :=
  { SameOwn.refl p with
    prepared := fun s'' => by
      rw [Map.getAt_insertAt, if_neg fun heq => hne heq.1, Map.getAt_eraseAt,
        if_neg fun heq => hne heq.1]
    retries := fun s'' hs => List.mem_append_left _ hs }

theorem SameOwn.requeue (hproper : Proper cfg p) (hne : nid ≠ cfg.core.id)
    {publication publication' : PreparedPublication} {p₀ : Publisher}
    (htake : p.takeHead nid = some (publication, p₀))
    (htries : Tries cfg p₀ publication p' publication') :
    SameOwn cfg p (p'.requeueFailedPublication nid publication') := by
  obtain ⟨next, -, hat, -, rfl⟩ := takeHead_eq_some.mp htake
  have hregular := hproper.prepared nid next publication hat
  have hkey := hproper.keyed nid next publication hat
  have hgrow := htries.grow
  rw [show publication.nodePrefix = nid from congrArg Prod.fst hkey] at hgrow
  have hstores := @SameOwn.stores cfg p nid _ _ hregular.lt hne hregular.bootstrapTime
    p'.dataStore p'.extra _ hgrow
  rw [htries.state]
  exact hstores.trans (.file hne next publication'.seqNo)

theorem SameOwn.erase (hne : nid ≠ cfg.core.id) (s : SeqNo) :
    SameOwn cfg p { p with preparedPublications := p.preparedPublications.eraseAt nid s } :=
  { SameOwn.refl p with
    prepared := fun s' => by rw [Map.getAt_eraseAt, if_neg fun heq => hne heq.1] }

theorem SameOwn.advanceHead (hne : nid ≠ cfg.core.id) (s : SeqNo) :
    SameOwn cfg p (p.advanceHead nid s) := by
  unfold Publisher.advanceHead
  split
  · exact { SameOwn.refl p with next := Map.get_insert_ne hne }
  · exact .refl p

theorem SameOwn.commit (hne : nid ≠ cfg.core.id) (s : SeqNo) :
    SameOwn cfg p { p with committed := p.committed ++ [(nid, s)] } :=
  { SameOwn.refl p with
    commits := by
      simp [commitsOf, hne] }

theorem SameOwn.advance (hproper : Proper cfg p) (hne : nid ≠ cfg.core.id)
    {publication publication' : PreparedPublication} {p₀ : Publisher}
    (htake : p.takeHead nid = some (publication, p₀))
    (htries : Tries cfg p₀ publication p' publication') {core : SVSyncCore}
    (hannounces : Announces cfg nid publication.seqNo p₀.core core) (s : SeqNo) :
    SameOwn cfg p (({ p' with core, committed := p'.committed ++ [(nid, publication.seqNo)] } :
      Publisher).advanceHead nid s) := by
  obtain ⟨next, -, hat, -, rfl⟩ := takeHead_eq_some.mp htake
  have hregular := hproper.prepared nid next publication hat
  have hkey := hproper.keyed nid next publication hat
  have hnode : publication.nodePrefix = nid := congrArg Prod.fst hkey
  have hgrow := htries.grow
  rw [hnode] at hgrow
  have hstores := @SameOwn.stores cfg p nid _ _ hregular.lt hne hregular.bootstrapTime
    p'.dataStore p'.extra _ hgrow
  have hcore := hannounces.get_own (hnode ▸ hregular.target) hne
  have hstate := htries.state
  rw [hstate]
  refine ((((hstores.trans (.erase hne next)).trans (.core ?_)).trans (.commit hne _)).trans
    (.advanceHead hne s))
  exact hcore

/-! ### Mappings -/

variable (cfg) in
theorem storePackets_mappings (env : PublishInputs) (p : Publisher)
    (publication : PreparedPublication) :
    (p.storePackets cfg env publication).1.1.mappings = p.mappings := by
  unfold storePackets
  split
  · rfl
  · split <;> rfl

theorem rollBack_mappings {env : PublishInputs} (p : Publisher) (publication : PreparedPublication)
    (e : Error) : (p.rollBack cfg env publication e).1.1.mappings = p.mappings := by
  unfold rollBack
  split
  · split <;> rfl
  · rfl

variable (cfg) in
/-- A commit that gets through leaves its mapping behind, and one that throws none. -/
theorem commitPreparedPublication_mappings (env : PublishInputs) (p : Publisher)
    (publication : PreparedPublication) :
    let result := p.commitPreparedPublication cfg env publication
    (result.2 = .ok () → (result.1.1.mappings[makeMappingKey publication.nodePrefix
      publication.bootstrapTime publication.seqNo]?).isSome) ∧
    (result.2 ≠ .ok () → result.1.1.mappings = p.mappings) := by
  have hstore := storePackets_tries cfg env p publication
  have hsame := storePackets_mappings cfg env p publication
  unfold commitPreparedPublication
  split
  · exact ⟨fun h => (by cases h), fun _ => rfl⟩
  · split
    · rename_i hresult
      rw [hresult] at hsame
      exact ⟨fun h => (by cases h), fun _ => hsame⟩
    · rename_i p₁ publication₁ hresult
      rw [hresult] at hstore hsame
      rcases insertMapping_cases cfg env p₁ publication₁.nodePrefix
        publication₁.bootstrapTime publication₁.seqNo publication₁.mappingName
        publication₁.mappingBlocks with
        ⟨-, extra, e, hmapping⟩ | ⟨-, extra, mappings, -, hkey, hmapping⟩
      · rw [hmapping]
        exact ⟨fun h => absurd h (rollBack_tries _ _ _ _ e).2, fun _ =>
          (rollBack_mappings _ publication₁ e).trans hsame⟩
      · rw [hmapping]
        refine ⟨fun _ => ?_, fun h => absurd rfl h⟩
        rw [← hstore.nodePrefix, ← hstore.seqNo, ← hstore.bootstrapTime]
        exact hkey

theorem attemptCommit_mapping {env : PublishInputs} {publication publication' : PreparedPublication}
    (h : p.attemptCommit cfg env nid publication = ((p', publication'), .ok ())) :
    (p'.mappings[makeMappingKey publication.nodePrefix publication.bootstrapTime
      publication.seqNo]?).isSome := by
  have hmappings := (commitPreparedPublication_mappings cfg env p publication).1
  unfold attemptCommit at h
  split at h
  · cases h
  · split at h
    · cases h
    · rename_i p₁ publication₁ hresult
      rw [hresult] at hmappings
      rcases updateSeqNo_cases cfg env p₁ publication₁.seqNo nid with
        ⟨-, e, hupdate⟩ | ⟨core, -, hupdate⟩
      · rw [hupdate] at h
        cases h
      · rw [hupdate] at h
        obtain ⟨rfl, -⟩ := Prod.mk.inj (Prod.mk.inj h).1
        exact hmappings rfl

theorem attemptCommit_error_mappings {env : PublishInputs}
    {publication publication' : PreparedPublication} {e : Error}
    (h : p.attemptCommit cfg env nid publication = ((p', publication'), .error e))
    (hseq : publication.seqNo ≠ 0) : p'.mappings = p.mappings := by
  have htries := commitPreparedPublication_tries cfg env p publication
  have hmappings := (commitPreparedPublication_mappings cfg env p publication).2
  unfold attemptCommit at h
  split at h
  · obtain ⟨rfl, -⟩ := Prod.mk.inj (Prod.mk.inj h).1
    rfl
  · split at h
    · rename_i hresult
      rw [hresult] at hmappings
      obtain ⟨rfl, -⟩ := Prod.mk.inj (Prod.mk.inj h).1
      exact hmappings (by simp)
    · rename_i p₁ publication₁ hresult
      rw [hresult] at htries
      rcases updateSeqNo_cases cfg env p₁ publication₁.seqNo nid with
        ⟨hzero, -⟩ | ⟨core, -, hupdate⟩
      · exact absurd (htries.seqNo.symm.trans hzero) hseq
      · rw [hupdate] at h
        cases h

variable (cfg) in
/-- An asynchronous call inserts no mapping. -/
theorem prepareAndStage_mappings (env : PublishInputs) (p : Publisher)
    (kind : AsyncPublication.Kind) (name nodePrefix : Name) (freshnessPeriod : Int)
    (mappingBlocks : List Block) :
    (p.prepareAndStageAsyncPublication cfg env kind name nodePrefix freshnessPeriod
      mappingBlocks).1.mappings = p.mappings := by
  simp only [prepareAndStageAsyncPublication]
  split
  · rfl
  · split <;> rfl

/-! ### The own node -/

theorem lastSeqNo_own (cfg : PubSubConfig) (p : Publisher) : p.lastSeqNo cfg cfg.core.id =
    max ((p.reservedSeqNo[cfg.core.id]?).getD 0) (p.advertised cfg cfg.core.id) := by
  have htarget : targetNode cfg.core cfg.core.id = cfg.core.id := ite_self _
  rw [lastSeqNo, SVSyncCore.getSeqNo, htarget, if_pos rfl]
  rfl

/-- Any number up to the last one has been given to a call. -/
theorem OwnLine.returned_of_le_last (h : OwnLine cfg p) {s : SeqNo} (hpos : 0 < s)
    (hle : s ≤ p.lastSeqNo cfg cfg.core.id) : (cfg.core.id, s) ∈ p.asyncReturned := by
  rw [lastSeqNo_own] at hle
  rcases le_max_iff.mp hle with hle | hle
  · rcases h.reserved with hzero | hmem
    · lia
    · rcases Nat.eq_or_lt_of_le hle with rfl | hlt
      · exact hmem
      · exact h.dense _ s hmem hpos hlt
  · exact h.reached s hpos hle

theorem OwnLine.reserve (h : OwnLine cfg p) :
    OwnLine cfg (p.reserve cfg.core.id (p.lastSeqNo cfg cfg.core.id)) where
  commits := h.commits
  entry_lt := h.entry_lt
  next := h.next
  unstarted := h.unstarted
  dense := h.dense
  lt := h.lt
  reserved := by
    rw [Publisher.reserve, Map.get_insert, if_pos rfl, Option.getD_some]
    rcases Nat.eq_zero_or_pos (p.lastSeqNo cfg cfg.core.id) with hzero | hpos
    · exact .inl hzero
    · exact .inr (h.returned_of_le_last hpos le_rfl)
  reached := h.reached
  left := h.left
  posted := h.posted
  staged := h.staged
  prepared := h.prepared
  timer := h.timer
  mapped := h.mapped

theorem OwnLine.stage (h : OwnLine cfg p) {prepared : PreparedPublication} {s : SeqNo}
    (hs : s = (p.lastSeqNo cfg cfg.core.id + 1) % 2 ^ 64) (hseq : prepared.seqNo = s)
    (hnode : prepared.nodePrefix = cfg.core.id) (hretry : prepared.retryScheduled = false)
    (packets : List Data) :
    OwnLine cfg ((p.stage cfg.core.id s prepared).return_ cfg.core.id s packets true) := by
  have hmem : ∀ t, (cfg.core.id, t) ∈
      ((p.stage cfg.core.id s prepared).return_ cfg.core.id s packets true).asyncReturned ↔
        (cfg.core.id, t) ∈ p.asyncReturned ∨ t = s := fun t => by
    rw [asyncReturned_async, List.mem_append, List.mem_singleton, Prod.mk.injEq]
    simp [Publisher.stage, asyncReturned]
  have hpending : ∀ t, ((p.stage cfg.core.id s prepared).return_ cfg.core.id s packets true).Pending
      cfg.core.id t ↔ t = s ∨ p.Pending cfg.core.id t := fun t =>
    (pending_stage p cfg.core.id s prepared cfg.core.id t).trans (by simp [eq_comm])
  have hle : ∀ t, t < s → t ≤ p.lastSeqNo cfg cfg.core.id := fun t ht =>
    Nat.le_of_lt_succ (ht.trans_le (hs ▸ Nat.mod_le _ _))
  constructor
  case commits => exact h.commits
  case entry_lt => exact h.entry_lt
  case next =>
    intro head hhead
    simp only [Publisher.return_, Publisher.stage] at hhead
    split at hhead
    · exact h.next head hhead
    · rename_i hnew
      obtain ⟨hzero, hnone⟩ := h.unstarted (Std.ExtTreeMap.getElem?_eq_none hnew)
      have hlast : p.lastSeqNo cfg cfg.core.id = 0 := by
        by_contra hpos
        exact hnone _ (h.returned_of_le_last (Nat.pos_of_ne_zero hpos) le_rfl)
      rw [Map.get_insert, if_pos rfl, hs, hlast] at hhead
      exact (Option.some.inj hhead).symm.trans (by rw [← hzero]; rfl)
  case unstarted =>
    intro hnone
    simp only [Publisher.return_, Publisher.stage] at hnone
    split at hnone
    · rename_i hmem
      rw [Std.ExtTreeMap.getElem?_eq_some_getElem hmem] at hnone
      cases hnone
    · rw [Map.get_insert, if_pos rfl] at hnone
      cases hnone
  case dense =>
    intro s' t hs' hpos hlt
    refine (hmem t).mpr (.inl ?_)
    rcases (hmem s').mp hs' with hold | rfl
    · exact h.dense s' t hold hpos hlt
    · exact h.returned_of_le_last hpos (hle t hlt)
  case lt =>
    intro t ht
    rcases (hmem t).mp ht with hold | rfl
    · exact h.lt t hold
    · exact hs ▸ Nat.mod_lt _ (by decide)
  case reserved =>
    refine .inr ((hmem _).mpr (.inr ?_))
    simp only [Publisher.return_, Publisher.stage]
    rw [Map.get_insert, if_pos rfl, Option.getD_some]
  case reached => exact fun t hpos hle => (hmem t).mpr (.inl (h.reached t hpos hle))
  case left =>
    intro t ht hpos
    rw [hpending]
    rcases (hmem t).mp ht with hold | rfl
    · exact (h.left t hold hpos).imp_right .inr
    · exact .inr (.inl rfl)
  case posted =>
    intro publication hposted hown
    rw [hmem]
    rcases List.mem_append.mp hposted with hold | hnew
    · obtain ⟨hreturned, hfresh⟩ := h.posted publication hold hown
      exact ⟨.inl hreturned, hfresh⟩
    · obtain rfl := List.mem_singleton.mp hnew
      exact ⟨.inr hseq, hretry⟩
  case staged =>
    intro t ht
    simp only [Publisher.return_, Publisher.stage, Map.getAt_insertAt] at ht
    split at ht
    · rename_i heq
      refine ⟨prepared, List.mem_append_right _ (List.mem_singleton_self _), ?_⟩
      rw [PreparedPublication.key, hnode, hseq, heq.2]
    · obtain ⟨publication, hposted, hkey⟩ := h.staged t ht
      exact ⟨publication, List.mem_append_left _ hposted, hkey⟩
  case prepared => exact fun t ht => (hmem t).mpr (.inl (h.prepared t ht))
  case timer => exact h.timer
  case mapped => exact h.mapped

/-- A publication that is prepared: one that has been posted, or one that is filed again. -/
theorem OwnLine.file (h : OwnLine cfg p) {publication : PreparedPublication} {s : SeqNo}
    {posted : List PreparedPublication} {staged : Map NodeID (Map SeqNo (List Data))}
    {retries : List (NodeID × SeqNo)} (hreturned : (cfg.core.id, s) ∈ p.asyncReturned)
    (hposted : ∀ r ∈ posted, r ∈ p.posted)
    (hstaged : ∀ t, t ≠ s → staged.getAt cfg.core.id t =
      p.stagedPublicationPackets.getAt cfg.core.id t)
    (hstaged_posted : ∀ t, (staged.getAt cfg.core.id t).isSome →
      ∃ r ∈ posted, r.key = (cfg.core.id, t))
    (htimer : publication.retryScheduled = true → (cfg.core.id, s) ∈ retries)
    (hretries : ∀ t, t ≠ s → (cfg.core.id, t) ∈ p.retries → (cfg.core.id, t) ∈ retries) :
    OwnLine cfg { p with
      posted, retries
      stagedPublicationPackets := staged
      preparedPublications := p.preparedPublications.insertAt cfg.core.id s publication } where
  commits := h.commits
  entry_lt := h.entry_lt
  next := h.next
  unstarted := h.unstarted
  dense := h.dense
  lt := h.lt
  reserved := h.reserved
  reached := h.reached
  left t ht hpos := by
    refine (h.left t ht hpos).imp_right fun hpending => ?_
    by_cases heq : t = s
    · exact .inr (by simp [Map.getAt_insertAt, heq])
    · have hne : ¬(cfg.core.id = cfg.core.id ∧ s = t) := fun hsame => heq hsame.2.symm
      rw [Pending, hstaged t heq, Map.getAt_insertAt, if_neg hne]
      exact hpending
  posted r hr := h.posted r (hposted r hr)
  staged := hstaged_posted
  prepared t ht := by
    rw [Map.getAt_insertAt] at ht
    split at ht
    · rename_i heq
      exact heq.2 ▸ hreturned
    · exact h.prepared t ht
  timer t found hat hretry := by
    rw [Map.getAt_insertAt] at hat
    split at hat
    · rename_i heq
      obtain rfl := Option.some.inj hat
      exact heq.2 ▸ htimer hretry
    · rename_i hne
      exact hretries t (fun heq => hne ⟨rfl, heq.symm⟩) (h.timer t found hat hretry)
  mapped := h.mapped

theorem OwnLine.requeue (hproper : Proper cfg p) (h : OwnLine cfg p) {env : PublishInputs}
    {publication publication' : PreparedPublication} {p₀ : Publisher} {e : Error}
    (htake : p.takeHead cfg.core.id = some (publication, p₀))
    (hattempt : p₀.attemptCommit cfg env cfg.core.id publication =
      ((p', publication'), .error e)) :
    OwnLine cfg (p'.requeueFailedPublication cfg.core.id publication') := by
  obtain ⟨head, -, hat, -, rfl⟩ := takeHead_eq_some.mp htake
  have htries := attemptCommit_error hattempt
  have hregular := hproper.prepared _ _ _ hat
  have hkey := hproper.keyed _ _ _ hat
  have hseq : publication.seqNo = head := congrArg Prod.snd hkey
  have hseq' : publication'.seqNo = head := htries.seqNo.trans hseq
  have hfiled := @OwnLine.file cfg p h { publication' with
    commitAttempts := publication'.commitAttempts + 1
    retryScheduled := true } head p.posted p.stagedPublicationPackets
    (p.retries ++ [(cfg.core.id, head)]) (h.prepared head (by rw [hat]; rfl)) (fun _ hr => hr)
    (fun _ _ => rfl) h.staged (fun _ => List.mem_append_right _ (List.mem_singleton_self _))
    (fun _ _ hmem => List.mem_append_left _ hmem)
  refine hfiled.congr ?_
  have hmapped : ∀ s, 0 < s → s < 2 ^ 64 →
      p'.mappings[makeMappingKey cfg.core.id cfg.core.bootstrapTime s]? =
        p.mappings[makeMappingKey cfg.core.id cfg.core.bootstrapTime s]? := by
    intro s hpos hs
    by_cases hzero : publication.seqNo = 0
    · have hgrow := htries.grow
      rw [hregular.bootstrapTime, hzero] at hgrow
      exact hgrow.same (by decide) hs fun heq => by lia
    · rw [attemptCommit_error_mappings hattempt hzero]
  rw [htries.state, Publisher.requeueFailedPublication, hseq']
  exact { SameOwn.refl _ with
    prepared := fun s => by
      simp only [Map.getAt_insertAt, Map.getAt_eraseAt]
      split
      · rfl
      · rfl
    mapped := fun s hpos hs => by rw [← hmapped s hpos hs] }

theorem OwnLine.advance (hproper : Proper cfg p) (h : OwnLine cfg p) {env : PublishInputs}
    {publication publication' : PreparedPublication} {p₀ : Publisher}
    (htake : p.takeHead cfg.core.id = some (publication, p₀))
    (hattempt : p₀.attemptCommit cfg env cfg.core.id publication = ((p', publication'), .ok ())) :
    OwnLine cfg (p'.advanceHead cfg.core.id publication'.seqNo) := by
  obtain ⟨head, hhead, hat, -, rfl⟩ := takeHead_eq_some.mp htake
  have hregular := hproper.prepared _ _ _ hat
  have hkey := hproper.keyed _ _ _ hat
  have hseq : publication.seqNo = head := congrArg Prod.snd hkey
  have hmapping := attemptCommit_mapping hattempt
  obtain ⟨p₁, core, rfl, htries, hannounces, -⟩ := attemptCommit_ok hattempt
  have hgrow := htries.grow
  obtain ⟨dataStore, mappings, extra, rfl⟩ := htries.exists_state
  have hseq' : publication'.seqNo = head := htries.seqNo.trans hseq
  rw [hregular.bootstrapTime, hseq, show publication.nodePrefix = cfg.core.id from
    congrArg Prod.fst hkey] at hmapping hgrow
  -- the head is the number after the own entry, and not 0, which the core refuses
  have hpos : head ≠ 0 := hseq ▸ hannounces.pos
  have hnext := h.next head hhead
  have hlt := h.entry_lt
  have heq : head = p.advertised cfg cfg.core.id + 1 := by
    rcases Nat.lt_or_ge (p.advertised cfg cfg.core.id + 1) (2 ^ 64) with hroom | hfull
    · rw [hnext, Nat.mod_eq_of_lt hroom]
    · have : p.advertised cfg cfg.core.id + 1 = 2 ^ 64 := by lia
      rw [this, Nat.mod_self] at hnext
      exact absurd hnext hpos
  have hreturned := h.prepared head (by rw [hat]; rfl)
  have hentry : core.vv.get cfg.core.id cfg.core.bootstrapTime =
      p.advertised cfg cfg.core.id + 1 := by
    have htarget : targetNode cfg.core cfg.core.id = cfg.core.id := ite_self _
    rw [hannounces.get, htarget, if_pos ⟨rfl, rfl⟩, hseq, heq]
  have hpending : ∀ t, t ≠ head → p.Pending cfg.core.id t →
      ({ p with preparedPublications := p.preparedPublications.eraseAt cfg.core.id head } :
        Publisher).Pending cfg.core.id t := fun t hne hold => by
    have hneq : ¬(cfg.core.id = cfg.core.id ∧ head = t) := fun hsame => hne hsame.2.symm
    rw [Pending, Map.getAt_eraseAt, if_neg hneq]
    exact hold
  rw [hseq', Publisher.advanceHead, if_pos hhead]
  constructor
  case commits =>
    have hcommits : p.commitsOf cfg.core.id ++ [head] =
        List.range' 1 (p.advertised cfg cfg.core.id + 1) := by
      rw [h.commits, List.range'_1_concat, heq, Nat.add_comm 1]
    rw [advertised, hentry, ← hcommits]
    simp [commitsOf, hseq]
  case entry_lt => exact hentry.trans_lt (heq ▸ h.lt head hreturned)
  case next =>
    intro next hnext
    rw [Map.get_insert, if_pos rfl] at hnext
    rw [advertised, hentry, ← heq]
    exact (Option.some.inj hnext).symm
  case unstarted =>
    intro hnone
    rw [Map.get_insert, if_pos rfl] at hnone
    cases hnone
  case dense => exact h.dense
  case lt => exact h.lt
  case reserved => exact h.reserved
  case reached =>
    intro t hpos ht
    rw [advertised, hentry] at ht
    rcases Nat.le_succ_iff.mp ht with hle | rfl
    · exact h.reached t hpos hle
    · exact heq ▸ hreturned
  case left =>
    intro t ht hpos
    rw [advertised, hentry]
    rcases h.left t ht hpos with hle | hold
    · exact .inl (hle.trans (Nat.le_succ _))
    · by_cases hne : t = head
      · exact .inl (by lia)
      · exact .inr (hpending t hne hold)
  case posted => exact h.posted
  case staged => exact h.staged
  case prepared =>
    intro t ht
    rw [Map.getAt_eraseAt] at ht
    split at ht
    · cases ht
    · exact h.prepared t ht
  case timer =>
    intro t found hfound hretry
    rw [Map.getAt_eraseAt] at hfound
    split at hfound
    · cases hfound
    · exact h.timer t found hfound hretry
  case mapped =>
    intro t hpos ht
    rw [advertised, hentry, ← heq]
    by_cases hne : t = head
    · subst hne
      exact ⟨fun _ => le_rfl, fun _ => hmapping⟩
    · have hold := h.mapped t hpos ht
      rw [← hgrow.same (h.lt head hreturned) ht fun hsame => hne hsame.2] at hold
      refine hold.trans ?_
      constructor <;> intro hle <;> lia

theorem OwnLine.commitLoop (hproper : Proper cfg p) (h : OwnLine cfg p) (nid : NodeID) (fuel : Nat)
    (attempts : Nat → PublishInputs) :
    Proper cfg (Publisher.commitLoop cfg nid fuel attempts p) ∧
      OwnLine cfg (Publisher.commitLoop cfg nid fuel attempts p) := by
  refine commitLoop_invariant (P := fun p => Proper cfg p ∧ OwnLine cfg p)
    (E := fun _ => True) ?_ ?_
    fuel (fun _ => trivial) ⟨hproper, h⟩
  · intro env p publication p₀ p' publication' e _ ⟨hproper, h⟩ htake hattempt
    have htries := attemptCommit_error hattempt
    refine ⟨hproper.requeue htake htries, ?_⟩
    by_cases hown : nid = cfg.core.id
    · subst hown
      exact h.requeue hproper htake hattempt
    · exact h.congr (.requeue hproper hown htake htries)
  · intro env p publication p₀ p' publication' _ ⟨hproper, h⟩ htake hattempt
    obtain ⟨p₁, core, hstate, htries, hannounces, -⟩ := attemptCommit_ok hattempt
    constructor
    · rw [hstate]
      exact hproper.advance htake htries _ _ _
    · by_cases hown : nid = cfg.core.id
      · subst hown
        exact h.advance hproper htake hattempt
      · rw [hstate]
        exact h.congr (.advance hproper hown htake htries hannounces _)

/-! ### Steps -/

/-- The state between events: an own publication at the head of the line waits for its retry. -/
structure Driven (cfg : PubSubConfig) (p : Publisher) : Prop where
  proper : Proper cfg p
  line : OwnLine cfg p
  blocked : p.Blocked cfg.core.id

theorem driven_empty : Driven cfg {} where
  proper := ⟨fun publication h => by simp at h, fun nid s publication h => by simp at h,
    fun nid s publication h => by simp at h⟩
  line := ownLine_empty
  blocked head publication hhead := by simp at hhead

theorem Driven.congr (h : Driven cfg p) (hproper : Proper cfg p') (hsame : SameOwn cfg p p') :
    Driven cfg p' :=
  ⟨hproper, h.line.congr hsame, h.blocked.congr hsame.prepared (.inl hsame.next)⟩

theorem Publishes.holds {s : SeqNo} {result : Outcome Publisher} {settle : Publisher → Publisher}
    (h : Publishes cfg nid s p result settle)
    (hsettle : ∀ q, (settle q).posted = q.posted ∧
      (settle q).preparedPublications = q.preparedPublications) :
    result.1.posted = p.posted ∧ result.1.preparedPublications = p.preparedPublications := by
  rcases h with ⟨halters, -⟩ | ⟨p₁, core, packets, halters, -, -, -, hresult⟩
  · rw [halters.state]
    exact ⟨rfl, rfl⟩
  · obtain ⟨hposted, hprepared⟩ := hsettle { p₁ with core }
    rw [hresult]
    refine ⟨hposted.trans ?_, hprepared.trans ?_⟩ <;> rw [halters.state]

/-- A synchronous call for another node. -/
theorem Driven.publishes (h : Driven cfg p) {s : SeqNo} {p₀ : Publisher}
    {result : Outcome Publisher}
    {settle : Publisher → Publisher} (hs : s < 2 ^ 64) (hne : nid ≠ cfg.core.id)
    (htarget : targetNode cfg.core nid = nid) (hsame : SameOwn cfg p p₀)
    (hposted : p₀.posted = p.posted) (hprepared : p₀.preparedPublications = p.preparedPublications)
    (hpublishes : Publishes cfg nid s p₀ result settle)
    (hsettle : ∀ q, SameOwn cfg q (settle q) ∧ (settle q).posted = q.posted ∧
      (settle q).preparedPublications = q.preparedPublications) : Driven cfg result.1 := by
  obtain ⟨hposted', hprepared'⟩ := hpublishes.holds fun q => (hsettle q).2
  exact h.congr (h.proper.same (hposted'.trans hposted) (hprepared'.trans hprepared))
    (hsame.trans (.publishes hs hne htarget hpublishes fun q => (hsettle q).1))

theorem Driven.stages (h : Driven cfg p) (env : PublishInputs) (kind : AsyncPublication.Kind)
    (name nodePrefix : Name) (freshnessPeriod : Int) (mappingBlocks : List Block) :
    Driven cfg (p.prepareAndStageAsyncPublication cfg env kind name nodePrefix freshnessPeriod
      mappingBlocks).1 := by
  have hmappings := prepareAndStage_mappings cfg env p kind name nodePrefix freshnessPeriod
    mappingBlocks
  have hlt := nextSeqNo_lt cfg p (nodeOf cfg nodePrefix)
  have hcases := prepareAndStage_cases cfg env p kind name nodePrefix freshnessPeriod mappingBlocks
  have htarget := nodeOf_eq cfg nodePrefix
  generalize nodeOf cfg nodePrefix = nid at hlt hcases htarget
  have hproper := fun prepared (hregular : Regular cfg prepared) =>
    @Proper.congr cfg p (stage nid (p.nextSeqNo cfg nid) prepared p) h.proper
      (fun publication hmem => (List.mem_append.mp hmem).imp_right fun hnew => by
        rw [List.mem_singleton.mp hnew]
        exact hregular) fun _ _ _ hat => .inl hat
  by_cases hown : nid = cfg.core.id
  · subst hown
    have hreserve : Driven cfg (p.reserve cfg.core.id (p.lastSeqNo cfg cfg.core.id)) :=
      ⟨h.proper.same rfl rfl, h.line.reserve, h.blocked.congr (fun _ => rfl) (.inl rfl)⟩
    rcases hcases with ⟨halters, -⟩ | ⟨p₁, prepared, halters, hstages, hresult⟩
    · refine hreserve.congr (hreserve.proper.same ?_ ?_) (.of_alters halters hmappings) <;>
        rw [halters.state]
    · rw [hresult] at hmappings ⊢
      have hsame : SameOwn cfg _ p₁ := .of_alters halters hmappings
      have hlast : p₁.lastSeqNo cfg cfg.core.id = p.lastSeqNo cfg cfg.core.id := by
        rw [lastSeqNo_own, hsame.reserved, hsame.entry]
        simp [Publisher.reserve, lastSeqNo_own, advertised]
      have hline := @OwnLine.stage cfg p₁ (hreserve.line.congr hsame) prepared _
        (by rw [hlast]; rfl) hstages.seqNo hstages.nodePrefix hstages.retryScheduled
        prepared.outerPackets
      refine ⟨(hproper prepared ⟨hstages.bootstrapTime, ?_, ?_⟩).same ?_ ?_, hline, ?_⟩
      · rw [hstages.nodePrefix, htarget]
      · exact hstages.seqNo ▸ hlt
      · simp only [Publisher.return_, stage]
        rw [halters.state]
        rfl
      · simp only [Publisher.return_, stage]
        rw [halters.state]
        rfl
      · refine h.blocked.congr (fun s => ?_) ?_
        · simp only [Publisher.return_, stage]
          exact hsame.prepared s
        · simp only [Publisher.return_, stage]
          split
          · exact .inl hsame.next
          · rename_i hnew
            refine .inr fun s => ?_
            have hnone := h.line.unstarted
              (hsame.next.symm.trans (Std.ExtTreeMap.getElem?_eq_none hnew))
            by_contra hsome
            exact hnone.2 s (h.line.prepared s (Option.isSome_iff_ne_none.mpr hsome))
  · have hreserve : SameOwn cfg p (p.reserve nid (p.lastSeqNo cfg nid)) :=
      .counters hown _ rfl
    rcases hcases with ⟨halters, -⟩ | ⟨p₁, prepared, halters, hstages, hresult⟩
    · refine h.congr (h.proper.same ?_ ?_) (hreserve.trans (.alters hlt hown halters)) <;>
        rw [halters.state] <;> rfl
    · rw [hresult]
      have hstage : SameOwn cfg p₁ (p₁.stage nid (p.nextSeqNo cfg nid) prepared) :=
        .stage hown hstages.nodePrefix
      refine h.congr ?_ (((hreserve.trans (.alters hlt hown halters)).trans hstage).trans
        (.return_async hown _ _))
      refine (hproper prepared ⟨hstages.bootstrapTime, ?_, ?_⟩).same ?_ ?_
      · rw [hstages.nodePrefix, htarget]
      · exact hstages.seqNo ▸ hlt
      · simp only [Publisher.return_, stage]
        rw [halters.state]
        rfl
      · simp only [Publisher.return_, stage]
        rw [halters.state]
        rfl

/-- After the loop of a node, nothing at the head of the own line is left to commit. -/
theorem Driven.commitReady (hproper : Proper cfg p) (hline : OwnLine cfg p) (nid : NodeID)
    (attempts : Nat → PublishInputs) (hblocked : nid ≠ cfg.core.id → p.Blocked cfg.core.id) :
    Driven cfg (p.commitReadyPreparedPublications cfg attempts nid) := by
  obtain ⟨hproper', hline'⟩ := hline.commitLoop hproper nid
    (p.preparedPublications.sizeAt nid + 1) attempts
  exact ⟨hproper', hline', Keyed.commitReady_blocked hproper.keyed nid attempts hblocked⟩

theorem Driven.onPrepared (h : Driven cfg p) {index : Nat} {publication : PreparedPublication}
    (hindex : p.posted[index]? = some publication) (attempts : Nat → PublishInputs) :
    Driven cfg (({ p with posted := p.posted.eraseIdx index } :
      Publisher).onPreparedPublication cfg attempts publication) := by
  have hmem : publication ∈ p.posted := List.mem_of_getElem? hindex
  have hproper : Proper cfg (({ p with posted := p.posted.eraseIdx index } :
      Publisher).unstage publication) := by
    refine h.proper.congr (fun r hr => .inl (List.mem_of_mem_eraseIdx hr)) fun nid s r hat => ?_
    simp only [unstage, Map.getAt_insertAt] at hat
    split at hat
    · rename_i heq
      obtain rfl := Option.some.inj hat
      exact .inr ⟨by rw [← heq.1, ← heq.2]; rfl, h.proper.posted _ hmem⟩
    · exact .inl hat
  by_cases hown : publication.nodePrefix = cfg.core.id
  · obtain ⟨hreturned, hfresh⟩ := h.line.posted publication hmem hown
    refine .commitReady hproper ?_ _ _ fun hne => absurd hown hne
    rw [unstage, hown]
    refine h.line.file hreturned (fun r hr => List.mem_of_mem_eraseIdx hr) (fun t hne => ?_)
      (fun t ht => ?_) (fun hretry => ?_) fun _ _ hmem => hmem
    · rw [Map.getAt_eraseAt, if_neg fun heq => hne heq.2.symm]
    · rw [Map.getAt_eraseAt] at ht
      split at ht
      · cases ht
      · rename_i hne
        obtain ⟨r, hr, hkey⟩ := h.line.staged t ht
        refine ⟨r, mem_eraseIdx_of_ne hindex hr fun heq => hne ⟨rfl, ?_⟩, hkey⟩
        exact congrArg Prod.snd (heq ▸ hkey)
    · rw [hfresh] at hretry
      cases hretry
  · have hsame : SameOwn cfg p (({ p with posted := p.posted.eraseIdx index } :
        Publisher).unstage publication) :=
      { SameOwn.refl p with
        staged := fun s => by
          rw [unstage, Map.getAt_eraseAt, if_neg fun heq => hown heq.1]
        prepared := fun s => by
          rw [unstage, Map.getAt_insertAt, if_neg fun heq => hown heq.1]
        posted := fun r hr => ⟨List.mem_of_mem_eraseIdx, fun hmem =>
          mem_eraseIdx_of_ne hindex hmem fun heq => hown (heq ▸ hr)⟩ }
    exact .commitReady hproper (h.line.congr hsame) _ _ fun _ =>
      h.blocked.congr hsame.prepared (.inl hsame.next)

theorem Driven.onRetry (h : Driven cfg p) {index : Nat} {s : SeqNo}
    (hindex : p.retries[index]? = some (nid, s)) (attempts : Nat → PublishInputs) :
    Driven cfg (({ p with retries := p.retries.eraseIdx index } : Publisher).onRetry
      cfg attempts nid s) := by
  have hretries : ∀ t, (nid, s) ≠ (cfg.core.id, t) → (cfg.core.id, t) ∈ p.retries →
      (cfg.core.id, t) ∈ p.retries.eraseIdx index := fun t hne hmem =>
    mem_eraseIdx_of_ne hindex hmem (Ne.symm hne)
  unfold Publisher.onRetry
  split
  · rename_i hat
    have hother : ∀ t found, p.preparedPublications.getAt cfg.core.id t = some found →
        (nid, s) ≠ (cfg.core.id, t) := by
      intro t found hfound heq
      obtain ⟨rfl, rfl⟩ := Prod.mk.inj heq
      exact Option.some_ne_none found (hfound.symm.trans hat)
    have hline : OwnLine cfg { p with retries := p.retries.eraseIdx index } :=
      { h.line with
        timer := fun t found hfound hretry =>
          hretries t (hother t found hfound) (h.line.timer t found hfound hretry) }
    exact ⟨h.proper.same rfl rfl, hline, h.blocked.congr (fun _ => rfl) (.inl rfl)⟩
  · rename_i publication hat
    have hkey := h.proper.keyed nid s publication hat
    have hregular := h.proper.prepared nid s publication hat
    have hproper : Proper cfg (({ p with retries := p.retries.eraseIdx index } :
        Publisher).clearRetry nid s publication) := by
      refine h.proper.congr (fun r hr => .inl hr) fun nid' s' r hr => ?_
      simp only [clearRetry, Map.getAt_insertAt] at hr
      split at hr
      · rename_i heq
        obtain rfl := Option.some.inj hr
        exact .inr ⟨by rw [← heq.1, ← heq.2]; exact hkey,
          ⟨hregular.bootstrapTime, hregular.target, hregular.lt⟩⟩
      · exact .inl hr
    by_cases hown : nid = cfg.core.id
    · subst hown
      refine .commitReady hproper ?_ _ _ fun hne => absurd rfl hne
      refine h.line.file (h.line.prepared s (by rw [show _ = _ from hat]; rfl)) (fun _ hr => hr)
        (fun _ _ => rfl) h.line.staged (fun hretry => by cases hretry) fun t hne hmem => ?_
      exact hretries t (fun heq => hne (congrArg Prod.snd heq).symm) hmem
    · have hsame : SameOwn cfg p (({ p with retries := p.retries.eraseIdx index } :
          Publisher).clearRetry nid s publication) :=
        { SameOwn.refl p with
          prepared := fun t => by
            rw [clearRetry, Map.getAt_insertAt, if_neg fun heq => hown heq.1]
          retries := fun t hmem => hretries t (fun heq => hown (congrArg Prod.fst heq)) hmem }
      exact .commitReady hproper (h.line.congr hsame) _ _ fun _ =>
        h.blocked.congr hsame.prepared (.inl hsame.next)

theorem Driven.step {o : Occurrence} (hstep : Publisher.step cfg p o = some p')
    (hok : AsyncOnly cfg p o) (h : Driven cfg p) : Driven cfg p' := by
  obtain ⟨event, inputs⟩ := o
  have hlt := fun nid => nextSeqNo_lt cfg p nid
  cases event with
  | publishBytes name value nodePrefix freshnessPeriod mappingBlocks =>
    obtain rfl := Option.some.inj hstep
    refine h.publishes (hlt _) hok (nodeOf_eq cfg nodePrefix) (.refl p) rfl rfl
      (publishBytes_publishes _ _ _ _ _ _) fun q => ⟨?_, rfl, rfl⟩
    exact .counters hok _ (Map.get_insert_ne hok)
  | publishName name nodePrefix mappingBlocks =>
    obtain rfl := Option.some.inj hstep
    exact h.publishes (hlt _) hok (nodeOf_eq cfg nodePrefix)
      (.counters hok _ (next_other hok _)) rfl
      rfl (publishName_publishes _ _ _ _) fun q => ⟨.refl q, rfl, rfl⟩
  | publishPacket data nodePrefix mappingBlocks =>
    obtain rfl := Option.some.inj hstep
    exact h.publishes (hlt _) hok (nodeOf_eq cfg nodePrefix)
      (.counters hok _ (next_other hok _)) rfl
      rfl (publishPacket_publishes _ _ _ _) fun q => ⟨.refl q, rfl, rfl⟩
  | publishBytesAsync name value nodePrefix freshnessPeriod mappingBlocks =>
    obtain rfl := Option.some.inj hstep
    exact h.stages _ _ _ _ _ _
  | publishNameAsync name nodePrefix freshnessPeriod mappingBlocks =>
    obtain rfl := Option.some.inj hstep
    exact h.stages _ _ _ _ _ _
  | publishPacketAsync data nodePrefix mappingBlocks =>
    obtain rfl := Option.some.inj hstep
    exact h.stages _ _ _ _ _ _
  | preparedPublication index =>
    obtain ⟨_, hindex, rfl⟩ := (Publisher.step_preparedPublication rfl).mp hstep
    exact h.onPrepared hindex _
  | retry index =>
    obtain ⟨_, _, hindex, rfl⟩ := (Publisher.step_retry rfl).mp hstep
    exact h.onRetry hindex _
  | extraBlocks =>
    obtain rfl := Option.some.inj hstep
    exact h.congr (h.proper.same rfl rfl) { SameOwn.refl p with }
  | core event =>
    obtain ⟨core, hcore, rfl⟩ := (Publisher.step_core rfl).mp hstep
    exact h.congr (h.proper.same rfl rfl) (.core (hok core hcore))

/-! ### The order of the commits -/

/-- As long as a number that has been returned is not committed, a posted callback or a timer is
outstanding for the own node. -/
theorem Driven.reached (h : Driven cfg p)
    (hposted : ∀ publication ∈ p.posted, publication.nodePrefix ≠ cfg.core.id)
    (hretries : ∀ s, (cfg.core.id, s) ∉ p.retries) {s : SeqNo}
    (hs : (cfg.core.id, s) ∈ p.asyncReturned) :
    s ≤ p.advertised cfg cfg.core.id := by
  by_contra hnot
  -- the number after the own entry is pending and at the head
  have hfirst : (cfg.core.id, p.advertised cfg cfg.core.id + 1) ∈ p.asyncReturned := by
    rcases Nat.eq_or_lt_of_le (Nat.lt_of_not_le hnot) with heq | hlt
    · rw [show p.advertised cfg cfg.core.id + 1 = s from heq]
      exact hs
    · exact h.line.dense s _ hs (Nat.succ_pos _) hlt
  have hroom := h.line.lt _ hfirst
  obtain ⟨head, hhead⟩ : ∃ head, p.nextAsyncCommitSeq[cfg.core.id]? = some head :=
    Option.ne_none_iff_exists'.mp fun hnone => (h.line.unstarted hnone).2 _ hfirst
  have heq := h.line.next head hhead
  rw [Nat.mod_eq_of_lt hroom] at heq
  rcases h.line.left _ hfirst (Nat.succ_pos _) with hle | hstaged | hprepared
  · exact absurd hle (Nat.not_succ_le_self _)
  · obtain ⟨publication, hmem, hkey⟩ := h.line.staged _ hstaged
    exact hposted publication hmem (congrArg Prod.fst hkey)
  · obtain ⟨publication, hat⟩ := Option.isSome_iff_exists.mp hprepared
    have hretry := h.blocked head publication hhead (heq ▸ hat)
    exact hretries _ (h.line.timer _ publication hat hretry)

/-- The commits of the own node are the numbers from 1 on, one after the other; each of them has
raised the own entry by one and has left its mapping behind, and nothing else has.  A number that a
call has returned is committed, once, or still pending; with no callback and no timer outstanding
for the node, it is committed. -/
theorem async_commits_once {es : List Occurrence}
    (hasync : Along (Publisher.step cfg) (AsyncOnly cfg) {} es)
    (hrun : run (Publisher.step cfg) {} es = some p) :
    p.commitsOf cfg.core.id = List.range' 1 (p.commitsOf cfg.core.id).length ∧
    p.advertised cfg cfg.core.id = (p.commitsOf cfg.core.id).length ∧
    (∀ s, 0 < s → s < 2 ^ 64 →
      ((p.mappings[makeMappingKey cfg.core.id cfg.core.bootstrapTime s]?).isSome ↔
        s ∈ p.commitsOf cfg.core.id)) ∧
    (∀ s, (cfg.core.id, s) ∈ p.asyncReturned → 0 < s →
      ((p.commitsOf cfg.core.id).count s = 1 ∨
        (p.commitsOf cfg.core.id).count s = 0 ∧ p.Pending cfg.core.id s) ∧
      (∀ s', s < s' → s' ∈ p.commitsOf cfg.core.id → s ∈ p.commitsOf cfg.core.id) ∧
      ((∀ publication ∈ p.posted, publication.nodePrefix ≠ cfg.core.id) →
        (∀ s', (cfg.core.id, s') ∉ p.retries) → (p.commitsOf cfg.core.id).count s = 1)) := by
  have h : Driven cfg p := run_invariant_along
    (fun p o p' hstep hok h => h.step hstep hok) driven_empty hasync hrun
  have hlength : (p.commitsOf cfg.core.id).length = p.advertised cfg cfg.core.id := by
    rw [h.line.commits, List.length_range']
  have hmem : ∀ s, s ∈ p.commitsOf cfg.core.id ↔ 0 < s ∧ s ≤ p.advertised cfg cfg.core.id := by
    intro s
    rw [h.line.commits, List.mem_range'_1]
    constructor <;> intro hs <;> lia
  have hnodup : (p.commitsOf cfg.core.id).Nodup := by
    rw [h.line.commits]
    exact List.nodup_range'
  have hcount : ∀ s, 0 < s → s ≤ p.advertised cfg cfg.core.id →
      (p.commitsOf cfg.core.id).count s = 1 := fun s hpos hle =>
    List.count_eq_one_of_mem hnodup ((hmem s).mpr ⟨hpos, hle⟩)
  refine ⟨by rw [hlength, h.line.commits], hlength.symm, fun s hpos hlt => ?_,
    fun s hs hpos => ⟨?_, fun s' hlt hs' => ?_, fun hposted hretries => ?_⟩⟩
  · rw [h.line.mapped s hpos hlt, hmem]
    exact (and_iff_right hpos).symm
  · by_cases hle : s ≤ p.advertised cfg cfg.core.id
    · exact .inl (hcount s hpos hle)
    · refine .inr ⟨List.count_eq_zero.mpr fun hin => hle ((hmem s).mp hin).2, ?_⟩
      exact (h.line.left s hs hpos).resolve_left hle
  · exact (hmem s).mpr ⟨hpos, hlt.le.trans ((hmem s').mp hs').2⟩
  · exact hcount s hpos (h.reached hposted hretries hs)

/-- The commit of the first of two publications fails, which blocks the second until the retry. -/
def blockedRun : List Occurrence :=
  orderedRun ++ [⟨.preparedPublication 0, sampleInputs⟩, ⟨.retry 0, sampleInputs⟩]

theorem async_commits_once_blocked :
    let p := (run (Publisher.step sampleConfig) {} blockedRun).get (by decide +kernel)
    let own := sampleConfig.core.id
    p.commitsOf own = [1, 2] ∧
      p.commitsOf own = List.range' 1 (p.commitsOf own).length ∧
      p.advertised sampleConfig own = (p.commitsOf own).length ∧
      (∀ s, 0 < s → s < 2 ^ 64 →
        ((p.mappings[makeMappingKey own sampleConfig.core.bootstrapTime s]?).isSome ↔
          s ∈ p.commitsOf own)) ∧
      (∀ s, (own, s) ∈ p.asyncReturned → 0 < s →
        ((p.commitsOf own).count s = 1 ∨ (p.commitsOf own).count s = 0 ∧ p.Pending own s) ∧
        (∀ s', s < s' → s' ∈ p.commitsOf own → s ∈ p.commitsOf own) ∧
        ((∀ publication ∈ p.posted, publication.nodePrefix ≠ own) →
          (∀ s', (own, s') ∉ p.retries) → (p.commitsOf own).count s = 1)) :=
  ⟨by decide +kernel, async_commits_once (by decide +kernel) (Option.some_get _).symm⟩

end Publisher

end NdnSvs
