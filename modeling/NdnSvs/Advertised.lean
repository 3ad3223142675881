import NdnSvs.CoreRuns
import NdnSvs.Lib.Runs
import NdnSvs.PublishOrder

/-! What is advertised is available.  As long as each number is announced right after the one before
it, every number up to the own entry of a node has been published, with its mapping and its packets
in their stores. -/

namespace NdnSvs

open Lib Lib.Tlv SVSyncCore

def Publication.key (r : Publication) : NodeID × SeqNo := (r.nodePrefix, r.seqNo)

namespace Publisher

variable {cfg : PubSubConfig} {p p' : Publisher} {nid : NodeID}

/-- The own entry of a node. -/
def advertised (cfg : PubSubConfig) (p : Publisher) (nid : NodeID) : SeqNo :=
  p.core.vv.get nid cfg.core.bootstrapTime

/-! ### The conditions on the events -/

/-- The name that a publish call is made for. -/
def Event.nodePrefix? : Event → Option Name
  | .publishBytes _ _ nodePrefix _ _ | .publishName _ nodePrefix _ | .publishPacket _ nodePrefix _
  | .publishBytesAsync _ _ nodePrefix _ _ | .publishNameAsync _ nodePrefix _ _
  | .publishPacketAsync _ nodePrefix _ => some nodePrefix
  | _ => none

/-- The nodes that a run publishes under. -/
def publishedUnder (cfg : PubSubConfig) (es : List Occurrence) : List NodeID :=
  es.filterMap fun o => o.event.nodePrefix?.map (nodeOf cfg)

/-- No received vector claims more for the own entries than is advertised, and nothing but the
publish calls assigns an entry. -/
def Modest (cfg : PubSubConfig) (own : List NodeID) (p : Publisher) (o : Occurrence) : Prop :=
  match o.event with
  | .core (.interest interest) =>
    ∀ nid ∈ own, Claims cfg.core nid cfg.core.bootstrapTime (p.advertised cfg nid) interest
  | .core (.updateSeqNo _ _ _) => False
  | _ => True

/-- The head of a node commits, unless it throws, right after the entry of the node. -/
def HeadFollows (cfg : PubSubConfig) (env : PublishInputs) (p : Publisher) (nid : NodeID) : Prop :=
  match p.takeHead nid with
  | none => True
  | some (publication, p₀) => (p₀.attemptCommit cfg env nid publication).2.isOk →
    publication.seqNo = p.advertised cfg nid + 1

instance (env : PublishInputs) (p : Publisher) (nid : NodeID) :
    Decidable (HeadFollows cfg env p nid) := by
  unfold HeadFollows
  generalize p.takeHead nid = head
  rcases head with _ | ⟨publication, p₀⟩ <;> infer_instance

/-- The loop of commits starts with the number after the advertised one, and its attempts take a
publication back whole or not at all. -/
def CommitsFollow (cfg : PubSubConfig) (attempts : Nat → PublishInputs) (p : Publisher)
    (nid : NodeID) : Prop :=
  HeadFollows cfg (attempts 0) p nid ∧
    ∀ i ≤ p.preparedPublications.sizeAt nid, (attempts i).TakesBack

instance (attempts : Nat → PublishInputs) (p : Publisher) (nid : NodeID) :
    Decidable (CommitsFollow cfg attempts p nid) := by
  unfold CommitsFollow
  infer_instance

/-- The last number of the node is the advertised one. -/
def CaughtUp (cfg : PubSubConfig) (p : Publisher) (nid : NodeID) : Prop :=
  p.lastSeqNo cfg nid = p.advertised cfg nid

instance (p : Publisher) (nid : NodeID) : Decidable (CaughtUp cfg p nid) :=
  inferInstanceAs (Decidable (_ = _))

/-- Each number is announced right after the one before it: a synchronous call that returns finds
every number before its own advertised, and a callback or a retry finds a head that is next, and
takes back whole what it takes back. -/
def Contiguous (cfg : PubSubConfig) (p : Publisher) (o : Occurrence) : Prop :=
  match o.event with
  | .publishBytes name value nodePrefix freshnessPeriod mappingBlocks =>
    HasRoom cfg p (nodeOf cfg nodePrefix) ∧
      ((p.publishBytes cfg (o.inputs 0) name value nodePrefix freshnessPeriod
        mappingBlocks).2.isOk →
        CaughtUp cfg p (nodeOf cfg nodePrefix))
  | .publishName name nodePrefix mappingBlocks =>
    HasRoom cfg p (nodeOf cfg nodePrefix) ∧
      ((p.publishName cfg (o.inputs 0) name nodePrefix mappingBlocks).2.isOk →
        CaughtUp cfg p (nodeOf cfg nodePrefix))
  | .publishPacket data nodePrefix mappingBlocks =>
    HasRoom cfg p (nodeOf cfg nodePrefix) ∧
      ((p.publishPacket cfg (o.inputs 0) data nodePrefix mappingBlocks).2.isOk →
        CaughtUp cfg p (nodeOf cfg nodePrefix))
  | .publishBytesAsync _ _ nodePrefix _ _ | .publishNameAsync _ nodePrefix _ _
  | .publishPacketAsync _ nodePrefix _ => HasRoom cfg p (nodeOf cfg nodePrefix)
  | .preparedPublication index =>
    match p.posted[index]? with
    | none => True
    | some publication =>
      CommitsFollow cfg o.inputs (({ p with posted := p.posted.eraseIdx index } :
        Publisher).unstage publication) publication.nodePrefix
  | .retry index =>
    match p.retries[index]? with
    | none => True
    | some (nid, s) =>
      match p.preparedPublications.getAt nid s with
      | none => True
      | some publication =>
        CommitsFollow cfg o.inputs (({ p with retries := p.retries.eraseIdx index } :
          Publisher).clearRetry nid s publication) nid
  | .extraBlocks | .core _ => True

instance (p : Publisher) (o : Occurrence) : Decidable (Contiguous cfg p o) := by
  unfold Contiguous
  generalize o.event = event
  rcases event
  case preparedPublication index =>
    dsimp only
    generalize p.posted[index]? = found
    rcases found <;> infer_instance
  case retry index =>
    dsimp only
    generalize p.retries[index]? = retry
    rcases retry with _ | ⟨nid, s⟩
    · infer_instance
    · dsimp only
      generalize p.preparedPublications.getAt nid s = found
      rcases found <;> infer_instance
  all_goals infer_instance

/-! ### The invariants -/

/-- A publication that is posted or prepared. -/
def Holds (p : Publisher) (publication : PreparedPublication) : Prop :=
  publication ∈ p.posted ∨ ∃ nid s, p.preparedPublications.getAt nid s = some publication

/-- The packets of each call that has returned are in the store, unless the publication is pending:
then it brings the same packets along. -/
structure Kept (cfg : PubSubConfig) (p : Publisher) : Prop where
  limit : ∀ nid : NodeID, (p.reservedSeqNo[nid]?).getD 0 < 2 ^ 64
  bounds : ∀ r ∈ p.returned, 0 < r.seqNo ∧ r.seqNo ≤ (p.reservedSeqNo[r.nodePrefix]?).getD 0
  named : ∀ r ∈ p.returned, WellNamed cfg r.nodePrefix r.seqNo r.packets
  has : ∀ r ∈ p.returned, p.Pending r.nodePrefix r.seqNo ∨ p.dataStore.Has r.packets
  held : ∀ publication, p.Holds publication →
    publication.bootstrapTime = cfg.core.bootstrapTime ∧ Held p.dataStore publication
  logged : ∀ publication, p.Holds publication → ∃ r ∈ p.returned, r.key = publication.key
  same : ∀ publication, p.Holds publication → ∀ r ∈ p.returned, r.key = publication.key →
    r.packets = publication.outerPackets

/-- Every number up to the advertised one has its mapping, and the pending ones are ahead of it. -/
structure Reached (cfg : PubSubConfig) (own : List NodeID) (p : Publisher) : Prop where
  ahead : ∀ nid s, p.Pending nid s → nid ∈ own ∧ p.advertised cfg nid < s
  mapped : ∀ nid ∈ own, ∀ s, 0 < s → s ≤ p.advertised cfg nid →
    (p.mappings[makeMappingKey nid cfg.core.bootstrapTime s]?).isSome ∧
      ∃ r ∈ p.returned, r.key = (nid, s)
  snapshots : p.core.Snapshots
  bounded : ∀ nid ∈ own,
    Bounded cfg.core nid cfg.core.bootstrapTime (p.advertised cfg nid) p.core

structure Covered (cfg : PubSubConfig) (own : List NodeID) (p : Publisher) : Prop extends
    Filed cfg p, Kept cfg p, Reached cfg own p

theorem covered_empty {own : List NodeID} : Covered cfg own {} := by
  have hnone : ∀ nid s, ¬({} : Publisher).Pending nid s := by simp [Pending]
  have hholds : ∀ publication, ¬({} : Publisher).Holds publication := by simp [Holds]
  refine ⟨(lined_empty {}).toFiled, ⟨by simp, by simp, by simp, by simp,
    fun publication h => absurd h (hholds publication),
    fun publication h => absurd h (hholds publication),
    fun publication h => absurd h (hholds publication)⟩,
    ⟨fun nid s h => absurd h (hnone nid s), fun nid _ s hpos hle => ?_, snapshots_empty,
      fun nid _ => bounded_empty⟩⟩
  have : s ≤ 0 := by simpa [advertised] using hle
  lia

theorem Filed.pending_of_holds (h : Filed cfg p) {publication : PreparedPublication}
    (hholds : p.Holds publication) : p.Pending publication.nodePrefix publication.seqNo := by
  rcases hholds with hmem | ⟨nid, s, hat⟩
  · exact .inl ((h.staged _ _).mpr (List.mem_map_of_mem (f := PreparedPublication.key) hmem))
  · obtain ⟨rfl, rfl⟩ := Prod.mk.inj (h.keyed nid s publication hat)
    exact .inr (by rw [hat]; rfl)

theorem Kept.wellNamed (h : Kept cfg p) {publication : PreparedPublication}
    (hholds : p.Holds publication) :
    WellNamed cfg publication.nodePrefix publication.seqNo publication.outerPackets := by
  obtain ⟨r, hr, hkey⟩ := h.logged publication hholds
  obtain ⟨hnode, hseq⟩ := Prod.mk.inj hkey
  rw [← h.same publication hholds r hr hkey, ← hnode, ← hseq]
  exact h.named r hr

theorem Kept.seqNo_lt (h : Kept cfg p) {r : Publication} (hr : r ∈ p.returned) :
    r.seqNo < 2 ^ 64 := (h.bounds r hr).2.trans_lt (h.limit _)

theorem Kept.holds_lt (h : Kept cfg p) {publication : PreparedPublication}
    (hholds : p.Holds publication) : publication.seqNo < 2 ^ 64 := by
  obtain ⟨r, hr, hkey⟩ := h.logged publication hholds
  have hseq := (Prod.mk.inj hkey).2
  rw [← hseq]
  exact h.seqNo_lt hr

/-- The next number is new. -/
theorem Kept.fresh (h : Kept cfg p) (hroom : HasRoom cfg p nid) :
    ∀ r ∈ p.returned, r.key ≠ (nid, p.nextSeqNo cfg nid) := by
  intro r hr heq
  obtain ⟨rfl, hseq⟩ := Prod.mk.inj heq
  have hle := (h.bounds r hr).2
  have hlast := reserved_le_last cfg p r.nodePrefix
  rw [nextSeqNo_eq hroom] at hseq
  lia

theorem Kept.unpending (h : Kept cfg p) (hfiled : Filed cfg p) {s : SeqNo}
    (hnew : ∀ r ∈ p.returned, r.key ≠ (nid, s)) : ¬p.Pending nid s := by
  have hlogged : ∀ publication, p.Holds publication → publication.key ≠ (nid, s) := by
    intro publication hholds heq
    obtain ⟨r, hr, hkey⟩ := h.logged publication hholds
    exact hnew r hr (hkey.trans heq)
  rintro (hstaged | hprepared)
  · obtain ⟨publication, hmem, hkey⟩ := List.mem_map.mp ((hfiled.staged nid s).mp hstaged)
    exact hlogged publication (.inl hmem) hkey
  · obtain ⟨publication, hat⟩ := Option.isSome_iff_exists.mp hprepared
    exact hlogged publication (.inr ⟨nid, s, hat⟩) (hfiled.keyed nid s publication hat)

/-! ### What leaves the line alone -/

theorem Kept.congr (h : Kept cfg p) (hposted : p'.posted = p.posted)
    (hstaged : p'.stagedPublicationPackets = p.stagedPublicationPackets)
    (hprepared : p'.preparedPublications = p.preparedPublications)
    (hstore : p'.dataStore = p.dataStore) (hreturned : p'.returned = p.returned)
    (hlimit : ∀ nid : NodeID, (p'.reservedSeqNo[nid]?).getD 0 < 2 ^ 64)
    (hreserved : ∀ nid : NodeID, (p.reservedSeqNo[nid]?).getD 0 ≤ (p'.reservedSeqNo[nid]?).getD 0) :
    Kept cfg p' := by
  refine ⟨hlimit, fun r hr => ?_, ?_, ?_, ?_, ?_, ?_⟩
  · rw [hreturned] at hr
    exact ⟨(h.bounds r hr).1, (h.bounds r hr).2.trans (hreserved _)⟩
  · simpa only [hreturned] using h.named
  · simpa only [hreturned, Pending, hstaged, hprepared, hstore] using h.has
  · simpa only [Holds, hposted, hprepared, hstore] using h.held
  · simpa only [Holds, hposted, hprepared, hreturned] using h.logged
  · simpa only [Holds, hposted, hprepared, hreturned] using h.same

variable {own : List NodeID}

theorem Reached.congr (h : Reached cfg own p) (hcore : p'.core = p.core)
    (hpending : ∀ nid s, p'.Pending nid s → p.Pending nid s)
    (hmappings : ∀ key : Name, (p.mappings[key]?).isSome → (p'.mappings[key]?).isSome)
    (hreturned : ∀ r ∈ p.returned, r ∈ p'.returned) : Reached cfg own p' := by
  have hadvertised : ∀ nid, p'.advertised cfg nid = p.advertised cfg nid := fun nid => by
    rw [advertised, advertised, hcore]
  refine ⟨fun nid s hs => ?_, fun nid hnid s hpos hle => ?_, ?_, fun nid hnid => ?_⟩
  · rw [hadvertised]
    exact h.ahead nid s (hpending nid s hs)
  · rw [hadvertised] at hle
    obtain ⟨hmap, r, hr, hkey⟩ := h.mapped nid hnid s hpos hle
    exact ⟨hmappings _ hmap, r, hreturned r hr, hkey⟩
  · rw [hcore]
    exact h.snapshots
  · rw [hadvertised, hcore]
    exact h.bounded nid hnid

/-- Changes to the stores under a new number. -/
theorem Kept.alters (h : Kept cfg p) {s : SeqNo} (halters : Alters cfg nid s p p') (hs : s < 2 ^ 64)
    (hnew : ∀ r ∈ p.returned, r.key ≠ (nid, s)) : Kept cfg p' := by
  have hhas : ∀ r ∈ p.returned, p.dataStore.Has r.packets → p'.dataStore.Has r.packets := by
    intro r hr
    refine halters.differs.has hs (h.seqNo_lt hr) (fun heq => hnew r hr ?_) (h.named r hr)
    rw [Publication.key, ← heq.1, ← heq.2]
  have hheld : ∀ publication, p.Holds publication → Held p'.dataStore publication := by
    intro publication hholds hstored
    obtain ⟨r, hr, hkey⟩ := h.logged publication hholds
    rw [← h.same publication hholds r hr hkey]
    refine hhas r hr ?_
    rw [h.same publication hholds r hr hkey]
    exact (h.held publication hholds).2 hstored
  rw [halters.state]
  exact ⟨h.limit, h.bounds, h.named, fun r hr => (h.has r hr).imp_right (hhas r hr),
    fun publication hholds => ⟨(h.held publication hholds).1, hheld publication hholds⟩, h.logged,
    h.same⟩

theorem Covered.alters (h : Covered cfg own p) {s : SeqNo} (halters : Alters cfg nid s p p')
    (hs : s < 2 ^ 64) (hnew : ∀ r ∈ p.returned, r.key ≠ (nid, s)) : Covered cfg own p' := by
  refine ⟨?_, h.toKept.alters halters hs hnew, ?_⟩
  · refine h.toFiled.congr ?_ ?_ ?_ ?_ <;> rw [halters.state]
  · refine h.toReached.congr ?_ (fun nid s hs => ?_) halters.grow.kept fun r hr => ?_
    · rw [halters.state]
    · rw [halters.state] at hs
      exact hs
    · rw [halters.state]
      exact hr

/-- A reservation that grows, and any head pointers. -/
theorem Covered.reserved (h : Covered cfg own p) {s : SeqNo} (hs : s < 2 ^ 64)
    (hle : (p.reservedSeqNo[nid]?).getD 0 ≤ s) (next : Map NodeID SeqNo) :
    Covered cfg own { p with
      reservedSeqNo := p.reservedSeqNo.insert nid s, nextAsyncCommitSeq := next } := by
  refine ⟨h.toFiled.congr rfl rfl rfl rfl, h.toKept.congr rfl rfl rfl rfl rfl (fun nid' => ?_)
    (le_insert hle), h.toReached.congr rfl (fun _ _ hs => hs) (fun _ hkey => hkey) fun _ hr => hr⟩
  change ((p.reservedSeqNo.insert nid s)[nid']?).getD 0 < 2 ^ 64
  rw [Map.get_insert]
  split
  · exact hs
  · exact h.limit nid'

/-- A call that returns, with its packets in the store. -/
theorem Kept.log (h : Kept cfg p) {s : SeqNo} {packets : List Data} {async : Bool} (hpos : 0 < s)
    (hle : s ≤ (p.reservedSeqNo[nid]?).getD 0) (hnew : ∀ r ∈ p.returned, r.key ≠ (nid, s))
    (hnamed : WellNamed cfg nid s packets) (hhas : p.dataStore.Has packets) :
    Kept cfg (p.return_ nid s packets async) := by
  have hcases : ∀ r ∈ (p.return_ nid s packets async).returned,
      r ∈ p.returned ∨ r = ⟨nid, s, packets, async⟩ := fun r hr =>
    (List.mem_append.mp hr).imp_right List.mem_singleton.mp
  refine ⟨h.limit, fun r hr => ?_, fun r hr => ?_, fun r hr => ?_, h.held,
    fun publication hholds => ?_, fun publication hholds r hr hkey => ?_⟩
  · rcases hcases r hr with hr | rfl
    · exact h.bounds r hr
    · exact ⟨hpos, hle⟩
  · rcases hcases r hr with hr | rfl
    · exact h.named r hr
    · exact hnamed
  · rcases hcases r hr with hr | rfl
    · exact h.has r hr
    · exact .inr hhas
  · obtain ⟨r, hr, hkey⟩ := h.logged publication hholds
    exact ⟨r, List.mem_append_left _ hr, hkey⟩
  · rcases hcases r hr with hr | rfl
    · exact h.same publication hholds r hr hkey
    · obtain ⟨r, hr, hkey'⟩ := h.logged publication hholds
      exact absurd (hkey'.trans hkey.symm) (hnew r hr)

/-! ### Announcements -/

/-- The number after the advertised one is announced, and what is pending stays ahead of it. -/
theorem Reached.announces (h : Reached cfg own p) {s : SeqNo} (hs : s = p.advertised cfg nid + 1)
    (hnode : targetNode cfg.core nid = nid)
    (hannounces : Announces cfg nid s p.core p'.core)
    (hpending : ∀ nid' s', p'.Pending nid' s' → p.Pending nid' s' ∧ ¬(nid = nid' ∧ s = s'))
    (hmappings : ∀ key : Name, (p.mappings[key]?).isSome → (p'.mappings[key]?).isSome)
    (hmapped : (p'.mappings[makeMappingKey nid cfg.core.bootstrapTime s]?).isSome)
    (hreturned : ∀ r ∈ p.returned, r ∈ p'.returned)
    (hlogged : ∃ r ∈ p'.returned, r.key = (nid, s)) :
    Reached cfg own p' := by
  have hget := hannounces.get
  rw [hnode] at hget
  have hself : p'.advertised cfg nid = s := by
    rw [advertised, hget, if_pos ⟨rfl, rfl⟩]
  have hother : ∀ nid', nid ≠ nid' → p'.advertised cfg nid' = p.advertised cfg nid' :=
    fun nid' hne => by
    rw [advertised, hget, if_neg fun heq => hne heq.1]
    rfl
  have hle : ∀ nid', p.advertised cfg nid' ≤ p'.advertised cfg nid' := fun nid' => by
    by_cases hne : nid = nid'
    · subst hne
      rw [hself, hs]
      exact Nat.le_succ _
    · rw [hother nid' hne]
  refine ⟨fun nid' s' hs' => ?_, fun nid' hnid s' hpos hle' => ?_, ?_, fun nid' hnid => ?_⟩
  · obtain ⟨hold, hne⟩ := hpending nid' s' hs'
    obtain ⟨hown, hlt⟩ := h.ahead nid' s' hold
    refine ⟨hown, ?_⟩
    by_cases hnode' : nid = nid'
    · subst hnode'
      rw [hself]
      have : s ≠ s' := fun heq => hne ⟨rfl, heq⟩
      lia
    · rw [hother nid' hnode']
      exact hlt
  · by_cases hsame : nid = nid' ∧ s = s'
    · obtain ⟨rfl, rfl⟩ := hsame
      exact ⟨hmapped, hlogged⟩
    · have hle : s' ≤ p.advertised cfg nid' := by
        by_cases hne : nid = nid'
        · subst hne
          have : s ≠ s' := fun heq => hsame ⟨rfl, heq⟩
          rw [hself] at hle'
          lia
        · rwa [hother nid' hne] at hle'
      obtain ⟨hmap, r, hr, hkey⟩ := h.mapped nid' hnid s' hpos hle
      exact ⟨hmappings _ hmap, r, hreturned r hr, hkey⟩
  · refine hannounces.emits.snapshots (assigned_snapshots h.snapshots hannounces.pos ?_)
    rw [hnode, hs]
    exact Nat.le_succ _
  · refine hannounces.emits.bounded (assigned_bounded ((h.bounded nid' hnid).mono (hle nid')) ?_)
    rintro ⟨heq, -⟩
    rw [hnode] at heq
    subst heq
    exact hself.ge

/-- A new publication that is announced at once. -/
theorem Covered.announced (h : Covered cfg own p) {s : SeqNo} {packets : List Data}
    {core : SVSyncCore}
    (hs : s = p.advertised cfg nid + 1) (hnode : targetNode cfg.core nid = nid)
    (hnew : ∀ r ∈ p.returned, r.key ≠ (nid, s)) (hle : s ≤ (p.reservedSeqNo[nid]?).getD 0)
    (hnamed : WellNamed cfg nid s packets) (havailable : Available cfg p nid s packets)
    (hannounces : Announces cfg nid s p.core core) :
    Covered cfg own (({ p with core } : Publisher).return_ nid s packets false) := by
  have hpos : 0 < s := by lia
  refine ⟨h.toFiled.congr rfl rfl rfl rfl,
    (@Kept.log cfg _ _ h.toKept _ _ false hpos hle hnew hnamed havailable.packets).congr rfl
    rfl rfl rfl rfl
      h.limit fun _ => le_rfl,
    h.toReached.announces hs hnode hannounces (fun nid' s' hs' => ⟨hs', ?_⟩) (fun _ hkey => hkey)
      havailable.mapping (fun r hr => List.mem_append_left _ hr)
      ⟨_, List.mem_append_right _ (List.mem_singleton_self _), rfl⟩⟩
  rintro ⟨rfl, rfl⟩
  exact h.toKept.unpending h.toFiled hnew hs'

/-- A synchronous call, whose number is the one after the advertised one if it returns. -/
theorem Covered.publishes (h : Covered cfg own p) {s : SeqNo} {result : Outcome Publisher}
    {settle : Publisher → Publisher} (hpublishes : Publishes cfg nid s p result settle)
    (hnode : targetNode cfg.core nid = nid) (hs : s < 2 ^ 64)
    (hnew : ∀ r ∈ p.returned, r.key ≠ (nid, s))
    (hok : result.2 = .ok () → s = p.advertised cfg nid + 1)
    (hsettle : ∀ q : Publisher, q.reservedSeqNo = p.reservedSeqNo → Covered cfg own q →
      ∃ reservedSeqNo nextAsyncCommitSeq,
        (∀ core, settle { q with core } = { q with core, reservedSeqNo, nextAsyncCommitSeq }) ∧
        Covered cfg own { q with reservedSeqNo, nextAsyncCommitSeq } ∧
        s ≤ (reservedSeqNo[nid]?).getD 0) : Covered cfg own result.1 := by
  rcases hpublishes with ⟨halters, -⟩ | ⟨p₁, core, packets, halters, hannounces, hnamed, havailable,
    hresult⟩
  · exact h.alters halters hs hnew
  · have hadvertised : p₁.advertised cfg nid = p.advertised cfg nid := by
      rw [halters.state]
      rfl
    obtain ⟨reservedSeqNo, nextAsyncCommitSeq, hshape, hcovered, hle⟩ :=
      hsettle p₁ (by rw [halters.state]) (h.alters halters hs hnew)
    rw [hresult, hshape]
    refine hcovered.announced (by rw [hok (by rw [hresult]), ← hadvertised]; rfl)
      hnode ?_ hle hnamed
      ⟨havailable.mapping, havailable.packets⟩ ?_
    · rw [halters.state]
      exact hnew
    · rw [halters.state]
      exact hannounces

theorem reserved_le_next (hroom : HasRoom cfg p nid) :
    (p.reservedSeqNo[nid]?).getD 0 ≤ p.nextSeqNo cfg nid := by
  rw [nextSeqNo_eq hroom]
  exact (reserved_le_last _ p nid).trans (Nat.le_succ _)

theorem Covered.publishesBytes (h : Covered cfg own p) {result : Outcome Publisher}
    (hpublishes : Publishes cfg nid (p.nextSeqNo cfg nid) p result
      (settleBytes nid (p.nextSeqNo cfg nid)))
    (hnode : targetNode cfg.core nid = nid) (hroom : HasRoom cfg p nid)
    (hok : result.2 = .ok () → CaughtUp cfg p nid) : Covered cfg own result.1 := by
  have hlt : p.nextSeqNo cfg nid < 2 ^ 64 := Nat.mod_lt _ (by decide)
  have hle := reserved_le_next hroom
  refine h.publishes hpublishes hnode hlt (h.toKept.fresh hroom) (fun hresult => ?_)
    fun q hq hcovered => ⟨_, q.nextAsyncCommitSeq.insert nid ((p.nextSeqNo cfg nid + 1) % 2 ^ 64),
      fun _ => rfl, hcovered.reserved hlt (hq ▸ hle) _, ?_⟩
  · rw [nextSeqNo_eq hroom, hok hresult]
  · rw [Map.get_insert, if_pos rfl]
    exact le_rfl

theorem Covered.reserveSeqNo (h : Covered cfg own p) (hroom : HasRoom cfg p nid) :
    Covered cfg own (p.reserveSeqNo cfg nid).1 :=
  h.reserved (Nat.mod_lt _ (by decide)) (reserved_le_next hroom) _

/-- A call that has reserved its number first. -/
theorem Covered.publishesReserved (h : Covered cfg own p) {result : Outcome Publisher}
    (hpublishes : Publishes cfg nid (p.nextSeqNo cfg nid) (p.reserveSeqNo cfg nid).1 result id)
    (hnode : targetNode cfg.core nid = nid) (hroom : HasRoom cfg p nid)
    (hok : result.2 = .ok () → CaughtUp cfg p nid) : Covered cfg own result.1 := by
  refine (h.reserveSeqNo hroom).publishes hpublishes hnode (Nat.mod_lt _ (by decide))
    (h.toKept.fresh hroom) (fun hresult => ?_) fun q hq hcovered =>
    ⟨_, _, fun _ => rfl, hcovered, ?_⟩
  · rw [nextSeqNo_eq hroom, hok hresult]
    rfl
  · rw [hq]
    change _ ≤ ((p.reservedSeqNo.insert nid (p.nextSeqNo cfg nid))[nid]?).getD 0
    rw [Map.get_insert, if_pos rfl]
    exact le_rfl

/-! ### Asynchronous publications -/

/-- A publication joins the pending ones once its call is in the log. -/
theorem Covered.stage (h : Covered cfg own p) (hown : nid ∈ own) {s : SeqNo}
    {prepared : PreparedPublication} (hstages : Stages cfg nid s p.dataStore prepared)
    (hlt : s < 2 ^ 64) (hle : (p.reservedSeqNo[nid]?).getD 0 ≤ s)
    (hnew : ∀ r ∈ p.returned, r.key ≠ (nid, s)) (hahead : p.advertised cfg nid < s) :
    Covered cfg own ((stage nid s prepared p).return_ nid s prepared.outerPackets true) := by
  have hkey : prepared.key = (nid, s) := by
    rw [PreparedPublication.key, hstages.nodePrefix, hstages.seqNo]
  have hreserved := @Covered.reserved cfg p nid own h s hlt hle
    (if nid ∈ p.nextAsyncCommitSeq then p.nextAsyncCommitSeq else p.nextAsyncCommitSeq.insert nid s)
  have hlog := @Kept.log cfg _ nid hreserved.toKept s prepared.outerPackets true (by lia)
    (by rw [Map.get_insert, if_pos rfl]; exact le_rfl) hnew
    hstages.wellNamed hstages.has
  have hpending := pending_stage p nid s prepared
  refine ⟨h.toFiled.stage hstages (h.toKept.unpending h.toFiled hnew),
    ⟨hlog.limit, hlog.bounds, hlog.named, fun r hr => ?_, fun publication hholds => ?_,
      fun publication hholds => ?_, fun publication hholds r hr hr' => ?_⟩,
    ⟨fun nid' s' hs' => ?_, fun nid' hnid s' hpos hle' => ?_, h.snapshots, h.bounded⟩⟩
  · exact (hlog.has r hr).imp_left fun hs => (hpending _ _).mpr (.inr hs)
  · rcases hholds with hmem | hat
    · rcases List.mem_append.mp hmem with hmem | hmem
      · exact h.held publication (.inl hmem)
      · rw [List.mem_singleton.mp hmem]
        exact ⟨hstages.bootstrapTime, fun _ => hstages.has⟩
    · exact h.held publication (.inr hat)
  · rcases hholds with hmem | hat
    · rcases List.mem_append.mp hmem with hmem | hmem
      · exact hlog.logged publication (.inl hmem)
      · rw [List.mem_singleton.mp hmem, hkey]
        exact ⟨_, List.mem_append_right _ (List.mem_singleton_self _), rfl⟩
    · exact hlog.logged publication (.inr hat)
  · rcases hholds with hmem | hat
    · rcases List.mem_append.mp hmem with hmem | hmem
      · exact hlog.same publication (.inl hmem) r hr hr'
      · rw [List.mem_singleton.mp hmem] at hr' ⊢
        rcases List.mem_append.mp hr with hr | hr
        · exact absurd (hr'.trans hkey) (hnew r hr)
        · rw [List.mem_singleton.mp hr]
    · exact hlog.same publication (.inr hat) r hr hr'
  · rcases (hpending nid' s').mp hs' with ⟨rfl, rfl⟩ | hs'
    · exact ⟨hown, hahead⟩
    · exact h.ahead nid' s' hs'
  · obtain ⟨hmap, r, hr, hr'⟩ := h.mapped nid' hnid s' hpos hle'
    exact ⟨hmap, r, List.mem_append_left _ hr, hr'⟩

theorem Covered.stages (h : Covered cfg own p) {env : PublishInputs} {kind : AsyncPublication.Kind}
    {name nodePrefix : Name} {freshnessPeriod : Int} {mappingBlocks : List Block}
    (hown : nodeOf cfg nodePrefix ∈ own) (hroom : HasRoom cfg p (nodeOf cfg nodePrefix)) :
    Covered cfg own (p.prepareAndStageAsyncPublication cfg env kind name nodePrefix freshnessPeriod
      mappingBlocks).1 := by
  have hlast : p.lastSeqNo cfg (nodeOf cfg nodePrefix) < 2 ^ 64 := (Nat.lt_succ_self _).trans hroom
  have hlt : p.nextSeqNo cfg (nodeOf cfg nodePrefix) < 2 ^ 64 := Nat.mod_lt _ (by decide)
  have hreserve : Covered cfg own (p.reserve (nodeOf cfg nodePrefix)
      (p.lastSeqNo cfg (nodeOf cfg nodePrefix))) :=
    h.reserved hlast (reserved_le_last _ p _) _
  rcases prepareAndStage_cases cfg env p kind name nodePrefix freshnessPeriod
    mappingBlocks with ⟨halters, -⟩ | ⟨p₁, prepared, halters, hstages, hresult⟩
  · exact hreserve.alters halters hlt (h.toKept.fresh hroom)
  · rw [hresult]
    have h₁ := hreserve.alters halters hlt (h.toKept.fresh hroom)
    refine h₁.stage hown hstages hlt ?_ ?_ ?_
    · rw [halters.state, nextSeqNo_eq hroom]
      simp [Publisher.reserve]
    · rw [halters.state]
      exact h.toKept.fresh hroom
    · have hget := get_le_getSeqNo cfg.core p.core (nodeOf cfg nodePrefix)
      rw [nodeOf_eq] at hget
      rw [halters.state, nextSeqNo_eq hroom]
      exact Nat.lt_succ_of_le (hget.trans (le_max_right _ _))

/-! ### Callbacks -/

/-- A publication is filed anew, with another mark for its retry. -/
theorem Covered.refile (h : Covered cfg own p) (hfiled : Filed cfg p')
    (hstate : p' = { p with
      stagedPublicationPackets := p'.stagedPublicationPackets
      preparedPublications := p'.preparedPublications, posted := p'.posted, retries := p'.retries })
    (hpending : ∀ nid s, p'.Pending nid s ↔ p.Pending nid s)
    (hholds : ∀ publication, p'.Holds publication →
      ∃ old retryScheduled, p.Holds old ∧ publication = { old with retryScheduled }) :
    Covered cfg own p' := by
  refine ⟨hfiled, ⟨?_, ?_, ?_, fun r hr => ?_, fun publication hpublication => ?_,
    fun publication hpublication => ?_, fun publication hpublication r hr => ?_⟩,
    h.toReached.congr ?_ (fun nid s => (hpending nid s).mp) ?_ ?_⟩
  · rw [hstate]
    exact h.limit
  · rw [hstate]
    exact h.bounds
  · rw [hstate]
    exact h.named
  · rw [hpending]
    rw [hstate] at hr ⊢
    exact h.has r hr
  · obtain ⟨old, retryScheduled, hold, rfl⟩ := hholds publication hpublication
    rw [hstate]
    exact h.held old hold
  · obtain ⟨old, retryScheduled, hold, rfl⟩ := hholds publication hpublication
    rw [hstate]
    exact h.logged old hold
  · obtain ⟨old, retryScheduled, hold, rfl⟩ := hholds publication hpublication
    rw [hstate] at hr
    exact h.same old hold r hr
  · rw [hstate]
  · rw [hstate]
    exact fun _ hkey => hkey
  · rw [hstate]
    exact fun _ hr => hr

theorem Covered.unstage (h : Covered cfg own p) {index : Nat} {publication : PreparedPublication}
    (hindex : p.posted[index]? = some publication) : Covered cfg own
      (({ p with posted := p.posted.eraseIdx index } : Publisher).unstage publication) := by
  refine h.refile (h.toFiled.unstage hindex) rfl (h.toFiled.pending_unstage hindex)
    fun found hfound => ⟨found, found.retryScheduled, ?_, rfl⟩
  rcases hfound with hmem | ⟨nid, s, hat⟩
  · exact .inl (List.mem_of_mem_eraseIdx hmem)
  · simp only [Publisher.unstage, Map.getAt_insertAt] at hat
    split at hat
    · obtain rfl := Option.some.inj hat
      exact .inl (List.mem_of_getElem? hindex)
    · exact .inr ⟨nid, s, hat⟩

theorem Covered.clearRetry (h : Covered cfg own p) {index : Nat} {s : SeqNo}
    {publication : PreparedPublication} (hindex : p.retries[index]? = some (nid, s))
    (hat : p.preparedPublications.getAt nid s = some publication) : Covered cfg own
      (({ p with retries := p.retries.eraseIdx index } : Publisher).clearRetry nid s
        publication) := by
  refine h.refile (h.toFiled.clearRetry hindex hat) rfl (pending_clearRetry hat)
    fun found hfound => ?_
  rcases hfound with hmem | ⟨nid', s', hfound⟩
  · exact ⟨found, _, .inl hmem, rfl⟩
  · simp only [Publisher.clearRetry, Map.getAt_insertAt] at hfound
    split at hfound
    · obtain rfl := Option.some.inj hfound
      exact ⟨publication, false, .inr ⟨nid, s, hat⟩, rfl⟩
    · exact ⟨found, _, .inr ⟨nid', s', hfound⟩, rfl⟩

theorem Covered.dropRetry (h : Covered cfg own p) {index : Nat} {s : SeqNo}
    (hindex : p.retries[index]? = some (nid, s)) (hat : p.preparedPublications.getAt nid s = none) :
    Covered cfg own { p with retries := p.retries.eraseIdx index } :=
  h.refile (h.toFiled.dropRetry hindex hat) rfl (fun _ _ => .rfl)
    fun found hfound => ⟨found, _, hfound, rfl⟩

/-! ### Rounds of the loop -/

/-- An attempt works on the packets of its publication only. -/
theorem Covered.tries (h : Covered cfg own p) {publication publication' : PreparedPublication}
    {p₀ : Publisher} (htake : p.takeHead nid = some (publication, p₀))
    (htries : Tries cfg p₀ publication p' publication') :
    (∀ r ∈ p.returned, r.key ≠ publication.key → p.dataStore.Has r.packets →
      p'.dataStore.Has r.packets) ∧
    ∀ other, p.Holds other → other.key ≠ publication.key → Held p'.dataStore other := by
  obtain ⟨next, hnext, hat, -, rfl⟩ := takeHead_eq_some.mp htake
  have hholds : p.Holds publication := .inr ⟨nid, next, hat⟩
  have hnamed := h.toKept.wellNamed hholds
  have hhas : ∀ r ∈ p.returned, r.key ≠ publication.key → p.dataStore.Has r.packets →
      p'.dataStore.Has r.packets := by
    intro r hr hne
    refine (htries.differs hnamed).has (h.toKept.holds_lt hholds) (h.toKept.seqNo_lt hr)
      (fun heq => hne ?_) (h.named r hr)
    rw [Publication.key, PreparedPublication.key, heq.1, heq.2]
  refine ⟨hhas, fun other hother hne hstored => ?_⟩
  obtain ⟨r, hr, hkey⟩ := h.logged other hother
  rw [← h.same other hother r hr hkey]
  refine hhas r hr (hkey ▸ hne) ?_
  rw [h.same other hother r hr hkey]
  exact (h.held other hother).2 hstored

/-- A publication other than the head is still there when the head is taken. -/
theorem Filed.takeHead_holds (h : Filed cfg p) {publication other : PreparedPublication}
    {p₀ : Publisher} (htake : p.takeHead nid = some (publication, p₀)) (hother : p₀.Holds other) :
    p.Holds other ∧ other.key ≠ publication.key := by
  obtain ⟨next, hnext, hat, -, rfl⟩ := takeHead_eq_some.mp htake
  have hkey := h.keyed nid next publication hat
  rcases hother with hmem | ⟨nid', s, hother⟩
  · refine ⟨.inl hmem, fun heq => ?_⟩
    have hstaged := (h.staged nid next).mpr
      (heq.trans hkey ▸ List.mem_map_of_mem (f := PreparedPublication.key) hmem)
    rw [h.unstaged hat] at hstaged
    cases hstaged
  · rw [Map.getAt_eraseAt] at hother
    split at hother
    · cases hother
    · rename_i hne
      refine ⟨.inr ⟨nid', s, hother⟩, fun heq => hne ?_⟩
      rw [hkey, h.keyed nid' s other hother] at heq
      exact ⟨(Prod.mk.inj heq).1.symm, (Prod.mk.inj heq).2.symm⟩

theorem Covered.requeue (h : Covered cfg own p) {publication publication' : PreparedPublication}
    {p₀ : Publisher} (htake : p.takeHead nid = some (publication, p₀))
    (htries : Tries cfg p₀ publication p' publication') (hheld' : Held p'.dataStore publication') :
    Covered cfg own (p'.requeueFailedPublication nid publication') := by
  obtain ⟨hhas, hheld⟩ := h.tries htake htries
  have hpending := h.toFiled.pending_requeue htake htries
  have hfiled := h.toFiled.requeue htake htries
  have htaken := fun other => @Filed.takeHead_holds cfg p nid h.toFiled publication other _ htake
  have hkey : publication'.key = publication.key := by
    rw [PreparedPublication.key, htries.nodePrefix, htries.seqNo]
    rfl
  have hpackets := htries.outerPackets
  have hboot := htries.bootstrapTime
  have hpublication : p.Holds publication := by
    obtain ⟨next, -, hat, -, -⟩ := takeHead_eq_some.mp htake
    exact .inr ⟨nid, next, hat⟩
  -- what is held afterwards was held before, or is the publication that was put back
  have hholds : ∀ other, (p'.requeueFailedPublication nid publication').Holds other →
      (p.Holds other ∧ other.key ≠ publication.key) ∨
        other = { publication' with commitAttempts := publication'.commitAttempts + 1
                                    retryScheduled := true } := by
    intro other hother
    rcases hother with hmem | ⟨nid', s, hother⟩
    · refine .inl (htaken other (.inl ?_))
      rw [htries.state] at hmem
      exact hmem
    · simp only [requeueFailedPublication, Map.getAt_insertAt] at hother
      split at hother
      · exact .inr (Option.some.inj hother).symm
      · refine .inl (htaken other (.inr ⟨nid', s, ?_⟩))
        rw [htries.state] at hother
        exact hother
  have hpend : ∀ r ∈ p.returned, r.key = publication.key → p.Pending r.nodePrefix r.seqNo := by
    intro r _ heq
    have := h.toFiled.pending_of_holds hpublication
    obtain ⟨hnode, hseq⟩ := Prod.mk.inj heq
    rwa [hnode, hseq]
  obtain ⟨next, hnext, hat, -, rfl⟩ := takeHead_eq_some.mp htake
  have hgrow := htries.grow.kept
  obtain ⟨dataStore, mappings, extra, rfl⟩ := htries.exists_state
  refine ⟨hfiled, ⟨h.limit, h.bounds, h.named, fun r hr => ?_, fun other hother => ?_,
    fun other hother => ?_, fun other hother r hr hr' => ?_⟩,
    h.toReached.congr rfl (fun nid s => (hpending nid s).mp) hgrow fun _ hr => hr⟩
  · rcases h.has r hr with hs | hs
    · exact .inl ((hpending _ _).mpr hs)
    · by_cases heq : r.key = publication.key
      · exact .inl ((hpending _ _).mpr (hpend r hr heq))
      · exact .inr (hhas r hr heq hs)
  · rcases hholds other hother with ⟨hold, hne⟩ | rfl
    · exact ⟨(h.held other hold).1, hheld other hold hne⟩
    · exact ⟨hboot.trans (h.held _ hpublication).1, hheld'⟩
  · rcases hholds other hother with ⟨hold, hne⟩ | rfl
    · exact h.logged other hold
    · obtain ⟨r, hr, hr'⟩ := h.logged _ hpublication
      exact ⟨r, hr, hr'.trans hkey.symm⟩
  · rcases hholds other hother with ⟨hold, hne⟩ | rfl
    · exact h.same other hold r hr hr'
    · rw [h.same _ hpublication r hr (Eq.trans hr' hkey)]
      exact hpackets.symm

/-- A commit of the number after the advertised one. -/
theorem Covered.advance (h : Covered cfg own p) {publication publication' : PreparedPublication}
    {p₀ : Publisher} (htake : p.takeHead nid = some (publication, p₀))
    (htries : Tries cfg p₀ publication p' publication') {core : SVSyncCore}
    (hnode : targetNode cfg.core nid = nid)
    (hannounces : Announces cfg nid publication.seqNo p₀.core core)
    (havailable : Available cfg p' publication.nodePrefix publication.seqNo
      publication.outerPackets)
    (hs : publication.seqNo = p.advertised cfg nid + 1) :
    Covered cfg own (({ p' with core, committed := p'.committed ++ [(nid, publication.seqNo)] } :
      Publisher).advanceHead nid publication'.seqNo) := by
  obtain ⟨hhas, hheld⟩ := h.tries htake htries
  have hpending := h.toFiled.pending_advance htake htries core
  have hfiled := h.toFiled.advance htake htries core
  have htaken := fun other => @Filed.takeHead_holds cfg p nid h.toFiled publication other _ htake
  obtain ⟨next, hnext, hat, -, rfl⟩ := takeHead_eq_some.mp htake
  have hpublication : p.Holds publication := .inr ⟨nid, next, hat⟩
  obtain ⟨hnid, hseq⟩ := Prod.mk.inj (h.keyed nid next publication hat)
  have hgrow := htries.grow.kept
  have hseq' : publication'.seqNo = next := htries.seqNo.trans hseq
  obtain ⟨dataStore, mappings, extra, rfl⟩ := htries.exists_state
  rw [hseq', advanceHead, if_pos hnext] at hpending hfiled ⊢
  refine ⟨hfiled, ⟨h.limit, h.bounds, h.named, fun r hr => ?_, fun other hother => ?_,
    fun other hother => h.logged other (htaken other hother).1,
    fun other hother => h.same other (htaken other hother).1⟩, ?_⟩
  · by_cases heq : r.key = publication.key
    · rw [h.same _ hpublication r hr heq]
      exact .inr havailable.packets
    · refine (h.has r hr).imp (fun hs => (hpending _ _).mpr ⟨hs, fun hsame => heq ?_⟩)
        (hhas r hr heq)
      rw [Publication.key, PreparedPublication.key, hnid, hsame.1, hsame.2]
  · obtain ⟨hold, hne⟩ := htaken other hother
    exact ⟨(h.held other hold).1, hheld other hold hne⟩
  · refine h.toReached.announces hs hnode hannounces (fun nid' s' hs' => (hpending nid' s').mp hs')
      hgrow ?_ (fun _ hr => hr) ?_
    · rw [← hnid]
      exact havailable.mapping
    · obtain ⟨r, hr, hkey⟩ := h.logged _ hpublication
      exact ⟨r, hr, hkey.trans (congrArg (fun n => (n, publication.seqNo)) hnid)⟩

/-- A publication at the head of the node has the number after the advertised one. -/
def NextFollows (cfg : PubSubConfig) (p : Publisher) (nid : NodeID) : Prop :=
  ∀ publication p₀, p.takeHead nid = some (publication, p₀) →
    publication.seqNo = p.advertised cfg nid + 1

theorem Covered.attempt_done (h : Covered cfg own p) {env : PublishInputs}
    {publication publication' : PreparedPublication} {p₀ : Publisher}
    (htake : p.takeHead nid = some (publication, p₀)) (hnode : targetNode cfg.core nid = nid)
    (hattempt : p₀.attemptCommit cfg env nid publication = ((p', publication'), .ok ()))
    (hs : publication.seqNo = p.advertised cfg nid + 1) :
    Covered cfg own (p'.advanceHead nid publication'.seqNo) ∧
      NextFollows cfg (p'.advanceHead nid publication'.seqNo) nid := by
  obtain ⟨p₁, core, rfl, htries, hannounces, hok⟩ := attemptCommit_ok hattempt
  obtain ⟨next, hnext, hat, -, hp₀⟩ := takeHead_eq_some.mp htake
  have hpublication : p.Holds publication := .inr ⟨nid, next, hat⟩
  obtain ⟨hnid, hseq⟩ := Prod.mk.inj (h.keyed nid next publication hat)
  have hstore : p₀.dataStore = p.dataStore := by rw [hp₀]
  have havailable := hok (h.held _ hpublication).1 (h.toKept.wellNamed hpublication)
    (hstore ▸ (h.held _ hpublication).2)
  have hcovered := h.advance htake htries hnode hannounces havailable hs
  refine ⟨hcovered, fun found q htake' => ?_⟩
  obtain ⟨next', hnext', hat', -, -⟩ := takeHead_eq_some.mp htake'
  have hahead := (hcovered.ahead nid next' (.inr (by rw [hat']; rfl))).2
  have hseq' := (Prod.mk.inj (hcovered.keyed nid next' found hat')).2
  have hget := hannounces.get
  rw [hnode] at hget
  obtain ⟨dataStore, mappings, extra, rfl⟩ := htries.exists_state
  subst hp₀
  rw [htries.seqNo, hseq, advanceHead, if_pos hnext] at hnext' hahead ⊢
  have hadvertised : ({ p with core } : Publisher).advertised cfg nid = next := by
    rw [advertised, hget, if_pos ⟨rfl, rfl⟩, hseq]
  change _ = ({ p with core } : Publisher).advertised cfg nid + 1
  change ({ p with core } : Publisher).advertised cfg nid < next' at hahead
  rw [hadvertised] at hahead ⊢
  rw [Map.get_insert, if_pos rfl] at hnext'
  obtain rfl := Option.some.inj hnext'
  rw [hseq']
  refine Nat.mod_eq_of_lt (lt_of_le_of_ne ?_ fun heq => ?_)
  · exact (hseq ▸ h.toKept.holds_lt hpublication)
  · rw [heq, Nat.mod_self] at hahead
    exact absurd hahead (Nat.not_lt_zero _)

/-- An attempt that throws, and takes back whole what it takes back. -/
theorem Covered.attempt_failed (h : Covered cfg own p) {env : PublishInputs}
    {publication publication' : PreparedPublication} {p₀ : Publisher} {e : Error}
    (htake : p.takeHead nid = some (publication, p₀)) (htakes : env.TakesBack)
    (hattempt : p₀.attemptCommit cfg env nid publication = ((p', publication'), .error e)) :
    Covered cfg own (p'.requeueFailedPublication nid publication') := by
  have hholds : p.Holds publication := by
    obtain ⟨next, -, hat, -, -⟩ := takeHead_eq_some.mp htake
    exact .inr ⟨nid, next, hat⟩
  have hstore : p₀.dataStore = p.dataStore := by
    obtain ⟨next, -, -, -, rfl⟩ := takeHead_eq_some.mp htake
    rfl
  exact h.requeue htake (attemptCommit_error hattempt)
    (attemptCommit_held hattempt (h.toKept.wellNamed hholds) htakes
      (hstore ▸ (h.held _ hholds).2))

theorem Covered.commitLoop (h : Covered cfg own p) (hnode : targetNode cfg.core nid = nid)
    (hnext : NextFollows cfg p nid) (fuel : Nat) (attempts : Nat → PublishInputs)
    (htakes : ∀ i < fuel, (attempts i).TakesBack) :
    Covered cfg own (Publisher.commitLoop cfg nid fuel attempts p) := by
  induction fuel generalizing p attempts with
  | zero => exact h
  | succ fuel ih =>
    rw [Publisher.commitLoop]
    split
    · exact h
    · rename_i publication p₀ htake
      split
      · rename_i hattempt
        exact h.attempt_failed htake (htakes 0 (Nat.zero_lt_succ _)) hattempt
      · rename_i hattempt
        obtain ⟨hcovered, hnext'⟩ := h.attempt_done htake hnode hattempt (hnext _ _ htake)
        exact ih hcovered hnext' _ fun i hi => htakes (i + 1) (Nat.succ_lt_succ hi)

theorem Covered.commitReady (h : Covered cfg own p) (hnode : targetNode cfg.core nid = nid)
    {attempts : Nat → PublishInputs} (hfollow : CommitsFollow cfg attempts p nid) :
    Covered cfg own (p.commitReadyPreparedPublications cfg attempts nid) := by
  obtain ⟨hhead, htakes⟩ := hfollow
  rcases commitReady_cases cfg p attempts nid with hsame |
    ⟨publication, p₀, p', publication', htake, ⟨e, hattempt, hresult⟩ | ⟨hattempt, hresult⟩⟩
  · rw [hsame]
    exact h
  · rw [hresult]
    exact h.attempt_failed htake (htakes 0 (Nat.zero_le _)) hattempt
  · rw [HeadFollows, htake] at hhead
    rw [hresult]
    obtain ⟨hcovered, hnext⟩ := h.attempt_done htake hnode hattempt (hhead (by rw [hattempt]; rfl))
    exact hcovered.commitLoop hnode hnext _ _ fun i hi => htakes (i + 1) hi

/-! ### Steps of the node -/

theorem Covered.core (h : Covered cfg own p) {env : CoreInputs} {e : SVSyncCore.Event}
    {core : SVSyncCore} (hstep : p.core.step cfg.core env e = some core)
    (hassign : ∀ seq b nid, e ≠ .updateSeqNo seq b nid)
    (hclaims : ∀ interest, e = .interest interest → ∀ nid ∈ own,
      Claims cfg.core nid cfg.core.bootstrapTime (p.advertised cfg nid) interest) :
    Covered cfg own { p with core } := by
  obtain ⟨other, htakes⟩ := step_takes h.snapshots hstep hassign
  have hbounded : ∀ nid ∈ own,
      Bounded cfg.core nid cfg.core.bootstrapTime (p.advertised cfg nid) core := fun nid hnid =>
    htakes.bounded (h.bounded nid hnid) fun interest hbrings => hclaims interest (by
      cases e <;> simp_all [SVSyncCore.Event.brings]) nid hnid
  have hadvertised : ∀ nid ∈ own, core.vv.get nid cfg.core.bootstrapTime = p.advertised cfg nid :=
    fun nid hnid => le_antisymm (hbounded nid hnid).vv (htakes.le nid _)
  refine ⟨h.toFiled.congr rfl rfl rfl rfl,
    h.toKept.congr rfl rfl rfl rfl rfl h.limit fun _ => le_rfl,
    ⟨fun nid s hs => ?_, fun nid hnid s hpos hle => ?_, htakes.snapshots h.snapshots,
      fun nid hnid => ?_⟩⟩
  · obtain ⟨hown, hlt⟩ := h.ahead nid s hs
    exact ⟨hown, (hadvertised nid hown).trans_lt hlt⟩
  · exact h.mapped nid hnid s hpos (hle.trans (hadvertised nid hnid).le)
  · have hsame : ({ p with core } : Publisher).advertised cfg nid = p.advertised cfg nid :=
      hadvertised nid hnid
    rw [hsame]
    exact hbounded nid hnid

/-- What the calls of a run have to meet. -/
def Meets (cfg : PubSubConfig) (own : List NodeID) (p : Publisher) (o : Occurrence) : Prop :=
  Modest cfg own p o ∧ Contiguous cfg p o ∧
    ∀ n, o.event.nodePrefix? = some n → nodeOf cfg n ∈ own

theorem Covered.step (hown : ∀ nid ∈ own, targetNode cfg.core nid = nid) {o : Occurrence}
    (hstep : Publisher.step cfg p o = some p') (hok : Meets cfg own p o) (h : Covered cfg own p) :
    Covered cfg own p' := by
  obtain ⟨hmodest, hcontiguous, hunder⟩ := hok
  obtain ⟨event, inputs⟩ := o
  cases event with
  | publishBytes name value nodePrefix freshnessPeriod mappingBlocks =>
    obtain rfl := Option.some.inj hstep
    exact h.publishesBytes (publishBytes_publishes _ _ _ _ _ _) (nodeOf_eq cfg _) hcontiguous.1
      fun hresult => hcontiguous.2 (by rw [hresult]; rfl)
  | publishName name nodePrefix mappingBlocks =>
    obtain rfl := Option.some.inj hstep
    exact h.publishesReserved (publishName_publishes _ _ _ _) (nodeOf_eq cfg _) hcontiguous.1
      fun hresult => hcontiguous.2 (by rw [hresult]; rfl)
  | publishPacket data nodePrefix mappingBlocks =>
    obtain rfl := Option.some.inj hstep
    exact h.publishesReserved (publishPacket_publishes _ _ _ _) (nodeOf_eq cfg _) hcontiguous.1
      fun hresult => hcontiguous.2 (by rw [hresult]; rfl)
  | publishBytesAsync name value nodePrefix freshnessPeriod mappingBlocks =>
    obtain rfl := Option.some.inj hstep
    exact h.stages (hunder _ rfl) hcontiguous
  | publishNameAsync name nodePrefix freshnessPeriod mappingBlocks =>
    obtain rfl := Option.some.inj hstep
    exact h.stages (hunder _ rfl) hcontiguous
  | publishPacketAsync data nodePrefix mappingBlocks =>
    obtain rfl := Option.some.inj hstep
    exact h.stages (hunder _ rfl) hcontiguous
  | preparedPublication index =>
    obtain ⟨publication, hindex, rfl⟩ := (Publisher.step_preparedPublication rfl).mp hstep
    simp only [Contiguous, hindex] at hcontiguous
    have hholds : p.Holds publication := .inl (List.mem_of_getElem? hindex)
    exact (h.unstage hindex).commitReady
      (hown _ (h.ahead _ _ (h.toFiled.pending_of_holds hholds)).1) hcontiguous
  | retry index =>
    obtain ⟨nid, s, hindex, rfl⟩ := (Publisher.step_retry rfl).mp hstep
    simp only [Contiguous, hindex] at hcontiguous
    unfold onRetry
    split
    · rename_i hat
      exact h.dropRetry hindex hat
    · rename_i publication hat
      have hat : p.preparedPublications.getAt nid s = some publication := hat
      rw [hat] at hcontiguous
      exact (h.clearRetry hindex hat).commitReady
        (hown _ (h.ahead nid s (.inr (by rw [hat]; rfl))).1) hcontiguous
  | extraBlocks =>
    obtain rfl := Option.some.inj hstep
    exact ⟨h.toFiled.congr rfl rfl rfl rfl, h.toKept.congr rfl rfl rfl rfl rfl h.limit
      fun _ => le_rfl,
      h.toReached.congr rfl (fun _ _ hs => hs) (fun _ hkey => hkey) fun _ hr => hr⟩
  | core event =>
    obtain ⟨core, hcore, rfl⟩ := (Publisher.step_core rfl).mp hstep
    refine h.core hcore (fun seq b nid he => ?_) fun interest he => ?_
    · subst he
      exact hmodest
    · subst he
      exact hmodest

/-- When each number is announced right after the one before it, every number up to the own entry of
a node belongs to a publication that has been returned, its mapping is there, and so are its
packets. -/
theorem advertised_available {es : List Occurrence}
    (hmodest : Along (Publisher.step cfg) (Modest cfg (publishedUnder cfg es)) {} es)
    (hok : Along (Publisher.step cfg) (Contiguous cfg) {} es)
    (hrun : run (Publisher.step cfg) {} es = some p) :
    ∀ nid ∈ publishedUnder cfg es, ∀ s, 1 ≤ s → s ≤ p.core.vv.get nid cfg.core.bootstrapTime →
      (p.mappings[makeMappingKey nid cfg.core.bootstrapTime s]?).isSome ∧
        (∃ r ∈ p.returned, r.nodePrefix = nid ∧ r.seqNo = s) ∧
        ∀ r ∈ p.returned, r.nodePrefix = nid → r.seqNo = s → p.dataStore.Has r.packets := by
  have hown : ∀ nid ∈ publishedUnder cfg es, targetNode cfg.core nid = nid := by
    intro nid hnid
    obtain ⟨o, -, ho⟩ := List.mem_filterMap.mp hnid
    obtain ⟨n, -, rfl⟩ := Option.map_eq_some_iff.mp ho
    exact nodeOf_eq cfg n
  have hunder : Along (Publisher.step cfg) (fun _ o => ∀ n, o.event.nodePrefix? = some n →
      nodeOf cfg n ∈ publishedUnder cfg es) {} es := by
    refine along_of_forall (fun o ho _ n hn => ?_) _
    exact List.mem_filterMap.mpr ⟨o, ho, by rw [hn]; rfl⟩
  have h : Covered cfg (publishedUnder cfg es) p := run_invariant_along
    (fun p o p' hstep hok h => h.step hown hstep hok) covered_empty
    (hmodest.and (hok.and hunder)) hrun
  intro nid hnid s hpos hle
  obtain ⟨hmapping, r, hr, hkey⟩ := h.mapped nid hnid s hpos hle
  obtain ⟨hnode, hseq⟩ := Prod.mk.inj hkey
  refine ⟨hmapping, ⟨r, hr, hnode, hseq⟩, fun r hr hnode hseq =>
    (h.has r hr).resolve_left fun hs => ?_⟩
  have hahead := (h.ahead _ _ hs).2
  rw [hnode, hseq] at hahead
  exact absurd hle (Nat.not_le_of_lt hahead)

theorem modest_of_not_core {own : List NodeID} {es : List Occurrence}
    (h : ∀ o ∈ es, ∀ e, o.event ≠ .core e) :
    Along (Publisher.step cfg) (Modest cfg own) p es := by
  refine along_of_forall (fun o ho p => ?_) p
  have hcore := h o ho
  unfold Modest
  split
  · rename_i he
    exact absurd he (hcore _)
  · rename_i he
    exact absurd he (hcore _)
  · trivial

/-- A publication of bytes and one of a name, the second asynchronous. -/
def caughtUpRun : List Occurrence :=
  [⟨.publishBytes (Name.ofStrings ["x"]) sampleSpan [] 0 [], sampleInputs⟩,
    ⟨.publishNameAsync (Name.ofStrings ["y"]) [] 0 [], sampleInputs⟩,
    ⟨.preparedPublication 0, sampleInputs⟩]

theorem advertised_available_two :
    let p := (run (Publisher.step sampleConfig) {} caughtUpRun).get (by decide +kernel)
    p.core.vv.get sampleConfig.core.id 100 = 2 ∧
      ∀ nid ∈ publishedUnder sampleConfig caughtUpRun, ∀ s, 1 ≤ s → s ≤ p.core.vv.get nid 100 →
        (p.mappings[makeMappingKey nid 100 s]?).isSome ∧
          (∃ r ∈ p.returned, r.nodePrefix = nid ∧ r.seqNo = s) ∧
          ∀ r ∈ p.returned, r.nodePrefix = nid → r.seqNo = s → p.dataStore.Has r.packets :=
  ⟨by decide +kernel, @advertised_available sampleConfig _ _
    (modest_of_not_core (by simp [caughtUpRun])) (by decide +kernel) (Option.some_get _).symm⟩

/-- The publication of bytes is advertised with the number 2, and 1 has no mapping yet. -/
theorem overtaken_not_available : ∃ p, run (Publisher.step sampleConfig) {} (overtakenRun.take 2) =
      some p ∧
    Along (Publisher.step sampleConfig)
      (Modest sampleConfig (publishedUnder sampleConfig (overtakenRun.take 2))) {}
      (overtakenRun.take 2) ∧
    sampleConfig.core.id ∈ publishedUnder sampleConfig (overtakenRun.take 2) ∧
    1 ≤ p.core.vv.get sampleConfig.core.id 100 ∧
    p.mappings[makeMappingKey sampleConfig.core.id 100 1]? = none := by
  let p := (run (Publisher.step sampleConfig) {} (overtakenRun.take 2)).get (by decide +kernel)
  refine ⟨p, (Option.some_get _).symm,
    modest_of_not_core (by simp [overtakenRun]), by decide +kernel,
    by decide +kernel, by decide +kernel⟩

end Publisher

end NdnSvs
