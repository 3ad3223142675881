import Mathlib.Data.List.InsertIdx
import NdnSvs.PublishSteps

/-! The line of pending publications.  The staged and prepared publications of a node are a run of
consecutive numbers that begins at the head pointer, as long as every asynchronous publication gets
the number right after the last one in line. -/

namespace NdnSvs

open Lib Lib.Tlv

def PreparedPublication.key (publication : PreparedPublication) : NodeID × SeqNo :=
  (publication.nodePrefix, publication.seqNo)

/-- A publication whose commit can only fail from outside. -/
structure PreparedPublication.Sound (cfg : PubSubConfig) (publication : PreparedPublication) :
    Prop where
  ok : publication.ok = true
  insertable : Insertable cfg publication.outerPackets

namespace Publisher

variable {cfg : PubSubConfig}

/-- An asynchronous publication that is staged or prepared, but not committed. -/
def Pending (p : Publisher) (nid : NodeID) (s : SeqNo) : Prop :=
  (p.stagedPublicationPackets.getAt nid s).isSome ∨ (p.preparedPublications.getAt nid s).isSome

instance (p : Publisher) (nid : NodeID) (s : SeqNo) : Decidable (p.Pending nid s) :=
  inferInstanceAs (Decidable (_ ∨ _))

/-- The head pointer of a node with pending publications is the smallest of their numbers. -/
def HeadsAreSmallest (p : Publisher) : Prop :=
  ∀ nid s, p.Pending nid s →
    ∃ h, p.nextAsyncCommitSeq[nid]? = some h ∧ p.Pending nid h ∧ ∀ s', p.Pending nid s' → h ≤ s'

/-- The numbers that asynchronous calls have returned. -/
def asyncReturned (p : Publisher) : List (NodeID × SeqNo) :=
  (p.returned.filter fun r => r.async).map fun r => (r.nodePrefix, r.seqNo)

/-! ### The condition on the calls -/

def Idle (p : Publisher) (nid : NodeID) : Prop :=
  nid ∉ p.stagedPublicationPackets ∧ nid ∉ p.preparedPublications

instance (p : Publisher) (nid : NodeID) : Decidable (p.Idle nid) :=
  inferInstanceAs (Decidable (_ ∧ _))

/-- The sequence numbers of the node have not run out. -/
def HasRoom (cfg : PubSubConfig) (p : Publisher) (nid : NodeID) : Prop :=
  p.lastSeqNo cfg nid + 1 < 2 ^ 64

instance (p : Publisher) (nid : NodeID) : Decidable (HasRoom cfg p nid) :=
  inferInstanceAs (Decidable (_ < _))

/-- The next number is right after the last pending one, or where the commits stand when none is
pending. -/
def Follows (cfg : PubSubConfig) (p : Publisher) (nid : NodeID) : Prop :=
  if p.Idle nid then
    p.nextAsyncCommitSeq[nid]? = none ∨ p.nextAsyncCommitSeq[nid]? = some (p.nextSeqNo cfg nid)
  else p.Pending nid (p.nextSeqNo cfg nid - 1)

instance (p : Publisher) (nid : NodeID) : Decidable (Follows cfg p nid) := by
  unfold Follows
  infer_instance

/-- A publication of bytes that returns has found nothing pending, and an asynchronous one that
returns gets the number that follows. -/
def Ordered (cfg : PubSubConfig) (p : Publisher) (o : Occurrence) : Prop :=
  match o.event with
  | .publishBytes name value nodePrefix freshnessPeriod mappingBlocks =>
    (p.publishBytes cfg (o.inputs 0) name value nodePrefix freshnessPeriod mappingBlocks).2.isOk →
      HasRoom cfg p (nodeOf cfg nodePrefix) ∧ p.Idle (nodeOf cfg nodePrefix)
  | .publishName _ nodePrefix _ | .publishPacket _ nodePrefix _ =>
    HasRoom cfg p (nodeOf cfg nodePrefix)
  | .publishBytesAsync name value nodePrefix freshnessPeriod mappingBlocks =>
    (p.prepareAndStageAsyncPublication cfg (o.inputs 0) (.bytes value) name nodePrefix
      freshnessPeriod mappingBlocks).2.isOk →
      HasRoom cfg p (nodeOf cfg nodePrefix) ∧ Follows cfg p (nodeOf cfg nodePrefix)
  | .publishNameAsync name nodePrefix freshnessPeriod mappingBlocks =>
    (p.prepareAndStageAsyncPublication cfg (o.inputs 0) .nameOnly name nodePrefix
      freshnessPeriod mappingBlocks).2.isOk →
      HasRoom cfg p (nodeOf cfg nodePrefix) ∧ Follows cfg p (nodeOf cfg nodePrefix)
  | .publishPacketAsync data nodePrefix mappingBlocks =>
    (p.prepareAndStageAsyncPublication cfg (o.inputs 0) (.packet data) data.name nodePrefix
      data.freshnessPeriod mappingBlocks).2.isOk →
      HasRoom cfg p (nodeOf cfg nodePrefix) ∧ Follows cfg p (nodeOf cfg nodePrefix)
  | _ => True

instance (p : Publisher) (o : Occurrence) : Decidable (Ordered cfg p o) := by
  unfold Ordered
  generalize o.event = event
  rcases event <;> infer_instance

theorem nextSeqNo_eq {p : Publisher} {nid : NodeID} (h : HasRoom cfg p nid) :
    p.nextSeqNo cfg nid = p.lastSeqNo cfg nid + 1 := Nat.mod_eq_of_lt h

variable (cfg) in
theorem reserved_le_last (p : Publisher) (nid : NodeID) :
    (p.reservedSeqNo[nid]?).getD 0 ≤ p.lastSeqNo cfg nid := le_max_left _ _

/-! ### The line of pending publications -/

/-- The pending publications of each node stand in line behind its head pointer, and each call that
has returned is either pending or committed. -/
structure InLine (p : Publisher) : Prop where
  head : ∀ nid s, p.Pending nid s →
    ∃ h, p.nextAsyncCommitSeq[nid]? = some h ∧ p.Pending nid h ∧ h ≤ s
  before : ∀ nid h s, p.nextAsyncCommitSeq[nid]? = some h → p.Pending nid s → h < s →
    p.Pending nid (s - 1)
  bounds : ∀ nid s, p.Pending nid s → 0 < s ∧ s < 2 ^ 64
  accounted : ∀ k : NodeID × SeqNo, p.asyncReturned.count k =
    p.committed.count k + if p.Pending k.1 k.2 then 1 else 0
  once : ∀ k, p.asyncReturned.count k ≤ 1
  reserved : ∀ nid s, (nid, s) ∈ p.asyncReturned → s ≤ (p.reservedSeqNo[nid]?).getD 0

/-- The staged publications are those of the posted callbacks, the prepared ones are filed under
their numbers, and those that wait for a retry have a timer. -/
structure Filed (cfg : PubSubConfig) (p : Publisher) : Prop where
  posted_nodup : (p.posted.map PreparedPublication.key).Nodup
  staged : ∀ nid s, (p.stagedPublicationPackets.getAt nid s).isSome ↔
    (nid, s) ∈ p.posted.map PreparedPublication.key
  apart : ∀ nid s, (p.stagedPublicationPackets.getAt nid s).isSome →
    p.preparedPublications.getAt nid s = none
  keyed : ∀ nid s publication, p.preparedPublications.getAt nid s = some publication →
    publication.key = (nid, s)
  posted_sound : ∀ publication ∈ p.posted, publication.Sound cfg
  prepared_sound : ∀ nid s publication, p.preparedPublications.getAt nid s = some publication →
    publication.Sound cfg
  fresh : ∀ publication ∈ p.posted, publication.retryScheduled = false
  timer : ∀ nid s publication, p.preparedPublications.getAt nid s = some publication →
    publication.retryScheduled = true → (nid, s) ∈ p.retries
  staged_noEmpty : p.stagedPublicationPackets.NoEmpty
  prepared_noEmpty : p.preparedPublications.NoEmpty

structure Lined (cfg : PubSubConfig) (p : Publisher) : Prop extends InLine p, Filed cfg p

theorem lined_empty (core : SVSyncCore) : Lined cfg { core } := by
  have hnone : ∀ nid s, ¬({ core } : Publisher).Pending nid s := by simp [Pending]
  refine ⟨⟨fun nid s h => absurd h (hnone nid s), fun nid h s _ hs => absurd hs (hnone nid s),
    fun nid s h => absurd h (hnone nid s), fun k => ?_, by simp [asyncReturned],
    by simp [asyncReturned]⟩,
    ⟨by simp, by simp, by simp, by simp, by simp, by simp, by simp, by simp,
    Map.noEmpty_empty, Map.noEmpty_empty⟩⟩
  rw [if_neg (hnone _ _)]
  rfl

section Lemmas

variable {p p' : Publisher} {nid : NodeID}

/-- The line depends on which publications are pending, not on where they are. -/
theorem InLine.congr (h : InLine p) (hpending : ∀ nid s, p'.Pending nid s ↔ p.Pending nid s)
    (hnext : p'.nextAsyncCommitSeq = p.nextAsyncCommitSeq) (hcommitted : p'.committed = p.committed)
    (hreturned : p'.asyncReturned = p.asyncReturned)
    (hreserved : ∀ nid : NodeID, (p.reservedSeqNo[nid]?).getD 0 ≤ (p'.reservedSeqNo[nid]?).getD 0) :
    InLine p' := by
  refine ⟨?_, ?_, ?_, ?_, ?_, ?_⟩
  · simpa only [hpending, hnext] using h.head
  · simpa only [hpending, hnext] using h.before
  · simpa only [hpending] using h.bounds
  · simpa only [hpending, hreturned, hcommitted] using h.accounted
  · simpa only [hreturned] using h.once
  · intro nid s hs
    rw [hreturned] at hs
    exact (h.reserved nid s hs).trans (hreserved nid)

theorem Filed.congr (h : Filed cfg p)
    (hstaged : p'.stagedPublicationPackets = p.stagedPublicationPackets)
    (hprepared : p'.preparedPublications = p.preparedPublications) (hposted : p'.posted = p.posted)
    (hretries : p'.retries = p.retries) : Filed cfg p' := by
  refine ⟨?_, ?_, ?_, ?_, ?_, ?_, ?_, ?_, ?_, ?_⟩
  · simpa only [hposted] using h.posted_nodup
  · simpa only [hposted, hstaged] using h.staged
  · simpa only [hstaged, hprepared] using h.apart
  · simpa only [hprepared] using h.keyed
  · simpa only [hposted] using h.posted_sound
  · simpa only [hprepared] using h.prepared_sound
  · simpa only [hposted] using h.fresh
  · simpa only [hprepared, hretries] using h.timer
  · simpa only [hstaged] using h.staged_noEmpty
  · simpa only [hprepared] using h.prepared_noEmpty

/-- What the line does not depend on may change, and reservations may grow. -/
theorem Lined.congr (h : Lined cfg p) (hnext : p'.nextAsyncCommitSeq = p.nextAsyncCommitSeq)
    (hstaged : p'.stagedPublicationPackets = p.stagedPublicationPackets)
    (hprepared : p'.preparedPublications = p.preparedPublications) (hposted : p'.posted = p.posted)
    (hretries : p'.retries = p.retries) (hcommitted : p'.committed = p.committed)
    (hreturned : p'.asyncReturned = p.asyncReturned)
    (hreserved : ∀ nid : NodeID, (p.reservedSeqNo[nid]?).getD 0 ≤ (p'.reservedSeqNo[nid]?).getD 0) :
    Lined cfg p' := by
  have hpending : ∀ nid s, p'.Pending nid s ↔ p.Pending nid s := fun nid s => by
    rw [Pending, Pending, hstaged, hprepared]
  exact ⟨h.toInLine.congr hpending hnext hcommitted hreturned hreserved,
    h.toFiled.congr hstaged hprepared hposted hretries⟩

/-- The numbers between the head and a pending number are pending. -/
theorem InLine.interval (h : InLine p) {head s : SeqNo}
    (hhead : p.nextAsyncCommitSeq[nid]? = some head) (hs : p.Pending nid s) {t : SeqNo}
    (hlow : head ≤ t) (hhigh : t ≤ s) : p.Pending nid t := by
  induction s with
  | zero =>
    obtain rfl : t = 0 := by lia
    exact hs
  | succ s ih =>
    by_cases heq : t = s + 1
    · exact heq ▸ hs
    · have hbefore := h.before nid head (s + 1) hhead hs (by lia)
      exact ih hbefore (by lia)

theorem InLine.heads (h : InLine p) : p.HeadsAreSmallest := by
  intro nid s hs
  obtain ⟨head, hhead, hpending, -⟩ := h.head nid s hs
  refine ⟨head, hhead, hpending, fun s' hs' => ?_⟩
  obtain ⟨head', hhead', -, hle⟩ := h.head nid s' hs'
  rw [hhead] at hhead'
  obtain rfl := Option.some.inj hhead'
  exact hle

/-- A node without pending publications may get any head pointer. -/
theorem Lined.setNext (h : Lined cfg p) (hnone : ∀ s, ¬p.Pending nid s) (next : SeqNo) :
    Lined cfg { p with nextAsyncCommitSeq := p.nextAsyncCommitSeq.insert nid next } := by
  have hother : ∀ nid' s, p.Pending nid' s →
      (p.nextAsyncCommitSeq.insert nid next)[nid']? = p.nextAsyncCommitSeq[nid']? := by
    intro nid' s hs
    refine Map.get_insert_ne fun heq => ?_
    subst heq
    exact hnone s hs
  refine { h with head := fun nid' s hs => ?_, before := fun nid' head s hhead hs => ?_ }
  · simp only [hother nid' s hs]
    exact h.head nid' s hs
  · simp only [hother nid' s hs] at hhead
    exact h.before nid' head s hhead hs

theorem Idle.not_pending (h : p.Idle nid) (s : SeqNo) : ¬p.Pending nid s := by
  obtain ⟨hstaged, hprepared⟩ := h
  rw [Pending, Map.getAt, Map.getAt, Std.ExtTreeMap.getElem?_eq_none hstaged,
    Std.ExtTreeMap.getElem?_eq_none hprepared]
  simp

/-! ### Calls -/

theorem le_insert {m : Map NodeID SeqNo} {seqNo : SeqNo} (h : (m[nid]?).getD 0 ≤ seqNo)
    (nid' : NodeID) : (m[nid']?).getD 0 ≤ ((m.insert nid seqNo)[nid']?).getD 0 := by
  rw [Map.get_insert]
  split
  · rename_i heq
    subst heq
    exact h
  · exact le_rfl

theorem Lined.alters (h : Lined cfg p) {seqNo : SeqNo} (halters : Alters cfg nid seqNo p p')
    (core : SVSyncCore) : Lined cfg { p' with core } := by
  have hstate := halters.state
  refine h.congr ?_ ?_ ?_ ?_ ?_ ?_ ?_ fun nid => le_of_eq ?_ <;> rw [hstate]
  rfl

theorem asyncReturned_sync (p : Publisher) (nid : NodeID) (seqNo : SeqNo) (packets : List Data) :
    (p.return_ nid seqNo packets false).asyncReturned = p.asyncReturned := by
  simp [asyncReturned, return_]

theorem asyncReturned_async (p : Publisher) (nid : NodeID) (seqNo : SeqNo) (packets : List Data) :
    (p.return_ nid seqNo packets true).asyncReturned = p.asyncReturned ++ [(nid, seqNo)] := by
  simp [asyncReturned, return_]

theorem Lined.publishes (h : Lined cfg p) {seqNo : SeqNo} {result : Outcome Publisher}
    {settle : Publisher → Publisher} (hpublishes : Publishes cfg nid seqNo p result settle)
    (hsettle : result.2 = .ok () → ∀ p', Lined cfg p' → p'.stagedPublicationPackets =
      p.stagedPublicationPackets → p'.preparedPublications = p.preparedPublications →
      p'.reservedSeqNo = p.reservedSeqNo → Lined cfg (settle p')) : Lined cfg result.1 := by
  rcases hpublishes with ⟨halters, -⟩ | ⟨p₁, core, packets, halters, -, -, -, hresult⟩
  · exact h.alters halters result.1.core
  · have hstate := halters.state
    have hsettled := hsettle (by rw [hresult]) _ (h.alters halters core) (by rw [hstate])
      (by rw [hstate]) (by rw [hstate])
    rw [hresult]
    exact hsettled.congr rfl rfl rfl rfl rfl rfl (asyncReturned_sync _ _ _ _) fun _ => le_rfl

theorem Lined.reserveSeqNo (h : Lined cfg p) (hroom : HasRoom cfg p nid) :
    Lined cfg (p.reserveSeqNo cfg nid).1 := by
  have hlast := reserved_le_last cfg p nid
  have hle : (p.reservedSeqNo[nid]?).getD 0 ≤ p.nextSeqNo cfg nid := by
    rw [nextSeqNo_eq hroom]
    lia
  by_cases hmem : nid ∈ p.nextAsyncCommitSeq
  · exact h.congr (if_pos hmem) rfl rfl rfl rfl rfl rfl (le_insert hle)
  · have hnone : ∀ s, ¬p.Pending nid s := fun s hs => by
      obtain ⟨head, hhead, -⟩ := h.head nid s hs
      rw [Std.ExtTreeMap.getElem?_eq_none hmem] at hhead
      cases hhead
    exact (h.setNext hnone (p.nextSeqNo cfg nid)).congr (if_neg hmem) rfl rfl rfl rfl rfl rfl
      (le_insert hle)

theorem Lined.settleBytes (h : Lined cfg p) (hidle : p.Idle nid) {seqNo : SeqNo}
    (hseq : (p.reservedSeqNo[nid]?).getD 0 ≤ seqNo) : Lined cfg (settleBytes nid seqNo p) :=
  (h.setNext hidle.not_pending ((seqNo + 1) % 2 ^ 64)).congr rfl rfl rfl rfl rfl rfl rfl
    (le_insert hseq)

theorem Lined.reserve (h : Lined cfg p) :
    Lined cfg (p.reserve nid (p.lastSeqNo cfg nid)) :=
  h.congr rfl rfl rfl rfl rfl rfl rfl (le_insert (reserved_le_last _ p nid))

/-- The numbers that have been returned are reserved, so the next one is new. -/
theorem InLine.not_returned (h : InLine p) {seqNo : SeqNo}
    (hseq : (p.reservedSeqNo[nid]?).getD 0 < seqNo) : (nid, seqNo) ∉ p.asyncReturned :=
    fun hmem => by
  have := h.reserved nid seqNo hmem
  lia

theorem InLine.pending_returned (h : InLine p) {s : SeqNo} (hs : p.Pending nid s) :
    (nid, s) ∈ p.asyncReturned := by
  have hcount := h.accounted (nid, s)
  rw [if_pos hs] at hcount
  exact List.count_pos_iff.mp (by lia)

theorem pending_stage (p : Publisher) (nid : NodeID) (seqNo : SeqNo)
    (prepared : PreparedPublication)
    (nid' : NodeID) (s : SeqNo) : (stage nid seqNo prepared p).Pending nid' s ↔
      (nid = nid' ∧ seqNo = s) ∨ p.Pending nid' s := by
  simp only [Pending, stage, Map.getAt_insertAt]
  split
  · rename_i heq
    simp [heq]
  · rename_i hne
    simp [hne]

/-- A publication that gets the number after the last pending one joins the line. -/
theorem InLine.stage (h : InLine p) {seqNo : SeqNo} {prepared : PreparedPublication}
    (hpos : 0 < seqNo) (hlt : seqNo < 2 ^ 64) (hseq : (p.reservedSeqNo[nid]?).getD 0 < seqNo)
    (hfollows : (∀ s, ¬p.Pending nid s) ∧ (p.nextAsyncCommitSeq[nid]? = none ∨
        p.nextAsyncCommitSeq[nid]? = some seqNo) ∨ p.Pending nid (seqNo - 1)) :
    InLine ((stage nid seqNo prepared p).return_ nid seqNo prepared.outerPackets true) := by
  have hnew : ¬p.Pending nid seqNo := fun hs => h.not_returned hseq (h.pending_returned hs)
  have hpending := pending_stage p nid seqNo prepared
  -- the head pointer of the node after the call, and where it stood
  have hnext : ∃ head, (Publisher.stage nid seqNo prepared p).nextAsyncCommitSeq[nid]? = some head ∧
      (head = seqNo ∧ (∀ s, ¬p.Pending nid s) ∨
        p.nextAsyncCommitSeq[nid]? = some head ∧ p.Pending nid (seqNo - 1)) := by
    simp only [Publisher.stage]
    rcases hfollows with ⟨hnone, hnext | hnext⟩ | hprev
    · have hmem : nid ∉ p.nextAsyncCommitSeq := fun hmem => by
        have := Std.ExtTreeMap.mem_iff_isSome_getElem?.mp hmem
        rw [hnext] at this
        cases this
      exact ⟨seqNo, by rw [if_neg hmem, Map.get_insert, if_pos rfl], .inl ⟨rfl, hnone⟩⟩
    · have hmem : nid ∈ p.nextAsyncCommitSeq :=
        Std.ExtTreeMap.mem_iff_isSome_getElem?.mpr (by rw [hnext]; rfl)
      exact ⟨seqNo, by rw [if_pos hmem, hnext], .inl ⟨rfl, hnone⟩⟩
    · obtain ⟨head, hhead, -⟩ := h.head nid _ hprev
      have hmem : nid ∈ p.nextAsyncCommitSeq :=
        Std.ExtTreeMap.mem_iff_isSome_getElem?.mpr (by rw [hhead]; rfl)
      exact ⟨head, by rw [if_pos hmem, hhead], .inr ⟨hhead, hprev⟩⟩
  have hother : ∀ nid', nid ≠ nid' →
    (Publisher.stage nid seqNo prepared p).nextAsyncCommitSeq[nid']? =
      p.nextAsyncCommitSeq[nid']? := by
    intro nid' hne
    simp only [Publisher.stage]
    split
    · rfl
    · exact Map.get_insert_ne hne
  have hline : ∀ nid' head,
    (Publisher.stage nid seqNo prepared p).nextAsyncCommitSeq[nid']? = some head →
      ∀ s, p.Pending nid' s → p.nextAsyncCommitSeq[nid']? = some head := by
    intro nid' head hhead s hs
    by_cases hne : nid = nid'
    · subst hne
      obtain ⟨head', hhead', ⟨-, hnone⟩ | ⟨hold, -⟩⟩ := hnext
      · exact absurd hs (hnone s)
      · rw [hhead] at hhead'
        rw [hold, hhead']
    · rw [← hother nid' hne, hhead]
  have hreturned : (Publisher.stage nid seqNo prepared p).asyncReturned = p.asyncReturned := rfl
  refine ⟨fun nid' s hs => ?_, fun nid' head s hhead hs hlt => ?_, fun nid' s hs => ?_, fun k => ?_,
    fun k => ?_, fun nid' s hs => ?_⟩
  · rcases (hpending nid' s).mp hs with ⟨rfl, rfl⟩ | hs
    · obtain ⟨head, hhead, ⟨rfl, -⟩ | ⟨hold, hprev⟩⟩ := hnext
      · exact ⟨head, hhead, hs, le_rfl⟩
      · obtain ⟨head', hhead', hpend, hle⟩ := h.head nid _ hprev
        obtain rfl := Option.some.inj (hold.symm.trans hhead')
        exact ⟨head, hhead, (hpending nid head).mpr (.inr hpend), by lia⟩
    · obtain ⟨head, hhead, hpend, hle⟩ := h.head nid' s hs
      refine ⟨head, ?_, (hpending nid' head).mpr (.inr hpend), hle⟩
      by_cases hne : nid = nid'
      · subst hne
        obtain ⟨head', hhead', ⟨-, hnone⟩ | ⟨hold, -⟩⟩ := hnext
        · exact absurd hs (hnone s)
        · obtain rfl := Option.some.inj (hold.symm.trans hhead)
          exact hhead'
      · exact (hother nid' hne).trans hhead
  · rcases (hpending nid' s).mp hs with ⟨rfl, rfl⟩ | hs
    · obtain ⟨head', hhead', ⟨rfl, -⟩ | ⟨-, hprev⟩⟩ := hnext
      · obtain rfl := Option.some.inj (hhead.symm.trans hhead')
        exact absurd hlt (lt_irrefl _)
      · exact (hpending nid _).mpr (.inr hprev)
    · exact (hpending nid' _).mpr (.inr (h.before nid' head s (hline nid' head hhead s hs) hs hlt))
  · rcases (hpending nid' s).mp hs with ⟨rfl, rfl⟩ | hs
    · exact ⟨hpos, hlt⟩
    · exact h.bounds nid' s hs
  · rw [asyncReturned_async, hreturned, List.count_append, h.accounted k]
    have hk := hpending k.1 k.2
    by_cases heq : k = (nid, seqNo)
    · subst heq
      have hnow : ((Publisher.stage nid seqNo prepared p).return_ nid seqNo prepared.outerPackets
          true).Pending (nid, seqNo).1 (nid, seqNo).2 := (hpending nid seqNo).mpr (.inl ⟨rfl, rfl⟩)
      rw [if_neg hnew, if_pos hnow, List.count_singleton_self]
      rfl
    · have hne : ¬(nid = k.1 ∧ seqNo = k.2) := fun hsame =>
        heq (Prod.ext hsame.1.symm hsame.2.symm)
      have hcount : List.count k [(nid, seqNo)] = 0 := List.count_eq_zero.mpr (by simpa using heq)
      rw [hcount]
      have hiff : ((Publisher.stage nid seqNo prepared p).return_ nid seqNo prepared.outerPackets
          true).Pending k.1 k.2 ↔ p.Pending k.1 k.2 := hk.trans (by simp [hne])
      simp only [hiff]
      rfl
  · rw [asyncReturned_async, hreturned, List.count_append]
    by_cases heq : k = (nid, seqNo)
    · subst heq
      rw [List.count_eq_zero.mpr (h.not_returned hseq), List.count_singleton_self]
    · have hcount : List.count k [(nid, seqNo)] = 0 := List.count_eq_zero.mpr (by simpa using heq)
      rw [hcount]
      exact h.once k
  · rw [asyncReturned_async, hreturned] at hs
    change s ≤ ((p.reservedSeqNo.insert nid seqNo)[nid']?).getD 0
    rcases List.mem_append.mp hs with hs | hs
    · exact (h.reserved nid' s hs).trans (le_insert hseq.le nid')
    · obtain ⟨rfl, rfl⟩ := Prod.mk.inj (List.mem_singleton.mp hs)
      rw [Map.get_insert, if_pos rfl]
      exact le_rfl

theorem Filed.stage (h : Filed cfg p) {seqNo : SeqNo} {prepared : PreparedPublication}
    {dataStore : DataStore} (hstages : Stages cfg nid seqNo dataStore prepared)
    (hnew : ¬p.Pending nid seqNo) :
    Filed cfg ((stage nid seqNo prepared p).return_ nid seqNo prepared.outerPackets true) := by
  have hkey : prepared.key = (nid, seqNo) := by
    rw [PreparedPublication.key, hstages.nodePrefix, hstages.seqNo]
  have hunposted : (nid, seqNo) ∉ p.posted.map PreparedPublication.key := fun hmem =>
    hnew (.inl ((h.staged nid seqNo).mpr hmem))
  refine ⟨?_, fun nid' s => ?_, fun nid' s hs => ?_, h.keyed, fun publication hmem => ?_,
    h.prepared_sound, fun publication hmem => ?_, h.timer,
    Map.noEmpty_insertAt h.staged_noEmpty _ _ _, h.prepared_noEmpty⟩
  · change ((p.posted ++ [prepared]).map PreparedPublication.key).Nodup
    rw [List.map_append, List.map_singleton, hkey, List.nodup_append_comm]
    exact List.nodup_cons.mpr ⟨hunposted, h.posted_nodup⟩
  · change ((p.stagedPublicationPackets.insertAt nid seqNo prepared.outerPackets).getAt
      nid' s).isSome ↔
      (nid', s) ∈ (p.posted ++ [prepared]).map PreparedPublication.key
    rw [Map.getAt_insertAt, List.map_append, List.map_singleton, hkey, List.mem_append,
      List.mem_singleton, Prod.mk.injEq, ← h.staged]
    by_cases heq : nid = nid' ∧ seqNo = s
    · obtain ⟨rfl, rfl⟩ := heq
      simp
    · have hne : ¬(nid' = nid ∧ s = seqNo) := fun hsame => heq ⟨hsame.1.symm, hsame.2.symm⟩
      rw [if_neg heq]
      simp [hne]
  · change ((p.stagedPublicationPackets.insertAt nid seqNo prepared.outerPackets).getAt
      nid' s).isSome
      at hs
    rw [Map.getAt_insertAt] at hs
    split at hs
    · rename_i heq
      obtain ⟨rfl, rfl⟩ := heq
      by_contra hsome
      exact hnew (.inr (Option.isSome_iff_ne_none.mpr hsome))
    · exact h.apart nid' s hs
  · rcases List.mem_append.mp hmem with hmem | hmem
    · exact h.posted_sound publication hmem
    · obtain rfl := List.mem_singleton.mp hmem
      exact ⟨hstages.ok, hstages.insertable⟩
  · rcases List.mem_append.mp hmem with hmem | hmem
    · exact h.fresh publication hmem
    · obtain rfl := List.mem_singleton.mp hmem
      exact hstages.retryScheduled

/-! ### Callbacks -/

theorem mem_eraseIdx_of_ne {α : Type} {l : List α} {i : Nat} {a b : α} (hi : l[i]? = some a)
    (hb : b ∈ l) (hne : b ≠ a) : b ∈ l.eraseIdx i := by
  obtain ⟨j, hj⟩ := List.mem_iff_getElem?.mp hb
  refine List.mem_eraseIdx_iff_getElem?.mpr ⟨j, fun heq => hne ?_, hj⟩
  subst heq
  rw [hi] at hj
  exact (Option.some.inj hj).symm

theorem not_mem_eraseIdx {α : Type} {l : List α} (hnodup : l.Nodup) {i : Nat} {a : α}
    (hi : l[i]? = some a) : a ∉ l.eraseIdx i := by
  intro hmem
  obtain ⟨j, hne, hj⟩ := List.mem_eraseIdx_iff_getElem?.mp hmem
  obtain ⟨hi', rfl⟩ := List.getElem?_eq_some_iff.mp hi
  obtain ⟨hj', heq⟩ := List.getElem?_eq_some_iff.mp hj
  exact hne (hnodup.getElem_inj_iff.mp heq)

/-- A publication may be filed under its number, with a timer if it waits for a retry. -/
theorem Filed.file (h : Filed cfg p) {s : SeqNo} {publication : PreparedPublication}
    {retries : List (NodeID × SeqNo)} (hkey : publication.key = (nid, s))
    (hsound : publication.Sound cfg) (hapart : p.stagedPublicationPackets.getAt nid s = none)
    (htimer : publication.retryScheduled = true → (nid, s) ∈ retries)
    (hretries : ∀ k ∈ p.retries, k ≠ (nid, s) → k ∈ retries) :
    Filed cfg { p with
      preparedPublications := p.preparedPublications.insertAt nid s publication
      retries } := by
  have hcases : ∀ nid' s' found,
      (p.preparedPublications.insertAt nid s publication).getAt nid' s' = some found →
      ((nid', s') = (nid, s) ∧ found = publication) ∨
        ((nid', s') ≠ (nid, s) ∧ p.preparedPublications.getAt nid' s' = some found) := by
    intro nid' s' found hfound
    rw [Map.getAt_insertAt] at hfound
    split at hfound
    · rename_i heq
      exact .inl ⟨by rw [heq.1, heq.2], (Option.some.inj hfound).symm⟩
    · rename_i hne
      exact .inr ⟨fun heq => hne ⟨(Prod.mk.inj heq).1.symm, (Prod.mk.inj heq).2.symm⟩, hfound⟩
  refine { h with
    apart := fun nid' s' hs => ?_
    keyed := fun nid' s' found hfound => ?_
    prepared_sound := fun nid' s' found hfound => ?_
    timer := fun nid' s' found hfound hretry => ?_
    prepared_noEmpty := Map.noEmpty_insertAt h.prepared_noEmpty _ _ _ }
  · change (p.preparedPublications.insertAt nid s publication).getAt nid' s' = none
    rw [Map.getAt_insertAt]
    split
    · rename_i heq
      obtain ⟨rfl, rfl⟩ := heq
      rw [hapart] at hs
      cases hs
    · exact h.apart nid' s' hs
  · rcases hcases nid' s' found hfound with ⟨heq, rfl⟩ | ⟨-, hfound⟩
    · rw [heq]
      exact hkey
    · exact h.keyed nid' s' found hfound
  · rcases hcases nid' s' found hfound with ⟨-, rfl⟩ | ⟨-, hfound⟩
    · exact hsound
    · exact h.prepared_sound nid' s' found hfound
  · rcases hcases nid' s' found hfound with ⟨heq, rfl⟩ | ⟨hne, hfound⟩
    · rw [heq]
      exact htimer hretry
    · exact hretries _ (h.timer nid' s' found hfound hretry) hne

theorem Filed.erase (h : Filed cfg p) (nid : NodeID) (s : SeqNo) : Filed cfg { p with
    preparedPublications := p.preparedPublications.eraseAt nid s } := by
  have hkept : ∀ nid' s' found, (p.preparedPublications.eraseAt nid s).getAt nid' s' = some found →
      p.preparedPublications.getAt nid' s' = some found := by
    intro nid' s' found hfound
    rw [Map.getAt_eraseAt] at hfound
    split at hfound
    · cases hfound
    · exact hfound
  refine { h with
    apart := fun nid' s' hs => ?_
    keyed := fun nid' s' found hfound => h.keyed nid' s' found (hkept _ _ _ hfound)
    prepared_sound := fun nid' s' found hfound =>
      h.prepared_sound nid' s' found (hkept _ _ _ hfound)
    timer := fun nid' s' found hfound => h.timer nid' s' found (hkept _ _ _ hfound)
    prepared_noEmpty := Map.noEmpty_eraseAt h.prepared_noEmpty _ _ }
  change (p.preparedPublications.eraseAt nid s).getAt nid' s' = none
  rw [Map.getAt_eraseAt, h.apart nid' s' hs, ite_self]

/-- A prepared publication is not staged. -/
theorem Filed.unstaged (h : Filed cfg p) {s : SeqNo} {publication : PreparedPublication}
    (hat : p.preparedPublications.getAt nid s = some publication) :
    p.stagedPublicationPackets.getAt nid s = none := by
  by_contra hsome
  have := h.apart nid s (Option.isSome_iff_ne_none.mpr hsome)
  rw [hat] at this
  cases this

/-- The callback of a staged publication moves it to the prepared ones. -/
theorem Filed.unstage (h : Filed cfg p) {index : Nat} {publication : PreparedPublication}
    (hindex : p.posted[index]? = some publication) : Filed cfg
      (({ p with posted := p.posted.eraseIdx index } : Publisher).unstage publication) := by
  have hmem := List.mem_of_getElem? hindex
  have hkeys : (p.posted.map PreparedPublication.key)[index]? = some publication.key := by
    rw [List.getElem?_map, hindex, Option.map_some]
  have hunstaged : Filed cfg { p with
      posted := p.posted.eraseIdx index
      stagedPublicationPackets :=
        p.stagedPublicationPackets.eraseAt publication.nodePrefix publication.seqNo } := by
    refine { h with
      posted_nodup := ?_
      staged := fun nid s => ?_
      apart := fun nid s hs => ?_
      posted_sound := fun found hfound => h.posted_sound found (List.mem_of_mem_eraseIdx hfound)
      fresh := fun found hfound => h.fresh found (List.mem_of_mem_eraseIdx hfound)
      staged_noEmpty := Map.noEmpty_eraseAt h.staged_noEmpty _ _ }
    · exact h.posted_nodup.sublist ((List.eraseIdx_sublist _ _).map _)
    · change ((p.stagedPublicationPackets.eraseAt publication.nodePrefix
        publication.seqNo).getAt nid
        s).isSome ↔ (nid, s) ∈ (p.posted.eraseIdx index).map PreparedPublication.key
      rw [Map.getAt_eraseAt, ← List.eraseIdx_map]
      split
      · rename_i heq
        obtain ⟨rfl, rfl⟩ := heq
        have hgone : (publication.nodePrefix, publication.seqNo) ∉ _ :=
          not_mem_eraseIdx h.posted_nodup hkeys
        simpa using hgone
      · rename_i hne
        rw [h.staged]
        refine ⟨fun hs => mem_eraseIdx_of_ne hkeys hs fun heq => ?_, List.mem_of_mem_eraseIdx⟩
        exact hne ⟨(Prod.mk.inj heq).1.symm, (Prod.mk.inj heq).2.symm⟩
    · refine h.apart nid s ?_
      change ((p.stagedPublicationPackets.eraseAt publication.nodePrefix
        publication.seqNo).getAt nid
        s).isSome at hs
      rw [Map.getAt_eraseAt] at hs
      split at hs
      · cases hs
      · exact hs
  refine hunstaged.file rfl (h.posted_sound publication hmem) ?_ (fun hretry => ?_) fun k hk _ => hk
  · change (p.stagedPublicationPackets.eraseAt publication.nodePrefix publication.seqNo).getAt _ _ =
      none
    rw [Map.getAt_eraseAt, if_pos ⟨rfl, rfl⟩]
  · rw [h.fresh publication hmem] at hretry
    cases hretry

theorem Filed.pending_unstage (h : Filed cfg p) {index : Nat} {publication : PreparedPublication}
    (hindex : p.posted[index]? = some publication) (nid : NodeID) (s : SeqNo) :
    (({ p with posted := p.posted.eraseIdx index } : Publisher).unstage publication).Pending nid s ↔
      p.Pending nid s := by
  have hstaged := (h.staged publication.nodePrefix publication.seqNo).mpr
    (List.mem_map_of_mem (f := PreparedPublication.key) (List.mem_of_getElem? hindex))
  simp only [Pending, Publisher.unstage, Map.getAt_eraseAt, Map.getAt_insertAt]
  split
  · rename_i heq
    obtain ⟨rfl, rfl⟩ := heq
    simp [hstaged]
  · rfl

theorem Lined.unstage (h : Lined cfg p) {index : Nat} {publication : PreparedPublication}
    (hindex : p.posted[index]? = some publication) : Lined cfg
      (({ p with posted := p.posted.eraseIdx index } : Publisher).unstage publication) :=
  ⟨h.toInLine.congr (h.pending_unstage hindex) rfl rfl rfl fun _ =>
    le_rfl, h.toFiled.unstage hindex⟩

theorem Filed.clearRetry (h : Filed cfg p) {index : Nat} {s : SeqNo}
    {publication : PreparedPublication} (hindex : p.retries[index]? = some (nid, s))
    (hat : p.preparedPublications.getAt nid s = some publication) : Filed cfg
      (({ p with retries := p.retries.eraseIdx index } : Publisher).clearRetry nid s
        publication) := by
  have hsound := h.prepared_sound nid s publication hat
  exact h.file (h.keyed nid s publication hat) ⟨hsound.ok, hsound.insertable⟩ (h.unstaged hat)
    (fun hretry => by cases hretry) fun k hk hne => mem_eraseIdx_of_ne hindex hk hne

theorem pending_clearRetry {index : Nat} {s : SeqNo} {publication : PreparedPublication}
    (hat : p.preparedPublications.getAt nid s = some publication) (nid' : NodeID) (s' : SeqNo) :
    (({ p with retries := p.retries.eraseIdx index } : Publisher).clearRetry nid s
      publication).Pending nid' s' ↔ p.Pending nid' s' := by
  simp only [Pending, Publisher.clearRetry, Map.getAt_insertAt]
  split
  · rename_i heq
    obtain ⟨rfl, rfl⟩ := heq
    simp [hat]
  · rfl

theorem Lined.clearRetry (h : Lined cfg p) {index : Nat} {s : SeqNo}
    {publication : PreparedPublication} (hindex : p.retries[index]? = some (nid, s))
    (hat : p.preparedPublications.getAt nid s = some publication) : Lined cfg
      (({ p with retries := p.retries.eraseIdx index } : Publisher).clearRetry nid s publication) :=
  ⟨h.toInLine.congr (pending_clearRetry hat) rfl rfl rfl fun _ => le_rfl,
    h.toFiled.clearRetry hindex hat⟩

/-- A timer whose publication is gone may go. -/
theorem Filed.dropRetry (h : Filed cfg p) {index : Nat} {s : SeqNo}
    (hindex : p.retries[index]? = some (nid, s)) (hat : p.preparedPublications.getAt nid s = none) :
    Filed cfg { p with retries := p.retries.eraseIdx index } := by
  refine { h with timer := fun nid' s' found hfound hretry => ?_ }
  refine mem_eraseIdx_of_ne hindex (h.timer nid' s' found hfound hretry) fun heq => ?_
  obtain ⟨rfl, rfl⟩ := Prod.mk.inj heq
  change p.preparedPublications.getAt nid' s' = some found at hfound
  rw [hat] at hfound
  cases hfound

theorem Lined.dropRetry (h : Lined cfg p) {index : Nat} {s : SeqNo}
    (hindex : p.retries[index]? = some (nid, s)) (hat : p.preparedPublications.getAt nid s = none) :
    Lined cfg { p with retries := p.retries.eraseIdx index } :=
  ⟨h.toInLine.congr (fun _ _ => .rfl) rfl rfl rfl fun _ => le_rfl, h.toFiled.dropRetry hindex hat⟩

/-! ### Rounds of the loop -/

theorem Filed.requeue (h : Filed cfg p) {publication publication' : PreparedPublication}
    {p₀ : Publisher} (htake : p.takeHead nid = some (publication, p₀))
    (htries : Tries cfg p₀ publication p' publication') :
    Filed cfg (p'.requeueFailedPublication nid publication') := by
  obtain ⟨next, hnext, hat, -, rfl⟩ := takeHead_eq_some.mp htake
  obtain ⟨dataStore, mappings, extra, rfl⟩ := htries.exists_state
  have hkey := h.keyed nid _ publication hat
  have hsound := h.prepared_sound nid _ publication hat
  obtain rfl : publication'.seqNo = next := htries.seqNo.trans (congrArg Prod.snd hkey)
  have hfiled := @Filed.file cfg _ nid (h.erase nid publication'.seqNo) publication'.seqNo
    { publication' with
      commitAttempts := publication'.commitAttempts + 1
      retryScheduled := true }
    (p.retries ++ [(nid, publication'.seqNo)])
    (by rw [← hkey, PreparedPublication.key, htries.nodePrefix, htries.seqNo]; rfl)
    ⟨htries.ok.trans hsound.ok, htries.outerPackets ▸ hsound.insertable⟩ (h.unstaged hat)
    (fun _ => by simp) fun k hk _ => List.mem_append_left _ hk
  exact hfiled.congr rfl rfl rfl rfl

theorem Filed.pending_requeue (h : Filed cfg p) {publication publication' : PreparedPublication}
    {p₀ : Publisher} (htake : p.takeHead nid = some (publication, p₀))
    (htries : Tries cfg p₀ publication p' publication') (nid' : NodeID) (s : SeqNo) :
    (p'.requeueFailedPublication nid publication').Pending nid' s ↔ p.Pending nid' s := by
  obtain ⟨next, hnext, hat, -, rfl⟩ := takeHead_eq_some.mp htake
  obtain ⟨dataStore, mappings, extra, rfl⟩ := htries.exists_state
  have hkey := h.keyed nid _ publication hat
  obtain rfl : publication'.seqNo = next := htries.seqNo.trans (congrArg Prod.snd hkey)
  simp only [Pending, requeueFailedPublication, Map.getAt_insertAt, Map.getAt_eraseAt]
  split
  · rename_i heq
    obtain ⟨rfl, rfl⟩ := heq
    simp [hat]
  · rfl

theorem Lined.requeue (h : Lined cfg p) {publication publication' : PreparedPublication}
    {p₀ : Publisher} (htake : p.takeHead nid = some (publication, p₀))
    (htries : Tries cfg p₀ publication p' publication') :
    Lined cfg (p'.requeueFailedPublication nid publication') := by
  refine ⟨h.toInLine.congr (h.pending_requeue htake htries) ?_ ?_ ?_ fun _ => le_of_eq ?_,
    h.toFiled.requeue htake htries⟩ <;>
  · obtain ⟨next, -, -, -, rfl⟩ := takeHead_eq_some.mp htake
    obtain ⟨dataStore, mappings, extra, rfl⟩ := htries.exists_state
    rfl

/-- A commit takes the head out of the line. -/
theorem InLine.advance (h : InLine p) {next : SeqNo}
    (hnext : p.nextAsyncCommitSeq[nid]? = some next) (hhead : p.Pending nid next)
    (hpending : ∀ nid' s, p'.Pending nid' s ↔ p.Pending nid' s ∧ ¬(nid = nid' ∧ next = s))
    (hnext' : p'.nextAsyncCommitSeq = p.nextAsyncCommitSeq.insert nid ((next + 1) % 2 ^ 64))
    (hcommitted : p'.committed = p.committed ++ [(nid, next)])
    (hreturned : p'.asyncReturned = p.asyncReturned)
    (hreserved : p'.reservedSeqNo = p.reservedSeqNo) : InLine p' := by
  -- a number that stays in line is behind the one that leaves it
  have hbehind : ∀ s, p'.Pending nid s →
      p.Pending nid s ∧ next < s ∧ (next + 1) % 2 ^ 64 = next + 1 := by
    intro s hs
    obtain ⟨hs, hne⟩ := (hpending nid s).mp hs
    obtain ⟨head, hhead', -, hle⟩ := h.head nid s hs
    obtain rfl := Option.some.inj (hnext.symm.trans hhead')
    have hlt : next < s := lt_of_le_of_ne hle fun heq => hne ⟨rfl, heq⟩
    exact ⟨hs, hlt, Nat.mod_eq_of_lt (by have := (h.bounds nid s hs).2; lia)⟩
  have hother : ∀ nid', nid ≠ nid' → p'.nextAsyncCommitSeq[nid']? = p.nextAsyncCommitSeq[nid']? :=
    fun nid' hne => by rw [hnext', Map.get_insert_ne hne]
  refine ⟨fun nid' s hs => ?_, fun nid' head s hhead' hs hlt => ?_,
    fun nid' s hs => ?_, fun k => ?_,
    fun k => ?_, fun nid' s hs => ?_⟩
  · by_cases hne : nid = nid'
    · subst hne
      obtain ⟨hold, hlt, hmod⟩ := hbehind s hs
      refine ⟨next + 1, by rw [hnext', Map.get_insert, if_pos rfl, hmod], ?_, hlt⟩
      refine (hpending nid _).mpr ⟨h.interval hnext hold (Nat.le_succ _) hlt, fun heq => ?_⟩
      exact absurd heq.2 (Nat.ne_of_lt (Nat.lt_succ_self _))
    · obtain ⟨head, hhead', hpend, hle⟩ := h.head nid' s ((hpending nid' s).mp hs).1
      exact ⟨head, (hother nid' hne).trans hhead', (hpending nid' head).mpr
        ⟨hpend, fun heq => hne heq.1⟩,
        hle⟩
  · by_cases hne : nid = nid'
    · subst hne
      obtain ⟨hold, hlt', hmod⟩ := hbehind s hs
      rw [hnext', Map.get_insert, if_pos rfl, hmod] at hhead'
      obtain rfl := Option.some.inj hhead'
      refine (hpending nid _).mpr ⟨h.before nid next s hnext hold hlt', fun heq => ?_⟩
      have := heq.2
      lia
    · rw [hother nid' hne] at hhead'
      exact (hpending nid' _).mpr ⟨h.before nid' head s hhead' ((hpending nid' s).mp hs).1 hlt,
        fun heq => hne heq.1⟩
  · exact h.bounds nid' s ((hpending nid' s).mp hs).1
  · rw [hreturned, hcommitted, List.count_append, h.accounted k]
    by_cases heq : k = (nid, next)
    · subst heq
      have hgone : ¬p'.Pending (nid, next).1 (nid, next).2 := fun hs =>
        ((hpending nid next).mp hs).2 ⟨rfl, rfl⟩
      rw [if_pos hhead, if_neg hgone, List.count_singleton_self]
    · have hne : ¬(nid = k.1 ∧ next = k.2) := fun hsame =>
        heq (Prod.ext hsame.1.symm hsame.2.symm)
      have hcount : List.count k [(nid, next)] = 0 := List.count_eq_zero.mpr (by simpa using heq)
      have hiff : p'.Pending k.1 k.2 ↔ p.Pending k.1 k.2 := by
        rw [hpending]
        exact and_iff_left hne
      rw [hcount]
      simp only [hiff]
      rfl
  · rw [hreturned]
    exact h.once k
  · rw [hreturned] at hs
    rw [hreserved]
    exact h.reserved nid' s hs

theorem Filed.advance (h : Filed cfg p) {publication publication' : PreparedPublication}
    {p₀ : Publisher} (htake : p.takeHead nid = some (publication, p₀))
    (htries : Tries cfg p₀ publication p' publication') (core : SVSyncCore) :
    Filed cfg (({ p' with core, committed := p'.committed ++ [(nid, publication.seqNo)] } :
      Publisher).advanceHead nid publication'.seqNo) := by
  obtain ⟨next, hnext, hat, -, rfl⟩ := takeHead_eq_some.mp htake
  obtain ⟨dataStore, mappings, extra, rfl⟩ := htries.exists_state
  have hseq : publication.seqNo = next := congrArg Prod.snd (h.keyed nid next publication hat)
  rw [htries.seqNo, hseq, advanceHead, if_pos hnext]
  exact (h.erase nid next).congr rfl rfl rfl rfl

theorem Filed.pending_advance (h : Filed cfg p) {publication publication' : PreparedPublication}
    {p₀ : Publisher} (htake : p.takeHead nid = some (publication, p₀))
    (htries : Tries cfg p₀ publication p' publication') (core : SVSyncCore) (nid' : NodeID)
    (s : SeqNo) :
    (({ p' with core, committed := p'.committed ++ [(nid, publication.seqNo)] } :
      Publisher).advanceHead nid publication'.seqNo).Pending nid' s ↔
      p.Pending nid' s ∧ ¬(nid = nid' ∧ publication.seqNo = s) := by
  obtain ⟨next, hnext, hat, -, rfl⟩ := takeHead_eq_some.mp htake
  obtain ⟨dataStore, mappings, extra, rfl⟩ := htries.exists_state
  have hseq : publication.seqNo = next := congrArg Prod.snd (h.keyed nid next publication hat)
  have hapart := h.unstaged hat
  rw [htries.seqNo, hseq, advanceHead, if_pos hnext]
  simp only [Pending, Map.getAt_eraseAt]
  split
  · rename_i heq
    obtain ⟨rfl, rfl⟩ := heq
    simp [hapart]
  · rename_i hne
    simp [hne]

theorem Lined.advance (h : Lined cfg p) {publication publication' : PreparedPublication}
    {p₀ : Publisher} (htake : p.takeHead nid = some (publication, p₀))
    (htries : Tries cfg p₀ publication p' publication') (core : SVSyncCore) :
    Lined cfg (({ p' with core, committed := p'.committed ++ [(nid, publication.seqNo)] } :
      Publisher).advanceHead nid publication'.seqNo) := by
  refine ⟨?_, h.toFiled.advance htake htries core⟩
  have hpending := h.pending_advance htake htries core
  obtain ⟨next, hnext, hat, -, rfl⟩ := takeHead_eq_some.mp htake
  obtain ⟨dataStore, mappings, extra, rfl⟩ := htries.exists_state
  have hseq : publication.seqNo = next := congrArg Prod.snd (h.keyed nid next publication hat)
  rw [htries.seqNo, hseq, advanceHead, if_pos hnext] at hpending ⊢
  exact h.toInLine.advance hnext (.inr (by rw [hat]; rfl)) hpending rfl rfl rfl rfl

theorem Lined.attempt_failed (h : Lined cfg p) {env : PublishInputs}
    {publication publication' : PreparedPublication} {p₀ : Publisher} {e : Error}
    (htake : p.takeHead nid = some (publication, p₀))
    (hattempt : p₀.attemptCommit cfg env nid publication = ((p', publication'), .error e)) :
    Lined cfg (p'.requeueFailedPublication nid publication') :=
  h.requeue htake (attemptCommit_error hattempt)

theorem Lined.attempt_done (h : Lined cfg p) {env : PublishInputs}
    {publication publication' : PreparedPublication} {p₀ : Publisher}
    (htake : p.takeHead nid = some (publication, p₀))
    (hattempt : p₀.attemptCommit cfg env nid publication = ((p', publication'), .ok ())) :
    Lined cfg (p'.advanceHead nid publication'.seqNo) := by
  obtain ⟨p₁, core, rfl, htries, -⟩ := attemptCommit_ok hattempt
  exact h.advance htake htries core

theorem Lined.commitLoop (h : Lined cfg p) (nid : NodeID) (fuel : Nat)
    (attempts : Nat → PublishInputs) : Lined cfg (commitLoop cfg nid fuel attempts p) :=
  commitLoop_invariant (E := fun _ => True)
    (fun _ _ _ _ _ _ _ _ hp htake hattempt => hp.attempt_failed htake hattempt)
    (fun _ _ _ _ _ _ _ hp htake hattempt => hp.attempt_done htake hattempt) fuel
    (fun _ => trivial) h

end Lemmas

end Publisher

end NdnSvs
