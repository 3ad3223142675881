import NdnSvs.FailedCalls

/-! The shutdown of the pub/sub layer.  Each publication of an asynchronous call is committed, or it
is pending and the destructor finds its packets: in the map of the staged ones or, when they are in
the store, in the map of the prepared ones. -/

namespace NdnSvs

open Lib Lib.Tlv

variable {cfg : PubSubConfig} {env : PublishInputs}

namespace Publisher

variable (cfg) in
/-- The packets of the publications that have not been announced. -/
def unadvertised (p : Publisher) : List (List Data) :=
  (p.stagedPublicationPackets.toList.flatMap fun node => node.2.toList.map Prod.snd) ++
    p.preparedPublications.toList.flatMap fun node =>
      (node.2.toList.filter fun e => e.2.stored).map fun e => e.2.outerPackets

variable (cfg) in
/-- `~SVSPubSub`: the posted callbacks and the timers find the object gone.  The store throws at none
of the erasures. -/
def destructor (p : Publisher) : Publisher :=
  { p with
    dataStore := p.unadvertised.foldl
      (fun store packets => (store.removePreparedDataBatch cfg packets none).1) p.dataStore
    stagedPublicationPackets := ∅
    preparedPublications := ∅
    posted := []
    retries := [] }

/-- The node that an asynchronous call publishes under. -/
def Event.asyncNode? : Event → Option Name
  | .publishBytesAsync _ _ nodePrefix _ _ | .publishNameAsync _ nodePrefix _ _
  | .publishPacketAsync _ nodePrefix _ => some nodePrefix
  | _ => none

/-- An asynchronous call, the callback of one or a retry. -/
def Event.isAsync : Event → Bool
  | .publishBytesAsync _ _ _ _ _ | .publishNameAsync _ _ _ _ | .publishPacketAsync _ _ _
  | .preparedPublication _ | .retry _ => true
  | _ => false

/-- The data name of the next number of a node is new: no call that has returned has it, and no
packet that was in the store at first. -/
def NewName (cfg : PubSubConfig) (store₀ : DataStore) (p : Publisher) (nid : NodeID) : Prop :=
  (∀ r ∈ p.returned, makeDataName cfg r.nodePrefix cfg.core.bootstrapTime r.seqNo ≠
    makeDataName cfg nid cfg.core.bootstrapTime (p.nextSeqNo cfg nid)) ∧
  ∀ n, IsPacketName cfg nid (p.nextSeqNo cfg nid) n → store₀[n]? = none

/-- The step is one of an asynchronous publication, each call has a new data name, and no erasure
fails. -/
structure Plain (cfg : PubSubConfig) (store₀ : DataStore) (p : Publisher) (o : Occurrence) :
    Prop where
  async : o.event.isAsync
  newName : ∀ nodePrefix ∈ o.event.asyncNode?, NewName cfg store₀ p (nodeOf cfg nodePrefix)
  erases : ∀ i, (o.inputs i).eraseThrowsAt = none

end Publisher

/-! ### Batches in the store -/

namespace DataStore

variable {store : DataStore} {packets : List Data}

/-- Only entries under the names differ. -/
def Touches (names : List Name) (store store' : DataStore) : Prop :=
  ∀ n, n ∉ names → store'[n]? = store[n]?

theorem Touches.refl (names : List Name) (store : DataStore) : Touches names store store :=
  fun _ _ => rfl

theorem Touches.trans {names : List Name} {store' store'' : DataStore}
    (h : Touches names store store') (h' : Touches names store' store'') :
    Touches names store store'' := fun n hn => (h' n hn).trans (h n hn)

theorem rollsBack_of_erases (h : env.eraseThrowsAt = none) : env.RollsBack :=
  fun _ _ j hj => by
    rw [h] at hj
    cases hj

/-- A batch is inserted, or the store is as it was. -/
theorem insertPreparedDataBatch_cases (herases : env.eraseThrowsAt = none)
    (hnodup : (packets.map Data.name).Nodup) (hnew : ∀ d ∈ packets, store[d.name]? = none) :
    (∃ e, store.insertPreparedDataBatch cfg env packets = (store, .error e)) ∨
      ∃ store', store.insertPreparedDataBatch cfg env packets = (store', .ok ()) ∧
        store'.Has packets ∧ Touches (packets.map Data.name) store store' := by
  cases hbatch : store.insertPreparedDataBatch cfg env packets with
  | mk store' result =>
    cases result with
    | error e =>
      obtain rfl := insertPreparedDataBatch_restores hbatch
        (.inr (rollsBack_of_erases herases)) hnew
      exact .inl ⟨e, rfl⟩
    | ok _ =>
      have hhas := (insertPreparedDataBatch_ok (congrArg Prod.snd hbatch)).2 hnodup
      rw [hbatch] at hhas
      refine .inr ⟨store', rfl, hhas, fun n hn => ?_⟩
      have hloop := insertLoop_get packets store [] env.storeThrowsAt hn
      unfold insertPreparedDataBatch at hbatch
      split at hbatch
      · cases (Prod.mk.inj hbatch).2
      · split at hbatch
        · cases (Prod.mk.inj hbatch).2
        · split at hbatch
          · rename_i hresult
            rw [hresult] at hloop
            rw [← (Prod.mk.inj hbatch).1]
            exact hloop
          · split at hbatch <;> cases (Prod.mk.inj hbatch).2

/-- What is left after the removal of a batch. -/
theorem removePreparedDataBatch_get (hcfg : cfg.supportsErase) (n : Name) :
    store.removePreparedDataBatch cfg packets none =
      (store.eraseAll (packets.map Data.name).reverse, true) ∧
    (store.removePreparedDataBatch cfg packets none).1[n]? =
      if n ∈ packets.map Data.name then none else store[n]? := by
  have hresult : store.removePreparedDataBatch cfg packets none =
      (store.eraseAll (packets.map Data.name).reverse, true) := by
    rw [removePreparedDataBatch, if_neg fun h => h.2 hcfg, eraseLoop_of_reliable (by simp)]
  refine ⟨hresult, ?_⟩
  rw [hresult]
  split
  · rename_i hn
    exact eraseAll_get_of_mem (List.mem_reverse.mpr hn)
  · rename_i hn
    exact eraseAll_get _ fun h => hn (List.mem_reverse.mp h)

theorem foldl_remove_get (hcfg : cfg.supportsErase) (batches : List (List Data)) (n : Name) :
    (batches.foldl (fun store packets => (store.removePreparedDataBatch cfg packets none).1)
        store)[n]? =
      if ∃ packets ∈ batches, n ∈ packets.map Data.name then none else store[n]? := by
  induction batches generalizing store with
  | nil => simp
  | cons packets batches ih =>
    rw [List.foldl_cons, ih, (removePreparedDataBatch_get hcfg n).2]
    by_cases hrest : ∃ packets ∈ batches, n ∈ packets.map Data.name
    · obtain ⟨batch, hbatch, hn⟩ := hrest
      rw [if_pos ⟨batch, hbatch, hn⟩, if_pos ⟨batch, List.mem_cons_of_mem _ hbatch, hn⟩]
    · rw [if_neg hrest]
      refine if_congr ?_ rfl rfl
      constructor
      · exact fun hn => ⟨packets, List.mem_cons_self, hn⟩
      · rintro ⟨batch, hbatch, hn⟩
        rcases List.mem_cons.mp hbatch with rfl | hbatch
        · exact hn
        · exact absurd ⟨batch, hbatch, hn⟩ hrest

end DataStore

namespace Publisher

variable {p p' p'' : Publisher} {nid : NodeID} {store₀ : DataStore}

/-! ### Commit attempts -/

/-- The packets of a publication are in the store, or none of them is, as its mark says. -/
structure Placed (store : DataStore) (publication : PreparedPublication) : Prop where
  stored : publication.stored = true → store.Has publication.outerPackets
  absent : publication.stored = false → ∀ d ∈ publication.outerPackets, store[d.name]? = none

/-- What part of a commit attempt leaves of a placed publication. -/
structure Places (publication : PreparedPublication) (p p' : Publisher)
    (publication' : PreparedPublication) : Prop where
  placed : Placed p'.dataStore publication'
  touches : DataStore.Touches (publication.outerPackets.map Data.name) p.dataStore p'.dataStore

theorem storePackets_places {publication : PreparedPublication}
    (herases : env.eraseThrowsAt = none) (hnodup : (publication.outerPackets.map Data.name).Nodup)
    (h : Placed p.dataStore publication) :
    Places publication p (p.storePackets cfg env publication).1.1
      (p.storePackets cfg env publication).1.2 := by
  unfold storePackets
  split
  · exact ⟨h, .refl _ _⟩
  · rename_i hstored
    have habsent := h.absent (by simpa using hstored)
    rcases @DataStore.insertPreparedDataBatch_cases cfg _ _ _ herases hnodup habsent with
      ⟨e, hbatch⟩ | ⟨store', hbatch, hhas, htouches⟩
    · rw [hbatch]
      exact ⟨h, .refl _ _⟩
    · rw [hbatch]
      refine ⟨⟨fun _ => hhas, fun hnil d hd => ?_⟩, htouches⟩
      have hempty : publication.outerPackets = [] := by simpa using hnil
      rw [hempty] at hd
      cases hd

theorem rollBack_places {publication : PreparedPublication} (hcfg : cfg.supportsErase)
    (herases : env.eraseThrowsAt = none) (h : Placed p.dataStore publication) (e : Error) :
    Places publication p (p.rollBack cfg env publication e).1.1
      (p.rollBack cfg env publication e).1.2 := by
  have hremoved := fun n => @DataStore.removePreparedDataBatch_get cfg p.dataStore
    publication.outerPackets hcfg n
  unfold rollBack
  rw [herases]
  split
  · have hresult := (hremoved []).1
    rw [hresult] at hremoved ⊢
    refine ⟨⟨fun hstored => (Bool.false_ne_true hstored).elim, fun _ d hd => ?_⟩, fun n hn => ?_⟩
    · exact (hremoved d.name).2.trans (if_pos (List.mem_map_of_mem hd))
    · exact (hremoved n).2.trans (if_neg hn)
  · rename_i hstored
    have habsent := h.absent (by simpa using hstored)
    exact ⟨⟨fun hstored => (Bool.false_ne_true hstored).elim, fun _ => habsent⟩, .refl _ _⟩

theorem commitPreparedPublication_places {publication : PreparedPublication}
    (hcfg : cfg.supportsErase) (herases : env.eraseThrowsAt = none)
    (hnodup : (publication.outerPackets.map Data.name).Nodup)
    (h : Placed p.dataStore publication) :
    Places publication p (p.commitPreparedPublication cfg env publication).1.1
      (p.commitPreparedPublication cfg env publication).1.2 := by
  have hstore := @storePackets_places cfg env p publication herases hnodup h
  have htries := storePackets_tries cfg env p publication
  unfold commitPreparedPublication
  split
  · exact ⟨h, .refl _ _⟩
  · split
    · rename_i hresult
      rw [hresult] at hstore
      exact hstore
    · rename_i p₁ publication₁ hresult
      rw [hresult] at hstore htries
      rcases insertMapping_cases cfg env p₁ publication₁.nodePrefix
        publication₁.bootstrapTime publication₁.seqNo publication₁.mappingName
        publication₁.mappingBlocks with
        ⟨-, extra, e, hmapping⟩ | ⟨-, extra, mappings, -, -, hmapping⟩
      · rw [hmapping]
        have hplaced : Placed ({ p₁ with extra } : Publisher).dataStore publication₁ :=
          hstore.placed
        have hback := rollBack_places hcfg herases hplaced e
        have hpackets : publication₁.outerPackets = publication.outerPackets := htries.outerPackets
        have htouches := hback.touches
        rw [hpackets] at htouches
        exact ⟨hback.placed, hstore.touches.trans htouches⟩
      · rw [hmapping]
        exact ⟨hstore.placed, hstore.touches⟩

theorem attemptCommit_places {publication : PreparedPublication} (hcfg : cfg.supportsErase)
    (herases : env.eraseThrowsAt = none)
    (hnodup : (publication.outerPackets.map Data.name).Nodup)
    (h : Placed p.dataStore publication) :
    Places publication p (p.attemptCommit cfg env nid publication).1.1
      (p.attemptCommit cfg env nid publication).1.2 := by
  have hcommit := @commitPreparedPublication_places cfg env p publication hcfg herases
    hnodup h
  unfold attemptCommit
  split
  · exact ⟨h, .refl _ _⟩
  · split
    · rename_i hresult
      rw [hresult] at hcommit
      exact hcommit
    · rename_i p₁ publication₁ hresult
      rw [hresult] at hcommit
      rcases updateSeqNo_cases cfg env p₁ publication₁.seqNo nid with
        ⟨-, e, hupdate⟩ | ⟨core, -, hupdate⟩
      · rw [hupdate]
        exact hcommit
      · rw [hupdate]
        exact ⟨hcommit.placed, hcommit.touches⟩

/-! ### The ledger -/

/-- Every publication that a call has returned is pending, and its packets are where its marks say,
or it is committed and its packets are in the store.  Nothing else of the store has changed. -/
structure Ledger (cfg : PubSubConfig) (store₀ : DataStore) (p : Publisher) : Prop where
  filed : Filed cfg p
  lt : ∀ r ∈ p.returned, r.seqNo < 2 ^ 64
  once : ∀ r ∈ p.returned, ∀ r' ∈ p.returned, r.key = r'.key → r = r'
  named : ∀ r ∈ p.returned, WellNamed cfg r.nodePrefix r.seqNo r.packets
  vacant : ∀ r ∈ p.returned, ∀ d ∈ r.packets, store₀[d.name]? = none
  logged : ∀ publication, p.Holds publication →
    ⟨publication.nodePrefix, publication.seqNo, publication.outerPackets, true⟩ ∈ p.returned
  timed : ∀ publication, p.Holds publication → publication.bootstrapTime = cfg.core.bootstrapTime
  staged : ∀ publication ∈ p.posted, p.stagedPublicationPackets.getAt publication.nodePrefix
    publication.seqNo = some publication.outerPackets
  placed : ∀ publication, p.Holds publication → Placed p.dataStore publication
  marked : ∀ publication ∈ p.posted, publication.stored = true ∨ publication.outerPackets = []
  committed : ∀ r ∈ p.returned, p.Pending r.nodePrefix r.seqNo ∨
    (r.key ∈ p.committed ∧ p.dataStore.Has r.packets)
  apart : ∀ k ∈ p.committed, ¬p.Pending k.1 k.2
  known : ∀ k ∈ p.committed, ∃ r ∈ p.returned, r.key = k
  others : DataStore.Touches (p.returned.flatMap fun r => r.packets.map Data.name) store₀
    p.dataStore

theorem ledger_initial (store₀ : DataStore) : Ledger cfg store₀ { dataStore := store₀ } where
  filed := (lined_empty {}).toFiled.congr rfl rfl rfl rfl
  lt := by simp
  once := by simp
  named := by simp
  vacant := by simp
  logged := by simp [Holds]
  timed := by simp [Holds]
  staged := by simp
  placed := by simp [Holds]
  marked := by simp
  committed := by simp
  apart := by simp
  known := by simp
  others := .refl _ _

/-- Two publications share no name. -/
theorem Ledger.disjoint (h : Ledger cfg store₀ p) {r r' : Publication} (hr : r ∈ p.returned)
    (hr' : r' ∈ p.returned) {n : Name} (hn : n ∈ r.packets.map Data.name)
    (hn' : n ∈ r'.packets.map Data.name) : r = r' := by
  obtain ⟨d, hd, rfl⟩ := List.mem_map.mp hn
  obtain ⟨d', hd', heq⟩ := List.mem_map.mp hn'
  have hname := (h.named r hr).isName d hd
  have hname' := (h.named r' hr').isName d' hd'
  rw [heq] at hname'
  obtain ⟨hnode, hseq⟩ := hname.unique (h.lt r hr) (h.lt r' hr') hname'
  exact h.once r hr r' hr' (by rw [Publication.key, hnode, hseq]; rfl)

/-- A publication that is committed is held by nobody. -/
theorem Ledger.not_committed (h : Ledger cfg store₀ p) {publication : PreparedPublication}
    (hholds : p.Holds publication) : publication.key ∉ p.committed := fun hmem =>
  h.apart _ hmem (h.filed.pending_of_holds hholds)

/-- A step that touches the store under the names of one pending publication only, and keeps the
rest of the ledger. -/
theorem Ledger.touch (h : Ledger cfg store₀ p) (hfiled : Filed cfg p')
    {publication : PreparedPublication} (hholds : p.Holds publication)
    (htouches : DataStore.Touches (publication.outerPackets.map Data.name) p.dataStore p'.dataStore)
    (hreturned : p'.returned = p.returned)
    (hlater : ∀ other, p'.Holds other → (p.Holds other ∧ other.key ≠ publication.key) ∨
      (other.key = publication.key ∧ other.outerPackets = publication.outerPackets ∧
        other.bootstrapTime = publication.bootstrapTime ∧ Placed p'.dataStore other))
    (hposted : p'.posted = p.posted)
    (hstaged : p'.stagedPublicationPackets = p.stagedPublicationPackets)
    (hpending : ∀ nid s, p'.Pending nid s ↔ p.Pending nid s)
    (hcommitted : p'.committed = p.committed) :
    Ledger cfg store₀ p' := by
  have hlogged := h.logged publication hholds
  have hhas : ∀ r ∈ p.returned, r.key ≠ publication.key → p.dataStore.Has r.packets →
      p'.dataStore.Has r.packets := by
    intro r hr hne hhas d hd
    rw [htouches d.name fun hn => hne ?_]
    · exact hhas d hd
    · rw [h.disjoint hr hlogged (List.mem_map_of_mem hd) hn]
      rfl
  refine ⟨hfiled, hreturned ▸ h.lt, hreturned ▸ h.once, hreturned ▸ h.named, hreturned ▸ h.vacant,
    fun other hother => ?_, fun other hother => ?_, fun other hother => ?_, fun other hother => ?_,
    hposted ▸ h.marked, fun r hr => ?_, fun k hk => ?_,
    by rw [hcommitted, hreturned]; exact h.known,
    fun n hn => ?_⟩
  · rw [hreturned]
    rcases hlater other hother with ⟨hold, -⟩ | ⟨hkey, hpackets, -⟩
    · exact h.logged other hold
    · obtain ⟨hnode, hseq⟩ := Prod.mk.inj hkey
      rw [hnode, hseq, hpackets]
      exact hlogged
  · rcases hlater other hother with ⟨hold, -⟩ | ⟨-, -, htimed, -⟩
    · exact h.timed other hold
    · exact htimed.trans (h.timed publication hholds)
  · rw [hposted] at hother
    rw [hstaged]
    exact h.staged other hother
  · rcases hlater other hother with ⟨hold, hne⟩ | ⟨-, -, -, hplaced⟩
    · have hplaced := h.placed other hold
      have hother := h.logged other hold
      refine ⟨fun hstored => hhas _ hother hne (hplaced.stored hstored), fun hstored d hd => ?_⟩
      rw [htouches d.name fun hn => hne ?_]
      · exact hplaced.absent hstored d hd
      · have hsame := h.disjoint hother hlogged (List.mem_map_of_mem hd) hn
        exact congrArg Publication.key hsame
    · exact hplaced
  · rw [hreturned] at hr
    rw [hpending, hcommitted]
    refine (h.committed r hr).imp id fun hdone => ⟨hdone.1, ?_⟩
    exact hhas r hr (fun hkey => h.not_committed hholds (hkey ▸ hdone.1)) hdone.2
  · rw [hcommitted] at hk
    rw [hpending]
    exact h.apart k hk
  · rw [hreturned] at hn
    rw [htouches n fun hmem => hn (List.mem_flatMap.mpr ⟨_, hlogged, hmem⟩)]
    exact h.others n hn

/-- What is posted is not prepared. -/
theorem Filed.posted_key_ne (h : Filed cfg p) {s : SeqNo} {publication other : PreparedPublication}
    (hat : p.preparedPublications.getAt nid s = some publication) (hother : other ∈ p.posted) :
    other.key ≠ publication.key := by
  intro heq
  rw [h.keyed nid s publication hat] at heq
  have hstaged := (h.staged nid s).mpr (heq ▸ List.mem_map_of_mem hother)
  rw [h.unstaged hat] at hstaged
  cases hstaged

theorem Filed.prepared_key_ne (h : Filed cfg p) {nid' : NodeID} {s s' : SeqNo}
    {publication other : PreparedPublication}
    (hat : p.preparedPublications.getAt nid s = some publication)
    (hother : p.preparedPublications.getAt nid' s' = some other) (hne : ¬(nid = nid' ∧ s = s')) :
    other.key ≠ publication.key := by
  intro heq
  rw [h.keyed nid s publication hat, h.keyed nid' s' other hother] at heq
  obtain ⟨rfl, rfl⟩ := Prod.mk.inj heq
  exact hne ⟨rfl, rfl⟩

/-- A failed attempt puts its publication back, with its packets where its mark says. -/
theorem Ledger.requeue (h : Ledger cfg store₀ p) {publication publication' : PreparedPublication}
    {p₀ : Publisher} (htake : p.takeHead nid = some (publication, p₀))
    (htries : Tries cfg p₀ publication p' publication')
    (hplaces : Places publication p₀ p' publication') :
    Ledger cfg store₀ (p'.requeueFailedPublication nid publication') := by
  have hfiled := h.filed.requeue htake htries
  have hpending := h.filed.pending_requeue htake htries
  have hholds := holds_head htake
  obtain ⟨next, -, hat, -, rfl⟩ := takeHead_eq_some.mp htake
  obtain rfl : publication'.seqNo = next :=
    htries.seqNo.trans (congrArg Prod.snd (h.filed.keyed nid next publication hat))
  have hkey : publication'.key = publication.key := by
    rw [PreparedPublication.key, htries.nodePrefix, htries.seqNo]
    rfl
  have hpackets := htries.outerPackets
  have htimed := htries.bootstrapTime
  obtain ⟨hplaced, htouches⟩ := hplaces
  obtain ⟨dataStore, mappings, extra, rfl⟩ := htries.exists_state
  refine h.touch hfiled hholds htouches rfl (fun other hother => ?_) rfl rfl hpending rfl
  rcases hother with hmem | ⟨nid', s, hfound⟩
  · exact .inl ⟨.inl hmem, h.filed.posted_key_ne hat hmem⟩
  · simp only [requeueFailedPublication, Map.getAt_insertAt, Map.getAt_eraseAt] at hfound
    split at hfound
    · obtain rfl := Option.some.inj hfound
      exact .inr ⟨hkey, hpackets, htimed, hplaced.stored, hplaced.absent⟩
    · rename_i hne
      exact .inl ⟨.inr ⟨nid', s, hfound⟩, h.filed.prepared_key_ne hat hfound hne⟩

/-- A publication that gets through is no longer pending, and its packets stay. -/
theorem Ledger.advance (h : Ledger cfg store₀ p) {publication publication' : PreparedPublication}
    {p₀ : Publisher} (htake : p.takeHead nid = some (publication, p₀))
    (htries : Tries cfg p₀ publication p' publication')
    (htouches : DataStore.Touches (publication.outerPackets.map Data.name) p₀.dataStore
      p'.dataStore) (hhas : p'.dataStore.Has publication.outerPackets) (core : SVSyncCore) :
    Ledger cfg store₀ (({ p' with core, committed := p'.committed ++ [(nid, publication.seqNo)] } :
      Publisher).advanceHead nid publication'.seqNo) := by
  have hfiled := h.filed.advance htake htries core
  have hpending := h.filed.pending_advance htake htries core
  have hholds := holds_head htake
  have hlogged := h.logged publication hholds
  have hkept := fun other => @holds_of_takeHead p nid publication other p₀ htake
  obtain ⟨next, hnext, hat, -, rfl⟩ := takeHead_eq_some.mp htake
  have hkey := h.filed.keyed nid next publication hat
  obtain ⟨hnode, hseq⟩ := Prod.mk.inj hkey
  have hseq' : publication'.seqNo = next := htries.seqNo.trans hseq
  obtain ⟨dataStore, mappings, extra, rfl⟩ := htries.exists_state
  rw [hseq', hseq, advanceHead, if_pos hnext] at hfiled hpending ⊢
  have hothers : ∀ r ∈ p.returned, r.key ≠ publication.key → p.dataStore.Has r.packets →
      dataStore.Has r.packets := by
    intro r hr hne hhas d hd
    rw [htouches d.name fun hn => hne ?_]
    · exact hhas d hd
    · rw [h.disjoint hr hlogged (List.mem_map_of_mem hd) hn]
      rfl
  refine ⟨hfiled, h.lt, h.once, h.named, h.vacant,
    fun other hother => h.logged other (hkept other hother),
    fun other hother => h.timed other (hkept other hother), h.staged, fun other hother => ?_,
    h.marked, fun r hr => ?_, fun k hk => ?_, fun k hk => ?_, fun n hn => ?_⟩
  · have hne : other.key ≠ publication.key := by
      rcases hother with hmem | ⟨nid', s, hfound⟩
      · exact h.filed.posted_key_ne hat hmem
      · simp only [Map.getAt_eraseAt] at hfound
        split at hfound
        · cases hfound
        · rename_i hne
          exact h.filed.prepared_key_ne hat hfound hne
    have hplaced := h.placed other (hkept other hother)
    have hmem := h.logged other (hkept other hother)
    refine ⟨fun hstored => hothers _ hmem hne (hplaced.stored hstored), fun hstored d hd => ?_⟩
    refine (htouches d.name fun hn => hne ?_).trans (hplaced.absent hstored d hd)
    exact congrArg Publication.key (h.disjoint hmem hlogged (List.mem_map_of_mem hd) hn)
  · rw [hpending]
    by_cases hsame : r.key = publication.key
    · obtain rfl := h.once r hr _ hlogged hsame
      exact .inr ⟨List.mem_append_right _ (by rw [hsame, hkey]; exact List.mem_singleton_self _),
        hhas⟩
    · rcases h.committed r hr with hold | ⟨hdone, hold⟩
      · refine .inl ⟨hold, fun heq => hsame ?_⟩
        rw [hkey, Publication.key, heq.1, heq.2]
      · exact .inr ⟨List.mem_append_left _ hdone, hothers r hr hsame hold⟩
  · rw [hpending]
    rcases List.mem_append.mp hk with hk | hk
    · exact fun hpend => h.apart k hk hpend.1
    · obtain rfl := List.mem_singleton.mp hk
      exact fun hpend => hpend.2 ⟨rfl, rfl⟩
  · rcases List.mem_append.mp hk with hk | hk
    · exact h.known k hk
    · obtain rfl := List.mem_singleton.mp hk
      exact ⟨_, hlogged, hkey⟩
  · refine (htouches n fun hmem => hn ?_).trans (h.others n hn)
    exact List.mem_flatMap.mpr ⟨_, hlogged, hmem⟩

theorem Ledger.commitReady (h : Ledger cfg store₀ p) (hcfg : cfg.supportsErase)
    {attempts : Nat → PublishInputs} (hattempts : ∀ i, (attempts i).eraseThrowsAt = none)
    (nid : NodeID) : Ledger cfg store₀ (p.commitReadyPreparedPublications cfg attempts nid) := by
  have hplaces : ∀ (env : PublishInputs) (q q₀ : Publisher) (publication : PreparedPublication),
      env.eraseThrowsAt = none → Ledger cfg store₀ q →
      q.takeHead nid = some (publication, q₀) →
      Places publication q₀ (q₀.attemptCommit cfg env nid publication).1.1
        (q₀.attemptCommit cfg env nid publication).1.2 := by
    intro env q q₀ publication herases hq htake
    have hholds := holds_head htake
    have hnodup := (hq.named _ (hq.logged publication hholds)).nodup
    have hplaced := hq.placed publication hholds
    obtain ⟨next, -, -, -, rfl⟩ := takeHead_eq_some.mp htake
    exact attemptCommit_places hcfg herases hnodup hplaced
  refine commitLoop_invariant (P := Ledger cfg store₀) (E := fun env => env.eraseThrowsAt = none)
    ?_ ?_ _ hattempts h
  · intro env q publication q₀ q' publication' e herases hq htake hattempt
    have hplaced := hplaces env q q₀ publication herases hq htake
    rw [hattempt] at hplaced
    exact hq.requeue htake (attemptCommit_error hattempt) hplaced
  · intro env q publication q₀ q' publication' herases hq htake hattempt
    have hplaced := hplaces env q q₀ publication herases hq htake
    rw [hattempt] at hplaced
    obtain ⟨q₁, core, rfl, htries, -, havailable⟩ := attemptCommit_ok hattempt
    have hholds := holds_head htake
    have hlogged := hq.logged publication hholds
    have hheld : Held q₀.dataStore publication := by
      obtain ⟨next, -, -, -, rfl⟩ := takeHead_eq_some.mp htake
      exact (hq.placed publication hholds).stored
    exact hq.advance htake htries hplaced.touches
      (havailable (hq.timed publication hholds) (hq.named _ hlogged) hheld).packets core

/-! ### Callbacks and calls -/

theorem Ledger.unstage (h : Ledger cfg store₀ p) {index : Nat} {publication : PreparedPublication}
    (hindex : p.posted[index]? = some publication) : Ledger cfg store₀
      (({ p with posted := p.posted.eraseIdx index } : Publisher).unstage publication) := by
  have hpending := h.filed.pending_unstage hindex
  have hmem := List.mem_of_getElem? hindex
  have hholds : ∀ other,
      (({ p with posted := p.posted.eraseIdx index } : Publisher).unstage publication).Holds other →
        p.Holds other := by
    rintro other (hother | ⟨nid, s, hother⟩)
    · exact .inl (List.mem_of_mem_eraseIdx hother)
    · simp only [Publisher.unstage, Map.getAt_insertAt] at hother
      split at hother
      · obtain rfl := Option.some.inj hother
        exact .inl hmem
      · exact .inr ⟨nid, s, hother⟩
  have hkeys : (p.posted.map PreparedPublication.key)[index]? = some publication.key := by
    rw [List.getElem?_map, hindex, Option.map_some]
  refine ⟨h.filed.unstage hindex, h.lt, h.once, h.named, h.vacant,
    fun other hother => h.logged other (hholds other hother),
    fun other hother => h.timed other (hholds other hother), fun other hother => ?_,
    fun other hother => h.placed other (hholds other hother),
    fun other hother => h.marked other (List.mem_of_mem_eraseIdx hother), fun r hr => ?_,
    fun k hk => ?_, h.known, h.others⟩
  · have hne : other.key ≠ publication.key := by
      intro heq
      have hgone := not_mem_eraseIdx h.filed.posted_nodup hkeys
      rw [List.eraseIdx_map, ← heq] at hgone
      exact hgone (List.mem_map_of_mem hother)
    simp only [Publisher.unstage, Map.getAt_eraseAt]
    rw [if_neg fun hsame => hne (by
      rw [PreparedPublication.key, PreparedPublication.key, hsame.1, hsame.2])]
    exact h.staged other (List.mem_of_mem_eraseIdx hother)
  · rw [hpending]
    exact h.committed r hr
  · rw [hpending]
    exact h.apart k hk

theorem Ledger.clearRetry (h : Ledger cfg store₀ p) {index : Nat} {s : SeqNo}
    {publication : PreparedPublication} (hindex : p.retries[index]? = some (nid, s))
    (hat : p.preparedPublications.getAt nid s = some publication) : Ledger cfg store₀
      (({ p with retries := p.retries.eraseIdx index } : Publisher).clearRetry nid s
        publication) := by
  have hpending := @pending_clearRetry p nid index s publication hat
  have hplaced := h.placed publication (.inr ⟨nid, s, hat⟩)
  refine h.touch (h.filed.clearRetry hindex hat) (.inr ⟨nid, s, hat⟩) (.refl _ _) rfl
    (fun other hother => ?_) rfl rfl hpending rfl
  rcases hother with hmem | ⟨nid', s', hfound⟩
  · exact .inl ⟨.inl hmem, h.filed.posted_key_ne hat hmem⟩
  · simp only [Publisher.clearRetry, Map.getAt_insertAt] at hfound
    split at hfound
    · obtain rfl := Option.some.inj hfound
      exact .inr ⟨rfl, rfl, rfl, hplaced.stored, hplaced.absent⟩
    · rename_i hne
      exact .inl ⟨.inr ⟨nid', s', hfound⟩, h.filed.prepared_key_ne hat hfound hne⟩

/-- Packets under a new data name are not in the store. -/
theorem Ledger.new_absent (h : Ledger cfg store₀ p) (hnew : NewName cfg store₀ p nid)
    {packets : List Data} (hnamed : WellNamed cfg nid (p.nextSeqNo cfg nid) packets) :
    (∀ d ∈ packets, store₀[d.name]? = none) ∧ (∀ d ∈ packets, p.dataStore[d.name]? = none) ∧
      ∀ r ∈ p.returned, ∀ n ∈ packets.map Data.name, n ∉ r.packets.map Data.name := by
  have hlt : p.nextSeqNo cfg nid < 2 ^ 64 := Nat.mod_lt _ (by decide)
  have hvacant : ∀ d ∈ packets, store₀[d.name]? = none :=
    fun d hd => hnew.2 _ (hnamed.isName d hd)
  have hforeign : ∀ r ∈ p.returned, ∀ n ∈ packets.map Data.name, n ∉ r.packets.map Data.name := by
    intro r hr n hn hn'
    obtain ⟨d, hd, rfl⟩ := List.mem_map.mp hn
    obtain ⟨d', hd', heq⟩ := List.mem_map.mp hn'
    have hname := (h.named r hr).isName d' hd'
    rw [heq] at hname
    obtain ⟨hnode, hseq⟩ := hname.unique (h.lt r hr) hlt (hnamed.isName d hd)
    exact hnew.1 r hr (by rw [hnode, hseq])
  refine ⟨hvacant, fun d hd => ?_, hforeign⟩
  rw [h.others d.name fun hmem => ?_]
  · exact hvacant d hd
  · obtain ⟨r, hr, hn⟩ := List.mem_flatMap.mp hmem
    exact hforeign r hr _ (List.mem_map_of_mem hd) hn

/-- A call that throws leaves the store as it was. -/
theorem Ledger.congr (h : Ledger cfg store₀ p) (hposted : p'.posted = p.posted)
    (hstaged : p'.stagedPublicationPackets = p.stagedPublicationPackets)
    (hprepared : p'.preparedPublications = p.preparedPublications)
    (hretries : p'.retries = p.retries) (hstore : p'.dataStore = p.dataStore)
    (hreturned : p'.returned = p.returned) (hcommitted : p'.committed = p.committed) :
    Ledger cfg store₀ p' where
  filed := h.filed.congr hstaged hprepared hposted hretries
  lt := hreturned ▸ h.lt
  once := hreturned ▸ h.once
  named := hreturned ▸ h.named
  vacant := hreturned ▸ h.vacant
  logged := by simpa only [Holds, hposted, hprepared, hreturned] using h.logged
  timed := by simpa only [Holds, hposted, hprepared] using h.timed
  staged := by simpa only [hposted, hstaged] using h.staged
  placed := by simpa only [Holds, hposted, hprepared, hstore] using h.placed
  marked := hposted ▸ h.marked
  committed := by
    simpa only [Pending, hstaged, hprepared, hcommitted, hreturned, hstore] using h.committed
  apart := by simpa only [Pending, hstaged, hprepared, hcommitted] using h.apart
  known := by
    rw [hcommitted, hreturned]
    exact h.known
  others := by
    rw [hreturned, hstore]
    exact h.others

/-- A publication under a new name is staged, with its packets in the store. -/
theorem Ledger.stage (h : Ledger cfg store₀ p) {s : SeqNo} (hlt : s < 2 ^ 64)
    {prepared : PreparedPublication} {dataStore : DataStore}
    (hstages : Stages cfg nid s dataStore prepared)
    (hmarked : prepared.stored = true ∨ prepared.outerPackets = [])
    (hkeys : ∀ r ∈ p.returned, r.key ≠ (nid, s))
    (hvacant : ∀ d ∈ prepared.outerPackets, store₀[d.name]? = none)
    (hforeign : ∀ r ∈ p.returned, ∀ n ∈ prepared.outerPackets.map Data.name,
      n ∉ r.packets.map Data.name)
    (htouches : DataStore.Touches (prepared.outerPackets.map Data.name) p.dataStore dataStore) :
    Ledger cfg store₀ ((Publisher.stage nid s prepared { p with dataStore }).return_ nid s
      prepared.outerPackets true) := by
  have hunheld : ∀ publication, p.Holds publication → publication.key ≠ (nid, s) :=
    fun publication hholds => hkeys _ (h.logged publication hholds)
  have hunpending : ¬p.Pending nid s := by
    rintro (hpend | hpend)
    · obtain ⟨publication, hmem, hkey⟩ := List.mem_map.mp ((h.filed.staged nid s).mp hpend)
      exact hunheld publication (.inl hmem) hkey
    · obtain ⟨publication, hat⟩ := Option.isSome_iff_exists.mp hpend
      exact hunheld publication (.inr ⟨nid, s, hat⟩) (h.filed.keyed nid s publication hat)
  have hhas : ∀ r ∈ p.returned, p.dataStore.Has r.packets → dataStore.Has r.packets := by
    intro r hr hhas d hd
    rw [htouches d.name fun hn => hforeign r hr _ hn (List.mem_map_of_mem hd)]
    exact hhas d hd
  have hpending := pending_stage { p with dataStore } nid s prepared
  have hsame : Filed cfg { p with dataStore } := h.filed.congr rfl rfl rfl rfl
  have hnode := hstages.nodePrefix
  have hseq := hstages.seqNo
  have hcases : ∀ other, ((Publisher.stage nid s prepared { p with dataStore }).return_ nid s
      prepared.outerPackets true).Holds other → p.Holds other ∨ other = prepared := by
    rintro other (hmem | hat)
    · rcases List.mem_append.mp hmem with hmem | hmem
      · exact .inl (.inl hmem)
      · exact .inr (List.mem_singleton.mp hmem)
    · exact .inl (.inr hat)
  have hplaced : Placed dataStore prepared := by
    refine ⟨fun _ => hstages.has, fun hstored d hd => ?_⟩
    rcases hmarked with hmarked | hnil
    · rw [hmarked] at hstored
      cases hstored
    · rw [hnil] at hd
      cases hd
  have hlog : ∀ r, r ∈ p.returned ++ [⟨nid, s, prepared.outerPackets, true⟩] →
      r ∈ p.returned ∨ r = ⟨nid, s, prepared.outerPackets, true⟩ := by
    intro r hr
    exact (List.mem_append.mp hr).imp id List.mem_singleton.mp
  constructor
  case filed => exact hsame.stage hstages hunpending
  case lt =>
    intro r hr
    rcases hlog r hr with hr | rfl
    · exact h.lt r hr
    · exact hlt
  case once =>
    intro r hr r' hr' hkey
    rcases hlog r hr with hr | rfl <;> rcases hlog r' hr' with hr' | rfl
    · exact h.once r hr r' hr' hkey
    · exact absurd hkey (hkeys r hr)
    · exact absurd hkey.symm (hkeys r' hr')
    · rfl
  case named =>
    intro r hr
    rcases hlog r hr with hr | rfl
    · exact h.named r hr
    · exact hstages.wellNamed
  case vacant =>
    intro r hr
    rcases hlog r hr with hr | rfl
    · exact h.vacant r hr
    · exact hvacant
  case logged =>
    intro other hother
    rcases hcases other hother with hother | rfl
    · exact List.mem_append_left _ (h.logged other hother)
    · rw [hnode, hseq]
      exact List.mem_append_right _ (List.mem_singleton_self _)
  case timed =>
    intro other hother
    rcases hcases other hother with hother | rfl
    · exact h.timed other hother
    · exact hstages.bootstrapTime
  case staged =>
    intro other hother
    change (p.stagedPublicationPackets.insertAt nid s prepared.outerPackets).getAt _ _ = _
    rw [Map.getAt_insertAt]
    rcases List.mem_append.mp hother with hother | hother
    · rw [if_neg fun heq => hunheld other (.inl hother) (by
        rw [PreparedPublication.key, ← heq.1, ← heq.2])]
      exact h.staged other hother
    · obtain rfl := List.mem_singleton.mp hother
      rw [if_pos ⟨hnode.symm, hseq.symm⟩]
  case placed =>
    intro other hother
    rcases hcases other hother with hother | rfl
    · have hold := h.placed other hother
      have hmem := h.logged other hother
      refine ⟨fun hstored => hhas _ hmem (hold.stored hstored), fun hstored d hd => ?_⟩
      refine (htouches d.name fun hn => ?_).trans (hold.absent hstored d hd)
      exact hforeign _ hmem _ hn (List.mem_map_of_mem hd)
    · exact hplaced
  case marked =>
    intro other hother
    rcases List.mem_append.mp hother with hother | hother
    · exact h.marked other hother
    · obtain rfl := List.mem_singleton.mp hother
      exact hmarked
  case committed =>
    intro r hr
    rcases hlog r hr with hr | rfl
    · refine (h.committed r hr).imp (fun hpend => ?_) fun hdone => ⟨hdone.1, hhas r hr hdone.2⟩
      exact (hpending _ _).mpr (.inr hpend)
    · exact .inl ((hpending nid s).mpr (.inl ⟨rfl, rfl⟩))
  case apart =>
    intro k hk hpend
    rcases (hpending k.1 k.2).mp hpend with ⟨rfl, rfl⟩ | hpend
    · obtain ⟨r, hr, hkey⟩ := h.known k hk
      exact hkeys r hr hkey
    · exact h.apart k hk hpend
  case known =>
    intro k hk
    obtain ⟨r, hr, hkey⟩ := h.known k hk
    exact ⟨r, List.mem_append_left _ hr, hkey⟩
  case others =>
    intro n hn
    have hsplit : n ∉ p.returned.flatMap (fun r => r.packets.map Data.name) ∧
        n ∉ prepared.outerPackets.map Data.name := by
      constructor
      · intro hmem
        obtain ⟨r, hr, hname⟩ := List.mem_flatMap.mp hmem
        exact hn (List.mem_flatMap.mpr ⟨r, List.mem_append_left _ hr, hname⟩)
      · intro hmem
        exact hn (List.mem_flatMap.mpr ⟨_, List.mem_append_right _ (List.mem_singleton_self _),
          hmem⟩)
    exact (htouches n hsplit.2).trans (h.others n hsplit.1)

theorem prepareAndStage_ok {kind : AsyncPublication.Kind} {name nodePrefix : Name}
    {freshnessPeriod : Int} {mappingBlocks : List Block}
    (h : p.prepareAndStageAsyncPublication cfg env kind name nodePrefix freshnessPeriod
      mappingBlocks = (p', .ok ())) :
    let nid := nodeOf cfg nodePrefix
    ∃ prepared dataStore, prepare cfg env.core (p.requested cfg kind name nodePrefix
        freshnessPeriod mappingBlocks) = .ok prepared ∧
      p.dataStore.insertPreparedDataBatch cfg env prepared.outerPackets = (dataStore, .ok ()) ∧
      p' = (stage nid (p.nextSeqNo cfg nid)
        { prepared with stored := prepared.outerPackets ≠ [] }
        { p.reserve nid (p.lastSeqNo cfg nid) with dataStore }).return_ nid (p.nextSeqNo cfg nid)
          prepared.outerPackets true := by
  intro nid
  simp only [prepareAndStageAsyncPublication] at h
  split at h
  · cases (Prod.mk.inj h).2
  · rename_i prepared hprepare
    split at h
    · cases (Prod.mk.inj h).2
    · rename_i dataStore hbatch
      exact ⟨prepared, dataStore, hprepare, hbatch, (Prod.mk.inj h).1.symm⟩

/-- A call stages its publication, whose packets are in the store, or it leaves the store alone. -/
theorem Ledger.prepareAndStage (h : Ledger cfg store₀ p) (herases : env.eraseThrowsAt = none)
    {kind : AsyncPublication.Kind} {name nodePrefix : Name} {freshnessPeriod : Int}
    {mappingBlocks : List Block} (hnew : NewName cfg store₀ p (nodeOf cfg nodePrefix)) :
    Ledger cfg store₀ (p.prepareAndStageAsyncPublication cfg env kind name nodePrefix
      freshnessPeriod mappingBlocks).1 := by
  have hlt : p.nextSeqNo cfg (nodeOf cfg nodePrefix) < 2 ^ 64 := Nat.mod_lt _ (by decide)
  cases hcall : p.prepareAndStageAsyncPublication cfg env kind name nodePrefix freshnessPeriod
    mappingBlocks with
  | mk p' result =>
    cases result with
    | error e =>
      rcases prepareAndStage_error hcall with
        ⟨-, rfl⟩ | ⟨prepared, dataStore, hprepare, hbatch, rfl⟩
      · exact h.congr rfl rfl rfl rfl rfl rfl rfl
      · have hnamed := (prepare_prepares hprepare).wellNamed rfl
        have habsent := (h.new_absent hnew hnamed).2.1
        obtain rfl := DataStore.insertPreparedDataBatch_restores hbatch
          (.inr (DataStore.rollsBack_of_erases herases)) habsent
        exact h.congr rfl rfl rfl rfl rfl rfl rfl
    | ok _ =>
      obtain ⟨prepared, dataStore, hprepare, hbatch, rfl⟩ := prepareAndStage_ok hcall
      have hprepares := prepare_prepares hprepare
      have hnamed := hprepares.wellNamed rfl
      simp only [requested] at hnamed
      obtain ⟨hvacant, habsent, hforeign⟩ := h.new_absent hnew hnamed
      have hinsertable := (DataStore.insertPreparedDataBatch_ok (congrArg Prod.snd hbatch)).1
      rcases @DataStore.insertPreparedDataBatch_cases cfg _ _ _ herases hnamed.nodup habsent with
        ⟨e, hfailed⟩ | ⟨store', hdone, hhas, htouches⟩
      · rw [hbatch] at hfailed
        cases (Prod.mk.inj hfailed).2
      · obtain rfl : dataStore = store' := (Prod.mk.inj (hbatch.symm.trans hdone)).1
        have hkeys : ∀ r ∈ p.returned,
            r.key ≠ (nodeOf cfg nodePrefix, p.nextSeqNo cfg (nodeOf cfg nodePrefix)) := by
          intro r hr heq
          obtain ⟨hnode, hseq⟩ := Prod.mk.inj heq
          exact hnew.1 r hr (by rw [hnode, hseq])
        have hstages : Stages cfg (nodeOf cfg nodePrefix) (p.nextSeqNo cfg (nodeOf cfg nodePrefix))
            dataStore { prepared with stored := prepared.outerPackets ≠ [] } :=
          ⟨hprepares.seqNo, hprepares.nodePrefix, hprepares.bootstrapTime, hprepares.ok,
            hprepares.retryScheduled, hnamed, hinsertable, hhas⟩
        have hmarked : decide (prepared.outerPackets ≠ []) = true ∨ prepared.outerPackets = [] := by
          by_cases hnil : prepared.outerPackets = [] <;> simp [hnil]
        have hreserved : Ledger cfg store₀ (p.reserve (nodeOf cfg nodePrefix)
            (p.lastSeqNo cfg (nodeOf cfg nodePrefix))) :=
          h.congr rfl rfl rfl rfl rfl rfl rfl
        exact hreserved.stage hlt hstages hmarked hkeys hvacant hforeign htouches

theorem Ledger.step (hcfg : cfg.supportsErase) (h : Ledger cfg store₀ p) {o : Occurrence}
    (hplain : Plain cfg store₀ p o) (hstep : Publisher.step cfg p o = some p') :
    Ledger cfg store₀ p' := by
  obtain ⟨hasync, hnew, herases⟩ := hplain
  obtain ⟨event, inputs⟩ := o
  cases event with
  | publishBytesAsync name value nodePrefix freshnessPeriod mappingBlocks =>
    obtain rfl := Option.some.inj hstep
    exact h.prepareAndStage (herases 0) (hnew _ rfl)
  | publishNameAsync name nodePrefix freshnessPeriod mappingBlocks =>
    obtain rfl := Option.some.inj hstep
    exact h.prepareAndStage (herases 0) (hnew _ rfl)
  | publishPacketAsync data nodePrefix mappingBlocks =>
    obtain rfl := Option.some.inj hstep
    exact h.prepareAndStage (herases 0) (hnew _ rfl)
  | preparedPublication index =>
    obtain ⟨publication, hindex, rfl⟩ := (Publisher.step_preparedPublication rfl).mp hstep
    exact (h.unstage hindex).commitReady hcfg herases _
  | retry index =>
    obtain ⟨nid, s, hindex, rfl⟩ := (Publisher.step_retry rfl).mp hstep
    unfold onRetry
    split
    · rename_i hat
      exact { h with filed := h.filed.dropRetry hindex hat }
    · rename_i publication hat
      exact (h.clearRetry hindex hat).commitReady hcfg herases _
  | publishBytes | publishName | publishPacket | extraBlocks | core => cases hasync

/-! ### The destructor -/

theorem mem_unadvertised {packets : List Data} : packets ∈ p.unadvertised ↔
    (∃ nid s, p.stagedPublicationPackets.getAt nid s = some packets) ∨
      ∃ nid s publication, p.preparedPublications.getAt nid s = some publication ∧
        publication.stored = true ∧ publication.outerPackets = packets := by
  have hat : ∀ {α : Type} (m : Map NodeID (Map SeqNo α)) (nid : NodeID) (s : SeqNo) (a : α),
      m.getAt nid s = some a ↔ ∃ inner, (nid, inner) ∈ m.toList ∧ (s, a) ∈ inner.toList := by
    intro α m nid s a
    simp only [Map.getAt, Option.bind_eq_some_iff, Map.mem_toList]
  simp only [unadvertised, List.mem_append, List.mem_flatMap, List.mem_map, List.mem_filter]
  refine or_congr ?_ ?_
  · constructor
    · rintro ⟨⟨nid, inner⟩, hnode, ⟨s, found⟩, hfound, rfl⟩
      exact ⟨nid, s, (hat _ _ _ _).mpr ⟨inner, hnode, hfound⟩⟩
    · rintro ⟨nid, s, hfound⟩
      obtain ⟨inner, hnode, hfound⟩ := (hat _ _ _ _).mp hfound
      exact ⟨(nid, inner), hnode, (s, packets), hfound, rfl⟩
  · constructor
    · rintro ⟨⟨nid, inner⟩, hnode, ⟨s, publication⟩, ⟨hfound, hstored⟩, rfl⟩
      exact ⟨nid, s, publication, (hat _ _ _ _).mpr ⟨inner, hnode, hfound⟩, hstored, rfl⟩
    · rintro ⟨nid, s, publication, hfound, hstored, rfl⟩
      obtain ⟨inner, hnode, hfound⟩ := (hat _ _ _ _).mp hfound
      exact ⟨(nid, inner), hnode, (s, publication), ⟨hfound, hstored⟩, rfl⟩

/-- What the destructor takes out of the store are the packets of a pending publication. -/
theorem Ledger.unadvertised_pending (h : Ledger cfg store₀ p) {packets : List Data}
    (hpackets : packets ∈ p.unadvertised) :
    ∃ r ∈ p.returned, r.packets = packets ∧ r.key ∉ p.committed := by
  have hheld : ∀ publication, p.Holds publication →
      ∃ r ∈ p.returned, r.packets = publication.outerPackets ∧ r.key ∉ p.committed :=
    fun publication hholds => ⟨_, h.logged publication hholds, rfl, h.not_committed hholds⟩
  rcases mem_unadvertised.mp hpackets with ⟨nid, s, hat⟩ | ⟨nid, s, publication, hat, -, rfl⟩
  · obtain ⟨publication, hmem, hkey⟩ := List.mem_map.mp
      ((h.filed.staged nid s).mp (by rw [hat]; rfl))
    obtain ⟨rfl, rfl⟩ := Prod.mk.inj hkey
    have hsame := h.staged publication hmem
    rw [hat] at hsame
    obtain rfl := Option.some.inj hsame
    exact hheld publication (.inl hmem)
  · exact hheld publication (.inr ⟨nid, s, hat⟩)

/-- The packets of a pending publication are among them, or they are not in the store. -/
theorem Ledger.pending_unadvertised (h : Ledger cfg store₀ p) {r : Publication}
    (hr : r ∈ p.returned) (hpending : p.Pending r.nodePrefix r.seqNo) :
    r.packets ∈ p.unadvertised ∨ ∀ d ∈ r.packets, p.dataStore[d.name]? = none := by
  have hlogged : ∀ publication, p.Holds publication → publication.key = r.key →
      publication.outerPackets = r.packets := fun publication hholds hkey => by
    rw [← h.once _ (h.logged publication hholds) r hr hkey]
  rcases hpending with hstaged | hprepared
  · obtain ⟨publication, hmem, hkey⟩ := List.mem_map.mp ((h.filed.staged _ _).mp hstaged)
    rw [← hlogged publication (.inl hmem) hkey]
    exact .inl (mem_unadvertised.mpr (.inl ⟨_, _, h.staged publication hmem⟩))
  · obtain ⟨publication, hat⟩ := Option.isSome_iff_exists.mp hprepared
    have hholds : p.Holds publication := .inr ⟨_, _, hat⟩
    rw [← hlogged publication hholds (h.filed.keyed _ _ publication hat)]
    cases hstored : publication.stored with
    | true => exact .inl (mem_unadvertised.mpr (.inr ⟨_, _, publication, hat, hstored, rfl⟩))
    | false => exact .inr ((h.placed publication hholds).absent hstored)

/-- After the destructor the store has what it had at first and the packets of the publications
that were committed, and nothing else. -/
theorem shutdown_reclaims {es : List Occurrence} (hcfg : cfg.supportsErase)
    (hes : Along (Publisher.step cfg) (Plain cfg store₀) { dataStore := store₀ } es)
    (hrun : run (Publisher.step cfg) { dataStore := store₀ } es = some p) (n : Name) (d : Data) :
    (p.destructor cfg).dataStore[n]? = some d ↔
      store₀[n]? = some d ∨
        ∃ r ∈ p.returned, r.key ∈ p.committed ∧ d ∈ r.packets ∧ d.name = n := by
  have h : Ledger cfg store₀ p := run_invariant_along (P := Ledger cfg store₀)
    (fun _ _ _ hstep hplain h => h.step hcfg hplain hstep) (ledger_initial store₀) hes hrun
  have herased := @DataStore.foldl_remove_get cfg p.dataStore hcfg p.unadvertised n
  change (p.unadvertised.foldl _ p.dataStore)[n]? = some d ↔ _
  rw [herased]
  by_cases hname : n ∈ p.returned.flatMap fun r => r.packets.map Data.name
  · obtain ⟨r, hr, hn⟩ := List.mem_flatMap.mp hname
    obtain ⟨d₀, hd₀, hname₀⟩ := List.mem_map.mp hn
    have hempty : store₀[n]? = none := hname₀ ▸ h.vacant r hr d₀ hd₀
    have howner : ∀ r' ∈ p.returned, n ∈ r'.packets.map Data.name → r' = r :=
      fun r' hr' hn' => h.disjoint hr' hr hn' hn
    rw [hempty]
    by_cases hdone : r.key ∈ p.committed
    · have hhas := (h.committed r hr).resolve_left (h.apart _ hdone)
      have hkept : ¬∃ packets ∈ p.unadvertised, n ∈ packets.map Data.name := by
        rintro ⟨packets, hpackets, hn'⟩
        obtain ⟨r', hr', rfl, hopen⟩ := h.unadvertised_pending hpackets
        rw [howner r' hr' hn'] at hopen
        exact hopen hdone
      have hstored : p.dataStore[n]? = some d₀ := hname₀ ▸ hhas.2 d₀ hd₀
      rw [if_neg hkept, hstored]
      constructor
      · intro hd
        obtain rfl := Option.some.inj hd
        exact .inr ⟨r, hr, hdone, hd₀, hname₀⟩
      · rintro (hd | ⟨r', hr', -, hd, hdn⟩)
        · cases hd
        · obtain rfl := howner r' hr' (hdn ▸ List.mem_map_of_mem hd)
          rw [← hhas.2 d hd, hdn, hstored]
    · have hgone : (if ∃ packets ∈ p.unadvertised, n ∈ packets.map Data.name then none
          else p.dataStore[n]?) = none := by
        have hpending := (h.committed r hr).resolve_right fun hr => hdone hr.1
        rcases h.pending_unadvertised hr hpending with hmem | habsent
        · exact if_pos ⟨r.packets, hmem, hn⟩
        · rw [← hname₀, habsent d₀ hd₀, ite_self]
      rw [hgone]
      constructor
      · intro hd
        cases hd
      · rintro (hd | ⟨r', hr', hdone', hd, hdn⟩)
        · cases hd
        · obtain rfl := howner r' hr' (hdn ▸ List.mem_map_of_mem hd)
          exact absurd hdone' hdone
  · have hkept : ¬∃ packets ∈ p.unadvertised, n ∈ packets.map Data.name := by
      rintro ⟨packets, hpackets, hn⟩
      obtain ⟨r, hr, rfl, -⟩ := h.unadvertised_pending hpackets
      exact hname (List.mem_flatMap.mpr ⟨r, hr, hn⟩)
    rw [if_neg hkept, h.others n hname]
    constructor
    · exact .inl
    · rintro (hd | ⟨r, hr, -, hd, hdn⟩)
      · exact hd
      · exact absurd (List.mem_flatMap.mpr ⟨r, hr, hdn ▸ List.mem_map_of_mem hd⟩) hname

/-- Two publications of bytes, of which the second cannot be committed. -/
def halfCommittedRun : List Occurrence :=
  [⟨.publishBytesAsync (Name.ofStrings ["x"]) sampleSpan [] 0 [], sampleInputs⟩,
    ⟨.publishBytesAsync (Name.ofStrings ["y"]) sampleSpan [] 0 [], sampleInputs⟩,
    ⟨.preparedPublication 0, sampleInputs⟩,
    ⟨.preparedPublication 0, fun i => { sampleInputs i with hookThrows := true }⟩]

theorem shutdown_reclaims_half :
    let p := (run (Publisher.step sampleConfig) { dataStore := ∅ } halfCommittedRun).get
      (by decide +kernel)
    p.dataStore.size = 2 ∧ (p.destructor sampleConfig).dataStore.size = 1 ∧
      ∀ (n : Name) (d : Data), (p.destructor sampleConfig).dataStore[n]? = some d ↔
        (∅ : DataStore)[n]? = some d ∨
          ∃ r ∈ p.returned, r.key ∈ p.committed ∧ d ∈ r.packets ∧ d.name = n := by
  intro p
  have hnames : Along (Publisher.step sampleConfig) (fun p o => ∀ nodePrefix ∈ o.event.asyncNode?,
      ∀ r ∈ p.returned, makeDataName sampleConfig r.nodePrefix 100 r.seqNo ≠
        makeDataName sampleConfig (nodeOf sampleConfig nodePrefix) 100
          (p.nextSeqNo sampleConfig (nodeOf sampleConfig nodePrefix)))
      { dataStore := ∅ } halfCommittedRun := by decide +kernel
  have hevents : Along (Publisher.step sampleConfig) (fun _ o => o.event.isAsync ∧
      ∀ i, (o.inputs i).eraseThrowsAt = none) { dataStore := ∅ } halfCommittedRun :=
    along_of_forall (by simp [halfCommittedRun, Event.isAsync, sampleInputs]) _
  have hplain : Along (Publisher.step sampleConfig) (Plain sampleConfig ∅) { dataStore := ∅ }
      halfCommittedRun := (hnames.and hevents).mono fun p o h =>
    ⟨h.2.1, fun nodePrefix hnode => ⟨h.1 nodePrefix hnode, fun n _ => by simp⟩, h.2.2⟩
  exact ⟨by decide +kernel, by decide +kernel,
    shutdown_reclaims rfl hplain (Option.some_get _).symm⟩

end Publisher

end NdnSvs
