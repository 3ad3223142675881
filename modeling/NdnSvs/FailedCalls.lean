import NdnSvs.Advertised

/-! Publish calls that throw because a signer or the Data store throws.  The synchronous call for a
packet has reserved its number by then.  Every other call leaves everything as it was, unless the
Data store also throws when a rollback erases what it has taken. -/

namespace NdnSvs

open Lib Lib.Tlv

variable {cfg : PubSubConfig} {env : PublishInputs}

/-- When the store throws at an insertion, the rollback erases everything inserted before it. -/
def PublishInputs.RollsBack (env : PublishInputs) : Prop :=
  ∀ k ∈ env.storeThrowsAt, ∀ j ∈ env.eraseThrowsAt, k ≤ j

instance (env : PublishInputs) : Decidable env.RollsBack := by
  unfold PublishInputs.RollsBack
  infer_instance

/-- When the mapping insertion throws after the packets have been stored, the rollback erases all of
them. -/
def PublishInputs.Withdraws (env : PublishInputs) (packets : List Data) : Prop :=
  env.mappingThrows → (∀ k ∈ env.storeThrowsAt, packets.length ≤ k) →
    ∀ j ∈ env.eraseThrowsAt, packets.length ≤ j

instance (env : PublishInputs) (packets : List Data) : Decidable (env.Withdraws packets) := by
  unfold PublishInputs.Withdraws
  infer_instance

/-- A signer or the Data store has thrown. -/
def Error.OfSignerOrStore (e : Error) : Prop :=
  e ∈ [.runtime "signer failed", .runtime "DataStore insertion failed",
    .runtime "DataStore rollback failed after partial insertion",
    .runtime "publication rollback failed after commit error"]

instance (e : Error) : Decidable e.OfSignerOrStore := by
  unfold Error.OfSignerOrStore
  infer_instance

/-! ### The rollback of a batch -/

namespace DataStore

variable {store : DataStore} {packets : List Data}

/-- The packets before the insertion that throws are in the store. -/
theorem insertLoop_throws {inserted names : List Name} {throwsAt : Option Nat} {store' : DataStore}
    (h : store.insertLoop inserted packets throwsAt = (store', names, false)) :
    ∃ k, throwsAt = some k ∧ k < packets.length ∧
      store' = store.insertAll Data.name (packets.take k) ∧
      names = inserted ++ (packets.take k).map Data.name := by
  induction packets generalizing store inserted throwsAt with
  | nil => cases h
  | cons d packets ih =>
    rw [insertLoop] at h
    split at h
    · rename_i hzero
      obtain ⟨rfl, hnames⟩ := Prod.mk.inj h
      obtain ⟨rfl, -⟩ := Prod.mk.inj hnames
      exact ⟨0, hzero, by simp, rfl, by simp⟩
    · rename_i hzero
      obtain ⟨k, hk, hlt, hstore, hnames⟩ := ih h
      obtain ⟨j, rfl, rfl⟩ := Option.map_eq_some_iff.mp hk
      have hpos : j ≠ 0 := fun hj => hzero (congrArg some hj)
      obtain ⟨i, rfl⟩ := Nat.exists_eq_succ_of_ne_zero hpos
      refine ⟨i + 1, rfl, by simpa using hlt, ?_, ?_⟩
      · rw [hstore]
        rfl
      · rw [hnames]
        simp

/-- The first name to be erased last stays when an erasure throws. -/
theorem eraseLoop_throws {names : List Name} {n : Name} {j : Nat} (hj : j ≤ names.length)
    (hn : n ∉ names) : (store.eraseLoop (names ++ [n]) (some j)).1[n]? = store[n]? := by
  induction names generalizing store j with
  | nil =>
    obtain rfl : j = 0 := Nat.le_zero.mp hj
    rfl
  | cons m names ih =>
    rw [List.mem_cons, not_or] at hn
    rw [List.cons_append, eraseLoop]
    split
    · rfl
    · rename_i hzero
      rw [Option.map_some, ih ?_ hn.2, Map.get_erase_ne (Ne.symm hn.1)]
      have : j ≠ 0 := fun h => hzero (congrArg some h)
      rw [List.length_cons] at hj
      omega

theorem eraseAll_get_of_mem {names : List Name} {n : Name} (hn : n ∈ names) :
    (store.eraseAll names)[n]? = none := by
  induction names generalizing store with
  | nil => cases hn
  | cons m names ih =>
    by_cases hmem : n ∈ names
    · exact ih hmem
    · obtain rfl : n = m := (List.mem_cons.mp hn).resolve_right hmem
      exact (eraseAll_get (store.erase n) hmem).trans (by rw [Map.get_erase, if_pos rfl])

/-- Erasing what was inserted under new names gives the store back. -/
theorem eraseAll_insertAll {names : List Name} (hnames : ∀ n, n ∈ names ↔ n ∈ packets.map Data.name)
    (hnew : ∀ d ∈ packets, store[d.name]? = none) :
    eraseAll (store.insertAll Data.name packets) names = store := by
  refine Std.ExtTreeMap.ext_getElem? fun n => ?_
  by_cases hn : n ∈ names
  · obtain ⟨d, hd, rfl⟩ := List.mem_map.mp ((hnames n).mp hn)
    rw [eraseAll_get_of_mem hn, hnew d hd]
  · rw [eraseAll_get _ hn, Map.insertAll_get_of_not_mem fun h => hn ((hnames n).mpr h)]

theorem checkFinalPacketSize_error {d : Data} {e : Error}
    (h : checkFinalPacketSize cfg "prepared SVS Data exceeds MAX_NDN_PACKET_SIZE" d = .error e) :
    ¬e.OfSignerOrStore := by
  unfold checkFinalPacketSize Data.wireEncode at h
  split at h
  · rw [ok_bind, require] at h
    split at h
    · cases h
    · obtain rfl := Except.error.inj h
      decide
  · obtain rfl := Except.error.inj h
    decide

theorem checks_error {e : Error} (h : packets.forM (checkFinalPacketSize cfg
    "prepared SVS Data exceeds MAX_NDN_PACKET_SIZE") = .error e) : ¬e.OfSignerOrStore := by
  induction packets with
  | nil => cases h
  | cons d packets ih =>
    rw [List.forM_eq_forM, List.forM_cons] at h
    cases hcheck : checkFinalPacketSize cfg "prepared SVS Data exceeds MAX_NDN_PACKET_SIZE" d with
    | error e' =>
      rw [hcheck] at h
      obtain rfl := Except.error.inj h
      exact checkFinalPacketSize_error hcheck
    | ok _ =>
      rw [hcheck] at h
      exact ih h

/-- A batch fails a check, which leaves the store alone, or the store throws at an insertion. -/
theorem insertPreparedDataBatch_error {store' : DataStore} {e : Error}
    (h : store.insertPreparedDataBatch cfg env packets = (store', .error e)) :
    (store' = store ∧ ¬e.OfSignerOrStore) ∨
      ∃ k ∈ env.storeThrowsAt, k < packets.length ∧
        store' = (eraseLoop (store.insertAll Data.name (packets.take k))
          ((packets.take k).map Data.name).reverse env.eraseThrowsAt).1 := by
  unfold insertPreparedDataBatch at h
  split at h
  · obtain ⟨rfl, he⟩ := Prod.mk.inj h
    obtain rfl := Except.error.inj he
    exact .inl ⟨rfl, by decide⟩
  · split at h
    · rename_i hcheck
      obtain ⟨rfl, he⟩ := Prod.mk.inj h
      obtain rfl := Except.error.inj he
      exact .inl ⟨rfl, checks_error hcheck⟩
    · split at h
      · cases (Prod.mk.inj h).2
      · rename_i store₁ inserted hloop
        obtain ⟨k, hk, hlt, rfl, rfl⟩ := insertLoop_throws hloop
        refine .inr ⟨k, hk, hlt, ?_⟩
        rw [List.nil_append] at h
        split at h
        · rename_i herase
          rw [herase]
          exact (Prod.mk.inj h).1.symm
        · rename_i herase
          rw [herase]
          exact (Prod.mk.inj h).1.symm

/-- When the rollback works, the store is as it was. -/
theorem insertPreparedDataBatch_restores {store' : DataStore} {e : Error}
    (h : store.insertPreparedDataBatch cfg env packets = (store', .error e))
    (hrolls : packets.length ≤ 1 ∨ env.RollsBack) (hnew : ∀ d ∈ packets, store[d.name]? = none) :
    store' = store := by
  rcases insertPreparedDataBatch_error h with ⟨hsame, -⟩ | ⟨k, hk, hlt, rfl⟩
  · exact hsame
  · have hreliable : ∀ j ∈ env.eraseThrowsAt,
        ((packets.take k).map Data.name).reverse.length ≤ j := by
      intro j hj
      rw [List.length_reverse, List.length_map, List.length_take]
      rcases hrolls with hlength | hrolls
      · omega
      · have := hrolls k hk j hj
        omega
    rw [eraseLoop_of_reliable hreliable]
    exact eraseAll_insertAll (fun n => List.mem_reverse)
      fun d hd => hnew d (List.mem_of_mem_take hd)

/-- When an erasure throws, the first packet stays. -/
theorem insertPreparedDataBatch_keeps {store' : DataStore} {e : Error}
    (h : store.insertPreparedDataBatch cfg env packets = (store', .error e))
    (he : e.OfSignerOrStore) (hrolls : ¬env.RollsBack) (hnodup : (packets.map Data.name).Nodup) :
    ∃ d ∈ packets, store'[d.name]? = some d := by
  rcases insertPreparedDataBatch_error h with ⟨-, hnot⟩ | ⟨k, hk, hlt, rfl⟩
  · exact absurd he hnot
  · simp only [PublishInputs.RollsBack, Option.mem_def.mp hk, Option.mem_def, Option.some.injEq,
      forall_eq', not_forall, Nat.not_le] at hrolls
    obtain ⟨j, hj, hjk⟩ := hrolls
    cases packets with
    | nil => simp at hlt
    | cons d rest =>
      obtain ⟨i, rfl⟩ := Nat.exists_eq_succ_of_ne_zero (Nat.ne_of_gt (Nat.zero_lt_of_lt hjk))
      have hrest : d.name ∉ ((rest.take i).map Data.name).reverse := fun hmem => by
        obtain ⟨d', hd', heq⟩ := List.mem_map.mp (List.mem_reverse.mp hmem)
        exact (List.nodup_cons.mp hnodup).1
          (heq ▸ List.mem_map_of_mem (List.mem_of_mem_take hd'))
      have hlength : j ≤ ((rest.take i).map Data.name).reverse.length := by
        rw [List.length_reverse, List.length_map, List.length_take]
        rw [List.length_cons] at hlt
        omega
      refine ⟨d, List.mem_cons_self, ?_⟩
      rw [hj, List.take_succ_cons, List.map_cons, List.reverse_cons, eraseLoop_throws hlength hrest]
      have htake : ((d :: rest).take (i + 1)).map Data.name |>.Nodup :=
        hnodup.sublist ((List.take_sublist _ _).map _)
      exact Map.insertAll_get htake List.mem_cons_self

/-- Each name keeps its packet or has none. -/
def Shrinks (store store' : DataStore) : Prop :=
  ∀ n : Name, store'[n]? = store[n]? ∨ store'[n]? = none

/-- A loop that ends without an exception inserts everything. -/
theorem insertLoop_length {inserted : List Name} {throwsAt : Option Nat}
    (h : (store.insertLoop inserted packets throwsAt).2.2 = true) :
    ∀ k ∈ throwsAt, packets.length ≤ k := by
  induction packets generalizing store inserted throwsAt with
  | nil => exact fun _ _ => Nat.zero_le _
  | cons d packets ih =>
    intro k hk
    obtain rfl := Option.mem_def.mp hk
    rw [insertLoop] at h
    split at h
    · cases h
    · rename_i hzero
      have hrest := ih h (k - 1) rfl
      have : k ≠ 0 := fun h => hzero (congrArg some h)
      rw [List.length_cons]
      omega

/-- A batch that gets into the store has been inserted whole. -/
theorem insertPreparedDataBatch_inserts {store₁ : DataStore}
    (h : store.insertPreparedDataBatch cfg env packets = (store₁, .ok ())) :
    (packets = [] ∨ cfg.supportsErase) ∧
      (∀ k ∈ env.storeThrowsAt, packets.length ≤ k) ∧
      ∀ n ∉ packets.map Data.name, store₁[n]? = store[n]? := by
  have hinsertable := (insertPreparedDataBatch_ok (congrArg Prod.snd h)).1
  unfold insertPreparedDataBatch at h
  split at h
  · cases (Prod.mk.inj h).2
  · split at h
    · cases (Prod.mk.inj h).2
    · split at h
      · rename_i hloop
        obtain ⟨rfl, -⟩ := Prod.mk.inj h
        refine ⟨hinsertable.1, insertLoop_length (congrArg (fun r => r.2.2) hloop),
          fun n hn => ?_⟩
        have hsame := insertLoop_get packets store [] env.storeThrowsAt hn
        rwa [hloop] at hsame
      · split at h <;> cases (Prod.mk.inj h).2

/-- A batch that is inserted and removed again leaves nothing behind, unless an erasure throws. -/
theorem removePreparedDataBatch_shrinks {store₁ store₂ : DataStore} {removed : Bool}
    {throwsAt : Option Nat}
    (hinsert : store.insertPreparedDataBatch cfg env packets = (store₁, .ok ()))
    (hremove : store₁.removePreparedDataBatch cfg packets throwsAt = (store₂, removed)) :
    (removed = true ∧ store.Shrinks store₂) ∨
      removed = false ∧ ∃ j, throwsAt = some j ∧ j < packets.length := by
  obtain ⟨hmay, -, hsame⟩ := insertPreparedDataBatch_inserts hinsert
  rw [removePreparedDataBatch, if_neg fun h => hmay.elim h.1 h.2] at hremove
  by_cases hthrows : ∀ j ∈ throwsAt, packets.length ≤ j
  · rw [eraseLoop_of_reliable fun j hj => by simpa using hthrows j hj] at hremove
    obtain ⟨rfl, rfl⟩ := Prod.mk.inj hremove
    refine .inl ⟨rfl, fun n => ?_⟩
    by_cases hn : n ∈ (packets.map Data.name).reverse
    · exact .inr (eraseAll_get_of_mem hn)
    · exact .inl ((eraseAll_get _ hn).trans (hsame n fun h => hn (List.mem_reverse.mpr h)))
  · push Not at hthrows
    obtain ⟨j, hj, hlt⟩ := hthrows
    obtain rfl := Option.mem_def.mp hj
    refine .inr ⟨?_, j, rfl, hlt⟩
    have hfails := @eraseLoop_fails store₁ (packets.map Data.name).reverse j (by simpa using hlt)
    rw [hremove] at hfails
    exact hfails

theorem insertPreparedDataBatch_nil (cfg : PubSubConfig) (env : PublishInputs) (store : DataStore) :
    store.insertPreparedDataBatch cfg env [] = (store, .ok ()) := rfl

end DataStore

namespace Publisher

variable {p p' : Publisher} {nid : NodeID}

/-! ### Calls and what they leave -/

/-- The publish call of an event. -/
def call (cfg : PubSubConfig) (p : Publisher) (o : Occurrence) : Option (Outcome Publisher) :=
  match o.event with
  | .publishBytes name value nodePrefix freshnessPeriod mappingBlocks =>
    some (p.publishBytes cfg (o.inputs 0) name value nodePrefix freshnessPeriod mappingBlocks)
  | .publishName name nodePrefix mappingBlocks =>
    some (p.publishName cfg (o.inputs 0) name nodePrefix mappingBlocks)
  | .publishPacket data nodePrefix mappingBlocks =>
    some (p.publishPacket cfg (o.inputs 0) data nodePrefix mappingBlocks)
  | .publishBytesAsync name value nodePrefix freshnessPeriod mappingBlocks =>
    some (p.prepareAndStageAsyncPublication cfg (o.inputs 0) (.bytes value) name nodePrefix
      freshnessPeriod mappingBlocks)
  | .publishNameAsync name nodePrefix freshnessPeriod mappingBlocks =>
    some (p.prepareAndStageAsyncPublication cfg (o.inputs 0) .nameOnly name nodePrefix
      freshnessPeriod mappingBlocks)
  | .publishPacketAsync data nodePrefix mappingBlocks =>
    some (p.prepareAndStageAsyncPublication cfg (o.inputs 0) (.packet data) data.name nodePrefix
      data.freshnessPeriod mappingBlocks)
  | _ => none

/-- The step of a call is to the state that the call leaves. -/
theorem step_of_call {o : Occurrence} {result : Outcome Publisher}
    (h : p.call cfg o = some result) :
    Publisher.step cfg p o = some result.1 := by
  obtain ⟨event, inputs⟩ := o
  cases event <;> cases h <;> rfl

/-- The state is as before, as far as a later call or a peer can tell. -/
structure NoTrace (cfg : PubSubConfig) (p p' : Publisher) : Prop where
  vv : p'.core.vv = p.core.vv
  nextSeqNo : ∀ nid, p'.nextSeqNo cfg nid = p.nextSeqNo cfg nid
  nextAsyncCommitSeq : p'.nextAsyncCommitSeq = p.nextAsyncCommitSeq
  dataStore : p'.dataStore = p.dataStore
  mappings : p'.mappings = p.mappings
  extra : p'.extra = p.extra

theorem NoTrace.refl (p : Publisher) : NoTrace cfg p p := ⟨rfl, fun _ => rfl, rfl, rfl, rfl, rfl⟩

/-- Raising the reservation to the last known number changes no later number. -/
theorem NoTrace.reserve (p : Publisher) (nid : NodeID) :
    NoTrace cfg p (p.reserve nid (p.lastSeqNo cfg nid)) := by
  refine ⟨rfl, fun nid' => ?_, rfl, rfl, rfl, rfl⟩
  simp only [Publisher.nextSeqNo, Publisher.lastSeqNo, Publisher.reserve, Map.get_insert]
  split
  · rename_i heq
    subst heq
    simp
  · rfl

/-- The publication that a call prepares. -/
def requested (cfg : PubSubConfig) (p : Publisher) (kind : AsyncPublication.Kind) (name : Name)
    (nodePrefix : Name) (freshnessPeriod : Int) (mappingBlocks : List Block) : AsyncPublication :=
  { kind, bootstrapTime := cfg.core.bootstrapTime
    seqNo := p.nextSeqNo cfg (nodeOf cfg nodePrefix), name
    nodePrefix := nodeOf cfg nodePrefix, freshnessPeriod, mappingBlocks }

/-- A publication of bytes that has been signed is stored, or rolled back. -/
def RollsBack (cfg : PubSubConfig) (p : Publisher) (o : Occurrence) : Prop :=
  match o.event with
  | .publishBytes name value nodePrefix freshnessPeriod mappingBlocks
  | .publishBytesAsync name value nodePrefix freshnessPeriod mappingBlocks =>
    (prepare cfg (o.inputs 0).core (p.requested cfg (.bytes value) name nodePrefix freshnessPeriod
      mappingBlocks)).isOk → (o.inputs 0).RollsBack
  | _ => True

/-- A synchronous publication of bytes whose mapping insertion throws is rolled back. -/
def WithdrawsBytes (cfg : PubSubConfig) (p : Publisher) (o : Occurrence) : Prop :=
  match o.event with
  | .publishBytes name value nodePrefix freshnessPeriod mappingBlocks =>
    ∀ prepared ∈ (prepare cfg (o.inputs 0).core (p.requested cfg (.bytes value) name nodePrefix
      freshnessPeriod mappingBlocks)).toOption, (o.inputs 0).Withdraws prepared.outerPackets
  | _ => True

instance (p : Publisher) (o : Occurrence) : Decidable (WithdrawsBytes cfg p o) := by
  unfold WithdrawsBytes
  generalize o.event = event
  rcases event <;> infer_instance

instance (p : Publisher) (o : Occurrence) : Decidable (RollsBack cfg p o) := by
  unfold RollsBack
  generalize o.event = event
  rcases event <;> infer_instance

def HasRoomFor (cfg : PubSubConfig) (p : Publisher) (o : Occurrence) : Prop :=
  ∀ nodePrefix ∈ o.event.nodePrefix?, HasRoom cfg p (nodeOf cfg nodePrefix)

instance (p : Publisher) (o : Occurrence) : Decidable (HasRoomFor cfg p o) := by
  unfold HasRoomFor
  infer_instance

def Event.isPublishPacket : Event → Bool
  | .publishPacket .. => true
  | _ => false

/-- The call reserves nothing before a step that can fail, and its rollbacks work. -/
def Recovers (cfg : PubSubConfig) (p : Publisher) (o : Occurrence) : Prop :=
  o.event.isPublishPacket = false ∧ RollsBack cfg p o ∧ WithdrawsBytes cfg p o

instance (p : Publisher) (o : Occurrence) : Decidable (Recovers cfg p o) :=
  inferInstanceAs (Decidable (_ ∧ _))

/-! ### What the store holds -/

/-- The number has no packet in the store. -/
def Unused (cfg : PubSubConfig) (nid : NodeID) (s : SeqNo) (store : DataStore) : Prop :=
  ∀ n, IsPacketName cfg nid s n → store[n]? = none

theorem Unused.shrinks {s : SeqNo} {store store' : DataStore} (h : Unused cfg nid s store)
    (hshrinks : store.Shrinks store') : Unused cfg nid s store' := by
  intro n hn
  rcases hshrinks n with hsame | hnone
  · rw [hsame, h n hn]
  · exact hnone

/-- The publication has a reserved number, and its packets bear it. -/
structure Reserved (cfg : PubSubConfig) (p : Publisher) (publication : PreparedPublication) :
    Prop where
  le : publication.seqNo ≤ (p.reservedSeqNo[publication.nodePrefix]?).getD 0
  wellNamed : WellNamed cfg publication.nodePrefix publication.seqNo publication.outerPackets

/-- Every packet in the store has a reserved number. -/
structure Tidy (cfg : PubSubConfig) (p : Publisher) : Prop where
  limit : ∀ nid : NodeID, (p.reservedSeqNo[nid]?).getD 0 < 2 ^ 64
  unused : ∀ nid s, s < 2 ^ 64 → (p.reservedSeqNo[nid]?).getD 0 < s → Unused cfg nid s p.dataStore
  holds : ∀ publication, p.Holds publication → Reserved cfg p publication

theorem tidy_empty : Tidy cfg {} :=
  ⟨by simp, fun _ _ _ _ _ _ => by simp, by simp [Holds]⟩

/-- The next number has no packet in the store. -/
theorem Tidy.next (h : Tidy cfg p) (hroom : HasRoom cfg p nid) :
    Unused cfg nid (p.nextSeqNo cfg nid) p.dataStore := by
  have hlast := reserved_le_last cfg p nid
  refine h.unused nid _ (Nat.mod_lt _ (by decide)) ?_
  rw [nextSeqNo_eq hroom]
  lia

/-- The store changes under the names of a number only, which is reserved or has no packet after
it. -/
theorem Tidy.change (h : Tidy cfg p) {s : SeqNo} (hs : s < 2 ^ 64)
    (hdiffers : p.dataStore.Differs cfg nid s p'.dataStore)
    (hstore : s ≤ (p'.reservedSeqNo[nid]?).getD 0 ∨ Unused cfg nid s p'.dataStore)
    (hlimit : ∀ nid : NodeID, (p'.reservedSeqNo[nid]?).getD 0 < 2 ^ 64)
    (hle : ∀ nid : NodeID, (p.reservedSeqNo[nid]?).getD 0 ≤ (p'.reservedSeqNo[nid]?).getD 0)
    (hholds : ∀ publication, p'.Holds publication →
      p.Holds publication ∨ Reserved cfg p' publication) : Tidy cfg p' := by
  refine ⟨hlimit, fun nid' s' hs' habove n hn => ?_, fun publication hpublication => ?_⟩
  · by_cases hname : IsPacketName cfg nid s n
    · obtain ⟨rfl, rfl⟩ := hname.unique hs hs' hn
      rcases hstore with hreserved | hunused
      · exact absurd hreserved (Nat.not_le_of_lt habove)
      · exact hunused n hn
    · rw [hdiffers n hname]
      exact h.unused nid' s' hs' ((hle nid').trans_lt habove) n hn
  · rcases hholds publication hpublication with hold | hreserved
    · exact ⟨(h.holds publication hold).le.trans (hle _), (h.holds publication hold).wellNamed⟩
    · exact hreserved

/-- The store stays, and no reservation is lowered. -/
theorem Tidy.same (h : Tidy cfg p) (hstore : p'.dataStore = p.dataStore)
    (hlimit : ∀ nid : NodeID, (p'.reservedSeqNo[nid]?).getD 0 < 2 ^ 64)
    (hle : ∀ nid : NodeID, (p.reservedSeqNo[nid]?).getD 0 ≤ (p'.reservedSeqNo[nid]?).getD 0)
    (hholds : ∀ publication, p'.Holds publication →
      p.Holds publication ∨ Reserved cfg p' publication) : Tidy cfg p' :=
  @Tidy.change cfg p p' [] h 0 (by decide) (fun _ _ => by rw [hstore])
    (.inl (Nat.zero_le _)) hlimit hle
    hholds

/-- The store and the reservations stay. -/
theorem Tidy.congr (h : Tidy cfg p) (hstore : p'.dataStore = p.dataStore)
    (hreserved : p'.reservedSeqNo = p.reservedSeqNo)
    (hholds : ∀ publication, p'.Holds publication → p.Holds publication) : Tidy cfg p' :=
  ⟨hreserved ▸ h.limit, hreserved ▸ hstore ▸ h.unused, fun publication hpublication => by
    obtain ⟨hle, hnamed⟩ := h.holds publication (hholds publication hpublication)
    exact ⟨hreserved ▸ hle, hnamed⟩⟩

/-! ### Calls that throw -/

/-- A mapping comes to the queue of the Sync Interests even when its insertion throws. -/
theorem pushMapping_ne (extra : ExtraData) (nid : NodeID) (entry : MappingEntry) :
    extra.pushMapping nid entry ≠ extra := by
  intro heq
  have hlength := congrArg (fun e => e.piggyMappingQueue.length) heq
  simp [ExtraData.pushMapping] at hlength

theorem insertMapping_error {s : SeqNo} {b : BootstrapTime} {name : Name} {additional : List Block}
    {e : Error} (h : p.insertMapping cfg env nid b s name additional = (p', .error e)) :
    e = .runtime "mapping insertion failed" ∧ p'.dataStore = p.dataStore ∧
      env.mappingThrows = true ∧ p'.extra ≠ p.extra := by
  unfold insertMapping at h
  cases hthrows : env.mappingThrows with
  | true =>
    simp only [hthrows, if_true] at h
    obtain ⟨rfl, he⟩ := Prod.mk.inj h
    exact ⟨(Except.error.inj he).symm, rfl, rfl, pushMapping_ne _ _ _⟩
  | false =>
    simp only [hthrows, Bool.false_eq_true, if_false] at h
    cases (Prod.mk.inj h).2

/-- What has been stored is taken out of the store again, unless an erasure throws. -/
theorem rollBack_shrinks {dataStore : DataStore} {publication publication' : PreparedPublication}
    {e e' : Error} (hinsert : dataStore.insertPreparedDataBatch cfg env publication.outerPackets =
      (p.dataStore, .ok ()))
    (hstored : publication.stored = decide (publication.outerPackets ≠ []))
    (he : ¬e.OfSignerOrStore)
    (h : p.rollBack cfg env publication e = ((p', publication'), .error e')) :
    p'.extra = p.extra ∧ ((¬e'.OfSignerOrStore ∧ dataStore.Shrinks p'.dataStore) ∨
      ∃ j ∈ env.eraseThrowsAt, j < publication.outerPackets.length) := by
  unfold rollBack at h
  split at h
  · cases hremove : p.dataStore.removePreparedDataBatch cfg publication.outerPackets
      env.eraseThrowsAt with
    | mk dataStore' removed =>
      rw [hremove] at h
      have hcases := DataStore.removePreparedDataBatch_shrinks hinsert hremove
      cases removed with
      | true =>
        obtain ⟨hstate, herror⟩ := Prod.mk.inj h
        obtain ⟨rfl, -⟩ := Prod.mk.inj hstate
        obtain rfl := Except.error.inj herror
        refine ⟨rfl, .inl ⟨he, ?_⟩⟩
        exact (hcases.resolve_right fun hfails => Bool.false_ne_true hfails.1.symm).2
      | false =>
        obtain ⟨hstate, -⟩ := Prod.mk.inj h
        obtain ⟨rfl, -⟩ := Prod.mk.inj hstate
        obtain ⟨-, j, hj, hlt⟩ := hcases.resolve_left fun hdone => Bool.false_ne_true hdone.1
        exact ⟨rfl, .inr ⟨j, hj, hlt⟩⟩
  · rename_i hnot
    obtain ⟨hstate, herror⟩ := Prod.mk.inj h
    obtain ⟨rfl, -⟩ := Prod.mk.inj hstate
    obtain rfl := Except.error.inj herror
    have hnil : publication.outerPackets = [] := by
      by_contra hne
      exact hnot (by simp [hstored, hne])
    rw [hnil, DataStore.insertPreparedDataBatch_nil] at hinsert
    exact ⟨rfl, .inl ⟨he, fun n => .inl (by rw [← (Prod.mk.inj hinsert).1])⟩⟩

/-- A commit throws while it stores the packets, or afterwards, when its rollback works or fails. -/
theorem commitPreparedPublication_error {prepared prepared' : PreparedPublication} {e : Error}
    (hok : prepared.ok = true) (hstored : prepared.stored = false)
    (h : p.commitPreparedPublication cfg env prepared = ((p', prepared'), .error e)) :
    (∃ dataStore, p.dataStore.insertPreparedDataBatch cfg env prepared.outerPackets =
        (dataStore, .error e) ∧ p' = { p with dataStore }) ∨
      (¬e.OfSignerOrStore ∧ p.dataStore.Shrinks p'.dataStore) ∨
      (¬env.Withdraws prepared.outerPackets ∧ p'.extra ≠ p.extra) := by
  unfold commitPreparedPublication storePackets at h
  rw [if_neg (by simp [hok]), if_neg (by simp [hstored])] at h
  cases hbatch : p.dataStore.insertPreparedDataBatch cfg env prepared.outerPackets with
  | mk dataStore result =>
    cases result with
    | error e' =>
      simp only [hbatch] at h
      obtain ⟨hstate, he⟩ := Prod.mk.inj h
      obtain ⟨rfl, -⟩ := Prod.mk.inj hstate
      obtain rfl := Except.error.inj he
      exact .inl ⟨dataStore, rfl, rfl⟩
    | ok _ =>
      refine .inr ?_
      simp only [hbatch] at h
      split at h
      · rename_i hmapping
        obtain ⟨rfl, hsame, hthrows, hextra⟩ := insertMapping_error hmapping
        simp only at hsame hextra
        obtain ⟨hkept, hshrinks | ⟨j, hj, hlt⟩⟩ :=
          rollBack_shrinks (hsame ▸ hbatch) rfl (by decide) h
        · exact .inl hshrinks
        · refine .inr ⟨fun hwithdraws => ?_, hkept ▸ hextra⟩
          have hstored := (DataStore.insertPreparedDataBatch_inserts hbatch).2.1
          exact absurd (hwithdraws hthrows hstored j hj) (Nat.not_le_of_lt hlt)
      · cases (Prod.mk.inj h).2

/-- A publication of bytes throws while it is prepared, while it is stored, or afterwards. -/
theorem publishBytes_error {name : Name} {value : Span} {nodePrefix : Name} {freshnessPeriod : Int}
    {mappingBlocks : List Block} {e : Error} (hroom : HasRoom cfg p (nodeOf cfg nodePrefix))
    (h : p.publishBytes cfg env name value nodePrefix freshnessPeriod mappingBlocks =
      (p', .error e)) :
    let publication := p.requested cfg (.bytes value) name nodePrefix freshnessPeriod mappingBlocks
    (¬(prepare cfg env.core publication).isOk ∧ p' = p) ∨
      ∃ prepared, prepare cfg env.core publication = .ok prepared ∧
        ((∃ dataStore, p.dataStore.insertPreparedDataBatch cfg env prepared.outerPackets =
            (dataStore, .error e) ∧ p' = { p with dataStore }) ∨
          (¬e.OfSignerOrStore ∧ p.dataStore.Shrinks p'.dataStore) ∨
          (¬env.Withdraws prepared.outerPackets ∧ p'.extra ≠ p.extra)) := by
  intro publication
  have hpositive : p.nextSeqNo cfg (nodeOf cfg nodePrefix) ≠ 0 := by
    rw [nextSeqNo_eq hroom]
    exact Nat.succ_ne_zero _
  simp only [publishBytes] at h
  split at h
  · rename_i hprepare
    have hprepare : prepare cfg env.core publication = .error _ := hprepare
    exact .inl ⟨by rw [hprepare]; exact Bool.false_ne_true, (Prod.mk.inj h).1.symm⟩
  · rename_i prepared hprepare
    have hprepares := prepare_prepares hprepare
    refine .inr ⟨prepared, hprepare, ?_⟩
    split at h
    · rename_i hcommit
      obtain ⟨rfl, he⟩ := Prod.mk.inj h
      obtain rfl := Except.error.inj he
      exact commitPreparedPublication_error hprepares.ok hprepares.stored hcommit
    · rename_i p₁ prepared₁ hcommit
      rcases updateSeqNo_cases cfg env p₁ (p.nextSeqNo cfg (nodeOf cfg nodePrefix))
        (nodeOf cfg nodePrefix) with ⟨hzero, -⟩ | ⟨core, -, hupdate⟩
      · exact absurd hzero hpositive
      · rw [hupdate] at h
        cases (Prod.mk.inj h).2

/-- An asynchronous call throws while its publication is prepared, or while it is stored. -/
theorem prepareAndStage_error {kind : AsyncPublication.Kind} {name nodePrefix : Name}
    {freshnessPeriod : Int} {mappingBlocks : List Block} {e : Error}
    (h : p.prepareAndStageAsyncPublication cfg env kind name nodePrefix freshnessPeriod
      mappingBlocks = (p', .error e)) :
    let publication := p.requested cfg kind name nodePrefix freshnessPeriod mappingBlocks
    let p₀ := p.reserve (nodeOf cfg nodePrefix) (p.lastSeqNo cfg (nodeOf cfg nodePrefix))
    (¬(prepare cfg env.core publication).isOk ∧ p' = p₀) ∨
      ∃ prepared dataStore, prepare cfg env.core publication = .ok prepared ∧
        p.dataStore.insertPreparedDataBatch cfg env prepared.outerPackets = (dataStore, .error e) ∧
        p' = { p₀ with dataStore } := by
  intro publication p₀
  simp only [prepareAndStageAsyncPublication] at h
  split at h
  · rename_i hprepare
    have hprepare : prepare cfg env.core publication = .error _ := hprepare
    exact .inl ⟨by rw [hprepare]; exact Bool.false_ne_true, (Prod.mk.inj h).1.symm⟩
  · rename_i prepared hprepare
    split at h
    · rename_i dataStore _ hbatch
      obtain ⟨rfl, he⟩ := Prod.mk.inj h
      obtain rfl := Except.error.inj he
      exact .inr ⟨prepared, dataStore, hprepare, hbatch, rfl⟩
    · cases (Prod.mk.inj h).2

/-- What throws after the reservation of a name or a packet, and is no signer and no Data store. -/
theorem announce_error {s : SeqNo} {name : Name} {mappingBlocks : List Block} {packets : List Data}
    {e : Error} (hs : s ≠ 0)
    (h : p.announce cfg env nid s name mappingBlocks packets = (p', .error e)) :
    ¬e.OfSignerOrStore := by
  unfold announce at h
  split at h
  · rename_i hmapping
    obtain ⟨-, he⟩ := Prod.mk.inj h
    obtain rfl := Except.error.inj he
    obtain ⟨rfl, -⟩ := insertMapping_error hmapping
    decide
  · rename_i p₁ _
    rcases updateSeqNo_cases cfg env p₁ s nid with ⟨hzero, -⟩ | ⟨core, -, hupdate⟩
    · exact absurd hzero hs
    · rw [hupdate] at h
      cases (Prod.mk.inj h).2

/-! ### When a call that throws leaves no trace -/

section Batch

variable {s : SeqNo} {packets : List Data} {dataStore : DataStore} {e : Error}
  (hbatch : p.dataStore.insertPreparedDataBatch cfg env packets = (dataStore, .error e))
  (hunused : Unused cfg nid s p.dataStore) (hnamed : WellNamed cfg nid s packets)

include hbatch hunused hnamed

theorem restores_of_rollsBack (hrolls : packets.length ≤ 1 ∨ env.RollsBack) :
    dataStore = p.dataStore :=
  DataStore.insertPreparedDataBatch_restores hbatch hrolls
    fun d hd => hunused _ (hnamed.isName d hd)

theorem rollsBack_of_restores (he : e.OfSignerOrStore) (hsame : dataStore = p.dataStore) :
    env.RollsBack := by
  by_contra hrolls
  obtain ⟨d, hd, hkept⟩ := DataStore.insertPreparedDataBatch_keeps hbatch he hrolls hnamed.nodup
  rw [hsame, hunused _ (hnamed.isName d hd)] at hkept
  cases hkept

end Batch

theorem publishBytes_noTrace_iff (h : Tidy cfg p) {name : Name} {value : Span} {nodePrefix : Name}
    {freshnessPeriod : Int} {mappingBlocks : List Block} {e : Error}
    (hroom : HasRoom cfg p (nodeOf cfg nodePrefix))
    (hcall : p.publishBytes cfg env name value nodePrefix freshnessPeriod mappingBlocks =
      (p', .error e)) (he : e.OfSignerOrStore) :
    let prepared := prepare cfg env.core (p.requested cfg (.bytes value) name nodePrefix
      freshnessPeriod mappingBlocks)
    NoTrace cfg p p' ↔ (prepared.isOk → env.RollsBack) ∧
      ∀ publication ∈ prepared.toOption, env.Withdraws publication.outerPackets := by
  intro prepared
  rcases publishBytes_error hroom hcall with ⟨hfailed, rfl⟩ | ⟨publication, hprepare, hcases⟩
  · have hnone : ∀ publication, prepared.toOption ≠ some publication := by
      intro publication hsome
      have hprepared : ¬prepared.isOk := hfailed
      cases hresult : prepared with
      | error e => simp [hresult, Except.toOption] at hsome
      | ok _ => exact hprepared (by rw [hresult]; rfl)
    exact ⟨fun _ => ⟨fun hok => absurd hok hfailed, fun publication hmem =>
      absurd (Option.mem_def.mp hmem) (hnone publication)⟩, fun _ => .refl p'⟩
  · have hprepared : prepared = .ok publication := hprepare
    simp only [hprepared, Except.toOption, Option.mem_def, Option.some.injEq, forall_eq']
    have hunused := h.next hroom
    have hnamed := (prepare_prepares hprepare).wellNamed rfl
    rcases hcases with ⟨dataStore, hbatch, rfl⟩ | ⟨hnot, -⟩ | ⟨hfails, hextra⟩
    · constructor
      · intro htrace
        refine ⟨fun _ => rollsBack_of_restores hbatch hunused hnamed he htrace.dataStore, ?_⟩
        -- the insertion has thrown, so there is no mapping insertion
        intro _ hstored
        rcases DataStore.insertPreparedDataBatch_error hbatch with ⟨-, hnot⟩ | ⟨k, hk, hlt, -⟩
        · exact absurd he hnot
        · exact absurd (hstored k hk) (Nat.not_le_of_lt hlt)
      · intro hrolls
        have hsame := restores_of_rollsBack hbatch hunused hnamed (.inr (hrolls.1 rfl))
        exact { NoTrace.refl p with dataStore := hsame }
    · exact absurd he hnot
    · exact ⟨fun htrace => absurd htrace.extra hextra, fun hrolls => absurd hrolls.2 hfails⟩

theorem prepareAndStage_noTrace (h : Tidy cfg p) {kind : AsyncPublication.Kind}
    {name nodePrefix : Name} {freshnessPeriod : Int} {mappingBlocks : List Block} {e : Error}
    (hroom : HasRoom cfg p (nodeOf cfg nodePrefix))
    (hcall : p.prepareAndStageAsyncPublication cfg env kind name nodePrefix freshnessPeriod
      mappingBlocks = (p', .error e))
    (hrolls : ∀ prepared, prepare cfg env.core (p.requested cfg kind name nodePrefix freshnessPeriod
      mappingBlocks) = .ok prepared → prepared.outerPackets.length ≤ 1 ∨ env.RollsBack) :
    NoTrace cfg p p' := by
  have hreserve := @NoTrace.reserve cfg p (nodeOf cfg nodePrefix)
  rcases prepareAndStage_error hcall with ⟨-, rfl⟩ | ⟨prepared, dataStore, hprepare, hbatch, rfl⟩
  · exact hreserve
  · have hsame := restores_of_rollsBack hbatch (h.next hroom)
      ((prepare_prepares hprepare).wellNamed rfl) (hrolls prepared hprepare)
    exact ⟨hreserve.vv, hreserve.nextSeqNo, hreserve.nextAsyncCommitSeq, hsame, hreserve.mappings,
      hreserve.extra⟩

theorem prepareAndStage_rollsBack (h : Tidy cfg p) {kind : AsyncPublication.Kind}
    {name nodePrefix : Name} {freshnessPeriod : Int} {mappingBlocks : List Block} {e : Error}
    (hroom : HasRoom cfg p (nodeOf cfg nodePrefix))
    (hcall : p.prepareAndStageAsyncPublication cfg env kind name nodePrefix freshnessPeriod
      mappingBlocks = (p', .error e)) (he : e.OfSignerOrStore) (htrace : NoTrace cfg p p')
    (hok : (prepare cfg env.core (p.requested cfg kind name nodePrefix freshnessPeriod
      mappingBlocks)).isOk) : env.RollsBack := by
  rcases prepareAndStage_error hcall with
    ⟨hfailed, -⟩ | ⟨prepared, dataStore, hprepare, hbatch, rfl⟩
  · exact absurd hok hfailed
  · exact rollsBack_of_restores hbatch (h.next hroom) ((prepare_prepares hprepare).wellNamed rfl) he
      htrace.dataStore

/-- Only bytes are cut into several packets. -/
theorem prepare_length {cfg : PubSubConfig} {env : CoreInputs} {publication : AsyncPublication}
    {prepared : PreparedPublication} (h : prepare cfg env publication = .ok prepared)
    (hkind : ∀ value, publication.kind ≠ .bytes value) : prepared.outerPackets.length ≤ 1 := by
  unfold prepare at h
  cases hcases : publication.kind with
  | bytes value => exact absurd hcases (hkind value)
  | nameOnly =>
    rw [hcases] at h
    obtain rfl := Except.ok.inj h
    exact Nat.zero_le _
  | packet packet =>
    rw [hcases] at h
    obtain ⟨outer, -, h⟩ := bind_eq_ok.mp h
    obtain rfl := Except.ok.inj h
    exact le_rfl

/-- The number that a packet has reserved is lost. -/
theorem publishPacket_trace {data : Data} {nodePrefix : Name}
    {mappingBlocks : List Block} {e : Error}
    (hroom : HasRoom cfg p (nodeOf cfg nodePrefix))
    (hcall : p.publishPacket cfg env data nodePrefix mappingBlocks = (p', .error e)) :
    ¬NoTrace cfg p p' := by
  intro htrace
  set nid := nodeOf cfg nodePrefix
  have hnext := nextSeqNo_eq hroom
  have hlast' : p'.lastSeqNo cfg nid = p.lastSeqNo cfg nid + 1 := by
    have hpublishes := @publishPacket_publishes cfg env p data nodePrefix mappingBlocks
    rw [hcall] at hpublishes
    rcases hpublishes with ⟨halters, -⟩ | ⟨p₁, core, packets, -, -, -, -, hresult⟩
    · have hcore : p.core.getSeqNo cfg.core nid ≤ p.lastSeqNo cfg nid := le_max_right _ _
      have hstate := halters.state
      simp only at hstate
      rw [lastSeqNo, hstate]
      simp only [Publisher.reserveSeqNo, Map.get_insert]
      rw [if_pos rfl, hnext, Option.getD_some]
      exact max_eq_left (hcore.trans (Nat.le_succ _))
    · cases (Prod.mk.inj hresult).2
  have hsame := htrace.nextSeqNo nid
  have hroom : p.lastSeqNo cfg nid + 1 < 2 ^ 64 := hroom
  rw [hnext, Publisher.nextSeqNo, hlast'] at hsame
  by_cases hwrap : p.lastSeqNo cfg nid + 1 + 1 < 2 ^ 64
  · rw [Nat.mod_eq_of_lt hwrap] at hsame
    lia
  · have hwrap : p.lastSeqNo cfg nid + 1 + 1 = 2 ^ 64 := by lia
    rw [hwrap, Nat.mod_self] at hsame
    lia

/-! ### Runs keep the store tidy -/

/-- The numbers do not run out, and what is rolled back is gone. -/
def Orderly (cfg : PubSubConfig) (p : Publisher) (o : Occurrence) : Prop :=
  HasRoomFor cfg p o ∧ RollsBack cfg p o ∧ WithdrawsBytes cfg p o

instance (p : Publisher) (o : Occurrence) : Decidable (Orderly cfg p o) :=
  inferInstanceAs (Decidable (_ ∧ _))

theorem holds_of_takeHead {publication other : PreparedPublication} {p₀ : Publisher}
    (htake : p.takeHead nid = some (publication, p₀)) (hother : p₀.Holds other) :
    p.Holds other := by
  obtain ⟨next, -, -, -, rfl⟩ := takeHead_eq_some.mp htake
  rcases hother with hmem | ⟨nid', s, hat⟩
  · exact .inl hmem
  · rw [Map.getAt_eraseAt] at hat
    split at hat
    · cases hat
    · exact .inr ⟨nid', s, hat⟩

theorem holds_head {publication : PreparedPublication} {p₀ : Publisher}
    (htake : p.takeHead nid = some (publication, p₀)) : p.Holds publication := by
  obtain ⟨next, -, hat, -, -⟩ := takeHead_eq_some.mp htake
  exact .inr ⟨nid, next, hat⟩

/-- A commit attempt changes the store under a reserved number. -/
theorem Tidy.tries (h : Tidy cfg p) {publication publication' : PreparedPublication}
    {p₀ : Publisher}
    (htake : p.takeHead nid = some (publication, p₀))
    (htries : Tries cfg p₀ publication p' publication') :
    Tidy cfg p' ∧ Reserved cfg p' publication' := by
  have hreserved := h.holds publication (holds_head htake)
  have htaken := fun other => @holds_of_takeHead p nid publication other p₀ htake
  have hdiffers := htries.differs hreserved.wellNamed
  obtain ⟨next, -, -, -, rfl⟩ := takeHead_eq_some.mp htake
  have hnamed :
      WellNamed cfg publication'.nodePrefix publication'.seqNo publication'.outerPackets := by
    rw [htries.nodePrefix, htries.seqNo, htries.outerPackets]
    exact hreserved.wellNamed
  have hle := hreserved.le
  have hlt : publication.seqNo < 2 ^ 64 := hle.trans_lt (h.limit _)
  have hseq := htries.seqNo
  have hnode := htries.nodePrefix
  obtain ⟨dataStore, mappings, extra, rfl⟩ := htries.exists_state
  refine ⟨h.change hlt hdiffers (.inl hle) h.limit (fun _ => le_rfl) fun other hother =>
    .inl (htaken other hother), ?_, hnamed⟩
  rw [hseq, hnode]
  exact hle

theorem Tidy.commitReady (h : Tidy cfg p) (attempts : Nat → PublishInputs) (nid : NodeID) :
    Tidy cfg (p.commitReadyPreparedPublications cfg attempts nid) := by
  refine commitLoop_invariant (P := Tidy cfg) (E := fun _ => True) ?_ ?_ _ (fun _ => trivial) h
  · intro env q publication q₀ q' publication' e _ hq htake hattempt
    obtain ⟨hq', hreserved⟩ := hq.tries htake (attemptCommit_error hattempt)
    refine hq'.same rfl hq'.limit (fun _ => le_rfl) fun other hother => ?_
    rcases hother with hmem | ⟨nid', s, hat⟩
    · exact .inl (.inl hmem)
    · simp only [requeueFailedPublication, Map.getAt_insertAt] at hat
      split at hat
      · obtain rfl := Option.some.inj hat
        exact .inr ⟨hreserved.le, hreserved.wellNamed⟩
      · exact .inl (.inr ⟨nid', s, hat⟩)
  · intro env q publication q₀ q' publication' _ hq htake hattempt
    obtain ⟨q₁, core, rfl, htries, -⟩ := attemptCommit_ok hattempt
    obtain ⟨hq', -⟩ := hq.tries htake htries
    unfold advanceHead
    split <;> exact hq'.congr rfl rfl fun _ hother => hother

theorem Tidy.unstage (h : Tidy cfg p) {index : Nat} {publication : PreparedPublication}
    (hindex : p.posted[index]? = some publication) :
    Tidy cfg (({ p with posted := p.posted.eraseIdx index } : Publisher).unstage publication) := by
  refine h.congr rfl rfl fun other hother => ?_
  rcases hother with hmem | ⟨nid', s, hat⟩
  · exact .inl (List.mem_of_mem_eraseIdx hmem)
  · simp only [Publisher.unstage, Map.getAt_insertAt] at hat
    split at hat
    · obtain rfl := Option.some.inj hat
      exact .inl (List.mem_of_getElem? hindex)
    · exact .inr ⟨nid', s, hat⟩

theorem Tidy.clearRetry (h : Tidy cfg p) {s : SeqNo} {publication : PreparedPublication}
    (hat : p.preparedPublications.getAt nid s = some publication)
    (retries : List (NodeID × SeqNo)) :
    Tidy cfg (({ p with retries } : Publisher).clearRetry nid s publication) := by
  have hreserved := h.holds publication (.inr ⟨nid, s, hat⟩)
  refine h.same rfl h.limit (fun _ => le_rfl) fun other hother => ?_
  rcases hother with hmem | ⟨nid', s', hat'⟩
  · exact .inl (.inl hmem)
  · simp only [Publisher.clearRetry, Map.getAt_insertAt] at hat'
    split at hat'
    · obtain rfl := Option.some.inj hat'
      exact .inr ⟨hreserved.le, hreserved.wellNamed⟩
    · exact .inl (.inr ⟨nid', s', hat'⟩)

theorem limit_insert (h : Tidy cfg p) {s : SeqNo} (hs : s < 2 ^ 64) (nid' : NodeID) :
    ((p.reservedSeqNo.insert nid s)[nid']?).getD 0 < 2 ^ 64 := by
  rw [Map.get_insert]
  split
  · exact hs
  · exact h.limit nid'

theorem Tidy.reserve (h : Tidy cfg p) {s : SeqNo} (hs : s < 2 ^ 64)
    (hle : (p.reservedSeqNo[nid]?).getD 0 ≤ s) : Tidy cfg (p.reserve nid s) :=
  h.same rfl (limit_insert h hs) (le_insert hle) fun _ hother => .inl hother

theorem Tidy.alters (h : Tidy cfg p) {s : SeqNo} (hs : s < 2 ^ 64) (halters : Alters cfg nid s p p')
    (hstore : s ≤ (p.reservedSeqNo[nid]?).getD 0 ∨ Unused cfg nid s p'.dataStore) :
    Tidy cfg p' := by
  have hdiffers := halters.differs
  have hstate := halters.state
  have hreserved : p'.reservedSeqNo = p.reservedSeqNo := by rw [hstate]
  refine h.change hs hdiffers (hreserved ▸ hstore) (hreserved ▸ h.limit)
    (fun nid => by rw [hreserved]) fun other hother => .inl ?_
  rw [hstate] at hother
  exact hother

/-- A call that has reserved its number first. -/
theorem Tidy.publishesReserved (h : Tidy cfg p) (hroom : HasRoom cfg p nid)
    {result : Outcome Publisher}
    (hpublishes : Publishes cfg nid (p.nextSeqNo cfg nid) (p.reserveSeqNo cfg nid).1 result id) :
    Tidy cfg result.1 := by
  have hlt : p.nextSeqNo cfg nid < 2 ^ 64 := Nat.mod_lt _ (by decide)
  have hreserve : Tidy cfg (p.reserveSeqNo cfg nid).1 :=
    (h.reserve hlt (reserved_le_next hroom)).congr rfl rfl fun _ hother => hother
  have hle : p.nextSeqNo cfg nid ≤ ((p.reserveSeqNo cfg nid).1.reservedSeqNo[nid]?).getD 0 := by
    simp [Publisher.reserveSeqNo]
  rcases hpublishes with ⟨halters, -⟩ | ⟨p₁, core, packets, halters, -, -, -, hresult⟩
  · exact hreserve.alters hlt halters (.inl hle)
  · rw [hresult]
    exact (hreserve.alters hlt halters (.inl hle)).congr rfl rfl fun _ hother => hother

theorem Tidy.publishBytes (h : Tidy cfg p) {name : Name} {value : Span} {nodePrefix : Name}
    {freshnessPeriod : Int} {mappingBlocks : List Block}
    (hroom : HasRoom cfg p (nodeOf cfg nodePrefix))
    (hrolls : (prepare cfg env.core (p.requested cfg (.bytes value) name nodePrefix freshnessPeriod
      mappingBlocks)).isOk → env.RollsBack)
    (hwithdraws : ∀ prepared ∈ (prepare cfg env.core (p.requested cfg (.bytes value) name nodePrefix
      freshnessPeriod mappingBlocks)).toOption, env.Withdraws prepared.outerPackets) :
    Tidy cfg (p.publishBytes cfg env name value nodePrefix freshnessPeriod mappingBlocks).1 := by
  have hlt : p.nextSeqNo cfg (nodeOf cfg nodePrefix) < 2 ^ 64 := Nat.mod_lt _ (by decide)
  have hunused := h.next hroom
  rcases @publishBytes_publishes cfg env p name value nodePrefix freshnessPeriod mappingBlocks with
    ⟨halters, hfailed⟩ | ⟨p₁, core, packets, halters, -, -, -, hresult⟩
  · refine h.alters hlt halters (.inr ?_)
    cases hcall : p.publishBytes cfg env name value nodePrefix freshnessPeriod mappingBlocks with
    | mk p' result =>
      cases result with
      | ok _ => exact absurd (congrArg Prod.snd hcall) hfailed
      | error e =>
        rcases publishBytes_error hroom hcall with
          ⟨-, rfl⟩ | ⟨prepared, hprepare, ⟨dataStore, hbatch, rfl⟩ | ⟨-, hshrinks⟩ | ⟨hfails, -⟩⟩
        · exact hunused
        · have hsame := restores_of_rollsBack hbatch hunused
            ((prepare_prepares hprepare).wellNamed rfl) (.inr (hrolls (by rw [hprepare]; rfl)))
          exact hsame.symm ▸ hunused
        · exact hunused.shrinks hshrinks
        · exact absurd (hwithdraws prepared (by rw [hprepare]; rfl)) hfails
  · have hdiffers := halters.differs
    rw [hresult, halters.state]
    refine h.change hlt hdiffers (.inl ?_) (limit_insert h hlt) (le_insert (reserved_le_next hroom))
      fun _ hother => .inl hother
    simp [return_, settleBytes]

theorem Tidy.prepareAndStage (h : Tidy cfg p) {kind : AsyncPublication.Kind}
    {name nodePrefix : Name}
    {freshnessPeriod : Int} {mappingBlocks : List Block}
    (hroom : HasRoom cfg p (nodeOf cfg nodePrefix))
    (hrolls : ∀ prepared, prepare cfg env.core (p.requested cfg kind name nodePrefix freshnessPeriod
      mappingBlocks) = .ok prepared → prepared.outerPackets.length ≤ 1 ∨ env.RollsBack) :
    Tidy cfg (p.prepareAndStageAsyncPublication cfg env kind name nodePrefix freshnessPeriod
      mappingBlocks).1 := by
  have hlast := reserved_le_last cfg p (nodeOf cfg nodePrefix)
  have hlt : p.nextSeqNo cfg (nodeOf cfg nodePrefix) < 2 ^ 64 := Nat.mod_lt _ (by decide)
  have hnext := nextSeqNo_eq hroom
  have hreserve :
      Tidy cfg (p.reserve (nodeOf cfg nodePrefix) (p.lastSeqNo cfg (nodeOf cfg nodePrefix))) :=
    h.reserve (by lia) hlast
  rcases prepareAndStage_cases cfg env p kind name nodePrefix freshnessPeriod mappingBlocks with
    ⟨-, hfailed⟩ | ⟨p₁, prepared, halters, hstages, hresult⟩
  · cases hcall : p.prepareAndStageAsyncPublication cfg env kind name nodePrefix freshnessPeriod
      mappingBlocks with
    | mk p' result =>
      cases result with
      | ok _ => exact absurd (congrArg Prod.snd hcall) hfailed
      | error e =>
        have hstore := (prepareAndStage_noTrace h hroom hcall hrolls).dataStore
        rcases prepareAndStage_error hcall with ⟨-, rfl⟩ | ⟨prepared, dataStore, -, -, rfl⟩
        · exact hreserve
        · exact hreserve.congr hstore rfl fun _ hother => hother
  · have hdiffers := halters.differs
    rw [hresult, halters.state]
    refine hreserve.change hlt hdiffers (.inl ?_) (limit_insert hreserve hlt) (le_insert ?_)
      fun other hother => ?_
    · simp [return_, stage]
    · simp only [Publisher.reserve, Map.get_insert, if_true, Option.getD_some]
      lia
    · rcases hother with hmem | hat
      · rcases List.mem_append.mp hmem with hmem | hmem
        · exact .inl (.inl hmem)
        · obtain rfl := List.mem_singleton.mp hmem
          refine .inr ⟨?_, ?_⟩
          · rw [hstages.seqNo, hstages.nodePrefix]
            simp [return_, stage]
          · rw [hstages.seqNo, hstages.nodePrefix]
            exact hstages.wellNamed
      · exact .inl (.inr hat)

theorem Tidy.step (h : Tidy cfg p) {o : Occurrence} (hstep : Publisher.step cfg p o = some p')
    (hok : Orderly cfg p o) : Tidy cfg p' := by
  obtain ⟨event, inputs⟩ := o
  obtain ⟨hroom, hrolls, hwithdraws⟩ := hok
  cases event with
  | publishBytes name value nodePrefix freshnessPeriod mappingBlocks =>
    obtain rfl := Option.some.inj hstep
    exact h.publishBytes (hroom _ rfl) hrolls hwithdraws
  | publishName name nodePrefix mappingBlocks =>
    obtain rfl := Option.some.inj hstep
    exact h.publishesReserved (hroom _ rfl) (publishName_publishes _ _ _ _)
  | publishPacket data nodePrefix mappingBlocks =>
    obtain rfl := Option.some.inj hstep
    exact h.publishesReserved (hroom _ rfl) (publishPacket_publishes _ _ _ _)
  | publishBytesAsync name value nodePrefix freshnessPeriod mappingBlocks =>
    obtain rfl := Option.some.inj hstep
    exact h.prepareAndStage (hroom _ rfl) fun prepared hprepare =>
      .inr (hrolls (by rw [hprepare]; rfl))
  | publishNameAsync name nodePrefix freshnessPeriod mappingBlocks =>
    obtain rfl := Option.some.inj hstep
    exact h.prepareAndStage (hroom _ rfl) fun prepared hprepare =>
      .inl (prepare_length hprepare fun value hkind => by cases hkind)
  | publishPacketAsync data nodePrefix mappingBlocks =>
    obtain rfl := Option.some.inj hstep
    exact h.prepareAndStage (hroom _ rfl) fun prepared hprepare =>
      .inl (prepare_length hprepare fun value hkind => by cases hkind)
  | preparedPublication index =>
    obtain ⟨publication, hindex, rfl⟩ := (Publisher.step_preparedPublication rfl).mp hstep
    exact (h.unstage hindex).commitReady _ _
  | retry index =>
    obtain ⟨nid, s, -, rfl⟩ := (Publisher.step_retry rfl).mp hstep
    unfold onRetry
    split
    · exact h.congr rfl rfl fun _ hother => hother
    · rename_i publication hat
      exact (h.clearRetry hat _).commitReady _ _
  | extraBlocks =>
    obtain rfl := Option.some.inj hstep
    exact h.congr rfl rfl fun _ hother => hother
  | core event =>
    obtain ⟨_, -, rfl⟩ := (Publisher.step_core rfl).mp hstep
    exact h.congr rfl rfl fun _ hother => hother

/-- A call that throws because a signer or the Data store throws leaves no trace exactly when it is
not the synchronous call for a packet and its rollback erases what it has stored. -/
theorem failed_call_leaves_no_trace {es : List Occurrence} {o : Occurrence} {e : Error}
    (hok : Along (Publisher.step cfg) (Orderly cfg) {} es)
    (hrun : run (Publisher.step cfg) {} es = some p) (hroom : HasRoomFor cfg p o)
    (hcall : p.call cfg o = some (p', .error e)) (he : e.OfSignerOrStore) :
    Publisher.step cfg p o = some p' ∧ (NoTrace cfg p p' ↔ Recovers cfg p o) := by
  have h : Tidy cfg p := run_invariant_along
    (fun p o p' hstep hok (h : Tidy cfg p) => h.step hstep hok) tidy_empty hok hrun
  refine ⟨step_of_call hcall, ?_⟩
  obtain ⟨event, inputs⟩ := o
  cases event with
  | publishBytes name value nodePrefix freshnessPeriod mappingBlocks =>
    have hiff := publishBytes_noTrace_iff h (hroom _ rfl) (Option.some.inj hcall) he
    exact hiff.trans ⟨fun hrolls => ⟨rfl, hrolls⟩, fun hrecovers => hrecovers.2⟩
  | publishName name nodePrefix mappingBlocks =>
    have hpositive : p.nextSeqNo cfg (nodeOf cfg nodePrefix) ≠ 0 := by
      rw [nextSeqNo_eq (hroom _ rfl)]
      exact Nat.succ_ne_zero _
    exact absurd he (announce_error hpositive (Option.some.inj hcall))
  | publishPacket data nodePrefix mappingBlocks =>
    have htrace := publishPacket_trace (hroom _ rfl) (Option.some.inj hcall)
    exact ⟨fun hnone => absurd hnone htrace, fun hrecovers => (by cases hrecovers.1)⟩
  | publishBytesAsync name value nodePrefix freshnessPeriod mappingBlocks =>
    have hcall := Option.some.inj hcall
    refine ⟨fun htrace =>
      ⟨rfl, prepareAndStage_rollsBack h (hroom _ rfl) hcall he htrace, trivial⟩, ?_⟩
    exact fun hrecovers => prepareAndStage_noTrace h (hroom _ rfl) hcall fun prepared hprepare =>
      .inr (hrecovers.2.1 (by rw [hprepare]; rfl))
  | publishNameAsync name nodePrefix freshnessPeriod mappingBlocks =>
    refine ⟨fun _ => ⟨rfl, trivial, trivial⟩, fun _ => ?_⟩
    exact prepareAndStage_noTrace h (hroom _ rfl) (Option.some.inj hcall) fun prepared hprepare =>
      .inl (prepare_length hprepare fun value hkind => by cases hkind)
  | publishPacketAsync data nodePrefix mappingBlocks =>
    refine ⟨fun _ => ⟨rfl, trivial, trivial⟩, fun _ => ?_⟩
    exact prepareAndStage_noTrace h (hroom _ rfl) (Option.some.inj hcall) fun prepared hprepare =>
      .inl (prepare_length hprepare fun value hkind => by cases hkind)
  | preparedPublication => cases hcall
  | retry => cases hcall
  | extraBlocks => cases hcall
  | core => cases hcall

/-- What a call throws. -/
def thrown : Option (Outcome Publisher) → Option Error
  | some (_, .error e) => some e
  | _ => none

theorem call_of_thrown {o : Occurrence} {e : Error} (h : thrown (p.call cfg o) = some e) :
    ∃ p', p.call cfg o = some (p', .error e) := by
  unfold thrown at h
  split at h
  · rename_i p' _ hcall
    obtain rfl := Option.some.inj h
    exact ⟨p', hcall⟩
  · cases h

/-- A publication of bytes during which the Data store throws. -/
def failingBytes : Occurrence :=
  ⟨.publishBytes (Name.ofStrings ["y"]) sampleSpan [] 0 [],
    fun i => { sampleInputs i with storeThrowsAt := some 0 }⟩

theorem failed_call_leaves_no_trace_bytes :
    let p := (run (Publisher.step sampleConfig) {} (orderedRun.take 1)).get (by decide +kernel)
    ∃ p', Publisher.step sampleConfig p failingBytes = some p' ∧ NoTrace sampleConfig p p' := by
  intro p
  obtain ⟨p', hcall⟩ := @call_of_thrown sampleConfig p failingBytes
    (.runtime "DataStore insertion failed") (by decide +kernel)
  obtain ⟨hstep, hiff⟩ := @failed_call_leaves_no_trace sampleConfig p p'
    (orderedRun.take 1) failingBytes
    _ (by decide +kernel) (Option.some_get _).symm (by decide +kernel) hcall (by decide)
  exact ⟨p', hstep, hiff.mpr (by decide +kernel)⟩

/-- A publication of a packet whose encapsulation cannot be signed. -/
def failingPacket : Occurrence :=
  ⟨.publishPacket { name := Name.ofStrings ["y"], signatureValue := some [1] } [] [],
    fun _ => { core := { signData := fun _ => none } }⟩

/-- The packet has reserved the number 1, so the next publication gets 2. -/
theorem failed_packet_loses_number : ∃ p',
    ({} : Publisher).call sampleConfig failingPacket =
    some (p', .error (.runtime "signer failed")) ∧
      ({} : Publisher).nextSeqNo sampleConfig sampleConfig.core.id = 1 ∧
      p'.nextSeqNo sampleConfig sampleConfig.core.id = 2 ∧ ¬NoTrace sampleConfig {} p' := by
  obtain ⟨p', hcall⟩ := @call_of_thrown sampleConfig {} failingPacket
    (.runtime "signer failed") (by decide +kernel)
  have hbefore : ({} : Publisher).nextSeqNo sampleConfig sampleConfig.core.id = 1 := by
    decide +kernel
  have hresult : (({} : Publisher).call sampleConfig failingPacket).map
      (fun r => r.1.nextSeqNo sampleConfig sampleConfig.core.id) = some 2 := by decide +kernel
  rw [hcall] at hresult
  have hafter : p'.nextSeqNo sampleConfig sampleConfig.core.id = 2 := Option.some.inj hresult
  refine ⟨p', hcall, hbefore, hafter, fun htrace => ?_⟩
  have hsame := htrace.nextSeqNo sampleConfig.core.id
  rw [hbefore, hafter] at hsame
  cases hsame

end Publisher

end NdnSvs
