import NdnSvs.FailedCalls

/-! A batch of packets that is inserted into a Data store whose erasures work.  A rollback erases
the names of the packets that came before the failed insertion, so it gives back what was there
before only when the store had nothing under these names. -/

namespace NdnSvs

open Lib

namespace DataStore

variable {cfg : PubSubConfig} {env : PublishInputs} {store : DataStore} {packets : List Data}

/-- The store takes the whole batch or, when the call throws, is what it was. -/
def AllOrNothing (cfg : PubSubConfig) (env : PublishInputs) (store : DataStore)
    (packets : List Data) : Prop :=
  match store.insertPreparedDataBatch cfg env packets with
  | (store', .ok ()) => store' = store.insertAll Data.name packets
  | (store', .error _) => store' = store

/-- The packets that are inserted before an insertion that throws have new names. -/
def OverwritesNothing (cfg : PubSubConfig) (env : PublishInputs) (store : DataStore)
    (packets : List Data) : Prop :=
  Insertable cfg packets → ∀ k ∈ env.storeThrowsAt, k < packets.length →
    ∀ d ∈ packets.take k, store[d.name]? = none

/-- A loop that ends without an exception has met no insertion that throws. -/
theorem insertLoop_ends {inserted names : List Name} {throwsAt : Option Nat} {store' : DataStore}
    (h : store.insertLoop inserted packets throwsAt = (store', names, true)) :
    store' = store.insertAll Data.name packets ∧ ∀ k ∈ throwsAt, packets.length ≤ k := by
  induction packets generalizing store inserted throwsAt with
  | nil => exact ⟨(Prod.mk.inj h).1.symm, fun _ _ => Nat.zero_le _⟩
  | cons d packets ih =>
    rw [insertLoop] at h
    split at h
    · cases (Prod.mk.inj (Prod.mk.inj h).2).2
    · rename_i hzero
      obtain ⟨hstore, hlater⟩ := ih h
      refine ⟨hstore, fun k hk => ?_⟩
      obtain rfl := Option.mem_def.mp hk
      have hpos : k ≠ 0 := fun hk => hzero (congrArg some hk)
      have := hlater (k - 1) rfl
      rw [List.length_cons]
      omega

/-- How a batch ends: at a check, at the end of the loop, or at an insertion that throws. -/
theorem insertPreparedDataBatch_ends (herase : env.eraseThrowsAt = none) :
    (¬Insertable cfg packets ∧ ∃ e,
      store.insertPreparedDataBatch cfg env packets = (store, .error e)) ∨
    ((∀ k ∈ env.storeThrowsAt, packets.length ≤ k) ∧
      store.insertPreparedDataBatch cfg env packets =
        (store.insertAll Data.name packets, .ok ())) ∨
    (Insertable cfg packets ∧ ∃ k ∈ env.storeThrowsAt, k < packets.length ∧ ∃ e,
      store.insertPreparedDataBatch cfg env packets =
        (eraseAll (store.insertAll Data.name (packets.take k))
          ((packets.take k).map Data.name).reverse, .error e)) := by
  by_cases hsupports : packets ≠ [] ∧ ¬cfg.supportsErase
  · refine .inl ⟨fun h => ?_, _, if_pos hsupports⟩
    exact h.1.elim hsupports.1 hsupports.2
  rw [insertPreparedDataBatch, if_neg hsupports]
  have hmay : packets = [] ∨ cfg.supportsErase := by
    by_contra hnot
    exact hsupports ⟨fun h => hnot (.inl h), fun h => hnot (.inr h)⟩
  cases hcheck : packets.forM (checkFinalPacketSize cfg
      "prepared SVS Data exceeds MAX_NDN_PACKET_SIZE") with
  | error e =>
    refine .inl ⟨fun h => ?_, e, rfl⟩
    rw [h.2] at hcheck
    cases hcheck
  | ok _ =>
    rcases hloop : store.insertLoop [] packets env.storeThrowsAt with ⟨store', names, finished⟩
    cases finished with
    | true =>
      obtain ⟨rfl, hlater⟩ := insertLoop_ends hloop
      exact .inr (.inl ⟨hlater, rfl⟩)
    | false =>
      obtain ⟨k, hk, hlt, rfl, rfl⟩ := insertLoop_throws hloop
      refine .inr (.inr ⟨⟨hmay, hcheck⟩, k, hk, hlt, .runtime "DataStore insertion failed", ?_⟩)
      have hreliable := @eraseLoop_of_reliable (store.insertAll Data.name (packets.take k))
        ((packets.take k).map Data.name).reverse env.eraseThrowsAt (by simp [herase])
      simp only [List.nil_append, hreliable]

/-- A batch is all or nothing exactly when its rollback erases only what the call has brought. -/
theorem all_or_nothing_iff (herase : env.eraseThrowsAt = none) :
    AllOrNothing cfg env store packets ↔ OverwritesNothing cfg env store packets := by
  unfold AllOrNothing
  rcases @insertPreparedDataBatch_ends cfg env store packets herase with
    ⟨hnot, e, hbatch⟩ | ⟨hlater, hbatch⟩ | ⟨hinsertable, k, hk, hlt, e, hbatch⟩
  · rw [hbatch]
    exact ⟨fun _ h => absurd h hnot, fun _ => rfl⟩
  · rw [hbatch]
    refine ⟨fun _ _ k hk hlt => ?_, fun _ => rfl⟩
    exact absurd hlt (Nat.not_lt.mpr (hlater k hk))
  · rw [hbatch]
    constructor
    · intro hsame _ j hj _ d hd
      obtain rfl : j = k := Option.some.inj ((Option.mem_def.mp hj).symm.trans hk)
      have hname : d.name ∈ ((packets.take j).map Data.name).reverse :=
        List.mem_reverse.mpr (List.mem_map_of_mem hd)
      have hgone := @eraseAll_get_of_mem (store.insertAll Data.name (packets.take j)) _ _ hname
      rwa [show eraseAll _ _ = store from hsame] at hgone
    · intro hnew
      exact eraseAll_insertAll (fun n => List.mem_reverse) (hnew hinsertable k hk hlt)

/-- A signed packet without content. -/
def smallPacket (name : String) : Data :=
  { name := Name.ofStrings [name], signatureValue := some [1] }

/-- The store throws at the second insertion. -/
def failingSecond : PublishInputs :=
  { core := { signData := fun _ => some [1] }, storeThrowsAt := some 1 }

theorem all_or_nothing_new :
    AllOrNothing sampleConfig failingSecond ∅ [smallPacket "x", smallPacket "y"] :=
  (all_or_nothing_iff rfl).mpr fun _ _ _ _ _ _ => by simp

/-- The batch replaces the packet in the store, and its rollback erases the replacement. -/
theorem rollback_erases_stored : ¬AllOrNothing sampleConfig failingSecond
    ((∅ : DataStore).insert (smallPacket "x").name (smallPacket "x"))
    [{ smallPacket "x" with content := [7] }, smallPacket "y"] := by
  intro h
  unfold AllOrNothing at h
  have hlost : (insertPreparedDataBatch sampleConfig failingSecond
      ((∅ : DataStore).insert (smallPacket "x").name (smallPacket "x"))
      [{ smallPacket "x" with content := [7] }, smallPacket "y"]).1[(smallPacket "x").name]? =
      none := by decide +kernel
  have hthrows : (insertPreparedDataBatch sampleConfig failingSecond
      ((∅ : DataStore).insert (smallPacket "x").name (smallPacket "x"))
      [{ smallPacket "x" with content := [7] }, smallPacket "y"]).2 ≠ .ok () := by decide +kernel
  split at h
  · rename_i hbatch
    rw [hbatch] at hthrows
    exact hthrows rfl
  · rename_i hbatch
    rw [hbatch, h, Map.get_insert, if_pos rfl] at hlost
    cases hlost

end DataStore

end NdnSvs
