import Mathlib.Data.Finset.Max
import NdnSvs.BatchInsertion

/-! Data stores by their virtual functions, and batches of packets over any of them.  The default
store keeps packets by their full names, which end in a digest, and a rollback erases them by their
names: what a batch has inserted stays. -/

namespace NdnSvs

open Lib

/-- The virtual functions of a Data store over its states, with what the base class does. -/
structure StoreClass (σ : Type) where
  find : σ → Interest → Option Data
  insert : σ → Data → σ
  supportsErase : Bool := false
  erase : σ → Name → Result σ :=
    fun _ _ => .error (.logicError "DataStore exact-name erase is unsupported")

namespace StoreClass

variable {σ : Type} (store : StoreClass σ)

/-! ### Batches -/

def insertLoop (s : σ) (inserted : List Name) : List Data → Option Nat → σ × List Name × Bool
  | [], _ => (s, inserted, true)
  | packet :: packets, throwsAt =>
    if throwsAt = some 0 then (s, inserted, false)
    else
      insertLoop (store.insert s packet) (inserted ++ [packet.name]) packets
        (throwsAt.map fun k => k - 1)

def eraseLoop (s : σ) : List Name → Option Nat → σ × Bool
  | [], _ => (s, true)
  | name :: names, throwsAt =>
    if throwsAt = some 0 then (s, false)
    else
      match store.erase s name with
      | .error _ => (s, false)
      | .ok s => eraseLoop s names (throwsAt.map fun k => k - 1)

def insertPreparedDataBatch (cfg : PubSubConfig) (env : PublishInputs) (s : σ)
    (packets : List Data) : Outcome σ :=
  if packets ≠ [] ∧ ¬store.supportsErase then
    (s, .error (.logicError "DataStore does not support transactional rollback"))
  else
    match packets.forM (checkFinalPacketSize cfg
      "prepared SVS Data exceeds MAX_NDN_PACKET_SIZE") with
    | .error e => (s, .error e)
    | .ok () =>
      match store.insertLoop s [] packets env.storeThrowsAt with
      | (s, _, true) => (s, .ok ())
      | (s, inserted, false) =>
        match store.eraseLoop s inserted.reverse env.eraseThrowsAt with
        | (s, true) => (s, .error (.runtime "DataStore insertion failed"))
        | (s, false) => (s, .error (.runtime "DataStore rollback failed after partial insertion"))

/-- Erases a batch, and says whether nothing has been thrown. -/
def removePreparedDataBatch (s : σ) (packets : List Data) (throwsAt : Option Nat) : σ × Bool :=
  if packets ≠ [] ∧ ¬store.supportsErase then (s, false)
  else store.eraseLoop s (packets.map Data.name).reverse throwsAt

/-- Some Interest finds the packet. -/
def Holds (s : σ) (d : Data) : Prop := ∃ interest, store.find s interest = some d

/-- A batch is inserted and removed again, or its insertion throws and is rolled back, and nothing
is reported to have failed on the way back. -/
def TakesBack (cfg : PubSubConfig) (env : PublishInputs) (throwsAt : Option Nat)
    (packets : List Data) (s s' : σ) : Prop :=
  match store.insertPreparedDataBatch cfg env s packets with
  | (inserted, .ok ()) => store.removePreparedDataBatch inserted packets throwsAt = (s', true)
  | (rolledBack, .error e) =>
    e ≠ .runtime "DataStore rollback failed after partial insertion" ∧ s' = rolledBack

/-- The packets of the batch are gone, and the others are what they were. -/
def CleanedUp (packets : List Data) (s s' : σ) : Prop :=
  ∀ d, store.Holds s' d ↔ d ∉ packets ∧ store.Holds s d

/-- The names of a batch are new. -/
def NewNames (packets : List Data) (s : σ) : Prop :=
  ∀ d ∈ packets, ∀ stored, store.Holds s stored → stored.name ≠ d.name

/-- No packet of a batch is inserted. -/
def NothingInserted (cfg : PubSubConfig) (env : PublishInputs) (packets : List Data) : Prop :=
  packets = [] ∨ env.storeThrowsAt = some 0 ∨
    packets.forM (checkFinalPacketSize cfg "prepared SVS Data exceeds MAX_NDN_PACKET_SIZE") ≠ .ok ()

def insertAll (s : σ) (packets : List Data) : σ := packets.foldl store.insert s

variable {store}

/-- The loop of insertions takes a first part of the batch, nothing when the first one throws. -/
theorem insertLoop_cases (s : σ) (inserted : List Name) (packets : List Data)
    (throwsAt : Option Nat) : ∃ before after finished, packets = before ++ after ∧
      store.insertLoop s inserted packets throwsAt =
        (store.insertAll s before, inserted ++ before.map Data.name, finished) ∧
      (finished → after = []) ∧ (before = [] ↔ packets = [] ∨ throwsAt = some 0) := by
  induction packets generalizing s inserted throwsAt with
  | nil => exact ⟨[], [], true, rfl, by rw [insertLoop, List.map_nil, List.append_nil]; rfl,
      fun _ => rfl, iff_of_true rfl (.inl rfl)⟩
  | cons packet packets ih =>
    rw [insertLoop]
    split
    · rename_i hzero
      refine ⟨[], packet :: packets, false, rfl, ?_, nofun, iff_of_true rfl (.inr hzero)⟩
      rw [List.map_nil, List.append_nil]
      rfl
    · rename_i hzero
      obtain ⟨before, after, finished, rfl, hloop, hfinished, -⟩ :=
        ih (store.insert s packet) (inserted ++ [packet.name]) (throwsAt.map fun k => k - 1)
      refine ⟨packet :: before, after, finished, rfl, ?_, hfinished,
        iff_of_false (List.cons_ne_nil _ _) fun h => h.elim (List.cons_ne_nil _ _) hzero⟩
      rw [hloop, List.append_assoc]
      rfl

/-- Taking back a batch is nothing, or a loop over the names of the packets that were inserted. -/
theorem takesBack_cases {cfg : PubSubConfig} {env : PublishInputs} {throwsAt : Option Nat}
    {packets : List Data} {s s' : σ} (hsupports : store.supportsErase)
    (h : store.TakesBack cfg env throwsAt packets s s') :
    (NothingInserted cfg env packets ∧ s' = s) ∨
      (¬NothingInserted cfg env packets ∧ ∃ inserted ⊆ packets, inserted ≠ [] ∧ ∃ throwsAt',
        store.eraseLoop (store.insertAll s inserted) (inserted.map Data.name).reverse throwsAt' =
          (s', true)) := by
  have hmay : ¬(packets ≠ [] ∧ ¬store.supportsErase) := fun h => h.2 hsupports
  rw [TakesBack, insertPreparedDataBatch, if_neg hmay] at h
  cases hchecks : packets.forM (checkFinalPacketSize cfg
      "prepared SVS Data exceeds MAX_NDN_PACKET_SIZE") with
  | error e =>
    rw [hchecks] at h
    refine .inl ⟨.inr (.inr ?_), h.2⟩
    rw [hchecks]
    nofun
  | ok _ =>
    obtain ⟨before, after, finished, happend, hloop, hfinished, hnone⟩ :=
      @insertLoop_cases σ store s [] packets env.storeThrowsAt
    have hnothing : NothingInserted cfg env packets ↔ before = [] := by
      rw [hnone, NothingInserted, hchecks]
      exact or_congr_right (or_iff_left fun h => h rfl)
    simp only [hchecks, hloop, List.nil_append] at h
    have hends : ∃ throwsAt', store.eraseLoop (store.insertAll s before)
        (before.map Data.name).reverse throwsAt' = (s', true) := by
      cases finished with
      | true =>
        rw [hfinished rfl, List.append_nil] at happend
        obtain rfl := happend
        have hremove : store.removePreparedDataBatch (store.insertAll s packets) packets throwsAt =
          (s', true) := h
        rw [removePreparedDataBatch, if_neg hmay] at hremove
        exact ⟨throwsAt, hremove⟩
      | false =>
        refine ⟨env.eraseThrowsAt, ?_⟩
        dsimp only at h
        rcases herase : store.eraseLoop (store.insertAll s before) (before.map Data.name).reverse
          env.eraseThrowsAt with ⟨rolledBack, _ | _⟩
        · rw [herase] at h
          exact absurd rfl h.1
        · rw [herase] at h
          rw [h.2]
    obtain ⟨throwsAt', herase⟩ := hends
    by_cases hbefore : before = []
    · subst hbefore
      exact .inl ⟨hnothing.mpr rfl, (Prod.mk.inj herase).1.symm⟩
    · refine .inr ⟨fun h => hbefore (hnothing.mp h), before, ?_, hbefore, throwsAt', herase⟩
      rw [happend]
      exact List.subset_append_left _ _

theorem eraseLoop_true {erase : σ → Name → σ} (herase : ∀ s n, store.erase s n = .ok (erase s n))
    {names : List Name} {throwsAt : Option Nat} {s s' : σ}
    (h : store.eraseLoop s names throwsAt = (s', true)) : s' = names.foldl erase s := by
  induction names generalizing s throwsAt with
  | nil => exact (Prod.mk.inj h).1.symm
  | cons name names ih =>
    rw [eraseLoop] at h
    split at h
    · cases h
    · rw [herase] at h
      exact ih h

theorem cleanedUp_self {packets : List Data} {s : σ} (hnew : store.NewNames packets s) :
    store.CleanedUp packets s s :=
  fun d => ⟨fun h => ⟨fun hd => hnew d hd d h rfl, h⟩, fun h => h.2⟩

/-! ### Packets by their names -/

/-- A store that keeps packets by their names, as the erasure of an exact name has it. -/
def byName (supportsErase : Bool) : StoreClass DataStore where
  find s interest := s[interest.name]?
  insert s d := s.insert d.name d
  supportsErase := supportsErase
  erase s name := .ok (s.erase name)

theorem byName_insertLoop {supportsErase : Bool} (s : DataStore) (inserted : List Name)
    (packets : List Data) (throwsAt : Option Nat) :
    (byName supportsErase).insertLoop s inserted packets throwsAt =
      s.insertLoop inserted packets throwsAt := by
  induction packets generalizing s inserted throwsAt with
  | nil => rfl
  | cons packet packets ih =>
    rw [insertLoop, DataStore.insertLoop]
    split
    · rfl
    · exact ih _ _ _

theorem byName_eraseLoop {supportsErase : Bool} (s : DataStore) (names : List Name)
    (throwsAt : Option Nat) :
    (byName supportsErase).eraseLoop s names throwsAt = s.eraseLoop names throwsAt := by
  induction names generalizing s throwsAt with
  | nil => rfl
  | cons name names ih =>
    rw [eraseLoop, DataStore.eraseLoop]
    split
    · rfl
    · exact ih _ _

theorem byName_insertPreparedDataBatch (cfg : PubSubConfig) (env : PublishInputs) (s : DataStore)
    (packets : List Data) :
    (byName cfg.supportsErase).insertPreparedDataBatch cfg env s packets =
      s.insertPreparedDataBatch cfg env packets := by
  rw [insertPreparedDataBatch, DataStore.insertPreparedDataBatch, byName_insertLoop]
  refine ite_congr rfl (fun _ => rfl) fun _ => ?_
  cases packets.forM (checkFinalPacketSize cfg
      "prepared SVS Data exceeds MAX_NDN_PACKET_SIZE") with
  | error e => rfl
  | ok _ =>
    rcases s.insertLoop [] packets env.storeThrowsAt with ⟨s, inserted, _ | _⟩
    · dsimp only
      rw [byName_eraseLoop]
      rcases s.eraseLoop inserted.reverse env.eraseThrowsAt with ⟨s, _ | _⟩
      · rfl
      · rfl
    · rfl

theorem byName_removePreparedDataBatch (cfg : PubSubConfig) (s : DataStore) (packets : List Data)
    (throwsAt : Option Nat) :
    (byName cfg.supportsErase).removePreparedDataBatch s packets throwsAt =
      s.removePreparedDataBatch cfg packets throwsAt := by
  rw [removePreparedDataBatch, byName_eraseLoop]
  rfl

/-- Where packets are kept by their names, taking a batch back cleans up. -/
theorem byName_cleanedUp {cfg : PubSubConfig} {env : PublishInputs} {throwsAt : Option Nat}
    {packets : List Data} {s s' : DataStore}
    (hown : ∀ (n : Name) (d : Data), s[n]? = some d → d.name = n)
    (hnew : (byName true).NewNames packets s)
    (h : (byName true).TakesBack cfg env throwsAt packets s s') :
    (byName true).CleanedUp packets s s' := by
  rcases takesBack_cases rfl h with ⟨-, rfl⟩ | ⟨-, inserted, hsubset, -, throwsAt', herase⟩
  · exact cleanedUp_self hnew
  · have hsame : DataStore.eraseAll (s.insertAll Data.name inserted)
        (inserted.map Data.name).reverse = s := by
      refine DataStore.eraseAll_insertAll (fun n => List.mem_reverse) fun d hd => ?_
      refine Option.eq_none_iff_forall_ne_some.mpr fun stored hstored => ?_
      exact hnew d (hsubset hd) stored ⟨{ name := d.name }, hstored⟩ (hown _ _ hstored)
    obtain rfl : s' = s := (eraseLoop_true (fun _ _ => rfl) herase).trans hsame
    exact cleanedUp_self hnew

end StoreClass

/-! ### Packets by their full names -/

/-- What the code relies on of the in-memory storage: packets are kept by their full names, an
insertion keeps a packet that is there, and a full name is erased alone. -/
structure InMemoryStorage (cxx : NdnCxx) where
  State : Type
  /-- The packet of a full name. -/
  lookup : State → Name → Option Data
  find : State → Interest → Option Data
  insert : State → Data → State
  /-- The erasure of a name that is not meant as the beginning of others. -/
  erase : State → Name → State
  fullName_of_lookup : ∀ {s n d}, lookup s n = some d → d.fullName cxx = n
  lookup_insert : ∀ s d n, lookup (insert s d) n =
    if d.fullName cxx = n then some ((lookup s n).getD d) else lookup s n
  lookup_erase : ∀ s n n', lookup (erase s n) n' = if n = n' then none else lookup s n'
  find_of_lookup : ∀ {s i d}, lookup s i.name = some d → find s i = some d
  lookup_of_find : ∀ {s i d}, find s i = some d → lookup s (d.fullName cxx) = some d

/-- A map of packets under their full names. -/
abbrev FullNameMap (cxx : NdnCxx) :=
  { m : Map Name Data // ∀ (n : Name) (d : Data), m[n]? = some d → d.fullName cxx = n }

namespace FullNameMap

variable {cxx : NdnCxx}

def find (s : FullNameMap cxx) (interest : Interest) : Option Data :=
  s.1[interest.name]?.or
    ((s.1.toList.find? fun entry => entry.2.name = interest.name).map Prod.snd)

def insert (s : FullNameMap cxx) (d : Data) : FullNameMap cxx :=
  ⟨s.1.insert (d.fullName cxx) (s.1[d.fullName cxx]?.getD d), by
    intro n d' h
    rw [Map.get_insert] at h
    split at h
    · rename_i hname
      obtain rfl := Option.some.inj h
      cases hlookup : s.1[d.fullName cxx]? with
      | none => exact hname
      | some there => exact (s.2 _ _ hlookup).trans hname
    · exact s.2 n d' h⟩

def erase (s : FullNameMap cxx) (n : Name) : FullNameMap cxx :=
  ⟨s.1.erase n, by
    intro n' d h
    rw [Map.get_erase] at h
    split at h
    · cases h
    · exact s.2 n' d h⟩

theorem get_of_find {s : FullNameMap cxx} {interest : Interest} {d : Data}
    (h : s.find interest = some d) : s.1[d.fullName cxx]? = some d := by
  rcases Option.or_eq_some_iff.mp h with hget | ⟨-, hfirst⟩
  · rw [s.2 _ _ hget, hget]
  · obtain ⟨entry, hentry, rfl⟩ := Option.map_eq_some_iff.mp hfirst
    have hget := Map.mem_toList.mp (List.mem_of_find?_eq_some hentry)
    rw [s.2 _ _ hget, hget]

end FullNameMap

/-- An in-memory storage for examples. -/
def fullNameStorage (cxx : NdnCxx) : InMemoryStorage cxx where
  State := FullNameMap cxx
  lookup s n := s.1[n]?
  find := FullNameMap.find
  insert := FullNameMap.insert
  erase := FullNameMap.erase
  fullName_of_lookup := fun {s n d} => s.2 n d
  lookup_insert s d n := by
    rw [FullNameMap.insert, Map.get_insert]
    split
    · rename_i hname
      rw [hname]
    · rfl
  lookup_erase s n n' := Map.get_erase _ _ _
  find_of_lookup h := by rw [FullNameMap.find, h, Option.some_or]
  lookup_of_find := FullNameMap.get_of_find

def memoryDataStore {cxx : NdnCxx} (ims : InMemoryStorage cxx) : StoreClass ims.State where
  find := ims.find
  insert := ims.insert
  supportsErase := true
  erase s name := .ok (ims.erase s name)

namespace MemoryDataStore

open StoreClass
open DataStore (smallPacket failingSecond)

variable {cxx : NdnCxx} {ims : InMemoryStorage cxx} {s s' : ims.State} {packets : List Data}

theorem holds_iff {d : Data} :
    (memoryDataStore ims).Holds s d ↔ ims.lookup s (d.fullName cxx) = some d := by
  constructor
  · rintro ⟨interest, hfind⟩
    exact ims.lookup_of_find hfind
  · intro hlookup
    exact ⟨{ name := d.fullName cxx }, ims.find_of_lookup hlookup⟩

/-- Erasing names leaves every other name alone. -/
theorem lookup_eraseAll {names : List Name} {n : Name} (hn : n ∉ names) :
    ims.lookup (names.foldl ims.erase s) n = ims.lookup s n := by
  induction names generalizing s with
  | nil => rfl
  | cons name names ih =>
    rw [List.mem_cons, not_or] at hn
    rw [List.foldl_cons, ih hn.2, ims.lookup_erase, if_neg (Ne.symm hn.1)]

/-- What is stored under a full name stays when packets are inserted. -/
theorem lookup_insertAll_of_some {n : Name} {d : Data} (h : ims.lookup s n = some d) :
    ims.lookup ((memoryDataStore ims).insertAll s packets) n = some d := by
  induction packets generalizing s with
  | nil => exact h
  | cons packet packets ih =>
    refine @ih (ims.insert s packet) ?_
    rw [ims.lookup_insert, h, Option.getD_some, ite_self]

/-- The full name of a packet of the batch finds a packet of the batch, unless it found another
before. -/
theorem lookup_insertAll {d : Data} (hd : d ∈ packets) : ∃ stored,
    ims.lookup ((memoryDataStore ims).insertAll s packets) (d.fullName cxx) = some stored ∧
      (stored ∈ packets ∨ ims.lookup s (d.fullName cxx) = some stored) := by
  induction packets generalizing s with
  | nil => cases hd
  | cons packet packets ih =>
    -- what the full name finds when the first packet has been inserted
    have hfirst : ∀ stored, ims.lookup (ims.insert s packet) (d.fullName cxx) = some stored →
        stored ∈ packet :: packets ∨ ims.lookup s (d.fullName cxx) = some stored := by
      intro stored hstored
      rw [ims.lookup_insert] at hstored
      split at hstored
      · cases hlookup : ims.lookup s (d.fullName cxx) with
        | none =>
          rw [hlookup] at hstored
          exact .inl (Option.some.inj hstored ▸ List.mem_cons_self)
        | some there =>
          rw [hlookup] at hstored
          exact .inr hstored
      · exact .inr hstored
    rcases List.mem_cons.mp hd with rfl | hd
    · have hstored := ims.lookup_insert s d (d.fullName cxx)
      rw [if_pos rfl] at hstored
      exact ⟨_, @lookup_insertAll_of_some cxx ims (ims.insert s d) packets _ _ hstored,
        hfirst _ hstored⟩
    · obtain ⟨stored, hstored, hbatch | hbefore⟩ := @ih (ims.insert s packet) hd
      · exact ⟨stored, hstored, .inl (List.mem_cons_of_mem _ hbatch)⟩
      · exact ⟨stored, hstored, hfirst stored hbefore⟩

/-- When the names of packets that have been inserted are erased, one of the packets stays: no name
that is erased is as long as the full name of the packet with the longest name. -/
theorem holds_inserted {inserted : List Data} (hne : inserted ≠ [])
    (hnew : (memoryDataStore ims).NewNames inserted s) :
    ∃ d ∈ inserted, (memoryDataStore ims).Holds
      ((inserted.map Data.name).reverse.foldl ims.erase
        ((memoryDataStore ims).insertAll s inserted)) d := by
  obtain ⟨longest, hlongest, hmax⟩ := inserted.toFinset.exists_max_image (fun d => d.name.length)
    ((List.toFinset_nonempty_iff _).mpr hne)
  rw [List.mem_toFinset] at hlongest
  have hkept : longest.fullName cxx ∉ (inserted.map Data.name).reverse := by
    intro hname
    obtain ⟨d, hd, heq⟩ := List.mem_map.mp (List.mem_reverse.mp hname)
    have hle := hmax d (List.mem_toFinset.mpr hd)
    rw [heq, Data.fullName, List.length_append, List.length_singleton] at hle
    omega
  obtain ⟨stored, hstored, hbatch⟩ := @lookup_insertAll cxx ims s inserted longest hlongest
  have hfull := ims.fullName_of_lookup hstored
  have hmem : stored ∈ inserted := by
    refine hbatch.resolve_right fun hbefore => ?_
    exact hnew longest hlongest stored (holds_iff.mpr (hfull ▸ hbefore))
      (List.append_inj_left' hfull rfl)
  refine ⟨stored, hmem, holds_iff.mpr ?_⟩
  rw [hfull, lookup_eraseAll hkept, hstored]

theorem not_cleanedUp {inserted : List Data} (hne : inserted ≠ []) (hsubset : inserted ⊆ packets)
    (hnew : (memoryDataStore ims).NewNames packets s) :
    ¬(memoryDataStore ims).CleanedUp packets s
      ((inserted.map Data.name).reverse.foldl ims.erase
        ((memoryDataStore ims).insertAll s inserted)) := by
  intro hclean
  obtain ⟨d, hd, hholds⟩ := holds_inserted hne fun d hd => hnew d (hsubset hd)
  exact ((hclean d).mp hholds).1 (hsubset hd)

/-- The default store is cleaned up when a batch is taken back exactly when nothing of the batch
had been inserted. -/
theorem cleanedUp_iff_nothing_inserted {cfg : PubSubConfig} {env : PublishInputs}
    {throwsAt : Option Nat} {ims : InMemoryStorage cfg.core.cxx} {s s' : ims.State}
    {packets : List Data} (hnew : (memoryDataStore ims).NewNames packets s)
    (h : (memoryDataStore ims).TakesBack cfg env throwsAt packets s s') :
    (memoryDataStore ims).CleanedUp packets s s' ↔ NothingInserted cfg env packets := by
  rcases takesBack_cases rfl h with
    ⟨hnothing, rfl⟩ | ⟨hnot, inserted, hsubset, hne, throwsAt', herase⟩
  · exact iff_of_true (cleanedUp_self hnew) hnothing
  · obtain rfl := eraseLoop_true (fun _ _ => rfl) herase
    exact iff_of_false (not_cleanedUp hne hsubset hnew) hnot

/-- A default store for examples. -/
abbrev sampleStore : StoreClass (fullNameStorage sampleConfig.core.cxx).State :=
  memoryDataStore (fullNameStorage sampleConfig.core.cxx)

def emptyStorage : (fullNameStorage sampleConfig.core.cxx).State := ⟨∅, by simp⟩

def sampleBatch : List Data := [smallPacket "x", smallPacket "y"]

theorem newNames_empty (packets : List Data) : sampleStore.NewNames packets emptyStorage := by
  intro d _ stored hstored
  have hnone : (fullNameStorage sampleConfig.core.cxx).lookup emptyStorage
      (stored.fullName sampleConfig.core.cxx) = none := Std.ExtTreeMap.getElem?_empty
  rw [holds_iff, hnone] at hstored
  cases hstored

theorem sampleBatch_checked : sampleBatch.forM (checkFinalPacketSize sampleConfig
    "prepared SVS Data exceeds MAX_NDN_PACKET_SIZE") = .ok () := by
  decide +kernel

/-- The first insertion throws, and the rollback has nothing to erase. -/
theorem cleanedUp_first_throws :
    sampleStore.TakesBack sampleConfig { failingSecond with storeThrowsAt := some 0 } none
      sampleBatch emptyStorage emptyStorage ∧
    sampleStore.CleanedUp sampleBatch emptyStorage emptyStorage := by
  have htakes : sampleStore.TakesBack sampleConfig { failingSecond with storeThrowsAt := some 0 }
      none sampleBatch emptyStorage emptyStorage := by
    rw [TakesBack, StoreClass.insertPreparedDataBatch, if_neg (by decide), sampleBatch_checked]
    exact ⟨by decide, rfl⟩
  exact ⟨htakes,
    (cleanedUp_iff_nothing_inserted (newNames_empty _) htakes).mpr (.inr (.inl rfl))⟩

/-- The second insertion throws.  The rollback erases the name of the first packet and reports no
failure, and the packet is still found. -/
theorem rolled_back_packet_stays : ∃ s',
    sampleStore.insertPreparedDataBatch sampleConfig failingSecond emptyStorage sampleBatch =
      (s', .error (.runtime "DataStore insertion failed")) ∧
    sampleStore.NewNames sampleBatch emptyStorage ∧
    sampleStore.TakesBack sampleConfig failingSecond none sampleBatch emptyStorage s' ∧
    ¬sampleStore.CleanedUp sampleBatch emptyStorage s' := by
  have hbatch : sampleStore.insertPreparedDataBatch sampleConfig failingSecond emptyStorage
      sampleBatch = ([(smallPacket "x").name].foldl (fullNameStorage sampleConfig.core.cxx).erase
        (sampleStore.insertAll emptyStorage [smallPacket "x"]),
        .error (.runtime "DataStore insertion failed")) := by
    rw [StoreClass.insertPreparedDataBatch, if_neg (by decide), sampleBatch_checked]
    rfl
  refine ⟨_, hbatch, newNames_empty _, ?_, ?_⟩
  · rw [TakesBack, hbatch]
    exact ⟨by decide, rfl⟩
  · exact @not_cleanedUp _ _ _ sampleBatch [smallPacket "x"] (List.cons_ne_nil _ _)
      (by simp [sampleBatch]) (newNames_empty _)

end MemoryDataStore

end NdnSvs
