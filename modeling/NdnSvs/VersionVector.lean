import NdnSvs.Lib.Maps
import NdnSvs.Packet

/-! State vectors: the sequence numbers known of each node in each of its epochs, and their two wire
layouts.  The main result is that the decoder returns every entry that the encoder wrote. -/

namespace NdnSvs

open Lib Lib.Tlv

abbrev BootstrapSeqMap := Map BootstrapTime SeqNo

def maxSeqNo (node : BootstrapSeqMap) : SeqNo :=
  node.toList.foldl (fun latest e => max latest e.2) 0

/-- The latest sequence number of a node that has entries. -/
def latestOf (entries : Map NodeID BootstrapSeqMap) (nid : NodeID) : Option SeqNo :=
  (entries[nid]?).bind fun node => if node.isEmpty then none else some (maxSeqNo node)

theorem latestOf_empty (nid : NodeID) : (∅ : Map NodeID SeqNo)[nid]? = latestOf ∅ nid := by
  simp [latestOf]

/-- The map of the latest numbers follows from the entries. -/
structure VersionVector where
  entries : Map NodeID BootstrapSeqMap := ∅
  latestMap : Map NodeID SeqNo := ∅
  latest_eq : ∀ nid, latestMap[nid]? = latestOf entries nid := by exact latestOf_empty
deriving DecidableEq

namespace VersionVector

def getEntries (v : VersionVector) (nid : NodeID) : BootstrapSeqMap := (v.entries[nid]?).getD ∅

/-- The entry of a node in one epoch. -/
def entryAt (v : VersionVector) (nid : NodeID) (bootstrapTime : BootstrapTime) : Option SeqNo :=
  (v.entries[nid]?).bind fun node => node[bootstrapTime]?

/-- The sequence number of a node in one epoch, 0 when there is none. -/
def get (v : VersionVector) (nid : NodeID) (bootstrapTime : BootstrapTime) : SeqNo :=
  (v.entryAt nid bootstrapTime).getD 0

/-- The latest sequence number of a node over its epochs. -/
def getLatest (v : VersionVector) (nid : NodeID) : SeqNo := (v.latestMap[nid]?).getD 0

def has (v : VersionVector) (nid : NodeID) : Bool := (v.entries[nid]?).isSome

def refreshLatest (entries : Map NodeID BootstrapSeqMap) (latestMap : Map NodeID SeqNo)
    (nid : NodeID) : Map NodeID SeqNo :=
  match entries[nid]? with
  | none => latestMap.erase nid
  | some node =>
    if node.isEmpty then latestMap.erase nid else latestMap.insert nid (maxSeqNo node)

theorem refreshLatest_eq {entries : Map NodeID BootstrapSeqMap} {latestMap : Map NodeID SeqNo}
    {nid : NodeID} (h : ∀ nid', nid ≠ nid' → latestMap[nid']? = latestOf entries nid')
    (nid' : NodeID) : (refreshLatest entries latestMap nid)[nid']? = latestOf entries nid' := by
  by_cases hnid : nid = nid'
  · subst hnid
    simp only [refreshLatest, latestOf]
    cases entries[nid]? with
    | none => simp
    | some node =>
      simp only [Option.bind_some]
      split <;> simp
  · rw [← h nid' hnid, refreshLatest]
    split
    · exact Map.get_erase_ne hnid
    · split
      · exact Map.get_erase_ne hnid
      · exact Map.get_insert_ne hnid

/-- The assignment that `set` makes once it has checked the sequence number. -/
def put (v : VersionVector) (nid : NodeID) (bootstrapTime : BootstrapTime) (seqNo : SeqNo) :
    VersionVector :=
  let entries := v.entries.insert nid ((v.getEntries nid).insert bootstrapTime seqNo)
  { entries
    latestMap := refreshLatest entries v.latestMap nid
    latest_eq := refreshLatest_eq fun nid' h => by
      rw [v.latest_eq, latestOf, latestOf, Map.get_insert_ne h] }

def set (v : VersionVector) (nid : NodeID) (bootstrapTime : BootstrapTime) (seqNo : SeqNo) :
    Result VersionVector :=
  if seqNo = 0 then .error (.invalidArgument "SVS sequence number must be positive")
  else .ok (v.put nid bootstrapTime seqNo)

theorem put_entries (v : VersionVector) (nid : NodeID) (b : BootstrapTime) (s : SeqNo) :
    (v.put nid b s).entries = v.entries.insert nid ((v.getEntries nid).insert b s) := rfl

theorem le_maxSeqNo {node : BootstrapSeqMap} {b : BootstrapTime} {s : SeqNo}
    (h : node[b]? = some s) : s ≤ maxSeqNo node := by
  have hloop : ∀ (es : List (BootstrapTime × SeqNo)) (m : SeqNo),
      m ≤ es.foldl (fun latest e => max latest e.2) m ∧
        ∀ e ∈ es, e.2 ≤ es.foldl (fun latest e => max latest e.2) m := by
    intro es
    induction es with
    | nil => simp
    | cons e es ih =>
      intro m
      obtain ⟨hm, hes⟩ := ih (max m e.2)
      refine ⟨(le_max_left _ _).trans hm, fun e' he' => ?_⟩
      rcases List.mem_cons.mp he' with rfl | he'
      · exact (le_max_right _ _).trans hm
      · exact hes e' he'
  exact (hloop _ 0).2 (b, s) (Map.mem_toList.mpr h)

/-- The latest number of a node is at least its number in every epoch. -/
theorem get_le_getLatest (v : VersionVector) (nid : NodeID) (b : BootstrapTime) :
    v.get nid b ≤ v.getLatest nid := by
  rw [get, getLatest, v.latest_eq, entryAt, latestOf]
  cases v.entries[nid]? with
  | none => simp
  | some node =>
    simp only [Option.bind_some]
    cases hb : node[b]? with
    | none => simp
    | some s =>
      have hnonempty : node.isEmpty = false := by
        by_contra hempty
        obtain rfl : node = ∅ := by simpa using hempty
        simp at hb
      rw [hnonempty]
      exact le_maxSeqNo hb

theorem entryAt_put (v : VersionVector) (nid nid' : NodeID) (b b' : BootstrapTime) (s : SeqNo) :
    (v.put nid b s).entryAt nid' b' =
      if nid = nid' ∧ b = b' then some s else v.entryAt nid' b' := by
  simp only [entryAt, put_entries, Map.get_insert]
  by_cases hnid : nid = nid'
  · subst hnid
    by_cases hb : b = b'
    · simp [hb]
    · simp only [if_pos, Option.bind_some, Map.get_insert, hb, and_false, getEntries]
      cases v.entries[nid]? <;> simp
  · simp [hnid]

theorem get_put (v : VersionVector) (nid nid' : NodeID) (b b' : BootstrapTime) (s : SeqNo) :
    (v.put nid b s).get nid' b' = if nid = nid' ∧ b = b' then s else v.get nid' b' := by
  simp only [get, entryAt_put]
  split <;> rfl

@[simp] theorem get_put_self (v : VersionVector) (nid : NodeID) (b : BootstrapTime) (s : SeqNo) :
    (v.put nid b s).get nid b = s := by
  simp [get_put]

theorem get_put_ne {v : VersionVector} {nid nid' : NodeID} {b b' : BootstrapTime} {s : SeqNo}
    (h : ¬(nid = nid' ∧ b = b')) : (v.put nid b s).get nid' b' = v.get nid' b' := by
  rw [get_put, if_neg h]

theorem set_ok {v v' : VersionVector} {nid : NodeID} {b : BootstrapTime} {s : SeqNo}
    (h : v.set nid b s = .ok v') : s ≠ 0 ∧ v' = v.put nid b s := by
  unfold set at h
  split at h
  · cases h
  · rename_i hs
    exact ⟨hs, (Except.ok.inj h).symm⟩

@[simp] theorem entryAt_empty (nid : NodeID) (b : BootstrapTime) :
    ({} : VersionVector).entryAt nid b = none := by
  simp [entryAt]

@[simp] theorem get_empty (nid : NodeID) (b : BootstrapTime) :
    ({} : VersionVector).get nid b = 0 := by
  simp [get]

/-- Two vectors with the same entries. -/
def Same (v w : VersionVector) : Prop := ∀ nid b, v.entryAt nid b = w.entryAt nid b

theorem Same.refl (v : VersionVector) : v.Same v := fun _ _ => rfl

theorem Same.symm {v w : VersionVector} (h : v.Same w) : w.Same v := fun nid b => (h nid b).symm

theorem Same.trans {u v w : VersionVector} (h : u.Same v) (h' : v.Same w) : u.Same w :=
  fun nid b => (h nid b).trans (h' nid b)

theorem Same.get {v w : VersionVector} (h : v.Same w) (nid : NodeID) (b : BootstrapTime) :
    v.get nid b = w.get nid b :=
  congrArg (Option.getD · 0) (h nid b)

theorem put_same {v : VersionVector} {nid : NodeID} {b : BootstrapTime} {s : SeqNo}
    (h : v.entryAt nid b = some s) : (v.put nid b s).Same v := by
  intro nid' b'
  rw [entryAt_put]
  split
  · rename_i hkey
    obtain ⟨rfl, rfl⟩ := hkey
    exact h.symm
  · rfl

/-! ### The entries in order -/

/-- An entry of a vector. -/
structure Entry where
  nid : NodeID
  bootstrapTime : BootstrapTime
  seqNo : SeqNo
deriving DecidableEq

/-- The entries of a vector in the order of the loops over it. -/
def allEntries (v : VersionVector) : List Entry :=
  v.entries.toList.flatMap fun node => node.2.toList.map fun e => ⟨node.1, e.1, e.2⟩

theorem mem_allEntries {v : VersionVector} {e : Entry} :
    e ∈ v.allEntries ↔ v.entryAt e.nid e.bootstrapTime = some e.seqNo := by
  simp only [allEntries, List.mem_flatMap, List.mem_map, entryAt, Option.bind_eq_some_iff]
  constructor
  · rintro ⟨⟨nid, node⟩, hnode, ⟨b, s⟩, he, rfl⟩
    exact ⟨node, Map.mem_toList.mp hnode, Map.mem_toList.mp he⟩
  · rintro ⟨node, hnode, he⟩
    exact ⟨(e.nid, node), Map.mem_toList.mpr hnode, (e.bootstrapTime, e.seqNo),
      Map.mem_toList.mpr he, rfl⟩

/-- A loop over the nodes and, in each, over its epochs visits the entries in order. -/
theorem foldl_entries {α : Type*} (v : VersionVector) (f : α → Entry → α) (a : α) :
    v.entries.toList.foldl
      (fun a node => node.2.toList.foldl (fun a e => f a ⟨node.1, e.1, e.2⟩) a) a =
      v.allEntries.foldl f a := by
  simp only [allEntries, List.foldl_flatMap, List.foldl_map]

/-- The vector that has each of the entries, the last one where two are for the same epoch. -/
def putAll (v : VersionVector) (es : List Entry) : VersionVector :=
  es.foldl (fun v e => v.put e.nid e.bootstrapTime e.seqNo) v

theorem entryAt_putAll {es : List Entry} {v : VersionVector} {nid : NodeID} {b : BootstrapTime}
    (hagree : ∀ e ∈ es, e.nid = nid → e.bootstrapTime = b → ∀ e' ∈ es, e'.nid = nid →
      e'.bootstrapTime = b → e'.seqNo = e.seqNo) :
    (∀ e ∈ es, e.nid = nid → e.bootstrapTime = b →
      (v.putAll es).entryAt nid b = some e.seqNo) ∧
    ((∀ e ∈ es, ¬(e.nid = nid ∧ e.bootstrapTime = b)) →
      (v.putAll es).entryAt nid b = v.entryAt nid b) := by
  induction es generalizing v with
  | nil => exact ⟨fun e he => absurd he (by simp), fun _ => rfl⟩
  | cons e es ih =>
    have hrest := ih (v := v.put e.nid e.bootstrapTime e.seqNo) fun x hx hn hb y hy =>
      hagree x (List.mem_cons_of_mem _ hx) hn hb y (List.mem_cons_of_mem _ hy)
    have hcons : v.putAll (e :: es) = (v.put e.nid e.bootstrapTime e.seqNo).putAll es := rfl
    rw [hcons]
    refine ⟨fun x hx hn hb => ?_, fun hne => ?_⟩
    · by_cases hlater : ∃ y ∈ es, y.nid = nid ∧ y.bootstrapTime = b
      · obtain ⟨y, hy, hyn, hyb⟩ := hlater
        rw [hrest.1 y hy hyn hyb]
        exact congrArg some (hagree x hx hn hb y (List.mem_cons_of_mem _ hy) hyn hyb)
      · push Not at hlater
        rw [hrest.2 (by grind), entryAt_put]
        rcases List.mem_cons.mp hx with rfl | hx
        · rw [if_pos ⟨hn, hb⟩]
        · exact absurd hb (hlater x hx hn)
    · rw [hrest.2 fun y hy => hne y (List.mem_cons_of_mem _ hy), entryAt_put,
        if_neg (hne e List.mem_cons_self)]

theorem putAll_allEntries (v : VersionVector) :
    (({} : VersionVector).putAll v.allEntries).Same v := by
  intro nid b
  have hagree : ∀ e ∈ v.allEntries, e.nid = nid → e.bootstrapTime = b → ∀ e' ∈ v.allEntries,
      e'.nid = nid → e'.bootstrapTime = b → e'.seqNo = e.seqNo := by
    intro e he hn hb e' he' hn' hb'
    have h := mem_allEntries.mp he
    have h' := mem_allEntries.mp he'
    rw [hn, hb] at h
    rw [hn', hb', h] at h'
    exact (Option.some.inj h').symm
  obtain ⟨hmem, hnot⟩ := entryAt_putAll (v := {}) hagree
  cases h : v.entryAt nid b with
  | some s => exact hmem ⟨nid, b, s⟩ (mem_allEntries.mpr h) rfl rfl
  | none =>
    rw [hnot, entryAt_empty]
    rintro e he ⟨rfl, rfl⟩
    rw [mem_allEntries.mp he] at h
    cases h

/-! ### Raising entries -/

/-- Sets an entry that is below the given one. -/
def raise (v : VersionVector) (e : Entry) : VersionVector :=
  if v.get e.nid e.bootstrapTime < e.seqNo then v.put e.nid e.bootstrapTime e.seqNo else v

theorem get_raise (v : VersionVector) (e : Entry) (nid : NodeID) (b : BootstrapTime) :
    (v.raise e).get nid b =
      if e.nid = nid ∧ e.bootstrapTime = b then max (v.get nid b) e.seqNo else v.get nid b := by
  unfold raise
  split
  · rename_i hlt
    rw [get_put]
    split
    · rename_i hkey
      obtain ⟨rfl, rfl⟩ := hkey
      exact (Nat.max_eq_right hlt.le).symm
    · rfl
  · rename_i hge
    split
    · rename_i hkey
      obtain ⟨rfl, rfl⟩ := hkey
      exact (Nat.max_eq_left (Nat.not_lt.mp hge)).symm
    · rfl

theorem entryAt_raise {v : VersionVector} {e : Entry} {nid : NodeID} {b : BootstrapTime} {s : SeqNo}
    (h : (v.raise e).entryAt nid b = some s) :
    v.entryAt nid b = some s ∨ e = ⟨nid, b, s⟩ := by
  unfold raise at h
  split at h
  · rw [entryAt_put] at h
    split at h
    · rename_i hkey
      obtain ⟨rfl, rfl⟩ := hkey
      obtain rfl := Option.some.inj h
      exact .inr rfl
    · exact .inl h
  · exact .inl h

theorem get_of_mem_allEntries {v : VersionVector} {e : Entry} (h : e ∈ v.allEntries) :
    v.get e.nid e.bootstrapTime = e.seqNo := by
  rw [get, mem_allEntries.mp h]
  rfl

theorem foldl_raise {r : VersionVector} {es : List Entry} (hes : ∀ e ∈ es, e ∈ r.allEntries)
    (v : VersionVector) (nid : NodeID) (b : BootstrapTime) :
    (es.foldl raise v).get nid b =
      if ∃ e ∈ es, e.nid = nid ∧ e.bootstrapTime = b then max (v.get nid b) (r.get nid b)
      else v.get nid b := by
  induction es generalizing v with
  | nil => simp
  | cons e es ih =>
    have he := get_of_mem_allEntries (hes e List.mem_cons_self)
    rw [List.foldl_cons, ih (fun x hx => hes x (List.mem_cons_of_mem _ hx)), get_raise]
    simp only [List.mem_cons, exists_eq_or_imp]
    by_cases hkey : e.nid = nid ∧ e.bootstrapTime = b
    · obtain ⟨rfl, rfl⟩ := hkey
      simp [he]
    · simp [hkey]

/-- Raising by every entry of a vector takes the larger entry everywhere. -/
theorem get_raiseAll (v r : VersionVector) (nid : NodeID) (b : BootstrapTime) :
    (r.allEntries.foldl raise v).get nid b = max (v.get nid b) (r.get nid b) := by
  rw [foldl_raise (fun e he => he)]
  split
  · rfl
  · rename_i hnone
    have hzero : r.get nid b = 0 := by
      rw [get]
      cases h : r.entryAt nid b with
      | none => rfl
      | some s => exact absurd ⟨⟨nid, b, s⟩, mem_allEntries.mpr h, rfl, rfl⟩ hnone
    rw [hzero, Nat.max_zero]

theorem entryAt_raiseAll {v r : VersionVector} {nid : NodeID} {b : BootstrapTime} {s : SeqNo}
    (h : (r.allEntries.foldl raise v).entryAt nid b = some s) :
    v.entryAt nid b = some s ∨ r.entryAt nid b = some s := by
  have hloop : ∀ (es : List Entry) (v : VersionVector), (∀ e ∈ es, e ∈ r.allEntries) →
      (es.foldl raise v).entryAt nid b = some s →
      v.entryAt nid b = some s ∨ r.entryAt nid b = some s := by
    intro es
    induction es with
    | nil => exact fun v _ h => .inl h
    | cons e es ih =>
      intro v hes h
      rcases ih (v.raise e) (fun x hx => hes x (List.mem_cons_of_mem _ hx)) h with h | h
      · rcases entryAt_raise h with h | rfl
        · exact .inl h
        · exact .inr (mem_allEntries.mp (hes _ List.mem_cons_self))
      · exact .inr h
  exact hloop _ _ (fun e he => he) h

/-! ### Wire layouts -/

def isBootstrapTimeTooFarInFuture (now bootstrapTime : Nat) : Bool := bootstrapTime > now + 86400

def encodeSeqNoEntry (e : BootstrapTime × SeqNo) : Block :=
  Block.ofElements tlv.seqNoEntry
    [Block.ofNumber tlv.bootstrapTime e.1, Block.ofNumber tlv.seqNo e.2]

def encodeEntry (node : NodeID × BootstrapSeqMap) : Block :=
  Block.ofElements tlv.stateVectorEntry (node.1.block :: node.2.toList.map encodeSeqNoEntry)

def encode (v : VersionVector) : Block :=
  Block.ofElements tlv.stateVector (v.entries.toList.map encodeEntry)

/-- The legacy layout: the latest sequence number of each node. -/
def encodeV2 (v : VersionVector) : Block :=
  Block.ofElements tlv.stateVector <| v.latestMap.toList.map fun e =>
    Block.ofElements tlv.stateVectorEntry [e.1.block, Block.ofNumber tlv.seqNoV2 e.2]

def decodeSeqNoEntry (now : Nat) (nodeId : NodeID) (v : VersionVector) (b : Block) :
    Result VersionVector := do
  require (b.type = tlv.seqNoEntry) (.unexpectedType "SeqNoEntry" b.type)
  match ← orMalformed b.parse with
  | [first, second] =>
    require (first.type = tlv.bootstrapTime ∧ second.type = tlv.seqNo)
      (.unexpectedType "SeqNoEntry" b.type)
    let bootstrapTime ← orMalformed first.number
    require (¬isBootstrapTimeTooFarInFuture now bootstrapTime)
      (.runtime "State vector bootstrap time is too far in the future")
    let seqNo ← orMalformed second.number
    require (seqNo ≠ 0) (.runtime "State vector sequence number must be positive")
    v.set nodeId bootstrapTime seqNo
  | _ => .error (.unexpectedType "SeqNoEntry" b.type)

def decodeEntry (now : Nat) (v : VersionVector) (b : Block) : Result VersionVector := do
  require (b.type = tlv.stateVectorEntry) (.unexpectedType "StateVectorEntry" b.type)
  match ← orMalformed b.parse with
  | [] => .error (.unexpectedType "Name" 0)
  | front :: elements =>
    require (front.type = tlv.name) (.unexpectedType "Name" front.type)
    let nodeId ← orMalformed (Name.ofBlock front)
    elements.foldlM (decodeSeqNoEntry now nodeId) v

/-- The vector of a block, at a receiver whose clock reads `now`. -/
def decode (now : Nat) (b : Block) : Result VersionVector := do
  require (b.type = tlv.stateVector) (.unexpectedType "StateVector" b.type)
  (← orMalformed b.parse).foldlM (decodeEntry now) {}

def decodeEntryV2 (v : VersionVector) (b : Block) : Result VersionVector := do
  require (b.type = tlv.stateVectorEntry) (.unexpectedType "StateVectorEntry" b.type)
  match ← orMalformed b.parse with
  | [first, second] =>
    require (first.type = tlv.name ∧ second.type = tlv.seqNoV2)
      (.unexpectedType "SVS V2 StateVectorEntry" b.type)
    let seqNo ← orMalformed second.number
    require (seqNo ≠ 0) (.runtime "State vector sequence number must be positive")
    -- this layout has no epoch field: epoch zero stands for it
    let nodeId ← orMalformed (Name.ofBlock first)
    v.set nodeId 0 seqNo
  | _ => .error (.unexpectedType "SVS V2 StateVectorEntry" b.type)

def decodeV2 (b : Block) : Result VersionVector := do
  require (b.type = tlv.stateVector) (.unexpectedType "StateVector" b.type)
  (← orMalformed b.parse).foldlM decodeEntryV2 {}

/-- An entry that receivers accept whose limit on bootstrap times is at least `limit`. -/
structure Entry.Acceptable (limit : Nat) (e : Entry) : Prop where
  seqNo_pos : 0 < e.seqNo
  seqNo_lt : e.seqNo < 2 ^ 64
  bootstrapTime_lt : e.bootstrapTime < 2 ^ 64
  bootstrapTime_le : e.bootstrapTime ≤ limit

theorem decodeSeqNoEntry_ok {now : Nat} {nid : NodeID} {v v' : VersionVector} {b : Block}
    (h : decodeSeqNoEntry now nid v b = .ok v') :
    ∃ e : Entry, e.Acceptable (now + 86400) ∧ v' = v.put e.nid e.bootstrapTime e.seqNo := by
  obtain ⟨-, h⟩ := require_bind_eq_ok.mp h
  obtain ⟨elements, -, h⟩ := bind_eq_ok.mp h
  split at h
  · obtain ⟨-, h⟩ := require_bind_eq_ok.mp h
    obtain ⟨bootstrapTime, hboot, h⟩ := bind_eq_ok.mp h
    obtain ⟨hnear, h⟩ := require_bind_eq_ok.mp h
    obtain ⟨seqNo, hseq, h⟩ := bind_eq_ok.mp h
    obtain ⟨-, h⟩ := require_bind_eq_ok.mp h
    obtain ⟨hpos, rfl⟩ := set_ok h
    have hle : bootstrapTime ≤ now + 86400 := by
      simpa [isBootstrapTimeTooFarInFuture] using hnear
    exact ⟨⟨nid, bootstrapTime, seqNo⟩, ⟨Nat.pos_iff_ne_zero.mpr hpos,
      readNonNegativeInteger_lt (orMalformed_eq_ok.mp hseq),
      readNonNegativeInteger_lt (orMalformed_eq_ok.mp hboot), hle⟩, rfl⟩
  · cases h

theorem decodeEntryV2_ok {v v' : VersionVector} {b : Block} (h : decodeEntryV2 v b = .ok v') :
    ∃ nid s, s ≠ 0 ∧ s < 2 ^ 64 ∧ v' = v.put nid 0 s := by
  obtain ⟨-, h⟩ := require_bind_eq_ok.mp h
  obtain ⟨elements, -, h⟩ := bind_eq_ok.mp h
  split at h
  · obtain ⟨-, h⟩ := require_bind_eq_ok.mp h
    obtain ⟨seqNo, hseq, h⟩ := bind_eq_ok.mp h
    obtain ⟨-, h⟩ := require_bind_eq_ok.mp h
    obtain ⟨nodeId, -, h⟩ := bind_eq_ok.mp h
    obtain ⟨hpos, rfl⟩ := set_ok h
    exact ⟨nodeId, seqNo, hpos, readNonNegativeInteger_lt (orMalformed_eq_ok.mp hseq), rfl⟩
  · cases h

/-- What the empty vector has, and the assignment of every accepted entry keeps, a decoded vector
has. -/
theorem decode_induction {P : VersionVector → Prop} {now : Nat} {b : Block} {v : VersionVector}
    (hempty : P {})
    (hput : ∀ (v : VersionVector) (e : Entry), e.Acceptable (now + 86400) → P v →
      P (v.put e.nid e.bootstrapTime e.seqNo))
    (h : decode now b = .ok v) : P v := by
  obtain ⟨-, h⟩ := require_bind_eq_ok.mp h
  obtain ⟨entries, -, h⟩ := bind_eq_ok.mp h
  refine foldlM_invariant (P := P) (fun v b v' hv hentry => ?_) hempty h
  obtain ⟨-, hentry⟩ := require_bind_eq_ok.mp hentry
  obtain ⟨elements, -, hentry⟩ := bind_eq_ok.mp hentry
  split at hentry
  · cases hentry
  · obtain ⟨-, hentry⟩ := require_bind_eq_ok.mp hentry
    obtain ⟨nodeId, -, hentry⟩ := bind_eq_ok.mp hentry
    refine foldlM_invariant (P := P) (fun v b v' hv hseqNo => ?_) hv hentry
    obtain ⟨e, he, rfl⟩ := decodeSeqNoEntry_ok hseqNo
    exact hput v e he hv

theorem decodeV2_induction {P : VersionVector → Prop} {b : Block} {v : VersionVector}
    (hempty : P {})
    (hput : ∀ (v : VersionVector) nid s, s ≠ 0 → s < 2 ^ 64 → P v → P (v.put nid 0 s))
    (h : decodeV2 b = .ok v) : P v := by
  obtain ⟨-, h⟩ := require_bind_eq_ok.mp h
  obtain ⟨entries, -, h⟩ := bind_eq_ok.mp h
  refine foldlM_invariant (P := P) (fun v b v' hv hentry => ?_) hempty h
  obtain ⟨nid, s, hpos, hlt, rfl⟩ := decodeEntryV2_ok hentry
  exact hput v nid s hpos hlt hv

/-- Every number of the vector fits 64 bits. -/
def Fits (v : VersionVector) : Prop := ∀ nid b, v.get nid b < 2 ^ 64

theorem fits_empty : ({} : VersionVector).Fits := fun nid b => by simp

theorem Fits.put {v : VersionVector} (h : v.Fits) {s : SeqNo} (hs : s < 2 ^ 64) (nid : NodeID)
    (b : BootstrapTime) : (v.put nid b s).Fits := by
  intro nid' b'
  rw [get_put]
  split
  · exact hs
  · exact h nid' b'

theorem maxSeqNo_lt {node : BootstrapSeqMap} {limit : SeqNo} (hpos : 0 < limit)
    (h : ∀ (b : BootstrapTime) s, node[b]? = some s → s < limit) : maxSeqNo node < limit := by
  have hloop : ∀ (es : List (BootstrapTime × SeqNo)) (m : SeqNo), m < limit →
      (∀ e ∈ es, e.2 < limit) → es.foldl (fun latest e => max latest e.2) m < limit := by
    intro es
    induction es with
    | nil => exact fun m hm _ => hm
    | cons e es ih =>
      exact fun m hm hes => ih _ (max_lt hm (hes e List.mem_cons_self))
        fun e' he' => hes e' (List.mem_cons_of_mem _ he')
  exact hloop _ 0 hpos fun e he => h e.1 e.2 (Map.mem_toList.mp he)

theorem Fits.latest {v : VersionVector} (h : v.Fits) (nid : NodeID) : v.getLatest nid < 2 ^ 64 := by
  rw [getLatest, v.latest_eq, latestOf]
  cases hnode : v.entries[nid]? with
  | none => simp
  | some node =>
    rw [Option.bind_some]
    split
    · simp
    · refine maxSeqNo_lt (by decide) fun b s hs => ?_
      have hentry := h nid b
      rwa [get, entryAt, hnode, Option.bind_some, hs, Option.getD_some] at hentry

theorem decode_fits {now : Nat} {b : Block} {v : VersionVector} (h : decode now b = .ok v) :
    v.Fits :=
  decode_induction fits_empty (fun _ _ he hv => hv.put he.seqNo_lt _ _) h

theorem decodeV2_fits {b : Block} {v : VersionVector} (h : decodeV2 b = .ok v) : v.Fits :=
  decodeV2_induction fits_empty (fun _ _ _ _ hlt hv => hv.put hlt _ _) h

/-- A vector whose entries are all accepted. -/
def Acceptable (limit : Nat) (v : VersionVector) : Prop := ∀ e ∈ v.allEntries, e.Acceptable limit

theorem Acceptable.mono {limit limit' : Nat} {v : VersionVector} (h : v.Acceptable limit)
    (hle : limit ≤ limit') : v.Acceptable limit' :=
  fun e he => { h e he with bootstrapTime_le := (h e he).bootstrapTime_le.trans hle }

theorem acceptable_iff {limit : Nat} {v : VersionVector} : v.Acceptable limit ↔
    ∀ nid b s, v.entryAt nid b = some s → Entry.Acceptable limit ⟨nid, b, s⟩ :=
  ⟨fun h nid b s hs => h ⟨nid, b, s⟩ (mem_allEntries.mpr hs),
    fun h e he => h e.nid e.bootstrapTime e.seqNo (mem_allEntries.mp he)⟩

/-- A vector with entries from two acceptable ones. -/
theorem Acceptable.of_entries {limit : Nat} {v l r : VersionVector} (hl : l.Acceptable limit)
    (hr : r.Acceptable limit) (h : ∀ nid b s, v.entryAt nid b = some s →
      l.entryAt nid b = some s ∨ r.entryAt nid b = some s) : v.Acceptable limit := by
  refine acceptable_iff.mpr fun nid b s hs => ?_
  rcases h nid b s hs with hs | hs
  · exact acceptable_iff.mp hl nid b s hs
  · exact acceptable_iff.mp hr nid b s hs

theorem acceptable_empty (limit : Nat) : ({} : VersionVector).Acceptable limit :=
  acceptable_iff.mpr fun nid b s h => by simp at h

theorem Acceptable.put {limit : Nat} {v : VersionVector} (h : v.Acceptable limit) {nid : NodeID}
    {b : BootstrapTime} {s : SeqNo} (hentry : Entry.Acceptable limit ⟨nid, b, s⟩) :
    (v.put nid b s).Acceptable limit := by
  refine acceptable_iff.mpr fun nid' b' s' hs => ?_
  rw [entryAt_put] at hs
  split at hs
  · rename_i hkey
    obtain ⟨rfl, rfl⟩ := hkey
    obtain rfl := Option.some.inj hs
    exact hentry
  · exact acceptable_iff.mp h nid' b' s' hs

theorem decodeSeqNoEntry_encode {now : Nat} {nid : NodeID} {e : BootstrapTime × SeqNo}
    (h : Entry.Acceptable (now + 86400) ⟨nid, e.1, e.2⟩) (v : VersionVector) :
    decodeSeqNoEntry now nid v (encodeSeqNoEntry e) = .ok (v.put nid e.1 e.2) := by
  have hparse : (encodeSeqNoEntry e).parse =
      some [Block.ofNumber tlv.bootstrapTime e.1, Block.ofNumber tlv.seqNo e.2] := by
    refine Block.parse_ofElements fun b hb => ?_
    simp only [List.mem_cons, List.not_mem_nil, or_false] at hb
    rcases hb with rfl | rfl
    · exact Block.ofNumber_fits _ _
    · exact Block.ofNumber_fits _ _
  have hboot : (Block.ofNumber tlv.bootstrapTime e.1).number = some e.1 :=
    Block.number_ofNumber h.bootstrapTime_lt
  have hseq : (Block.ofNumber tlv.seqNo e.2).number = some e.2 := Block.number_ofNumber h.seqNo_lt
  have hpos : e.2 ≠ 0 := Nat.pos_iff_ne_zero.mp h.seqNo_pos
  have hnear : ¬isBootstrapTimeTooFarInFuture now e.1 :=
    fun hfar => Nat.not_lt.mpr h.bootstrapTime_le (of_decide_eq_true hfar)
  have htype : (encodeSeqNoEntry e).type = tlv.seqNoEntry := rfl
  rw [decodeSeqNoEntry, require_of _ htype, ok_bind, hparse, orMalformed_some, ok_bind]
  simp only
  rw [require_of _ ⟨rfl, rfl⟩, ok_bind, hboot, orMalformed_some, ok_bind, require_of _ hnear,
    ok_bind, hseq, orMalformed_some, ok_bind, require_of _ hpos, ok_bind, set, if_neg hpos]

@[simp] theorem encode_type (v : VersionVector) : v.encode.type = tlv.stateVector := rfl

@[simp] theorem encodeEntry_type (node : NodeID × BootstrapSeqMap) :
    (encodeEntry node).type = tlv.stateVectorEntry := rfl

theorem decodeEntry_encode {now : Nat} {node : NodeID × BootstrapSeqMap}
    (hnode : ∀ e ∈ node.2.toList, Entry.Acceptable (now + 86400) ⟨node.1, e.1, e.2⟩)
    (hsize : (encodeEntry node).value.length < 2 ^ 64) (v : VersionVector) :
    decodeEntry now v (encodeEntry node) =
      .ok (node.2.toList.foldl (fun v e => v.put node.1 e.1 e.2) v) := by
  have hlength : ∀ b ∈ node.1.block :: node.2.toList.map encodeSeqNoEntry,
      b.value.length < 2 ^ 64 := fun b hb => Block.length_lt_of_ofElements hb hsize
  have hparse : (encodeEntry node).parse =
      some (node.1.block :: node.2.toList.map encodeSeqNoEntry) := Block.parse_ofElements hlength
  have hname := Name.ofBlock_block (hlength _ List.mem_cons_self)
  have htype : node.1.block.type = tlv.name := rfl
  have hloop : (node.2.toList.map encodeSeqNoEntry).foldlM (decodeSeqNoEntry now node.1) v =
      .ok (node.2.toList.foldl (fun v e => v.put node.1 e.1 e.2) v) := by
    rw [List.foldlM_map]
    exact foldlM_ok (fun v e he => decodeSeqNoEntry_encode (hnode e he) v) v
  simp [decodeEntry, hparse, htype, hname, hloop]

/-- The decoder returns every entry that the encoder wrote. -/
theorem decode_encode {now : Nat} {v : VersionVector}
    (hentries : v.Acceptable (now + 86400)) (hsize : v.encode.value.length < 2 ^ 64) :
    ∃ v', decode now v.encode = .ok v' ∧ v'.Same v := by
  have hlength : ∀ node ∈ v.entries.toList, (encodeEntry node).value.length < 2 ^ 64 :=
    fun node hnode => Block.length_lt_of_ofElements (List.mem_map_of_mem hnode) hsize
  have hparse : v.encode.parse = some (v.entries.toList.map encodeEntry) := by
    refine Block.parse_ofElements fun b hb => ?_
    obtain ⟨node, hnode, rfl⟩ := List.mem_map.mp hb
    exact hlength node hnode
  have hnodes : ∀ node ∈ v.entries.toList, ∀ e ∈ node.2.toList,
      Entry.Acceptable (now + 86400) ⟨node.1, e.1, e.2⟩ := fun node hnode e he =>
    hentries _ (List.mem_flatMap.mpr ⟨node, hnode, List.mem_map_of_mem he⟩)
  have hloop : (v.entries.toList.map encodeEntry).foldlM (decodeEntry now) {} =
      .ok (({} : VersionVector).putAll v.allEntries) := by
    rw [List.foldlM_map, putAll, ← foldl_entries]
    exact foldlM_ok
      (fun w node hnode => decodeEntry_encode (hnodes node hnode) (hlength node hnode) w) {}
  refine ⟨_, ?_, putAll_allEntries v⟩
  simp [decode, hparse, hloop]

end VersionVector

end NdnSvs
