import Mathlib.Order.Bounds.Basic
import NdnSvs.VersionVector

/-! The two layouts of state vectors on the wire, for the vectors that calls of `set` make.  The
layout of the current version keeps the vector, and equal bytes mean equal vectors; the legacy layout
keeps the largest number of each node. -/

namespace NdnSvs

open Lib Lib.Tlv

namespace VersionVector

/-- A call of `set`.  One that throws leaves the vector as it is. -/
def trySet (v : VersionVector) (e : Entry) : VersionVector :=
  match v.set e.nid e.bootstrapTime e.seqNo with
  | .ok v' => v'
  | .error _ => v

/-- The vector after calls of `set` on an empty one. -/
def afterSets (es : List Entry) : VersionVector := es.foldl trySet {}

theorem trySet_cases (v : VersionVector) (e : Entry) :
    v.trySet e = v ∨ e.seqNo ≠ 0 ∧ v.trySet e = v.put e.nid e.bootstrapTime e.seqNo := by
  unfold trySet
  cases hset : v.set e.nid e.bootstrapTime e.seqNo with
  | error _ => exact .inl rfl
  | ok v' => exact .inr (set_ok hset)

/-- What an empty vector has, and every assignment of one of the entries keeps, holds after the
calls. -/
theorem afterSets_induction {P : VersionVector → Prop} {es : List Entry} (hempty : P {})
    (hput : ∀ v, ∀ e ∈ es, e.seqNo ≠ 0 → P v → P (v.put e.nid e.bootstrapTime e.seqNo)) :
    P (afterSets es) := by
  refine List.foldlRecOn es trySet hempty fun v hv e he => ?_
  rcases trySet_cases v e with h | ⟨hpos, h⟩
  · rw [h]
    exact hv
  · rw [h]
    exact hput v e he hpos hv

/-! ### Vectors with the same entries -/

theorem noEmpty_put {v : VersionVector} (h : v.entries.NoEmpty) (nid : NodeID) (b : BootstrapTime)
    (s : SeqNo) : (v.put nid b s).entries.NoEmpty :=
  Map.noEmpty_insertAt h nid b s

theorem noEmpty_putAll (es : List Entry) :
    (({} : VersionVector).putAll es).entries.NoEmpty :=
  List.foldlRecOn (motive := fun v : VersionVector => v.entries.NoEmpty) es _ Map.noEmpty_empty
    fun _ h e _ => noEmpty_put h e.nid e.bootstrapTime e.seqNo

theorem noEmpty_afterSets (es : List Entry) : (afterSets es).entries.NoEmpty :=
  afterSets_induction (P := fun v => v.entries.NoEmpty) Map.noEmpty_empty
    fun _ _ _ _ h => noEmpty_put h _ _ _

/-- The entries determine a vector that has no node without any. -/
theorem Same.eq {v w : VersionVector} (h : v.Same w) (hv : v.entries.NoEmpty)
    (hw : w.entries.NoEmpty) : v = w := by
  have hentries : v.entries = w.entries := hv.ext hw h
  have hlatest : v.latestMap = w.latestMap := by
    refine Std.ExtTreeMap.ext_getElem? fun nid => ?_
    rw [v.latest_eq, w.latest_eq, hentries]
  obtain ⟨_, _, _⟩ := v
  obtain ⟨_, _, _⟩ := w
  obtain rfl := hentries
  obtain rfl := hlatest
  rfl

theorem decode_noEmpty {now : Nat} {b : Block} {v : VersionVector} (h : decode now b = .ok v) :
    v.entries.NoEmpty :=
  decode_induction (P := fun v => v.entries.NoEmpty) Map.noEmpty_empty
    (fun _ _ _ hv => noEmpty_put hv _ _ _) h

/-! ### The current layout -/

/-- The arguments of a call of `set` for an epoch that receivers accept. -/
structure Entry.Settable (limit : Nat) (e : Entry) : Prop where
  seqNo_lt : e.seqNo < 2 ^ 64
  bootstrapTime_lt : e.bootstrapTime < 2 ^ 64
  bootstrapTime_le : e.bootstrapTime ≤ limit

theorem afterSets_acceptable {limit : Nat} {es : List Entry} (hes : ∀ e ∈ es, e.Settable limit) :
    (afterSets es).Acceptable limit :=
  afterSets_induction (P := Acceptable limit) (acceptable_empty limit)
    fun _ e he hpos hv => hv.put ⟨Nat.pos_of_ne_zero hpos, (hes e he).seqNo_lt,
      (hes e he).bootstrapTime_lt, (hes e he).bootstrapTime_le⟩

theorem decode_afterSets {now : Nat} {es : List Entry}
    (hes : ∀ e ∈ es, e.Settable (now + 86400))
    (hsize : (afterSets es).encode.value.length < 2 ^ 64) :
    decode now (afterSets es).encode = .ok (afterSets es) := by
  obtain ⟨v, hv, hsame⟩ := decode_encode (afterSets_acceptable hes) hsize
  rw [hv, hsame.eq (decode_noEmpty hv) (noEmpty_afterSets es)]

/-- A vector that calls of `set` made comes back as it was: the entries, and the latest number of
each node.  Two such vectors have one encoding exactly when they have the same entries, whatever the
calls that made them. -/
theorem codec_keeps_vector {now : Nat} {es es' : List Entry}
    (hes : ∀ e ∈ es, e.Settable (now + 86400)) (hes' : ∀ e ∈ es', e.Settable (now + 86400))
    (hsize : (afterSets es).encode.value.length < 2 ^ 64)
    (hsize' : (afterSets es').encode.value.length < 2 ^ 64) :
    decode now (afterSets es).encode = .ok (afterSets es) ∧
      ((afterSets es).encode = (afterSets es').encode ↔ (afterSets es).Same (afterSets es')) := by
  refine ⟨decode_afterSets hes hsize, fun heq => ?_, fun hsame => ?_⟩
  · have hdecode := decode_afterSets hes hsize
    rw [heq, decode_afterSets hes' hsize'] at hdecode
    rw [Except.ok.inj hdecode]
    exact .refl _
  · rw [hsame.eq (noEmpty_afterSets es) (noEmpty_afterSets es')]

/-- Two histories that end in the same two epochs of a node. -/
def sampleHistory : List Entry :=
  [⟨.ofStrings ["a"], 100, 7⟩, ⟨.ofStrings ["a"], 200, 1⟩, ⟨.ofStrings ["a"], 100, 3⟩]

def sampleHistory' : List Entry :=
  [⟨.ofStrings ["a"], 200, 1⟩, ⟨.ofStrings ["a"], 200, 0⟩, ⟨.ofStrings ["a"], 100, 3⟩]

theorem codec_keeps_vector_two :
    decode 0 (afterSets sampleHistory).encode = .ok (afterSets sampleHistory) ∧
      ((afterSets sampleHistory).encode = (afterSets sampleHistory').encode ↔
        (afterSets sampleHistory).Same (afterSets sampleHistory')) := by
  refine codec_keeps_vector (fun e he => ?_) (fun e he => ?_) (by decide +kernel)
    (by decide +kernel)
  · simp only [sampleHistory, List.mem_cons, List.not_mem_nil, or_false] at he
    rcases he with rfl | rfl | rfl
    · exact ⟨by decide, by decide, by decide⟩
    · exact ⟨by decide, by decide, by decide⟩
    · exact ⟨by decide, by decide, by decide⟩
  · simp only [sampleHistory', List.mem_cons, List.not_mem_nil, or_false] at he
    rcases he with rfl | rfl | rfl
    · exact ⟨by decide, by decide, by decide⟩
    · exact ⟨by decide, by decide, by decide⟩
    · exact ⟨by decide, by decide, by decide⟩

/-! ### The legacy layout -/

theorem foldl_max_mem (es : List (BootstrapTime × SeqNo)) (m : SeqNo) :
    es.foldl (fun latest e => max latest e.2) m = m ∨
      ∃ e ∈ es, e.2 = es.foldl (fun latest e => max latest e.2) m := by
  induction es generalizing m with
  | nil => exact .inl rfl
  | cons e es ih =>
    rw [List.foldl_cons]
    rcases ih (max m e.2) with h | ⟨x, hx, h⟩
    · rw [h]
      rcases max_choice m e.2 with hm | hm
      · exact .inl hm
      · exact .inr ⟨e, List.mem_cons_self, hm.symm⟩
    · exact .inr ⟨x, List.mem_cons_of_mem _ hx, h⟩

/-- The largest number of a node is that of one of its epochs. -/
theorem exists_maxSeqNo {node : BootstrapSeqMap} (h : node ≠ ∅) :
    ∃ b : BootstrapTime, node[b]? = some (maxSeqNo node) := by
  rcases foldl_max_mem node.toList 0 with hmax | ⟨e, he, hmax⟩
  · -- every number is 0 then, and there is one
    obtain ⟨⟨b, s⟩, hmem⟩ : ∃ e, e ∈ node.toList := by
      refine List.exists_mem_of_ne_nil _ fun hnil => h (Std.ExtTreeMap.ext_getElem? fun b => ?_)
      rw [Std.ExtTreeMap.getElem?_empty, Option.eq_none_iff_forall_ne_some]
      intro s hs
      have hmem := Map.mem_toList.mpr hs
      rw [hnil] at hmem
      cases hmem
    have hget := Map.mem_toList.mp hmem
    have hle := le_maxSeqNo hget
    have hzero : maxSeqNo node = 0 := hmax
    rw [hzero] at hle ⊢
    rw [Nat.le_zero.mp hle] at hget
    exact ⟨b, hget⟩
  · refine ⟨e.1, Map.mem_toList.mp ?_⟩
    rw [maxSeqNo, ← hmax]
    exact he

/-- The numbers of a node over its epochs. -/
def seqNosOf (v : VersionVector) (nid : NodeID) : Set SeqNo := {s | ∃ b, v.entryAt nid b = some s}

/-- The map of the latest numbers has the largest number of each node. -/
theorem latestMap_eq_some {v : VersionVector} (hv : v.entries.NoEmpty) {nid : NodeID} {s : SeqNo} :
    v.latestMap[nid]? = some s ↔ IsGreatest (v.seqNosOf nid) s := by
  have hgreatest : ∀ node, v.entries[nid]? = some node →
      v.latestMap[nid]? = some (maxSeqNo node) ∧ IsGreatest (v.seqNosOf nid) (maxSeqNo node) := by
    intro node hnode
    have hne := hv nid node hnode
    constructor
    · rw [v.latest_eq, latestOf, hnode, Option.bind_some, if_neg (by simpa using hne)]
    · obtain ⟨b, hb⟩ := exists_maxSeqNo hne
      refine ⟨⟨b, by rw [entryAt, hnode, Option.bind_some, hb]⟩, fun t ht => ?_⟩
      obtain ⟨b', hb'⟩ := ht
      rw [entryAt, hnode, Option.bind_some] at hb'
      exact le_maxSeqNo hb'
  constructor
  · intro h
    have hlatest := h
    rw [v.latest_eq, latestOf] at hlatest
    obtain ⟨node, hnode, -⟩ := Option.bind_eq_some_iff.mp hlatest
    obtain ⟨hmax, hset⟩ := hgreatest node hnode
    obtain rfl := Option.some.inj (h.symm.trans hmax)
    exact hset
  · intro h
    obtain ⟨b, hb⟩ := h.1
    obtain ⟨node, hnode, -⟩ := Option.bind_eq_some_iff.mp hb
    obtain ⟨hmax, hset⟩ := hgreatest node hnode
    rw [hmax, hset.unique h]

theorem afterSets_entry {es : List Entry} (hes : ∀ e ∈ es, e.seqNo < 2 ^ 64) {nid : NodeID}
    {b : BootstrapTime} {s : SeqNo} (h : (afterSets es).entryAt nid b = some s) :
    s ≠ 0 ∧ s < 2 ^ 64 := by
  have hall : ∀ nid b s, (afterSets es).entryAt nid b = some s → s ≠ 0 ∧ s < 2 ^ 64 := by
    refine afterSets_induction (P := fun v => ∀ nid b s, v.entryAt nid b = some s →
      s ≠ 0 ∧ s < 2 ^ 64) (by simp) fun v e he hpos hv nid b s hs => ?_
    rw [entryAt_put] at hs
    split at hs
    · obtain rfl := Option.some.inj hs
      exact ⟨hpos, hes e he⟩
    · exact hv nid b s hs
  exact hall nid b s h

def encodeEntryV2 (e : NodeID × SeqNo) : Block :=
  .ofElements tlv.stateVectorEntry [e.1.block, .ofNumber tlv.seqNoV2 e.2]

theorem decodeEntryV2_encode {e : NodeID × SeqNo} (hpos : e.2 ≠ 0) (hlt : e.2 < 2 ^ 64)
    (hsize : (encodeEntryV2 e).Fits) (v : VersionVector) :
    decodeEntryV2 v (encodeEntryV2 e) = .ok (v.put e.1 0 e.2) := by
  have hname : e.1.block.value.length < 2 ^ 64 := Block.length_lt_of_ofElements (by simp) hsize
  have hparse : (encodeEntryV2 e).parse = some [e.1.block, .ofNumber tlv.seqNoV2 e.2] := hsize.parse
  have htype : (encodeEntryV2 e).type = tlv.stateVectorEntry := rfl
  have hfirst : e.1.block.type = tlv.name := rfl
  have hnumber := @Block.number_ofNumber tlv.seqNoV2 _ hlt
  simp only [decodeEntryV2, htype, require_true, ok_bind, hparse, orMalformed_some, hfirst,
    Block.ofNumber_type, and_self, hnumber, require_of _ hpos, Name.ofBlock_block hname]
  rw [set, if_neg hpos]

/-- The legacy layout gives back the entries of the latest numbers, in epoch 0. -/
theorem decodeV2_encodeV2 {v : VersionVector}
    (hlatest : ∀ e ∈ v.latestMap.toList, e.2 ≠ 0 ∧ e.2 < 2 ^ 64)
    (hsize : v.encodeV2.value.length < 2 ^ 64) :
    decodeV2 v.encodeV2 = .ok
      (({} : VersionVector).putAll (v.latestMap.toList.map fun e => ⟨e.1, 0, e.2⟩)) := by
  have hencode : v.encodeV2 =
      .ofElements tlv.stateVector (v.latestMap.toList.map encodeEntryV2) := rfl
  have hfits : v.encodeV2.Fits := hsize
  have hparse : v.encodeV2.parse = some (v.latestMap.toList.map encodeEntryV2) := by
    rw [hencode] at hfits ⊢
    exact hfits.parse
  have htype : v.encodeV2.type = tlv.stateVector := rfl
  have hstep : ∀ (w : VersionVector), ∀ e ∈ v.latestMap.toList,
      decodeEntryV2 w (encodeEntryV2 e) = .ok (w.put e.1 0 e.2) := by
    intro w e he
    rw [hencode] at hfits
    exact decodeEntryV2_encode (hlatest e he).1 (hlatest e he).2
      (Block.length_lt_of_ofElements (List.mem_map_of_mem he) hfits) w
  simp only [decodeV2, htype, require_true, ok_bind, hparse, orMalformed_some]
  rw [List.foldlM_map, foldlM_ok hstep, putAll, List.foldl_map]

theorem entryAt_latest (v : VersionVector) (nid : NodeID) (b : BootstrapTime) :
    (({} : VersionVector).putAll (v.latestMap.toList.map fun e => ⟨e.1, 0, e.2⟩)).entryAt nid b =
      if b = 0 then v.latestMap[nid]? else none := by
  have hagree : ∀ e ∈ v.latestMap.toList.map (fun e => (⟨e.1, 0, e.2⟩ : Entry)), e.nid = nid →
      e.bootstrapTime = b → ∀ e' ∈ v.latestMap.toList.map (fun e => (⟨e.1, 0, e.2⟩ : Entry)),
      e'.nid = nid → e'.bootstrapTime = b → e'.seqNo = e.seqNo := by
    intro e he hnid _ e' he' hnid' _
    obtain ⟨x, hx, rfl⟩ := List.mem_map.mp he
    obtain ⟨x', hx', rfl⟩ := List.mem_map.mp he'
    have hget := Map.mem_toList.mp hx
    have hget' := Map.mem_toList.mp hx'
    dsimp only at hnid hnid' ⊢
    rw [hnid] at hget
    rw [hnid', hget] at hget'
    exact (Option.some.inj hget').symm
  obtain ⟨hmem, hnot⟩ := @entryAt_putAll _ {} nid b hagree
  by_cases hb : b = 0
  · subst hb
    rw [if_pos rfl]
    cases h : v.latestMap[nid]? with
    | some s =>
      exact hmem ⟨nid, 0, s⟩ (List.mem_map.mpr ⟨(nid, s), Map.mem_toList.mpr h, rfl⟩) rfl rfl
    | none =>
      rw [hnot, entryAt_empty]
      rintro e he ⟨rfl, -⟩
      obtain ⟨x, hx, rfl⟩ := List.mem_map.mp he
      rw [Map.mem_toList.mp hx] at h
      cases h
  · rw [if_neg hb, hnot, entryAt_empty]
    rintro e he ⟨-, rfl⟩
    obtain ⟨x, hx, rfl⟩ := List.mem_map.mp he
    exact hb rfl

/-- What the legacy layout keeps of a vector that calls of `set` made, also calls that lower a
number: each of its nodes with the largest of the node's numbers, in epoch 0.  A vector in epoch 0
comes back as it was. -/
theorem legacy_codec_projects {es : List Entry} (hes : ∀ e ∈ es, e.seqNo < 2 ^ 64)
    (hsize : (afterSets es).encodeV2.value.length < 2 ^ 64) :
    ∃ w, decodeV2 (afterSets es).encodeV2 = .ok w ∧
      (∀ nid, (w.entryAt nid 0).isSome ↔ (afterSets es).has nid) ∧
      (∀ nid b s, w.entryAt nid b = some s ↔
        b = 0 ∧ IsGreatest {t | ∃ b', (afterSets es).entryAt nid b' = some t} s) ∧
      ((∀ nid b s, (afterSets es).entryAt nid b = some s → b = 0) → w = afterSets es) := by
  have hentry : ∀ nid s, (afterSets es).latestMap[nid]? = some s ↔
      IsGreatest ((afterSets es).seqNosOf nid) s := fun nid s =>
    latestMap_eq_some (noEmpty_afterSets es)
  have hlatest : ∀ e ∈ (afterSets es).latestMap.toList, e.2 ≠ 0 ∧ e.2 < 2 ^ 64 := by
    intro e he
    obtain ⟨⟨b, hb⟩, -⟩ := (hentry e.1 e.2).mp (Map.mem_toList.mp he)
    exact afterSets_entry hes hb
  refine ⟨_, decodeV2_encodeV2 hlatest hsize, fun nid => ?_, fun nid b s => ?_,
    fun hzero => Same.eq (fun nid b => ?_) (noEmpty_putAll _) (noEmpty_afterSets es)⟩
  · rw [entryAt_latest, if_pos rfl, has, (afterSets es).latest_eq, latestOf]
    cases hnode : (afterSets es).entries[nid]? with
    | none => simp
    | some node =>
      have hne := noEmpty_afterSets es nid node hnode
      simp [hne]
  · rw [entryAt_latest]
    by_cases hb : b = 0
    · rw [if_pos hb, hentry]
      exact (and_iff_right hb).symm
    · rw [if_neg hb]
      simp [hb]
  · rw [entryAt_latest]
    by_cases hb : b = 0
    · subst hb
      rw [if_pos rfl]
      refine Option.ext fun s => ?_
      rw [hentry]
      constructor
      · rintro ⟨⟨b', hb'⟩, -⟩
        rw [hzero nid b' s hb'] at hb'
        exact hb'
      · intro hs
        refine ⟨⟨0, hs⟩, fun t ht => ?_⟩
        obtain ⟨b', hb'⟩ := ht
        rw [hzero nid b' t hb', hs] at hb'
        exact Nat.le_of_eq (Option.some.inj hb').symm
    · rw [if_neg hb, eq_comm, Option.eq_none_iff_forall_ne_some]
      exact fun s hs => hb (hzero nid b s hs)

theorem legacy_codec_projects_two :
    ∃ w, decodeV2 (afterSets sampleHistory).encodeV2 = .ok w ∧
      (∀ nid, (w.entryAt nid 0).isSome ↔ (afterSets sampleHistory).has nid) ∧
      (∀ nid b s, w.entryAt nid b = some s ↔
        b = 0 ∧ IsGreatest {t | ∃ b', (afterSets sampleHistory).entryAt nid b' = some t} s) ∧
      ((∀ nid b s, (afterSets sampleHistory).entryAt nid b = some s → b = 0) →
        w = afterSets sampleHistory) := by
  refine legacy_codec_projects (fun e he => ?_) (by decide +kernel)
  simp only [sampleHistory, List.mem_cons, List.not_mem_nil, or_false] at he
  rcases he with rfl | rfl | rfl
  · decide
  · decide
  · decide

end VersionVector

end NdnSvs
