import NdnSvs.MappingQueries

/-! The codec of mapping lists.  The encoder writes from the back of its buffer but goes through
the entries and their additional blocks from the front, so a list comes back in reverse. -/

namespace NdnSvs

open Lib Lib.Tlv

/-- An entry that has a place in the wire format of the version: the legacy format has no epochs. -/
structure MappingEntry.WritableIn (version : SvsProtocolVersion) (entry : MappingEntry) :
    Prop where
  fits : entry.Fits
  epoch : version = .v2 → entry.bootstrapTime = 0

/-- From its end, the list reads as it does from its front: entry for entry the same numbers and
name, and the additional blocks of the one in the reverse order of the other's. -/
def MappingList.Mirrored (list : MappingList) : Prop :=
  ∀ i (h : i < list.pairs.length),
    list.pairs[i] = (list.pairs[list.pairs.length - 1 - i]).received

variable {version : SvsProtocolVersion} {entry : MappingEntry} {list : MappingList}

@[simp] theorem MappingEntry.received_received (entry : MappingEntry) :
    entry.received.received = entry := by
  simp [MappingEntry.received]

theorem MappingEntry.received_eq_self :
    entry.received = entry ↔ entry.mapping.additional.reverse = entry.mapping.additional := by
  obtain ⟨bootstrapTime, seqNo, name, additional⟩ := entry
  simp [MappingEntry.received]

theorem MappingEntry.decodeFor_blockFor (h : entry.WritableIn version)
    (hblock : (entry.blockFor version).Fits) :
    MappingEntry.decodeFor version (entry.blockFor version) = .ok entry.received := by
  cases version with
  | v2 =>
    rw [MappingEntry.decodeFor_v2_blockFor h.fits.seqNo hblock]
    have hepoch : entry.received.bootstrapTime = 0 := h.epoch rfl
    rw [← hepoch]
  | v3 => exact MappingEntry.decode_block h.fits hblock

theorem MappingList.foldlM_decodeElementFor {entries : List MappingEntry}
    (h : ∀ entry ∈ entries, entry.WritableIn version ∧ (entry.blockFor version).Fits)
    (list : MappingList) :
    (entries.map (MappingEntry.blockFor version)).foldlM (decodeElementFor version) list =
      .ok { list with pairs := list.pairs ++ entries.map MappingEntry.received } := by
  induction entries generalizing list with
  | nil =>
    rw [List.map_nil, List.map_nil, List.append_nil]
    rfl
  | cons entry entries ih =>
    obtain ⟨hentry, hblock⟩ := h entry List.mem_cons_self
    have hstep : list.decodeElementFor version (entry.blockFor version) =
        .ok { list with pairs := list.pairs ++ [entry.received] } := by
      have htype : (entry.blockFor version).type = tlv.mappingEntry := by cases version <;> rfl
      rw [decodeElementFor, htype, if_neg (by decide), if_pos rfl,
        MappingEntry.decodeFor_blockFor hentry hblock]
      rfl
    rw [List.map_cons, List.foldlM_cons, hstep, ok_bind,
      ih fun e he => h e (List.mem_cons_of_mem _ he)]
    simp

/-- What comes back of a list: the entries in reverse, with their blocks in reverse. -/
theorem MappingList.decodeFor_encodeFor (h : ∀ entry ∈ list.pairs, entry.WritableIn version)
    (hfits : (list.encodeFor version).Fits) :
    MappingList.decodeFor version (list.encodeFor version) =
      .ok { list with pairs := list.pairs.reverse.map MappingEntry.received } := by
  have hname : list.nodeId.block.value.length < 2 ^ 64 :=
    Block.length_lt_of_ofElements List.mem_cons_self hfits
  have hblocks : ∀ entry ∈ list.pairs.reverse,
      entry.WritableIn version ∧ (entry.blockFor version).Fits := by
    intro entry hentry
    rw [List.mem_reverse] at hentry
    refine ⟨h entry hentry, Block.length_lt_of_ofElements (List.mem_cons_of_mem _ ?_) hfits⟩
    exact List.mem_reverse.mpr (List.mem_map_of_mem hentry)
  have hfirst : decodeElementFor version {} list.nodeId.block = .ok { nodeId := list.nodeId } := by
    have htype : list.nodeId.block.type = tlv.name := rfl
    rw [decodeElementFor, if_pos htype, readName, Name.ofBlock_block hname]
    rfl
  have hparse : (list.encodeFor version).parse = some
      (list.nodeId.block :: (list.pairs.map (MappingEntry.blockFor version)).reverse) :=
    Block.Fits.parse hfits
  rw [decodeFor, hparse, orMalformed_some, ok_bind, List.foldlM_cons, hfirst, ok_bind,
    ← List.map_reverse, foldlM_decodeElementFor hblocks]
  rfl

theorem MappingList.mirrored_iff :
    list.Mirrored ↔ list.pairs.reverse.map MappingEntry.received = list.pairs := by
  constructor
  · intro h
    refine List.ext_getElem (by simp) fun i hi hi' => ?_
    rw [List.getElem_map, List.getElem_reverse]
    exact (h i hi').symm
  · intro h i hi
    have hmap : i < (list.pairs.reverse.map MappingEntry.received).length := by simpa using hi
    calc list.pairs[i] = (list.pairs.reverse.map MappingEntry.received)[i] := by simp only [h]
      _ = (list.pairs[list.pairs.length - 1 - i]).received := by
        rw [List.getElem_map, List.getElem_reverse]

/-- A list whose entries have numbers of their own is mirrored when it has one entry at most, with
additional blocks that read the same in both directions. -/
theorem MappingList.mirrored_iff_of_nodup (h : (list.pairs.map MappingEntry.seqNo).Nodup) :
    list.Mirrored ↔ list.pairs.length ≤ 1 ∧ ∀ entry ∈ list.pairs,
      entry.mapping.additional.reverse = entry.mapping.additional := by
  constructor
  · intro hmirrored
    have hlength : list.pairs.length ≤ 1 := by
      by_contra hlong
      have hfirst : 0 < (list.pairs.map MappingEntry.seqNo).length := by
        rw [List.length_map]
        omega
      have hlast : list.pairs.length - 1 < (list.pairs.map MappingEntry.seqNo).length := by
        rw [List.length_map]
        omega
      have hseq : (list.pairs.map MappingEntry.seqNo)[0] =
          (list.pairs.map MappingEntry.seqNo)[list.pairs.length - 1] := by
        rw [List.getElem_map, List.getElem_map, hmirrored 0 (by omega)]
        rfl
      have hsame := (List.Nodup.getElem_inj_iff h).mp hseq
      omega
    refine ⟨hlength, fun entry hentry => MappingEntry.received_eq_self.mp ?_⟩
    obtain ⟨i, hi, rfl⟩ := List.getElem_of_mem hentry
    have hindex : list.pairs.length - 1 - i = i := by omega
    have hi' := hmirrored i hi
    simp only [hindex] at hi'
    exact hi'.symm
  · rintro ⟨hlength, hblocks⟩ i hi
    have hindex : list.pairs.length - 1 - i = i := by omega
    simp only [hindex]
    exact (MappingEntry.received_eq_self.mpr (hblocks _ (List.getElem_mem hi))).symm

/-- In both versions a list is read back as it was exactly when it reads the same from its end. -/
theorem MappingList.codec_iff_mirrored (h : ∀ entry ∈ list.pairs, entry.WritableIn version)
    (hfits : (list.encodeFor version).Fits) :
    MappingList.decodeFor version (list.encodeFor version) = .ok list ↔ list.Mirrored := by
  rw [decodeFor_encodeFor h hfits, mirrored_iff]
  constructor
  · intro heq
    exact congrArg MappingList.pairs (Except.ok.inj heq)
  · intro heq
    rw [heq]

/-- Two publications of a node. -/
def twoEntries : MappingList where
  nodeId := Name.ofStrings ["n"]
  pairs := [{ seqNo := 1, mapping := { name := Name.ofStrings ["first"] } },
    { seqNo := 2, mapping := { name := Name.ofStrings ["second"] } }]

/-- One publication with a block that gives its time. -/
def oneEntry : MappingList where
  nodeId := Name.ofStrings ["n"]
  pairs := [{ seqNo := 1, mapping :=
    { name := Name.ofStrings ["first"], additional := [.ofNumber tlv.lzmaBlock 5] } }]

theorem MappingList.codec_iff_mirrored_one :
    MappingList.decodeFor .v3 (oneEntry.encodeFor .v3) = .ok oneEntry ↔ oneEntry.Mirrored :=
  MappingList.codec_iff_mirrored (by
    intro entry hentry
    obtain rfl := List.mem_singleton.mp hentry
    exact ⟨⟨by decide, by decide⟩, by decide⟩) (by unfold Block.Fits; decide)

/-- Two entries come back in the other order, in both versions. -/
theorem MappingList.codec_reverses :
    (∀ version : SvsProtocolVersion,
      MappingList.decodeFor version (twoEntries.encodeFor version) =
        .ok { twoEntries with pairs := twoEntries.pairs.reverse }) ∧
    ¬∀ (version : SvsProtocolVersion) (list : MappingList),
      (∀ entry ∈ list.pairs, entry.WritableIn version) → (list.encodeFor version).Fits →
        MappingList.decodeFor version (list.encodeFor version) = .ok list := by
  have hreversed : ∀ version : SvsProtocolVersion,
      MappingList.decodeFor version (twoEntries.encodeFor version) =
        .ok { twoEntries with pairs := twoEntries.pairs.reverse } := by
    intro version
    cases version <;> decide
  refine ⟨hreversed, fun h => ?_⟩
  have hsame := h .v3 twoEntries (by
    intro entry hentry
    simp only [twoEntries, List.mem_cons, List.not_mem_nil, or_false] at hentry
    rcases hentry with rfl | rfl
    · exact ⟨⟨by decide, by decide⟩, fun _ => rfl⟩
    · exact ⟨⟨by decide, by decide⟩, fun _ => rfl⟩) (by unfold Block.Fits; decide)
  rw [hreversed .v3] at hsame
  have hpairs := congrArg MappingList.pairs (Except.ok.inj hsame)
  exact absurd hpairs (by decide)

end NdnSvs
