import NdnSvs.Publish
import Mathlib.Data.List.Perm.Basic
import Mathlib.Data.List.Perm.Subperm

/-! The assembly of inner packets by the receiver.  It takes the blocks of complete objects in any
order, but it does not compare the versions in their names. -/

namespace NdnSvs

open Lib Lib.Tlv

/-! ### The assembly -/

structure InnerSegmentAssembly where
  name : Name
  payload : Bytes
deriving DecidableEq

/-- The inner packets met so far, with their final segment and their base name. -/
structure InnerSegments where
  segments : Map Nat Data := ∅
  expectedFinal : Option Nat := none
  baseName : Option Name := none

section Assembly

variable (cxx : NdnCxx)

/-- One round of the loop over the inner packets. -/
def InnerSegments.add (state : InnerSegments) (block : Block) : Option InnerSegments := do
  let inner ← cxx.decodeData block
  let name := inner.name
  guard (2 ≤ name.length)
  let segment ← name[name.length - 1]?
  let version ← name[name.length - 2]?
  guard (segment.isSegment ∧ version.isVersion)
  let finalBlock ← inner.finalBlock
  guard finalBlock.isSegment
  let segmentNo := segment.number
  let finalSegment := finalBlock.number
  guard (segmentNo ≤ finalSegment ∧ inner.content ≠ [])
  let currentBase := name.dropLast 2
  guard (∀ base ∈ state.baseName, base = currentBase)
  guard (∀ expected ∈ state.expectedFinal, expected = finalSegment)
  guard (segmentNo ∉ state.segments)
  some
    { segments := state.segments.insert segmentNo inner
      expectedFinal := some finalSegment
      baseName := some currentBase }

def decodeInnerSegments (blocks : List Block) : Option InnerSegmentAssembly := do
  guard (blocks ≠ [])
  let state ← blocks.foldlM (InnerSegments.add cxx) {}
  let expectedFinal ← state.expectedFinal
  let baseName ← state.baseName
  guard (state.segments.size = (expectedFinal + 1) % 2 ^ 64)
  let contents ← (List.range (expectedFinal + 1)).mapM fun segmentNo =>
    (state.segments[segmentNo]?).map Data.content
  some ⟨baseName, contents.flatten⟩

end Assembly

/-- The wire encoding of the inner packet of a packet. -/
def Data.innerBlock (outer : Data) : Option Block := blockFromValue outer.content

/-! ### What the assembly accepts -/

/-- The number of a segment. -/
def Data.segmentNo (d : Data) : Nat := (d.name.getLast?.map Component.number).getD 0

theorem mapM_eq_some {α β : Type} {f : α → Option β} {g : α → β} {xs : List α}
    (h : ∀ x ∈ xs, f x = some (g x)) : xs.mapM f = some (xs.map g) := by
  induction xs with
  | nil => rfl
  | cons x xs ih =>
    rw [List.mapM_cons, h x List.mem_cons_self, ih fun y hy => h y (List.mem_cons_of_mem _ hy)]
    rfl

theorem exists_perm_of_perm_map {α β : Type} {f : α → β} {xs : List α} {ys : List β}
    (h : ys.Perm (xs.map f)) : ∃ zs : List α, zs.Perm xs ∧ ys = zs.map f := by
  have hmap : List.Forall₂ (fun y x => y = f x) (xs.map f) xs := by
    rw [List.forall₂_map_left_iff, List.forall₂_same]
    exact fun _ _ => rfl
  obtain ⟨zs, hzs, hperm⟩ := List.perm_comp_forall₂ h hmap
  refine ⟨zs, hperm, ?_⟩
  rwa [← List.forall₂_eq_eq_eq, List.forall₂_map_right_iff]

/-- The name ends with a segment after the name of the object, and the final block is a segment. -/
structure Data.IsSegmentOf (object : Name) (finalSegment : Nat) (d : Data) : Prop where
  name : ∃ segment : Component, d.name = object ++ [segment] ∧ segment.isSegment
  finalBlock : ∃ final ∈ d.finalBlock, final.isSegment ∧ final.number = finalSegment
  content : d.content ≠ []

/-- A segment of some version under a base name. -/
def Data.IsSegmentUnder (base : Name) (finalSegment : Nat) (d : Data) : Prop :=
  ∃ version : Component, version.isVersion ∧ d.IsSegmentOf (base ++ [version]) finalSegment

section Rounds

variable {cxx : NdnCxx} {base : Name} {finalSegment : Nat}

theorem Data.IsSegmentOf.segmentNo_eq {object : Name} {d : Data} {segment : Component}
    (hname : d.name = object ++ [segment]) : d.segmentNo = segment.number := by
  simp [Data.segmentNo, hname]

theorem Data.IsSegmentUnder.base_eq {d : Data} (h : d.IsSegmentUnder base finalSegment) :
    d.name.dropLast 2 = base := by
  obtain ⟨version, -, hsegment⟩ := h
  obtain ⟨segment, hname, -⟩ := hsegment.name
  simp [Name.dropLast, hname]

/-- The checks of a round on the name. -/
theorem isSegmentUnder_name {d : Data} {segment version : Component} (hlength : 2 ≤ d.name.length)
    (hsegment : d.name[d.name.length - 1]? = some segment)
    (hversion : d.name[d.name.length - 2]? = some version) :
    d.name = d.name.dropLast 2 ++ [version] ++ [segment] := by
  refine List.ext_getElem? fun i => ?_
  obtain ⟨k, hk⟩ := Nat.exists_eq_add_of_le hlength
  have htake : (d.name.dropLast 2).length = k := by
    rw [Name.dropLast, List.length_take]
    omega
  rw [hk, Nat.add_comm, Nat.add_sub_cancel] at hversion
  rw [hk, show 2 + k - 1 = k + 1 by omega] at hsegment
  rcases Nat.lt_trichotomy i k with hlt | rfl | hgt
  · rw [List.append_assoc, List.getElem?_append_left (by omega), Name.dropLast,
      List.getElem?_take, if_pos (by omega)]
  · rw [List.append_assoc, List.getElem?_append_right (by omega), htake, hversion, Nat.sub_self]
    rfl
  · rcases Nat.lt_or_ge i (k + 2) with hlt | hge
    · obtain rfl : i = k + 1 := by omega
      rw [List.append_assoc, List.getElem?_append_right (by omega), htake, hsegment]
      simp
    · rw [List.getElem?_eq_none (by omega), List.getElem?_eq_none (by simp; omega)]

/-- What a round does: it takes in a segment that agrees with those before it. -/
theorem InnerSegments.add_eq_some {state state' : InnerSegments} {block : Block} :
    state.add cxx block = some state' ↔ ∃ d base finalSegment, cxx.decodeData block = some d ∧
      d.IsSegmentUnder base finalSegment ∧ d.segmentNo ≤ finalSegment ∧
      (∀ b ∈ state.baseName, b = base) ∧ (∀ n ∈ state.expectedFinal, n = finalSegment) ∧
      d.segmentNo ∉ state.segments ∧
      state' = ⟨state.segments.insert d.segmentNo d, some finalSegment, some base⟩ := by
  simp only [InnerSegments.add, Option.bind_eq_bind, Option.bind_eq_some_iff,
    Option.guard_eq_some', Option.some.injEq, exists_const]
  constructor
  · rintro ⟨d, hdecode, hlength, segment, hsegment, version, hversion, ⟨hs, hv⟩, final, hfinal, hf,
      ⟨hle, hcontent⟩, hbase, hexpected, hnew, rfl⟩
    have hname := isSegmentUnder_name hlength hsegment hversion
    rw [← Data.IsSegmentOf.segmentNo_eq hname] at hle hnew ⊢
    exact ⟨d, _, _, hdecode, ⟨version, hv, ⟨segment, hname, hs⟩, ⟨final, hfinal, hf, rfl⟩,
      hcontent⟩, hle, hbase, hexpected, hnew, rfl⟩
  · rintro ⟨d, base, finalSegment, hdecode, hunder, hle, hbase, hexpected, hnew, rfl⟩
    have hdrop := hunder.base_eq
    obtain ⟨version, hv, ⟨segment, hname, hs⟩, ⟨final, hfinal, hf, rfl⟩, hcontent⟩ := hunder
    rw [Data.IsSegmentOf.segmentNo_eq hname] at hle hnew ⊢
    have hlength : d.name.length = base.length + 2 := by
      rw [hname]
      simp
    refine ⟨d, hdecode, by omega, segment, ?_, version, ?_, ⟨hs, hv⟩, final, hfinal, hf,
      ⟨hle, hcontent⟩, hdrop ▸ hbase, hexpected, hnew, by rw [hdrop]⟩
    · rw [hlength, hname]
      simp
    · rw [hlength, hname]
      simp

/-- The packets of a list of blocks, and what they have in common with the segments of an object
whose version is left open. -/
structure Segments (cxx : NdnCxx) (blocks : List Block) (base : Name) (finalSegment : Nat)
    (packets : List Data) : Prop where
  decodes : blocks.map cxx.decodeData = packets.map some
  segment : ∀ d ∈ packets, d.IsSegmentUnder base finalSegment
  numbers : (packets.map Data.segmentNo).Perm (List.range (finalSegment + 1))

/-- A loop that ends has met packets of one base name and one final block, each number once. -/
theorem foldlM_add_some {blocks : List Block} {state state' : InnerSegments}
    (h : blocks.foldlM (InnerSegments.add cxx) state = some state') :
    ∃ packets : List Data, blocks.map cxx.decodeData = packets.map some ∧
      state'.segments = state.segments.insertAll Data.segmentNo packets ∧
      (packets.map Data.segmentNo).Nodup ∧ (∀ d ∈ packets, d.segmentNo ∉ state.segments) ∧
      (∀ b ∈ state.baseName, b ∈ state'.baseName) ∧
      (∀ n ∈ state.expectedFinal, n ∈ state'.expectedFinal) ∧
      ∀ d ∈ packets, ∃ base ∈ state'.baseName, ∃ finalSegment ∈ state'.expectedFinal,
        d.IsSegmentUnder base finalSegment ∧ d.segmentNo ≤ finalSegment := by
  induction blocks generalizing state with
  | nil =>
    obtain rfl := Option.some.inj h
    exact ⟨[], rfl, rfl, List.nodup_nil, by simp, fun _ h => h, fun _ h => h, by simp⟩
  | cons block blocks ih =>
    rw [List.foldlM_cons] at h
    obtain ⟨state₁, hadd, h⟩ := Option.bind_eq_some_iff.mp h
    obtain ⟨d, base, finalSegment, hdecode, hunder, hle, hbase, hexpected, hnew, rfl⟩ :=
      InnerSegments.add_eq_some.mp hadd
    obtain ⟨packets, hdecodes, hsegments, hnodup, hfresh, hbases, hfinals, hall⟩ := ih h
    have hfresh' : ∀ e ∈ packets, e.segmentNo ≠ d.segmentNo ∧ e.segmentNo ∉ state.segments := by
      intro e he
      refine ⟨fun heq => hfresh e he ?_, fun hmem => hfresh e he ?_⟩
      · rw [heq]
        exact Std.ExtTreeMap.mem_insert_self
      · exact Std.ExtTreeMap.mem_insert.mpr (.inr hmem)
    refine ⟨d :: packets, by rw [List.map_cons, List.map_cons, hdecode, hdecodes], hsegments, ?_,
      ?_, ?_, ?_, ?_⟩
    · refine List.nodup_cons.mpr ⟨fun hmem => ?_, hnodup⟩
      obtain ⟨e, he, heq⟩ := List.mem_map.mp hmem
      exact (hfresh' e he).1 heq
    · exact List.forall_mem_cons.mpr ⟨hnew, fun e he => (hfresh' e he).2⟩
    · intro b hb
      obtain rfl := hbase b hb
      exact hbases b rfl
    · intro n hn
      obtain rfl := hexpected n hn
      exact hfinals n rfl
    · exact List.forall_mem_cons.mpr
        ⟨⟨base, hbases base rfl, finalSegment, hfinals finalSegment rfl, hunder, hle⟩, hall⟩

/-- The loop over packets of one base name and one final block, each number once. -/
theorem foldlM_add_of_segments {packets : List Data} {blocks : List Block} {state : InnerSegments}
    (hdecodes : blocks.map cxx.decodeData = packets.map some)
    (hunder : ∀ d ∈ packets, d.IsSegmentUnder base finalSegment)
    (hle : ∀ d ∈ packets, d.segmentNo ≤ finalSegment)
    (hbase : ∀ b ∈ state.baseName, b = base)
    (hexpected : ∀ n ∈ state.expectedFinal, n = finalSegment)
    (hnodup : (packets.map Data.segmentNo).Nodup)
    (hnew : ∀ d ∈ packets, d.segmentNo ∉ state.segments) :
    ∃ result, blocks.foldlM (InnerSegments.add cxx) state = some result ∧
      result.segments = state.segments.insertAll Data.segmentNo packets ∧
      (packets ≠ [] → result.expectedFinal = some finalSegment ∧ result.baseName = some base) := by
  induction packets generalizing blocks state with
  | nil =>
    obtain rfl := List.map_eq_nil_iff.mp hdecodes
    exact ⟨state, rfl, rfl, fun h => absurd rfl h⟩
  | cons d packets ih =>
    cases blocks with
    | nil => cases hdecodes
    | cons block blocks =>
      obtain ⟨hdecode, hdecodes⟩ := List.cons.inj hdecodes
      obtain ⟨hd, hnodup⟩ := List.nodup_cons.mp hnodup
      have hadd := InnerSegments.add_eq_some.mpr ⟨d, base, finalSegment, hdecode,
        hunder d List.mem_cons_self, hle d List.mem_cons_self, hbase, hexpected,
        hnew d List.mem_cons_self, rfl⟩
      have hfresh : ∀ e ∈ packets, e.segmentNo ∉ state.segments.insert d.segmentNo d := by
        intro e he hmem
        rcases Std.ExtTreeMap.mem_insert.mp hmem with heq | hmem
        · exact hd (Std.LawfulEqOrd.eq_of_compare heq ▸ List.mem_map_of_mem he)
        · exact hnew e (List.mem_cons_of_mem _ he) hmem
      obtain ⟨result, hresult, hsegments, hmet⟩ := @ih blocks
        ⟨state.segments.insert d.segmentNo d, some finalSegment, some base⟩ hdecodes
        (fun e he => hunder e (List.mem_cons_of_mem _ he))
        (fun e he => hle e (List.mem_cons_of_mem _ he))
        (fun b hb => (Option.some.inj hb).symm) (fun n hn => (Option.some.inj hn).symm)
        hnodup hfresh
      rw [List.foldlM_cons, hadd, Option.bind_eq_bind, Option.bind_some]
      refine ⟨result, hresult, hsegments, fun _ => ?_⟩
      cases packets with
      | nil =>
        obtain rfl := List.map_eq_nil_iff.mp hdecodes
        obtain rfl := Option.some.inj hresult
        exact ⟨rfl, rfl⟩
      | cons e packets => exact hmet (List.cons_ne_nil _ _)

/-- The packets of a complete object in the order of their numbers. -/
theorem Segments.ordered {blocks : List Block} {packets : List Data}
    (h : Segments cxx blocks base finalSegment packets) :
    ∃ ordered : List Data, ordered.Perm packets ∧
      ordered.map Data.segmentNo = List.range (finalSegment + 1) := by
  obtain ⟨ordered, hperm, heq⟩ := exists_perm_of_perm_map h.numbers.symm
  exact ⟨ordered, hperm, heq.symm⟩

/-- The contents are collected in the order of the numbers. -/
theorem mapM_contents {packets ordered : List Data} (hperm : ordered.Perm packets)
    (hordered : ordered.map Data.segmentNo = List.range (finalSegment + 1)) :
    (List.range (finalSegment + 1)).mapM (fun segmentNo =>
      ((Map.insertAll Data.segmentNo ∅ packets)[segmentNo]?).map Data.content) =
      some (ordered.map Data.content) := by
  have hnodup : (packets.map Data.segmentNo).Nodup := by
    rw [← (hperm.map _).nodup_iff, hordered]
    exact List.nodup_range
  rw [← hordered, List.mapM_map]
  refine mapM_eq_some fun d hd => ?_
  rw [Function.comp_apply, Map.insertAll_get hnodup (hperm.mem_iff.mp hd)]
  rfl

/-- Distinct numbers up to the final one, as many as there can be, are all of them. -/
theorem numbers_perm {numbers : List Nat} (hnodup : numbers.Nodup)
    (hle : ∀ n ∈ numbers, n ≤ finalSegment) (hlength : numbers.length = finalSegment + 1) :
    numbers.Perm (List.range (finalSegment + 1)) := by
  have hsubset : numbers ⊆ List.range (finalSegment + 1) :=
    fun n hn => List.mem_range.mpr (Nat.lt_succ_of_le (hle n hn))
  refine (List.subperm_of_subset hnodup hsubset).perm_of_length_le ?_
  rw [List.length_range, hlength]

/-- Blocks are assembled exactly when they are the segments of an object, up to their versions. -/
theorem decodeInnerSegments_eq_some {blocks : List Block} (hlength : blocks.length < 2 ^ 64)
    {assembly : InnerSegmentAssembly} : decodeInnerSegments cxx blocks = some assembly ↔
      ∃ (packets ordered : List Data) (finalSegment : Nat),
        Segments cxx blocks assembly.name finalSegment packets ∧ ordered.Perm packets ∧
        ordered.map Data.segmentNo = List.range (finalSegment + 1) ∧
        assembly.payload = ordered.flatMap Data.content := by
  simp only [decodeInnerSegments, Option.bind_eq_bind, Option.bind_eq_some_iff,
    Option.guard_eq_some', exists_const]
  constructor
  · rintro ⟨hne, state, hfold, finalSegment, hfinal, base, hbase, hsize, contents, hcontents, heq⟩
    obtain rfl := Option.some.inj heq
    obtain ⟨packets, hdecodes, hsegments, hnodup, -, -, -, hall⟩ := foldlM_add_some hfold
    have hblocks : blocks.length = packets.length := by simpa using congrArg List.length hdecodes
    have hunder : ∀ d ∈ packets, d.IsSegmentUnder base finalSegment ∧
        d.segmentNo ≤ finalSegment := by
      intro d hd
      obtain ⟨base', hbase', finalSegment', hfinal', hunder⟩ := hall d hd
      obtain rfl := Option.some.inj (hbase.symm.trans hbase')
      obtain rfl := Option.some.inj (hfinal.symm.trans hfinal')
      exact hunder
    rw [hsegments, Map.size_insertAll hnodup (by simp)] at hsize
    have hpos : packets ≠ [] := fun hnil => hne (by
      rw [hnil] at hblocks
      exact List.eq_nil_of_length_eq_zero hblocks)
    -- the count does not wrap, since a final number is below the largest one
    have hcount : packets.length = finalSegment + 1 := by
      obtain ⟨d, rest, rfl⟩ := List.exists_cons_of_ne_nil hpos
      obtain ⟨⟨version, -, -, ⟨final, -, -, rfl⟩, -⟩, -⟩ := hunder d List.mem_cons_self
      have hlt := final.number_lt
      have hzero : (∅ : Map Nat Data).size = 0 := rfl
      rw [hzero, Nat.zero_add] at hsize
      have hcons : 0 < (d :: rest).length := Nat.succ_pos _
      omega
    have hsegs : Segments cxx blocks base finalSegment packets := by
      refine ⟨hdecodes, fun d hd => (hunder d hd).1, numbers_perm hnodup ?_ (by simpa using hcount)⟩
      intro n hn
      obtain ⟨d, hd, rfl⟩ := List.mem_map.mp hn
      exact (hunder d hd).2
    obtain ⟨ordered, hperm, hordered⟩ := hsegs.ordered
    rw [hsegments, mapM_contents hperm hordered] at hcontents
    obtain rfl := Option.some.inj hcontents
    exact ⟨packets, ordered, finalSegment, hsegs, hperm, hordered, rfl⟩
  · rintro ⟨packets, ordered, finalSegment, hsegs, hperm, hordered, hpayload⟩
    have hblocks : blocks.length = packets.length := by
      simpa using congrArg List.length hsegs.decodes
    have hcount : packets.length = finalSegment + 1 := by
      simpa using hsegs.numbers.length_eq
    have hnodup : (packets.map Data.segmentNo).Nodup :=
      hsegs.numbers.nodup_iff.mpr List.nodup_range
    have hle : ∀ d ∈ packets, d.segmentNo ≤ finalSegment := fun d hd =>
      Nat.le_of_lt_succ (List.mem_range.mp (hsegs.numbers.mem_iff.mp (List.mem_map_of_mem hd)))
    obtain ⟨state, hfold, hsegments, hmet⟩ := @foldlM_add_of_segments cxx _ _ _ _ {}
      hsegs.decodes hsegs.segment hle (by simp) (by simp) hnodup (by simp)
    obtain ⟨hfinal, hbase⟩ := hmet (List.ne_nil_of_length_eq_add_one hcount)
    have hsize : state.segments.size = finalSegment + 1 := by
      rw [hsegments, Map.size_insertAll hnodup (by simp), hcount]
      exact Nat.zero_add _
    refine ⟨List.ne_nil_of_length_eq_add_one (hblocks.trans hcount), state, hfold, finalSegment,
      hfinal, assembly.name, hbase, ?_, _, hsegments ▸ mapM_contents hperm hordered, ?_⟩
    · rw [hsize, Nat.mod_eq_of_lt (by omega)]
    · rw [← List.flatMap_def, ← hpayload]

/-- The blocks in another order are the segments of the same object. -/
theorem Segments.perm {blocks blocks' : List Block} {packets : List Data}
    (h : Segments cxx blocks base finalSegment packets) (hperm : blocks'.Perm blocks) :
    ∃ packets' : List Data, packets'.Perm packets ∧
      Segments cxx blocks' base finalSegment packets' := by
  obtain ⟨packets', hpackets, hdecodes⟩ :=
    exists_perm_of_perm_map (h.decodes ▸ hperm.map cxx.decodeData)
  exact ⟨packets', hpackets, hdecodes, fun d hd => h.segment d (hpackets.mem_iff.mp hd),
    (hpackets.map _).trans h.numbers⟩

theorem decodeInnerSegments_perm {blocks blocks' : List Block} (hlength : blocks.length < 2 ^ 64)
    (hperm : blocks'.Perm blocks) :
    decodeInnerSegments cxx blocks' = decodeInnerSegments cxx blocks := by
  have hlength' : blocks'.length < 2 ^ 64 := hperm.length_eq ▸ hlength
  refine Option.ext fun assembly => ?_
  rw [decodeInnerSegments_eq_some hlength, decodeInnerSegments_eq_some hlength']
  constructor
  · rintro ⟨packets, ordered, finalSegment, hsegs, hordered, hrest⟩
    obtain ⟨packets', hpackets, hsegs'⟩ := hsegs.perm hperm.symm
    exact ⟨packets', ordered, finalSegment, hsegs', hordered.trans hpackets.symm, hrest⟩
  · rintro ⟨packets, ordered, finalSegment, hsegs, hordered, hrest⟩
    obtain ⟨packets', hpackets, hsegs'⟩ := hsegs.perm hperm
    exact ⟨packets', ordered, finalSegment, hsegs', hordered.trans hpackets.symm, hrest⟩

end Rounds

/-- The blocks are the segments of an object: they share its name with the version, they have one
final block and content, and each number up to the final one is there once. -/
def CompleteObject (cxx : NdnCxx) (blocks : List Block) : Prop :=
  ∃ (packets : List Data) (base : Name) (version : Component) (finalSegment : Nat),
    blocks.map cxx.decodeData = packets.map some ∧ version.isVersion ∧
    (∀ d ∈ packets, d.IsSegmentOf (base ++ [version]) finalSegment) ∧
    (packets.map Data.segmentNo).Perm (List.range (finalSegment + 1))

/-- The blocks would be the segments of an object if their names did not differ in the version. -/
def MixesVersions (cxx : NdnCxx) (blocks : List Block) : Prop :=
  ∃ (base : Name) (finalSegment : Nat) (packets : List Data),
    Segments cxx blocks base finalSegment packets ∧
    ∃ d ∈ packets, ∃ d' ∈ packets, d.name.dropLast 1 ≠ d'.name.dropLast 1

/-- The assembly takes the blocks of complete objects and no others, and its payload is their
contents in the order of the segments, whatever the order of the blocks. -/
structure AcceptsComplete (cxx : NdnCxx) (blocks : List Block) : Prop where
  accepts : (∃ assembly, decodeInnerSegments cxx blocks = some assembly) ↔
    CompleteObject cxx blocks
  payload : ∀ (assembly : InnerSegmentAssembly) (packets : List Data),
    decodeInnerSegments cxx blocks = some assembly →
    blocks.map cxx.decodeData = packets.map some →
    ∃ (ordered : List Data) (finalSegment : Nat), ordered.Perm packets ∧
      ordered.map Data.segmentNo = List.range (finalSegment + 1) ∧
      assembly.payload = ordered.flatMap Data.content
  order : ∀ blocks' : List Block, blocks'.Perm blocks →
    decodeInnerSegments cxx blocks' = decodeInnerSegments cxx blocks

section Complete

variable {cxx : NdnCxx} {blocks : List Block} {base : Name} {finalSegment : Nat}
  {packets : List Data}

theorem Data.IsSegmentOf.object_eq {object : Name} {d : Data}
    (h : d.IsSegmentOf object finalSegment) : d.name.dropLast 1 = object := by
  obtain ⟨segment, hname, -⟩ := h.name
  simp [Name.dropLast, hname]

theorem packets_unique {packets' : List Data} (h : blocks.map cxx.decodeData = packets.map some)
    (h' : blocks.map cxx.decodeData = packets'.map some) : packets = packets' :=
  List.map_injective_iff.mpr (Option.some_injective _) (h.symm.trans h')

/-- Segments of one version are an object. -/
theorem Segments.complete (h : Segments cxx blocks base finalSegment packets)
    (hsame : ∀ d ∈ packets, ∀ d' ∈ packets, d.name.dropLast 1 = d'.name.dropLast 1) :
    CompleteObject cxx blocks := by
  have hcount : packets.length = finalSegment + 1 := by simpa using h.numbers.length_eq
  obtain ⟨d, rest, rfl⟩ := List.exists_cons_of_length_eq_add_one hcount
  obtain ⟨version, hversion, hd⟩ := h.segment d List.mem_cons_self
  refine ⟨d :: rest, base, version, finalSegment, h.decodes, hversion, fun e he => ?_, h.numbers⟩
  obtain ⟨version', -, he'⟩ := h.segment e he
  have hobject : base ++ [version] = base ++ [version'] :=
    hd.object_eq.symm.trans ((hsame d List.mem_cons_self e he).trans he'.object_eq)
  rw [hobject]
  exact he'

theorem CompleteObject.segments (h : CompleteObject cxx blocks) :
    ∃ base finalSegment packets, Segments cxx blocks base finalSegment packets ∧
      ∀ d ∈ packets, ∀ d' ∈ packets, d.name.dropLast 1 = d'.name.dropLast 1 := by
  obtain ⟨packets, base, version, finalSegment, hdecodes, hversion, hall, hnumbers⟩ := h
  refine ⟨base, finalSegment, packets, ⟨hdecodes, fun d hd => ⟨version, hversion, hall d hd⟩,
    hnumbers⟩, fun d hd d' hd' => ?_⟩
  rw [(hall d hd).object_eq, (hall d' hd').object_eq]

/-- The assembly is right about all blocks but those of several versions that complete each
other. -/
theorem accepts_complete_iff (hlength : blocks.length < 2 ^ 64) :
    AcceptsComplete cxx blocks ↔ ¬MixesVersions cxx blocks := by
  constructor
  · rintro h ⟨base, finalSegment, packets, hsegs, d, hd, d', hd', hne⟩
    obtain ⟨ordered, hperm, hordered⟩ := hsegs.ordered
    obtain ⟨_, _, packets', hsegs', hsame⟩ := (h.accepts.mp ⟨⟨base, ordered.flatMap Data.content⟩,
      (decodeInnerSegments_eq_some hlength).mpr ⟨packets, ordered, finalSegment, hsegs, hperm,
        hordered, rfl⟩⟩).segments
    obtain rfl := packets_unique hsegs.decodes hsegs'.decodes
    exact hne (hsame d hd d' hd')
  · intro hmixes
    refine ⟨⟨?_, fun hcomplete => ?_⟩, fun assembly packets hdecode hpackets => ?_,
      fun blocks' hperm => decodeInnerSegments_perm hlength hperm⟩
    · rintro ⟨assembly, hdecode⟩
      obtain ⟨packets, -, finalSegment, hsegs, -⟩ :=
        (decodeInnerSegments_eq_some hlength).mp hdecode
      refine hsegs.complete fun d hd d' hd' => ?_
      by_contra hne
      exact hmixes ⟨_, _, packets, hsegs, d, hd, d', hd', hne⟩
    · obtain ⟨base, finalSegment, packets, hsegs, -⟩ := hcomplete.segments
      obtain ⟨ordered, hperm, hordered⟩ := hsegs.ordered
      exact ⟨⟨base, ordered.flatMap Data.content⟩, (decodeInnerSegments_eq_some hlength).mpr
        ⟨packets, ordered, finalSegment, hsegs, hperm, hordered, rfl⟩⟩
    · obtain ⟨packets', ordered, finalSegment, hsegs, hperm, hordered, hpayload⟩ :=
        (decodeInnerSegments_eq_some hlength).mp hdecode
      obtain rfl := packets_unique hsegs.decodes hpackets
      exact ⟨ordered, finalSegment, hperm, hordered, hpayload⟩

end Complete

/-- A segment of one byte, of a version of an object with two segments. -/
def halfPacket (version segment : Nat) : Data where
  name := ((Name.ofStrings ["x"]).appendVersion version).appendSegment segment
  finalBlock := some (.fromSegment 1)
  content := [UInt8.ofNat segment]
  signatureValue := some [1]

theorem accepts_complete_halves :
    AcceptsComplete packetFormat ([halfPacket 0 1, halfPacket 0 0].map packetFormat.dataWire) := by
  refine (accepts_complete_iff (by decide)).mpr ?_
  rintro ⟨base, finalSegment, packets, hsegs, d, hd, d', hd', hne⟩
  have hdecodes : ([halfPacket 0 1, halfPacket 0 0].map packetFormat.dataWire).map
      packetFormat.decodeData = [halfPacket 0 1, halfPacket 0 0].map some := by decide +kernel
  obtain rfl := packets_unique hdecodes hsegs.decodes
  have hsame : ∀ d ∈ [halfPacket 0 1, halfPacket 0 0], ∀ d' ∈ [halfPacket 0 1, halfPacket 0 0],
      d.name.dropLast 1 = d'.name.dropLast 1 := by decide
  exact hne (hsame d hd d' hd')

/-- The halves of two versions are put together. -/
theorem versions_mixed :
    ¬AcceptsComplete packetFormat ([halfPacket 0 0, halfPacket 7 1].map packetFormat.dataWire) := by
  intro h
  have hdecodes : ([halfPacket 0 0, halfPacket 7 1].map packetFormat.dataWire).map
      packetFormat.decodeData = [halfPacket 0 0, halfPacket 7 1].map some := by decide +kernel
  have haccepted : decodeInnerSegments packetFormat
      ([halfPacket 0 0, halfPacket 7 1].map packetFormat.dataWire) =
      some ⟨Name.ofStrings ["x"], [0, 1]⟩ := by decide +kernel
  obtain ⟨_, _, packets, hsegs, hsame⟩ := (h.accepts.mp ⟨_, haccepted⟩).segments
  obtain rfl := packets_unique hdecodes hsegs.decodes
  exact absurd hsame (by decide)

end NdnSvs
