import NdnSvs.SegmentAssembly

/-! Publications in segments: how the packets of the producer cut the payload, the assembly by the
receiver, and that the receiver gets the name and the payload back whatever the order of the inner
packets. -/

namespace NdnSvs

open Lib Lib.Tlv

/-! ### The cut -/

/-- The inner packet of a segment. -/
structure InnerSegment (publication : AsyncPublication) (finalSegment segmentNo : Nat)
    (content : Bytes) (inner : Data) : Prop where
  name : inner.name = (publication.name.appendVersion 0).appendSegment segmentNo
  finalBlock : inner.finalBlock = some (.fromSegment finalSegment)
  content_eq : inner.content = content
  signed : inner.signatureValue.isSome
  contentType : inner.contentType = 0
  freshnessPeriod : inner.freshnessPeriod = publication.freshnessPeriod.toNat

/-- The packet that encapsulates a segment. -/
structure OuterSegment (cfg : PubSubConfig) (publication : AsyncPublication)
    (finalSegment segmentNo : Nat) (inner outer : Data) : Prop where
  name : outer.name = ((publication.dataName cfg).appendVersion 0).appendSegment segmentNo
  finalBlock : outer.finalBlock = some (.fromSegment finalSegment)
  content : outer.content = (cfg.core.cxx.dataWire inner).wire

/-- Segments from an offset on, numbered from `segmentNo`, that cut the rest of a payload. -/
inductive Cut (cfg : PubSubConfig) (publication : AsyncPublication) (value : Bytes)
    (finalSegment : Nat) : Nat → Nat → List Data → List Data → Prop
  | done (offset segmentNo : Nat) (all : value.length ≤ offset) :
      Cut cfg publication value finalSegment offset segmentNo [] []
  | segment (offset segmentNo size : Nat) (inner outer : Data) (inners outers : List Data)
      (pos : 0 < size) (le : offset + size ≤ value.length)
      (isInner : InnerSegment publication finalSegment segmentNo ((value.drop offset).take size)
        inner)
      (isOuter : OuterSegment cfg publication finalSegment segmentNo inner outer)
      (fits : (cfg.core.cxx.dataWire outer).size ≤ maxNdnPacketSize)
      (rest : Cut cfg publication value finalSegment (offset + size) (segmentNo + 1)
        inners outers) :
      Cut cfg publication value finalSegment offset segmentNo (inner :: inners) (outer :: outers)

section Cut

variable {cfg : PubSubConfig} {env : CoreInputs} {publication : AsyncPublication} {value : Bytes}

theorem prepareOuterSegment_eq {finalSegment segmentNo offset size : Nat} {outer : Data}
    (h : prepareOuterSegment cfg env publication value segmentNo (.fromSegment finalSegment) offset
      size = .ok outer) :
    ∃ inner, InnerSegment publication finalSegment segmentNo ((value.drop offset).take size) inner ∧
      OuterSegment cfg publication finalSegment segmentNo inner outer := by
  obtain ⟨fresh, hfresh, h⟩ := bind_eq_ok.mp h
  obtain ⟨inner, hinner, h⟩ := bind_eq_ok.mp h
  obtain rfl := setFreshnessPeriod_eq hfresh
  obtain ⟨signature, rfl⟩ := signData_eq hinner
  obtain ⟨wire, hwire, h⟩ := bind_eq_ok.mp h
  obtain ⟨outer', houter, h⟩ := bind_eq_ok.mp h
  obtain rfl := setFreshnessPeriod_eq houter
  obtain ⟨outerSignature, rfl⟩ := signData_eq h
  obtain rfl := Except.ok.inj hwire
  exact ⟨_, ⟨rfl, rfl, rfl, rfl, rfl, rfl⟩, ⟨rfl, rfl, rfl⟩⟩

/-- The best candidate of the search so far: it is not empty, and its packet fits. -/
def FitsBest (cfg : PubSubConfig) (env : CoreInputs) (publication : AsyncPublication)
    (value : Bytes) (segmentNo : Nat) (finalBlock : Component) (offset upper : Nat)
    (best : Option (Nat × Data)) : Prop :=
  ∀ size packet, best = some (size, packet) → 0 < size ∧ size ≤ upper ∧
    prepareOuterSegment cfg env publication value segmentNo finalBlock offset size = .ok packet ∧
    (cfg.core.cxx.dataWire packet).size ≤ maxNdnPacketSize

theorem fitSegment_fits {segmentNo offset upper : Nat} {finalBlock : Component}
    {fuel low high : Nat} {best result : Option (Nat × Data)} (hlow : 0 < low)
    (hhigh : high ≤ upper)
    (h : fitSegment cfg env publication value segmentNo finalBlock offset fuel low high best =
      .ok result)
    (hbest : FitsBest cfg env publication value segmentNo finalBlock offset upper best) :
    FitsBest cfg env publication value segmentNo finalBlock offset upper result := by
  induction fuel generalizing low high best with
  | zero =>
    obtain rfl := Except.ok.inj h
    exact hbest
  | succ fuel ih =>
    rw [fitSegment] at h
    split at h
    · obtain rfl := Except.ok.inj h
      exact hbest
    · obtain ⟨packet, hpacket, h⟩ := bind_eq_ok.mp h
      obtain ⟨wire, hwire, h⟩ := bind_eq_ok.mp h
      split at h
      · rename_i hallowed
        refine ih (by omega) hhigh h fun size d hd => ?_
        obtain ⟨rfl, rfl⟩ := Prod.mk.inj (Option.some.inj hd)
        refine ⟨by omega, by omega, hpacket, ?_⟩
        unfold Data.wireEncode at hwire
        split at hwire
        · obtain rfl := Except.ok.inj hwire
          exact of_decide_eq_true hallowed
        · cases hwire
      · exact ih hlow (by omega) h hbest

/-- The loop cuts the payload from its offset on: every round takes at least one byte. -/
theorem fitSegments_cut {finalSegment fuel offset : Nat} {packets result : List Data}
    (hfuel : value.length ≤ offset + fuel)
    (h : fitSegments cfg env publication value (.fromSegment finalSegment) fuel offset packets =
      .ok result) :
    ∃ inners outers, Cut cfg publication value finalSegment offset packets.length inners outers ∧
      result = packets ++ outers := by
  induction fuel generalizing offset packets with
  | zero =>
    obtain rfl := Except.ok.inj h
    exact ⟨[], [], .done _ _ hfuel, (List.append_nil _).symm⟩
  | succ fuel ih =>
    rw [fitSegments] at h
    split at h
    · rename_i hdone
      obtain rfl := Except.ok.inj h
      exact ⟨[], [], .done _ _ hdone, (List.append_nil _).symm⟩
    · obtain ⟨found, hfound, h⟩ := bind_eq_ok.mp h
      cases found with
      | none => cases h
      | some found =>
        obtain ⟨best, packet⟩ := found
        obtain ⟨hpos, hle, hpacket, hfits⟩ := fitSegment_fits (by omega) le_rfl hfound
          (by intro size d hd; cases hd) best packet rfl
        obtain ⟨inner, hinner, houter⟩ := prepareOuterSegment_eq hpacket
        obtain ⟨inners, outers, hcut, rfl⟩ := ih (by omega) h
        rw [List.length_append, List.length_singleton] at hcut
        refine ⟨inner :: inners, packet :: outers,
          .segment _ _ best _ _ _ _ hpos (by omega) hinner houter hfits hcut, ?_⟩
        rw [List.append_assoc, List.singleton_append]

theorem fitFinalBlock_cut {passes finalGuess : Nat} {packets : List Data}
    (h : fitFinalBlock cfg env publication value passes finalGuess = .ok packets) :
    ∃ inners, Cut cfg publication value (packets.length - 1) 0 0 inners packets := by
  induction passes generalizing finalGuess with
  | zero => cases h
  | succ passes ih =>
    obtain ⟨found, hfound, h⟩ := bind_eq_ok.mp h
    split at h
    · rename_i hguess
      obtain ⟨-, -, h⟩ := bind_eq_ok.mp h
      obtain rfl := Except.ok.inj h
      obtain ⟨inners, outers, hcut, heq⟩ := fitSegments_cut (by omega) hfound
      rw [List.nil_append] at heq
      subst heq
      exact ⟨inners, hguess ▸ hcut⟩
    · exact ih h

theorem prepareSegmentedPackets_cut {packets : List Data}
    (h : prepareSegmentedPackets cfg env publication value = .ok packets) :
    value ≠ [] ∧ ∃ inners, Cut cfg publication value (packets.length - 1) 0 0 inners packets := by
  obtain ⟨hne, h⟩ := require_bind_eq_ok.mp h
  exact ⟨hne, fitFinalBlock_cut h⟩

end Cut

namespace Cut

variable {cfg : PubSubConfig} {publication : AsyncPublication} {value : Bytes}
  {finalSegment offset segmentNo : Nat} {inners outers : List Data}

/-- There are no more segments than bytes. -/
theorem length_le (h : Cut cfg publication value finalSegment offset segmentNo inners outers) :
    outers.length ≤ value.length - offset := by
  induction h with
  | done => exact Nat.zero_le _
  | segment offset segmentNo size inner outer inners outers pos le isInner isOuter fits rest ih =>
    rw [List.length_cons]
    omega

theorem length_eq (h : Cut cfg publication value finalSegment offset segmentNo inners outers) :
    inners.length = outers.length := by
  induction h with
  | done => rfl
  | segment offset segmentNo size inner outer inners outers pos le isInner isOuter fits rest ih =>
    rw [List.length_cons, List.length_cons, ih]

theorem names (h : Cut cfg publication value finalSegment offset segmentNo inners outers) :
    outers.map Data.name = (List.range' segmentNo outers.length).map
      fun i => ((publication.dataName cfg).appendVersion 0).appendSegment i := by
  induction h with
  | done => rfl
  | segment offset segmentNo size inner outer inners outers pos le isInner isOuter fits rest ih =>
    rw [List.length_cons, List.range'_succ, List.map_cons, List.map_cons, ih, isOuter.name]

/-- No byte is lost, and none is cut twice. -/
theorem payload (h : Cut cfg publication value finalSegment offset segmentNo inners outers) :
    inners.flatMap Data.content = value.drop offset := by
  induction h with
  | done offset segmentNo all => exact (List.drop_eq_nil_of_le all).symm
  | segment offset segmentNo size inner outer inners outers pos le isInner isOuter fits rest ih =>
    rw [List.flatMap_cons, ih, isInner.content_eq, ← List.drop_drop, List.take_append_drop]

/-- Each packet with its inner packet, its number and its content. -/
theorem pairs (h : Cut cfg publication value finalSegment offset segmentNo inners outers) {i : Nat}
    {inner : Data} (hi : inners[i]? = some inner) :
    ∃ outer content, outers[i]? = some outer ∧ content ≠ [] ∧
      InnerSegment publication finalSegment (segmentNo + i) content inner ∧
      OuterSegment cfg publication finalSegment (segmentNo + i) inner outer ∧
      (cfg.core.cxx.dataWire outer).size ≤ maxNdnPacketSize := by
  induction h generalizing i with
  | done => cases hi
  | segment offset segmentNo size head outer inners outers pos le isInner isOuter fits rest ih =>
    cases i with
    | zero =>
      obtain rfl := Option.some.inj hi
      refine ⟨outer, _, rfl, ?_, isInner, isOuter, fits⟩
      rw [← List.length_pos_iff, List.length_take, List.length_drop]
      omega
    | succ i =>
      obtain ⟨outer, content, h⟩ := ih hi
      rw [Nat.add_right_comm, Nat.add_assoc] at h
      exact ⟨outer, content, h⟩

end Cut

/-! ### The round trip -/

/-- What the assembly accepts of an inner packet. -/
structure Assembles (cxx : NdnCxx) (base : Name) (finalSegment : Nat) (d : Data) : Prop where
  decodes : cxx.decodeData (cxx.dataWire d) = some d
  name : d.name = (base.appendVersion 0).appendSegment d.segmentNo
  le : d.segmentNo ≤ finalSegment
  finalBlock : d.finalBlock = some (.fromSegment finalSegment)
  content : d.content ≠ []

theorem number_fromSegment {n : Nat} (h : n < 2 ^ 64) : (Component.fromSegment n).number = n := by
  rw [Component.number, Component.fromSegment, readNonNegativeInteger_write h, Option.getD_some]

theorem isSegment_fromSegment {n : Nat} (h : n < 2 ^ 64) :
    (Component.fromSegment n).isSegment = true := by
  simp [Component.isSegment, Component.fromSegment, readNonNegativeInteger_write h]

theorem isVersion_fromVersion {n : Nat} (h : n < 2 ^ 64) :
    (Component.fromVersion n).isVersion = true := by
  simp [Component.isVersion, Component.fromVersion, readNonNegativeInteger_write h]

section Assembly

variable {cxx : NdnCxx} {base : Name} {finalSegment : Nat}

theorem Assembles.isSegmentUnder {d : Data} (hfinal : finalSegment < 2 ^ 64)
    (hd : Assembles cxx base finalSegment d) : d.IsSegmentUnder base finalSegment := by
  refine ⟨.fromVersion 0, isVersion_fromVersion (by decide), ⟨.fromSegment d.segmentNo, hd.name, ?_⟩,
    ⟨.fromSegment finalSegment, hd.finalBlock, isSegment_fromSegment hfinal,
      number_fromSegment hfinal⟩, hd.content⟩
  exact isSegment_fromSegment (hd.le.trans_lt hfinal)

/-- Packets numbered from 0 are assembled in any order. -/
theorem decodeInnerSegments_eq {inners ds : List Data} (hfinal : finalSegment < 2 ^ 64)
    (hds : ∀ d ∈ inners, Assembles cxx base finalSegment d)
    (hnumbers : inners.map Data.segmentNo = List.range (finalSegment + 1))
    (hlt : finalSegment + 1 < 2 ^ 64) (hperm : ds.Perm inners) :
    decodeInnerSegments cxx (ds.map cxx.dataWire) = some ⟨base, inners.flatMap Data.content⟩ := by
  have hlength : ds.length = finalSegment + 1 := by
    rw [hperm.length_eq, ← List.length_map Data.segmentNo, hnumbers, List.length_range]
  have hassembles : ∀ d ∈ ds, Assembles cxx base finalSegment d :=
    fun d hd => hds d (hperm.mem_iff.mp hd)
  have hsegments : Segments cxx (ds.map cxx.dataWire) base finalSegment ds := by
    refine ⟨?_, fun d hd => (hassembles d hd).isSegmentUnder hfinal, hnumbers ▸ hperm.map _⟩
    rw [List.map_map]
    exact List.map_congr_left fun d hd => (hassembles d hd).decodes
  exact (decodeInnerSegments_eq_some (by rw [List.length_map]; omega)).mpr
    ⟨ds, inners, finalSegment, hsegments, hperm.symm, hnumbers, rfl⟩

end Assembly

section RoundTrip

variable {cfg : PubSubConfig} {env : CoreInputs} {publication : AsyncPublication} {value : Bytes}
  {finalSegment : Nat} {inners outers : List Data}

theorem Cut.segmentNo_eq {i : Nat} {content : Bytes} {inner : Data} (hi : i < 2 ^ 64)
    (h : InnerSegment publication finalSegment i content inner) : inner.segmentNo = i := by
  simp [Data.segmentNo, h.name, Name.appendSegment, number_fromSegment hi]

/-- An inner packet takes less than the packet around it. -/
theorem OuterSegment.inner_fits {segmentNo : Nat} {inner outer : Data}
    (h : OuterSegment cfg publication finalSegment segmentNo inner outer)
    (hfits : (cfg.core.cxx.dataWire outer).size ≤ maxNdnPacketSize) :
    (cfg.core.cxx.dataWire inner).value.length < 2 ^ 64 := by
  have hlt : maxNdnPacketSize < 2 ^ 64 := by decide
  have hinner := (cfg.core.cxx.dataWire inner).length_le_wire
  have hcontent := cfg.core.cxx.content_length_le outer
  have houter := (cfg.core.cxx.dataWire outer).length_le_wire
  rw [h.content] at hcontent
  rw [Block.size] at hfits
  omega

/-- The inner packets of a whole payload are what the assembly accepts. -/
theorem Cut.assembles (h : Cut cfg publication value finalSegment 0 0 inners outers)
    (hfinal : outers.length = finalSegment + 1) (hlt : finalSegment + 1 < 2 ^ 64)
    (hperiod : publication.freshnessPeriod < 2 ^ 63) :
    (∀ inner ∈ inners, Assembles cfg.core.cxx publication.name finalSegment inner) ∧
      inners.map Data.segmentNo = List.range (finalSegment + 1) := by
  have hlength : inners.length = finalSegment + 1 := h.length_eq.trans hfinal
  constructor
  · intro inner hmem
    obtain ⟨i, hi⟩ := List.mem_iff_getElem?.mp hmem
    have hile : i < inners.length := (List.getElem?_eq_some_iff.mp hi).1
    obtain ⟨outer, content, -, hne, hinner, houter, hfits⟩ := h.pairs hi
    rw [Nat.zero_add] at hinner houter
    have hsegment := Cut.segmentNo_eq (by omega) hinner
    refine ⟨cfg.core.cxx.decodeData_dataWire inner ⟨?_, ?_, hinner.signed⟩
      (houter.inner_fits hfits), ?_, ?_, hinner.finalBlock, hinner.content_eq ▸ hne⟩
    · rw [hinner.contentType]
      decide
    · rw [hinner.freshnessPeriod]
      omega
    · rw [hsegment, hinner.name]
    · omega
  · refine List.ext_getElem? fun i => ?_
    rw [List.getElem?_map]
    cases hi : inners[i]? with
    | none =>
      have hile := List.getElem?_eq_none_iff.mp hi
      rw [List.getElem?_eq_none (by rw [List.length_range]; omega), Option.map_none]
    | some inner =>
      have hile : i < inners.length := (List.getElem?_eq_some_iff.mp hi).1
      obtain ⟨outer, content, -, -, hinner, -, -⟩ := h.pairs hi
      rw [Nat.zero_add] at hinner
      rw [Option.map_some, Cut.segmentNo_eq (by omega) hinner,
        List.getElem?_range (by omega)]

/-- The receiver finds the inner packets in the contents. -/
theorem Cut.innerBlocks {offset segmentNo : Nat}
    (h : Cut cfg publication value finalSegment offset segmentNo inners outers) :
    outers.mapM Data.innerBlock = some (inners.map cfg.core.cxx.dataWire) := by
  induction h with
  | done => rfl
  | segment offset segmentNo size inner outer inners outers pos le isInner isOuter fits rest ih =>
    have hinner : outer.innerBlock = some (cfg.core.cxx.dataWire inner) := by
      rw [Data.innerBlock, isOuter.content]
      exact blockFromValue_wire (isOuter.inner_fits fits)
    rw [List.mapM_cons, hinner, ih]
    rfl

/-- The packets of a publication in segments are numbered from 0, their final block is the last
number, in the inner packets too, and each fits.  The inner packets, in any order, are assembled to
the name and the payload of the publication. -/
theorem segmentation_round_trip {value : Span} {packets : List Data}
    (hperiod : publication.freshnessPeriod < 2 ^ 63)
    (h : prepareSegmentedPackets cfg env publication value.val = .ok packets) :
    ∃ inners : List Data, packets.mapM Data.innerBlock = some (inners.map cfg.core.cxx.dataWire) ∧
      inners.length = packets.length ∧
      (∀ i outer inner, packets[i]? = some outer → inners[i]? = some inner →
        outer.name = ((publication.dataName cfg).appendVersion 0).appendSegment i ∧
        inner.name = (publication.name.appendVersion 0).appendSegment i ∧
        outer.finalBlock = some (.fromSegment (packets.length - 1)) ∧
        inner.finalBlock = some (.fromSegment (packets.length - 1)) ∧
        (cfg.core.cxx.dataWire outer).size ≤ maxNdnPacketSize) ∧
      ∀ blocks, blocks.Perm (inners.map cfg.core.cxx.dataWire) →
        decodeInnerSegments cfg.core.cxx blocks = some ⟨publication.name, value.val⟩ := by
  obtain ⟨hne, inners, hcut⟩ := prepareSegmentedPackets_cut h
  have hsize := value.property
  have hle := hcut.length_le
  have hpos : 0 < packets.length := by
    refine List.length_pos_iff.mpr fun hnil => ?_
    subst hnil
    cases hcut with
    | done _ _ all => exact hne (List.length_eq_zero_iff.mp (Nat.le_zero.mp all))
  obtain ⟨hassembles, hnumbers⟩ := hcut.assembles (by omega) (by omega) hperiod
  refine ⟨inners, hcut.innerBlocks, hcut.length_eq, fun i outer inner houter hinner => ?_,
    fun blocks hperm => ?_⟩
  · obtain ⟨outer', content, houter', -, his, hos, hfits⟩ := hcut.pairs hinner
    obtain rfl := Option.some.inj (houter.symm.trans houter')
    rw [Nat.zero_add] at his hos
    exact ⟨hos.name, his.name, hos.finalBlock, his.finalBlock, hfits⟩
  · obtain ⟨ds, hds, rfl⟩ := exists_perm_of_perm_map hperm
    have hpayload := hcut.payload
    rw [List.drop_zero] at hpayload
    rw [decodeInnerSegments_eq (by omega) hassembles hnumbers (by omega) hds, hpayload]

end RoundTrip

/-- A signer whose packets are too large with more than two bytes. -/
def bulkySigner : CoreInputs where
  signData d := some (if d.contentType = 0 ∧ 2 < d.content.length then List.replicate
    8800 0 else [1])

def sampleBytes : AsyncPublication where
  kind := .nameOnly
  bootstrapTime := 100
  seqNo := 1
  name := Name.ofStrings ["a", "x"]
  nodePrefix := Name.ofStrings ["a"]
  freshnessPeriod := 1000
  mappingBlocks := []

theorem segmentation_round_trip_two :
    let value : Span := ⟨[1, 2, 3], by decide⟩
    ∃ packets,
      prepareSegmentedPackets sampleConfig bulkySigner sampleBytes value.val = .ok packets ∧
      packets.length = 2 ∧
      ∃ inners : List Data, packets.mapM Data.innerBlock =
          some (inners.map packetFormat.dataWire) ∧
        inners.length = packets.length ∧
        (∀ i outer inner, packets[i]? = some outer → inners[i]? = some inner →
          outer.name = ((sampleBytes.dataName sampleConfig).appendVersion 0).appendSegment i ∧
          inner.name = (sampleBytes.name.appendVersion 0).appendSegment i ∧
          outer.finalBlock = some (.fromSegment (packets.length - 1)) ∧
          inner.finalBlock = some (.fromSegment (packets.length - 1)) ∧
          (packetFormat.dataWire outer).size ≤ maxNdnPacketSize) ∧
        ∀ blocks, blocks.Perm (inners.map packetFormat.dataWire) →
          decodeInnerSegments packetFormat blocks = some ⟨sampleBytes.name, value.val⟩ := by
  intro value
  have hcount : (prepareSegmentedPackets sampleConfig bulkySigner sampleBytes
      value.val).toOption.map List.length = some 2 := by decide +kernel
  cases h : prepareSegmentedPackets sampleConfig bulkySigner sampleBytes value.val with
  | error e =>
    rw [h] at hcount
    cases hcount
  | ok packets =>
    rw [h] at hcount
    exact ⟨packets, rfl, Option.some.inj hcount, segmentation_round_trip (by decide) h⟩

end NdnSvs
