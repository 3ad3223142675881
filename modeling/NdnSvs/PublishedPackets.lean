import NdnSvs.Segmentation

/-! Publications with the packets that they have been made into: one packet, or segments.  A
receiver that has the packets has the publication. -/

namespace NdnSvs

open Lib Lib.Tlv

/-- The packet holds the inner packet. -/
structure Data.Encloses (cxx : NdnCxx) (outer inner : Data) : Prop where
  content : outer.content = (cxx.dataWire inner).wire
  fits : (cxx.dataWire inner).Fits
  decodes : cxx.decodeData (cxx.dataWire inner) = some inner

/-- A publication with its packets: an inner packet without a final block is all of it, and all
inner packets are put together to it or to nothing. -/
structure Published (cxx : NdnCxx) where
  name : Name
  value : Bytes
  inners : List Data
  outers : List Data
  encloses : List.Forall₂ (Data.Encloses cxx) outers inners
  whole : ∀ inner ∈ inners, inner.finalBlock = none → inner.name = name ∧ inner.content = value
  assembled : ∀ assembly, decodeInnerSegments cxx (inners.map cxx.dataWire) = some assembly →
    assembly = ⟨name, value⟩

theorem Data.Encloses.innerBlock {cxx : NdnCxx} {outer inner : Data}
    (h : outer.Encloses cxx inner) :
    outer.innerBlock = some (cxx.dataWire inner) := by
  rw [Data.innerBlock, h.content]
  exact blockFromValue_wire h.fits

namespace Published

variable {cxx : NdnCxx} (p : Published cxx)

/-- What is read in one of the packets is one of the inner packets. -/
theorem inner_mem {outer inner : Data} (houter : outer ∈ p.outers)
    (h : outer.innerBlock.bind cxx.decodeData = some inner) : inner ∈ p.inners := by
  obtain ⟨i, hi⟩ := List.mem_iff_getElem?.mp houter
  have hlength := p.encloses.length_eq
  have hlt : i < p.inners.length := hlength ▸ (List.getElem?_eq_some_iff.mp hi).1
  have hencloses : outer.Encloses cxx p.inners[i] := by
    have hget := List.forall₂_iff_get.mp p.encloses
    obtain ⟨hlt', rfl⟩ := List.getElem?_eq_some_iff.mp hi
    exact hget.2 i hlt' hlt
  rw [hencloses.innerBlock, Option.bind_some, hencloses.decodes] at h
  rw [← Option.some.inj h]
  exact List.getElem_mem hlt

/-- The inner packets are found in the contents one after the other. -/
theorem parse_contents : (⟨tlv.data, p.outers.flatMap Data.content⟩ : Block).parse =
    some (p.inners.map cxx.dataWire) := by
  have hcontents : ∀ {outers inners : List Data}, List.Forall₂ (Data.Encloses cxx) outers inners →
      outers.flatMap Data.content = wires (inners.map cxx.dataWire) := by
    intro outers inners h
    induction h with
    | nil => rfl
    | cons hencloses _ ih =>
      rw [List.flatMap_cons, ih, hencloses.content]
      rfl
  rw [hcontents p.encloses]
  refine Block.parse_ofElements fun b hb => ?_
  obtain ⟨inner, hinner, rfl⟩ := List.mem_map.mp hb
  obtain ⟨i, hi, rfl⟩ := List.mem_iff_getElem.mp hinner
  have hlength := p.encloses.length_eq
  exact ((List.forall₂_iff_get.mp p.encloses).2 i (hlength ▸ hi) hi).fits

/-! ### The packets of the publish calls -/

/-- A packet without a final block is no segment. -/
theorem not_assembled {inner : Data} (hdecodes : cxx.decodeData (cxx.dataWire inner) = some inner)
    (hfinal : inner.finalBlock = none) (assembly : InnerSegmentAssembly) :
    decodeInnerSegments cxx [cxx.dataWire inner] ≠ some assembly := by
  intro h
  have hlength : [cxx.dataWire inner].length < 2 ^ 64 := by
    rw [List.length_singleton]
    decide
  obtain ⟨packets, _, _, hsegments, -⟩ := (decodeInnerSegments_eq_some hlength).mp h
  have hpackets : packets = [inner] := by
    have heq := hsegments.decodes
    rw [List.map_singleton, hdecodes] at heq
    exact (List.map_injective_iff.mpr (Option.some_injective Data) heq.symm)
  obtain ⟨_, -, hsegment⟩ := hsegments.segment inner (hpackets ▸ List.mem_singleton_self inner)
  obtain ⟨_, hsome, -⟩ := hsegment.finalBlock
  rw [hfinal] at hsome
  cases hsome

/-- A publication in one packet. -/
def ofPacket (name : Name) (value : Bytes) (inner outer : Data)
    (hencloses : outer.Encloses cxx inner) (hname : inner.name = name)
    (hcontent : inner.content = value) (hfinal : inner.finalBlock = none) : Published cxx where
  name := name
  value := value
  inners := [inner]
  outers := [outer]
  encloses := .cons hencloses .nil
  whole := fun _ h _ => List.mem_singleton.mp h ▸ ⟨hname, hcontent⟩
  assembled := fun assembly h => absurd h (not_assembled hencloses.decodes hfinal assembly)

variable {cfg : PubSubConfig} {env : CoreInputs} {publication : AsyncPublication}

theorem encapsulate_content {name : Name} {inner outer : Data} {period : Int}
    {finalBlock : Option Component}
    (h : encapsulate cfg env name inner period finalBlock = .ok outer)
    (hsigned : inner.signatureValue.isSome) :
    outer.content = (cfg.core.cxx.dataWire inner).wire := by
  obtain ⟨wire, hwire, h⟩ := bind_eq_ok.mp h
  obtain ⟨fresh, hfresh, h⟩ := bind_eq_ok.mp h
  obtain rfl := setFreshnessPeriod_eq hfresh
  obtain ⟨signature, rfl⟩ := signData_eq h
  rw [Data.wireEncode, if_pos hsigned] at hwire
  rw [Except.ok.inj hwire]

/-- A packet around another that is no larger than a packet may be. -/
theorem encloses_of_content {inner outer : Data} (hencodable : inner.Encodable)
    (hcontent : outer.content = (cxx.dataWire inner).wire)
    (hsize : (cxx.dataWire outer).size ≤ maxNdnPacketSize) : outer.Encloses cxx inner := by
  have hlt : maxNdnPacketSize < 2 ^ 64 := by decide
  have hfits : (cxx.dataWire inner).value.length < 2 ^ 64 :=
    calc (cxx.dataWire inner).value.length
        ≤ outer.content.length := hcontent ▸ (cxx.dataWire inner).length_le_wire
      _ ≤ (cxx.dataWire outer).value.length := cxx.content_length_le outer
      _ ≤ (cxx.dataWire outer).size := (cxx.dataWire outer).length_le_wire
      _ < 2 ^ 64 := hsize.trans_lt hlt
  exact ⟨hcontent, hfits, cxx.decodeData_dataWire inner hencodable hfits⟩

theorem encloses_of_cut {value : Bytes} {finalSegment offset segmentNo : Nat}
    {inners outers : List Data} (hperiod : publication.freshnessPeriod < 2 ^ 63)
    (h : Cut cfg publication value finalSegment offset segmentNo inners outers) :
    List.Forall₂ (Data.Encloses cfg.core.cxx) outers inners := by
  induction h with
  | done => exact .nil
  | segment offset segmentNo size inner outer inners outers pos le isInner isOuter fits rest ih =>
    refine .cons (encloses_of_content ⟨?_, ?_, isInner.signed⟩ isOuter.content fits) ih
    · rw [isInner.contentType]
      decide
    · rw [isInner.freshnessPeriod]
      omega

/-- The packets of a publication of bytes, in one packet or in segments. -/
theorem exists_ofBytes {value : Span} {prepared : PreparedPublication}
    (hperiod : publication.freshnessPeriod < 2 ^ 63)
    (h : prepareReservedBytes cfg env publication value.val = .ok prepared) :
    ∃ p : Published cfg.core.cxx, p.name = publication.name ∧ p.value = value.val ∧
      p.outers = prepared.outerPackets := by
  obtain ⟨fresh, hfresh, h⟩ := bind_eq_ok.mp h
  obtain ⟨data, hdata, h⟩ := bind_eq_ok.mp h
  obtain rfl := setFreshnessPeriod_eq hfresh
  obtain ⟨signature, rfl⟩ := signData_eq hdata
  obtain ⟨innerWire, -, h⟩ := bind_eq_ok.mp h
  obtain ⟨outer, houter, h⟩ := bind_eq_ok.mp h
  obtain ⟨wire, hwire, h⟩ := bind_eq_ok.mp h
  split at h
  · rename_i hallowed
    obtain rfl := Except.ok.inj h
    have hsize : (cfg.core.cxx.dataWire outer).size ≤ maxNdnPacketSize := by
      unfold Data.wireEncode at hwire
      split at hwire
      · obtain rfl := Except.ok.inj hwire
        exact of_decide_eq_true hallowed
      · cases hwire
    have hencloses := encloses_of_content ⟨Nat.two_pow_pos 64, by dsimp only; omega, rfl⟩
      (encapsulate_content houter rfl) hsize
    exact ⟨ofPacket publication.name value.val _ outer hencloses rfl rfl rfl, rfl, rfl, rfl⟩
  · obtain ⟨packets, hpackets, h⟩ := bind_eq_ok.mp h
    obtain rfl := Except.ok.inj h
    obtain ⟨hne, inners, hcut⟩ := prepareSegmentedPackets_cut hpackets
    have hsize := value.property
    have hle := hcut.length_le
    have hpos : 0 < packets.length := by
      refine List.length_pos_iff.mpr fun hnil => ?_
      subst hnil
      cases hcut with
      | done _ _ all => exact hne (List.length_eq_zero_iff.mp (Nat.le_zero.mp all))
    obtain ⟨hassembles, hnumbers⟩ := hcut.assembles (by omega) (by omega) hperiod
    have hpayload := hcut.payload
    rw [List.drop_zero] at hpayload
    refine ⟨⟨publication.name, value.val, inners, packets, encloses_of_cut hperiod hcut,
      fun inner hinner hnone => ?_, fun assembly hassembly => ?_⟩, rfl, rfl, rfl⟩
    · rw [(hassembles inner hinner).finalBlock] at hnone
      cases hnone
    · rw [decodeInnerSegments_eq (by omega) hassembles hnumbers (by omega) (.refl _),
        hpayload] at hassembly
      exact (Option.some.inj hassembly).symm

/-- A packet of the application, which is no segment. -/
theorem exists_ofPacket {packet : Data} {prepared : PreparedPublication}
    (hencodable : packet.Encodable) (hfits : (cfg.core.cxx.dataWire packet).Fits)
    (hfinal : packet.finalBlock = none)
    (h : prepareReservedPacket cfg env publication packet = .ok prepared) :
    ∃ p : Published cfg.core.cxx, p.name = packet.name ∧ p.value = packet.content ∧
      p.outers = prepared.outerPackets := by
  obtain ⟨outer, houter, h⟩ := bind_eq_ok.mp h
  obtain rfl := Except.ok.inj h
  have hencloses : outer.Encloses cfg.core.cxx packet :=
    ⟨encapsulate_content houter hencodable.signed, hfits,
      cfg.core.cxx.decodeData_dataWire packet hencodable hfits⟩
  exact ⟨ofPacket packet.name packet.content packet outer hencloses rfl rfl hfinal, rfl, rfl, rfl⟩

end Published

end NdnSvs
