import NdnSvs.Lib.Sha256
import NdnSvs.Packet

/-! The wire format of Data packets, as an instance of the packet library for examples. -/

namespace NdnSvs

open Lib.Tlv

namespace tlv

def metaInfo : BlockType := ⟨20, by decide⟩
def signatureInfo : BlockType := ⟨22, by decide⟩
def signatureValue : BlockType := ⟨23, by decide⟩
def contentType : BlockType := ⟨24, by decide⟩
def freshnessPeriod : BlockType := ⟨25, by decide⟩
def finalBlockId : BlockType := ⟨26, by decide⟩
def signatureType : BlockType := ⟨27, by decide⟩

end tlv

namespace Data

/-- An optional number, left out when it is 0. -/
def numberElement (type : BlockType) (n : Nat) : List Block :=
  if n = 0 then [] else [Block.ofNumber type n]

def metaInfoElements (d : Data) : List Block :=
  numberElement tlv.contentType d.contentType ++
    numberElement tlv.freshnessPeriod d.freshnessPeriod ++
    d.finalBlock.toList.map fun c => Block.ofElements tlv.finalBlockId [c.block]

def wireElements (d : Data) : List Block :=
  [d.name.block, Block.ofElements tlv.metaInfo d.metaInfoElements, ⟨tlv.content, d.content⟩,
    Block.ofElements tlv.signatureInfo [Block.ofNumber tlv.signatureType 0],
    ⟨tlv.signatureValue, d.signatureValue.getD []⟩]

def toWire (d : Data) : Block := Block.ofElements tlv.data d.wireElements

/-- The number of the element of a type, 0 when there is none. -/
def elementNumber (type : BlockType) (elements : List Block) : Option Nat :=
  match elements.find? fun b => b.type = type with
  | none => some 0
  | some b => b.number

def elementFinalBlock (elements : List Block) : Option (Option Component) :=
  match elements.find? fun b => b.type = tlv.finalBlockId with
  | none => some none
  | some b =>
    match b.parse with
    | some (c :: _) => (Component.ofBlock c).map some
    | _ => none

def wireDecode (b : Block) : Option Data :=
  if b.type ≠ tlv.data then none
  else
    match b.parse with
    | some [name, info, content, _, signature] => do
      let name ← Name.ofBlock name
      let info ← info.parse
      let contentType ← elementNumber tlv.contentType info
      let freshnessPeriod ← elementNumber tlv.freshnessPeriod info
      let finalBlock ← elementFinalBlock info
      some { name, contentType, freshnessPeriod, finalBlock, content := content.value
             signatureValue := some signature.value }
    | _ => none

theorem elementNumber_contentType {d : Data} (h : d.contentType < 2 ^ 64) :
    elementNumber tlv.contentType d.metaInfoElements = some d.contentType := by
  have hother : tlv.freshnessPeriod ≠ tlv.contentType := by decide
  have hfinal : tlv.finalBlockId ≠ tlv.contentType := by decide
  by_cases hzero : d.contentType = 0
  · have hnone : (d.metaInfoElements.find? fun b => b.type = tlv.contentType) = none := by
      rw [List.find?_eq_none]
      intro b hb
      simp only [metaInfoElements, numberElement, hzero, if_pos, List.nil_append,
        List.mem_append, List.mem_map] at hb
      rcases hb with hb | ⟨c, -, rfl⟩
      · split at hb
        · cases hb
        · obtain rfl := List.mem_singleton.mp hb
          exact fun h => hother (of_decide_eq_true h)
      · exact fun h => hfinal (of_decide_eq_true h)
    rw [elementNumber, hnone, hzero]
  · have hfirst : (d.metaInfoElements.find? fun b => b.type = tlv.contentType) =
        some (Block.ofNumber tlv.contentType d.contentType) := by
      simp [metaInfoElements, numberElement, hzero]
    rw [elementNumber, hfirst]
    exact Block.number_ofNumber h

theorem elementNumber_freshnessPeriod {d : Data} (h : d.freshnessPeriod < 2 ^ 64) :
    elementNumber tlv.freshnessPeriod d.metaInfoElements = some d.freshnessPeriod := by
  have hother : tlv.contentType ≠ tlv.freshnessPeriod := by decide
  have hfinal : tlv.finalBlockId ≠ tlv.freshnessPeriod := by decide
  have hskip : ((numberElement tlv.contentType d.contentType).find?
      fun b => b.type = tlv.freshnessPeriod) = none := by
    rw [List.find?_eq_none]
    intro b hb
    simp only [numberElement] at hb
    split at hb
    · cases hb
    · obtain rfl := List.mem_singleton.mp hb
      exact fun h => hother (of_decide_eq_true h)
  rw [elementNumber, metaInfoElements, List.append_assoc, List.find?_append, hskip, Option.none_or]
  by_cases hzero : d.freshnessPeriod = 0
  · have hnone : ((d.finalBlock.toList.map fun c =>
      Block.ofElements tlv.finalBlockId [c.block]).find?
        fun b => b.type = tlv.freshnessPeriod) = none := by
      rw [List.find?_eq_none]
      intro b hb
      obtain ⟨c, -, rfl⟩ := List.mem_map.mp hb
      exact fun h => hfinal (of_decide_eq_true h)
    simp [numberElement, hzero, hnone]
  · simp only [numberElement, if_neg hzero, List.cons_append, List.nil_append, List.find?_cons,
      Block.ofNumber_type, decide_true]
    exact Block.number_ofNumber h

theorem elementFinalBlock_metaInfo {d : Data}
    (h : ∀ b ∈ d.metaInfoElements, b.Fits) :
    elementFinalBlock d.metaInfoElements = some d.finalBlock := by
  have hfirst : tlv.contentType ≠ tlv.finalBlockId := by decide
  have hsecond : tlv.freshnessPeriod ≠ tlv.finalBlockId := by decide
  have hskip : ((numberElement tlv.contentType d.contentType ++
      numberElement tlv.freshnessPeriod d.freshnessPeriod).find?
      fun b => b.type = tlv.finalBlockId) = none := by
    rw [List.find?_eq_none]
    intro b hb
    simp only [numberElement, List.mem_append] at hb
    rcases hb with hb | hb <;> split at hb
    · cases hb
    · obtain rfl := List.mem_singleton.mp hb
      exact fun h => hfirst (of_decide_eq_true h)
    · cases hb
    · obtain rfl := List.mem_singleton.mp hb
      exact fun h => hsecond (of_decide_eq_true h)
  rw [elementFinalBlock, metaInfoElements, List.find?_append, hskip, Option.none_or]
  cases hblock : d.finalBlock with
  | none => rfl
  | some c =>
    have hfits : (Block.ofElements tlv.finalBlockId [c.block]).Fits :=
      h _ (by simp [metaInfoElements, hblock])
    have hparse : (Block.ofElements tlv.finalBlockId [c.block]).parse = some [c.block] :=
      Block.parse_ofElements fun b hb => Block.length_lt_of_ofElements hb hfits
    simp [hparse]

theorem wireDecode_toWire {d : Data} (hd : d.Encodable)
    (hsize : d.toWire.value.length < 2 ^ 64) : wireDecode d.toWire = some d := by
  have hfits : ∀ b ∈ d.wireElements, b.Fits := fun b hb => Block.length_lt_of_ofElements hb hsize
  have hname := Name.ofBlock_block (hfits d.name.block (by simp [wireElements]))
  have hinfo : ∀ b ∈ d.metaInfoElements, b.Fits := fun b hb =>
    @Block.length_lt_of_ofElements tlv.metaInfo _ _ hb _
      (hfits _ (by simp [wireElements]))
  have hinfoParse := @Block.parse_ofElements tlv.metaInfo _ hinfo
  have hparse : d.toWire.parse = some d.wireElements := Block.parse_ofElements hfits
  obtain ⟨signature, hsignature⟩ := Option.isSome_iff_exists.mp hd.signed
  have htype : d.toWire.type = tlv.data := rfl
  rw [wireDecode, if_neg (not_not.mpr htype), hparse]
  simp only [wireElements, hname, hinfoParse, Option.bind_eq_bind, Option.bind_some,
    elementNumber_contentType hd.contentType, elementNumber_freshnessPeriod hd.freshnessPeriod,
    elementFinalBlock_metaInfo hinfo, hsignature, Option.getD_some]
  cases d
  simp_all

end Data

/-- Data packets in their wire format, hashed with SHA-256. -/
def packetFormat : NdnCxx where
  sha256 := Lib.Sha256.sha256
  dataWire := Data.toWire
  decodeData := Data.wireDecode
  sha256_length := Lib.Sha256.sha256_length
  dataWire_type _ := rfl
  decodeData_dataWire _ := Data.wireDecode_toWire
  content_length_le d := by
    have hmem : (⟨tlv.content, d.content⟩ : Block) ∈ d.wireElements := by simp [Data.wireElements]
    exact (Block.length_le_wire ⟨tlv.content, d.content⟩).trans (length_le_wires hmem)

end NdnSvs
