import NdnSvs.PacketFormat
import NdnSvs.SyncProtocol

/-! The round trip of the current envelope: which lists of extension blocks the encoder accepts, and
that the decoder returns the vector and the list. -/

namespace NdnSvs

open Lib Lib.Tlv

namespace SyncProtocolCodec

/-- The blocks that may stand beside the state vector. -/
structure Allowed (extensions : List Block) : Prop where
  length : extensions.length ≤ maxExtensionBlocks
  noCore : ∀ b ∈ extensions, b.type ≠ tlv.stateVector ∧ b.type ≠ tlv.data
  mappingData : extensions.countP (·.type = tlv.mappingData) ≤ 1
  repairData : extensions.countP (·.type = tlv.repairData) ≤ 1

instance (extensions : List Block) : Decidable (Allowed extensions) :=
  decidable_of_iff (extensions.length ≤ maxExtensionBlocks ∧
      (∀ b ∈ extensions, b.type ≠ tlv.stateVector ∧ b.type ≠ tlv.data) ∧
      extensions.countP (·.type = tlv.mappingData) ≤ 1 ∧
      extensions.countP (·.type = tlv.repairData) ≤ 1)
    ⟨fun ⟨h₁, h₂, h₃, h₄⟩ => ⟨h₁, h₂, h₃, h₄⟩, fun ⟨h₁, h₂, h₃, h₄⟩ => ⟨h₁, h₂, h₃, h₄⟩⟩

theorem isKnownExtension_iff (b : Block) :
    isKnownExtension b ↔ b.type = tlv.mappingData ∨ b.type = tlv.repairData := by
  simp [isKnownExtension]

theorem isCoreEnvelope_iff (b : Block) :
    isCoreEnvelope b ↔ b.type = tlv.stateVector ∨ b.type = tlv.data := by
  simp [isCoreEnvelope]

/-- How often a known type has been met. -/
def seen (known : List BlockType) (type : BlockType) : Nat := if type ∈ known then 1 else 0

theorem seen_insert {known : List BlockType} {b : Block} {type : BlockType}
    (htype : type = tlv.mappingData ∨ type = tlv.repairData)
    (hnew : ¬(isKnownExtension b ∧ b.type ∈ known)) :
    seen (insertKnownExtension known b) type =
      seen known type + if b.type = type then 1 else 0 := by
  unfold seen insertKnownExtension
  by_cases hknown : isKnownExtension b
  · have hfresh : b.type ∉ known := fun h => hnew ⟨hknown, h⟩
    rw [if_pos hknown]
    by_cases heq : b.type = type
    · subst heq
      simp [hfresh]
    · have hne : ¬type = b.type := fun h => heq h.symm
      simp [heq, hne]
  · have hne : b.type ≠ type := fun h => hknown ((isKnownExtension_iff b).mpr (h ▸ htype))
    simp [hknown, hne]

/-- The loop of the encoder passes when there is no core block and no second block of a known
type. -/
theorem foldlM_checkExtension_ok {bs : List Block} {known : List BlockType} :
    (∃ known', bs.foldlM checkExtension known = .ok known') ↔
      (∀ b ∈ bs, ¬isCoreEnvelope b) ∧ ∀ type, type = tlv.mappingData ∨ type = tlv.repairData →
        (bs.countP (·.type = type) = 0 ∨ bs.countP (·.type = type) + seen known type ≤ 1) := by
  induction bs generalizing known with
  | nil => simp [pure, Except.pure]
  | cons b bs ih =>
    rw [List.foldlM_cons, checkExtension]
    by_cases hnew : isKnownExtension b ∧ b.type ∈ known
    · have hfails : require (¬(isKnownExtension b ∧ b.type ∈ known))
          (.runtime "duplicate known SVS extension") =
          .error (.runtime "duplicate known SVS extension") := if_neg (not_not.mpr hnew)
      rw [hfails]
      refine ⟨fun ⟨known', h⟩ => (by cases h), fun h => ?_⟩
      have htype := h.2 b.type ((isKnownExtension_iff b).mp hnew.1)
      have hseen : seen known b.type = 1 := if_pos hnew.2
      simp [hseen] at htype
    · rw [require_of _ hnew, ok_bind]
      by_cases hcore : isCoreEnvelope b
      · have hfails : require (¬isCoreEnvelope b)
            (.runtime "extension collides with SVS core envelope") =
            .error (.runtime "extension collides with SVS core envelope") :=
          if_neg (not_not.mpr hcore)
        rw [hfails]
        refine ⟨fun ⟨known', h⟩ => (by cases h), fun h => ?_⟩
        exact absurd hcore (h.1 b List.mem_cons_self)
      · rw [require_of _ hcore, ok_bind, ok_bind, ih]
        simp only [List.forall_mem_cons, hcore, Bool.false_eq_true, not_false_eq_true, true_and,
          List.countP_cons, decide_eq_true_eq]
        refine and_congr_right fun _ => forall₂_congr fun type htype => ?_
        rw [seen_insert htype hnew]
        have hle : seen known type ≤ 1 := by
          unfold seen
          split <;> omega
        have hfresh : b.type = type → seen known type = 0 := fun heq =>
          if_neg fun hmem => hnew ⟨(isKnownExtension_iff b).mpr (heq ▸ htype), heq ▸ hmem⟩
        split
        · rename_i heq
          have := hfresh heq
          omega
        · omega

theorem checkExtensions_iff (bs : List Block) :
    (∃ known, bs.foldlM checkExtension [] = .ok known) ↔
      (∀ b ∈ bs, b.type ≠ tlv.stateVector ∧ b.type ≠ tlv.data) ∧
      bs.countP (·.type = tlv.mappingData) ≤ 1 ∧ bs.countP (·.type = tlv.repairData) ≤ 1 := by
  have hnone : ∀ type, seen [] type = 0 := fun type => rfl
  simp only [foldlM_checkExtension_ok, isCoreEnvelope_iff, not_or, hnone, Nat.add_zero,
    forall_eq_or_imp, forall_eq]
  refine and_congr_right fun _ => and_congr ?_ ?_ <;> omega

section RoundTrip

variable {cxx : NdnCxx} {groupPrefix : Name} {vv : VersionVector} {extensions : List Block}
  {lifetime : Nat} {sign : Data → Bytes}

/-- With a signer that returns a signature, the encoder fails on the extension blocks alone. -/
theorem encode_ok_iff :
    (∃ interest, encode cxx groupPrefix vv extensions .v3 lifetime (some fun d => some (sign d)) =
      .ok interest) ↔ Allowed extensions := by
  constructor
  · rintro ⟨interest, h⟩
    obtain ⟨hlength, hknown, -⟩ := encode_v3 h
    obtain ⟨hcore, hmapping, hrepair⟩ := (checkExtensions_iff extensions).mp hknown
    exact ⟨hlength, hcore, hmapping, hrepair⟩
  · intro h
    obtain ⟨known, hknown⟩ := (checkExtensions_iff extensions).mpr
      ⟨h.noCore, h.mappingData, h.repairData⟩
    rw [encode, require_of _ h.length, ok_bind, hknown, ok_bind]
    exact ⟨_, rfl⟩

/-- The encoder accepts exactly the allowed lists, and the decoder returns the entries and the
blocks of what was encoded. -/
theorem envelope_round_trip {now : Nat} (hplain : groupPrefix.hasParametersDigest = false)
    (hentries : vv.Acceptable (now + 86400)) :
    ((∃ interest, encode cxx groupPrefix vv extensions .v3 lifetime
        (some fun d => some (sign d)) = .ok interest) ↔ Allowed extensions) ∧
    ∀ interest, encode cxx groupPrefix vv extensions .v3 lifetime
        (some fun d => some (sign d)) = .ok interest → interest.size < 2 ^ 64 →
      ∃ decoded, decode cxx now interest groupPrefix .v3 true = .ok decoded ∧
        decoded.stateVector.Same vv ∧ decoded.extensions = extensions := by
  refine ⟨encode_ok_iff, fun interest hencode hsize => ?_⟩
  obtain ⟨decoded, hdecode, -, hextensions, hsame⟩ :=
    decode_encode hplain hencode hsize hentries true
  exact ⟨decoded, hdecode, hsame rfl, hextensions⟩

end RoundTrip

/-- The greatest number of blocks, among them one of each known type. -/
def fullList : List Block :=
  Block.ofNumber tlv.mappingData 1 :: Block.ofNumber tlv.repairData 2 ::
    List.replicate 14 (Block.ofNumber tlv.seqNo 3)

theorem envelope_round_trip_full :
    let vv := ({} : VersionVector).put (Name.ofStrings ["a"]) 100 3
    let sign : Data → Bytes := fun _ => [1]
    ((∃ interest, encode packetFormat (Name.ofStrings ["g"]) vv fullList .v3 1000
        (some fun d => some (sign d)) = .ok interest) ↔ Allowed fullList) ∧
    ∀ interest, encode packetFormat (Name.ofStrings ["g"]) vv fullList .v3 1000
        (some fun d => some (sign d)) = .ok interest → interest.size < 2 ^ 64 →
      ∃ decoded, decode packetFormat 1000 interest (Name.ofStrings ["g"]) .v3 true = .ok decoded ∧
        decoded.stateVector.Same vv ∧ decoded.extensions = fullList :=
  envelope_round_trip (by decide) (VersionVector.acceptable_iff.mpr fun nid b s h => by
    rw [VersionVector.entryAt_put] at h
    split at h
    · rename_i hkey
      obtain ⟨rfl, rfl⟩ := hkey
      obtain rfl := Option.some.inj h
      exact ⟨by decide, by decide, by decide, by decide⟩
    · simp at h)

/-- A group prefix with a parameters digest: encoding replaces it, so that the name of the Interest
does not begin with the Sync name. -/
theorem digest_prefix_not_decoded :
    let groupPrefix := [Component.parametersSha256Digest (List.replicate 32 0)]
    ∃ interest, encode packetFormat groupPrefix {} [] .v3 1000 (some fun _ => some [1]) =
        .ok interest ∧
      ∀ decoded, decode packetFormat 1000 interest groupPrefix .v3 true ≠ .ok decoded := by
  intro groupPrefix
  let encoded := encode packetFormat groupPrefix {} [] .v3 1000 (some fun _ => some [1])
  have hencoded : encoded.toOption.isSome := by decide +kernel
  cases h : encoded with
  | error e =>
    rw [h] at hencoded
    cases hencoded
  | ok interest =>
    refine ⟨interest, h, fun decoded hdecode => ?_⟩
    have hfails : (encoded.toOption.bind fun interest =>
        (decode packetFormat 1000 interest groupPrefix .v3 true).toOption) = none := by
      decide +kernel
    rw [h] at hfails
    simp [Except.toOption, hdecode] at hfails

end SyncProtocolCodec

end NdnSvs
