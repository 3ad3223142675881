import NdnSvs.VersionVector

/-! The envelope of Sync Interests: the state vector and its extension blocks inside signed Data, or
directly in the parameters in the legacy version.  The main result is that an Interest that the
encoder returns decodes to the vector and the extensions it was made from. -/

namespace NdnSvs

open Lib Lib.Tlv

inductive SvsProtocolVersion
  | v2
  | v3
deriving DecidableEq, Repr

def SvsProtocolVersion.number : SvsProtocolVersion → Nat
  | .v2 => 2
  | .v3 => 3

structure DecodedSyncEnvelope where
  stateVector : VersionVector := {}
  stateVectorDecoded : Bool := false
  extensions : List Block := []
  stateVectorData : Option Data := none
deriving DecidableEq

/-- A signer: the signature value of a packet, none when it throws. -/
abbrev DataSigner := Data → Option Bytes

namespace SyncProtocolCodec

def maxExtensionBlocks : Nat := 16

def makeSyncName (groupPrefix : Name) (version : SvsProtocolVersion) : Name :=
  groupPrefix.appendVersion version.number

/-- An extension of which an envelope has at most one. -/
def isKnownExtension (b : Block) : Bool := b.type = tlv.mappingData || b.type = tlv.repairData

/-- A block of the envelope itself. -/
def isCoreEnvelope (b : Block) : Bool := b.type = tlv.stateVector || b.type = tlv.data

def insertKnownExtension (known : List BlockType) (b : Block) : List BlockType :=
  if isKnownExtension b then b.type :: known else known

def checkExtension (known : List BlockType) (b : Block) : Result (List BlockType) := do
  require (¬(isKnownExtension b ∧ b.type ∈ known)) (.runtime "duplicate known SVS extension")
  require (¬isCoreEnvelope b) (.runtime "extension collides with SVS core envelope")
  .ok (insertKnownExtension known b)

/-- The Data that holds the state vector and the extensions. -/
def makeStateData (groupPrefix : Name) (stateVector : VersionVector) (extensions : List Block) :
    Data where
  name := makeSyncName groupPrefix .v3
  content := wires (stateVector.encode :: extensions)

section Codec

variable (cxx : NdnCxx)

def encodeParameters (groupPrefix : Name) (stateVector : VersionVector) (extensions : List Block)
    (signData : Option DataSigner) : SvsProtocolVersion → Result Block
  | .v3 => do
    let stateData := makeStateData groupPrefix stateVector extensions
    match signData with
    | none => .error (.invalidArgument "SVS V3 requires a Data signer")
    | some sign =>
      match sign stateData with
      | none => .error (.runtime "signer failed")
      | some signature =>
        .ok (Block.ofElements tlv.applicationParameters
          [cxx.dataWire { stateData with signatureValue := some signature }])
  | .v2 => .ok (Block.ofElements tlv.applicationParameters (stateVector.encodeV2 :: extensions))

def encode (groupPrefix : Name) (stateVector : VersionVector) (extensions : List Block)
    (version : SvsProtocolVersion) (syncInterestLifetime : Nat) (signData : Option DataSigner) :
    Result Interest := do
  let syncName := makeSyncName groupPrefix version
  require (extensions.length ≤ maxExtensionBlocks) (.runtime "too many SVS extension blocks")
  let _ ← extensions.foldlM checkExtension []
  let parameters ← encodeParameters cxx groupPrefix stateVector extensions signData version
  let interest : Interest := { name := syncName }
  .ok { interest.setApplicationParameters cxx parameters with
    interestLifetime := syncInterestLifetime }

/-- One step of the loop over the extensions: those found so far and the known types among them. -/
def decodeExtension (found : List Block × List BlockType) (b : Block) :
    Result (List Block × List BlockType) := do
  require (found.1.length < maxExtensionBlocks) (.runtime "too many SVS extension blocks")
  require (¬isCoreEnvelope b) (.runtime "duplicate SVS core envelope")
  require (¬(isKnownExtension b ∧ b.type ∈ found.2)) (.runtime "duplicate known SVS extension")
  .ok (found.1 ++ [b], insertKnownExtension found.2 b)

def decodeExtensions (blocks : List Block) : Result (List Block) := do
  let found ← blocks.foldlM decodeExtension ([], [])
  .ok found.1

def decodeStateVector (now : Nat) (envelope : DecodedSyncEnvelope) :
    SvsProtocolVersion → Result VersionVector
  | .v2 => do
    require envelope.stateVectorDecoded (.runtime "SVS V2 StateVector was not decoded")
    .ok envelope.stateVector
  | .v3 =>
    match envelope.stateVectorData with
    | none => .error (.runtime "missing SVS V3 State Vector Data")
    | some stateData => do
      match ← orMalformed (Block.mk tlv.content stateData.content).parse with
      | [] => .error (.runtime "empty SVS V3 State Vector Data content")
      | stateBlock :: _ =>
        require (stateBlock.type = tlv.stateVector)
          (.unexpectedType "SVS V3 StateVector Content" stateBlock.type)
        VersionVector.decode now stateBlock

/-- The envelope in the Data of the current version, without its state vector. -/
def decodeStateData (expectedPrefix : Name) (first : Block) : Result DecodedSyncEnvelope := do
  require (first.type = tlv.data) (.unexpectedType "SVS V3 State Vector Data" first.type)
  let stateData ← orMalformed (cxx.decodeData first)
  require (stateData.name = expectedPrefix ∧ stateData.signatureValue.isSome)
    (.tlv "invalid SVS V3 State Vector Data")
  match ← orMalformed (Block.mk tlv.content stateData.content).parse with
  | [] => .error (.tlv "SVS V3 StateVector Content")
  | stateBlock :: blocks =>
    require (stateBlock.type = tlv.stateVector) (.tlv "SVS V3 StateVector Content")
    let extensions ← decodeExtensions blocks
    .ok { extensions, stateVectorData := some stateData }

def decodeElements (now : Nat) (expectedPrefix : Name) (first : Block) (more : List Block)
    (decodeSemanticState : Bool) : SvsProtocolVersion → Result DecodedSyncEnvelope
  | .v3 => do
    let decoded ← decodeStateData cxx expectedPrefix first
    let decoded ←
      if decodeSemanticState then do
        let stateVector ← decodeStateVector now decoded .v3
        .ok { decoded with stateVector, stateVectorDecoded := true }
      else .ok decoded
    require (more = []) (.runtime "SVS V3 extensions must be inside signed State Vector Data")
    .ok decoded
  | .v2 => do
    require (first.type = tlv.stateVector) (.unexpectedType "SVS V2 StateVector" first.type)
    let stateVector ← VersionVector.decodeV2 first
    let extensions ← decodeExtensions more
    .ok { stateVector, stateVectorDecoded := true, extensions }

def decode (now : Nat) (interest : Interest) (groupPrefix : Name) (version : SvsProtocolVersion)
    (decodeSemanticState : Bool) : Result DecodedSyncEnvelope := do
  let expectedPrefix := makeSyncName groupPrefix version
  require (interest.name.length = expectedPrefix.length + 1 ∧
      interest.name.take expectedPrefix.length = expectedPrefix ∧
      interest.name.getLast?.any Component.isParametersSha256Digest ∧
      interest.isParametersDigestValid cxx)
    (.tlv "SVS Sync Interest name or parameters digest")
  match interest.applicationParameters with
  | none => .error (.tlv "missing SVS ApplicationParameters")
  | some params =>
    match ← orMalformed params.parse with
    | [] => .error (.tlv "empty SVS ApplicationParameters")
    | first :: more => decodeElements cxx now expectedPrefix first more decodeSemanticState version

end Codec

/-! ### What the decoder reads -/

section Decoder

variable {cxx : NdnCxx} {now : Nat} {interest : Interest} {groupPrefix : Name}
  {decoded : DecodedSyncEnvelope}

/-- What the decoder asks of an Interest of the current version around the one block in it. -/
structure Encloses (cxx : NdnCxx) (groupPrefix : Name) (interest : Interest) (first : Block) :
    Prop where
  name : interest.name.length = (makeSyncName groupPrefix .v3).length + 1 ∧
    interest.name.take (makeSyncName groupPrefix .v3).length = makeSyncName groupPrefix .v3 ∧
    interest.name.getLast?.any Component.isParametersSha256Digest ∧
    interest.isParametersDigestValid cxx
  parameters : ∃ params, interest.applicationParameters = some params ∧ params.parse = some [first]

/-- The decoder reads the one block of an Interest, and then the vector if it is asked to. -/
theorem decode_v3_iff {decodeSemanticState : Bool} :
    decode cxx now interest groupPrefix .v3 decodeSemanticState = .ok decoded ↔
      ∃ first, Encloses cxx groupPrefix interest first ∧
        decodeElements cxx now (makeSyncName groupPrefix .v3) first [] decodeSemanticState .v3 =
          .ok decoded := by
  constructor
  · intro h
    obtain ⟨hname, h⟩ := require_bind_eq_ok.mp h
    split at h
    · cases h
    · rename_i params hparams
      obtain ⟨elements, hparse, h⟩ := bind_eq_ok.mp h
      split at h
      · cases h
      · rename_i first more
        obtain rfl : more = [] := by
          obtain ⟨judged, -, h⟩ := bind_eq_ok.mp h
          cases decodeSemanticState with
          | false => exact (require_bind_eq_ok.mp h).1
          | true =>
            obtain ⟨vv, -, h⟩ := bind_eq_ok.mp h
            exact (require_bind_eq_ok.mp h).1
        exact ⟨first, ⟨hname, params, hparams, orMalformed_eq_ok.mp hparse⟩, h⟩
  · rintro ⟨first, ⟨hname, params, hparams, hparse⟩, h⟩
    rw [decode, require_of _ hname, ok_bind, hparams]
    simp only
    rw [hparse, orMalformed_some, ok_bind]
    exact h

theorem decode_unjudged : decode cxx now interest groupPrefix .v3 false = .ok decoded ↔
    ∃ first, Encloses cxx groupPrefix interest first ∧
      decodeStateData cxx (makeSyncName groupPrefix .v3) first = .ok decoded := by
  rw [decode_v3_iff]
  refine exists_congr fun first => and_congr_right fun _ => ?_
  cases hjudged : decodeStateData cxx (makeSyncName groupPrefix .v3) first <;>
    simp [decodeElements, hjudged]

/-- Decoding at once is decoding without the state vector and then the state vector. -/
theorem decode_two_steps (now' : Nat) :
    decode cxx now interest groupPrefix .v3 true = .ok decoded ↔
      ∃ envelope vv, decode cxx now' interest groupPrefix .v3 false = .ok envelope ∧
        decodeStateVector now envelope .v3 = .ok vv ∧
          decoded = { envelope with stateVector := vv, stateVectorDecoded := true } := by
  simp only [decode_unjudged]
  rw [decode_v3_iff]
  constructor
  · rintro ⟨first, hencloses, h⟩
    obtain ⟨judged, hjudged, h⟩ := bind_eq_ok.mp h
    obtain ⟨vv, hvv, h⟩ := bind_eq_ok.mp h
    rw [ok_bind] at h
    obtain ⟨-, h⟩ := require_bind_eq_ok.mp h
    exact ⟨judged, vv, ⟨first, hencloses, hjudged⟩, hvv, (Except.ok.inj h).symm⟩
  · rintro ⟨judged, vv, ⟨first, hencloses, hjudged⟩, hvv, rfl⟩
    exact ⟨first, hencloses, by simp [decodeElements, hjudged, hvv]⟩

theorem decodeStateVector_v3_ok {envelope : DecodedSyncEnvelope} {vv : VersionVector}
    (h : decodeStateVector now envelope .v3 = .ok vv) :
    ∃ data stateBlock blocks, envelope.stateVectorData = some data ∧
      (Block.mk tlv.content data.content).parse = some (stateBlock :: blocks) ∧
      VersionVector.decode now stateBlock = .ok vv := by
  unfold decodeStateVector at h
  simp only at h
  split at h
  · cases h
  · rename_i data hdata
    obtain ⟨blocks, hparse, h⟩ := bind_eq_ok.mp h
    split at h
    · cases h
    · obtain ⟨-, h⟩ := require_bind_eq_ok.mp h
      exact ⟨data, _, _, hdata, orMalformed_eq_ok.mp hparse, h⟩

/-- The numbers of a decoded vector fit 64 bits. -/
theorem decode_fits {version : SvsProtocolVersion}
    (h : decode cxx now interest groupPrefix version true = .ok decoded) :
    decoded.stateVector.Fits := by
  cases version with
  | v2 =>
    obtain ⟨-, h⟩ := require_bind_eq_ok.mp h
    split at h
    · cases h
    · obtain ⟨elements, -, h⟩ := bind_eq_ok.mp h
      split at h
      · cases h
      · obtain ⟨-, h⟩ := require_bind_eq_ok.mp h
        obtain ⟨stateVector, hvector, h⟩ := bind_eq_ok.mp h
        obtain ⟨extensions, -, h⟩ := bind_eq_ok.mp h
        obtain rfl := Except.ok.inj h
        exact VersionVector.decodeV2_fits hvector
  | v3 =>
    obtain ⟨envelope, vv, -, hvector, rfl⟩ := (decode_two_steps now).mp h
    obtain ⟨data, stateBlock, blocks, -, -, hdecode⟩ := decodeStateVector_v3_ok hvector
    exact VersionVector.decode_fits hdecode

end Decoder

/-! ### What the encoder accepts, the decoder accepts -/

theorem foldlM_checkExtension {found : List Block × List BlockType} {bs : List Block}
    {known : List BlockType} (h : bs.foldlM checkExtension found.2 = .ok known)
    (hlength : found.1.length + bs.length ≤ maxExtensionBlocks) :
    bs.foldlM decodeExtension found = .ok (found.1 ++ bs, known) := by
  induction bs generalizing found with
  | nil =>
    obtain rfl := Except.ok.inj h
    simp [pure, Except.pure]
  | cons b bs ih =>
    obtain ⟨known', hb, hbs⟩ := bind_eq_ok.mp h
    obtain ⟨hnew, hb⟩ := require_bind_eq_ok.mp hb
    obtain ⟨hcore, hb⟩ := require_bind_eq_ok.mp hb
    obtain rfl := Except.ok.inj hb
    have hstep : decodeExtension found b =
        .ok (found.1 ++ [b], insertKnownExtension found.2 b) := by
      rw [decodeExtension, require_of _ (by rw [List.length_cons] at hlength; omega), ok_bind,
        require_of _ hcore, ok_bind, require_of _ hnew, ok_bind]
    rw [List.foldlM_cons, hstep, ok_bind]
    have hmore := @ih (found.1 ++ [b], insertKnownExtension found.2 b) hbs
      (by simp only [List.length_append, List.length_cons, List.length_nil] at hlength ⊢; omega)
    simpa using hmore

theorem decodeExtensions_of_check {bs : List Block} {known : List BlockType}
    (h : bs.foldlM checkExtension [] = .ok known) (hlength : bs.length ≤ maxExtensionBlocks) :
    decodeExtensions bs = .ok bs := by
  have hfold := @foldlM_checkExtension ([], []) _ _ h (by simpa using hlength)
  rw [decodeExtensions, hfold]
  rfl

/-- What an Interest of the current version is made of. -/
theorem encode_v3 {cxx : NdnCxx} {groupPrefix : Name} {vv : VersionVector} {extensions : List Block}
    {lifetime : Nat} {sign : DataSigner} {interest : Interest}
    (h : encode cxx groupPrefix vv extensions .v3 lifetime (some sign) = .ok interest) :
    extensions.length ≤ maxExtensionBlocks ∧
    (∃ known, extensions.foldlM checkExtension [] = .ok known) ∧
    ∃ signature, interest =
      { Interest.setApplicationParameters cxx { name := makeSyncName groupPrefix .v3 }
          (Block.ofElements tlv.applicationParameters
            [cxx.dataWire { makeStateData groupPrefix vv extensions with
              signatureValue := some signature }]) with interestLifetime := lifetime } := by
  obtain ⟨hlength, h⟩ := require_bind_eq_ok.mp h
  obtain ⟨known, hknown, h⟩ := bind_eq_ok.mp h
  obtain ⟨parameters, hparams, h⟩ := bind_eq_ok.mp h
  refine ⟨hlength, ⟨known, hknown⟩, ?_⟩
  simp only [encodeParameters] at hparams
  split at hparams
  · cases hparams
  · rename_i signature _
    obtain rfl := Except.ok.inj hparams
    exact ⟨signature, (Except.ok.inj h).symm⟩

theorem parameters_length_le (i : Interest) {params : Block}
    (h : i.applicationParameters = some params) : params.value.length ≤ i.size := by
  have hwire := params.length_le_wire
  have hmem : params ∈ i.applicationParameters.toList ++ i.signatureElements := by simp [h]
  have hwires := length_le_wires hmem
  rw [Interest.size]
  omega

theorem size_lt {i : Interest} (h : i.size ≤ maxNdnPacketSize) : i.size < 2 ^ 64 :=
  Nat.lt_of_le_of_lt h (by decide)

/-- The parameters of an Interest hold its signed Data alone. -/
theorem parse_parameters {cxx : NdnCxx} {syncName : Name} {params : Block} {d : Data}
    {lifetime : Nat} {interest : Interest}
    (hparams : params = Block.ofElements tlv.applicationParameters [cxx.dataWire d])
    (h : interest = { Interest.setApplicationParameters cxx { name := syncName } params with
      interestLifetime := lifetime })
    (hsize : interest.size < 2 ^ 64) :
    interest.applicationParameters = some params ∧ params.parse = some [cxx.dataWire d] ∧
      (cxx.dataWire d).value.length < 2 ^ 64 := by
  have hset : interest.applicationParameters = some params := by
    simp [h, Interest.setApplicationParameters, hparams]
  have hvalue : params.value.length < 2 ^ 64 :=
    Nat.lt_of_le_of_lt (parameters_length_le _ hset) hsize
  have hdata : (cxx.dataWire d).value.length < 2 ^ 64 := by
    rw [hparams] at hvalue
    exact Block.length_lt_of_ofElements List.mem_cons_self hvalue
  refine ⟨hset, ?_, hdata⟩
  rw [hparams]
  refine Block.parse_ofElements fun b hb => ?_
  obtain rfl := List.mem_singleton.mp hb
  exact hdata

/-- The signed Data of an Interest that the Face can send decodes to its blocks. -/
theorem decodeStateData_encode {cxx : NdnCxx} {groupPrefix : Name} {vv : VersionVector}
    {extensions : List Block} {known : List BlockType} {d : Data} {signature : Bytes}
    (hknown : extensions.foldlM checkExtension [] = .ok known)
    (hlength : extensions.length ≤ maxExtensionBlocks)
    (hd : d = { makeStateData groupPrefix vv extensions with signatureValue := some signature })
    (hsize : (cxx.dataWire d).value.length < 2 ^ 64) :
    decodeStateData cxx (makeSyncName groupPrefix .v3) (cxx.dataWire d) =
      .ok { extensions, stateVectorData := some d } := by
  have hencodable : d.Encodable := by
    subst hd
    exact ⟨by norm_num [makeStateData], by norm_num [makeStateData], rfl⟩
  have hdecode := cxx.decodeData_dataWire d hencodable hsize
  have hcontent : d.content = wires (vv.encode :: extensions) := by subst hd; rfl
  have hname : d.name = makeSyncName groupPrefix .v3 ∧ d.signatureValue.isSome := by
    subst hd
    exact ⟨rfl, rfl⟩
  have hparse : (Block.mk tlv.content d.content).parse = some (vv.encode :: extensions) := by
    rw [hcontent]
    refine @Block.parse_ofElements tlv.content _ fun b hb => ?_
    refine @Block.length_lt_of_ofElements tlv.content _ _ hb _ ?_
    have hle := cxx.content_length_le d
    rw [hcontent] at hle
    exact Nat.lt_of_le_of_lt hle hsize
  rw [decodeStateData, require_of _ (cxx.dataWire_type d), ok_bind, hdecode, orMalformed_some,
    ok_bind, require_of _ hname, ok_bind, hparse, orMalformed_some, ok_bind]
  simp only
  rw [require_of _ vv.encode_type, ok_bind, decodeExtensions_of_check hknown hlength, ok_bind]

theorem decodeStateVector_encode {now : Nat} {vv : VersionVector} {extensions : List Block}
    {d : Data} (hcontent : d.content = wires (vv.encode :: extensions))
    (hsize : d.content.length < 2 ^ 64) (hentries : vv.Acceptable (now + 86400)) :
    ∃ v, decodeStateVector now { extensions, stateVectorData := some d } .v3 = .ok v ∧
      v.Same vv := by
  rw [hcontent] at hsize
  have hfits : ∀ b ∈ vv.encode :: extensions, b.Fits :=
    fun b hb => @Block.length_lt_of_ofElements tlv.content _ _ hb _ hsize
  have hparse : (Block.mk tlv.content d.content).parse = some (vv.encode :: extensions) := by
    rw [hcontent]
    exact Block.parse_ofElements hfits
  obtain ⟨v, hv, hsame⟩ := VersionVector.decode_encode hentries (hfits _ List.mem_cons_self)
  refine ⟨v, ?_, hsame⟩
  simp only [decodeStateVector, hparse, orMalformed_some, ok_bind]
  rw [require_of _ vv.encode_type, ok_bind, hv]

theorem makeSyncName_hasParametersDigest (groupPrefix : Name) (version : SvsProtocolVersion) :
    (makeSyncName groupPrefix version).hasParametersDigest = groupPrefix.hasParametersDigest := by
  have hversion : (Component.fromVersion version.number).isParametersSha256Digest = false := by
    cases version <;> rfl
  simp [makeSyncName, Name.appendVersion, Name.hasParametersDigest, hversion]

/-- The name of an encoded Interest is the Sync name followed by the parameters digest. -/
theorem encoded_name (cxx : NdnCxx) {syncName : Name}
    (hplain : syncName.hasParametersDigest = false)
    (params : Block) (lifetime : Nat) :
    let i : Interest := { Interest.setApplicationParameters cxx { name := syncName } params with
      interestLifetime := lifetime }
    i.name.length = syncName.length + 1 ∧ i.name.take syncName.length = syncName ∧
      i.name.getLast?.any Component.isParametersSha256Digest ∧ i.isParametersDigestValid cxx := by
  have hdigest := fun i => isParametersSha256Digest_parametersDigest cxx i
  have hnone : syncName.find? Component.isParametersSha256Digest = none := by
    rw [List.find?_eq_none]
    exact fun c hc => List.any_eq_false.mp hplain c hc
  have hfind : ∀ i, (syncName ++ [Interest.parametersDigest cxx i]).find?
      Component.isParametersSha256Digest = some (Interest.parametersDigest cxx i) := fun i => by
    rw [List.find?_append, hnone, Option.none_or]
    simp [hdigest]
  simp only [Interest.setApplicationParameters, Name.setParametersDigest_of_not hplain]
  refine ⟨?_, ?_, ?_, ?_⟩
  · simp
  · simp
  · simp [hdigest]
  · simp only [Interest.isParametersDigestValid, hfind]
    simp [Interest.parametersDigest]

/-- An encoded Interest decodes to the extensions and, at a receiver that accepts the entries, to
the vector. -/
theorem decode_encode {cxx : NdnCxx} {now : Nat} {groupPrefix : Name} {vv : VersionVector}
    {extensions : List Block} {lifetime : Nat} {sign : DataSigner} {interest : Interest}
    (hplain : groupPrefix.hasParametersDigest = false)
    (h : encode cxx groupPrefix vv extensions .v3 lifetime (some sign) = .ok interest)
    (hsize : interest.size < 2 ^ 64) (hentries : vv.Acceptable (now + 86400))
    (decodeSemanticState : Bool) :
    ∃ decoded, decode cxx now interest groupPrefix .v3 decodeSemanticState = .ok decoded ∧
      decoded.stateVectorData.isSome ∧ decoded.extensions = extensions ∧
      (decodeSemanticState → decoded.stateVector.Same vv) := by
  obtain ⟨hlength, ⟨known, hknown⟩, signature, hinterest⟩ := encode_v3 h
  set d : Data := { makeStateData groupPrefix vv extensions with signatureValue := some signature }
    with hd
  set params := Block.ofElements tlv.applicationParameters [cxx.dataWire d] with hparams
  obtain ⟨hset, hparse, hdata⟩ := parse_parameters hparams hinterest hsize
  have hstate := decodeStateData_encode hknown hlength hd hdata
  obtain ⟨v, hv, hsame⟩ := @decodeStateVector_encode _ _ extensions d rfl
    (Nat.lt_of_le_of_lt (cxx.content_length_le d) hdata) hentries
  let decoded : DecodedSyncEnvelope :=
    { extensions, stateVectorData := some d
      stateVector := if decodeSemanticState then v else {}
      stateVectorDecoded := decodeSemanticState }
  have helements : decodeElements cxx now (makeSyncName groupPrefix .v3) (cxx.dataWire d) []
      decodeSemanticState .v3 = .ok decoded := by
    cases decodeSemanticState <;> simp [decodeElements, hstate, hv, decoded]
  have hname := encoded_name cxx
    ((makeSyncName_hasParametersDigest groupPrefix .v3).trans hplain) params lifetime
  rw [← hinterest] at hname
  refine ⟨decoded, ?_, rfl, rfl, fun hsemantic => ?_⟩
  · have hencloses : Encloses cxx groupPrefix interest (cxx.dataWire d) :=
      ⟨hname, params, hset, hparse⟩
    exact decode_v3_iff.mpr ⟨cxx.dataWire d, hencloses, helements⟩
  · simpa [decoded, hsemantic] using hsame

end SyncProtocolCodec

end NdnSvs
