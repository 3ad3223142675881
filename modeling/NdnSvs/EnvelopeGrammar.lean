import NdnSvs.EnvelopeRoundTrip
import NdnSvs.Provenance

/-! The grammar of Sync Interests of the current version.  The decoder accepts an Interest exactly
when it is derived by the grammar, and returns what the derivation consists of. -/

namespace NdnSvs

open Lib Lib.Tlv

/-- A loop over blocks each of which is read as an item: it succeeds when every block has an item,
and applies the items in order. -/
theorem foldlM_eq_ok {α β γ : Type} {f : α → β → Result α} {g : α → γ → α} {R : β → γ → Prop}
    (h : ∀ a b a', f a b = .ok a' ↔ ∃ item, R b item ∧ a' = g a item) {bs : List β} {a a' : α} :
    bs.foldlM f a = .ok a' ↔ ∃ items, List.Forall₂ R bs items ∧ a' = items.foldl g a := by
  induction bs generalizing a with
  | nil =>
    constructor
    · intro hfold
      exact ⟨[], .nil, (Except.ok.inj hfold).symm⟩
    · rintro ⟨items, hitems, rfl⟩
      cases hitems
      rfl
  | cons b bs ih =>
    rw [List.foldlM_cons, bind_eq_ok]
    constructor
    · rintro ⟨a₁, hb, hbs⟩
      obtain ⟨item, hitem, rfl⟩ := (h a b a₁).mp hb
      obtain ⟨items, hitems, rfl⟩ := ih.mp hbs
      exact ⟨item :: items, .cons hitem hitems, rfl⟩
    · rintro ⟨items, hitems, rfl⟩
      cases hitems with
      | cons hitem hitems =>
        exact ⟨_, (h a b _).mpr ⟨_, hitem, rfl⟩, ih.mpr ⟨_, hitems, rfl⟩⟩

namespace VersionVector

/-- One bootstrap time that is not too far ahead and one positive sequence number. -/
structure IsSeqNoEntry (now : Nat) (b : Block) (e : BootstrapTime × SeqNo) : Prop where
  type : b.type = tlv.seqNoEntry
  elements : ∃ first second, b.parse = some [first, second] ∧
    first.type = tlv.bootstrapTime ∧ first.number = some e.1 ∧
    second.type = tlv.seqNo ∧ second.number = some e.2
  near : e.1 ≤ now + 86400
  positive : 0 < e.2

/-- The entries of one node, as they stand in a state vector. -/
abbrev NodeEntries := NodeID × List (BootstrapTime × SeqNo)

/-- A name followed by entries for its node and by nothing else. -/
structure IsEntry (now : Nat) (b : Block) (node : NodeEntries) : Prop where
  type : b.type = tlv.stateVectorEntry
  elements : ∃ front blocks, b.parse = some (front :: blocks) ∧
    front.type = tlv.name ∧ Name.ofBlock front = some node.1 ∧
    List.Forall₂ (IsSeqNoEntry now) blocks node.2

/-- A StateVector with the entries of the nodes, in their order. -/
structure IsStateVector (now : Nat) (b : Block) (nodes : List NodeEntries) : Prop where
  type : b.type = tlv.stateVector
  elements : ∃ blocks, b.parse = some blocks ∧ List.Forall₂ (IsEntry now) blocks nodes

/-- The vector after the entries of one node have been set. -/
def putNode (v : VersionVector) (node : NodeEntries) : VersionVector :=
  node.2.foldl (fun v e => v.put node.1 e.1 e.2) v

/-- The vector with the entries of the nodes, the last one where two are for the same epoch. -/
def ofNodes (nodes : List NodeEntries) : VersionVector := nodes.foldl putNode {}

variable {now : Nat} {nid : NodeID} {v v' : VersionVector} {b : Block}

theorem isBootstrapTimeTooFarInFuture_iff {bootstrapTime : BootstrapTime} :
    ¬isBootstrapTimeTooFarInFuture now bootstrapTime ↔ bootstrapTime ≤ now + 86400 := by
  simp [isBootstrapTimeTooFarInFuture]

theorem decodeSeqNoEntry_iff : decodeSeqNoEntry now nid v b = .ok v' ↔
    ∃ e, IsSeqNoEntry now b e ∧ v' = v.put nid e.1 e.2 := by
  constructor
  · intro h
    obtain ⟨htype, h⟩ := require_bind_eq_ok.mp h
    obtain ⟨elements, hparse, h⟩ := bind_eq_ok.mp h
    split at h
    · rename_i first second
      obtain ⟨⟨hfirst, hsecond⟩, h⟩ := require_bind_eq_ok.mp h
      obtain ⟨bootstrapTime, hboot, h⟩ := bind_eq_ok.mp h
      obtain ⟨hnear, h⟩ := require_bind_eq_ok.mp h
      obtain ⟨seqNo, hseq, h⟩ := bind_eq_ok.mp h
      obtain ⟨hpos, h⟩ := require_bind_eq_ok.mp h
      obtain ⟨-, rfl⟩ := set_ok h
      refine ⟨(bootstrapTime, seqNo), ⟨htype, ⟨first, second, ?_⟩, ?_, ?_⟩, rfl⟩
      · exact ⟨orMalformed_eq_ok.mp hparse, hfirst, orMalformed_eq_ok.mp hboot, hsecond,
          orMalformed_eq_ok.mp hseq⟩
      · exact isBootstrapTimeTooFarInFuture_iff.mp hnear
      · exact Nat.pos_of_ne_zero hpos
    · cases h
  · rintro ⟨e, ⟨htype, ⟨first, second, hparse, hfirst, hboot, hsecond, hseq⟩, hnear, hpos⟩, rfl⟩
    have hne : e.2 ≠ 0 := Nat.pos_iff_ne_zero.mp hpos
    rw [decodeSeqNoEntry, require_of _ htype, ok_bind, hparse, orMalformed_some, ok_bind]
    simp only
    rw [require_of _ ⟨hfirst, hsecond⟩, ok_bind, hboot, orMalformed_some, ok_bind,
      require_of _ (isBootstrapTimeTooFarInFuture_iff.mpr hnear), ok_bind, hseq, orMalformed_some,
      ok_bind, require_of _ hne, ok_bind, set, if_neg hne]

theorem foldlM_decodeSeqNoEntry_iff {bs : List Block} :
    bs.foldlM (decodeSeqNoEntry now nid) v = .ok v' ↔
      ∃ es, List.Forall₂ (IsSeqNoEntry now) bs es ∧ v' = v.putNode (nid, es) :=
  foldlM_eq_ok (f := decodeSeqNoEntry now nid) (R := IsSeqNoEntry now)
    (g := fun (v : VersionVector) (e : BootstrapTime × SeqNo) => v.put nid e.1 e.2)
    fun _ _ _ => decodeSeqNoEntry_iff

theorem decodeEntry_iff :
    decodeEntry now v b = .ok v' ↔ ∃ node, IsEntry now b node ∧ v' = v.putNode node := by
  constructor
  · intro h
    obtain ⟨htype, h⟩ := require_bind_eq_ok.mp h
    obtain ⟨elements, hparse, h⟩ := bind_eq_ok.mp h
    split at h
    · cases h
    · rename_i front blocks
      obtain ⟨hfront, h⟩ := require_bind_eq_ok.mp h
      obtain ⟨nodeId, hname, h⟩ := bind_eq_ok.mp h
      obtain ⟨es, hes, rfl⟩ := foldlM_decodeSeqNoEntry_iff.mp h
      refine ⟨(nodeId, es), ⟨htype, front, blocks, ?_⟩, rfl⟩
      exact ⟨orMalformed_eq_ok.mp hparse, hfront, orMalformed_eq_ok.mp hname, hes⟩
  · rintro ⟨node, ⟨htype, front, blocks, hparse, hfront, hname, hes⟩, rfl⟩
    rw [decodeEntry, require_of _ htype, ok_bind, hparse, orMalformed_some, ok_bind]
    simp only
    rw [require_of _ hfront, ok_bind, hname, orMalformed_some, ok_bind]
    exact foldlM_decodeSeqNoEntry_iff.mpr ⟨node.2, hes, rfl⟩

theorem foldlM_decodeEntry_iff {bs : List Block} :
    bs.foldlM (decodeEntry now) v = .ok v' ↔
      ∃ nodes, List.Forall₂ (IsEntry now) bs nodes ∧ v' = nodes.foldl putNode v :=
  foldlM_eq_ok (f := decodeEntry now) (R := IsEntry now) fun _ _ _ => decodeEntry_iff

/-- The decoder of state vectors accepts exactly its grammar. -/
theorem decode_iff :
    decode now b = .ok v ↔ ∃ nodes, IsStateVector now b nodes ∧ v = ofNodes nodes := by
  constructor
  · intro h
    obtain ⟨htype, h⟩ := require_bind_eq_ok.mp h
    obtain ⟨blocks, hparse, h⟩ := bind_eq_ok.mp h
    obtain ⟨nodes, hnodes, rfl⟩ := foldlM_decodeEntry_iff.mp h
    exact ⟨nodes, ⟨htype, blocks, orMalformed_eq_ok.mp hparse, hnodes⟩, rfl⟩
  · rintro ⟨nodes, ⟨htype, blocks, hparse, hnodes⟩, rfl⟩
    rw [decode, require_of _ htype, ok_bind, hparse, orMalformed_some, ok_bind]
    exact foldlM_decodeEntry_iff.mpr ⟨nodes, hnodes, rfl⟩

end VersionVector

namespace SyncProtocolCodec

open VersionVector (NodeEntries IsStateVector ofNodes)

/-- Signed Data with the name of the group and, in its content, a state vector and other blocks. -/
structure IsStateData (expectedPrefix : Name) (d : Data) (stateBlock : Block)
    (extensions : List Block) : Prop where
  name : d.name = expectedPrefix
  signed : d.signatureValue.isSome
  content : (Block.mk tlv.content d.content).parse = some (stateBlock :: extensions)
  stateVector : stateBlock.type = tlv.stateVector
  allowed : Allowed extensions

/-- A Sync Interest of the current version around Data. -/
structure IsSyncInterest (cxx : NdnCxx) (groupPrefix : Name) (interest : Interest) (d : Data) :
    Prop where
  name : ∃ digest, interest.name = makeSyncName groupPrefix .v3 ++ [digest] ∧
    digest.isParametersSha256Digest
  digest : interest.isParametersDigestValid cxx
  parameters : ∃ params first, interest.applicationParameters = some params ∧
    params.parse = some [first] ∧ first.type = tlv.data ∧ cxx.decodeData first = some d

/-- The grammar of Sync Interests: signed Data with a well-formed state vector and the blocks that
may stand beside it. -/
def IsEnvelope (cxx : NdnCxx) (now : Nat) (groupPrefix : Name) (interest : Interest) (d : Data)
    (nodes : List NodeEntries) (extensions : List Block) : Prop :=
  IsSyncInterest cxx groupPrefix interest d ∧ ∃ stateBlock,
    IsStateData (makeSyncName groupPrefix .v3) d stateBlock extensions ∧
      IsStateVector now stateBlock nodes

variable {cxx : NdnCxx} {now : Nat} {interest : Interest} {groupPrefix expectedPrefix : Name}
  {envelope decoded : DecodedSyncEnvelope}

/-! ### The extension blocks -/

/-- The checks of the decoder's loop are those of the encoder's, and a bound on the length. -/
theorem foldlM_decodeExtension_iff {bs : List Block} {found : List Block × List BlockType} :
    (∃ found', bs.foldlM decodeExtension found = .ok found') ↔
      (∃ known, bs.foldlM checkExtension found.2 = .ok known) ∧
        (bs ≠ [] → found.1.length + bs.length ≤ maxExtensionBlocks) := by
  constructor
  · rintro ⟨found', h⟩
    induction bs generalizing found with
    | nil => exact ⟨⟨found.2, rfl⟩, fun hne => absurd rfl hne⟩
    | cons b bs ih =>
      obtain ⟨found₁, hb, hbs⟩ := bind_eq_ok.mp h
      obtain ⟨hlength, hb⟩ := require_bind_eq_ok.mp hb
      obtain ⟨hcore, hb⟩ := require_bind_eq_ok.mp hb
      obtain ⟨hnew, hb⟩ := require_bind_eq_ok.mp hb
      obtain rfl := Except.ok.inj hb
      obtain ⟨⟨known, hknown⟩, hmore⟩ := ih hbs
      refine ⟨⟨known, ?_⟩, fun _ => ?_⟩
      · rw [List.foldlM_cons, checkExtension, require_of _ hnew, ok_bind, require_of _ hcore,
          ok_bind, ok_bind]
        exact hknown
      · by_cases hnil : bs = []
        · subst hnil
          simpa [Nat.succ_le_iff] using hlength
        · have hbound := hmore hnil
          simp only [List.length_append, List.length_cons, List.length_nil] at hbound ⊢
          omega
  · rintro ⟨⟨known, hknown⟩, hlength⟩
    by_cases hnil : bs = []
    · subst hnil
      exact ⟨found, rfl⟩
    · exact ⟨_, foldlM_checkExtension hknown (hlength hnil)⟩

/-- The decoder accepts the allowed lists and returns them. -/
theorem decodeExtensions_iff {bs extensions : List Block} :
    decodeExtensions bs = .ok extensions ↔ Allowed bs ∧ extensions = bs := by
  constructor
  · intro h
    have hsame := decodeExtensions_eq h
    obtain ⟨found, hfold, -⟩ := bind_eq_ok.mp h
    obtain ⟨hknown, hlength⟩ := foldlM_decodeExtension_iff.mp ⟨found, hfold⟩
    obtain ⟨hcore, hmapping, hrepair⟩ := (checkExtensions_iff bs).mp hknown
    refine ⟨⟨?_, hcore, hmapping, hrepair⟩, hsame⟩
    by_cases hnil : bs = []
    · simp [hnil]
    · simpa using hlength hnil
  · rintro ⟨hallowed, rfl⟩
    obtain ⟨known, hknown⟩ := (checkExtensions_iff extensions).mpr
      ⟨hallowed.noCore, hallowed.mappingData, hallowed.repairData⟩
    exact decodeExtensions_of_check hknown hallowed.length

/-! ### The Data and the Interest -/

theorem decodeStateData_iff {first : Block} :
    decodeStateData cxx expectedPrefix first = .ok envelope ↔
      first.type = tlv.data ∧ ∃ d stateBlock extensions, cxx.decodeData first = some d ∧
        IsStateData expectedPrefix d stateBlock extensions ∧
          envelope = { extensions, stateVectorData := some d } := by
  constructor
  · intro h
    obtain ⟨htype, h⟩ := require_bind_eq_ok.mp h
    obtain ⟨d, hdata, h⟩ := bind_eq_ok.mp h
    obtain ⟨⟨hname, hsigned⟩, h⟩ := require_bind_eq_ok.mp h
    obtain ⟨blocks, hparse, h⟩ := bind_eq_ok.mp h
    split at h
    · cases h
    · rename_i stateBlock extensions
      obtain ⟨hstate, h⟩ := require_bind_eq_ok.mp h
      obtain ⟨extensions', hextensions, h⟩ := bind_eq_ok.mp h
      obtain rfl := Except.ok.inj h
      obtain ⟨hallowed, rfl⟩ := decodeExtensions_iff.mp hextensions
      refine ⟨htype, d, stateBlock, extensions', orMalformed_eq_ok.mp hdata, ?_, rfl⟩
      exact ⟨hname, hsigned, orMalformed_eq_ok.mp hparse, hstate, hallowed⟩
  · rintro ⟨htype, d, stateBlock, extensions, hdata, h, rfl⟩
    rw [decodeStateData, require_of _ htype, ok_bind, hdata, orMalformed_some, ok_bind,
      require_of _ ⟨h.name, h.signed⟩, ok_bind, h.content, orMalformed_some, ok_bind]
    simp only
    rw [require_of _ h.stateVector, ok_bind, decodeExtensions_iff.mpr ⟨h.allowed, rfl⟩, ok_bind]

/-- The name check of the decoder. -/
theorem name_check_iff {name : Name} :
    (name.length = expectedPrefix.length + 1 ∧ name.take expectedPrefix.length = expectedPrefix ∧
      name.getLast?.any Component.isParametersSha256Digest) ↔
      ∃ digest : Component, name = expectedPrefix ++ [digest] ∧
        digest.isParametersSha256Digest := by
  constructor
  · rintro ⟨hlength, hgroup, hdigest⟩
    obtain ⟨front, digest, rfl⟩ : ∃ front digest, name = front ++ [digest] := by
      refine ⟨List.dropLast name, name.getLast (by rintro rfl; simp at hlength), ?_⟩
      rw [List.dropLast_append_getLast]
    have hfront : front.length = expectedPrefix.length := by simpa using hlength
    rw [List.take_left' hfront] at hgroup
    exact ⟨digest, by rw [hgroup], by simpa using hdigest⟩
  · rintro ⟨digest, rfl, hdigest⟩
    simpa using hdigest

/-- The decoder without the state vector accepts every Sync Interest around Data of the group. -/
theorem decode_unjudged_iff : decode cxx now interest groupPrefix .v3 false = .ok envelope ↔
    ∃ d stateBlock extensions, IsSyncInterest cxx groupPrefix interest d ∧
      IsStateData (makeSyncName groupPrefix .v3) d stateBlock extensions ∧
        envelope = { extensions, stateVectorData := some d } := by
  rw [decode_unjudged]
  constructor
  · rintro ⟨first, ⟨⟨hlength, hgroup, hlast, hdigest⟩, params, hparams, hparse⟩, h⟩
    obtain ⟨htype, d, stateBlock, extensions, hdata, hstate, rfl⟩ := decodeStateData_iff.mp h
    refine ⟨d, stateBlock, extensions, ⟨?_, hdigest, params, first, hparams, ?_⟩, hstate, rfl⟩
    · exact name_check_iff.mp ⟨hlength, hgroup, hlast⟩
    · exact ⟨hparse, htype, hdata⟩
  · rintro ⟨d, stateBlock, extensions, hinterest, hstate, rfl⟩
    obtain ⟨hname, hdigest, params, first, hparams, hparse, htype, hdata⟩ := hinterest
    obtain ⟨hlength, hgroup, hlast⟩ := name_check_iff.mpr hname
    have hencloses : Encloses cxx groupPrefix interest first :=
      ⟨⟨hlength, hgroup, hlast, hdigest⟩, params, hparams, hparse⟩
    have hjudged := decodeStateData_iff.mpr ⟨htype, d, stateBlock, extensions, hdata, hstate, rfl⟩
    exact ⟨first, hencloses, hjudged⟩

/-! ### Both routes -/

/-- The state vector of an envelope that was decoded without it. -/
theorem decodeStateVector_iff {d : Data} {stateBlock : Block} {extensions : List Block}
    {vv : VersionVector} (h : IsStateData expectedPrefix d stateBlock extensions) :
    decodeStateVector now { extensions, stateVectorData := some d } .v3 = .ok vv ↔
      ∃ nodes, IsStateVector now stateBlock nodes ∧ vv = ofNodes nodes := by
  simp only [decodeStateVector, h.content, orMalformed_some, ok_bind]
  rw [require_of _ h.stateVector, ok_bind, VersionVector.decode_iff]

/-- The decoder accepts an Interest exactly when the grammar derives it, and returns the entries and
the blocks of the derivation.  Decoding the state vector afterwards makes no difference. -/
theorem envelope_grammar (cxx : NdnCxx) (now : Nat) (interest : Interest) (groupPrefix : Name) :
    ((∃ decoded, decode cxx now interest groupPrefix .v3 true = .ok decoded) ↔
      ∃ d nodes extensions, IsEnvelope cxx now groupPrefix interest d nodes extensions) ∧
    (∀ d nodes extensions, IsEnvelope cxx now groupPrefix interest d nodes extensions →
      decode cxx now interest groupPrefix .v3 true = .ok
        { extensions, stateVectorData := some d, stateVector := ofNodes nodes
          stateVectorDecoded := true }) ∧
    ∀ now' decoded, decode cxx now interest groupPrefix .v3 true = .ok decoded ↔
      ∃ envelope vv, decode cxx now' interest groupPrefix .v3 false = .ok envelope ∧
        decodeStateVector now envelope .v3 = .ok vv ∧
          decoded = { envelope with stateVector := vv, stateVectorDecoded := true } := by
  have hreturns : ∀ d nodes extensions,
      IsEnvelope cxx now groupPrefix interest d nodes extensions →
        decode cxx now interest groupPrefix .v3 true = .ok
          { extensions, stateVectorData := some d, stateVector := ofNodes nodes
            stateVectorDecoded := true } := by
    rintro d nodes extensions ⟨hinterest, stateBlock, hstate, hvector⟩
    refine (decode_two_steps now).mpr ⟨{ extensions, stateVectorData := some d }, _, ?_, ?_, rfl⟩
    · exact decode_unjudged_iff.mpr ⟨d, stateBlock, extensions, hinterest, hstate, rfl⟩
    · exact (decodeStateVector_iff hstate).mpr ⟨nodes, hvector, rfl⟩
  refine ⟨⟨?_, ?_⟩, hreturns, fun now' decoded => decode_two_steps now'⟩
  · rintro ⟨decoded, h⟩
    obtain ⟨envelope, vv, henvelope, hvv, -⟩ := (decode_two_steps now).mp h
    obtain ⟨d, stateBlock, extensions, hinterest, hstate, rfl⟩ := decode_unjudged_iff.mp henvelope
    obtain ⟨nodes, hvector, -⟩ := (decodeStateVector_iff hstate).mp hvv
    exact ⟨d, nodes, extensions, hinterest, stateBlock, hstate, hvector⟩
  · rintro ⟨d, nodes, extensions, h⟩
    exact ⟨_, hreturns d nodes extensions h⟩

end SyncProtocolCodec

end NdnSvs
