import NdnSvs.Name

/-! Packets and the exceptions of the code.  The packet library is a parameter: the wire format of
Data and the hash function, with what the code relies on. -/

namespace NdnSvs

open Lib.Tlv

namespace tlv

def data : BlockType := ⟨6, by decide⟩
def content : BlockType := ⟨21, by decide⟩
def applicationParameters : BlockType := ⟨36, by decide⟩

def stateVector : BlockType := ⟨201, by decide⟩
def stateVectorEntry : BlockType := ⟨202, by decide⟩
def seqNoV2 : BlockType := ⟨204, by decide⟩
def mappingData : BlockType := ⟨205, by decide⟩
def mappingEntry : BlockType := ⟨206, by decide⟩
def seqNoEntry : BlockType := ⟨210, by decide⟩
def lzmaBlock : BlockType := ⟨211, by decide⟩
def bootstrapTime : BlockType := ⟨212, by decide⟩
def seqNo : BlockType := ⟨214, by decide⟩
def repairData : BlockType := ⟨216, by decide⟩
def repairEntry : BlockType := ⟨217, by decide⟩

end tlv

/-- The largest packet that the Face sends. -/
def maxNdnPacketSize : Nat := 8800

abbrev SeqNo := Nat
abbrev BootstrapTime := Nat

/-- The exceptions that the code throws, with their texts. -/
inductive Error
  | unexpectedType (expected : String) (actual : Nat)
  | tlv (what : String)
  | invalidArgument (what : String)
  | runtime (what : String)
  | logicError (what : String)
  | lengthError (what : String)
deriving DecidableEq, Repr

abbrev Result := Except Error

/-- The value of an operation of the packet library that throws on malformed bytes. -/
def orMalformed {α : Type} : Option α → Result α
  | some a => .ok a
  | none => .error (.tlv "malformed TLV")

/-- A check that throws when it fails. -/
def require (p : Prop) [Decidable p] (e : Error) : Result Unit := if p then .ok () else .error e

@[simp] theorem ok_bind {α β : Type} (a : α) (f : α → Result β) : (Except.ok a >>= f) = f a := rfl

@[simp] theorem error_bind {α β : Type} (e : Error) (f : α → Result β) :
    (Except.error e >>= f) = .error e := rfl

theorem bind_eq_ok {α β : Type} {x : Result α} {f : α → Result β} {b : β} :
    (x >>= f) = .ok b ↔ ∃ a, x = .ok a ∧ f a = .ok b := by
  cases x <;> simp

@[simp] theorem orMalformed_some {α : Type} (a : α) : orMalformed (some a) = .ok a := rfl

theorem orMalformed_eq_ok {α : Type} {x : Option α} {a : α} :
    orMalformed x = .ok a ↔ x = some a := by
  cases x <;> simp [orMalformed]

@[simp] theorem require_true {h : Decidable True} (e : Error) : @require True h e = .ok () :=
  if_pos trivial

theorem require_of {p : Prop} [Decidable p] (e : Error) (h : p) : require p e = .ok () := if_pos h

theorem require_bind_eq_ok {p : Prop} [Decidable p] {e : Error} {α : Type} {f : Unit → Result α}
    {a : α} : (require p e >>= f) = .ok a ↔ p ∧ f () = .ok a := by
  unfold require
  split <;> simp_all

/-- A loop whose steps all succeed. -/
theorem foldlM_ok {α β : Type} {f : α → β → Result α} {g : α → β → α} {bs : List β}
    (h : ∀ a, ∀ b ∈ bs, f a b = .ok (g a b)) (a : α) : bs.foldlM f a = .ok (bs.foldl g a) := by
  induction bs generalizing a with
  | nil => rfl
  | cons b bs ih =>
    rw [List.foldlM_cons, h a b List.mem_cons_self, ok_bind, List.foldl_cons]
    exact ih (fun a c hc => h a c (List.mem_cons_of_mem _ hc)) _

/-- What every step of a loop keeps holds at its end. -/
theorem foldlM_invariant {α β : Type} {f : α → β → Result α} {P : α → Prop}
    (h : ∀ a b a', P a → f a b = .ok a' → P a') {bs : List β} {a a' : α} (ha : P a)
    (hfold : bs.foldlM f a = .ok a') : P a' := by
  induction bs generalizing a with
  | nil =>
    obtain rfl := Except.ok.inj hfold
    exact ha
  | cons b bs ih =>
    obtain ⟨a₁, hb, hfold⟩ := bind_eq_ok.mp hfold
    exact ih (h a b a₁ ha hb) hfold

/-- A loop of checks passes when each of them does. -/
theorem forM_eq_ok {β : Type} {f : β → Result Unit} {bs : List β} :
    bs.forM f = .ok () ↔ ∀ b ∈ bs, f b = .ok () := by
  induction bs with
  | nil => exact ⟨fun _ b hb => absurd hb List.not_mem_nil, fun _ => rfl⟩
  | cons b bs ih =>
    have hcons : (b :: bs).forM f = (f b >>= fun _ => bs.forM f) := rfl
    rw [hcons, bind_eq_ok, List.forall_mem_cons]
    constructor
    · rintro ⟨u, hb, hbs⟩
      exact ⟨hb, ih.mp hbs⟩
    · rintro ⟨hb, hbs⟩
      exact ⟨(), hb, ih.mpr hbs⟩

structure Data where
  name : Name
  contentType : Nat := 0
  freshnessPeriod : Nat := 0
  finalBlock : Option Component := none
  content : Bytes := []
  signatureValue : Option Bytes := none
deriving DecidableEq

/-- A Data packet that can be encoded. -/
structure Data.Encodable (d : Data) : Prop where
  contentType : d.contentType < 2 ^ 64
  freshnessPeriod : d.freshnessPeriod < 2 ^ 64
  signed : d.signatureValue.isSome

/-- What the code uses of the packet library, beyond names and TLV blocks. -/
structure NdnCxx where
  sha256 : Bytes → Bytes
  dataWire : Data → Block
  decodeData : Block → Option Data
  sha256_length : ∀ bs, (sha256 bs).length = 32
  dataWire_type : ∀ d, (dataWire d).type = tlv.data
  decodeData_dataWire : ∀ d : Data, d.Encodable → (dataWire d).value.length < 2 ^ 64 →
    decodeData (dataWire d) = some d
  content_length_le : ∀ d : Data, d.content.length ≤ (dataWire d).value.length

/-- The wire encoding of a Data packet, which must have been signed. -/
def Data.wireEncode (cxx : NdnCxx) (d : Data) : Result Block :=
  if d.signatureValue.isSome then .ok (cxx.dataWire d)
  else .error (.runtime "Requested wire format, but Data has not been signed")

/-- The name of a Data packet followed by its implicit digest. -/
def Data.fullName (cxx : NdnCxx) (d : Data) : Name :=
  d.name ++ [.implicitSha256Digest (cxx.sha256 (cxx.dataWire d).wire)]

/-- Whether the name has a parameters digest. -/
def Name.hasParametersDigest (n : Name) : Bool := n.any Component.isParametersSha256Digest

/-- The name with a parameters digest in the place of its own, or last when it has none. -/
def Name.setParametersDigest (n : Name) (digest : Component) : Name :=
  match n.findIdx? Component.isParametersSha256Digest with
  | some index => n.set index digest
  | none => n ++ [digest]

theorem Name.setParametersDigest_of_not {n : Name} (h : n.hasParametersDigest = false)
    (digest : Component) : n.setParametersDigest digest = n ++ [digest] := by
  have hnone : n.findIdx? Component.isParametersSha256Digest = none := by
    rw [List.findIdx?_eq_none_iff]
    exact fun c hc => by simpa using List.any_eq_false.mp h c hc
  rw [setParametersDigest, hnone]

structure Interest where
  name : Name
  applicationParameters : Option Block := none
  signatureElements : List Block := []
  interestLifetime : Nat := 0
  incomingFaceId : Option Nat := none
deriving DecidableEq

/-- The parameters digest covers the parameters and the elements after them. -/
def Interest.parametersDigest (cxx : NdnCxx) (i : Interest) : Component :=
  .parametersSha256Digest
    (cxx.sha256 (wires (i.applicationParameters.toList ++ i.signatureElements)))

/-- Sets the parameters of an unsigned Interest and their digest in its name. -/
def Interest.setApplicationParameters (cxx : NdnCxx) (i : Interest) (parameters : Block) :
    Interest :=
  let block := if parameters.type = tlv.applicationParameters then parameters
    else Block.ofElements tlv.applicationParameters [parameters]
  let i := { i with applicationParameters := some block }
  { i with name := i.name.setParametersDigest (i.parametersDigest cxx) }

/-- Adds signature elements to the parameters, which changes the digest. -/
def Interest.sign (cxx : NdnCxx) (i : Interest) (elements : List Block) : Interest :=
  let i := { i with signatureElements := elements }
  { i with name := i.name.setParametersDigest (i.parametersDigest cxx) }

def Interest.isParametersDigestValid (cxx : NdnCxx) (i : Interest) : Bool :=
  match i.name.find? Component.isParametersSha256Digest with
  | none => i.applicationParameters.isNone
  | some digest => i.applicationParameters.isSome && digest = i.parametersDigest cxx

/-- The number of bytes of the name and the parameters of an Interest. -/
def Interest.size (i : Interest) : Nat :=
  i.name.block.size + (wires (i.applicationParameters.toList ++ i.signatureElements)).length

theorem isParametersSha256Digest_parametersDigest (cxx : NdnCxx) (i : Interest) :
    (i.parametersDigest cxx).isParametersSha256Digest = true := by
  simp [Interest.parametersDigest, Component.parametersSha256Digest, Component.digest,
    Component.isParametersSha256Digest, cxx.sha256_length]

end NdnSvs
