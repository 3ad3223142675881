import NdnSvs.Lib.Tlv
import Std.Data.ExtTreeMap

/-! Names of the packet format: typed components in their canonical order, the components that carry
numbers, and the wire encoding. -/

namespace NdnSvs

open Std Lib.Tlv

namespace tlv

def name : BlockType := ⟨7, by decide⟩
def implicitSha256Digest : Nat := 1
def parametersSha256Digest : Nat := 2
def genericNameComponent : Nat := 8
def segmentNameComponent : Nat := 50
def versionNameComponent : Nat := 54
def timestampNameComponent : Nat := 56
def sequenceNumNameComponent : Nat := 58

end tlv

/-- A name component.  Its type is a nonzero 16-bit number. -/
structure Component where
  type : Nat
  value : Bytes
  type_pos : 0 < type
  type_lt : type < 2 ^ 16
deriving DecidableEq

namespace Component

/-- The canonical order: by type, then by length, then by the bytes. -/
def cmp : Component → Component → Ordering :=
  compareLex (compareOn type) (compareLex (compareOn fun c => c.value.length) (compareOn value))

instance : Ord Component := ⟨cmp⟩

instance : TransOrd Component :=
  inferInstanceAs (TransCmp
    (compareLex (compareOn type) (compareLex (compareOn fun c => c.value.length)
      (compareOn value))))

instance : LawfulEqOrd Component where
  eq_of_compare := by
    intro a b h
    obtain ⟨ta, va, _, _⟩ := a
    obtain ⟨tb, vb, _, _⟩ := b
    simp only [compare, cmp, compareLex, compareOn, Ordering.then_eq_eq] at h
    have htype : ta = tb := LawfulEqOrd.eq_of_compare h.1
    have hvalue : va = vb := LawfulEqOrd.eq_of_compare h.2.2
    subst htype hvalue
    rfl

def generic (value : Bytes) : Component := ⟨tlv.genericNameComponent, value, by decide, by decide⟩

/-- The component for the bytes of a string. -/
def ofString (s : String) : Component := generic s.toUTF8.data.toList

def fromSegment (n : Nat) : Component :=
  ⟨tlv.segmentNameComponent, nonNegativeInteger n, by decide, by decide⟩

def fromVersion (n : Nat) : Component :=
  ⟨tlv.versionNameComponent, nonNegativeInteger n, by decide, by decide⟩

def fromSequenceNumber (n : Nat) : Component :=
  ⟨tlv.sequenceNumNameComponent, nonNegativeInteger n, by decide, by decide⟩

def digest (type : Nat) (h₁ : 0 < type) (h₂ : type < 2 ^ 16) (value : Bytes) : Component :=
  ⟨type, value, h₁, h₂⟩

def implicitSha256Digest (value : Bytes) : Component :=
  digest tlv.implicitSha256Digest (by decide) (by decide) value

def parametersSha256Digest (value : Bytes) : Component :=
  digest tlv.parametersSha256Digest (by decide) (by decide) value

/-- A time point, in the nanoseconds of a signed 64-bit count, from seconds since the epoch. -/
def timePointOfSeconds (seconds : Nat) : Int :=
  ((seconds : Int) * 1000000000).bmod 18446744073709551616

/-- The component of a time point, in microseconds. -/
def fromTimestamp (timePoint : Int) : Component :=
  ⟨tlv.timestampNameComponent, nonNegativeInteger
    (timePoint.tdiv 1000 % 18446744073709551616).toNat,
    by decide, by decide⟩

def isSegment (c : Component) : Bool :=
  c.type = tlv.segmentNameComponent && (readNonNegativeInteger c.value).isSome

def isVersion (c : Component) : Bool :=
  c.type = tlv.versionNameComponent && (readNonNegativeInteger c.value).isSome

def isTimestamp (c : Component) : Bool :=
  c.type = tlv.timestampNameComponent && (readNonNegativeInteger c.value).isSome

def isParametersSha256Digest (c : Component) : Bool :=
  c.type = tlv.parametersSha256Digest && c.value.length = 32

/-- The number that a component carries, 0 when it carries none. -/
def number (c : Component) : Nat := (readNonNegativeInteger c.value).getD 0

theorem number_lt (c : Component) : c.number < 2 ^ 64 := by
  unfold number
  cases h : readNonNegativeInteger c.value with
  | none => decide
  | some n => exact readNonNegativeInteger_lt h

/-- The time point of a timestamp component. -/
def toTimestamp (c : Component) : Int := ((c.number : Int) * 1000).bmod 18446744073709551616

def block (c : Component) : Block :=
  ⟨⟨c.type, c.type_pos, c.type_lt.trans (by decide)⟩, c.value⟩

def ofBlock (b : Block) : Option Component :=
  if h : (b.type : Nat) < 2 ^ 16 then some ⟨b.type, b.value, b.type.property.1, h⟩ else none

@[simp] theorem ofBlock_block (c : Component) : ofBlock c.block = some c :=
  dif_pos c.type_lt

theorem fromSequenceNumber_injective {m n : Nat} (hm : m < 2 ^ 64) (hn : n < 2 ^ 64)
    (h : fromSequenceNumber m = fromSequenceNumber n) : m = n :=
  nonNegativeInteger_injective hm hn (congrArg value h)

/-- The largest number of seconds whose nanoseconds fit a signed 64-bit count. -/
def maxSeconds : Nat := 9223372036

theorem timePointOfSeconds_eq {n : Nat} (h : n ≤ maxSeconds) :
    timePointOfSeconds n = (n : Int) * 1000000000 := by
  have hn : (n : Int) ≤ 9223372036 := Int.ofNat_le.mpr h
  refine Int.bmod_eq_of_le ?_ ?_
  · norm_num
    omega
  · norm_num
    omega

end Component

abbrev Name := List Component

/-- The identifier of a node is its name prefix. -/
abbrev NodeID := Name

namespace Name

/-- A name of generic components, for examples. -/
def ofStrings (components : List String) : Name := components.map Component.ofString

def appendVersion (n : Name) (version : Nat) : Name := n ++ [.fromVersion version]

def appendSegment (n : Name) (segment : Nat) : Name := n ++ [.fromSegment segment]

/-- The name without its last `k` components. -/
def dropLast (n : Name) (k : Nat) : Name := n.take (n.length - k)

def block (n : Name) : Block := Block.ofElements tlv.name (n.map Component.block)

def ofBlock (b : Block) : Option Name :=
  if b.type = tlv.name then b.parse.bind fun elements => elements.mapM Component.ofBlock else none

theorem mapM_ofBlock_block (n : Name) :
    (n.map Component.block).mapM Component.ofBlock = some n := by
  induction n with
  | nil => rfl
  | cons c n ih => simp [List.mapM_cons, ih]

/-- A name whose wire encoding has fewer than `2^64` bytes is read back. -/
theorem ofBlock_block {n : Name} (h : n.block.value.length < 2 ^ 64) :
    ofBlock n.block = some n := by
  have hfits : ∀ b ∈ n.map Component.block, b.Fits :=
    fun b hb => Block.length_lt_of_ofElements hb h
  have hparse : (Block.ofElements tlv.name (n.map Component.block)).parse =
      some (n.map Component.block) := Block.parse_ofElements hfits
  simp only [ofBlock, block, Block.ofElements] at hparse ⊢
  rw [if_pos trivial, hparse, Option.bind_some, mapM_ofBlock_block]

end Name

end NdnSvs
