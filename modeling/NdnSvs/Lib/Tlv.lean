import Mathlib.Tactic.Ring
import Mathlib.Data.List.Forall2

/-! The TLV encoding of the NDN packet format: variable-length numbers, non-negative integers, and
blocks with a type, a length and a value.  The main results are that each reader returns what its
writer wrote and leaves the bytes after it, and that the elements of a value parse back to the
blocks that were written in it. -/

namespace NdnSvs.Lib.Tlv

abbrev Bytes := List UInt8

/-! ### Big-endian numbers -/

/-- The lowest `k` bytes of `n`, the highest first. -/
def bigEndian : Nat → Nat → Bytes
  | 0, _ => []
  | k + 1, n => UInt8.ofNat (n / 256 ^ k) :: bigEndian k n

def ofBigEndian (bs : Bytes) : Nat := bs.foldl (fun n b => n * 256 + b.toNat) 0

@[simp] theorem bigEndian_length (k n : Nat) : (bigEndian k n).length = k := by
  induction k with
  | zero => rfl
  | succ k ih => simp [bigEndian, ih]

theorem foldl_bigEndian (k n acc : Nat) :
    (bigEndian k n).foldl (fun n b => n * 256 + b.toNat) acc = acc * 256 ^ k + n % 256 ^ k := by
  induction k generalizing acc with
  | zero => simp [bigEndian, Nat.mod_one]
  | succ k ih =>
    have hbyte : (UInt8.ofNat (n / 256 ^ k)).toNat = n / 256 ^ k % 256 := UInt8.toNat_ofNat'
    have hmod : n % 256 ^ (k + 1) = n % 256 ^ k + 256 ^ k * (n / 256 ^ k % 256) := by
      rw [pow_succ, Nat.mod_mul]
    simp only [bigEndian, List.foldl_cons, ih, hbyte, hmod]
    ring

theorem ofBigEndian_bigEndian {k n : Nat} (h : n < 256 ^ k) : ofBigEndian (bigEndian k n) = n := by
  rw [ofBigEndian, foldl_bigEndian, Nat.zero_mul, Nat.zero_add, Nat.mod_eq_of_lt h]

theorem ofBigEndian_lt (bs : Bytes) : ofBigEndian bs < 256 ^ bs.length := by
  suffices h : ∀ acc, bs.foldl (fun n b => n * 256 + b.toNat) acc < (acc + 1) * 256 ^ bs.length by
    simpa [ofBigEndian] using h 0
  induction bs with
  | nil => intro acc; simp
  | cons b bs ih =>
    intro acc
    have hb := b.toNat_lt
    calc (b :: bs).foldl (fun n b => n * 256 + b.toNat) acc
        = bs.foldl (fun n b => n * 256 + b.toNat) (acc * 256 + b.toNat) := rfl
      _ < (acc * 256 + b.toNat + 1) * 256 ^ bs.length := ih _
      _ ≤ ((acc + 1) * 256) * 256 ^ bs.length := Nat.mul_le_mul_right _ (by omega)
      _ = (acc + 1) * 256 ^ (b :: bs).length := by rw [List.length_cons, pow_succ]; ring

/-! ### Variable-length numbers -/

/-- A TLV type or length. -/
def varNumber (n : Nat) : Bytes :=
  if n < 253 then [UInt8.ofNat n]
  else if n < 2 ^ 16 then 253 :: bigEndian 2 n
  else if n < 2 ^ 32 then 254 :: bigEndian 4 n
  else 255 :: bigEndian 8 n

/-- A number of `k` bytes and the bytes after it. -/
def readFixed (k : Nat) (bs : Bytes) : Option (Nat × Bytes) :=
  if k ≤ bs.length then some (ofBigEndian (bs.take k), bs.drop k) else none

def readVarNumber : Bytes → Option (Nat × Bytes)
  | [] => none
  | b :: bs =>
    if b.toNat < 253 then some (b.toNat, bs)
    else if b.toNat = 253 then readFixed 2 bs
    else if b.toNat = 254 then readFixed 4 bs
    else readFixed 8 bs

theorem readFixed_bigEndian {k n : Nat} (h : n < 256 ^ k) (rest : Bytes) :
    readFixed k (bigEndian k n ++ rest) = some (n, rest) := by
  have hlen := bigEndian_length k n
  have htake : (bigEndian k n ++ rest).take k = bigEndian k n := List.take_left' hlen
  have hdrop : (bigEndian k n ++ rest).drop k = rest := List.drop_left' hlen
  rw [readFixed, if_pos (by simp), htake, hdrop, ofBigEndian_bigEndian h]

theorem readVarNumber_varNumber {n : Nat} (h : n < 2 ^ 64) (rest : Bytes) :
    readVarNumber (varNumber n ++ rest) = some (n, rest) := by
  unfold varNumber
  split
  · have hb : (UInt8.ofNat n).toNat = n := by rw [UInt8.toNat_ofNat']; omega
    simp only [List.singleton_append, readVarNumber, hb]
    rw [if_pos (by assumption)]
  · split
    · exact readFixed_bigEndian (k := 2) (by omega) rest
    · split
      · exact readFixed_bigEndian (k := 4) (by omega) rest
      · exact readFixed_bigEndian (k := 8) (by omega) rest

/-! ### Non-negative integers -/

def nonNegativeInteger (n : Nat) : Bytes :=
  if n < 2 ^ 8 then bigEndian 1 n
  else if n < 2 ^ 16 then bigEndian 2 n
  else if n < 2 ^ 32 then bigEndian 4 n
  else bigEndian 8 n

def readNonNegativeInteger (bs : Bytes) : Option Nat :=
  if bs.length = 1 ∨ bs.length = 2 ∨ bs.length = 4 ∨ bs.length = 8 then some (ofBigEndian bs)
  else none

theorem readNonNegativeInteger_write {n : Nat} (h : n < 2 ^ 64) :
    readNonNegativeInteger (nonNegativeInteger n) = some n := by
  unfold nonNegativeInteger readNonNegativeInteger
  split
  · rw [if_pos (by simp), ofBigEndian_bigEndian (by omega)]
  · split
    · rw [if_pos (by simp), ofBigEndian_bigEndian (by omega)]
    · split
      · rw [if_pos (by simp), ofBigEndian_bigEndian (by omega)]
      · rw [if_pos (by simp), ofBigEndian_bigEndian (by omega)]

theorem readNonNegativeInteger_lt {bs : Bytes} {n : Nat} (h : readNonNegativeInteger bs = some n) :
    n < 2 ^ 64 := by
  unfold readNonNegativeInteger at h
  split at h
  · rename_i hlen
    obtain rfl := Option.some.inj h
    refine Nat.lt_of_lt_of_le (ofBigEndian_lt bs) ?_
    calc 256 ^ bs.length ≤ 256 ^ 8 := Nat.pow_le_pow_right (by decide) (by omega)
      _ = 2 ^ 64 := by norm_num
  · cases h

theorem nonNegativeInteger_injective {m n : Nat} (hm : m < 2 ^ 64) (hn : n < 2 ^ 64)
    (h : nonNegativeInteger m = nonNegativeInteger n) : m = n := by
  have hread := readNonNegativeInteger_write hm
  rw [h, readNonNegativeInteger_write hn] at hread
  exact (Option.some.inj hread).symm

/-! ### Blocks -/

/-- A nonzero 32-bit number. -/
abbrev BlockType := { type : Nat // 0 < type ∧ type < 2 ^ 32 }

instance : LawfulBEq BlockType := Subtype.instLawfulBEq

/-- A TLV element. -/
structure Block where
  type : BlockType
  value : Bytes
deriving DecidableEq, Repr

/-- The length of the block can be written. -/
def Block.Fits (b : Block) : Prop := b.value.length < 2 ^ 64

def Block.wire (b : Block) : Bytes := varNumber b.type ++ varNumber b.value.length ++ b.value

def Block.size (b : Block) : Nat := b.wire.length

/-- The wire encoding of blocks one after the other. -/
def wires (bs : List Block) : Bytes := bs.flatMap Block.wire

theorem wires_append (bs cs : List Block) : wires (bs ++ cs) = wires bs ++ wires cs :=
  List.flatMap_append

def Block.ofElements (type : BlockType) (elements : List Block) : Block := ⟨type, wires elements⟩

def Block.ofNumber (type : BlockType) (n : Nat) : Block := ⟨type, nonNegativeInteger n⟩

@[simp] theorem Block.ofElements_type (type : BlockType) (elements : List Block) :
    (Block.ofElements type elements).type = type := rfl

@[simp] theorem Block.ofNumber_type (type : BlockType) (n : Nat) :
    (Block.ofNumber type n).type = type := rfl

def Block.number (b : Block) : Option Nat := readNonNegativeInteger b.value

/-- The first block of the bytes and the bytes after it. -/
def readBlock (bs : Bytes) : Option (Block × Bytes) := do
  let (type, bs) ← readVarNumber bs
  let (length, bs) ← readVarNumber bs
  if h : 0 < type ∧ type < 2 ^ 32 then
    if length ≤ bs.length then some (⟨⟨type, h⟩, bs.take length⟩, bs.drop length) else none
  else none

theorem readBlock_wire {b : Block} (hb : b.Fits) (rest : Bytes) :
    readBlock (b.wire ++ rest) = some (b, rest) := by
  have hlt := b.type.property.2
  have htype := readVarNumber_varNumber (n := b.type) (by omega)
    (varNumber b.value.length ++ (b.value ++ rest))
  have hlen := readVarNumber_varNumber hb (b.value ++ rest)
  have hfits : b.value.length ≤ (b.value ++ rest).length := by simp
  simp only [readBlock, Block.wire, List.append_assoc, htype, hlen, Option.bind_eq_bind,
    Option.bind_some]
  rw [dif_pos b.type.property, if_pos hfits, List.take_left, List.drop_left]

/-- The block that the bytes are. -/
def blockFromValue (bs : Bytes) : Option Block :=
  match readBlock bs with
  | some (b, []) => some b
  | _ => none

theorem blockFromValue_wire {b : Block} (hb : b.Fits) : blockFromValue b.wire = some b := by
  have hread := readBlock_wire hb []
  rw [List.append_nil] at hread
  rw [blockFromValue, hread]

/-- The blocks that the bytes consist of. The first argument bounds their number. -/
def readBlocks : Nat → Bytes → Option (List Block)
  | _, [] => some []
  | 0, _ :: _ => none
  | fuel + 1, bs@(_ :: _) => do
    let (b, rest) ← readBlock bs
    let more ← readBlocks fuel rest
    some (b :: more)

/-- The elements of a block. -/
def Block.parse (b : Block) : Option (List Block) := readBlocks b.value.length b.value

theorem Block.wire_ne_nil (b : Block) : b.wire ≠ [] := by
  unfold Block.wire varNumber
  split
  · simp
  · split
    · simp
    · split <;> simp

theorem Block.wire_pos (b : Block) : 0 < b.wire.length := List.length_pos_iff.mpr b.wire_ne_nil

theorem readBlocks_wires {bs : List Block} (hbs : ∀ b ∈ bs, b.Fits) (fuel : Nat)
    (hfuel : (wires bs).length ≤ fuel) : readBlocks fuel (wires bs) = some bs := by
  induction bs generalizing fuel with
  | nil => cases fuel <;> rfl
  | cons b bs ih =>
    have hwires : wires (b :: bs) = b.wire ++ wires bs := rfl
    have hpos := b.wire_pos
    rw [hwires, List.length_append] at hfuel
    obtain ⟨fuel, rfl⟩ : ∃ k, fuel = k + 1 := ⟨fuel - 1, by omega⟩
    obtain ⟨x, xs, hx⟩ : ∃ x xs, b.wire ++ wires bs = x :: xs :=
      List.exists_cons_of_ne_nil (by simp [b.wire_ne_nil])
    have hread := readBlock_wire (hbs b List.mem_cons_self) (wires bs)
    have hmore := ih (fun c hc => hbs c (List.mem_cons_of_mem _ hc)) fuel (by omega)
    rw [hx] at hread
    rw [hwires, hx]
    simp only [readBlocks, hread, hmore, Option.bind_eq_bind, Option.bind_some]

theorem Block.parse_ofElements {type : BlockType} {elements : List Block}
    (h : ∀ b ∈ elements, b.Fits) : (Block.ofElements type elements).parse = some elements :=
  readBlocks_wires h _ (Nat.le_refl _)

theorem Block.number_ofNumber {type : BlockType} {n : Nat} (h : n < 2 ^ 64) :
    (Block.ofNumber type n).number = some n :=
  readNonNegativeInteger_write h

theorem length_le_wires {b : Block} {bs : List Block} (h : b ∈ bs) :
    b.wire.length ≤ (wires bs).length := by
  induction bs with
  | nil => cases h
  | cons c bs ih =>
    rw [wires, List.flatMap_cons, List.length_append]
    rcases List.mem_cons.mp h with rfl | h
    · omega
    · have := ih h
      rw [wires] at this
      omega

theorem Block.length_le_wire (b : Block) : b.value.length ≤ b.wire.length := by
  rw [Block.wire, List.length_append]
  exact Nat.le_add_left _ _

/-- The elements of a block that is small enough have small enough values. -/
theorem Block.length_lt_of_ofElements {type : BlockType} {elements : List Block} {b : Block}
    (hb : b ∈ elements) {n : Nat} (h : (Block.ofElements type elements).value.length < n) :
    b.value.length < n := by
  have h1 := b.length_le_wire
  have h2 := length_le_wires hb
  simp only [Block.ofElements] at h
  omega

theorem Block.Fits.parse {type : BlockType} {elements : List Block}
    (h : (Block.ofElements type elements).Fits) :
    (Block.ofElements type elements).parse = some elements :=
  Block.parse_ofElements fun _ hb => Block.length_lt_of_ofElements hb h

/-- Blocks are determined by their encodings in a row. -/
theorem wires_inj {bs bs' : List Block} (h : wires bs = wires bs')
    (hsize : (wires bs).length < 2 ^ 64) : bs = bs' := by
  have hfits : ∀ {cs : List Block}, (wires cs).length < 2 ^ 64 → ∀ b ∈ cs, b.Fits :=
    fun hcs b hb => Nat.lt_of_le_of_lt
      ((Block.length_le_wire b).trans (length_le_wires hb)) hcs
  have hread := readBlocks_wires (hfits hsize) (wires bs).length le_rfl
  rw [h] at hread
  rw [readBlocks_wires (hfits (h ▸ hsize)) (wires bs').length le_rfl] at hread
  exact (Option.some.inj hread).symm

theorem nonNegativeInteger_length_le (n : Nat) : (nonNegativeInteger n).length ≤ 8 := by
  unfold nonNegativeInteger
  split
  · simp
  · split
    · simp
    · split <;> simp

theorem nonNegativeInteger_length_mono {m n : Nat} (h : m ≤ n) :
    (nonNegativeInteger m).length ≤ (nonNegativeInteger n).length := by
  unfold nonNegativeInteger
  split_ifs <;> simp <;> omega

theorem varNumber_length_mono {m n : Nat} (h : m ≤ n) :
    (varNumber m).length ≤ (varNumber n).length := by
  unfold varNumber
  split_ifs <;> simp <;> omega

theorem Block.size_eq (b : Block) :
    b.size = (varNumber b.type).length + (varNumber b.value.length).length + b.value.length := by
  rw [size, wire, List.length_append, List.length_append]

/-- A block with a longer value is not smaller. -/
theorem Block.size_mono {b c : Block} (htype : b.type = c.type)
    (hlength : b.value.length ≤ c.value.length) : b.size ≤ c.size := by
  have := varNumber_length_mono hlength
  rw [size_eq, size_eq, htype]
  omega

/-- A block with larger elements is not smaller. -/
theorem Block.ofElements_size_le {type : BlockType} {bs cs : List Block}
    (h : List.Forall₂ (fun b c => b.size ≤ c.size) bs cs) :
    (Block.ofElements type bs).size ≤ (Block.ofElements type cs).size := by
  refine size_mono rfl ?_
  induction h with
  | nil => exact le_rfl
  | cons hsize _ ih =>
    simp only [size, ofElements, wires, List.flatMap_cons, List.length_append] at hsize ih ⊢
    exact Nat.add_le_add hsize ih

theorem Block.ofNumber_fits (type : BlockType) (n : Nat) : (Block.ofNumber type n).Fits :=
  Nat.lt_of_le_of_lt (nonNegativeInteger_length_le n) (by decide)

end NdnSvs.Lib.Tlv
