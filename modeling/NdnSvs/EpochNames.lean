import NdnSvs.MappingQueries

/-! Epochs in names.  A name carries the microseconds of an epoch, counted through nanoseconds in a
signed 64-bit number, so epochs that wrap to one count share their names. -/

namespace NdnSvs

open Lib Lib.Tlv

namespace Component

/-! ### The arithmetic of time points -/

theorem tdiv_cases (n k : Int) :
    0 ≤ n ∧ n.tdiv k = n / k ∨ n < 0 ∧ n.tdiv k = -(-n / k) := by
  rcases Int.lt_or_le n 0 with hneg | hpos
  · refine .inr ⟨hneg, ?_⟩
    rw [← Int.tdiv_eq_ediv_of_nonneg (by omega), Int.neg_tdiv, Int.neg_neg]
  · exact .inl ⟨hpos, Int.tdiv_eq_ediv_of_nonneg hpos⟩

/-- A number that fits 64 bits is its own value in them. -/
theorem bmod_eq_self {n : Int} (hle : -9223372036854775808 ≤ n) (hlt : n < 9223372036854775808) :
    n.bmod 18446744073709551616 = n := by
  refine Int.bmod_eq_of_le ?_ ?_
  · norm_num
    exact hle
  · norm_num
    exact hlt

theorem bmod_add_wraps (n k : Int) :
    (n + 18446744073709551616 * k).bmod 18446744073709551616 = n.bmod 18446744073709551616 := by
  have h := Int.add_mul_bmod_self_left n 18446744073709551616 k
  rwa [Nat.cast_ofNat] at h

/-- The microseconds that the name of an epoch carries. -/
def microseconds (b : Nat) : Int := (timePointOfSeconds b).tdiv 1000

theorem timePointOfSeconds_bounds (b : Nat) :
    -9223372036854775808 ≤ timePointOfSeconds b ∧
      timePointOfSeconds b < 9223372036854775808 := by
  have hle := @Int.le_bmod ((b : Int) * 1000000000) 18446744073709551616 (by decide)
  have hlt := @Int.bmod_lt ((b : Int) * 1000000000) 18446744073709551616 (by decide)
  norm_num at hle hlt
  exact ⟨hle, hlt⟩

theorem microseconds_bounds (b : Nat) :
    -9223372036854775 ≤ microseconds b ∧ microseconds b ≤ 9223372036854775 := by
  have hbounds := timePointOfSeconds_bounds b
  rcases tdiv_cases (timePointOfSeconds b) 1000 with ⟨hsign, hdiv⟩ | ⟨hsign, hdiv⟩
  · rw [microseconds, hdiv]
    omega
  · rw [microseconds, hdiv]
    omega

theorem fromTimestamp_value (b : Nat) : (fromTimestamp (timePointOfSeconds b)).value =
    nonNegativeInteger (microseconds b % 18446744073709551616).toNat := by
  simp only [fromTimestamp, microseconds]

theorem fromTimestamp_eq_iff (b b' : Nat) :
    fromTimestamp (timePointOfSeconds b) = fromTimestamp (timePointOfSeconds b') ↔
      microseconds b = microseconds b' := by
  have hb := microseconds_bounds b
  have hb' := microseconds_bounds b'
  constructor
  · intro h
    have hvalue := congrArg value h
    rw [fromTimestamp_value, fromTimestamp_value] at hvalue
    have hnumber := nonNegativeInteger_injective (by omega) (by omega) hvalue
    omega
  · intro h
    unfold microseconds at h
    simp only [fromTimestamp, h]

/-- The time point that is read from the name of an epoch: its whole microseconds. -/
theorem toTimestamp_fromTimestamp (b : Nat) :
    (fromTimestamp (timePointOfSeconds b)).toTimestamp = microseconds b * 1000 := by
  have hbounds := microseconds_bounds b
  have hnumber : ((fromTimestamp (timePointOfSeconds b)).number : Int) =
      microseconds b % 18446744073709551616 := by
    rw [number, fromTimestamp_value, readNonNegativeInteger_write (by omega), Option.getD_some]
    omega
  have hwraps : (microseconds b % 18446744073709551616) * 1000 = microseconds b * 1000 +
      18446744073709551616 * (-(microseconds b / 18446744073709551616) * 1000) := by omega
  have hle : -9223372036854775808 ≤ microseconds b * 1000 := by omega
  have hlt : microseconds b * 1000 < 9223372036854775808 := by omega
  unfold toTimestamp
  rw [hnumber, hwraps, bmod_add_wraps, bmod_eq_self hle hlt]

/-- The epochs that come back from a name: those whose nanoseconds are counted without wrapping,
as a number of seconds after 1970 or, for the largest numbers, before it. -/
def Representable (b : Nat) : Prop := b ≤ maxSeconds ∨ 2 ^ 64 - b ≤ maxSeconds

instance (b : Nat) : Decidable (Representable b) := inferInstanceAs (Decidable (_ ∨ _))

theorem secondsOfTimePoint_microseconds {b : Nat} (hb : b < 2 ^ 64) :
    secondsOfTimePoint (microseconds b * 1000) = b ↔ Representable b := by
  have hbounds := microseconds_bounds b
  have hcases := tdiv_cases (microseconds b * 1000) 1000000000
  unfold Representable maxSeconds secondsOfTimePoint
  constructor
  · intro h
    rcases hcases with ⟨hsign, hdiv⟩ | ⟨hsign, hdiv⟩
    · rw [hdiv] at h
      omega
    · rw [hdiv] at h
      omega
  · rintro (hsmall | hlarge)
    · have hmicro : microseconds b = (b : Int) * 1000000 := by
        rw [microseconds, timePointOfSeconds_eq hsmall]
        rcases tdiv_cases ((b : Int) * 1000000000) 1000 with
          ⟨hsign, hdiv⟩ | ⟨hsign, hdiv⟩
        · omega
        · omega
      rcases hcases with ⟨hsign, hdiv⟩ | ⟨hsign, hdiv⟩
      · rw [hdiv]
        omega
      · omega
    · have htime : timePointOfSeconds b =
          ((b : Int) - 18446744073709551616) * 1000000000 := by
        have hwrap : (b : Int) * 1000000000 =
            ((b : Int) - 18446744073709551616) * 1000000000 +
              18446744073709551616 * 1000000000 := by omega
        have hle : -9223372036854775808 ≤
            ((b : Int) - 18446744073709551616) * 1000000000 := by omega
        have hlt : ((b : Int) - 18446744073709551616) * 1000000000 < 9223372036854775808 := by
          omega
        unfold timePointOfSeconds
        rw [hwrap, bmod_add_wraps, bmod_eq_self hle hlt]
      have hmicro : microseconds b = ((b : Int) - 18446744073709551616) * 1000000 := by
        rw [microseconds, htime]
        rcases tdiv_cases (((b : Int) - 18446744073709551616) * 1000000000) 1000 with
          ⟨hsign, hdiv⟩ | ⟨hsign, hdiv⟩
        · omega
        · omega
      rcases hcases with ⟨hsign, hdiv⟩ | ⟨hsign, hdiv⟩
      · omega
      · rw [hdiv]
        omega

/-- Epochs that come back from names have names of their own. -/
theorem Representable.microseconds_injective {b b' : Nat} (hb : b < 2 ^ 64) (hb' : b' < 2 ^ 64)
    (h : Representable b) (h' : Representable b') (hsame : microseconds b = microseconds b') :
    b = b' := by
  rw [← (secondsOfTimePoint_microseconds hb).mpr h, hsame,
    (secondsOfTimePoint_microseconds hb').mpr h']

end Component

open Component (microseconds Representable)

/-! ### Keys and names -/

variable {nid nid' : NodeID} {b b' : BootstrapTime} {s s' : SeqNo}

theorem makeMappingKey_eq_iff (hs : s < 2 ^ 64) (hs' : s' < 2 ^ 64) :
    makeMappingKey nid b s = makeMappingKey nid' b' s' ↔
      nid = nid' ∧ s = s' ∧ microseconds b = microseconds b' := by
  constructor
  · intro h
    obtain ⟨hnid, hrest⟩ := List.append_inj' h (by simp)
    obtain ⟨hepoch, hrest⟩ := List.cons.inj hrest
    obtain ⟨hseq, -⟩ := List.cons.inj hrest
    exact ⟨hnid, Component.fromSequenceNumber_injective hs hs' hseq,
      (Component.fromTimestamp_eq_iff b b').mp hepoch⟩
  · rintro ⟨rfl, rfl, hepoch⟩
    rw [makeMappingKey, makeMappingKey, (Component.fromTimestamp_eq_iff b b').mpr hepoch]

theorem makeDataName_eq_iff {cfg : PubSubConfig} (hv : cfg.core.version = .v3) (hs : s < 2 ^ 64)
    (hs' : s' < 2 ^ 64) :
    makeDataName cfg nid b s = makeDataName cfg nid' b' s' ↔
      nid = nid' ∧ s = s' ∧ microseconds b = microseconds b' := by
  simp only [makeDataName, hv]
  constructor
  · intro h
    obtain ⟨hfront, hseq⟩ := List.append_inj' h (by simp)
    obtain ⟨hfront, hepoch⟩ := List.append_inj' hfront (by simp)
    obtain ⟨hnid, -⟩ := List.append_inj' hfront (by simp)
    exact ⟨hnid, Component.fromSequenceNumber_injective hs hs' (List.cons.inj hseq).1,
      (Component.fromTimestamp_eq_iff b b').mp (List.cons.inj hepoch).1⟩
  · rintro ⟨rfl, rfl, hepoch⟩
    rw [(Component.fromTimestamp_eq_iff b b').mpr hepoch]

/-! ### Queries -/

/-- The version carries the epoch through the name of a query. -/
def SvsProtocolVersion.Carries (version : SvsProtocolVersion) (b : BootstrapTime) : Prop :=
  match version with
  | .v2 => b = 0
  | .v3 => Representable b

theorem isSequenceNumber_fromSequenceNumber {n : Nat} (h : n < 2 ^ 64) :
    (Component.fromSequenceNumber n).isSequenceNumber = true ∧
      (Component.fromSequenceNumber n).number = n := by
  have hread := readNonNegativeInteger_write h
  constructor
  · rw [Component.isSequenceNumber, Component.isNumber, Component.fromSequenceNumber, hread]
    rfl
  · rw [Component.number, Component.fromSequenceNumber, hread]
    rfl

theorem isTimestamp_fromTimestamp (b : Nat) :
    (Component.fromTimestamp (Component.timePointOfSeconds b)).isTimestamp = true := by
  have hbounds := Component.microseconds_bounds b
  have htype : (Component.fromTimestamp (Component.timePointOfSeconds b)).type =
      tlv.timestampNameComponent := rfl
  rw [Component.isTimestamp, htype, Component.fromTimestamp_value,
    readNonNegativeInteger_write (by omega)]
  rfl

namespace MappingProvider

variable {provider : MappingProvider} {info : MissingDataInfo}

/-- What a provider reads from the name of a query for its own node. -/
theorem parse_getMappingQueryDataName (hid : info.nodeId = provider.id) (hlow : info.low < 2 ^ 64)
    (hhigh : info.high < 2 ^ 64) :
    provider.parseMappingQueryDataName (provider.getMappingQueryDataName info) = .ok
      { nodeId := provider.id, low := info.low, high := info.high
        bootstrapTime := match provider.protocolVersion with
          | .v2 => 0
          | .v3 => Component.secondsOfTimePoint (microseconds info.bootstrapTime * 1000) } := by
  unfold parseMappingQueryDataName getMappingQueryDataName
  rw [hid]
  cases provider.protocolVersion with
  | v2 =>
    have hname : ∀ marker low high : Component, Name.dropLast
        (provider.id ++ provider.syncPrefix ++ [marker, low, high])
        (3 + provider.syncPrefix.length) = provider.id := by
      intro marker low high
      have hlength : (provider.id ++ provider.syncPrefix ++ [marker, low, high]).length -
          (3 + provider.syncPrefix.length) = provider.id.length := by
        simp only [List.length_append, List.length_cons, List.length_nil]
        omega
      rw [Name.dropLast, hlength, List.append_assoc, List.take_left]
    simp only [List.drop_left, List.take_left, isNumber_fromNumber hlow,
      isNumber_fromNumber hhigh, and_self, require_true, ok_bind, hname]
  | v3 =>
    have hname : ∀ epoch marker low high : Component, Name.dropLast
        (provider.id ++ provider.syncPrefix ++ [epoch, marker, low, high])
        (4 + provider.syncPrefix.length) = provider.id := by
      intro epoch marker low high
      have hlength : (provider.id ++ provider.syncPrefix ++ [epoch, marker, low, high]).length -
          (4 + provider.syncPrefix.length) = provider.id.length := by
        simp only [List.length_append, List.length_cons, List.length_nil]
        omega
      rw [Name.dropLast, hlength, List.append_assoc, List.take_left]
    simp only [List.drop_left, List.take_left, isSequenceNumber_fromSequenceNumber hlow,
      isSequenceNumber_fromSequenceNumber hhigh, isTimestamp_fromTimestamp, and_self, require_true,
      ok_bind, hname, Component.toTimestamp_fromTimestamp]

/-- A query keeps its epoch and its bounds when the version carries the epoch. -/
theorem query_kept_iff (hid : info.nodeId = provider.id) (hlow : info.low < 2 ^ 64)
    (hhigh : info.high < 2 ^ 64) (hepoch : info.bootstrapTime < 2 ^ 64) :
    (∃ query, provider.parseMappingQueryDataName (provider.getMappingQueryDataName info) =
        .ok query ∧ query.bootstrapTime = info.bootstrapTime ∧ query.low = info.low ∧
        query.high = info.high) ↔
      provider.protocolVersion.Carries info.bootstrapTime := by
  have hseconds := Component.secondsOfTimePoint_microseconds hepoch
  rw [parse_getMappingQueryDataName hid hlow hhigh]
  simp only [Except.ok.injEq, exists_eq_left', and_true]
  cases provider.protocolVersion with
  | v2 => exact eq_comm
  | v3 => exact hseconds

end MappingProvider

/-- The numbers of a publication are of 64 bits. -/
structure VersionVector.Entry.Wide (e : VersionVector.Entry) : Prop where
  bootstrapTime : e.bootstrapTime < 2 ^ 64
  seqNo : e.seqNo < 2 ^ 64

/-- Two publications have a mapping key and a data name of their own exactly when they differ in the
node, the number or the microseconds of their epochs; a query of a provider's own node comes back as
it was exactly when the version carries its epoch. -/
theorem epochs_separate_iff {cfg : PubSubConfig} (hv : cfg.core.version = .v3)
    {e e' : VersionVector.Entry} (he : e.Wide) (he' : e'.Wide) :
    ((makeMappingKey e.nid e.bootstrapTime e.seqNo ≠
          makeMappingKey e'.nid e'.bootstrapTime e'.seqNo ∧
        makeDataName cfg e.nid e.bootstrapTime e.seqNo ≠
          makeDataName cfg e'.nid e'.bootstrapTime e'.seqNo) ↔
      ¬(e.nid = e'.nid ∧ e.seqNo = e'.seqNo ∧
        microseconds e.bootstrapTime = microseconds e'.bootstrapTime)) ∧
    ∀ (provider : MappingProvider) (info : MissingDataInfo), info.nodeId = provider.id →
      info.low < 2 ^ 64 → info.high < 2 ^ 64 → info.bootstrapTime < 2 ^ 64 →
      ((∃ query, provider.parseMappingQueryDataName (provider.getMappingQueryDataName info) =
          .ok query ∧ query.bootstrapTime = info.bootstrapTime ∧ query.low = info.low ∧
          query.high = info.high) ↔
        provider.protocolVersion.Carries info.bootstrapTime) := by
  refine ⟨?_, fun provider info => MappingProvider.query_kept_iff⟩
  rw [Ne, Ne, makeMappingKey_eq_iff he.seqNo he'.seqNo, makeDataName_eq_iff hv he.seqNo he'.seqNo,
    and_self]

theorem epochs_separate_iff_two :
    let e : VersionVector.Entry := ⟨Name.ofStrings ["n"], 100, 1⟩
    let e' : VersionVector.Entry := ⟨Name.ofStrings ["n"], 200, 1⟩
    ((makeMappingKey e.nid e.bootstrapTime e.seqNo ≠
          makeMappingKey e'.nid e'.bootstrapTime e'.seqNo ∧
        makeDataName sampleConfig e.nid e.bootstrapTime e.seqNo ≠
          makeDataName sampleConfig e'.nid e'.bootstrapTime e'.seqNo) ↔
      ¬(e.nid = e'.nid ∧ e.seqNo = e'.seqNo ∧
        microseconds e.bootstrapTime = microseconds e'.bootstrapTime)) ∧
    ∀ (provider : MappingProvider) (info : MissingDataInfo), info.nodeId = provider.id →
      info.low < 2 ^ 64 → info.high < 2 ^ 64 → info.bootstrapTime < 2 ^ 64 →
      ((∃ query, provider.parseMappingQueryDataName (provider.getMappingQueryDataName info) =
          .ok query ∧ query.bootstrapTime = info.bootstrapTime ∧ query.low = info.low ∧
          query.high = info.high) ↔
        provider.protocolVersion.Carries info.bootstrapTime) :=
  epochs_separate_iff (by decide) ⟨by decide, by decide⟩ ⟨by decide, by decide⟩

/-- Two epochs of one node, 2^55 seconds apart. -/
def distantEpochs : MappingList where
  nodeId := Name.ofStrings ["n"]
  pairs := [{ bootstrapTime := 100, seqNo := 1, mapping := { name := Name.ofStrings ["old"] } },
    { bootstrapTime := 100 + 2 ^ 55, seqNo := 1, mapping := { name := Name.ofStrings ["new"] } }]

/-- A mapping list that is read from the wire has two entries of different epochs with one key and
one data name, and a query for the later epoch is read as one for the earlier. -/
theorem distant_epochs_collide :
    let info : MissingDataInfo :=
      { nodeId := Name.ofStrings ["n"], low := 1, high := 1, bootstrapTime := 100 + 2 ^ 55 }
    let provider : MappingProvider :=
      { syncPrefix := Name.ofStrings ["g"], id := Name.ofStrings ["n"] }
    (MappingList.decodeFor .v3 (distantEpochs.encodeFor .v3)).toOption.map
        (·.pairs.map MappingEntry.bootstrapTime) = some [100 + 2 ^ 55, 100] ∧
      makeMappingKey (Name.ofStrings ["n"]) 100 1 =
        makeMappingKey (Name.ofStrings ["n"]) (100 + 2 ^ 55) 1 ∧
      makeDataName sampleConfig (Name.ofStrings ["n"]) 100 1 =
        makeDataName sampleConfig (Name.ofStrings ["n"]) (100 + 2 ^ 55) 1 ∧
      (provider.parseMappingQueryDataName (provider.getMappingQueryDataName info)).toOption.map
        (·.bootstrapTime) = some 100 := by
  decide +kernel

end NdnSvs
