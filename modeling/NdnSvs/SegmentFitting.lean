import NdnSvs.Lib.Greedy
import NdnSvs.Segmentation

/-! The search for a final block that agrees with the number of packets.  A pass cuts the payload
greedily with a guess of the final block, and the next pass takes the number that came out.  When no
packet gets smaller with a wider number or a longer content, a wider guess never gives fewer
packets, so the guesses rise until their width stays. -/

namespace NdnSvs

open Lib Lib.Tlv

/-- The number of bytes of a number in a name component. -/
def numberWidth (n : Nat) : Nat := (nonNegativeInteger n).length

/-- Packets of segments of one object, with a segment number and a final block that are no wider in
the first, and a content that is no longer. -/
structure NoLarger (d d' : Data) : Prop where
  contentType : d.contentType = d'.contentType
  freshnessPeriod : d.freshnessPeriod = d'.freshnessPeriod
  name : ∃ (object : Name) (i j : Nat), d.name = object.appendSegment i ∧
    d'.name = object.appendSegment j ∧ numberWidth i ≤ numberWidth j
  finalBlock : ∃ m n : Nat, d.finalBlock = some (.fromSegment m) ∧
    d'.finalBlock = some (.fromSegment n) ∧ numberWidth m ≤ numberWidth n
  content : d.content.length ≤ d'.content.length

/-- A signer that does not throw, and whose packets have wire sizes that depend on the name, the
widths of the segment number and of the final block, and the length of the content, and decrease in
none of them. -/
structure SizesGrow (cxx : NdnCxx) (env : CoreInputs) : Prop where
  signs : ∀ d, (env.signData d).isSome
  size_le : ∀ (d d' : Data) (signature signature' : Bytes), NoLarger d d' →
    env.signData d = some signature → env.signData d' = some signature' →
    (cxx.dataWire { d with signatureValue := some signature }).size ≤
      (cxx.dataWire { d' with signatureValue := some signature' }).size

section Fitting

variable {cfg : PubSubConfig} {env : CoreInputs} {publication : AsyncPublication} {value : Bytes}

/-- A segment with so many bytes of the payload, from some offset on, fits a packet. -/
def SegmentFits (cfg : PubSubConfig) (env : CoreInputs) (publication : AsyncPublication)
    (value : Bytes) (finalSegment segmentNo size : Nat) : Prop :=
  ∃ offset packet, offset + size ≤ value.length ∧ prepareOuterSegment cfg env publication value
    segmentNo (.fromSegment finalSegment) offset size = .ok packet ∧
    (cfg.core.cxx.dataWire packet).size ≤ maxNdnPacketSize

/-- The packet of a segment of one byte is too large. -/
def CannotFit (cfg : PubSubConfig) (env : CoreInputs) (publication : AsyncPublication)
    (value : Bytes) : Prop :=
  ∃ finalSegment segmentNo offset packet, offset < value.length ∧
    prepareOuterSegment cfg env publication value segmentNo (.fromSegment finalSegment) offset 1 =
      .ok packet ∧ maxNdnPacketSize < (cfg.core.cxx.dataWire packet).size

theorem signData_of_signs (h : SizesGrow cfg.core.cxx env) (d : Data) :
    ∃ signature, env.signData d = some signature ∧
      signData env d = .ok { d with signatureValue := some signature } := by
  obtain ⟨signature, hsignature⟩ := Option.isSome_iff_exists.mp (h.signs d)
  exact ⟨signature, hsignature, by rw [signData, hsignature]⟩

/-- The inner and the outer packet of a segment before they are signed. -/
def innerData (publication : AsyncPublication) (value : Bytes)
    (finalSegment segmentNo offset size : Nat) : Data where
  name := (publication.name.appendVersion 0).appendSegment segmentNo
  freshnessPeriod := publication.freshnessPeriod.toNat
  finalBlock := some (.fromSegment finalSegment)
  content := (value.drop offset).take size

def outerData (cfg : PubSubConfig) (publication : AsyncPublication) (finalSegment segmentNo : Nat)
    (inner : Data) : Data where
  name := ((publication.dataName cfg).appendVersion 0).appendSegment segmentNo
  contentType := tlv.data
  freshnessPeriod := publication.freshnessPeriod.toNat
  finalBlock := some (.fromSegment finalSegment)
  content := (cfg.core.cxx.dataWire inner).wire

/-- The packet of a segment is signed twice, as an inner packet and around it. -/
theorem prepareOuterSegment_signed (h : SizesGrow cfg.core.cxx env)
    (hperiod : 0 ≤ publication.freshnessPeriod) (finalSegment segmentNo offset size : Nat) :
    ∃ s s', env.signData (innerData publication value finalSegment segmentNo offset size) = some s ∧
      env.signData (outerData cfg publication finalSegment segmentNo
        { innerData publication value finalSegment segmentNo offset size with
          signatureValue := some s }) = some s' ∧
      prepareOuterSegment cfg env publication value segmentNo (.fromSegment finalSegment) offset
        size = .ok { outerData cfg publication finalSegment segmentNo
          { innerData publication value finalSegment segmentNo offset size with
            signatureValue := some s } with signatureValue := some s' } := by
  obtain ⟨s, hs, hinner⟩ := signData_of_signs h
    (innerData publication value finalSegment segmentNo offset size)
  obtain ⟨s', hs', houter⟩ := signData_of_signs h (outerData cfg publication finalSegment segmentNo
    { innerData publication value finalSegment segmentNo offset size with
      signatureValue := some s })
  refine ⟨s, s', hs, hs', ?_⟩
  unfold innerData at hinner
  unfold outerData innerData at houter
  simp only [prepareOuterSegment, setFreshnessPeriod, require_of _ hperiod, ok_bind, hinner,
    encapsulate, Data.wireEncode, Option.isSome_some, if_pos, houter]
  rfl

/-- A wider final block, a wider segment number or more bytes give no smaller packet. -/
theorem prepareOuterSegment_size_le (h : SizesGrow cfg.core.cxx env)
    (hperiod : 0 ≤ publication.freshnessPeriod)
    {finalSegment finalSegment' segmentNo offset offset' size size' : Nat} {packet packet' : Data}
    (hfinal : numberWidth finalSegment ≤ numberWidth finalSegment') (hsize : size ≤ size')
    (hroom' : offset' + size' ≤ value.length)
    (hpacket : prepareOuterSegment cfg env publication value segmentNo (.fromSegment finalSegment)
      offset size = .ok packet)
    (hpacket' : prepareOuterSegment cfg env publication value segmentNo
      (.fromSegment finalSegment') offset' size' = .ok packet') :
    (cfg.core.cxx.dataWire packet).size ≤ (cfg.core.cxx.dataWire packet').size := by
  obtain ⟨s, t, hs, ht, hok⟩ := @prepareOuterSegment_signed cfg env publication value h hperiod
    finalSegment segmentNo offset size
  obtain ⟨s', t', hs', ht', hok'⟩ := @prepareOuterSegment_signed cfg env publication value h hperiod
    finalSegment' segmentNo offset' size'
  obtain rfl := Except.ok.inj (hok.symm.trans hpacket)
  obtain rfl := Except.ok.inj (hok'.symm.trans hpacket')
  have hinner : NoLarger (innerData publication value finalSegment segmentNo offset size)
      (innerData publication value finalSegment' segmentNo offset' size') := by
    refine ⟨rfl, rfl, ⟨_, _, _, rfl, rfl, le_rfl⟩, ⟨_, _, rfl, rfl, hfinal⟩, ?_⟩
    simp only [innerData, List.length_take, List.length_drop]
    omega
  have houter : NoLarger (outerData cfg publication finalSegment segmentNo
        { innerData publication value finalSegment segmentNo offset size with
          signatureValue := some s })
      (outerData cfg publication finalSegment' segmentNo
        { innerData publication value finalSegment' segmentNo offset' size' with
          signatureValue := some s' }) :=
    ⟨rfl, rfl, ⟨_, _, _, rfl, rfl, le_rfl⟩, ⟨_, _, rfl, rfl, hfinal⟩,
      h.size_le _ _ s s' hinner hs hs'⟩
  exact h.size_le _ _ t t' houter ht ht'

/-- Whether a segment fits does not depend on where it begins. -/
theorem segmentFits_iff (h : SizesGrow cfg.core.cxx env)
    (hperiod : 0 ≤ publication.freshnessPeriod) {finalSegment segmentNo offset size : Nat}
    {packet : Data} (hroom : offset + size ≤ value.length)
    (hpacket : prepareOuterSegment cfg env publication value segmentNo (.fromSegment finalSegment)
      offset size = .ok packet) :
    SegmentFits cfg env publication value finalSegment segmentNo size ↔
      (cfg.core.cxx.dataWire packet).size ≤ maxNdnPacketSize := by
  constructor
  · rintro ⟨offset', packet', hroom', hpacket', hle⟩
    exact (prepareOuterSegment_size_le h hperiod le_rfl le_rfl hroom' hpacket hpacket').trans hle
  · exact fun hle => ⟨offset, packet, hroom, hpacket, hle⟩

/-- A segment that fits still fits with fewer bytes and with a final block that is no wider. -/
theorem SegmentFits.mono (h : SizesGrow cfg.core.cxx env)
    (hperiod : 0 ≤ publication.freshnessPeriod) {finalSegment finalSegment' segmentNo size size' :
      Nat} (hfinal : numberWidth finalSegment ≤ numberWidth finalSegment') (hsize : size ≤ size')
    (hfits : SegmentFits cfg env publication value finalSegment' segmentNo size') :
    SegmentFits cfg env publication value finalSegment segmentNo size := by
  obtain ⟨offset, packet', hroom, hpacket', hle⟩ := hfits
  obtain ⟨s, t, -, -, hpacket⟩ := @prepareOuterSegment_signed cfg env publication value h hperiod
    finalSegment segmentNo offset size
  have hsmaller := prepareOuterSegment_size_le h hperiod hfinal hsize hroom hpacket hpacket'
  exact ⟨offset, _, by omega, hpacket, hsmaller.trans hle⟩

/-- A signed packet that is small enough. -/
def Sendable (cfg : PubSubConfig) (d : Data) : Prop :=
  d.signatureValue.isSome ∧ (cfg.core.cxx.dataWire d).size ≤ maxNdnPacketSize

theorem Sendable.check {d : Data} (h : Sendable cfg d) (what : String) :
    checkFinalPacketSize cfg what d = .ok () := by
  have hallowed : isFinalPacketSizeAllowed (cfg.core.cxx.dataWire d).size = true :=
    decide_eq_true h.2
  rw [checkFinalPacketSize, Data.wireEncode, if_pos h.1, ok_bind]
  exact require_of _ hallowed

/-- What a search up to a number of bytes finds. -/
def Found (cfg : PubSubConfig) (env : CoreInputs) (publication : AsyncPublication) (value : Bytes)
    (finalSegment segmentNo upper : Nat) : Option (Nat × Data) → Prop
  | none => ∀ s ≤ upper, 0 < s → ¬SegmentFits cfg env publication value finalSegment segmentNo s
  | some found =>
    Largest (SegmentFits cfg env publication value finalSegment segmentNo) upper found.1 ∧
      Sendable cfg found.2

/-- The state of the search: what is below `low` has been found, what is above `high` is too
large. -/
structure Searching (cfg : PubSubConfig) (env : CoreInputs) (publication : AsyncPublication)
    (value : Bytes) (finalSegment segmentNo upper low high : Nat) (best : Option (Nat × Data)) :
    Prop where
  low_pos : 0 < low
  high_le : high ≤ upper
  below : (low = 1 ∧ best = none) ∨ ∃ found, best = some found ∧ low = found.1 + 1 ∧
    0 < found.1 ∧ found.1 ≤ upper ∧
    SegmentFits cfg env publication value finalSegment segmentNo found.1 ∧ Sendable cfg found.2
  above : ∀ s ≤ upper, high < s → ¬SegmentFits cfg env publication value finalSegment segmentNo s

section Search

variable {finalSegment segmentNo upper low high : Nat} {best : Option (Nat × Data)}

theorem Searching.ends
    (h : Searching cfg env publication value finalSegment segmentNo upper low high best)
    (hlt : high < low) : Found cfg env publication value finalSegment segmentNo upper best := by
  rcases h.below with ⟨rfl, rfl⟩ | ⟨found, rfl, rfl, hpos, hle, hfits, hsend⟩
  · exact fun s hs hpos => h.above s hs (by omega)
  · refine ⟨⟨hpos, hle, hfits, fun s hs hfit => ?_⟩, hsend⟩
    by_contra hgreater
    exact h.above s hs (by omega) hfit

/-- A candidate that fits is the best so far. -/
theorem Searching.takes
    (h : Searching cfg env publication value finalSegment segmentNo upper low high best)
    {candidate : Nat} {packet : Data} (hlow : low ≤ candidate) (hhigh : candidate ≤ high)
    (hfits : SegmentFits cfg env publication value finalSegment segmentNo candidate)
    (hsend : Sendable cfg packet) :
    Searching cfg env publication value finalSegment segmentNo upper (candidate + 1) high
      (some (candidate, packet)) := by
  have hpos := h.low_pos
  refine ⟨Nat.succ_pos _, h.high_le, .inr ⟨_, rfl, rfl, ?_, hhigh.trans h.high_le, hfits,
    hsend⟩, h.above⟩
  exact hpos.trans_le hlow

/-- A candidate that does not fit is above all that do. -/
theorem Searching.drops (hsizes : SizesGrow cfg.core.cxx env)
    (hperiod : 0 ≤ publication.freshnessPeriod)
    (h : Searching cfg env publication value finalSegment segmentNo upper low high best)
    {candidate : Nat} (hhigh : candidate ≤ high)
    (hfits : ¬SegmentFits cfg env publication value finalSegment segmentNo candidate) :
    Searching cfg env publication value finalSegment segmentNo upper low (candidate - 1) best := by
  have hle := h.high_le
  refine ⟨h.low_pos, by omega, h.below, fun s hs hgreater hfit => hfits ?_⟩
  exact hfit.mono hsizes hperiod le_rfl (by omega)

/-- The search ends with the largest segment that fits, if there is one. -/
theorem fitSegment_found (hsizes : SizesGrow cfg.core.cxx env)
    (hperiod : 0 ≤ publication.freshnessPeriod) {offset fuel : Nat}
    (hroom : offset + upper ≤ value.length) (hfuel : high + 1 ≤ low + fuel)
    (h : Searching cfg env publication value finalSegment segmentNo upper low high best) :
    ∃ result, fitSegment cfg env publication value segmentNo (.fromSegment finalSegment) offset fuel
        low high best = .ok result ∧
      Found cfg env publication value finalSegment segmentNo upper result := by
  induction fuel generalizing low high best with
  | zero => exact ⟨best, rfl, h.ends (by omega)⟩
  | succ fuel ih =>
    rw [fitSegment]
    split
    · rename_i hlt
      exact ⟨best, rfl, h.ends hlt⟩
    · rename_i hle
      have hlow := h.low_pos
      have hhigh := h.high_le
      obtain ⟨s, t, -, -, hpacket⟩ := @prepareOuterSegment_signed cfg env publication value hsizes
        hperiod finalSegment segmentNo offset (low + (high - low) / 2)
      have hfits := segmentFits_iff hsizes hperiod (by omega) hpacket
      simp only [hpacket, ok_bind, Data.wireEncode, Option.isSome_some, if_pos]
      split
      · rename_i hallowed
        have hle := of_decide_eq_true hallowed
        exact ih (by omega) (h.takes (by omega) (by omega) (hfits.mpr hle) ⟨rfl, hle⟩)
      · rename_i hlarge
        refine ih (by omega) (h.drops hsizes hperiod (by omega) fun hfit => hlarge ?_)
        exact decide_eq_true (hfits.mp hfit)

end Search

/-- The cut ends with the packets of a greedy cut, or a segment of one byte does not fit. -/
theorem fitSegments_greedy (hsizes : SizesGrow cfg.core.cxx env)
    (hperiod : 0 ≤ publication.freshnessPeriod) {finalSegment fuel offset : Nat}
    {packets : List Data} (hfuel : value.length ≤ offset + fuel) :
    (∃ result count, fitSegments cfg env publication value (.fromSegment finalSegment) fuel offset
        packets = .ok result ∧ result.length = packets.length + count ∧
      (∀ d ∈ result, d ∈ packets ∨ Sendable cfg d) ∧
      Greedy (SegmentFits cfg env publication value finalSegment) maxDataSize value.length offset
        packets.length count) ∨
    fitSegments cfg env publication value (.fromSegment finalSegment) fuel offset packets =
        .error (.lengthError "signed SVS segment cannot fit MAX_NDN_PACKET_SIZE") ∧
      CannotFit cfg env publication value := by
  induction fuel generalizing offset packets with
  | zero => exact .inl ⟨packets, 0, rfl, rfl, fun d => .inl, .done _ _ (by omega)⟩
  | succ fuel ih =>
    rw [fitSegments]
    split
    · rename_i hdone
      exact .inl ⟨packets, 0, rfl, rfl, fun d => .inl, .done _ _ hdone⟩
    · rename_i hmore
      have hsearching : Searching cfg env publication value finalSegment packets.length
          (min maxDataSize (value.length - offset)) 1 (min maxDataSize (value.length - offset))
          none :=
        ⟨Nat.one_pos, le_rfl, .inl ⟨rfl, rfl⟩, fun s hs hgreater => absurd hs (by omega)⟩
      have hroom : offset + min maxDataSize (value.length - offset) ≤ value.length := by omega
      obtain ⟨result, hsearch, hfound⟩ :=
        @fitSegment_found _ _ _ _ _ _ _ _ _ _ hsizes hperiod offset
          (min maxDataSize (value.length - offset)) hroom (by omega) hsearching
      simp only [hsearch, ok_bind]
      have hone : 1 ≤ min maxDataSize (value.length - offset) := by
        have : 0 < maxDataSize := by decide
        omega
      cases result with
      | none =>
        refine .inr ⟨rfl, ?_⟩
        obtain ⟨s, t, -, -, hpacket⟩ := @prepareOuterSegment_signed cfg env publication value hsizes
          hperiod finalSegment packets.length offset 1
        refine ⟨finalSegment, packets.length, offset, _, by omega, hpacket, ?_⟩
        have hnot := hfound 1 hone Nat.one_pos
        rw [segmentFits_iff hsizes hperiod (by omega) hpacket] at hnot
        exact Nat.lt_of_not_le hnot
      | some found =>
        obtain ⟨best, packet⟩ := found
        obtain ⟨hlargest, hsend⟩ := hfound
        have hpos := hlargest.pos
        rcases @ih (offset + best) (packets ++ [packet]) (by dsimp only at hpos; omega) with
          ⟨result, count, hok, hlength, hsends, hgreedy⟩ | herror
        · rw [List.length_append, List.length_singleton] at hlength hgreedy
          refine .inl ⟨result, count + 1, hok, by omega, fun d hd => ?_,
            .piece offset _ best count (by omega) hlargest hgreedy⟩
          rcases hsends d hd with hd | hd
          · rcases List.mem_append.mp hd with hd | hd
            · exact .inl hd
            · obtain rfl := List.mem_singleton.mp hd
              exact .inr hsend
          · exact .inr hd
        · exact .inr herror

/-- A pass with a guess of the final block ends with the packets of a greedy cut, or throws. -/
theorem fitSegments_pass (hsizes : SizesGrow cfg.core.cxx env)
    (hperiod : 0 ≤ publication.freshnessPeriod) (finalSegment : Nat) :
    (∃ packets, fitSegments cfg env publication value (.fromSegment finalSegment) value.length 0 [] =
        .ok packets ∧ (∀ d ∈ packets, Sendable cfg d) ∧
      Greedy (SegmentFits cfg env publication value finalSegment) maxDataSize value.length 0 0
        packets.length) ∨
    fitSegments cfg env publication value (.fromSegment finalSegment) value.length 0 [] =
        .error (.lengthError "signed SVS segment cannot fit MAX_NDN_PACKET_SIZE") ∧
      CannotFit cfg env publication value := by
  rcases @fitSegments_greedy cfg env publication value hsizes hperiod finalSegment value.length 0 []
    (by omega) with ⟨packets, count, hok, hlength, hsends, hgreedy⟩ | herror
  · rw [List.length_nil, Nat.zero_add] at hlength
    exact .inl ⟨packets, hok, fun d hd => (hsends d hd).resolve_left List.not_mem_nil,
      hlength ▸ hgreedy⟩
  · exact .inr herror

/-- A pass whose guess came out of a pass with a guess of the same width ends the search. -/
theorem fitFinalBlock_same (hsizes : SizesGrow cfg.core.cxx env)
    (hperiod : 0 ≤ publication.freshnessPeriod) {passes guess count : Nat}
    (hsame : numberWidth (count - 1) = numberWidth guess)
    (hgreedy : Greedy (SegmentFits cfg env publication value guess) maxDataSize value.length 0 0
      count) :
    (∃ packets final, fitFinalBlock cfg env publication value (passes + 1) (count - 1) =
        .ok packets ∧
      Greedy (SegmentFits cfg env publication value final) maxDataSize value.length 0 0
        packets.length) ∨
    fitFinalBlock cfg env publication value (passes + 1) (count - 1) =
        .error (.lengthError "signed SVS segment cannot fit MAX_NDN_PACKET_SIZE") ∧
      CannotFit cfg env publication value := by
  rw [fitFinalBlock]
  rcases @fitSegments_pass cfg env publication value hsizes hperiod (count - 1) with
    ⟨packets, hok, hsends, hagain⟩ | ⟨herror, hcannot⟩
  · have hcount : count = packets.length := by
      refine Greedy.count_eq (fun i s => ⟨fun hfits => ?_, fun hfits => ?_⟩)
        (fun i s s' hs hfits => hfits.mono hsizes hperiod le_rfl hs) hgreedy hagain
      · exact hfits.mono hsizes hperiod hsame.le le_rfl
      · exact hfits.mono hsizes hperiod hsame.ge le_rfl
    have hchecks : packets.forM (checkFinalPacketSize cfg
        "final signed SVS segment exceeds packet limit") = .ok () :=
      forM_eq_ok.mpr fun d hd => (hsends d hd).check _
    rw [hok, ok_bind, if_pos (by rw [hcount]), hchecks]
    exact .inl ⟨packets, _, rfl, hagain⟩
  · rw [herror]
    exact .inr ⟨rfl, hcannot⟩

/-- The guesses rise as long as they get wider, which they do at most seven times. -/
theorem fitFinalBlock_converges (hsizes : SizesGrow cfg.core.cxx env)
    (hperiod : 0 ≤ publication.freshnessPeriod) {passes guess : Nat}
    (hpasses : 10 ≤ numberWidth guess + passes)
    (hguess : ∀ count, Greedy (SegmentFits cfg env publication value guess) maxDataSize value.length
      0 0 count → guess ≤ count - 1) :
    (∃ packets final, fitFinalBlock cfg env publication value passes guess = .ok packets ∧
      Greedy (SegmentFits cfg env publication value final) maxDataSize value.length 0 0
        packets.length) ∨
    fitFinalBlock cfg env publication value passes guess =
        .error (.lengthError "signed SVS segment cannot fit MAX_NDN_PACKET_SIZE") ∧
      CannotFit cfg env publication value := by
  have hnarrow : ∀ n, numberWidth n ≤ 8 := nonNegativeInteger_length_le
  induction passes generalizing guess with
  | zero =>
    have := hnarrow guess
    omega
  | succ passes ih =>
    rw [fitFinalBlock]
    rcases @fitSegments_pass cfg env publication value hsizes hperiod guess with
      ⟨packets, hok, hsends, hgreedy⟩ | ⟨herror, hcannot⟩
    · rw [hok, ok_bind]
      split
      · have hchecks : packets.forM (checkFinalPacketSize cfg
            "final signed SVS segment exceeds packet limit") = .ok () :=
          forM_eq_ok.mpr fun d hd => (hsends d hd).check _
        rw [hchecks]
        exact .inl ⟨packets, _, rfl, hgreedy⟩
      · have hwidth : numberWidth guess ≤ numberWidth (packets.length - 1) :=
          nonNegativeInteger_length_mono (hguess packets.length hgreedy)
        by_cases hsame : numberWidth (packets.length - 1) = numberWidth guess
        · have := hnarrow guess
          obtain ⟨k, rfl⟩ : ∃ k, passes = k + 1 := ⟨passes - 1, by omega⟩
          exact fitFinalBlock_same hsizes hperiod hsame hgreedy
        · refine ih (by omega) fun count hcount => ?_
          have := hgreedy.count_le (fun i s hfits => hfits.mono hsizes hperiod hwidth le_rfl)
            (fun i s s' hs hfits => hfits.mono hsizes hperiod le_rfl hs) hcount le_rfl
          omega
    · rw [herror]
      exact .inr ⟨rfl, hcannot⟩

/-- Without a freshness period the first packet throws. -/
theorem fitFinalBlock_of_negative (hvalue : value ≠ [])
    (hperiod : ¬0 ≤ publication.freshnessPeriod) (passes guess : Nat) :
    fitFinalBlock cfg env publication value (passes + 1) guess =
      .error (.invalidArgument "FreshnessPeriod must be >= 0") := by
  obtain ⟨n, hn⟩ := Nat.exists_eq_succ_of_ne_zero (mt List.eq_nil_of_length_eq_zero hvalue)
  have hpos : 0 < maxDataSize := by decide
  obtain ⟨m, hm⟩ : ∃ m, min maxDataSize (n + 1 - 0) = m + 1 :=
    ⟨min maxDataSize (n + 1) - 1, by omega⟩
  rw [fitFinalBlock, hn, fitSegments, if_neg (by omega), hn]
  simp only [hm, fitSegment, prepareOuterSegment, setFreshnessPeriod, require, if_neg hperiod]
  rw [if_neg (by omega)]
  rfl

/-- The search for the final block ends within its passes: with the packets, of which there is one
at least, or since a segment of one byte does not fit. -/
theorem final_block_converges {value : Span} (hvalue : value.val ≠ [])
    (hsizes : SizesGrow cfg.core.cxx env) :
    prepareSegmentedPackets cfg env publication value.val ≠
      .error (.runtime "segmented FinalBlock fitting did not converge") ∧
    (0 ≤ publication.freshnessPeriod →
      (∃ packets, prepareSegmentedPackets cfg env publication value.val = .ok packets ∧
        packets ≠ []) ∨
      prepareSegmentedPackets cfg env publication value.val =
          .error (.lengthError "signed SVS segment cannot fit MAX_NDN_PACKET_SIZE") ∧
        CannotFit cfg env publication value.val) := by
  rw [prepareSegmentedPackets, require_of _ hvalue, ok_bind]
  by_cases hperiod : 0 ≤ publication.freshnessPeriod
  · have hpos : 0 < maxDataSize := by decide
    have hconverges := @fitFinalBlock_converges cfg env publication value.val hsizes hperiod 16
      ((value.val.length - 1) / maxDataSize) (by omega) fun count hgreedy => by
        have htotal := hgreedy.total_le
        have hlength := List.length_pos_iff.mpr hvalue
        have : (value.val.length - 1) / maxDataSize < count :=
          (Nat.div_lt_iff_lt_mul hpos).mpr (by rw [Nat.mul_comm]; omega)
        omega
    refine ⟨fun herror => ?_, fun _ => hconverges.imp_left ?_⟩
    · rw [herror] at hconverges
      rcases hconverges with ⟨packets, final, hok, -⟩ | ⟨hother, -⟩
      · cases hok
      · exact absurd hother (by decide)
    · rintro ⟨packets, final, hok, hgreedy⟩
      have htotal := hgreedy.total_le
      refine ⟨packets, hok, fun hnil => hvalue (List.length_eq_zero_iff.mp ?_)⟩
      rw [hnil, List.length_nil] at htotal
      omega
  · refine ⟨fun herror => ?_, fun h => absurd h hperiod⟩
    rw [fitFinalBlock_of_negative hvalue hperiod] at herror
    exact absurd herror (by decide)

end Fitting

/-- The sizes of the example format grow when its signatures have one length. -/
theorem sizesGrow_packetFormat {env : CoreInputs} {signature : Bytes}
    (hsign : ∀ d, env.signData d = some signature) : SizesGrow packetFormat env := by
  refine ⟨fun d => by rw [hsign]; rfl, fun d d' s s' h hs hs' => ?_⟩
  obtain rfl := Option.some.inj ((hsign d).symm.trans hs)
  obtain rfl := Option.some.inj ((hsign d').symm.trans hs')
  obtain ⟨object, i, j, hi, hj, hname⟩ := h.name
  obtain ⟨m, n, hm, hn, hfinal⟩ := h.finalBlock
  have hcomponent : ∀ a b, numberWidth a ≤ numberWidth b →
      (Component.fromSegment a).block.size ≤ (Component.fromSegment b).block.size :=
    fun a b hwidth => Block.size_mono rfl hwidth
  have hsame : ∀ bs : List Block, List.Forall₂ (fun b c => b.size ≤ c.size) bs bs :=
    fun bs => List.forall₂_same.mpr fun _ _ => le_rfl
  have hnames : d.name.block.size ≤ d'.name.block.size := by
    rw [hi, hj]
    refine Block.ofElements_size_le ?_
    rw [Name.appendSegment, Name.appendSegment, List.map_append, List.map_append]
    exact List.rel_append (hsame _) (.cons (hcomponent i j hname) .nil)
  have hinfos : (Block.ofElements tlv.metaInfo d.metaInfoElements).size ≤
      (Block.ofElements tlv.metaInfo d'.metaInfoElements).size := by
    rw [Data.metaInfoElements, Data.metaInfoElements, h.contentType, h.freshnessPeriod, hm, hn]
    refine Block.ofElements_size_le (List.rel_append (hsame _) ?_)
    exact .cons (Block.ofElements_size_le (.cons (hcomponent m n hfinal) .nil)) .nil
  exact Block.ofElements_size_le (.cons hnames (.cons hinfos
    (.cons (Block.size_mono rfl h.content) (hsame _))))

theorem final_block_converges_three :
    let value : Span := ⟨[1, 2, 3], by decide⟩
    let env : CoreInputs := { signData := fun _ => some [1] }
    prepareSegmentedPackets sampleConfig env sampleBytes value.val ≠
      .error (.runtime "segmented FinalBlock fitting did not converge") ∧
    (0 ≤ sampleBytes.freshnessPeriod →
      (∃ packets, prepareSegmentedPackets sampleConfig env sampleBytes value.val = .ok packets ∧
        packets ≠ []) ∨
      prepareSegmentedPackets sampleConfig env sampleBytes value.val =
          .error (.lengthError "signed SVS segment cannot fit MAX_NDN_PACKET_SIZE") ∧
        CannotFit sampleConfig env sampleBytes value.val) :=
  final_block_converges (by decide) (sizesGrow_packetFormat fun _ => rfl)

end NdnSvs
