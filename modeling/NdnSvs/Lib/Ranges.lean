import Mathlib.Data.List.Basic
import Mathlib.Order.MinMax

/-! Lists of numbers: the largest of them, ranges that follow each other without a gap, a range cut
into pieces of bounded length, and the gaps that some numbers leave in a range. -/

namespace NdnSvs.Lib

/-- The largest of some numbers, 0 when there are none. -/
def largest (ns : List Nat) : Nat := ns.foldl max 0

@[simp] theorem largest_nil : largest [] = 0 := rfl

@[simp] theorem largest_singleton (n : Nat) : largest [n] = n := Nat.zero_max n

theorem foldl_max (m : Nat) (ns : List Nat) : ns.foldl max m = max m (largest ns) := by
  induction ns generalizing m with
  | nil => exact (Nat.max_zero m).symm
  | cons n ns ih => rw [largest, List.foldl_cons, List.foldl_cons, ih, ih, Nat.zero_max,
    Nat.max_assoc]

theorem largest_append (ns ns' : List Nat) :
    largest (ns ++ ns') = max (largest ns) (largest ns') := by
  rw [largest, List.foldl_append, foldl_max]
  rfl

theorem largest_cons (n : Nat) (ns : List Nat) : largest (n :: ns) = max n (largest ns) := by
  rw [← List.singleton_append, largest_append, largest_singleton]

/-- A number is at most the largest of some when it is at most one of them. -/
theorem le_largest {ns : List Nat} (h : ns ≠ []) (m : Nat) : m ≤ largest ns ↔ ∃ n ∈ ns, m ≤ n := by
  induction ns with
  | nil => exact absurd rfl h
  | cons n ns ih =>
    rw [largest_cons, le_max_iff]
    by_cases hns : ns = []
    · subst hns
      simp +contextual
    · rw [ih hns]
      simp

/-- Nonempty ranges that lead from the number after `low` to `high`. -/
def Contiguous (low : Nat) : List (Nat × Nat) → Nat → Prop
  | [], high => low = high
  | r :: rs, high => r.1 = low + 1 ∧ r.1 ≤ r.2 ∧ Contiguous r.2 rs high

@[simp] theorem contiguous_nil {low high : Nat} : Contiguous low [] high ↔ low = high := Iff.rfl

theorem contiguous_single {low high : Nat} (h : low < high) :
    Contiguous low [(low + 1, high)] high :=
  ⟨rfl, h, rfl⟩

theorem Contiguous.append {low mid high : Nat} {rs rs' : List (Nat × Nat)}
    (h : Contiguous low rs mid) (h' : Contiguous mid rs' high) :
    Contiguous low (rs ++ rs') high := by
  induction rs generalizing low with
  | nil =>
    obtain rfl := contiguous_nil.mp h
    exact h'
  | cons r rs ih =>
    obtain ⟨hlow, hr, hrest⟩ := h
    exact ⟨hlow, hr, ih hrest⟩

theorem Contiguous.le {low high : Nat} {rs : List (Nat × Nat)} (h : Contiguous low rs high) :
    low ≤ high := by
  induction rs generalizing low with
  | nil => exact Nat.le_of_eq (contiguous_nil.mp h)
  | cons r rs ih =>
    obtain ⟨hlow, hr, hrest⟩ := h
    have := ih hrest
    omega

/-- The numbers of a range. -/
def numbers (r : Nat × Nat) : List Nat := List.range' r.1 (r.2 + 1 - r.1)

/-- Contiguous ranges contain every number between their ends once, in order. -/
theorem Contiguous.numbers_eq {low high : Nat} {rs : List (Nat × Nat)}
    (h : Contiguous low rs high) : rs.flatMap numbers = List.range' (low + 1) (high - low) := by
  induction rs generalizing low with
  | nil =>
    obtain rfl := contiguous_nil.mp h
    simp
  | cons r rs ih =>
    obtain ⟨hlow, hr, hrest⟩ := h
    have hle := hrest.le
    have hsplit : high - low = (r.2 - low) + (high - r.2) := by omega
    have hstart : low + 1 + 1 * (r.2 - low) = r.2 + 1 := by omega
    rw [List.flatMap_cons, ih hrest, numbers, hlow, hsplit, ← List.range'_append, hstart,
      Nat.succ_sub_succ]

/-! ### Pieces of bounded length -/

/-- The pieces of `k` numbers that a range is cut into from its start; the last may be shorter. -/
def chunks (k low high : Nat) : List (Nat × Nat) :=
  (List.range ((high + k - low) / k)).map fun i => (low + k * i, min (low + k * i + (k - 1)) high)

theorem chunks_of_lt {k low high : Nat} (hk : 0 < k) (h : high < low) : chunks k low high = [] := by
  have hcount : (high + k - low) / k = 0 := Nat.div_eq_of_lt (by omega)
  rw [chunks, hcount]
  rfl

theorem chunks_of_le {k low high : Nat} (hk : 0 < k) (h : low ≤ high) :
    chunks k low high = (low, min (low + (k - 1)) high) :: chunks k (low + k) high := by
  have hcount : (high + k - low) / k = (high + k - (low + k)) / k + 1 := by
    have hsplit : high + k - low = high + k - (low + k) + k := by omega
    rw [hsplit, Nat.add_div_right _ hk]
  rw [chunks, hcount, List.range_succ_eq_map, List.map_cons, List.map_map, chunks]
  refine congrArg₂ _ rfl (List.map_congr_left fun i _ => ?_)
  simp only [Function.comp, Nat.succ_eq_add_one, Nat.mul_add, Nat.mul_one]
  rw [Nat.add_assoc low k, Nat.add_comm k]

theorem mem_chunks {k low high : Nat} (hk : 0 < k) {r : Nat × Nat} (h : r ∈ chunks k low high) :
    low ≤ r.1 ∧ r.1 ≤ r.2 ∧ r.2 ≤ high ∧ r.2 < r.1 + k := by
  obtain ⟨i, hi, rfl⟩ := List.mem_map.mp h
  have hround : k * (i + 1) ≤ high + k - low :=
    (Nat.mul_le_mul_left k (List.mem_range.mp hi)).trans (Nat.mul_div_le _ _)
  rw [Nat.mul_add, Nat.mul_one] at hround
  refine ⟨?_, ?_, ?_, ?_⟩ <;> dsimp only <;> omega

theorem pairwise_chunks {k low high : Nat} (hk : 0 < k) :
    (chunks k low high).Pairwise fun r r' => r.2 < r'.1 := by
  refine List.Pairwise.map _ (fun i j hij => ?_) List.pairwise_lt_range
  have hnext : k * (i + 1) ≤ k * j := Nat.mul_le_mul_left k hij
  rw [Nat.mul_add, Nat.mul_one] at hnext
  dsimp only
  omega

/-- The pieces contain every number of the range once, in order. -/
theorem numbers_chunks {k : Nat} (hk : 0 < k) (low high : Nat) :
    (chunks k low high).flatMap numbers = List.range' low (high + 1 - low) := by
  induction hlength : high + 1 - low using Nat.strongRecOn generalizing low with
  | _ n ih =>
    subst hlength
    rcases Nat.lt_or_ge high low with hlt | hle
    · rw [chunks_of_lt hk hlt, show high + 1 - low = 0 by omega]
      rfl
    · rw [chunks_of_le hk hle, List.flatMap_cons,
        ih (high + 1 - (low + k)) (by omega) (low + k) rfl, numbers]
      dsimp only
      rcases Nat.lt_or_ge high (low + k) with hlast | hmore
      · rw [Nat.min_eq_right (by omega), show high + 1 - (low + k) = 0 by omega]
        simp
      · have hsplit : high + 1 - low = k + (high + 1 - (low + k)) := by omega
        have hfirst : low + (k - 1) + 1 - low = k := by omega
        rw [Nat.min_eq_left (by omega), hfirst, hsplit, ← List.range'_append, Nat.one_mul]

/-! ### Gaps -/

section Gaps

variable {present : Nat → Prop} {low high : Nat} {r r' : Nat × Nat}

/-- A range between `low` and `high` none of whose numbers is present. -/
structure Lacks (present : Nat → Prop) (low high : Nat) (r : Nat × Nat) : Prop where
  low_le : low ≤ r.1
  ordered : r.1 ≤ r.2
  le_high : r.2 ≤ high
  missing : ∀ n, r.1 ≤ n → n ≤ r.2 → ¬present n

/-- A gap: a range of missing numbers that no longer one contains. -/
def IsGap (present : Nat → Prop) (low high : Nat) (r : Nat × Nat) : Prop :=
  Lacks present low high r ∧
    ∀ r', Lacks present low high r' → r'.1 ≤ r.1 → r.2 ≤ r'.2 → r' = r

/-- A gap begins where the range begins or behind a present number, and ends likewise. -/
theorem isGap_iff : IsGap present low high r ↔ Lacks present low high r ∧
    (r.1 = low ∨ present (r.1 - 1)) ∧ (r.2 = high ∨ present (r.2 + 1)) := by
  constructor
  · rintro ⟨h, hlongest⟩
    have hordered := h.ordered
    refine ⟨h, ?_, ?_⟩
    · by_contra hends
      obtain ⟨hlow, hmissing⟩ := not_or.mp hends
      have hlow' := h.low_le
      have hlonger : Lacks present low high (r.1 - 1, r.2) := by
        refine ⟨by dsimp only; omega, by dsimp only; omega, h.le_high, fun n hn hn' => ?_⟩
        by_cases hfirst : n = r.1 - 1
        · rw [hfirst]
          exact hmissing
        · exact h.missing n (by dsimp only at hn; omega) hn'
      have heq := congrArg Prod.fst (hlongest _ hlonger (Nat.sub_le _ _) le_rfl)
      dsimp only at heq
      omega
    · by_contra hends
      obtain ⟨hhigh, hmissing⟩ := not_or.mp hends
      have hhigh' := h.le_high
      have hlonger : Lacks present low high (r.1, r.2 + 1) := by
        refine ⟨h.low_le, by dsimp only; omega, by dsimp only; omega, fun n hn hn' => ?_⟩
        by_cases hlast : n = r.2 + 1
        · rw [hlast]
          exact hmissing
        · exact h.missing n hn (by dsimp only at hn'; omega)
      have heq := congrArg Prod.snd (hlongest _ hlonger le_rfl (Nat.le_succ _))
      dsimp only at heq
      omega
  · rintro ⟨h, hfirst, hlast⟩
    refine ⟨h, fun r' h' hle hle' => Prod.ext ?_ ?_⟩
    · rcases hfirst with hlow | hpresent
      · exact Nat.le_antisymm hle (hlow ▸ h'.low_le)
      · by_contra hne
        have hordered := h.ordered
        exact h'.missing _ (by omega) (by omega) hpresent
    · rcases hlast with hhigh | hpresent
      · exact Nat.le_antisymm (hhigh ▸ h'.le_high) hle'
      · by_contra hne
        have hordered := h.ordered
        exact h'.missing _ (by omega) (by omega) hpresent

/-- A gap begins behind the gap in front of it. -/
theorem IsGap.eq_or_lt (h : IsGap present low high r) (h' : IsGap present low high r')
    (hle : r.1 ≤ r'.1) : r' = r ∨ r.2 + 1 < r'.1 := by
  obtain ⟨hlacks, -, hlast⟩ := isGap_iff.mp h
  obtain ⟨hlacks', hfirst, hlast'⟩ := isGap_iff.mp h'
  have hordered := hlacks.ordered
  have hordered' := hlacks'.ordered
  have hlow := hlacks.low_le
  have hhigh' := hlacks'.le_high
  rcases Nat.lt_or_ge (r.2 + 1) r'.1 with hlt | hge
  · exact .inr hlt
  · refine .inl (h.2 r' hlacks' ?_ ?_)
    · rcases hfirst with hfirst | hpresent
      · omega
      · by_contra hne
        exact hlacks.missing _ (by omega) (by omega) hpresent
    · rcases hlast' with hlast' | hpresent'
      · exact hlast' ▸ hlacks.le_high
      · by_contra hne
        rcases Nat.lt_or_ge r.2 r'.1 with hnext | hinside
        · rcases hlast with hlast | hpresent
          · omega
          · exact hlacks'.missing _ (by omega) (by omega) hpresent
        · exact hlacks.missing _ (by omega) (by omega) hpresent'

/-- The gaps among consecutive numbers that lead to `high`; one of them may have begun before. -/
def gapsFrom (present : Nat → Prop) [DecidablePred present] (high : Nat) :
    Option Nat → List Nat → List (Nat × Nat)
  | begun, [] => begun.toList.map fun start => (start, high)
  | begun, n :: ns =>
    if present n then
      begun.toList.map (fun start => (start, n - 1)) ++ gapsFrom present high none ns
    else gapsFrom present high (begun.orElse fun _ => n) ns

/-- The gaps of a range. -/
def gaps (present : Nat → Prop) [DecidablePred present] (low high : Nat) : List (Nat × Nat) :=
  gapsFrom present high none (List.range' low (high + 1 - low))

theorem gapsFrom_congr {present' : Nat → Prop} [DecidablePred present] [DecidablePred present']
    {begun : Option Nat} {ns : List Nat} (h : ∀ n ∈ ns, present n ↔ present' n) :
    gapsFrom present high begun ns = gapsFrom present' high begun ns := by
  induction ns generalizing begun with
  | nil => rfl
  | cons n ns ih =>
    obtain ⟨hn, hns⟩ := List.forall_mem_cons.mp h
    simp only [gapsFrom, hn, ih hns]

/-- The gaps depend only on which numbers of the range are present. -/
theorem gaps_congr {present' : Nat → Prop} [DecidablePred present] [DecidablePred present']
    (h : ∀ n, low ≤ n → n ≤ high → (present n ↔ present' n)) :
    gaps present low high = gaps present' low high := by
  refine gapsFrom_congr fun n hn => ?_
  obtain ⟨hlow, hhigh⟩ := List.mem_range'_1.mp hn
  exact h n hlow (by omega)

/-- In front of `k` every gap has ended but the one that has begun. -/
def Begun (present : Nat → Prop) (low k : Nat) : Option Nat → Prop
  | none => low ≤ k ∧ (k = low ∨ present (k - 1))
  | some start => low ≤ start ∧ start < k ∧ (start = low ∨ present (start - 1)) ∧
      ∀ n, start ≤ n → n < k → ¬present n

/-- The gap that has begun ends in front of a present number, and at the end of the range. -/
theorem Begun.isGap {start k : Nat} (h : Begun present low k (some start)) (hk : k ≤ high + 1)
    (hends : k = high + 1 ∨ present k) : IsGap present low high (start, k - 1) := by
  obtain ⟨hlow, hlt, hfirst, hmissing⟩ := h
  refine isGap_iff.mpr ⟨⟨hlow, by dsimp only; omega, by dsimp only; omega,
    fun n hn hn' => hmissing n hn (by dsimp only at hn'; omega)⟩, hfirst, ?_⟩
  have hnext : k - 1 + 1 = k := by omega
  dsimp only
  rw [hnext]
  exact hends.imp_left fun hlast => by omega

theorem mem_gapsFrom [DecidablePred present] {begun : Option Nat} {k count : Nat}
    (hcount : k + count = high + 1) (hbegun : Begun present low k begun) :
    r ∈ gapsFrom present high begun (List.range' k count) ↔
      IsGap present low high r ∧ begun.getD k ≤ r.1 := by
  induction count generalizing k begun with
  | zero =>
    obtain rfl : k = high + 1 := hcount
    cases begun with
    | none =>
      refine iff_of_false List.not_mem_nil ?_
      rintro ⟨h, hle⟩
      have := h.1.ordered
      have := h.1.le_high
      dsimp only [Option.getD_none] at hle
      omega
    | some start =>
      have hgap : IsGap present low high (start, high) := hbegun.isGap le_rfl (.inl rfl)
      rw [List.range'_zero, gapsFrom, Option.toList_some, List.map_singleton, List.mem_singleton,
        Option.getD_some]
      constructor
      · rintro rfl
        exact ⟨hgap, le_rfl⟩
      · rintro ⟨h, hle⟩
        refine (hgap.eq_or_lt h hle).resolve_right fun hlt => ?_
        have := h.1.ordered
        have := h.1.le_high
        dsimp only at hlt
        omega
  | succ count ih =>
    have hnext : k + 1 + count = high + 1 := by omega
    have hbehind : low ≤ k := by
      cases begun with
      | none => exact hbegun.1
      | some start => exact hbegun.1.trans hbegun.2.1.le
    rw [List.range'_succ, gapsFrom]
    split
    · rename_i hpresent
      have hrest := @ih none (k + 1) hnext ⟨Nat.le_succ_of_le hbehind, .inr hpresent⟩
      have hne : IsGap present low high r → r.1 ≠ k := fun h heq =>
        h.1.missing k (Nat.le_of_eq heq) (heq ▸ h.1.ordered) hpresent
      rw [List.mem_append, hrest, Option.getD_none]
      cases begun with
      | none =>
        simp only [Option.toList_none, List.map_nil, List.not_mem_nil, false_or, Option.getD_none]
        refine and_congr_right fun h => ?_
        have := hne h
        omega
      | some start =>
        have hgap : IsGap present low high (start, k - 1) :=
          hbegun.isGap (by omega) (.inr hpresent)
        have hlt := hbegun.2.1
        simp only [Option.toList_some, List.map_cons, List.map_nil, List.mem_singleton,
          Option.getD_some]
        constructor
        · rintro (rfl | ⟨h, hle⟩)
          · exact ⟨hgap, le_rfl⟩
          · exact ⟨h, by omega⟩
        · rintro ⟨h, hle⟩
          refine (hgap.eq_or_lt h hle).imp_right fun hbehind => ⟨h, ?_⟩
          dsimp only at hbehind
          omega
    · rename_i hmissing
      cases begun with
      | none =>
        refine @ih (some k) (k + 1) hnext
          ⟨hbehind, Nat.lt_succ_self k, hbegun.2, fun n hn hn' => ?_⟩
        obtain rfl : n = k := Nat.le_antisymm (Nat.le_of_lt_succ hn') hn
        exact hmissing
      | some start =>
        obtain ⟨hlow, hlt, hfirst, hgone⟩ := hbegun
        refine @ih (some start) (k + 1) hnext ⟨hlow, by omega, hfirst, fun n hn hn' => ?_⟩
        rcases Nat.lt_succ_iff_lt_or_eq.mp hn' with hbefore | rfl
        · exact hgone n hn hbefore
        · exact hmissing

/-- The gaps of a range, and nothing else, are found. -/
theorem mem_gaps [DecidablePred present] (h : low ≤ high) :
    r ∈ gaps present low high ↔ IsGap present low high r := by
  have hbegun : Begun present low low none := ⟨le_rfl, .inl rfl⟩
  rw [gaps, mem_gapsFrom (by omega) hbegun, Option.getD_none]
  exact and_iff_left_of_imp fun h => h.1.low_le

/-- The gaps are found in their order. -/
theorem pairwise_gapsFrom [DecidablePred present] {begun : Option Nat} {k count : Nat}
    (hcount : k + count = high + 1) :
    (gapsFrom present high begun (List.range' k count)).Pairwise fun r r' => r.2 < r'.1 := by
  induction count generalizing k begun with
  | zero =>
    cases begun with
    | none => exact List.Pairwise.nil
    | some start => exact List.pairwise_singleton _ _
  | succ count ih =>
    have hnext : k + 1 + count = high + 1 := by omega
    rw [List.range'_succ, gapsFrom]
    split
    · rename_i hpresent
      cases begun with
      | none => exact ih hnext
      | some start =>
        refine List.pairwise_cons.mpr ⟨fun r' hr' => ?_, ih hnext⟩
        have hbegun : Begun present k (k + 1) none := ⟨Nat.le_succ k, .inr hpresent⟩
        have hle : k + 1 ≤ r'.1 := ((mem_gapsFrom hnext hbegun).mp hr').2
        dsimp only
        omega
    · exact ih hnext

theorem nodup_gaps [DecidablePred present] (h : low ≤ high) : (gaps present low high).Nodup := by
  have hpairwise : (gaps present low high).Pairwise fun r r' => r.2 < r'.1 :=
    pairwise_gapsFrom (by omega)
  refine hpairwise.imp_of_mem fun {r r'} hr _ hlt heq => ?_
  have hordered := ((mem_gaps h).mp hr).1.ordered
  rw [← heq] at hlt
  omega

/-- A gap is smaller than a range one of whose numbers is present. -/
theorem IsGap.smaller (h : IsGap present low high r) {n : Nat} (hn : present n) (hlow : low ≤ n)
    (hhigh : n ≤ high) : r.2 - r.1 < high - low := by
  have hlow' := h.1.low_le
  have hordered := h.1.ordered
  have hhigh' := h.1.le_high
  have houtside : ¬(r.1 ≤ n ∧ n ≤ r.2) := fun hinside => h.1.missing n hinside.1 hinside.2 hn
  omega

/-- A range none of whose numbers is present is one gap. -/
theorem isGap_whole (h : low ≤ high) (hmissing : ∀ n, low ≤ n → n ≤ high → ¬present n) :
    IsGap present low high (low, high) :=
  isGap_iff.mpr ⟨⟨le_rfl, h, le_rfl, hmissing⟩, .inl rfl, .inl rfl⟩

theorem present_of_gapsFrom_eq_nil [DecidablePred present] {begun : Option Nat} {k count : Nat}
    (h : gapsFrom present high begun (List.range' k count) = []) :
    begun = none ∧ ∀ n, k ≤ n → n < k + count → present n := by
  induction count generalizing k begun with
  | zero =>
    cases begun with
    | none => exact ⟨rfl, fun n hle hlt => absurd hlt (Nat.not_lt.mpr hle)⟩
    | some start => cases h
  | succ count ih =>
    rw [List.range'_succ, gapsFrom] at h
    split at h
    · rename_i hpresent
      obtain ⟨hbegun, hrest⟩ := List.append_eq_nil_iff.mp h
      refine ⟨Option.toList_eq_nil_iff.mp (List.map_eq_nil_iff.mp hbegun), fun n hle hlt => ?_⟩
      rcases Nat.eq_or_lt_of_le hle with rfl | hbehind
      · exact hpresent
      · exact (ih hrest).2 n hbehind (by omega)
    · have hbegun := (ih h).1
      cases begun with
      | none => cases hbegun
      | some start => cases hbegun

/-- A range has no gap when all its numbers are present, and only then. -/
theorem no_gap_iff (h : low ≤ high) :
    (∀ r, ¬IsGap present low high r) ↔ ∀ n, low ≤ n → n ≤ high → present n := by
  classical
  constructor
  · intro hnone n hlow hhigh
    have hnil : gaps present low high = [] :=
      List.eq_nil_iff_forall_not_mem.mpr fun r hr => hnone r ((mem_gaps h).mp hr)
    exact (present_of_gapsFrom_eq_nil hnil).2 n hlow (by omega)
  · intro hall r hr
    exact hr.1.missing r.1 le_rfl hr.1.ordered
      (hall _ hr.1.low_le (hr.1.ordered.trans hr.1.le_high))

end Gaps

end NdnSvs.Lib
