import Mathlib.Order.MinMax

/-! Greedy cuts.  A whole is cut into pieces from its front, each as large as a limit, the rest of
the whole and a test on its place and its size allow.  A stricter test never gives fewer pieces. -/

namespace NdnSvs.Lib

/-- The largest size up to a limit that fits. -/
structure Largest (fits : Nat → Prop) (limit size : Nat) : Prop where
  pos : 0 < size
  le : size ≤ limit
  isFit : fits size
  greatest : ∀ s ≤ limit, fits s → s ≤ size

/-- The number of pieces of what comes after an offset, when so many have been cut. -/
inductive Greedy (fits : Nat → Nat → Prop) (limit total : Nat) : Nat → Nat → Nat → Prop
  | done (offset index : Nat) (all : total ≤ offset) : Greedy fits limit total offset index 0
  | piece (offset index size count : Nat) (more : offset < total)
      (largest : Largest (fits index) (min limit (total - offset)) size)
      (rest : Greedy fits limit total (offset + size) (index + 1) count) :
      Greedy fits limit total offset index (count + 1)

namespace Greedy

variable {fits fits' : Nat → Nat → Prop} {limit total offset index count : Nat}

/-- A stricter test that starts behind stays behind. -/
theorem behind {size size' offset' : Nat} (hfits : ∀ s, fits' index s → fits index s)
    (hdown : ∀ s s', s' ≤ s → fits index s → fits index s') (hle : offset' ≤ offset)
    (h : Largest (fits index) (min limit (total - offset)) size)
    (h' : Largest (fits' index) (min limit (total - offset')) size') :
    offset' + size' ≤ offset + size := by
  have hle' := h'.le
  have hfit := hfits size' h'.isFit
  by_cases hroom : size' ≤ total - offset
  · have := h.greatest size' (by omega) hfit
    omega
  · -- The piece behind is larger than the rest of the other, which is then taken whole.
    have := h.greatest (total - offset) (by omega) (hdown size' _ (by omega) hfit)
    omega

theorem count_le {offset' count' : Nat} (hfits : ∀ i s, fits' i s → fits i s)
    (hdown : ∀ i s s', s' ≤ s → fits i s → fits i s')
    (h : Greedy fits limit total offset index count)
    (h' : Greedy fits' limit total offset' index count') (hle : offset' ≤ offset) :
    count ≤ count' := by
  induction h generalizing offset' count' with
  | done => exact Nat.zero_le _
  | piece offset index size count more largest rest ih =>
    cases h' with
    | done _ _ all => omega
    | piece _ _ size' count' more' largest' rest' =>
      exact Nat.succ_le_succ
        (ih rest' (behind (hfits index) (hdown index) hle largest largest'))

/-- A test determines the number of pieces. -/
theorem count_eq {count' : Nat} (hfits : ∀ i s, fits i s ↔ fits' i s)
    (hdown : ∀ i s s', s' ≤ s → fits i s → fits i s')
    (h : Greedy fits limit total offset index count)
    (h' : Greedy fits' limit total offset index count') : count = count' := by
  have hdown' : ∀ i s s', s' ≤ s → fits' i s → fits' i s' :=
    fun i s s' hs hs' => (hfits i s').mp (hdown i s s' hs ((hfits i s).mpr hs'))
  exact (count_le (fun i s => (hfits i s).mpr) hdown h h' le_rfl).antisymm
    (count_le (fun i s => (hfits i s).mp) hdown' h' h le_rfl)

/-- No piece is larger than the limit. -/
theorem total_le (h : Greedy fits limit total offset index count) :
    total ≤ offset + limit * count := by
  induction h with
  | done offset index all => omega
  | piece offset index size count more largest rest ih =>
    have := largest.le
    rw [Nat.mul_succ]
    omega

end Greedy

end NdnSvs.Lib
