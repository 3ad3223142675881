import Mathlib.Data.List.Nodup
import Mathlib.Data.Nat.ModEq
import NdnSvs.Lib.Programs
import NdnSvs.Lib.Ranges

/-! Loops on a counter that wraps.  A loop runs through a range while the counter is at most the end
of the range; its body makes calls, and may leave the loop.  The results say exactly when such a loop
ends and goes over no number twice. -/

namespace NdnSvs.Lib

open Program (exec)

/-- `for (i = low; i <= high; i += step)` on a counter with `modulus` values.  The body carries a
value from round to round, and tells whether the loop goes on. -/
structure ForLoop (ι : Type) (ρ : ι → Type) (α : Type) where
  modulus : Nat
  step : Nat
  high : Nat
  body : Nat → α → Program ι ρ (α × Bool)

namespace ForLoop

variable {ι : Type} {ρ : ι → Type} {α σ : Type} (L : ForLoop ι ρ α)

def next (i : Nat) : Nat := (i + L.step) % L.modulus

/-- The loop from the counter `i` on, for so many rounds at most.  Its value is the counter at the
end and the value carried. -/
def run : Nat → Nat → α → Program ι ρ (Nat × α)
  | 0, _, _ => .diverge
  | fuel + 1, i, a =>
    if L.high < i then .ret (i, a)
    else (L.body i a).bind fun r => if r.2 then run fuel (L.next i) r.1 else .ret (i, r.1)

variable (act : (i : ι) → σ → ρ i × σ)

/-- The values of the counter in the rounds of the loop. -/
def rounds : Nat → Nat → α → σ → List Nat
  | 0, _, _, _ => []
  | fuel + 1, i, a, s =>
    if L.high < i then []
    else i :: ((exec act (L.body i a) s).map fun r =>
      if r.1.2 then rounds fuel (L.next i) r.1.1 r.2 else []).getD []

/-- The numbers that a round is about: as many as the step has, as far as the range goes. -/
def visits (fuel i : Nat) (a : α) (s : σ) : List Nat :=
  (L.rounds act fuel i a s).flatMap fun i => numbers (i, min (i + (L.step - 1)) L.high)

def Terminates (i : Nat) (a : α) (s : σ) : Prop := ∃ fuel, (exec act (L.run fuel i a) s).isSome

/-- The loop ends, and never goes over a number again. -/
def WalksOnce (i : Nat) (a : α) (s : σ) : Prop :=
  L.Terminates act i a s ∧ ∀ fuel, (L.visits act fuel i a s).Nodup

/-- Every round of the loop ends. -/
def Total : Prop := ∀ i a s, ∃ r s', exec act (L.body i a) s = some (r, s')

/-- Every round of the loop ends, and the loop goes on. -/
def Onward : Prop := ∀ i a s, ∃ a' s', exec act (L.body i a) s = some ((a', true), s')

variable {L act}

theorem Onward.total (h : L.Onward act) : L.Total act := by
  intro i a s
  obtain ⟨a', s', hexec⟩ := h i a s
  exact ⟨(a', true), s', hexec⟩

/-! ### One round -/

theorem exec_run_of_lt {i : Nat} (h : L.high < i) (fuel : Nat) (a : α) (s : σ) :
    exec act (L.run (fuel + 1) i a) s = some ((i, a), s) := by
  rw [run, if_pos h]
  rfl

theorem exec_run_of_le {i : Nat} (h : i ≤ L.high) {a : α} {s : σ} {r : α × Bool} {s' : σ}
    (hbody : exec act (L.body i a) s = some (r, s')) (fuel : Nat) :
    exec act (L.run (fuel + 1) i a) s =
      if r.2 then exec act (L.run fuel (L.next i) r.1) s' else some ((i, r.1), s') := by
  rw [run, if_neg (Nat.not_lt.mpr h), Program.exec_bind, hbody, Option.bind_some]
  dsimp only
  split
  · rfl
  · rfl

theorem rounds_of_lt {i : Nat} (h : L.high < i) (fuel : Nat) (a : α) (s : σ) :
    L.rounds act fuel i a s = [] := by
  cases fuel with
  | zero => rfl
  | succ fuel => rw [rounds, if_pos h]

theorem rounds_of_le {i : Nat} (h : i ≤ L.high) {a : α} {s : σ} {r : α × Bool} {s' : σ}
    (hbody : exec act (L.body i a) s = some (r, s')) (fuel : Nat) :
    L.rounds act (fuel + 1) i a s =
      i :: if r.2 then L.rounds act fuel (L.next i) r.1 s' else [] := by
  rw [rounds, if_neg (Nat.not_lt.mpr h), hbody]
  rfl

theorem rounds_le {fuel i : Nat} {a : α} {s : σ} {j : Nat} (h : j ∈ L.rounds act fuel i a s) :
    j ≤ L.high := by
  induction fuel generalizing i a s with
  | zero => cases h
  | succ fuel ih =>
    rw [rounds] at h
    split at h
    · cases h
    · rename_i hle
      rcases List.mem_cons.mp h with rfl | h
      · exact Nat.not_lt.mp hle
      · cases hbody : exec act (L.body i a) s with
        | none =>
          rw [hbody] at h
          cases h
        | some r =>
          rw [hbody, Option.map_some, Option.getD_some] at h
          split at h
          · exact ih h
          · cases h

/-- More rounds only go on where fewer stop. -/
theorem rounds_starts (fuel more : Nat) (i : Nat) (a : α) (s : σ) :
    L.rounds act fuel i a s <+: L.rounds act (fuel + more) i a s := by
  induction fuel generalizing i a s with
  | zero => exact List.nil_prefix
  | succ fuel ih =>
    rw [Nat.succ_add, rounds, rounds]
    split
    · exact List.nil_prefix
    · refine (List.prefix_cons_inj i).mpr ?_
      cases exec act (L.body i a) s with
      | none => exact List.nil_prefix
      | some r =>
        simp only [Option.map_some, Option.getD_some]
        split
        · exact ih _ _ _
        · exact List.nil_prefix

/-- A loop that ends is not changed by more rounds. -/
theorem exec_run_mono {fuel i : Nat} {a : α} {s : σ} {r : (Nat × α) × σ}
    (h : exec act (L.run fuel i a) s = some r) (more : Nat) :
    exec act (L.run (fuel + more) i a) s = some r := by
  induction fuel generalizing i a s with
  | zero => cases h
  | succ fuel ih =>
    rw [Nat.succ_add]
    rw [run] at h ⊢
    split at h
    · rename_i hend
      rw [if_pos hend]
      exact h
    · rename_i hle
      rw [if_neg hle]
      rw [Program.exec_bind] at h ⊢
      obtain ⟨⟨r', s'⟩, hbody, h⟩ := Option.bind_eq_some_iff.mp h
      rw [hbody, Option.bind_some]
      dsimp only at h ⊢
      split at h
      · rename_i hgo
        rw [if_pos hgo]
        exact ih h
      · rename_i hstop
        rw [if_neg hstop]
        exact h

/-! ### Loops that are never left -/

theorem visits_of_lt {i : Nat} (h : L.high < i) (fuel : Nat) (a : α) (s : σ) :
    L.visits act fuel i a s = [] := by
  rw [visits, rounds_of_lt h]
  rfl

theorem visits_of_le {i : Nat} (h : i ≤ L.high) {a a' : α} {s s' : σ}
    (hbody : exec act (L.body i a) s = some ((a', true), s')) (fuel : Nat) :
    L.visits act (fuel + 1) i a s =
      numbers (i, min (i + (L.step - 1)) L.high) ++ L.visits act fuel (L.next i) a' s' := by
  rw [visits, rounds_of_le h hbody, if_pos rfl, List.flatMap_cons]
  rfl

/-- A pass over the range: the loop goes over all of it, and stands behind it. -/
theorem pass (honward : L.Onward act) (hstep : 0 < L.step) (hhigh : L.high < L.modulus) {i : Nat}
    (hi : i ≤ L.high) (a : α) (s : σ) : ∃ a' s', ∀ fuel,
      L.visits act (fuel + ((L.high - i) / L.step + 1)) i a s =
        List.range' i (L.high + 1 - i) ++ L.visits act fuel
          ((i + L.step * ((L.high - i) / L.step + 1)) % L.modulus) a' s' ∧
      exec act (L.run (fuel + ((L.high - i) / L.step + 1)) i a) s =
        exec act (L.run fuel
          ((i + L.step * ((L.high - i) / L.step + 1)) % L.modulus) a') s' := by
  induction hq : (L.high - i) / L.step generalizing i a s with
  | zero =>
    have hlast : L.high - i < L.step :=
      (Nat.div_eq_zero_iff.mp hq).resolve_left (Nat.pos_iff_ne_zero.mp hstep)
    obtain ⟨a', s', hbody⟩ := honward i a s
    refine ⟨a', s', fun fuel => ⟨?_, ?_⟩⟩
    · rw [Nat.zero_add, visits_of_le hi hbody, Nat.min_eq_right (by omega), numbers, next,
        Nat.mul_one]
    · rw [Nat.zero_add, exec_run_of_le hi hbody, if_pos rfl, next, Nat.mul_one]
  | succ q ih =>
    have hmore : L.step ≤ L.high - i := by
      by_contra hless
      rw [Nat.div_eq_of_lt (Nat.not_le.mp hless)] at hq
      cases hq
    have hnext : L.next i = i + L.step := Nat.mod_eq_of_lt (by omega)
    have hrest : (L.high - (i + L.step)) / L.step = q := by
      rw [Nat.div_eq_sub_div hstep hmore, Nat.sub_sub] at hq
      exact Nat.succ.inj hq
    obtain ⟨a₁, s₁, hbody⟩ := honward i a s
    obtain ⟨a', s', hpass⟩ := ih (i := i + L.step) (by omega) a₁ s₁ hrest
    refine ⟨a', s', fun fuel => ?_⟩
    obtain ⟨hvisits, hrun⟩ := hpass fuel
    have hend : i + L.step * (q + 1 + 1) = i + L.step + L.step * (q + 1) := by
      rw [Nat.mul_succ L.step (q + 1)]
      omega
    constructor
    · have hsplit : L.high + 1 - i = L.step + (L.high + 1 - (i + L.step)) := by omega
      have hcount : i + (L.step - 1) + 1 - i = L.step := by omega
      rw [← Nat.add_assoc, visits_of_le hi hbody, hnext, hvisits, Nat.min_eq_left (by omega),
        numbers, hend, hcount, hsplit, ← List.range'_append, Nat.one_mul, List.append_assoc]
    · rw [← Nat.add_assoc, exec_run_of_le hi hbody, if_pos rfl, hnext, hrun, hend]

/-- A loop that is never left by its body ends and goes over no number twice exactly when its counter
does not wrap before it stands behind the range. -/
theorem walksOnce_iff (honward : L.Onward act) (hstep : 0 < L.step) (hmodulus : L.step ≤ L.modulus)
    (hhigh : L.high < L.modulus) {low : Nat} (hlow : low ≤ L.high) (a : α) (s : σ) :
    L.WalksOnce act low a s ↔
      low + L.step * ((L.high - low) / L.step + 1) < L.modulus := by
  have hdiv := Nat.mul_div_le (L.high - low) L.step
  have hlt := Nat.lt_mul_div_succ (L.high - low) hstep
  obtain ⟨a₁, s₁, hpass⟩ := pass honward hstep hhigh hlow a s
  generalize hrounds : (L.high - low) / L.step = q at hdiv hlt hpass ⊢
  constructor
  · rintro ⟨-, hnodup⟩
    by_contra hwraps
    -- the counter is in the range again, and the loop goes over its end a second time
    have hmul : L.step * (q + 1) = L.step * q + L.step := Nat.mul_succ _ _
    have hwrapped : (low + L.step * (q + 1)) % L.modulus =
        low + L.step * (q + 1) - L.modulus := by
      rw [Nat.mod_eq_sub_mod (by omega), Nat.mod_eq_of_lt (by omega)]
    generalize hi : low + L.step * (q + 1) - L.modulus = i at hwrapped
    have hback : i ≤ L.high := by omega
    rw [hwrapped] at hpass
    obtain ⟨a₂, s₂, hagain⟩ := pass honward hstep hhigh hback a₁ s₁
    have htwice := hnodup (0 + ((L.high - i) / L.step + 1) + (q + 1))
    rw [(hpass _).1, (hagain 0).1] at htwice
    have hfirst : L.high ∈ List.range' low (L.high + 1 - low) := by
      rw [List.mem_range'_1]
      omega
    have hsecond : L.high ∈ List.range' i (L.high + 1 - i) := by
      rw [List.mem_range'_1]
      omega
    exact (List.nodup_append.mp htwice).2.2 _ hfirst _ (List.mem_append_left _ hsecond) rfl
  · intro hbehind
    rw [Nat.mod_eq_of_lt hbehind] at hpass
    have hend : L.high < low + L.step * (q + 1) := by omega
    constructor
    · refine ⟨1 + (q + 1), ?_⟩
      rw [(hpass 1).2, exec_run_of_lt hend]
      rfl
    · intro fuel
      have hwhole := (hpass fuel).1
      rw [visits_of_lt hend, List.append_nil] at hwhole
      obtain ⟨more, hmore⟩ := @rounds_starts _ _ _ _ L act fuel (q + 1) low a s
      rw [visits, ← hmore, List.flatMap_append] at hwhole
      have hnodup : (List.range' low (L.high + 1 - low)).Nodup := List.nodup_range'
      rw [← hwhole] at hnodup
      exact (List.nodup_append.mp hnodup).1

/-! ### Loops that may be left -/

variable (L act) in
/-- The body leaves the loop in the round after `j` others. -/
def LeavesAt : Nat → Nat → α → σ → Prop
  | 0, i, a, s => ∃ a' s', exec act (L.body i a) s = some ((a', false), s')
  | j + 1, i, a, s => ∃ a' s', exec act (L.body i a) s = some ((a', true), s') ∧
    LeavesAt j (L.next i) a' s'

theorem LeavesAt.terminates {j i : Nat} {a : α} {s : σ} (h : L.LeavesAt act j i a s) :
    L.Terminates act i a s := by
  induction j generalizing i a s with
  | zero =>
    obtain ⟨a', s', hbody⟩ := h
    refine ⟨1, ?_⟩
    rcases Nat.lt_or_ge L.high i with hend | hle
    · rw [exec_run_of_lt hend]
      rfl
    · rw [exec_run_of_le hle hbody]
      rfl
  | succ j ih =>
    obtain ⟨a', s', hbody, h⟩ := h
    rcases Nat.lt_or_ge L.high i with hend | hle
    · refine ⟨1, ?_⟩
      rw [exec_run_of_lt hend]
      rfl
    · obtain ⟨fuel, hfuel⟩ := ih h
      refine ⟨fuel + 1, ?_⟩
      rw [exec_run_of_le hle hbody, if_pos rfl]
      exact hfuel

theorem LeavesAt.length_le {j i : Nat} {a : α} {s : σ} (h : L.LeavesAt act j i a s) (fuel : Nat) :
    (L.rounds act fuel i a s).length ≤ j + 1 := by
  induction j generalizing fuel i a s with
  | zero =>
    obtain ⟨a', s', hbody⟩ := h
    cases fuel with
    | zero => exact Nat.zero_le _
    | succ fuel =>
      rcases Nat.lt_or_ge L.high i with hend | hle
      · rw [rounds_of_lt hend]
        exact Nat.zero_le _
      · rw [rounds_of_le hle hbody]
        exact le_rfl
  | succ j ih =>
    obtain ⟨a', s', hbody, h⟩ := h
    cases fuel with
    | zero => exact Nat.zero_le _
    | succ fuel =>
      rcases Nat.lt_or_ge L.high i with hend | hle
      · rw [rounds_of_lt hend]
        exact Nat.zero_le _
      · rw [rounds_of_le hle hbody, if_pos rfl, List.length_cons]
        exact Nat.succ_le_succ (ih h fuel)

section UnitStep

variable (hstep : L.step = 1)

include hstep

theorem rounds_eq_range {fuel i : Nat} (hi : i < L.modulus) (a : α) (s : σ) :
    ∃ n, L.rounds act fuel i a s = (List.range n).map fun j => (i + j) % L.modulus := by
  induction fuel generalizing i a s with
  | zero => exact ⟨0, rfl⟩
  | succ fuel ih =>
    have hpos : 0 < L.modulus := Nat.zero_lt_of_lt hi
    rw [rounds]
    split
    · exact ⟨0, rfl⟩
    · have hmore : ∃ n, ((exec act (L.body i a) s).map fun r =>
          if r.1.2 then L.rounds act fuel (L.next i) r.1.1 r.2 else []).getD [] =
          (List.range n).map fun j => (L.next i + j) % L.modulus := by
        cases exec act (L.body i a) s with
        | none => exact ⟨0, rfl⟩
        | some r =>
          simp only [Option.map_some, Option.getD_some]
          split
          · exact ih (Nat.mod_lt _ hpos) r.1.1 r.2
          · exact ⟨0, rfl⟩
      obtain ⟨n, hn⟩ := hmore
      refine ⟨n + 1, ?_⟩
      rw [hn, List.range_succ_eq_map, List.map_cons, List.map_map, Nat.add_zero,
        Nat.mod_eq_of_lt hi]
      refine congrArg _ (List.map_congr_left fun j _ => ?_)
      rw [next, hstep, Nat.mod_add_mod, Function.comp, Nat.succ_eq_add_one, Nat.add_assoc,
        Nat.add_comm 1 j]

/-- The values of a counter are all different for one turn, and no longer. -/
theorem nodup_rounds_iff {fuel i : Nat} (hi : i < L.modulus) (a : α) (s : σ) :
    (L.rounds act fuel i a s).Nodup ↔ (L.rounds act fuel i a s).length ≤ L.modulus := by
  obtain ⟨n, hn⟩ : ∃ n, L.rounds act fuel i a s = _ := rounds_eq_range hstep hi a s
  rw [hn, List.length_map, List.length_range]
  constructor
  · intro hnodup
    have hinj := List.inj_on_of_nodup_map hnodup
    by_contra hlong
    have hsame := hinj (List.mem_range.mpr (Nat.zero_lt_of_lt hi |>.trans (Nat.not_le.mp hlong)))
      (List.mem_range.mpr (Nat.not_le.mp hlong)) (by rw [Nat.add_zero, Nat.add_mod_right])
    omega
  · intro hn
    refine List.Nodup.map_on (fun j hj j' hj' h => ?_) List.nodup_range
    rw [List.mem_range] at hj hj'
    have hmod : j % L.modulus = j' % L.modulus := Nat.ModEq.add_left_cancel' i h
    rwa [Nat.mod_eq_of_lt (hj.trans_le hn), Nat.mod_eq_of_lt (hj'.trans_le hn)] at hmod

theorem visits_eq_rounds (fuel i : Nat) (a : α) (s : σ) :
    L.visits act fuel i a s = L.rounds act fuel i a s := by
  have hloop : ∀ is : List Nat, (∀ i ∈ is, i ≤ L.high) →
      is.flatMap (fun i => numbers (i, min (i + (L.step - 1)) L.high)) = is := by
    intro is
    induction is with
    | nil => exact fun _ => rfl
    | cons i is ih =>
      intro hle
      obtain ⟨hi, his⟩ := List.forall_mem_cons.mp hle
      rw [List.flatMap_cons, ih his, numbers, hstep, Nat.sub_self, Nat.add_zero,
        Nat.min_eq_left hi, Nat.add_sub_cancel_left]
      rfl
  exact hloop _ fun i hi => rounds_le hi

theorem terminates_of_lt (htotal : L.Total act) (hhigh : L.high + 1 < L.modulus) {i : Nat}
    (hi : i ≤ L.high + 1) (a : α) (s : σ) : L.Terminates act i a s := by
  induction hrest : L.high + 1 - i generalizing i a s with
  | zero => exact ⟨1, by rw [exec_run_of_lt (by omega)]; rfl⟩
  | succ rest ih =>
    have hle : i ≤ L.high := by omega
    have hnext : L.next i = i + 1 := by rw [next, hstep, Nat.mod_eq_of_lt (by omega)]
    obtain ⟨r, s', hbody⟩ := htotal i a s
    obtain ⟨fuel, hfuel⟩ := ih (i := i + 1) (by omega) r.1 s' (by omega)
    refine ⟨fuel + 1, ?_⟩
    rw [exec_run_of_le hle hbody, hnext]
    split
    · exact hfuel
    · rfl

omit hstep in
/-- While every value of the counter is in the range, a loop ends by being left. -/
theorem leaves_of_terminates (htotal : L.Total act) (hhigh : L.high + 1 = L.modulus) {fuel i : Nat}
    (hi : i < L.modulus) {a : α} {s : σ} (h : (exec act (L.run fuel i a) s).isSome) :
    ∃ j, L.LeavesAt act j i a s ∧ (L.rounds act (j + 1) i a s).length = j + 1 := by
  induction fuel generalizing i a s with
  | zero => cases h
  | succ fuel ih =>
    obtain ⟨⟨a', go⟩, s', hbody⟩ := htotal i a s
    have hle : i ≤ L.high := by omega
    rw [exec_run_of_le hle hbody] at h
    cases go with
    | false =>
      refine ⟨0, ⟨a', s', hbody⟩, ?_⟩
      rw [rounds_of_le hle hbody]
      rfl
    | true =>
      have hpos : 0 < L.modulus := Nat.zero_lt_of_lt hi
      obtain ⟨j, hleaves, hlength⟩ := ih (Nat.mod_lt _ hpos) h
      refine ⟨j + 1, ⟨a', s', hbody, hleaves⟩, ?_⟩
      rw [rounds_of_le hle hbody, if_pos rfl, List.length_cons]
      exact congrArg (· + 1) hlength

/-- A loop over one number a round ends and goes over no number twice exactly when the counter can
pass the end of the range, or the body leaves the loop before the counter has turned once. -/
theorem walksOnce_iff_leaves (htotal : L.Total act) (hhigh : L.high < L.modulus) {low : Nat}
    (hlow : low ≤ L.high) (a : α) (s : σ) :
    L.WalksOnce act low a s ↔
      L.high + 1 < L.modulus ∨ ∃ j < L.modulus, L.LeavesAt act j low a s := by
  have hlt : low < L.modulus := by omega
  constructor
  · rintro ⟨⟨fuel, hfuel⟩, hnodup⟩
    rcases Nat.lt_or_ge (L.high + 1) L.modulus with hbelow | hlast
    · exact .inl hbelow
    · obtain ⟨j, hleaves, hlength⟩ :=
        leaves_of_terminates htotal (by omega) hlt hfuel
      have hrounds := hnodup (j + 1)
      rw [visits_eq_rounds hstep, nodup_rounds_iff hstep hlt, hlength] at hrounds
      exact .inr ⟨j, hrounds, hleaves⟩
  · intro h
    have hlength : ∀ fuel, (L.rounds act fuel low a s).length ≤ L.modulus := by
      intro fuel
      rcases h with hbelow | ⟨j, hj, hleaves⟩
      · obtain ⟨n, hn⟩ : ∃ n, L.rounds act fuel low a s = _ := rounds_eq_range hstep hlt a s
        by_contra hlong
        -- the counter would have gone on behind the range
        have hmem : L.high + 1 ∈ L.rounds act fuel low a s := by
          rw [hn, List.length_map, List.length_range] at hlong
          rw [hn, List.mem_map]
          refine ⟨L.high + 1 - low, List.mem_range.mpr (by omega), ?_⟩
          rw [Nat.mod_eq_of_lt (by omega)]
          omega
        have hle := rounds_le hmem
        omega
      · exact (hleaves.length_le fuel).trans hj
    refine ⟨?_, fun fuel => ?_⟩
    · rcases h with hbelow | ⟨j, -, hleaves⟩
      · exact terminates_of_lt hstep htotal hbelow (by omega) a s
      · exact hleaves.terminates
    · rw [visits_eq_rounds hstep, nodup_rounds_iff hstep hlt]
      exact hlength fuel

omit hstep in
/-- A loop that is never left does not end while every value of the counter is in the range. -/
theorem Onward.not_terminates (honward : L.Onward act) (hhigh : L.high + 1 = L.modulus) {i : Nat}
    (hi : i < L.modulus) (a : α) (s : σ) : ¬L.Terminates act i a s := by
  rintro ⟨fuel, hfuel⟩
  obtain ⟨j, hleaves, -⟩ := leaves_of_terminates honward.total hhigh hi hfuel
  clear hfuel hi
  induction j generalizing i a s with
  | zero =>
    obtain ⟨a', s', hbody⟩ := hleaves
    obtain ⟨a₁, s₁, hgo⟩ := honward i a s
    rw [hbody] at hgo
    cases hgo
  | succ j ih =>
    obtain ⟨a', s', -, hleaves⟩ := hleaves
    exact ih a' s' hleaves

/-- A loop whose counter can pass the end of the range goes through its numbers in order. -/
theorem run_eq_foldEach {g : α → Nat → Program ι ρ α}
    (hbody : ∀ i a, L.body i a = (g a i).bind fun a => .ret (a, true))
    (hhigh : L.high + 1 < L.modulus) {fuel i : Nat} (hi : i ≤ L.high + 1)
    (hfuel : L.high + 1 - i < fuel) (a : α) :
    L.run fuel i a = (Program.foldEach g a (List.range' i (L.high + 1 - i))).bind fun a =>
      .ret (L.high + 1, a) := by
  induction fuel generalizing i a with
  | zero => exact absurd hfuel (Nat.not_lt_zero _)
  | succ fuel ih =>
    rw [run]
    split
    · rename_i hend
      obtain rfl : i = L.high + 1 := by omega
      rw [Nat.sub_self]
      rfl
    · rename_i hle
      have hnext : L.next i = i + 1 := by rw [next, hstep, Nat.mod_eq_of_lt (by omega)]
      have hsplit : L.high + 1 - i = (L.high + 1 - (i + 1)) + 1 := by omega
      rw [hbody, hsplit, List.range'_succ, Program.foldEach, Program.bind_assoc,
        Program.bind_assoc]
      refine congrArg _ (funext fun a' => ?_)
      rw [hnext]
      exact ih (by omega) (by omega) a'

/-- The loop and the fold over the range end in the same way: not at all when the counter cannot
pass the end of the range. -/
theorem exec_run_iff {g : α → Nat → Program ι ρ α}
    (hbody : ∀ i a, L.body i a = (g a i).bind fun a => .ret (a, true)) (honward : L.Onward act)
    (hhigh : L.high < L.modulus) {low : Nat} (hlow : low ≤ L.high) (a a' : α) (s s' : σ) :
    (∃ fuel i, exec act (L.run fuel low a) s = some ((i, a'), s')) ↔
      L.high + 1 < L.modulus ∧
        exec act (Program.foldEach g a (List.range' low (L.high + 1 - low))) s = some (a', s') := by
  rcases Nat.lt_or_ge (L.high + 1) L.modulus with hbelow | hlast
  · have hrun : ∀ more, exec act (L.run (L.high + 2 - low + more) low a) s =
        (exec act (Program.foldEach g a (List.range' low (L.high + 1 - low))) s).map fun r =>
          ((L.high + 1, r.1), r.2) := by
      intro more
      rw [run_eq_foldEach hstep hbody hbelow (by omega) (by omega), Program.exec_bind]
      cases exec act (Program.foldEach g a (List.range' low (L.high + 1 - low))) s with
      | none => rfl
      | some r => rfl
    constructor
    · rintro ⟨fuel, i, hexec⟩
      refine ⟨hbelow, ?_⟩
      have hmore := exec_run_mono hexec (L.high + 2 - low)
      rw [Nat.add_comm, hrun, Option.map_eq_some_iff] at hmore
      obtain ⟨⟨a₁, s₁⟩, hr, heq⟩ := hmore
      simp only [Prod.mk.injEq] at heq
      rw [hr, heq.1.2, heq.2]
    · rintro ⟨-, hfold⟩
      exact ⟨_, _, (hrun 0).trans (by rw [hfold]; rfl)⟩
  · constructor
    · rintro ⟨fuel, i, hexec⟩
      refine absurd ⟨fuel, ?_⟩ (honward.not_terminates (by omega) (by omega : low < _) a s)
      rw [hexec]
      rfl
    · rintro ⟨hbelow, -⟩
      omega

end UnitStep

end ForLoop

end NdnSvs.Lib
