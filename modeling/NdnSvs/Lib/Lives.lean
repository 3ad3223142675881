import Mathlib.Data.Multiset.MapFold
import Mathlib.Data.Multiset.UnionInter
import Mathlib.Logic.Relation

/-! Objects that are in one state at a time.  A move takes one object from its state to another and
may spend something on it; what is spent on an object in all is bounded by what its moves allow. -/

namespace NdnSvs.Lib

/-- Objects under names, each in a state, and the names on which something has been spent. -/
structure Lives (ν σ : Type*) where
  objects : Multiset (ν × σ) := 0
  spent : Multiset ν := 0

namespace Lives

variable {ν σ : Type*}

def names (L : Lives ν σ) : Multiset ν := L.objects.map Prod.fst

/-- An object begins, and nothing has been spent on it. -/
structure Begins (n : ν) (s : σ) (L L' : Lives ν σ) : Prop where
  objects : L'.objects = (n, s) ::ₘ L.objects
  spent : L'.spent = L.spent

/-- An object goes from its state to another, at a cost. -/
inductive Goes (next : σ → Nat → σ → Prop) (L L' : Lives ν σ) : Prop
  | mk (n : ν) (s s' : σ) (cost : Nat) (rest : Multiset (ν × σ)) (hnext : next s cost s')
      (hbefore : L.objects = (n, s) ::ₘ rest) (hafter : L'.objects = (n, s') ::ₘ rest)
      (hspent : L'.spent = L.spent + Multiset.replicate cost n)

/-- Objects go on, one move after the other. -/
abbrev GoesOn (next : σ → Nat → σ → Prop) : Lives ν σ → Lives ν σ → Prop :=
  Relation.ReflTransGen (Goes next)

variable {next : σ → Nat → σ → Prop} {L L' : Lives ν σ} {n : ν} {s : σ}

theorem Begins.names (h : Begins n s L L') : L'.names = n ::ₘ L.names := by
  rw [Lives.names, h.objects, Multiset.map_cons]
  rfl

theorem Goes.names (h : Goes next L L') : L'.names = L.names := by
  cases h with
  | mk n s s' cost rest hnext hbefore hafter hspent =>
    rw [Lives.names, Lives.names, hbefore, hafter, Multiset.map_cons, Multiset.map_cons]

theorem GoesOn.names (h : GoesOn next L L') : L'.names = L.names := by
  induction h with
  | refl => rfl
  | tail _ hgoes ih => rw [hgoes.names, ih]

variable [DecidableEq ν]

/-- No name is used twice, nothing is spent under a name that no object has, and what has been spent
on an object is within the bound for its state. -/
structure Sound (within : Nat → σ → Prop) (L : Lives ν σ) : Prop where
  nodup : L.names.Nodup
  known : ∀ n ∈ L.spent, n ∈ L.names
  bounded : ∀ n s, (n, s) ∈ L.objects → within (L.spent.count n) s

variable {within : Nat → σ → Prop}

theorem Sound.begins (h : Sound within L) (hbegins : Begins n s L L') (hfresh : n ∉ L.names)
    (hwithin : within 0 s) : Sound within L' := by
  refine ⟨?_, fun m hm => ?_, fun m t hm => ?_⟩
  · rw [hbegins.names]
    exact Multiset.nodup_cons.mpr ⟨hfresh, h.nodup⟩
  · rw [hbegins.names]
    exact Multiset.mem_cons_of_mem (h.known m (hbegins.spent ▸ hm))
  · rw [hbegins.objects] at hm
    rw [hbegins.spent]
    rcases Multiset.mem_cons.mp hm with heq | hm
    · obtain ⟨rfl, rfl⟩ := Prod.mk.inj heq
      rw [Multiset.count_eq_zero.mpr fun hspent => hfresh (h.known m hspent)]
      exact hwithin
    · exact h.bounded m t hm

/-- A bound that each move keeps for its object is kept for all of them. -/
theorem Sound.goes (h : Sound within L) (hgoes : Goes next L L')
    (hnext : ∀ s cost s' k, next s cost s' → within k s → within (k + cost) s') :
    Sound within L' := by
  have hnames := hgoes.names
  cases hgoes with
  | mk n s s' cost rest hmove hbefore hafter hspent =>
    have hmem : (n, s) ∈ L.objects := hbefore ▸ Multiset.mem_cons_self _ _
    have hnodup := h.nodup
    rw [Lives.names, hbefore, Multiset.map_cons, Multiset.nodup_cons] at hnodup
    have hfree : n ∉ rest.map Prod.fst := hnodup.1
    refine ⟨hnames ▸ h.nodup, fun m hm => ?_, fun m t hm => ?_⟩
    · rw [hnames]
      rw [hspent] at hm
      rcases Multiset.mem_add.mp hm with hm | hm
      · exact h.known m hm
      · obtain rfl := Multiset.eq_of_mem_replicate hm
        exact Multiset.mem_map_of_mem Prod.fst hmem
    · rw [hafter] at hm
      rw [hspent, Multiset.count_add, Multiset.count_replicate]
      rcases Multiset.mem_cons.mp hm with heq | hm
      · obtain ⟨rfl, rfl⟩ := Prod.mk.inj heq
        rw [if_pos rfl]
        exact hnext s cost t _ hmove (h.bounded m s hmem)
      · -- The other objects have other names.
        have hne : n ≠ m := by
          rintro rfl
          exact hfree (Multiset.mem_map_of_mem Prod.fst hm)
        rw [if_neg hne, Nat.add_zero]
        exact h.bounded m t (hbefore ▸ Multiset.mem_cons_of_mem hm)

theorem Sound.goesOn (h : Sound within L) (hgoes : GoesOn next L L')
    (hnext : ∀ s cost s' k, next s cost s' → within k s → within (k + cost) s') :
    Sound within L' := by
  induction hgoes with
  | refl => exact h
  | tail _ hgoes ih => exact ih.goes hgoes hnext

end Lives

end NdnSvs.Lib
