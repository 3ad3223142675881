import NdnSvs.Lib.Runs

/-! Forward simulation between machines: a relation that each step of one machine keeps, while the
other makes any number of steps. -/

namespace NdnSvs.Lib

section Simulation

variable {σ ε τ δ : Type*} {step : σ → ε → Option σ} {step' : τ → δ → Option τ}

/-- The second machine can follow each step of the first one that meets `ok`. -/
def Follows (step : σ → ε → Option σ) (step' : τ → δ → Option τ) (ok : σ → ε → Prop)
    (R : σ → τ → Prop) : Prop :=
  ∀ s e s' t, step s e = some s' → ok s e → R s t → ∃ ds t', run step' t ds = some t' ∧ R s' t'

variable {ok : σ → ε → Prop} {R : σ → τ → Prop}

theorem Follows.run (h : Follows step step' ok R) {s s' : σ} {t : τ} {es : List ε} (hR : R s t)
    (hok : Along step ok s es) (hrun : Lib.run step s es = some s') :
    ∃ ds t', Lib.run step' t ds = some t' ∧ R s' t' := by
  induction es generalizing s t with
  | nil =>
    obtain rfl := Option.some.inj hrun
    exact ⟨[], t, rfl, hR⟩
  | cons e es ih =>
    obtain ⟨s₁, h₁, hrest⟩ := Option.bind_eq_some_iff.mp hrun
    obtain ⟨he, halong⟩ := along_cons.mp hok
    obtain ⟨ds, t₁, hrun₁, hR₁⟩ := h s e s₁ t h₁ he hR
    obtain ⟨ds', t', hrun', hR'⟩ := ih hR₁ (halong s₁ h₁) hrest
    exact ⟨ds ++ ds', t', by rw [run_append, hrun₁]; exact hrun', hR'⟩

/-- The steps of a machine that meet a condition. -/
def admitting (step : σ → ε → Option σ) (ok : σ → ε → Prop) [∀ s e, Decidable (ok s e)] (s : σ)
    (e : ε) : Option σ :=
  if ok s e then step s e else none

variable [∀ s e, Decidable (ok s e)]

theorem admitting_eq_some {s s' : σ} {e : ε} :
    admitting step ok s e = some s' ↔ ok s e ∧ step s e = some s' :=
  Option.ite_none_right_eq_some

/-- A run of these steps is a run along which the condition holds. -/
theorem run_admitting {s s' : σ} {es : List ε} :
    run (admitting step ok) s es = some s' ↔ Along step ok s es ∧ run step s es = some s' := by
  induction es generalizing s with
  | nil => simp
  | cons e es ih =>
    rw [run_cons, run_cons, along_cons]
    constructor
    · intro h
      obtain ⟨s₁, h₁, hrest⟩ := Option.bind_eq_some_iff.mp h
      obtain ⟨he, h₁⟩ := admitting_eq_some.mp h₁
      obtain ⟨halong, hrun⟩ := ih.mp hrest
      refine ⟨⟨he, fun s₂ h₂ => ?_⟩, Option.bind_eq_some_iff.mpr ⟨s₁, h₁, hrun⟩⟩
      obtain rfl := Option.some.inj (h₁.symm.trans h₂)
      exact halong
    · rintro ⟨⟨he, halong⟩, h⟩
      obtain ⟨s₁, h₁, hrun⟩ := Option.bind_eq_some_iff.mp h
      exact Option.bind_eq_some_iff.mpr
        ⟨s₁, admitting_eq_some.mpr ⟨he, h₁⟩, ih.mpr ⟨halong s₁ h₁, hrun⟩⟩

end Simulation

end NdnSvs.Lib
