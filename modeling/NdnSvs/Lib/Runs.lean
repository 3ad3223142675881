import Mathlib.Data.Option.Basic
import Mathlib.Data.List.Basic

/-! Runs of a machine given by a partial step function: the state after a list of events, conditions
that every step of a run meets, the induction rules for invariants, and notes that a machine keeps
on its run.  A step that is not defined at a state cannot happen there. -/

namespace NdnSvs.Lib

section Runs

variable {σ ε : Type*} (step : σ → ε → Option σ)

/-- The state after the events, when each of them can happen in turn. -/
def run (s : σ) : List ε → Option σ
  | [] => some s
  | e :: es => (step s e).bind fun s' => run s' es

/-- Each step of the run meets `ok`, a condition on the event and the state before it. -/
def Along (ok : σ → ε → Prop) (s : σ) : List ε → Prop
  | [] => True
  | e :: es => ok s e ∧ match step s e with
    | none => True
    | some s' => Along ok s' es

instance decidableAlong (ok : σ → ε → Prop) [∀ s e, Decidable (ok s e)] (s : σ) (es : List ε) :
    Decidable (Along step ok s es) :=
  match es with
  | [] => isTrue trivial
  | e :: es =>
    match h : step s e with
    | none => decidable_of_iff (ok s e) (by simp [Along, h])
    | some s' =>
      have := decidableAlong ok s' es
      decidable_of_iff (ok s e ∧ Along step ok s' es) (by simp [Along, h])

variable {step}

@[simp] theorem run_nil (s : σ) : run step s [] = some s := rfl

theorem run_cons (s : σ) (e : ε) (es : List ε) :
    run step s (e :: es) = (step s e).bind fun s' => run step s' es := rfl

theorem run_append (s : σ) (es es' : List ε) :
    run step s (es ++ es') = (run step s es).bind fun s' => run step s' es' := by
  induction es generalizing s with
  | nil => rfl
  | cons e es ih =>
    rw [List.cons_append, run_cons, run_cons, Option.bind_assoc]
    exact congrArg _ (funext ih)

/-- Events that change nothing, however often they happen. -/
theorem run_replicate {s : σ} {e : ε} (h : step s e = some s) (n : Nat) :
    run step s (List.replicate n e) = some s := by
  induction n with
  | zero => rfl
  | succ n ih => rw [List.replicate_succ, run_cons, h, Option.bind_some, ih]

@[simp] theorem along_nil (ok : σ → ε → Prop) (s : σ) : Along step ok s [] := trivial

theorem along_cons {ok : σ → ε → Prop} {s : σ} {e : ε} {es : List ε} :
    Along step ok s (e :: es) ↔ ok s e ∧ ∀ s', step s e = some s' → Along step ok s' es := by
  simp only [Along]
  cases step s e <;> simp

theorem along_append {ok : σ → ε → Prop} {s : σ} {es es' : List ε} :
    Along step ok s (es ++ es') ↔
      Along step ok s es ∧ ∀ s', run step s es = some s' → Along step ok s' es' := by
  induction es generalizing s with
  | nil => simp
  | cons e es ih =>
    simp only [List.cons_append, along_cons, run_cons]
    constructor
    · rintro ⟨h, hrest⟩
      refine ⟨⟨h, fun s' hs => (ih.mp (hrest s' hs)).1⟩, fun s'' hrun => ?_⟩
      obtain ⟨s', hs, hrun⟩ := Option.bind_eq_some_iff.mp hrun
      exact (ih.mp (hrest s' hs)).2 s'' hrun
    · rintro ⟨⟨h, hfirst⟩, hrest⟩
      refine ⟨h, fun s' hs => ih.mpr ⟨hfirst s' hs, fun s'' hrun => ?_⟩⟩
      exact hrest s'' (by rw [hs]; exact hrun)

theorem Along.mono {ok ok' : σ → ε → Prop} (h : ∀ s e, ok s e → ok' s e) {s : σ} {es : List ε}
    (hs : Along step ok s es) : Along step ok' s es := by
  induction es generalizing s with
  | nil => trivial
  | cons e es ih =>
    obtain ⟨he, hrest⟩ := along_cons.mp hs
    exact along_cons.mpr ⟨h s e he, fun s' hs' => ih (hrest s' hs')⟩

theorem Along.and {ok ok' : σ → ε → Prop} {s : σ} {es : List ε} (h : Along step ok s es)
    (h' : Along step ok' s es) : Along step (fun s e => ok s e ∧ ok' s e) s es := by
  induction es generalizing s with
  | nil => trivial
  | cons e es ih =>
    obtain ⟨he, hrest⟩ := along_cons.mp h
    obtain ⟨he', hrest'⟩ := along_cons.mp h'
    exact along_cons.mpr ⟨⟨he, he'⟩, fun s' hs' => ih (hrest s' hs') (hrest' s' hs')⟩

/-- A condition on the events alone. -/
theorem along_of_forall {ok : σ → ε → Prop} {es : List ε} (h : ∀ e ∈ es, ∀ s, ok s e) (s : σ) :
    Along step ok s es := by
  induction es generalizing s with
  | nil => trivial
  | cons e es ih =>
    exact along_cons.mpr ⟨h e List.mem_cons_self s,
      fun s' _ => ih (fun e he => h e (List.mem_cons_of_mem _ he)) s'⟩

/-- What every step keeps holds after a run from a state where it holds. -/
theorem run_invariant {P : σ → Prop} (hstep : ∀ s e s', step s e = some s' → P s → P s')
    {s s' : σ} {es : List ε} (hs : P s) (hrun : run step s es = some s') : P s' := by
  induction es generalizing s with
  | nil =>
    obtain rfl := Option.some.inj hrun
    exact hs
  | cons e es ih =>
    obtain ⟨s₁, h₁, hrun⟩ := Option.bind_eq_some_iff.mp hrun
    exact ih (hstep s e s₁ h₁ hs) hrun

/-- What every step that meets `ok` keeps holds after a run whose steps all meet it. -/
theorem run_invariant_along {P : σ → Prop} {ok : σ → ε → Prop}
    (hstep : ∀ s e s', step s e = some s' → ok s e → P s → P s') {s s' : σ} {es : List ε}
    (hs : P s) (hok : Along step ok s es) (hrun : run step s es = some s') : P s' := by
  induction es generalizing s with
  | nil =>
    obtain rfl := Option.some.inj hrun
    exact hs
  | cons e es ih =>
    obtain ⟨s₁, h₁, hrun⟩ := Option.bind_eq_some_iff.mp hrun
    obtain ⟨he, hrest⟩ := along_cons.mp hok
    exact ih (hstep s e s₁ h₁ he hs) (hrest s₁ h₁) hrun

/-- The same for a property of the state and of the events that have led to it. -/
theorem run_history {P : List ε → σ → Prop} {ok : σ → ε → Prop}
    (hstep : ∀ past s e s', step s e = some s' → ok s e → P past s → P (past ++ [e]) s')
    {past : List ε} {s s' : σ} {es : List ε} (hs : P past s) (hok : Along step ok s es)
    (hrun : run step s es = some s') : P (past ++ es) s' := by
  induction es generalizing past s with
  | nil =>
    obtain rfl := Option.some.inj hrun
    rwa [List.append_nil]
  | cons e es ih =>
    obtain ⟨s₁, h₁, hrun⟩ := Option.bind_eq_some_iff.mp hrun
    obtain ⟨he, hrest⟩ := along_cons.mp hok
    rw [List.append_cons]
    exact ih (hstep past s e s₁ h₁ he hs) (hrest s₁ h₁) hrun

/-- Two conditions that agree at the states of an invariant, which the steps that meet them keep,
agree along the runs. -/
theorem along_iff_of_invariant {I : σ → Prop} {ok ok' : σ → ε → Prop}
    (hstep : ∀ s e s', step s e = some s' → ok s e → I s → I s')
    (hiff : ∀ s e, I s → (ok' s e ↔ ok s e)) {s : σ} {es : List ε} (hI : I s) :
    Along step ok' s es ↔ Along step ok s es := by
  induction es generalizing s with
  | nil => exact Iff.rfl
  | cons e es ih =>
    rw [along_cons, along_cons, hiff s e hI]
    refine and_congr_right fun he => forall_congr' fun s' => imp_congr_right fun hs => ?_
    exact ih (hstep s e s' hs he hI)

/-! ### What holds throughout a run -/

variable (step) in
/-- The property holds in every state that the run reaches. -/
def Throughout (P : σ → Prop) (s : σ) (es : List ε) : Prop :=
  ∀ k s', run step s (es.take k) = some s' → P s'

theorem throughout_nil {P : σ → Prop} {s : σ} : Throughout step P s [] ↔ P s := by
  constructor
  · exact fun h => h 0 s rfl
  · intro h k s' hrun
    rw [List.take_nil] at hrun
    exact Option.some.inj hrun ▸ h

theorem throughout_cons {P : σ → Prop} {s : σ} {e : ε} {es : List ε} :
    Throughout step P s (e :: es) ↔ P s ∧ ∀ s', step s e = some s' → Throughout step P s' es := by
  constructor
  · refine fun h => ⟨h 0 s rfl, fun s' hs k s'' hrun => h (k + 1) s'' ?_⟩
    rw [List.take_succ_cons, run_cons, hs]
    exact hrun
  · rintro ⟨hs, hrest⟩ k s'' hrun
    cases k with
    | zero => exact Option.some.inj hrun ▸ hs
    | succ k =>
      rw [List.take_succ_cons, run_cons] at hrun
      obtain ⟨s', hs', hrun⟩ := Option.bind_eq_some_iff.mp hrun
      exact hrest s' hs' k s'' hrun

/-- An invariant that the steps that meet `ok` keep gives the property, and the property after a
step gives `ok`: the property holds throughout the runs whose steps all meet it. -/
theorem throughout_iff_along_of_invariant {P I : σ → Prop} {ok ok' : σ → ε → Prop}
    (hstep : ∀ s e s', step s e = some s' → ok' s e → ok s e → I s → I s')
    (hholds : ∀ s, I s → P s)
    (hok : ∀ s e s', step s e = some s' → ok' s e → I s → P s' → ok s e)
    (hnone : ∀ s e, step s e = none → ok s e) {s : σ} {es : List ε} (hI : I s)
    (hok' : Along step ok' s es) : Throughout step P s es ↔ Along step ok s es := by
  induction es generalizing s with
  | nil => exact ⟨fun _ => trivial, fun _ => throughout_nil.mpr (hholds s hI)⟩
  | cons e es ih =>
    obtain ⟨he, hrest⟩ := along_cons.mp hok'
    rw [throughout_cons, along_cons]
    constructor
    · rintro ⟨-, h⟩
      have hmet : ok s e := by
        cases hs : step s e with
        | none => exact hnone s e hs
        | some s' => exact hok s e s' hs he hI (h s' hs 0 s' rfl)
      exact ⟨hmet, fun s' hs => (ih (hstep s e s' hs he hmet hI) (hrest s' hs)).mp (h s' hs)⟩
    · rintro ⟨hmet, h⟩
      exact ⟨hholds s hI,
        fun s' hs => (ih (hstep s e s' hs he hmet hI) (hrest s' hs)).mpr (h s' hs)⟩

/-- A property that each step keeps exactly when it meets `ok` holds throughout the runs whose steps
all meet it. -/
theorem throughout_iff_along {P I : σ → Prop} {ok ok' : σ → ε → Prop}
    (hstep : ∀ s e s', step s e = some s' → ok' s e → I s → I s')
    (hiff : ∀ s e s', step s e = some s' → ok' s e → I s → P s → (P s' ↔ ok s e))
    (hnone : ∀ s e, step s e = none → ok s e) {s : σ} {es : List ε} (hI : I s) (hP : P s)
    (hok' : Along step ok' s es) : Throughout step P s es ↔ Along step ok s es := by
  have hboth : ∀ s e s', step s e = some s' → ok' s e → ok s e → I s ∧ P s → I s' ∧ P s' :=
    fun s e s' hs he hmet h => ⟨hstep s e s' hs he h.1, (hiff s e s' hs he h.1 h.2).mpr hmet⟩
  exact throughout_iff_along_of_invariant hboth (fun _ h => h.2)
    (fun s e s' hs he h hP' => (hiff s e s' hs he h.1 h.2).mp hP') hnone ⟨hI, hP⟩ hok'

/-! ### History variables -/

variable {γ : Type*} (step) (note : γ → σ → ε → σ → γ)

/-- The machine that keeps notes on its run, which no step reads. -/
def noting (p : σ × γ) (e : ε) : Option (σ × γ) :=
  (step p.1 e).map fun s' => (s', note p.2 p.1 e s')

variable {step note}

theorem noting_eq_some {p p' : σ × γ} {e : ε} : noting step note p e = some p' ↔
    step p.1 e = some p'.1 ∧ p'.2 = note p.2 p.1 e p'.1 := by
  obtain ⟨s', g'⟩ := p'
  simp only [noting, Option.map_eq_some_iff, Prod.mk.injEq]
  constructor
  · rintro ⟨s'', hs, rfl, rfl⟩
    exact ⟨hs, rfl⟩
  · rintro ⟨hs, rfl⟩
    exact ⟨s', hs, rfl, rfl⟩

theorem Along.noting {ok : σ → ε → Prop} {s : σ} {es : List ε} (h : Along step ok s es) (g : γ) :
    Along (noting step note) (fun p e => ok p.1 e) (s, g) es := by
  induction es generalizing s g with
  | nil => trivial
  | cons e es ih =>
    obtain ⟨he, hrest⟩ := along_cons.mp h
    refine along_cons.mpr ⟨he, fun p' hp' => ?_⟩
    exact ih (hrest p'.1 (noting_eq_some.mp hp').1) p'.2

end Runs

end NdnSvs.Lib
