import Mathlib.Data.Option.Basic
import Mathlib.Data.List.Basic

/-! Programs that make calls.  A program is done, or it makes a call and goes on with the reply, or
it never ends.  Over a state on which the calls act: its execution, conditions that every call meets
in the state before it, and the rules for what the calls keep and for how a program ends. -/

namespace NdnSvs.Lib

inductive Program (ι : Type) (ρ : ι → Type) (α : Type)
  | ret (a : α)
  | call (i : ι) (next : ρ i → Program ι ρ α)
  | diverge

namespace Program

section Programs

variable {ι : Type} {ρ : ι → Type} {α β γ σ : Type}

def bind : Program ι ρ α → (α → Program ι ρ β) → Program ι ρ β
  | .ret a, f => f a
  | .call i next, f => .call i fun r => (next r).bind f
  | .diverge, _ => .diverge

instance : Monad (Program ι ρ) where
  pure := .ret
  bind := bind

/-- The program that makes one call. -/
def perform (i : ι) : Program ι ρ (ρ i) := .call i .ret

/-- A loop over a list that carries a value. -/
def foldEach (f : α → β → Program ι ρ α) (a : α) : List β → Program ι ρ α
  | [] => .ret a
  | b :: bs => (f a b).bind fun a => foldEach f a bs

def forEach (f : β → Program ι ρ Unit) : List β → Program ι ρ Unit := foldEach (fun _ => f) ()

variable (act : (i : ι) → σ → ρ i × σ)

/-- The value of the program and the state at its end. -/
def exec : Program ι ρ α → σ → Option (α × σ)
  | .ret a, s => some (a, s)
  | .call i next, s => exec (next (act i s).1) (act i s).2
  | .diverge, _ => none

/-- Every call that the program makes meets `ok`, a condition on the call and the state before. -/
def Along (ok : σ → ι → Prop) : Program ι ρ α → σ → Prop
  | .ret _, _ => True
  | .call i next, s => ok s i ∧ Along ok (next (act i s).1) (act i s).2
  | .diverge, _ => True

instance decidableAlong (ok : σ → ι → Prop) [∀ s i, Decidable (ok s i)] :
    (p : Program ι ρ α) → (s : σ) → Decidable (Along act ok p s)
  | .ret _, _ => isTrue trivial
  | .call i next, s =>
    have := decidableAlong ok (next (act i s).1) (act i s).2
    inferInstanceAs (Decidable (_ ∧ _))
  | .diverge, _ => isTrue trivial

/-- Whenever the program ends, its value and the state meet `post`. -/
def Ends (post : α → σ → Prop) (p : Program ι ρ α) (s : σ) : Prop :=
  ∀ a s', exec act p s = some (a, s') → post a s'

variable {act}

theorem exec_bind (p : Program ι ρ α) (f : α → Program ι ρ β) (s : σ) :
    exec act (p.bind f) s = (exec act p s).bind fun r => exec act (f r.1) r.2 := by
  induction p generalizing s with
  | ret a => rfl
  | call i next ih => exact ih _ _
  | diverge => rfl

theorem bind_assoc (p : Program ι ρ α) (f : α → Program ι ρ β) (g : β → Program ι ρ γ) :
    (p.bind f).bind g = p.bind fun a => (f a).bind g := by
  induction p with
  | ret a => rfl
  | call i next ih => exact congrArg (Program.call i) (funext ih)
  | diverge => rfl

/-! ### Conditions on the calls -/

theorem along_bind {ok : σ → ι → Prop} {p : Program ι ρ α} {f : α → Program ι ρ β} {s : σ} :
    Along act ok (p.bind f) s ↔
      Along act ok p s ∧ Ends act (fun a s' => Along act ok (f a) s') p s := by
  induction p generalizing s with
  | ret a => simp [bind, Ends, exec, Along]
  | call i next ih =>
    simp only [bind, Along, ih, Ends, exec]
    exact and_assoc.symm
  | diverge => simp [bind, Ends, exec, Along]

theorem along_of_forall {ok : σ → ι → Prop} (h : ∀ s i, ok s i) (p : Program ι ρ α) (s : σ) :
    Along act ok p s := by
  induction p generalizing s with
  | ret a => trivial
  | call i next ih => exact ⟨h s i, ih _ _⟩
  | diverge => trivial

theorem Along.mono {ok ok' : σ → ι → Prop} (h : ∀ s i, ok s i → ok' s i) {p : Program ι ρ α} {s : σ}
    (hp : Along act ok p s) : Along act ok' p s := by
  induction p generalizing s with
  | ret a => trivial
  | call i next ih => exact ⟨h s i hp.1, ih _ hp.2⟩
  | diverge => trivial

theorem Along.and {ok ok' : σ → ι → Prop} {p : Program ι ρ α} {s : σ} (hp : Along act ok p s)
    (hp' : Along act ok' p s) : Along act (fun s i => ok s i ∧ ok' s i) p s := by
  induction p generalizing s with
  | ret a => trivial
  | call i next ih => exact ⟨⟨hp.1, hp'.1⟩, ih _ hp.2 hp'.2⟩
  | diverge => trivial

/-! ### What the calls keep -/

/-- What every call keeps that meets `ok` holds after a program whose calls all meet it. -/
theorem exec_invariant {P : σ → Prop} {ok : σ → ι → Prop}
    (hkeep : ∀ s i, ok s i → P s → P (act i s).2) {p : Program ι ρ α} {s s' : σ} {a : α} (hs : P s)
    (hok : Along act ok p s) (hexec : exec act p s = some (a, s')) : P s' := by
  induction p generalizing s with
  | ret a' =>
    obtain ⟨-, rfl⟩ := Prod.mk.inj (Option.some.inj hexec)
    exact hs
  | call i next ih => exact ih _ (hkeep s i hok.1 hs) hok.2 hexec
  | diverge => cases hexec

/-- What every call keeps holds after a program. -/
theorem exec_keeps {P : σ → Prop} (hkeep : ∀ s i, P s → P (act i s).2)
    {p : Program ι ρ α} {s s' : σ} {a : α} (hs : P s) (hexec : exec act p s = some (a, s')) :
    P s' :=
  exec_invariant (fun s i _ => hkeep s i) hs (along_of_forall (fun _ _ => trivial) p s) hexec

/-- What no call restores once it is lost: when it holds at the end of a program, it held at the
start, and every call met the condition that keeps it. -/
theorem along_of_exec {P : σ → Prop} {ok : σ → ι → Prop}
    (hback : ∀ s i, P (act i s).2 → P s ∧ ok s i) {p : Program ι ρ α} {s s' : σ} {a : α}
    (hexec : exec act p s = some (a, s')) (hP : P s') : P s ∧ Along act ok p s := by
  induction p generalizing s with
  | ret a' =>
    obtain ⟨-, rfl⟩ := Prod.mk.inj (Option.some.inj hexec)
    exact ⟨hP, trivial⟩
  | call i next ih =>
    obtain ⟨hnext, hrest⟩ := ih _ hexec
    obtain ⟨hs, hok⟩ := hback s i hnext
    exact ⟨hs, hok, hrest⟩
  | diverge => cases hexec

/-- Every call that the program can make meets `Q`, and every value that it can give meets `R`. -/
def Yields (Q : ι → Prop) (R : α → Prop) : Program ι ρ α → Prop
  | .ret a => R a
  | .call i next => Q i ∧ ∀ r, Yields Q R (next r)
  | .diverge => True

/-- Every call that the program can make meets `Q`. -/
abbrev Makes (Q : ι → Prop) (p : Program ι ρ α) : Prop := Yields Q (fun _ => True) p

theorem Yields.along {Q : ι → Prop} {R : α → Prop} {ok : σ → ι → Prop} (h : ∀ s i, Q i → ok s i)
    {p : Program ι ρ α} (hp : Yields Q R p) (s : σ) : Along act ok p s := by
  induction p generalizing s with
  | ret a => trivial
  | call i next ih => exact ⟨h s i hp.1, ih _ (hp.2 _) _⟩
  | diverge => trivial

theorem Yields.mono {Q : ι → Prop} {R S : α → Prop} (h : ∀ a, R a → S a) {p : Program ι ρ α}
    (hp : Yields Q R p) : Yields Q S p := by
  induction p with
  | ret a => exact h a hp
  | call i next ih => exact ⟨hp.1, fun r => ih r (hp.2 r)⟩
  | diverge => trivial

@[simp] theorem makes_ret {Q : ι → Prop} (a : α) : Makes Q (.ret a : Program ι ρ α) := trivial

theorem makes_perform {Q : ι → Prop} {i : ι} (h : Q i) : Makes Q (perform i : Program ι ρ (ρ i)) :=
  ⟨h, fun _ => trivial⟩

theorem Yields.bind {Q : ι → Prop} {R : α → Prop} {S : β → Prop} {p : Program ι ρ α}
    {f : α → Program ι ρ β} (hp : Yields Q R p) (hf : ∀ a, R a → Yields Q S (f a)) :
    Yields Q S (p.bind f) := by
  induction p with
  | ret a => exact hf a hp
  | call i next ih => exact ⟨hp.1, fun r => ih r (hp.2 r)⟩
  | diverge => trivial

theorem Makes.bind {Q : ι → Prop} {S : β → Prop} {p : Program ι ρ α} {f : α → Program ι ρ β}
    (hp : Makes Q p) (hf : ∀ a, Yields Q S (f a)) : Yields Q S (p.bind f) :=
  Yields.bind hp fun a _ => hf a

theorem Yields.foldEach {Q : ι → Prop} {R : α → Prop} {f : α → β → Program ι ρ α} {bs : List β}
    (h : ∀ a, ∀ b ∈ bs, R a → Yields Q R (f a b)) {a : α} (ha : R a) :
    Yields Q R (foldEach f a bs) := by
  induction bs generalizing a with
  | nil => exact ha
  | cons b bs ih =>
    exact (h a b List.mem_cons_self ha).bind fun a ha =>
      ih (fun a b hb => h a b (List.mem_cons_of_mem _ hb)) ha

theorem Makes.foldEach {Q : ι → Prop} {f : α → β → Program ι ρ α} {bs : List β}
    (h : ∀ a, ∀ b ∈ bs, Makes Q (f a b)) (a : α) : Makes Q (foldEach f a bs) :=
  Yields.foldEach (fun a b hb _ => h a b hb) trivial

/-! ### How a program ends -/

theorem ends_ret {post : α → σ → Prop} {a : α} {s : σ} :
    Ends act post (.ret a : Program ι ρ α) s ↔ post a s := by
  simp [Ends, exec]

theorem ends_perform {i : ι} {post : ρ i → σ → Prop} {s : σ} :
    Ends act post (perform i : Program ι ρ (ρ i)) s ↔ post (act i s).1 (act i s).2 := by
  constructor
  · exact fun h => h _ _ rfl
  · intro h a s' heq
    obtain ⟨rfl, rfl⟩ := Prod.mk.inj (Option.some.inj heq)
    exact h

theorem ends_bind {post : β → σ → Prop} {p : Program ι ρ α} {f : α → Program ι ρ β} {s : σ}
    (h : Ends act (fun a s' => Ends act post (f a) s') p s) : Ends act post (p.bind f) s := by
  intro b s' hexec
  rw [exec_bind] at hexec
  obtain ⟨⟨a, s₁⟩, hp, hf⟩ := Option.bind_eq_some_iff.mp hexec
  exact h a s₁ hp b s' hf

theorem Ends.mono {post post' : α → σ → Prop} {p : Program ι ρ α} {s : σ}
    (h : ∀ a s', post a s' → post' a s') (hp : Ends act post p s) : Ends act post' p s :=
  fun a s' hexec => h a s' (hp a s' hexec)

theorem Ends.and {post post' : α → σ → Prop} {p : Program ι ρ α} {s : σ} (h : Ends act post p s)
    (h' : Ends act post' p s) : Ends act (fun a s => post a s ∧ post' a s) p s :=
  fun a s' hexec => ⟨h a s' hexec, h' a s' hexec⟩

section Keeps

variable {P : σ → Prop} (hkeep : ∀ s i, P s → P (act i s).2)

include hkeep

theorem ends_of_keeps (p : Program ι ρ α) {s : σ} (hs : P s) : Ends act (fun _ s' => P s') p s :=
  fun _ _ hexec => exec_keeps hkeep hs hexec

/-- What holds after the first part of a program, and every call keeps, holds at the end. -/
theorem ends_bind_of_keeps {p : Program ι ρ α} {f : α → Program ι ρ β} {s : σ}
    (hp : Ends act (fun _ s' => P s') p s) : Ends act (fun _ s' => P s') (p.bind f) s :=
  ends_bind fun a s' hexec => ends_of_keeps hkeep (f a) (hp a s' hexec)

end Keeps

/-- What each round of a loop brings about from an invariant, and every call keeps, holds of all
rounds at the end. -/
theorem ends_foldEach_each {I : σ → Prop} {Q : β → σ → Prop} {f : α → β → Program ι ρ α}
    {bs : List β} (hkeep : ∀ b s i, Q b s → Q b (act i s).2)
    (heach : ∀ a, ∀ b ∈ bs, ∀ s, I s → Ends act (fun _ s' => I s' ∧ Q b s') (f a b) s) (a : α)
    {s : σ} (hs : I s) :
    Ends act (fun _ s' => I s' ∧ ∀ b ∈ bs, Q b s') (foldEach f a bs) s := by
  induction bs generalizing a s with
  | nil => exact ends_ret.mpr ⟨hs, fun b hb => absurd hb List.not_mem_nil⟩
  | cons b bs ih =>
    refine ends_bind fun a' s₁ hexec a'' s₂ hrest => ?_
    obtain ⟨hs₁, hfirst⟩ := heach a b List.mem_cons_self s hs a' s₁ hexec
    have hb := exec_keeps (hkeep b) hfirst hrest
    obtain ⟨hs₂, hbs⟩ :=
      ih (fun a b hb => heach a b (List.mem_cons_of_mem _ hb)) a' hs₁ a'' s₂ hrest
    exact ⟨hs₂, List.forall_mem_cons.mpr ⟨hb, hbs⟩⟩

/-! ### Properties that sequencing keeps -/

/-- A property of programs, and of the values they give, that holds of a sequence when it holds of
its parts. -/
structure Closed (G : ∀ {α : Type}, Program ι ρ α → (α → Prop) → Prop) : Prop where
  ret : ∀ {α : Type} {R : α → Prop} {a : α}, R a → G (.ret a) R
  diverge : ∀ {α : Type} {R : α → Prop}, G (.diverge : Program ι ρ α) R
  bind : ∀ {α β : Type} {R : α → Prop} {S : β → Prop} {p : Program ι ρ α}
    {f : α → Program ι ρ β}, G p R → (∀ a, R a → G (f a) S) → G (p.bind f) S

theorem Closed.foldEach {G : ∀ {α : Type}, Program ι ρ α → (α → Prop) → Prop} (hG : Closed G)
    {R : α → Prop} {f : α → β → Program ι ρ α} {bs : List β}
    (h : ∀ a, ∀ b ∈ bs, R a → G (f a b) R) {a : α} (ha : R a) : G (foldEach f a bs) R := by
  induction bs generalizing a with
  | nil => exact hG.ret ha
  | cons b bs ih =>
    exact hG.bind (h a b List.mem_cons_self ha) fun a ha =>
      ih (fun a b hb => h a b (List.mem_cons_of_mem _ hb)) ha

theorem Closed.forEach {G : ∀ {α : Type}, Program ι ρ α → (α → Prop) → Prop} (hG : Closed G)
    {f : β → Program ι ρ Unit} {bs : List β} (h : ∀ b ∈ bs, G (f b) fun _ => True) :
    G (forEach f bs) fun _ => True :=
  hG.foldEach (fun _ b hb _ => h b hb) trivial

theorem closed_yields (Q : ι → Prop) : Closed fun (p : Program ι ρ _) R => Yields Q R p where
  ret := id
  diverge := trivial
  bind := Yields.bind

/-- What a program keeps when it ends. -/
def Keeps (act : (i : ι) → σ → ρ i × σ) (I : σ → Prop) {α : Type} (p : Program ι ρ α)
    (R : α → Prop) : Prop :=
  ∀ s, I s → Ends act (fun a s' => R a ∧ I s') p s

theorem closed_keeps (I : σ → Prop) : Closed (Keeps act I) where
  ret := fun ha _ hs => ends_ret.mpr ⟨ha, hs⟩
  diverge := fun _ _ _ _ hexec => by cases hexec
  bind := fun hp hf s hs => ends_bind fun a s' hexec =>
    hf a (hp s hs a s' hexec).1 s' (hp s hs a s' hexec).2

theorem keeps_perform {I : σ → Prop} {i : ι} (h : ∀ s, I s → I (act i s).2) :
    Keeps act I (perform i) fun _ => True :=
  fun s hs => ends_perform.mpr ⟨trivial, h s hs⟩

/-! ### Programs that end -/

/-- The program ends, whatever the replies are. -/
def Halts : Program ι ρ α → Prop
  | .ret _ => True
  | .call _ next => ∀ r, Halts (next r)
  | .diverge => False

@[simp] theorem halts_ret (a : α) : Halts (.ret a : Program ι ρ α) := trivial

@[simp] theorem halts_perform (i : ι) : Halts (perform i : Program ι ρ (ρ i)) := fun _ => trivial

theorem Halts.exec {p : Program ι ρ α} (h : Halts p) (s : σ) :
    ∃ a s', exec act p s = some (a, s') := by
  induction p generalizing s with
  | ret a => exact ⟨a, s, rfl⟩
  | call i next ih => exact ih _ (h _) _
  | diverge => exact h.elim

theorem Halts.bind {p : Program ι ρ α} {f : α → Program ι ρ β} (hp : Halts p)
    (hf : ∀ a, Halts (f a)) : Halts (p.bind f) := by
  induction p with
  | ret a => exact hf a
  | call i next ih => exact fun r => ih r (hp r)
  | diverge => exact hp.elim

theorem Halts.foldEach {f : α → β → Program ι ρ α} {bs : List β}
    (h : ∀ a, ∀ b ∈ bs, Halts (f a b)) (a : α) : Halts (foldEach f a bs) := by
  induction bs generalizing a with
  | nil => trivial
  | cons b bs ih =>
    exact (h a b List.mem_cons_self).bind
      (ih fun a b hb => h a b (List.mem_cons_of_mem _ hb))

/-! ### Notes on the calls -/

section Notes

variable {γ : Type} (act) (note : σ → ι → List γ)

/-- The notes that are taken on the calls of a program. -/
def notes : Program ι ρ α → σ → List γ
  | .ret _, _ => []
  | .call i next, s => note s i ++ notes (next (act i s).1) (act i s).2
  | .diverge, _ => []

/-- The action of the calls on a state with notes. -/
def noting (i : ι) (p : σ × List γ) : ρ i × (σ × List γ) :=
  ((act i p.1).1, (act i p.1).2, p.2 ++ note p.1 i)

variable {act note}

theorem exec_noting (p : Program ι ρ α) (s : σ) (g : List γ) : exec (noting act note) p (s, g) =
    (exec act p s).map fun r => (r.1, r.2, g ++ notes act note p s) := by
  induction p generalizing s g with
  | ret a => simp [exec, notes]
  | call i next ih =>
    rw [exec, exec, notes, ← List.append_assoc]
    exact ih _ _ _
  | diverge => rfl

theorem Along.noting {ok : σ → ι → Prop} {p : Program ι ρ α} {s : σ} (h : Along act ok p s)
    (g : List γ) : Along (noting act note) (fun q i => ok q.1 i) p (s, g) := by
  induction p generalizing s g with
  | ret a => trivial
  | call i next ih => exact ⟨h.1, ih _ h.2 _⟩
  | diverge => trivial

theorem notes_bind (p : Program ι ρ α) (f : α → Program ι ρ β) (s : σ) :
    notes act note (p.bind f) s = notes act note p s ++
      ((exec act p s).map fun r => notes act note (f r.1) r.2).getD [] := by
  induction p generalizing s with
  | ret a => rfl
  | call i next ih => simp only [bind, notes, exec, ih, List.append_assoc]
  | diverge => rfl

variable (act note) in
/-- The program ends, and its value, the state and the notes that were taken meet `post`. -/
def Leads (post : α → σ → List γ → Prop) (p : Program ι ρ α) (s : σ) : Prop :=
  ∃ a s', exec act p s = some (a, s') ∧ post a s' (notes act note p s)

theorem leads_ret {post : α → σ → List γ → Prop} {a : α} {s : σ} (h : post a s []) :
    Leads act note post (.ret a) s :=
  ⟨a, s, rfl, h⟩

theorem leads_perform {i : ι} {post : ρ i → σ → List γ → Prop} {s : σ}
    (h : post (act i s).1 (act i s).2 (note s i)) : Leads act note post (perform i) s := by
  refine ⟨_, _, rfl, ?_⟩
  rw [perform, notes, notes, List.append_nil]
  exact h

theorem Leads.bind {mid : α → σ → List γ → Prop} {post : β → σ → List γ → Prop}
    {p : Program ι ρ α} {f : α → Program ι ρ β} {s : σ} (hp : Leads act note mid p s)
    (hf : ∀ a s' g, mid a s' g →
      Leads act note (fun b s'' g' => post b s'' (g ++ g')) (f a) s') :
    Leads act note post (p.bind f) s := by
  obtain ⟨a, s', hexec, hmid⟩ := hp
  obtain ⟨b, s'', hexec', hpost⟩ := hf a s' _ hmid
  refine ⟨b, s'', ?_, ?_⟩
  · rw [exec_bind, hexec]
    exact hexec'
  · rw [notes_bind, hexec]
    exact hpost

theorem Leads.mono {post post' : α → σ → List γ → Prop} {p : Program ι ρ α} {s : σ}
    (h : ∀ a s' g, post a s' g → post' a s' g) (hp : Leads act note post p s) :
    Leads act note post' p s := by
  obtain ⟨a, s', hexec, hpost⟩ := hp
  exact ⟨a, s', hexec, h _ _ _ hpost⟩

/-- A program that ends takes one list of notes, and what is said of its notes is said of it. -/
theorem leads_notes_iff {post : List γ → Prop} {p : Program ι ρ α} {s : σ} {noted : List γ}
    (h : Leads act note (fun _ _ g => g = noted) p s) :
    Leads act note (fun _ _ g => post g) p s ↔ post noted := by
  obtain ⟨a, s', hexec, rfl⟩ := h
  exact ⟨fun ⟨_, _, _, hpost⟩ => hpost, fun hpost => ⟨a, s', hexec, hpost⟩⟩

theorem notes_of_makes {Q : ι → Prop} (hnote : ∀ s i, Q i → note s i = []) {p : Program ι ρ α}
    (hmakes : Makes Q p) (s : σ) : notes act note p s = [] := by
  induction p generalizing s with
  | ret a => rfl
  | call i next ih => rw [notes, hnote s i hmakes.1, List.nil_append, ih _ (hmakes.2 _)]
  | diverge => rfl

/-- A program that ends, and whose calls keep an invariant and leave no notes. -/
theorem leads_of_makes {P : σ → Prop} {Q : ι → Prop} (hkeep : ∀ s i, Q i → P s → P (act i s).2)
    (hnote : ∀ s i, Q i → note s i = []) {p : Program ι ρ α} (hmakes : Makes Q p)
    (hhalts : Halts p) {s : σ} (hs : P s) :
    Leads act note (fun _ s' g => P s' ∧ g = []) p s := by
  obtain ⟨a, s', hexec⟩ : ∃ a s', exec act p s = some (a, s') := hhalts.exec s
  exact ⟨a, s', hexec,
    exec_invariant (fun s i hi => hkeep s i hi) hs (hmakes.along (fun _ _ hi => hi) s) hexec,
    notes_of_makes hnote hmakes s⟩

/-- A loop each of whose rounds keeps an invariant and leaves the notes `g b`. -/
theorem leads_forEach {P : σ → Prop} {f : β → Program ι ρ Unit} {g : β → List γ} {bs : List β}
    (heach : ∀ b ∈ bs, ∀ s, P s → Leads act note (fun _ s' noted => P s' ∧ noted = g b) (f b) s)
    {s : σ} (hs : P s) :
    Leads act note (fun _ s' noted => P s' ∧ noted = bs.flatMap g) (forEach f bs) s := by
  induction bs generalizing s with
  | nil => exact leads_ret ⟨hs, rfl⟩
  | cons b bs ih =>
    refine (heach b List.mem_cons_self s hs).bind ?_
    rintro _ s₁ noted ⟨hs₁, hnoted⟩
    refine (ih (fun b hb => heach b (List.mem_cons_of_mem _ hb)) hs₁).mono ?_
    rintro _ s₂ noted' ⟨hs₂, hnoted'⟩
    exact ⟨hs₂, by rw [hnoted, hnoted', List.flatMap_cons]⟩

end Notes

end Programs

end Program

end NdnSvs.Lib
