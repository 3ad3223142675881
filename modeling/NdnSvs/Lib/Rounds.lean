import Mathlib.Data.List.Nodup

/-! A line of numbered places and rounds over it.  A round serves some places, the newest first, and
passes over the others; a place leaves the line when it has been served, or passed over, often
enough.  The results bound how often a place is served and for how many rounds it stays, and say
that the line keeps its order. -/

namespace NdnSvs.Lib

/-- A place in a line, with how often it has been served and how often it has been passed over. -/
structure Place where
  number : Nat
  served : Nat := 0
  passed : Nat := 0

/-- A place after a round, nothing when it leaves the line. -/
def Place.next (services passes : Nat) (place : Place) (isServed : Bool) : Option Place :=
  if isServed then
    if place.served + 1 < services then some { place with served := place.served + 1 } else none
  else
    if place.passed + 1 < passes then some { place with passed := place.passed + 1 } else none

/-- A line, the number of places that have joined it, and the numbers that have been served, in the
order in which they were. -/
structure Line where
  places : List Place := []
  joined : Nat := 0
  served : List Nat := []

namespace Line

inductive Step
  | join
  | round (isServed : Nat → Bool)

def numbers (l : Line) : List Nat := l.places.map Place.number

def step (services passes : Nat) (l : Line) : Step → Line
  | .join =>
    { l with places := l.places ++ [{ number := l.joined }], joined := l.joined + 1 }
  | .round isServed =>
    { l with
      places := l.places.filterMap fun place => place.next services passes (isServed place.number)
      served := l.served ++ l.numbers.reverse.filter isServed }

/-- The number of rounds. -/
def rounds : List Step → Nat
  | [] => 0
  | .join :: steps => rounds steps
  | .round _ :: steps => rounds steps + 1

theorem rounds_append (before after : List Step) :
    rounds (before ++ after) = rounds before + rounds after := by
  induction before with
  | nil => exact (Nat.zero_add _).symm
  | cons s before ih =>
    cases s with
    | join => exact ih
    | round isServed => rw [List.cons_append, rounds, rounds, ih, Nat.add_right_comm]

variable {services passes : Nat}

theorem next_eq_some {place place' : Place} {isServed : Bool}
    (h : place.next services passes isServed = some place') :
    place'.number = place.number ∧ place'.served = place.served + isServed.toNat ∧
      place'.passed = place.passed + (!isServed).toNat ∧
      (isServed → place'.served < services) ∧ (¬isServed → place'.passed < passes) := by
  rw [Place.next] at h
  cases isServed with
  | true =>
    rw [if_pos rfl] at h
    split at h
    · rename_i hlt
      obtain rfl := Option.some.inj h
      exact ⟨rfl, rfl, rfl, fun _ => hlt, fun hnot => absurd rfl hnot⟩
    · cases h
  | false =>
    rw [if_neg Bool.false_ne_true] at h
    split at h
    · rename_i hlt
      obtain rfl := Option.some.inj h
      exact ⟨rfl, rfl, rfl, fun hserved => absurd hserved Bool.false_ne_true, fun _ => hlt⟩
    · cases h

/-- The places are in the order in which they joined, each once; what they have been given is within
the bounds, and is what has been given out to their numbers. -/
structure Bounded (services passes : Nat) (l : Line) : Prop where
  ordered : l.numbers.Pairwise (· < ·)
  number_lt : ∀ place ∈ l.places, place.number < l.joined
  served_lt_joined : ∀ n ∈ l.served, n < l.joined
  counted : ∀ place ∈ l.places, place.served = l.served.count place.number
  served_lt : ∀ place ∈ l.places, place.served < max 1 services
  passed_lt : ∀ place ∈ l.places, place.passed < max 1 passes
  count_le : ∀ n, l.served.count n ≤ max 1 services

theorem bounded_empty : Bounded services passes {} where
  ordered := .nil
  number_lt := nofun
  served_lt_joined := nofun
  counted := nofun
  served_lt := nofun
  passed_lt := nofun
  count_le _ := Nat.zero_le _

theorem Bounded.nodup {l : Line} (h : l.Bounded services passes) : l.numbers.Nodup :=
  h.ordered.imp fun hlt => Nat.ne_of_lt hlt

theorem Bounded.join {l : Line} (h : l.Bounded services passes) :
    (l.step services passes .join).Bounded services passes where
  ordered := by
    rw [numbers, step, List.map_append]
    refine List.pairwise_append.mpr ⟨h.ordered, List.pairwise_singleton _ _, fun n hn m hm => ?_⟩
    obtain ⟨place, hplace, rfl⟩ := List.mem_map.mp hn
    obtain rfl := List.mem_singleton.mp hm
    exact h.number_lt place hplace
  number_lt := by
    intro place hplace
    rcases List.mem_append.mp hplace with hplace | hplace
    · exact Nat.lt_succ_of_lt (h.number_lt place hplace)
    · obtain rfl := List.mem_singleton.mp hplace
      exact Nat.lt_succ_self _
  served_lt_joined n hn := Nat.lt_succ_of_lt (h.served_lt_joined n hn)
  counted := by
    intro place hplace
    rcases List.mem_append.mp hplace with hplace | hplace
    · exact h.counted place hplace
    · -- a number that has just been given out has not been served
      obtain rfl := List.mem_singleton.mp hplace
      refine (List.count_eq_zero.mpr fun hserved => ?_).symm
      exact Nat.lt_irrefl _ (h.served_lt_joined _ hserved)
  served_lt := by
    intro place hplace
    rcases List.mem_append.mp hplace with hplace | hplace
    · exact h.served_lt place hplace
    · obtain rfl := List.mem_singleton.mp hplace
      exact Nat.lt_of_lt_of_le Nat.one_pos (Nat.le_max_left _ _)
  passed_lt := by
    intro place hplace
    rcases List.mem_append.mp hplace with hplace | hplace
    · exact h.passed_lt place hplace
    · obtain rfl := List.mem_singleton.mp hplace
      exact Nat.lt_of_lt_of_le Nat.one_pos (Nat.le_max_left _ _)
  count_le := h.count_le

theorem count_filter_reverse {ns : List Nat} (hns : ns.Nodup) (p : Nat → Bool) (n : Nat) :
    (ns.reverse.filter p).count n = if n ∈ ns ∧ p n then 1 else 0 := by
  have hnodup : (ns.reverse.filter p).Nodup := (List.nodup_reverse.mpr hns).filter p
  simp only [hnodup.count, List.mem_filter, List.mem_reverse]

theorem Bounded.round {l : Line} (h : l.Bounded services passes) (isServed : Nat → Bool) :
    (l.step services passes (.round isServed)).Bounded services passes where
  ordered := by
    refine List.pairwise_map.mpr (List.Pairwise.filterMap _ ?_ (List.pairwise_map.mp h.ordered))
    intro place place' hlt next hnext next' hnext'
    rw [(next_eq_some hnext).1, (next_eq_some hnext').1]
    exact hlt
  number_lt := by
    intro place hplace
    obtain ⟨before, hbefore, hnext⟩ := List.mem_filterMap.mp hplace
    rw [(next_eq_some hnext).1]
    exact h.number_lt before hbefore
  served_lt_joined := by
    intro n hn
    rcases List.mem_append.mp hn with hn | hn
    · exact h.served_lt_joined n hn
    · obtain ⟨place, hplace, rfl⟩ := List.mem_map.mp (List.mem_reverse.mp (List.mem_filter.mp hn).1)
      exact h.number_lt place hplace
  counted := by
    intro place hplace
    obtain ⟨before, hbefore, hnext⟩ := List.mem_filterMap.mp hplace
    obtain ⟨hnumber, hserved, -⟩ := next_eq_some hnext
    have hmem : before.number ∈ l.numbers := List.mem_map_of_mem hbefore
    rw [step, List.count_append, count_filter_reverse h.nodup, hnumber, hserved,
      h.counted before hbefore]
    cases isServed before.number with
    | true => simp [hmem]
    | false => simp
  served_lt := by
    intro place hplace
    obtain ⟨before, hbefore, hnext⟩ := List.mem_filterMap.mp hplace
    obtain ⟨-, hserved, -, hlt, -⟩ := next_eq_some hnext
    cases hs : isServed before.number with
    | true => exact Nat.lt_of_lt_of_le (hlt hs) (Nat.le_max_right _ _)
    | false =>
      rw [hserved, hs]
      exact h.served_lt before hbefore
  passed_lt := by
    intro place hplace
    obtain ⟨before, hbefore, hnext⟩ := List.mem_filterMap.mp hplace
    obtain ⟨-, -, hpassed, -, hlt⟩ := next_eq_some hnext
    cases hs : isServed before.number with
    | true =>
      rw [hpassed, hs]
      exact h.passed_lt before hbefore
    | false =>
      have hnot : ¬isServed before.number := by
        rw [hs]
        exact Bool.false_ne_true
      exact Nat.lt_of_lt_of_le (hlt hnot) (Nat.le_max_right _ _)
  count_le := by
    intro n
    rw [step, List.count_append, count_filter_reverse h.nodup]
    split
    · rename_i hserved
      obtain ⟨place, hplace, rfl⟩ := List.mem_map.mp hserved.1
      rw [← h.counted place hplace]
      exact h.served_lt place hplace
    · exact h.count_le n

theorem Bounded.step {l : Line} (h : l.Bounded services passes) (s : Step) :
    (l.step services passes s).Bounded services passes := by
  cases s with
  | join => exact h.join
  | round isServed => exact h.round isServed

theorem Bounded.steps {l : Line} (h : l.Bounded services passes) (steps : List Step) :
    (steps.foldl (Line.step services passes) l).Bounded services passes :=
  List.foldlRecOn steps _ h fun _ h s _ => h.step s

/-- A place that was in the line before some rounds has been served or passed over in each. -/
theorem origin {l : Line} (steps : List Step) {place : Place}
    (hplace : place ∈ (steps.foldl (step services passes) l).places)
    (hold : place.number < l.joined) : ∃ before ∈ l.places, before.number = place.number ∧
      place.served + place.passed = before.served + before.passed + rounds steps := by
  induction steps generalizing l with
  | nil => exact ⟨place, hplace, rfl, rfl⟩
  | cons s steps ih =>
    cases s with
    | join =>
      obtain ⟨before, hbefore, hnumber, htries⟩ := ih hplace (Nat.lt_succ_of_lt hold)
      rcases List.mem_append.mp hbefore with hbefore | hbefore
      · exact ⟨before, hbefore, hnumber, htries⟩
      · obtain rfl := List.mem_singleton.mp hbefore
        exact absurd hnumber (Nat.ne_of_gt hold)
    | round isServed =>
      obtain ⟨between, hbetween, hnumber, htries⟩ := ih hplace hold
      obtain ⟨before, hbefore, hnext⟩ := List.mem_filterMap.mp hbetween
      obtain ⟨hsame, hserved, hpassed, -⟩ := next_eq_some hnext
      refine ⟨before, hbefore, hsame.symm.trans hnumber, ?_⟩
      rw [htries, hserved, hpassed, rounds]
      cases isServed before.number with
      | true => simp only [Bool.toNat_true, Bool.not_true, Bool.toNat_false]; omega
      | false => simp only [Bool.toNat_false, Bool.not_false, Bool.toNat_true]; omega

/-- A place has left the line when there have been as many rounds as it can stay for. -/
theorem Bounded.leaves {l : Line} (h : l.Bounded services passes) {steps : List Step}
    (hrounds : max 1 services + max 1 passes - 1 ≤ rounds steps) {n : Nat} (hn : n ∈ l.numbers) :
    n ∉ (steps.foldl (Line.step services passes) l).numbers := by
  intro hstays
  obtain ⟨place, hplace, rfl⟩ := List.mem_map.mp hn
  obtain ⟨place', hplace', hnumber⟩ := List.mem_map.mp hstays
  have hold : place'.number < l.joined := hnumber ▸ h.number_lt place hplace
  obtain ⟨before, -, -, htries⟩ := origin steps hplace' hold
  have hserved := (h.steps steps).served_lt place' hplace'
  have hpassed := (h.steps steps).passed_lt place' hplace'
  omega

end Line

end NdnSvs.Lib
