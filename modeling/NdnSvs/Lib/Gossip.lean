import Mathlib.Data.Finset.Lattice.Fold
import Mathlib.Order.Lattice.Nat
import Mathlib.Logic.Relation
import Mathlib.Logic.Function.Basic

/-! Replicas that gossip values of a join-semilattice.  Each replica has a causal past, a set of
updates.  Over every run, in which messages are delivered in any order, many times or never, a
replica's value is the join of what its past contributed. -/

namespace NdnSvs.Lib.Gossip

variable {ι υ α : Type*}

/-- A value with the updates that it is made from. -/
structure Replica (υ α : Type*) where
  past : Finset υ
  value : α

structure System (ι υ α : Type*) where
  replica : ι → Replica υ α
  messages : Set (Replica υ α)

namespace System

variable [DecidableEq ι]

def set (s : System ι υ α) (i : ι) (r : Replica υ α) : System ι υ α :=
  { s with replica := Function.update s.replica i r }

@[simp] theorem set_replica_self (s : System ι υ α) (i : ι) (r : Replica υ α) :
    (s.set i r).replica i = r := Function.update_self ..

theorem set_replica_ne (s : System ι υ α) {i j : ι} (r : Replica υ α) (h : j ≠ i) :
    (s.set i r).replica j = s.replica j := Function.update_of_ne h ..

end System

section Accounted

variable [SemilatticeSup α] [OrderBot α]

def System.initial : System ι υ α := ⟨fun _ => ⟨∅, ⊥⟩, ∅⟩

/-- The value is the join of what the past contributed. -/
def Replica.Accounted (contribution : υ → α) (r : Replica υ α) : Prop :=
  r.value = r.past.sup contribution

/-- Every replica and every message is accounted for. -/
structure System.Accounted (contribution : υ → α) (s : System ι υ α) : Prop where
  replica : ∀ i, (s.replica i).Accounted contribution
  message : ∀ m ∈ s.messages, m.Accounted contribution

theorem System.accounted_initial (contribution : υ → α) :
    (System.initial : System ι υ α).Accounted contribution :=
  ⟨fun _ => Finset.sup_empty.symm, fun _ hm => hm.elim⟩

end Accounted

section Steps

variable [DecidableEq ι] [DecidableEq υ] [SemilatticeSup α] [OrderBot α]

namespace System

/-- A replica makes an update of its own. -/
def update (contribution : υ → α) (s : System ι υ α) (i : ι) (u : υ) : System ι υ α :=
  s.set i ⟨insert u (s.replica i).past, (s.replica i).value ⊔ contribution u⟩

/-- A replica sends a copy of itself. -/
def emit (s : System ι υ α) (i : ι) : System ι υ α :=
  { s with messages := insert (s.replica i) s.messages }

/-- A replica takes in a message. -/
def deliver (s : System ι υ α) (i : ι) (m : Replica υ α) : System ι υ α :=
  s.set i ⟨(s.replica i).past ∪ m.past, (s.replica i).value ⊔ m.value⟩

end System

inductive Step (contribution : υ → α) : System ι υ α → System ι υ α → Prop
  | update (s : System ι υ α) (i : ι) (u : υ) : Step contribution s (s.update contribution i u)
  | emit (s : System ι υ α) (i : ι) : Step contribution s (s.emit i)
  | deliver (s : System ι υ α) (i : ι) (m : Replica υ α) (hm : m ∈ s.messages) :
      Step contribution s (s.deliver i m)

def Reachable (contribution : υ → α) (s : System ι υ α) : Prop :=
  Relation.ReflTransGen (Step contribution) System.initial s

variable {contribution : υ → α}

omit [DecidableEq υ] in
theorem System.Accounted.set {s : System ι υ α} (h : s.Accounted contribution) {i : ι}
    {r : Replica υ α} (hr : r.Accounted contribution) : (s.set i r).Accounted contribution := by
  refine ⟨fun j => ?_, h.message⟩
  by_cases hj : j = i
  · subst hj
    rw [System.set_replica_self]
    exact hr
  · rw [System.set_replica_ne s r hj]
    exact h.replica j

theorem Step.accounted {s s' : System ι υ α} (hs : s.Accounted contribution)
    (h : Step contribution s s') : s'.Accounted contribution := by
  cases h with
  | update i u =>
    refine hs.set ?_
    rw [Replica.Accounted, Finset.sup_insert, hs.replica i]
    exact sup_comm _ _
  | emit i =>
    refine ⟨hs.replica, fun m hm => ?_⟩
    rcases Set.mem_insert_iff.mp hm with rfl | hm
    · exact hs.replica i
    · exact hs.message m hm
  | deliver i m hm =>
    refine hs.set ?_
    rw [Replica.Accounted, Finset.sup_union, hs.replica i, hs.message m hm]

theorem Reachable.accounted {s : System ι υ α} (h : Reachable contribution s) :
    s.Accounted contribution := by
  induction h with
  | refl => exact System.accounted_initial contribution
  | tail _ hstep ih => exact hstep.accounted ih

end Steps

end NdnSvs.Lib.Gossip
