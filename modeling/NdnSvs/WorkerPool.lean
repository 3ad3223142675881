import NdnSvs.Lib.Runs
import Mathlib.Data.List.Perm.Basic
import Mathlib.Algebra.BigOperators.Group.List.Basic
import Mathlib.Algebra.Order.Ring.Nat

/-! The pool of worker threads that both parallel modes of the core use: a bounded queue under a
mutex, a condition variable, and a shutdown that joins the workers.  A step is one critical section
or the end of one job, so that a run is an interleaving of the threads. -/

namespace NdnSvs

open Lib

/-- Where a worker stands in `run`. -/
inductive WorkerState (α : Type)
  /-- About to lock the mutex and to test the predicate of the wait. -/
  | awake
  /-- Blocked on the condition variable. -/
  | waiting
  | running (job : α)
  | returned

/-- How far `shutdown` has come. -/
inductive ShutdownState
  | open
  /-- The flag is set, the workers have not been notified. -/
  | stopped
  | notified
  | joined
deriving DecidableEq

structure SyncWorkerPool (α : Type) where
  maxQueueSize : Nat
  workers : List (WorkerState α)
  queue : List α := []
  shutdown : ShutdownState := .open

namespace WorkerState

variable {α : Type}

def isWaiting : WorkerState α → Bool
  | waiting => true
  | _ => false

def isReturned : WorkerState α → Bool
  | returned => true
  | _ => false

def job? : WorkerState α → Option α
  | running job => some job
  | _ => none

/-- The worker once every waiting one has been notified. -/
def notified : WorkerState α → WorkerState α
  | waiting => awake
  | w => w

/-- How many steps the worker takes before it waits or returns, when no job is queued. -/
def effort : WorkerState α → Nat
  | awake => 1
  | running _ => 2
  | waiting | returned => 0

end WorkerState

namespace SyncWorkerPool

open scoped List

variable {α : Type}

def create (workerThreads maxQueueSize : Nat) : SyncWorkerPool α where
  maxQueueSize := max 1 maxQueueSize
  workers := List.replicate (max 1 workerThreads) .awake

def isStopped (p : SyncWorkerPool α) : Bool := p.shutdown ≠ .open

/-- Whether `post` refuses a job. -/
def refuses (p : SyncWorkerPool α) : Bool := p.isStopped || p.maxQueueSize ≤ p.queue.length

/-- Wakes one waiting worker, none only when no worker waits. -/
def notifyOne (p : SyncWorkerPool α) : Option Nat → Option (SyncWorkerPool α)
  | none => if p.workers.any WorkerState.isWaiting then none else some p
  | some i =>
    match p.workers[i]? with
    | some .waiting => some { p with workers := p.workers.set i .awake }
    | _ => none

def post (p : SyncWorkerPool α) (job : α) (woken : Option Nat) : Option (SyncWorkerPool α) :=
  if p.refuses then some p
  else ({ p with queue := p.queue ++ [job] } : SyncWorkerPool α).notifyOne woken

/-- A worker that has the mutex: it takes the next job, waits for one, or returns. -/
def test (p : SyncWorkerPool α) (i : Nat) : SyncWorkerPool α :=
  match p.queue with
  | job :: queue => { p with queue, workers := p.workers.set i (.running job) }
  | [] => { p with workers := p.workers.set i (if p.isStopped then .returned else .waiting) }

inductive Event (α : Type)
  | post (job : α) (woken : Option Nat)
  | test (worker : Nat)
  | finish (worker : Nat)
  /-- A waiting worker wakes up although nobody has notified it. -/
  | spuriousWakeUp (worker : Nat)
  | shutdown
  | notifyAll
  | join

/-- The state after an event, none when the event cannot happen. -/
def step (p : SyncWorkerPool α) : Event α → Option (SyncWorkerPool α)
  | .post job woken => p.post job woken
  | .test i =>
    match p.workers[i]? with
    | some .awake => some (p.test i)
    | _ => none
  | .finish i =>
    match p.workers[i]? with
    | some (.running _) => some { p with workers := p.workers.set i .awake }
    | _ => none
  | .spuriousWakeUp i =>
    match p.workers[i]? with
    | some .waiting => some { p with workers := p.workers.set i .awake }
    | _ => none
  | .shutdown => some (if p.isStopped then p else { p with shutdown := .stopped })
  | .notifyAll =>
    if p.shutdown = .stopped then
      some { p with workers := p.workers.map WorkerState.notified, shutdown := .notified }
    else none
  | .join =>
    if p.shutdown = .notified ∧ p.workers.all WorkerState.isReturned then
      some { p with shutdown := .joined }
    else none

/-- The jobs that workers are running. -/
def jobs (p : SyncWorkerPool α) : List α := p.workers.filterMap WorkerState.job?

/-- What has happened to the jobs, and how often the workers have made steps and have woken up
without a notification. -/
structure Notes (α : Type) where
  accepted : List α := []
  started : List α := []
  done : List α := []
  workerSteps : Nat := 0
  wakeUps : Nat := 0

def note (g : Notes α) (p : SyncWorkerPool α) : Event α → SyncWorkerPool α → Notes α
  | .post job _, _ => if p.refuses then g else { g with accepted := g.accepted ++ [job] }
  | .test _, _ =>
    { g with started := g.started ++ p.queue.head?.toList, workerSteps := g.workerSteps + 1 }
  | .finish i, _ =>
    { g with
      done := g.done ++ (p.workers[i]?.bind WorkerState.job?).toList
      workerSteps := g.workerSteps + 1 }
  | .spuriousWakeUp _, _ => { g with wakeUps := g.wakeUps + 1 }
  | _, _ => g

/-! ### What a step does -/

variable {p p' : SyncWorkerPool α} {g : Notes α} {e : Event α}

/-- A worker taken out of the list and put back in another state. -/
theorem set_perm {ws : List (WorkerState α)} {i : Nat} {w : WorkerState α} (h : ws[i]? = some w) :
    ∃ rest, ws.Perm (w :: rest) ∧ ∀ w', (ws.set i w').Perm (w' :: rest) := by
  obtain ⟨hi, hw⟩ := List.getElem?_eq_some_iff.mp h
  refine ⟨ws.eraseIdx i, ?_, fun w' => List.set_perm_cons_eraseIdx hi w'⟩
  exact hw ▸ (List.getElem_cons_eraseIdx_perm hi).symm

/-- The workers after one of them has changed its state. -/
structure Moves (p p' : SyncWorkerPool α) (w w' : WorkerState α) : Prop where
  maxQueueSize : p'.maxQueueSize = p.maxQueueSize
  shutdown : p'.shutdown = p.shutdown
  workers : ∃ rest, p.workers.Perm (w :: rest) ∧ p'.workers.Perm (w' :: rest)

theorem moves_set {i : Nat} {w w' : WorkerState α} {queue : List α} (h : p.workers[i]? = some w) :
    Moves p { p with queue, workers := p.workers.set i w' } w w' := by
  obtain ⟨rest, hold, hnew⟩ := set_perm h
  exact ⟨rfl, rfl, rest, hold, hnew w'⟩

/-- A job is refused, or it joins the queue and a waiting worker, if there is one, wakes up. -/
theorem step_post {job : α} {woken : Option Nat} :
    p.step (.post job woken) = some p' →
      (p.refuses ∧ p' = p) ∨
      (p.refuses = false ∧ p'.queue = p.queue ++ [job] ∧
        ((p' = { p with queue := p.queue ++ [job] } ∧ ∀ w ∈ p.workers, ¬w.isWaiting) ∨
          Moves p p' .waiting .awake)) := by
  intro h
  simp only [step, post] at h
  split at h
  · rename_i hrefuses
    exact .inl ⟨hrefuses, (Option.some.inj h).symm⟩
  · rename_i hrefuses
    refine .inr ⟨Bool.eq_false_iff.mpr hrefuses, ?_⟩
    cases woken with
    | none =>
      simp only [notifyOne] at h
      split at h
      · cases h
      · rename_i hwaiting
        obtain rfl := Option.some.inj h
        simp only [List.any_eq_true, not_exists, not_and] at hwaiting
        exact ⟨rfl, .inl ⟨rfl, hwaiting⟩⟩
    | some i =>
      simp only [notifyOne] at h
      split at h
      · rename_i hi
        obtain rfl := Option.some.inj h
        exact ⟨rfl, .inr (moves_set hi)⟩
      · cases h

/-- A worker takes the next job, or finds the queue empty and waits or returns. -/
theorem step_test {i : Nat} : p.step (.test i) = some p' →
    (∃ job, p.queue = job :: p'.queue ∧ Moves p p' .awake (.running job)) ∨
    (p.queue = [] ∧ p'.queue = [] ∧ p.isStopped = false ∧ Moves p p' .awake .waiting) ∨
    (p.queue = [] ∧ p'.queue = [] ∧ p.isStopped ∧ Moves p p' .awake .returned) := by
  intro h
  simp only [step] at h
  split at h
  · rename_i hi
    obtain rfl := Option.some.inj h
    unfold test
    split
    · rename_i job queue hq
      exact .inl ⟨job, hq, moves_set hi⟩
    · rename_i hq
      cases hstopped : p.isStopped with
      | false => exact .inr (.inl ⟨hq, hq, rfl, moves_set hi⟩)
      | true => exact .inr (.inr ⟨hq, hq, rfl, moves_set hi⟩)
  · cases h

theorem step_finish {i : Nat} : p.step (.finish i) = some p' →
    ∃ job, p.workers[i]? = some (.running job) ∧ p'.queue = p.queue ∧
      Moves p p' (.running job) .awake := by
  intro h
  simp only [step] at h
  split at h
  · rename_i job hi
    obtain rfl := Option.some.inj h
    exact ⟨job, hi, rfl, moves_set hi⟩
  · cases h

theorem step_spuriousWakeUp {i : Nat} : p.step (.spuriousWakeUp i) = some p' →
    p'.queue = p.queue ∧ Moves p p' .waiting .awake := by
  intro h
  simp only [step] at h
  split at h
  · rename_i hi
    obtain rfl := Option.some.inj h
    exact ⟨rfl, moves_set hi⟩
  · cases h

/-! ### The jobs -/

/-- The jobs are started in the order in which they were accepted, each once, and each that has
been started is running or done. -/
structure Serves (p : SyncWorkerPool α) (g : Notes α) : Prop where
  order : g.accepted = g.started ++ p.queue
  once : g.started.Perm (g.done ++ p.jobs)
  bound : p.queue.length ≤ p.maxQueueSize

theorem Moves.jobs {w w' : WorkerState α} (h : Moves p p' w w') :
    ∃ rest, p.jobs.Perm (w.job?.toList ++ rest) ∧ p'.jobs.Perm (w'.job?.toList ++ rest) := by
  obtain ⟨rest, hold, hnew⟩ := h.workers
  have htoList : ∀ w : WorkerState α, (w :: rest).filterMap WorkerState.job? =
      w.job?.toList ++ rest.filterMap WorkerState.job? := by
    intro w
    cases w <;> rfl
  exact ⟨rest.filterMap WorkerState.job?, htoList w ▸ hold.filterMap _,
    htoList w' ▸ hnew.filterMap _⟩

/-- The jobs stay when the worker runs none before and after. -/
theorem Moves.jobs_perm {w w' : WorkerState α} (h : Moves p p' w w') (hw : w.job? = none)
    (hw' : w'.job? = none) : p'.jobs.Perm p.jobs := by
  obtain ⟨rest, hold, hnew⟩ := h.jobs
  rw [hw] at hold
  rw [hw'] at hnew
  exact hnew.trans hold.symm

theorem jobs_notified (ws : List (WorkerState α)) :
    (ws.map WorkerState.notified).filterMap WorkerState.job? = ws.filterMap WorkerState.job? := by
  rw [List.filterMap_map]
  congr 1
  funext w
  cases w <;> rfl

theorem Serves.move {w w' : WorkerState α} (h : Serves p g) (hmoves : Moves p p' w w')
    (hqueue : p'.queue = p.queue) (hw : w.job? = none) (hw' : w'.job? = none)
    (wakeUps workerSteps : Nat) : Serves p' { g with wakeUps, workerSteps } where
  order := hqueue ▸ h.order
  once := h.once.trans ((hmoves.jobs_perm hw hw').symm.append_left _)
  bound := by
    rw [hqueue, hmoves.maxQueueSize]
    exact h.bound

theorem Serves.step (h : Serves p g) (hstep : p.step e = some p') :
    Serves p' (note g p e p') := by
  cases e with
  | post job woken =>
    rcases step_post hstep with ⟨hrefuses, rfl⟩ | ⟨hrefuses, hqueue, hrest⟩
    · simpa only [note, hrefuses, if_true] using h
    · have hroom : p.queue.length < p.maxQueueSize := by
        simp only [refuses, Bool.or_eq_false_iff, decide_eq_false_iff_not] at hrefuses
        exact Nat.not_le.mp hrefuses.2
      have hmax : p'.maxQueueSize = p.maxQueueSize := by
        rcases hrest with ⟨rfl, -⟩ | hmoves
        · rfl
        · exact hmoves.maxQueueSize
      have hjobs : p'.jobs.Perm p.jobs := by
        rcases hrest with ⟨rfl, -⟩ | hmoves
        · exact .rfl
        · exact hmoves.jobs_perm rfl rfl
      simp only [note, hrefuses, Bool.false_eq_true, if_false]
      refine ⟨?_, h.once.trans (hjobs.symm.append_left _), ?_⟩
      · rw [hqueue, ← List.append_assoc, ← h.order]
      · rw [hqueue, hmax, List.length_append, List.length_singleton]
        exact hroom
  | test i =>
    rcases step_test hstep with ⟨job, hqueue, hmoves⟩ | ⟨hq, hq', -, hmoves⟩ | ⟨hq, hq', -, hmoves⟩
    · obtain ⟨rest, hold, hnew⟩ := hmoves.jobs
      simp only [note, hqueue, List.head?_cons, Option.toList_some]
      refine ⟨?_, ?_, ?_⟩
      · rw [List.append_assoc, List.singleton_append, ← hqueue]
        exact h.order
      · have hstarted : g.started.Perm (g.done ++ rest) := h.once.trans (hold.append_left _)
        calc g.started ++ [job] ~ (g.done ++ rest) ++ [job] := hstarted.append_right _
          _ ~ g.done ++ (rest ++ [job]) := by rw [List.append_assoc]
          _ ~ g.done ++ (job :: rest) := (List.perm_append_singleton job rest).append_left _
          _ ~ g.done ++ p'.jobs := hnew.symm.append_left _
      · have hbound := h.bound
        rw [hqueue, List.length_cons] at hbound
        rw [hmoves.maxQueueSize]
        omega
    · simp only [note, hq, List.head?_nil, Option.toList_none, List.append_nil]
      exact h.move hmoves (hq'.trans hq.symm) rfl rfl _ _
    · simp only [note, hq, List.head?_nil, Option.toList_none, List.append_nil]
      exact h.move hmoves (hq'.trans hq.symm) rfl rfl _ _
  | finish i =>
    obtain ⟨job, hi, hqueue, hmoves⟩ := step_finish hstep
    obtain ⟨rest, hold, hnew⟩ := hmoves.jobs
    have hdone : (some (WorkerState.running job)).bind WorkerState.job? = some job := rfl
    simp only [note, hi, hdone, Option.toList_some]
    refine ⟨hqueue ▸ h.order, ?_, by rw [hqueue, hmoves.maxQueueSize]; exact h.bound⟩
    calc g.started ~ g.done ++ p.jobs := h.once
      _ ~ g.done ++ (job :: rest) := hold.append_left _
      _ ~ (g.done ++ [job]) ++ rest := by rw [List.append_assoc, List.singleton_append]
      _ ~ (g.done ++ [job]) ++ p'.jobs := hnew.symm.append_left _
  | spuriousWakeUp i =>
    obtain ⟨hqueue, hmoves⟩ := step_spuriousWakeUp hstep
    exact h.move hmoves hqueue rfl rfl _ _
  | shutdown =>
    simp only [step] at hstep
    obtain rfl := Option.some.inj hstep
    simp only [note]
    split
    · exact h
    · exact ⟨h.order, h.once, h.bound⟩
  | notifyAll =>
    simp only [step, Option.ite_none_right_eq_some, Option.some.injEq] at hstep
    obtain ⟨-, rfl⟩ := hstep
    exact ⟨h.order, by simpa only [note, jobs, jobs_notified] using h.once, h.bound⟩
  | join =>
    simp only [step, Option.ite_none_right_eq_some, Option.some.injEq] at hstep
    obtain ⟨-, rfl⟩ := hstep
    exact ⟨h.order, h.once, h.bound⟩

/-! ### Wake-ups and shutdown -/

/-- No wake-up is lost: a worker that is not asleep is there for the jobs in the queue, and nobody
sleeps once the pool has notified its workers of the shutdown. -/
structure Alert (p : SyncWorkerPool α) : Prop where
  workers : p.workers ≠ []
  attended : p.queue ≠ [] → ∃ w ∈ p.workers, 0 < w.effort
  returned : ∀ w ∈ p.workers, w.isReturned → p.isStopped ∧ p.queue = []
  notified : p.shutdown ≠ .open → p.shutdown ≠ .stopped → ∀ w ∈ p.workers, ¬w.isWaiting
  joined : p.shutdown = .joined → ∀ w ∈ p.workers, w.isReturned

theorem Moves.isStopped {w w' : WorkerState α} (h : Moves p p' w w') :
    p'.isStopped = p.isStopped := by
  unfold SyncWorkerPool.isStopped
  rw [h.shutdown]

theorem Moves.mem {w w' : WorkerState α} (h : Moves p p' w w') : w ∈ p.workers := by
  obtain ⟨rest, hold, -⟩ := h.workers
  exact hold.mem_iff.mpr List.mem_cons_self

theorem Moves.mem_new {w w' : WorkerState α} (h : Moves p p' w w') : w' ∈ p'.workers := by
  obtain ⟨rest, -, hnew⟩ := h.workers
  exact hnew.mem_iff.mpr List.mem_cons_self

/-- A worker after the step is the one that has moved or was there before. -/
theorem Moves.cases {w w' v : WorkerState α} (h : Moves p p' w w') (hv : v ∈ p'.workers) :
    v = w' ∨ v ∈ p.workers := by
  obtain ⟨rest, hold, hnew⟩ := h.workers
  rcases List.mem_cons.mp (hnew.mem_iff.mp hv) with rfl | hrest
  · exact .inl rfl
  · exact .inr (hold.mem_iff.mpr (List.mem_cons_of_mem _ hrest))

/-- What a move keeps when the worker was not returned, the queue is attended afterwards and the
worker sleeps or returns only where it may. -/
theorem Alert.move {w w' : WorkerState α} (h : Alert p) (hmoves : Moves p p' w w')
    (hattended : p'.queue ≠ [] → ∃ w ∈ p'.workers, 0 < w.effort)
    (hqueue : p.isStopped → p.queue = [] → p'.queue = []) (hw : w.isReturned = false)
    (hreturned : w'.isReturned → p.isStopped ∧ p'.queue = [])
    (hwaiting : w'.isWaiting → p.isStopped = false) : Alert p' where
  workers := List.ne_nil_of_mem hmoves.mem_new
  attended := hattended
  returned := by
    intro v hv hv'
    rw [hmoves.isStopped]
    rcases hmoves.cases hv with rfl | hv
    · exact hreturned hv'
    · obtain ⟨hstopped, hempty⟩ := h.returned v hv hv'
      exact ⟨hstopped, hqueue hstopped hempty⟩
  notified := by
    intro hopen hnotified v hv hv'
    rw [hmoves.shutdown] at hopen hnotified
    rcases hmoves.cases hv with rfl | hv
    · have hstopped := hwaiting hv'
      simp only [isStopped, decide_eq_false_iff_not, not_not] at hstopped
      exact hopen hstopped
    · exact h.notified hopen hnotified v hv hv'
  joined := by
    intro hjoined
    rw [hmoves.shutdown] at hjoined
    have hall := h.joined hjoined w hmoves.mem
    rw [hw] at hall
    cases hall

theorem refuses_of_isStopped (h : p.isStopped) : p.refuses := by
  rw [refuses, h, Bool.true_or]

/-- An open pool whose workers all sleep or work has one to notify, or one that is not asleep. -/
theorem Alert.active (h : Alert p) (hopen : p.isStopped = false)
    (hwaiting : ∀ w ∈ p.workers, ¬w.isWaiting) : ∃ w ∈ p.workers, 0 < w.effort := by
  obtain ⟨w, hw⟩ := List.exists_mem_of_ne_nil _ h.workers
  refine ⟨w, hw, ?_⟩
  cases hstate : w with
  | awake => exact Nat.one_pos
  | running job => exact Nat.two_pos
  | waiting => exact absurd (by rw [hstate]; rfl) (hwaiting w hw)
  | returned =>
    have hstopped := (h.returned w hw (by rw [hstate]; rfl)).1
    rw [hopen] at hstopped
    cases hstopped

theorem Alert.step (h : Alert p) (hstep : p.step e = some p') : Alert p' := by
  cases e with
  | post job woken =>
    rcases step_post hstep with ⟨-, rfl⟩ | ⟨hrefuses, hqueue, ⟨rfl, hwaiting⟩ | hmoves⟩
    · exact h
    · have hopen : p.isStopped = false := (Bool.or_eq_false_iff.mp hrefuses).1
      refine ⟨h.workers, fun _ => h.active hopen hwaiting, fun w hw hw' => ?_, h.notified, h.joined⟩
      have hstopped := (h.returned w hw hw').1
      rw [hopen] at hstopped
      cases hstopped
    · have hopen : p.isStopped = false := (Bool.or_eq_false_iff.mp hrefuses).1
      refine h.move hmoves (fun _ => ⟨_, hmoves.mem_new, Nat.one_pos⟩) ?_ rfl
        (by simp [WorkerState.isReturned]) (fun _ => hopen)
      intro hstopped
      rw [hopen] at hstopped
      cases hstopped
  | test i =>
    rcases step_test hstep with
      ⟨job, hqueue, hmoves⟩ | ⟨hq, hq', hopen, hmoves⟩ | ⟨hq, hq', hstopped, hmoves⟩
    · refine h.move hmoves (fun _ => ⟨_, hmoves.mem_new, Nat.two_pos⟩) ?_ rfl
        (by simp [WorkerState.isReturned]) (by simp [WorkerState.isWaiting])
      intro _ hempty
      rw [hqueue] at hempty
      cases hempty
    · exact h.move hmoves (fun hne => absurd hq' hne) (fun _ _ => hq') rfl
        (by simp [WorkerState.isReturned]) (fun _ => hopen)
    · exact h.move hmoves (fun hne => absurd hq' hne) (fun _ _ => hq') rfl
        (fun _ => ⟨hstopped, hq'⟩) (by simp [WorkerState.isWaiting])
  | finish i =>
    obtain ⟨job, -, hqueue, hmoves⟩ := step_finish hstep
    exact h.move hmoves (fun _ => ⟨_, hmoves.mem_new, Nat.one_pos⟩) (fun _ hq => hqueue.trans hq)
      rfl (by simp [WorkerState.isReturned]) (by simp [WorkerState.isWaiting])
  | spuriousWakeUp i =>
    obtain ⟨hqueue, hmoves⟩ := step_spuriousWakeUp hstep
    exact h.move hmoves (fun _ => ⟨_, hmoves.mem_new, Nat.one_pos⟩) (fun _ hq => hqueue.trans hq)
      rfl (by simp [WorkerState.isReturned]) (by simp [WorkerState.isWaiting])
  | shutdown =>
    simp only [SyncWorkerPool.step] at hstep
    obtain rfl := Option.some.inj hstep
    split
    · exact h
    · refine ⟨h.workers, h.attended, fun w hw hw' => ⟨rfl, (h.returned w hw hw').2⟩, ?_, ?_⟩
      · exact fun _ hnotified => absurd rfl hnotified
      · exact fun hjoined => ShutdownState.noConfusion hjoined
  | notifyAll =>
    simp only [SyncWorkerPool.step, Option.ite_none_right_eq_some, Option.some.injEq] at hstep
    obtain ⟨hstopped, rfl⟩ := hstep
    have hisStopped : p.isStopped := by rw [isStopped, hstopped]; rfl
    refine ⟨?_, ?_, ?_, ?_, fun hjoined => ShutdownState.noConfusion hjoined⟩
    · exact fun hnil => h.workers (List.map_eq_nil_iff.mp hnil)
    · intro hqueue
      obtain ⟨w, hw, hpos⟩ := h.attended hqueue
      refine ⟨w.notified, List.mem_map_of_mem hw, ?_⟩
      cases w <;> simp_all [WorkerState.notified, WorkerState.effort]
    · intro v hv hv'
      obtain ⟨w, hw, rfl⟩ := List.mem_map.mp hv
      have hw' : w.isReturned := by
        cases w <;> simp_all [WorkerState.notified, WorkerState.isReturned]
      exact ⟨rfl, (h.returned w hw hw').2⟩
    · intro _ _ v hv
      obtain ⟨w, -, rfl⟩ := List.mem_map.mp hv
      cases w <;> simp [WorkerState.notified, WorkerState.isWaiting]
  | join =>
    simp only [SyncWorkerPool.step, Option.ite_none_right_eq_some, Option.some.injEq] at hstep
    obtain ⟨⟨hnotified, hall⟩, rfl⟩ := hstep
    have hstates : p.shutdown ≠ .open ∧ p.shutdown ≠ .stopped := by
      rw [hnotified]
      exact ⟨ShutdownState.noConfusion, ShutdownState.noConfusion⟩
    have hisStopped : p.isStopped := by rw [isStopped, hnotified]; rfl
    refine ⟨h.workers, h.attended, ?_, fun _ _ => h.notified hstates.1 hstates.2,
      fun _ => List.all_eq_true.mp hall⟩
    exact fun w hw hw' => ⟨rfl, (h.returned w hw hw').2⟩

/-! ### The work -/

/-- How many steps the workers can make before all of them wait or have returned. -/
def effort (p : SyncWorkerPool α) : Nat :=
  2 * p.queue.length + (p.workers.map WorkerState.effort).sum

/-- The workers that the notification of a shutdown can still wake up. -/
def toNotify (p : SyncWorkerPool α) : Nat :=
  if p.shutdown = .open ∨ p.shutdown = .stopped then p.workers.length else 0

/-- The steps made and those to come, against a budget: a job adds three to it, a wake-up without
a notification one. -/
def Spends (budget : Int) (p : SyncWorkerPool α) (g : Notes α) : Prop :=
  (g.workerSteps + p.effort + p.toNotify : Int) ≤ budget + 3 * g.accepted.length + g.wakeUps

theorem Moves.length {w w' : WorkerState α} (h : Moves p p' w w') :
    p'.workers.length = p.workers.length := by
  obtain ⟨rest, hold, hnew⟩ := h.workers
  rw [hold.length_eq, hnew.length_eq, List.length_cons, List.length_cons]

theorem Moves.effort {w w' : WorkerState α} (h : Moves p p' w w') :
    p'.effort + w.effort + 2 * p.queue.length = p.effort + w'.effort + 2 * p'.queue.length := by
  obtain ⟨rest, hold, hnew⟩ := h.workers
  have hsum := (hold.map WorkerState.effort).sum_eq
  have hsum' := (hnew.map WorkerState.effort).sum_eq
  rw [List.map_cons, List.sum_cons] at hsum hsum'
  simp only [SyncWorkerPool.effort, hsum, hsum']
  omega

theorem Moves.toNotify {w w' : WorkerState α} (h : Moves p p' w w') :
    p'.toNotify = p.toNotify := by
  unfold SyncWorkerPool.toNotify
  rw [h.shutdown, h.length]

theorem effort_notified (ws : List (WorkerState α)) :
    ((ws.map WorkerState.notified).map WorkerState.effort).sum ≤
      (ws.map WorkerState.effort).sum + ws.length := by
  induction ws with
  | nil => exact Nat.le_refl _
  | cons w ws ih =>
    have hw : w.notified.effort ≤ w.effort + 1 := by
      cases w <;> simp [WorkerState.notified, WorkerState.effort]
    simp only [List.map_cons, List.sum_cons, List.length_cons]
    omega

theorem Spends.step {budget : Int} (h : Spends budget p g) (hstep : p.step e = some p') :
    Spends budget p' (note g p e p') := by
  unfold Spends at h ⊢
  cases e with
  | post job woken =>
    rcases step_post hstep with ⟨hrefuses, rfl⟩ | ⟨hrefuses, hqueue, hrest⟩
    · simpa only [note, hrefuses, if_true] using h
    · have hlength := congrArg List.length hqueue
      simp only [note, hrefuses, Bool.false_eq_true, if_false, List.length_append,
        List.length_singleton] at hlength ⊢
      rcases hrest with ⟨rfl, -⟩ | hmoves
      · simp only [effort, toNotify, List.length_append, List.length_singleton] at h ⊢
        omega
      · have heffort := hmoves.effort
        rw [hmoves.toNotify]
        simp only [WorkerState.effort] at heffort
        omega
  | test i =>
    simp only [note]
    rcases step_test hstep with ⟨job, hqueue, hmoves⟩ | ⟨hq, hq', -, hmoves⟩ | ⟨hq, hq', -, hmoves⟩
    · have heffort := hmoves.effort
      rw [hmoves.toNotify]
      simp only [hqueue, List.length_cons, WorkerState.effort] at heffort
      omega
    · have heffort := hmoves.effort
      rw [hmoves.toNotify]
      simp only [hq, hq', WorkerState.effort] at heffort
      omega
    · have heffort := hmoves.effort
      rw [hmoves.toNotify]
      simp only [hq, hq', WorkerState.effort] at heffort
      omega
  | finish i =>
    obtain ⟨job, -, hqueue, hmoves⟩ := step_finish hstep
    have heffort := hmoves.effort
    simp only [note]
    rw [hmoves.toNotify]
    simp only [hqueue, WorkerState.effort] at heffort
    omega
  | spuriousWakeUp i =>
    obtain ⟨hqueue, hmoves⟩ := step_spuriousWakeUp hstep
    have heffort := hmoves.effort
    simp only [note]
    rw [hmoves.toNotify]
    simp only [hqueue, WorkerState.effort] at heffort
    omega
  | shutdown =>
    simp only [SyncWorkerPool.step] at hstep
    obtain rfl := Option.some.inj hstep
    simp only [note]
    split
    · exact h
    · rename_i hopen
      simp only [isStopped, decide_eq_true_eq, not_not] at hopen
      simp only [toNotify, effort, hopen, true_or, or_true, if_true] at h ⊢
      exact h
  | notifyAll =>
    simp only [SyncWorkerPool.step, Option.ite_none_right_eq_some, Option.some.injEq] at hstep
    obtain ⟨hstopped, rfl⟩ := hstep
    have hwoken := effort_notified p.workers
    simp only [note, toNotify, effort, hstopped, or_true, if_true, reduceCtorEq, or_self,
      if_false, List.length_map] at h ⊢
    omega
  | join =>
    simp only [SyncWorkerPool.step, Option.ite_none_right_eq_some, Option.some.injEq] at hstep
    obtain ⟨⟨hnotified, -⟩, rfl⟩ := hstep
    simp only [note, toNotify, effort, hnotified, reduceCtorEq, or_self, if_false] at h ⊢
    exact h

/-! ### Runs -/

/-- What holds in each state that a run of the threads reaches. -/
structure Runs (workerThreads maxQueueSize : Nat) (p : SyncWorkerPool α) (g : Notes α) : Prop where
  serves : Serves p g
  alert : Alert p
  spends : Spends (2 * max 1 workerThreads) p g
  maxQueueSize : p.maxQueueSize = max 1 maxQueueSize
  workers : p.workers.length = max 1 workerThreads

theorem step_sizes (hstep : p.step e = some p') :
    p'.maxQueueSize = p.maxQueueSize ∧ p'.workers.length = p.workers.length := by
  cases e with
  | post job woken =>
    rcases step_post hstep with ⟨-, rfl⟩ | ⟨-, -, ⟨rfl, -⟩ | hmoves⟩
    · exact ⟨rfl, rfl⟩
    · exact ⟨rfl, rfl⟩
    · exact ⟨hmoves.maxQueueSize, hmoves.length⟩
  | test i =>
    rcases step_test hstep with ⟨_, -, hmoves⟩ | ⟨-, -, -, hmoves⟩ | ⟨-, -, -, hmoves⟩ <;>
      exact ⟨hmoves.maxQueueSize, hmoves.length⟩
  | finish i =>
    obtain ⟨_, -, -, hmoves⟩ := step_finish hstep
    exact ⟨hmoves.maxQueueSize, hmoves.length⟩
  | spuriousWakeUp i =>
    obtain ⟨-, hmoves⟩ := step_spuriousWakeUp hstep
    exact ⟨hmoves.maxQueueSize, hmoves.length⟩
  | shutdown =>
    simp only [SyncWorkerPool.step] at hstep
    obtain rfl := Option.some.inj hstep
    split <;> exact ⟨rfl, rfl⟩
  | notifyAll =>
    simp only [SyncWorkerPool.step, Option.ite_none_right_eq_some, Option.some.injEq] at hstep
    obtain ⟨-, rfl⟩ := hstep
    exact ⟨rfl, List.length_map _⟩
  | join =>
    simp only [SyncWorkerPool.step, Option.ite_none_right_eq_some, Option.some.injEq] at hstep
    obtain ⟨-, rfl⟩ := hstep
    exact ⟨rfl, rfl⟩

theorem isStopped_step (hstep : p.step e = some p') (h : p.isStopped) : p'.isStopped := by
  cases e with
  | post job woken =>
    rcases step_post hstep with ⟨-, rfl⟩ | ⟨-, -, ⟨rfl, -⟩ | hmoves⟩
    · exact h
    · exact h
    · exact hmoves.isStopped ▸ h
  | test i =>
    rcases step_test hstep with ⟨_, -, hmoves⟩ | ⟨-, -, -, hmoves⟩ | ⟨-, -, -, hmoves⟩ <;>
      exact hmoves.isStopped ▸ h
  | finish i =>
    obtain ⟨_, -, -, hmoves⟩ := step_finish hstep
    exact hmoves.isStopped ▸ h
  | spuriousWakeUp i =>
    obtain ⟨-, hmoves⟩ := step_spuriousWakeUp hstep
    exact hmoves.isStopped ▸ h
  | shutdown =>
    simp only [SyncWorkerPool.step, h, if_true] at hstep
    exact Option.some.inj hstep ▸ h
  | notifyAll =>
    simp only [SyncWorkerPool.step, Option.ite_none_right_eq_some, Option.some.injEq] at hstep
    obtain ⟨-, rfl⟩ := hstep
    rfl
  | join =>
    simp only [SyncWorkerPool.step, Option.ite_none_right_eq_some, Option.some.injEq] at hstep
    obtain ⟨-, rfl⟩ := hstep
    rfl

/-- A pool that has been told to stop accepts no job. -/
theorem accepted_of_isStopped (h : p.isStopped) : (note g p e p').accepted = g.accepted := by
  cases e with
  | post job woken => simp only [note, refuses_of_isStopped h, if_true]
  | test | finish | spuriousWakeUp | shutdown | notifyAll | join => rfl

theorem jobs_create (workerThreads maxQueueSize : Nat) :
    (create workerThreads maxQueueSize : SyncWorkerPool α).jobs = [] := by
  simp [jobs, create, WorkerState.job?]

theorem runs_create (workerThreads maxQueueSize : Nat) :
    Runs workerThreads maxQueueSize (create workerThreads maxQueueSize : SyncWorkerPool α) {} where
  serves :=
    { order := rfl
      once := by
        rw [jobs_create]
        exact .nil
      bound := Nat.zero_le _ }
  alert :=
    { workers := List.ne_nil_of_length_pos (by simp [create])
      attended := fun h => absurd rfl h
      returned := by
        intro w hw hreturned
        obtain rfl := (List.mem_replicate.mp hw).2
        cases hreturned
      notified := fun hopen => absurd rfl hopen
      joined := fun hjoined => ShutdownState.noConfusion hjoined }
  spends := by
    simp [Spends, create, effort, toNotify, WorkerState.effort]
    omega
  maxQueueSize := rfl
  workers := List.length_replicate

theorem runs_run {workerThreads maxQueueSize : Nat} {es : List (Event α)}
    (hrun : run (noting step note) (create workerThreads maxQueueSize, {}) es = some (p, g)) :
    Runs workerThreads maxQueueSize p g := by
  refine run_invariant (P := fun s => Runs workerThreads maxQueueSize s.1 s.2) ?_
    (runs_create workerThreads maxQueueSize) hrun
  intro s e s' hstep h
  obtain ⟨hs, hnote⟩ := noting_eq_some.mp hstep
  obtain ⟨hmax, hworkers⟩ := step_sizes hs
  rw [hnote]
  exact ⟨h.serves.step hs, h.alert.step hs, h.spends.step hs, hmax.trans h.maxQueueSize,
    hworkers.trans h.workers⟩

/-- In each interleaving the jobs start in the order in which they were accepted, each once; no
more of them run at a time than there are workers, and no more wait than the queue may hold. -/
theorem jobs_start_once_in_order {workerThreads maxQueueSize : Nat} {es : List (Event α)}
    (hrun : run (noting step note) (create workerThreads maxQueueSize, {}) es = some (p, g)) :
    g.accepted = g.started ++ p.queue ∧ g.started.Perm (g.done ++ p.jobs) ∧
      p.queue.length ≤ max 1 maxQueueSize ∧ p.jobs.length ≤ max 1 workerThreads := by
  have h := runs_run hrun
  refine ⟨h.serves.order, h.serves.once, h.maxQueueSize ▸ h.serves.bound, ?_⟩
  exact h.workers ▸ List.length_filterMap_le _ _

/-- Two workers: the second one falls asleep and is woken up for the second job. -/
theorem jobs_start_once_in_order_two_workers :
    ([7, 8] : List Nat) = [7, 8] ++ [] ∧ List.Perm [7, 8] ([7] ++ [8]) ∧ 0 ≤ max 1 4 ∧
      1 ≤ max 1 2 := by
  have hrun : run (noting step note) ((create 2 4 : SyncWorkerPool Nat), {})
      [.post 7 none, .test 0, .test 1, .post 8 (some 1), .test 1, .finish 0] =
      some ({ maxQueueSize := 4, workers := [.awake, .running 8] },
        { accepted := [7, 8], started := [7, 8], done := [7], workerSteps := 4 }) := rfl
  exact jobs_start_once_in_order hrun

/-- A step of the workers or of the thread that has called `shutdown`. -/
def Event.isOwn : Event α → Bool
  | .test _ | .finish _ | .notifyAll | .join => true
  | _ => false

/-- The pool waits for jobs, or its shutdown is over. -/
def AtRest (p : SyncWorkerPool α) : Prop :=
  p.queue = [] ∧ p.jobs = [] ∧
    ((p.isStopped = false ∧ ∀ w ∈ p.workers, w.isWaiting) ∨ p.shutdown = .joined)

theorem jobs_eq_nil (h : ∀ w ∈ p.workers, w.effort = 0) : p.jobs = [] := by
  refine List.filterMap_eq_nil_iff.mpr fun w hw => ?_
  have hzero := h w hw
  cases w with
  | running job => cases hzero
  | awake | waiting | returned => rfl

/-- A worker that is not asleep can make a step. -/
theorem exists_own_of_effort {w : WorkerState α} (hw : w ∈ p.workers) (hpos : 0 < w.effort) :
    ∃ e : Event α, e.isOwn ∧ (p.step e).isSome := by
  obtain ⟨i, hi⟩ := List.mem_iff_getElem?.mp hw
  cases w with
  | awake => exact ⟨.test i, rfl, by simp only [step, hi, Option.isSome_some]⟩
  | running job => exact ⟨.finish i, rfl, by simp only [step, hi, Option.isSome_some]⟩
  | waiting => cases hpos
  | returned => cases hpos

/-- Unless the pool is at rest, one of its threads can make a step. -/
theorem Alert.own_or_atRest (h : Alert p) :
    (∃ e : Event α, e.isOwn ∧ (p.step e).isSome) ∨ p.AtRest := by
  by_cases hidle : ∀ w ∈ p.workers, w.effort = 0
  · have hqueue : p.queue = [] := by
      by_contra hne
      obtain ⟨w, hw, hpos⟩ := h.attended hne
      rw [hidle w hw] at hpos
      exact absurd hpos (Nat.lt_irrefl 0)
    have hjobs := jobs_eq_nil hidle
    cases hshutdown : p.shutdown with
    | «open» =>
      have hopen : p.isStopped = false := by rw [isStopped, hshutdown]; rfl
      refine .inr ⟨hqueue, hjobs, .inl ⟨hopen, fun w hw => ?_⟩⟩
      have hzero := hidle w hw
      cases hstate : w with
      | waiting => rfl
      | awake => rw [hstate] at hzero; cases hzero
      | running job => rw [hstate] at hzero; cases hzero
      | returned =>
        have hstopped := (h.returned w hw (by rw [hstate]; rfl)).1
        rw [hopen] at hstopped
        cases hstopped
    | stopped =>
      refine .inl ⟨.notifyAll, rfl, ?_⟩
      simp only [SyncWorkerPool.step, hshutdown, if_true, Option.isSome_some]
    | notified =>
      have hstates : p.shutdown ≠ .open ∧ p.shutdown ≠ .stopped := by
        rw [hshutdown]
        exact ⟨ShutdownState.noConfusion, ShutdownState.noConfusion⟩
      have hall : p.workers.all WorkerState.isReturned := by
        refine List.all_eq_true.mpr fun w hw => ?_
        have hzero := hidle w hw
        have hwaiting := h.notified hstates.1 hstates.2 w hw
        cases w with
        | returned => rfl
        | waiting => exact absurd rfl hwaiting
        | awake => cases hzero
        | running job => cases hzero
      refine .inl ⟨.join, rfl, ?_⟩
      simp only [SyncWorkerPool.step, hshutdown, hall, and_self, if_true, Option.isSome_some]
    | joined => exact .inr ⟨hqueue, hjobs, .inr hshutdown⟩
  · simp only [not_forall] at hidle
    obtain ⟨w, hw, hpos⟩ := hidle
    exact .inl (exists_own_of_effort hw (Nat.pos_of_ne_zero hpos))

/-- No wake-up is lost: in each interleaving either a thread of the pool can make a step, or every
accepted job has been done and the workers wait or have been joined.  The workers do not spin: a job
costs at most three steps. -/
theorem accepted_jobs_are_done {workerThreads maxQueueSize : Nat} {es : List (Event α)}
    (hrun : run (noting step note) (create workerThreads maxQueueSize, {}) es = some (p, g)) :
    ((∃ e : Event α, e.isOwn ∧ (p.step e).isSome) ∨ (p.AtRest ∧ g.done.Perm g.accepted)) ∧
      g.workerSteps ≤ 2 * max 1 workerThreads + 3 * g.accepted.length + g.wakeUps := by
  have h := runs_run hrun
  constructor
  · rcases h.alert.own_or_atRest with hown | hrest
    · exact .inl hown
    · refine .inr ⟨hrest, ?_⟩
      have hstarted : g.accepted = g.started := by
        rw [h.serves.order, hrest.1, List.append_nil]
      have honce := h.serves.once
      rw [hrest.2.1, List.append_nil] at honce
      exact hstarted ▸ honce.symm
  · have hspends := h.spends
    unfold Spends at hspends
    omega

theorem accepted_jobs_are_done_at_rest :
    ((∃ e : Event Nat, e.isOwn ∧
        (({ maxQueueSize := 1, workers := [.waiting] } : SyncWorkerPool Nat).step e).isSome) ∨
      (({ maxQueueSize := 1, workers := [.waiting] } : SyncWorkerPool Nat).AtRest ∧
        List.Perm [7] [7])) ∧ ((3 : Nat) : Int) ≤ 2 * max 1 0 + 3 * 1 + 0 := by
  have hrun : run (noting step note) ((create 0 0 : SyncWorkerPool Nat), {})
      [.post 7 none, .test 0, .finish 0, .test 0] =
      some ({ maxQueueSize := 1, workers := [.waiting] },
        { accepted := [7], started := [7], done := [7], workerSteps := 3 }) := rfl
  have h := accepted_jobs_are_done hrun
  exact ⟨h.1, by decide⟩

/-- The run of a pool that has been told to stop accepts no more jobs, does those that it has, and
comes to its end after a bounded number of steps. -/
theorem shutdown_drains {workerThreads maxQueueSize : Nat} {es es' : List (Event α)}
    {g' : Notes α} (hrun : run (noting step note) (create workerThreads maxQueueSize, {}) es =
      some (p, g)) (hstopped : p.isStopped)
    (hrun' : run (noting step note) (p, g) es' = some (p', g')) :
    g'.accepted = g.accepted ∧
      ((∃ e : Event α, e.isOwn ∧ (p'.step e).isSome) ∨
        (p'.shutdown = .joined ∧ g'.done.Perm g.accepted)) ∧
      g'.workerSteps + g.wakeUps ≤ g.workerSteps + p.effort + p.toNotify + g'.wakeUps := by
  have hkeep : p'.isStopped ∧ g'.accepted = g.accepted := by
    refine run_invariant (P := fun s => s.1.isStopped ∧ s.2.accepted = g.accepted) ?_
      ⟨hstopped, rfl⟩ hrun'
    intro s e s' hstep h
    obtain ⟨hs, hnote⟩ := noting_eq_some.mp hstep
    rw [hnote]
    exact ⟨isStopped_step hs h.1, (accepted_of_isStopped h.1).trans h.2⟩
  have hwhole : run (noting step note) (create workerThreads maxQueueSize, {}) (es ++ es') =
      some (p', g') := by
    rw [run_append, hrun]
    exact hrun'
  refine ⟨hkeep.2, ?_, ?_⟩
  · rcases (accepted_jobs_are_done hwhole).1 with hown | ⟨⟨-, -, hend⟩, hdone⟩
    · exact .inl hown
    · refine .inr ⟨?_, hkeep.2 ▸ hdone⟩
      rcases hend with ⟨hopen, -⟩ | hjoined
      · rw [hkeep.1] at hopen
        cases hopen
      · exact hjoined
  · have hspends := run_invariant (P := fun s => Spends
      (g.workerSteps + p.effort + p.toNotify - 3 * g.accepted.length - g.wakeUps) s.1 s.2)
      (fun s e s' hstep h => ?_) (by simp only [Spends]; omega) hrun'
    · simp only [Spends, hkeep.2] at hspends
      omega
    · obtain ⟨hs, hnote⟩ := noting_eq_some.mp hstep
      rw [hnote]
      exact h.step hs

/-- A pool that is told to stop while a job waits does the job before it ends. -/
theorem shutdown_drains_one_job : ([7] : List Nat) = [7] ∧
    ((∃ e : Event Nat, e.isOwn ∧
        (SyncWorkerPool.step ⟨1, [.returned], [], .joined⟩ e).isSome) ∨
      (ShutdownState.joined = .joined ∧ List.Perm [7] [7])) ∧ 3 + 0 ≤ 0 + 3 + 1 + 0 := by
  have hrun : run (noting step note) ((create 1 1 : SyncWorkerPool Nat), {})
      [.post 7 none, .shutdown] =
      some ({ maxQueueSize := 1, workers := [.awake], queue := [7], shutdown := .stopped },
        { accepted := [7] }) := rfl
  have hrun' : run (noting step note)
      ({ maxQueueSize := 1, workers := [.awake], queue := [7], shutdown := .stopped },
        { accepted := [7] })
      [.test 0, .notifyAll, .finish 0, .test 0, .join] =
      some ({ maxQueueSize := 1, workers := [.returned], queue := [], shutdown := .joined },
        { accepted := [7], started := [7], done := [7], workerSteps := 3 }) := rfl
  exact shutdown_drains hrun rfl hrun'

end SyncWorkerPool

end NdnSvs
