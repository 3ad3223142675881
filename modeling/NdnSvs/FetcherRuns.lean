import Mathlib.Algebra.Order.Group.Multiset
import Mathlib.Data.Multiset.Range
import Mathlib.Tactic.Abel
import NdnSvs.Fetcher
import NdnSvs.Lib.Lives
import NdnSvs.Lib.Maps
import NdnSvs.Lib.Runs

/-! Runs of the fetcher as it keeps its books: a request gets a new id each time it is queued, and
the ids that are pending are erased by the callbacks of the Face.  Without its ids it is the fetcher
of the rest of the model.  Each request is in one state until its end, and is sent at most as often
as its retries allow. -/

namespace NdnSvs

open Lib Std

/-- An Interest under the id that it has until it is queued again.  The last two fields are not in
the code: the number of the call that it goes back to, and the retries which that call asked for. -/
structure Ticket (α : Type) where
  id : Nat
  request : α
  nRetries : Int
  nRetriesOnValidationFail : Int
  number : Nat
  asked : Int
deriving DecidableEq

def Ticket.queuedInterest {α : Type} (t : Ticket α) : QueuedInterest α :=
  ⟨t.request, t.nRetries, t.nRetriesOnValidationFail⟩

/-- An Interest goes out: the number of its request, the Interests that were pending, and the
window. -/
structure Sending where
  number : Nat
  pending : Nat
  windowSize : Nat
deriving DecidableEq

structure IdFetcher (α : Type) where
  interestIdCounter : Nat := 0
  windowSize : Nat := 10
  /-- The ids whose handles are kept. -/
  pendingInterests : Map Nat Unit := ∅
  interestQueue : List (Ticket α) := []
  /-- The Interests that the Face has, each with its callbacks. -/
  atFace : List (Ticket α) := []
  validating : List (Ticket α × Data) := []
  validationRetries : List (Ticket α) := []
  /-- The calls of `expressInterest` so far, what was sent, and the callbacks that were called. -/
  issued : Nat := 0
  sent : List Sending := []
  finished : List (Ticket α × FetchOutcome α) := []

/-- What is done with a fetcher, and what happens to it.  A callback that ends a request is the last
thing that a handler does, so what it calls comes next. -/
inductive FetcherCall (α : Type)
  | expressInterest (request : α) (nRetries : Int)
  | setWindowSize (windowSize : Nat)
  | event (event : FetcherEvent)

namespace IdFetcher

variable {α : Type}

/-! ### The fetcher -/

/-- An Interest goes to the Face, which gives a handle for it. -/
def send (f : IdFetcher α) (t : Ticket α) : IdFetcher α :=
  { f with
    pendingInterests := f.pendingInterests.insert t.id ()
    atFace := f.atFace ++ [t]
    sent := f.sent ++ [⟨t.number, f.pendingInterests.size, f.windowSize⟩] }

/-- The loop of `processQueue`. -/
def sendQueued : IdFetcher α → List (Ticket α) → IdFetcher α
  | f, [] => { f with interestQueue := [] }
  | f, t :: queue =>
    if f.pendingInterests.size < f.windowSize then sendQueued (f.send t) queue
    else { f with interestQueue := t :: queue }

def processQueue (f : IdFetcher α) : IdFetcher α := f.sendQueued f.interestQueue

def setWindowSize (f : IdFetcher α) (windowSize : Nat) : IdFetcher α :=
  processQueue { f with windowSize := max 1 windowSize }

/-- Queues an Interest under a new id. -/
def enqueue (f : IdFetcher α) (t : Ticket α) : IdFetcher α :=
  { f with
    interestIdCounter := f.interestIdCounter + 1
    interestQueue := f.interestQueue ++ [{ t with id := f.interestIdCounter + 1 }] }

def push (f : IdFetcher α) (t : Ticket α) : IdFetcher α := (f.enqueue t).processQueue

def expressInterest (opts : FetcherOptions) (f : IdFetcher α) (request : α) (nRetries : Int) :
    IdFetcher α :=
  ({ f with issued := f.issued + 1 } : IdFetcher α).push
    { id := 0, request, nRetries, nRetriesOnValidationFail := opts.nRetriesOnValidationFail
      number := f.issued, asked := nRetries }

/-- The callback that ends a request. -/
def finish (f : IdFetcher α) (t : Ticket α) (outcome : FetchOutcome α) : IdFetcher α :=
  { f with finished := f.finished ++ [(t, outcome)] }

/-- The packet of a request goes to the validator. -/
def validate (f : IdFetcher α) (t : Ticket α) (data : Data) : IdFetcher α :=
  { f with validating := f.validating ++ [(t, data)] }

def erasePending (f : IdFetcher α) (t : Ticket α) : IdFetcher α :=
  { f with pendingInterests := f.pendingInterests.erase t.id }

def onData (opts : FetcherOptions) (f : IdFetcher α) (data : Data) (t : Ticket α) : IdFetcher α :=
  let f := (f.erasePending t).processQueue
  if opts.validator then f.validate t data else f.finish t (.satisfied t.request data)

def onNack (f : IdFetcher α) (t : Ticket α) : IdFetcher α :=
  (f.erasePending t).processQueue.finish t (.nacked t.request)

def onTimeout (f : IdFetcher α) (t : Ticket α) : IdFetcher α :=
  let f := f.erasePending t
  if t.nRetries = 0 then f.processQueue.finish t (.timedOut t.request)
  else f.push { t with nRetries := t.nRetries - 1 }

def onValidationFailed (f : IdFetcher α) (t : Ticket α) : IdFetcher α :=
  if 0 < t.nRetriesOnValidationFail then
    { f with validationRetries := f.validationRetries ++ [t] }
  else f.finish t (.validationFailed t.request)

def step (opts : FetcherOptions) (f : IdFetcher α) : FetcherCall α → Option (IdFetcher α)
  | .expressInterest request nRetries => some (f.expressInterest opts request nRetries)
  | .setWindowSize windowSize => some (f.setWindowSize windowSize)
  | .event (.data index data) =>
    f.atFace[index]?.map fun t =>
      ({ f with atFace := f.atFace.eraseIdx index } : IdFetcher α).onData opts data t
  | .event (.nack index) =>
    f.atFace[index]?.map fun t =>
      ({ f with atFace := f.atFace.eraseIdx index } : IdFetcher α).onNack t
  | .event (.timeout index) =>
    f.atFace[index]?.map fun t =>
      ({ f with atFace := f.atFace.eraseIdx index } : IdFetcher α).onTimeout t
  | .event (.verdict index accepted) =>
    f.validating[index]?.map fun (t, data) =>
      let f := { f with validating := f.validating.eraseIdx index }
      if accepted then f.finish t (.satisfied t.request data) else f.onValidationFailed t
  | .event (.validationRetry index) =>
    f.validationRetries[index]?.map fun t =>
      ({ f with validationRetries := f.validationRetries.eraseIdx index } : IdFetcher α).push
        { t with nRetriesOnValidationFail := t.nRetriesOnValidationFail - 1 }

/-! ### The ids -/

/-- The handles that are kept are those of the Interests that the Face has, and no id is used for
two Interests at a time. -/
structure Matched (f : IdFetcher α) : Prop where
  keys : ∀ id, id ∈ f.pendingInterests ↔ id ∈ f.atFace.map Ticket.id
  size : f.pendingInterests.size = f.atFace.length
  nodup : (f.atFace.map Ticket.id ++ f.interestQueue.map Ticket.id).Nodup
  le : ∀ t ∈ f.atFace ++ f.interestQueue, t.id ≤ f.interestIdCounter

variable {f : IdFetcher α}

theorem Matched.send {t : Ticket α} {queue : List (Ticket α)}
    (h : Matched { f with interestQueue := t :: queue }) :
    Matched { f.send t with interestQueue := queue } := by
  have hnodup := h.nodup
  have hnew : t.id ∉ f.pendingInterests := by
    intro hmem
    exact List.disjoint_of_nodup_append hnodup ((h.keys _).mp hmem) List.mem_cons_self
  refine ⟨fun id => ?_, ?_, ?_, fun u hu => h.le u ?_⟩
  · have hkeys := h.keys id
    simp only [IdFetcher.send, ExtTreeMap.mem_insert, Std.compare_eq_iff_eq, List.map_append,
      List.map_cons, List.map_nil, List.mem_append, List.mem_singleton] at hkeys ⊢
    rw [hkeys, or_comm]
    exact or_congr_right eq_comm
  · have hsize : f.pendingInterests.size = f.atFace.length := h.size
    simp [IdFetcher.send, ExtTreeMap.size_insert, hnew, hsize]
  · simpa only [IdFetcher.send, List.map_append, List.map_cons, List.map_nil, List.append_assoc,
      List.cons_append, List.nil_append] using hnodup
  · simpa only [IdFetcher.send, List.append_assoc, List.cons_append, List.nil_append] using hu

theorem Matched.sendQueued {queue : List (Ticket α)}
    (h : Matched { f with interestQueue := queue }) : Matched (f.sendQueued queue) := by
  induction queue generalizing f with
  | nil => exact h
  | cons t queue ih =>
    rw [IdFetcher.sendQueued]
    split
    · exact ih h.send
    · exact h

theorem Matched.processQueue (h : Matched f) : Matched f.processQueue := h.sendQueued

theorem Matched.enqueue (h : Matched f) (t : Ticket α) : Matched (f.enqueue t) := by
  refine ⟨h.keys, h.size, ?_, fun u hu => ?_⟩
  · have hfresh : f.interestIdCounter + 1 ∉ f.atFace.map Ticket.id ++
        f.interestQueue.map Ticket.id := by
      rw [← List.map_append]
      intro hmem
      obtain ⟨u, hu, heq⟩ := List.mem_map.mp hmem
      have := h.le u hu
      omega
    rw [IdFetcher.enqueue, List.map_append, ← List.append_assoc]
    exact List.nodup_append_comm.mp (List.nodup_cons.mpr ⟨hfresh, h.nodup⟩)
  · rw [IdFetcher.enqueue, ← List.append_assoc] at hu
    rcases List.mem_append.mp hu with hu | hu
    · exact (h.le u hu).trans (Nat.le_succ _)
    · obtain rfl := List.mem_singleton.mp hu
      exact Nat.le_refl _

theorem Matched.push (h : Matched f) (t : Ticket α) : Matched (f.push t) :=
  (h.enqueue t).processQueue

/-- The callback of an Interest erases its handle. -/
theorem Matched.erasePending (h : Matched f) {index : Nat} {t : Ticket α}
    (ht : f.atFace[index]? = some t) :
    Matched (({ f with atFace := f.atFace.eraseIdx index } : IdFetcher α).erasePending t) := by
  obtain ⟨hlt, rfl⟩ := List.getElem?_eq_some_iff.mp ht
  have hperm := List.getElem_cons_eraseIdx_perm hlt
  have hids := hperm.map Ticket.id
  have hnodup := ((hids.append_right (f.interestQueue.map Ticket.id)).nodup_iff).mpr h.nodup
  rw [List.map_cons, List.cons_append, List.nodup_cons] at hnodup
  refine ⟨fun id => ?_, ?_, hnodup.2, fun u hu => h.le u ?_⟩
  · have hkeys := h.keys id
    have hmem := hids.mem_iff (a := id)
    simp only [List.map_cons, List.mem_cons] at hmem
    simp only [IdFetcher.erasePending, ExtTreeMap.mem_erase, hkeys, ← hmem, ne_eq,
      Std.compare_eq_iff_eq]
    constructor
    · rintro ⟨hne, heq | hid⟩
      · exact absurd heq.symm hne
      · exact hid
    · intro hid
      refine ⟨?_, .inr hid⟩
      rintro rfl
      exact hnodup.1 (List.mem_append_left _ hid)
  · have hid : f.atFace[index].id ∈ f.pendingInterests :=
      (h.keys _).mpr (List.mem_map_of_mem (List.getElem_mem hlt))
    have hsize := h.size
    have hlength := List.length_eraseIdx_add_one hlt
    simp only [IdFetcher.erasePending, ExtTreeMap.size_erase, ExtTreeMap.mem_iff_contains.mp hid,
      if_true]
    omega
  · rcases List.mem_append.mp hu with hu | hu
    · exact List.mem_append_left _ (List.mem_of_mem_eraseIdx hu)
    · exact List.mem_append_right _ hu

theorem matched_empty : Matched ({} : IdFetcher α) where
  keys id := by simp
  size := rfl
  nodup := List.nodup_nil
  le t ht := absurd ht List.not_mem_nil

/-! ### The fetcher without ids -/

/-- The fetcher of the rest of the model. -/
def toFetcher (f : IdFetcher α) : Fetcher α where
  windowSize := f.windowSize
  pendingInterests := f.atFace.map Ticket.queuedInterest
  interestQueue := f.interestQueue.map Ticket.queuedInterest
  validating := f.validating.map fun v => (Ticket.queuedInterest v.1, v.2)
  validationRetries := f.validationRetries.map Ticket.queuedInterest

theorem toFetcher_sendQueued {queue : List (Ticket α)}
    (h : Matched { f with interestQueue := queue }) :
    (f.sendQueued queue).toFetcher = { f.toFetcher with
      pendingInterests := (Fetcher.sendLoop f.windowSize (f.atFace.map Ticket.queuedInterest)
        (queue.map Ticket.queuedInterest)).1
      interestQueue := (Fetcher.sendLoop f.windowSize (f.atFace.map Ticket.queuedInterest)
        (queue.map Ticket.queuedInterest)).2 } := by
  induction queue generalizing f with
  | nil => rfl
  | cons t queue ih =>
    have hsize : f.pendingInterests.size = f.atFace.length := h.size
    rw [IdFetcher.sendQueued, List.map_cons, Fetcher.sendLoop, List.length_map, ← hsize]
    split
    · rw [ih h.send]
      simp [send, toFetcher]
    · rfl

theorem toFetcher_processQueue (h : Matched f) :
    f.processQueue.toFetcher = f.toFetcher.processQueue :=
  toFetcher_sendQueued h

theorem toFetcher_push (h : Matched f) (t : Ticket α) :
    (f.push t).toFetcher = f.toFetcher.resend t.queuedInterest := by
  rw [push, toFetcher_processQueue (h.enqueue t)]
  simp [enqueue, toFetcher, Fetcher.resend, Ticket.queuedInterest]

/-- The callbacks that have ended requests, without the ids. -/
def outcomes (f : IdFetcher α) : List (FetchOutcome α) := f.finished.map Prod.snd

theorem toFetcher_expressInterest (h : Matched f) (opts : FetcherOptions) (request : α)
    (nRetries : Int) : (f.expressInterest opts request nRetries).toFetcher =
      f.toFetcher.expressInterest opts request nRetries :=
  @toFetcher_push _ { f with issued := f.issued + 1 } ⟨h.keys, h.size, h.nodup, h.le⟩ _

theorem toFetcher_setWindowSize (h : Matched f) (windowSize : Nat) :
    (f.setWindowSize windowSize).toFetcher = f.toFetcher.setWindowSize windowSize :=
  toFetcher_processQueue ⟨h.keys, h.size, h.nodup, h.le⟩

theorem finished_sendQueued (queue : List (Ticket α)) :
    (f.sendQueued queue).finished = f.finished := by
  induction queue generalizing f with
  | nil => rfl
  | cons t queue ih =>
    rw [sendQueued]
    split
    · exact ih
    · rfl

theorem outcomes_processQueue (f : IdFetcher α) : f.processQueue.outcomes = f.outcomes :=
  congrArg (List.map Prod.snd) (finished_sendQueued _)

theorem outcomes_finish (f : IdFetcher α) (t : Ticket α) (outcome : FetchOutcome α) :
    (f.finish t outcome).outcomes = f.outcomes ++ [outcome] := by
  simp [finish, outcomes]

/-- An Interest whose callback is called is no longer pending. -/
theorem toFetcher_erasePending (f : IdFetcher α) (index : Nat) (t : Ticket α) :
    (({ f with atFace := f.atFace.eraseIdx index } : IdFetcher α).erasePending t).toFetcher =
      { f.toFetcher with pendingInterests := f.toFetcher.pendingInterests.eraseIdx index } := by
  simp [erasePending, toFetcher, List.eraseIdx_map]

theorem toFetcher_pending {index : Nat} {t : Ticket α} (h : f.atFace[index]? = some t) :
    f.toFetcher.pendingInterests[index]? = some t.queuedInterest := by
  rw [toFetcher, List.getElem?_map, h]
  rfl

/-- The events do to the fetcher of the model what they do to the one with ids. -/
theorem toFetcher_step {opts : FetcherOptions} {f' : IdFetcher α} {e : FetcherEvent}
    (h : Matched f) (hstep : f.step opts (.event e) = some f') :
    ∃ outcome, f.toFetcher.step opts e = some (f'.toFetcher, outcome) ∧
      f'.outcomes = f.outcomes ++ outcome.toList := by
  cases e with
  | data index data =>
    obtain ⟨t, ht, rfl⟩ := Option.map_eq_some_iff.mp hstep
    have hprocess := toFetcher_processQueue (h.erasePending ht)
    rw [toFetcher_erasePending] at hprocess
    simp only [Fetcher.step, toFetcher_pending ht, Option.map_some, Fetcher.onData, ← hprocess,
      onData]
    split
    · refine ⟨none, ?_, ?_⟩
      · simp [toFetcher, validate]
      · rw [Option.toList_none, List.append_nil]
        exact outcomes_processQueue _
    · refine ⟨some (.satisfied t.request data), rfl, ?_⟩
      rw [outcomes_finish, outcomes_processQueue]
      rfl
  | nack index =>
    obtain ⟨t, ht, rfl⟩ := Option.map_eq_some_iff.mp hstep
    have hprocess := toFetcher_processQueue (h.erasePending ht)
    rw [toFetcher_erasePending] at hprocess
    refine ⟨some (.nacked t.request), ?_, ?_⟩
    · simp only [Fetcher.step, toFetcher_pending ht, Option.map_some, ← hprocess]
      rfl
    · rw [onNack, outcomes_finish, outcomes_processQueue]
      rfl
  | timeout index =>
    obtain ⟨t, ht, rfl⟩ := Option.map_eq_some_iff.mp hstep
    have herase := h.erasePending ht
    have hprocess := toFetcher_processQueue herase
    have hpush := toFetcher_push herase { t with nRetries := t.nRetries - 1 }
    rw [toFetcher_erasePending] at hprocess hpush
    have hretries : t.queuedInterest.nRetries = t.nRetries := rfl
    simp only [Fetcher.step, toFetcher_pending ht, Option.map_some, Fetcher.onTimeout, hretries,
      ← hprocess, onTimeout]
    split
    · refine ⟨some (.timedOut t.request), rfl, ?_⟩
      rw [outcomes_finish, outcomes_processQueue]
      rfl
    · refine ⟨none, ?_, ?_⟩
      · rw [hpush]
        rfl
      · rw [Option.toList_none, List.append_nil]
        exact outcomes_processQueue _
  | verdict index accepted =>
    obtain ⟨⟨t, data⟩, ht, rfl⟩ := Option.map_eq_some_iff.mp hstep
    have hvalidating : f.toFetcher.validating[index]? = some (t.queuedInterest, data) := by
      rw [toFetcher, List.getElem?_map, ht]
      rfl
    have hretries : t.queuedInterest.nRetriesOnValidationFail = t.nRetriesOnValidationFail := rfl
    simp only [Fetcher.step, hvalidating, Option.map_some, Fetcher.onValidationFailed, hretries,
      onValidationFailed]
    split
    · refine ⟨some (.satisfied t.request data), ?_, outcomes_finish _ _ _⟩
      simp [toFetcher, finish, List.eraseIdx_map, Ticket.queuedInterest]
    · split
      · refine ⟨none, ?_, (List.append_nil _).symm⟩
        simp [toFetcher, List.eraseIdx_map]
      · refine ⟨some (.validationFailed t.request), ?_, outcomes_finish _ _ _⟩
        simp [toFetcher, finish, List.eraseIdx_map, Ticket.queuedInterest]
  | validationRetry index =>
    obtain ⟨t, ht, rfl⟩ := Option.map_eq_some_iff.mp hstep
    have hretry : f.toFetcher.validationRetries[index]? = some t.queuedInterest := by
      rw [toFetcher, List.getElem?_map, ht]
      rfl
    have hpush := @toFetcher_push _
      { f with validationRetries := f.validationRetries.eraseIdx index }
      ⟨h.keys, h.size, h.nodup, h.le⟩
      { t with nRetriesOnValidationFail := t.nRetriesOnValidationFail - 1 }
    refine ⟨none, ?_, ?_⟩
    · simp only [Fetcher.step, hretry, Option.map_some, hpush]
      simp [toFetcher, List.eraseIdx_map, Ticket.queuedInterest]
    · rw [Option.toList_none, List.append_nil]
      exact outcomes_processQueue _

/-- What a call or an event does to the fetcher of the model. -/
def call (opts : FetcherOptions) (f : Fetcher α) : FetcherCall α → Option (Fetcher α)
  | .expressInterest request nRetries => some (f.expressInterest opts request nRetries)
  | .setWindowSize windowSize => some (f.setWindowSize windowSize)
  | .event e => (f.step opts e).map Prod.fst

theorem toFetcher_call {opts : FetcherOptions} {f' : IdFetcher α} {c : FetcherCall α}
    (h : Matched f) (hstep : f.step opts c = some f') :
    call opts f.toFetcher c = some f'.toFetcher := by
  cases c with
  | expressInterest request nRetries =>
    obtain rfl := Option.some.inj hstep
    exact congrArg some (toFetcher_expressInterest h opts request nRetries).symm
  | setWindowSize windowSize =>
    obtain rfl := Option.some.inj hstep
    exact congrArg some (toFetcher_setWindowSize h windowSize).symm
  | event e =>
    obtain ⟨outcome, hcall, -⟩ := toFetcher_step h hstep
    rw [call, hcall]
    rfl

/-! ### The lives of requests -/

/-- Where a request is. -/
inductive Place
  | queued
  | pending
  | validating
  | retrying
  | finished
deriving DecidableEq

def tickets (f : IdFetcher α) : Place → List (Ticket α)
  | .queued => f.interestQueue
  | .pending => f.atFace
  | .validating => f.validating.map Prod.fst
  | .retrying => f.validationRetries
  | .finished => f.finished.map Prod.fst

/-- The requests in a place, under their numbers. -/
def living (place : Place) (tickets : List (Ticket α)) : Multiset (Nat × Place × Ticket α) :=
  (tickets.map fun t => (t.number, place, t) : List (Nat × Place × Ticket α))

/-- All requests, and the Interests that have been sent. -/
def lives (f : IdFetcher α) : Lives Nat (Place × Ticket α) where
  objects := living .queued (f.tickets .queued) + living .pending (f.tickets .pending) +
    living .validating (f.tickets .validating) + living .retrying (f.tickets .retrying) +
    living .finished (f.tickets .finished)
  spent := (f.sent.map Sending.number : List Nat)

/-- How a request goes from place to place.  An Interest is sent when it leaves the queue. -/
inductive Next : Place × Ticket α → Nat → Place × Ticket α → Prop
  | sent (t : Ticket α) : Next (.queued, t) 1 (.pending, t)
  | arrived (t : Ticket α) : Next (.pending, t) 0 (.validating, t)
  | ended (place : Place) (t : Ticket α) : Next (place, t) 0 (.finished, t)
  | timedOut (t : Ticket α) (id : Nat) (h : t.nRetries ≠ 0) :
    Next (.pending, t) 0 (.queued, { t with id, nRetries := t.nRetries - 1 })
  | rejected (t : Ticket α) (h : 0 < t.nRetriesOnValidationFail) :
    Next (.validating, t) 0 (.retrying, t)
  | retried (t : Ticket α) (id : Nat) :
    Next (.retrying, t) 0
      (.queued, { t with id, nRetriesOnValidationFail := t.nRetriesOnValidationFail - 1 })

@[simp] theorem living_nil (place : Place) : living place ([] : List (Ticket α)) = 0 := rfl

@[simp] theorem living_cons (place : Place) (t : Ticket α) (ts : List (Ticket α)) :
    living place (t :: ts) = (t.number, place, t) ::ₘ living place ts := rfl

@[simp] theorem living_append (place : Place) (ts us : List (Ticket α)) :
    living place (ts ++ us) = living place ts + living place us := by
  simp [living]

theorem living_eraseIdx {place : Place} {ts : List (Ticket α)} {index : Nat} {t : Ticket α}
    (h : ts[index]? = some t) :
    living place ts = (t.number, place, t) ::ₘ living place (ts.eraseIdx index) := by
  obtain ⟨hlt, rfl⟩ := List.getElem?_eq_some_iff.mp h
  rw [← living_cons]
  exact (Multiset.coe_eq_coe.mpr
    ((List.getElem_cons_eraseIdx_perm hlt).map fun t => (t.number, place, t))).symm

theorem goesOn_sendQueued (queue : List (Ticket α)) :
    Lives.GoesOn Next (lives { f with interestQueue := queue }) (lives (f.sendQueued queue)) := by
  induction queue generalizing f with
  | nil => exact .refl
  | cons t queue ih =>
    rw [sendQueued]
    split
    · refine Relation.ReflTransGen.head ?_ ih
      refine .mk t.number (.queued, t) (.pending, t) 1
        (lives { f with interestQueue := queue }).objects (.sent t) ?_ ?_ ?_
      · simp [lives, tickets]
      · simp only [lives, tickets, send, living_append, living_cons, living_nil,
          ← Multiset.singleton_add]
        abel
      · simp [lives, send, ← Multiset.coe_add]
    · exact .refl

theorem goesOn_processQueue (f : IdFetcher α) :
    Lives.GoesOn Next f.lives f.processQueue.lives :=
  goesOn_sendQueued f.interestQueue

/-- The loop does not touch the requests that have left the Face. -/
theorem finish_processQueue (f : IdFetcher α) (t : Ticket α) (outcome : FetchOutcome α) :
    f.processQueue.finish t outcome = (f.finish t outcome).processQueue := by
  have hloop (queue : List (Ticket α)) :
      (f.sendQueued queue).finish t outcome = (f.finish t outcome).sendQueued queue := by
    induction queue generalizing f with
    | nil => rfl
    | cons u queue ih =>
      rw [sendQueued, apply_ite (fun g : IdFetcher α => g.finish t outcome), ih]
      rfl
  exact hloop _

theorem validate_processQueue (f : IdFetcher α) (t : Ticket α) (data : Data) :
    f.processQueue.validate t data = (f.validate t data).processQueue := by
  have hloop (queue : List (Ticket α)) :
      (f.sendQueued queue).validate t data = (f.validate t data).sendQueued queue := by
    induction queue generalizing f with
    | nil => rfl
    | cons u queue ih =>
      rw [sendQueued, apply_ite (fun g : IdFetcher α => g.validate t data), ih]
      rfl
  exact hloop _

/-- An Interest is no longer pending when its callback is called. -/
def answered (f : IdFetcher α) (index : Nat) (t : Ticket α) : IdFetcher α :=
  ({ f with atFace := f.atFace.eraseIdx index } : IdFetcher α).erasePending t

/-- A request takes its place. -/
theorem objects_enqueue (f : IdFetcher α) (t : Ticket α) : (f.enqueue t).lives.objects =
    (t.number, .queued, { t with id := f.interestIdCounter + 1 }) ::ₘ f.lives.objects := by
  simp only [lives, tickets, enqueue, living_append, living_cons, living_nil,
    ← Multiset.singleton_add]
  abel

theorem objects_validate (f : IdFetcher α) (t : Ticket α) (data : Data) :
    (f.validate t data).lives.objects = (t.number, .validating, t) ::ₘ f.lives.objects := by
  simp only [lives, tickets, validate, List.map_append, List.map_cons, List.map_nil,
    living_append, living_cons, living_nil, ← Multiset.singleton_add]
  abel

theorem objects_retry (f : IdFetcher α) (t : Ticket α) :
    (lives { f with validationRetries := f.validationRetries ++ [t] }).objects =
      (t.number, .retrying, t) ::ₘ f.lives.objects := by
  simp only [lives, tickets, living_append, living_cons, living_nil, ← Multiset.singleton_add]
  abel

theorem objects_finish (f : IdFetcher α) (t : Ticket α) (outcome : FetchOutcome α) :
    (f.finish t outcome).lives.objects = (t.number, .finished, t) ::ₘ f.lives.objects := by
  simp only [lives, tickets, finish, List.map_append, List.map_cons, List.map_nil,
    living_append, living_cons, living_nil, ← Multiset.singleton_add]
  abel

/-- A request leaves its place. -/
theorem objects_answered {index : Nat} {t : Ticket α} (h : f.atFace[index]? = some t) :
    f.lives.objects = (t.number, .pending, t) ::ₘ (f.answered index t).lives.objects := by
  simp only [lives, tickets, answered, erasePending, living_eraseIdx h, ← Multiset.singleton_add]
  abel

theorem objects_judged {index : Nat} {t : Ticket α} {data : Data}
    (h : f.validating[index]? = some (t, data)) :
    f.lives.objects = (t.number, .validating, t) ::ₘ
      (lives { f with validating := f.validating.eraseIdx index }).objects := by
  have ht : (f.validating.map Prod.fst)[index]? = some t := by
    rw [List.getElem?_map, h]
    rfl
  simp only [lives, tickets, living_eraseIdx ht, List.eraseIdx_map, ← Multiset.singleton_add]
  abel

theorem objects_retried {index : Nat} {t : Ticket α} (h : f.validationRetries[index]? = some t) :
    f.lives.objects = (t.number, .retrying, t) ::ₘ
      (lives { f with validationRetries := f.validationRetries.eraseIdx index }).objects := by
  simp only [lives, tickets, living_eraseIdx h, ← Multiset.singleton_add]
  abel

/-- What a call or an event does before Interests are sent. -/
structure Prepares (opts : FetcherOptions) (f g : IdFetcher α) : Prop where
  sent : g.sent = f.sent
  matched : Matched f → Matched g
  lives : (g.issued = f.issued ∧ (g.lives = f.lives ∨ Lives.Goes Next f.lives g.lives)) ∨
    (g.issued = f.issued + 1 ∧ ∃ t : Ticket α,
      Lives.Begins f.issued (.queued, t) f.lives g.lives ∧ t.nRetries = t.asked ∧
        t.nRetriesOnValidationFail = opts.nRetriesOnValidationFail)

/-- The ids do not depend on the other fields. -/
theorem Matched.of_eq {g : IdFetcher α} (h : Matched f)
    (hpending : g.pendingInterests = f.pendingInterests) (hface : g.atFace = f.atFace)
    (hqueue : g.interestQueue = f.interestQueue)
    (hcounter : g.interestIdCounter = f.interestIdCounter) : Matched g := by
  refine ⟨?_, ?_, ?_, ?_⟩
  · rw [hpending, hface]
    exact h.keys
  · rw [hpending, hface]
    exact h.size
  · rw [hface, hqueue]
    exact h.nodup
  · rw [hface, hqueue, hcounter]
    exact h.le

/-- A request goes from one place to another. -/
theorem Prepares.goes {opts : FetcherOptions} {g : IdFetcher α} {n : Nat} {s s' : Place × Ticket α}
    {rest : Multiset (Nat × Place × Ticket α)} (hnext : Next s 0 s')
    (hbefore : f.lives.objects = (n, s) ::ₘ rest) (hafter : g.lives.objects = (n, s') ::ₘ rest)
    (hsent : g.sent = f.sent) (hissued : g.issued = f.issued) (hmatched : Matched f → Matched g) :
    Prepares opts f g :=
  ⟨hsent, hmatched, .inl ⟨hissued, .inr (.mk n s s' 0 rest hnext hbefore hafter
    (by simp [IdFetcher.lives, hsent]))⟩⟩

/-- A step, and whether Interests are sent at its end. -/
theorem step_prepares {opts : FetcherOptions} {f' : IdFetcher α} {call : FetcherCall α}
    (hstep : f.step opts call = some f') :
    ∃ g, Prepares opts f g ∧ (f' = g.processQueue ∨ f' = g) := by
  have hmatched {index : Nat} {t : Ticket α} (ht : f.atFace[index]? = some t) (h : Matched f) :
      Matched (f.answered index t) := h.erasePending ht
  cases call with
  | expressInterest request nRetries =>
    obtain rfl := Option.some.inj hstep
    let t : Ticket α :=
      { id := 0, request, nRetries, nRetriesOnValidationFail := opts.nRetriesOnValidationFail
        number := f.issued, asked := nRetries }
    let f₁ : IdFetcher α := { f with issued := f.issued + 1 }
    have hmatched : f.Matched → (f₁.enqueue t).Matched := fun h =>
      Matched.enqueue (f := f₁) (h.of_eq rfl rfl rfl rfl) t
    refine ⟨f₁.enqueue t, ⟨rfl, hmatched, .inr ⟨rfl, { t with id := f.interestIdCounter + 1 },
      ⟨objects_enqueue f₁ t, rfl⟩, rfl, rfl⟩⟩, .inl rfl⟩
  | setWindowSize windowSize =>
    obtain rfl := Option.some.inj hstep
    exact ⟨{ f with windowSize := max 1 windowSize },
      ⟨rfl, fun h => h.of_eq rfl rfl rfl rfl, .inl ⟨rfl, .inl rfl⟩⟩, .inl rfl⟩
  | event e =>
    cases e with
    | data index data =>
      obtain ⟨t, ht, rfl⟩ := Option.map_eq_some_iff.mp hstep
      unfold onData
      dsimp only
      split
      · exact ⟨(f.answered index t).validate t data,
          .goes (.arrived t) (objects_answered ht) (objects_validate _ _ _) rfl rfl
            fun h => (hmatched ht h).of_eq rfl rfl rfl rfl,
          .inl (validate_processQueue _ _ _)⟩
      · exact ⟨(f.answered index t).finish t (.satisfied t.request data),
          .goes (.ended .pending t) (objects_answered ht) (objects_finish _ _ _) rfl rfl
            fun h => (hmatched ht h).of_eq rfl rfl rfl rfl,
          .inl (finish_processQueue _ _ _)⟩
    | nack index =>
      obtain ⟨t, ht, rfl⟩ := Option.map_eq_some_iff.mp hstep
      exact ⟨(f.answered index t).finish t (.nacked t.request),
        .goes (.ended .pending t) (objects_answered ht) (objects_finish _ _ _) rfl rfl
          fun h => (hmatched ht h).of_eq rfl rfl rfl rfl,
        .inl (finish_processQueue _ _ _)⟩
    | timeout index =>
      obtain ⟨t, ht, rfl⟩ := Option.map_eq_some_iff.mp hstep
      unfold onTimeout
      dsimp only
      split
      · exact ⟨(f.answered index t).finish t (.timedOut t.request),
          .goes (.ended .pending t) (objects_answered ht) (objects_finish _ _ _) rfl rfl
            fun h => (hmatched ht h).of_eq rfl rfl rfl rfl,
          .inl (finish_processQueue _ _ _)⟩
      · rename_i hretries
        have henqueue := objects_enqueue (f.answered index t) { t with nRetries := t.nRetries - 1 }
        exact ⟨(f.answered index t).enqueue { t with nRetries := t.nRetries - 1 },
          .goes (.timedOut t (f.interestIdCounter + 1) hretries) (objects_answered ht) henqueue rfl
            rfl fun h => (hmatched ht h).enqueue _, .inl rfl⟩
    | verdict index accepted =>
      obtain ⟨⟨t, data⟩, ht, rfl⟩ := Option.map_eq_some_iff.mp hstep
      dsimp only
      unfold onValidationFailed
      split
      · exact ⟨_, .goes (.ended .validating t) (objects_judged ht) (objects_finish _ _ _) rfl rfl
          fun h => h.of_eq rfl rfl rfl rfl, .inr rfl⟩
      · split
        · rename_i hretries
          exact ⟨_, .goes (.rejected t hretries) (objects_judged ht) (objects_retry _ _) rfl rfl
            fun h => h.of_eq rfl rfl rfl rfl, .inr rfl⟩
        · exact ⟨_, .goes (.ended .validating t) (objects_judged ht) (objects_finish _ _ _) rfl rfl
            fun h => h.of_eq rfl rfl rfl rfl, .inr rfl⟩
    | validationRetry index =>
      obtain ⟨t, ht, rfl⟩ := Option.map_eq_some_iff.mp hstep
      let f₁ := { f with validationRetries := f.validationRetries.eraseIdx index }
      have henqueue := objects_enqueue f₁
        { t with nRetriesOnValidationFail := t.nRetriesOnValidationFail - 1 }
      exact ⟨_, .goes (.retried t (f.interestIdCounter + 1)) (objects_retried ht) henqueue rfl rfl
        fun h => Matched.enqueue (f := f₁) (h.of_eq rfl rfl rfl rfl) _, .inl rfl⟩

/-! ### Conservation -/

/-- What has been sent for a request, with what its retries still allow, is within what the call and
the options allow. -/
def Within (opts : FetcherOptions) (sent : Nat) (s : Place × Ticket α) : Prop :=
  0 ≤ s.2.asked → 0 ≤ opts.nRetriesOnValidationFail →
    0 ≤ s.2.nRetries ∧ 0 ≤ s.2.nRetriesOnValidationFail ∧
    (s.1 = .retrying → 0 < s.2.nRetriesOnValidationFail) ∧
    sent + s.2.nRetries + s.2.nRetriesOnValidationFail + (if s.1 = .queued then 1 else 0) ≤
      1 + s.2.asked + opts.nRetriesOnValidationFail

theorem within_next {opts : FetcherOptions} (s : Place × Ticket α) (cost : Nat)
    (s' : Place × Ticket α) (sent : Nat) (hnext : Next s cost s') (h : Within opts sent s) :
    Within opts (sent + cost) s' := by
  intro hasked hopts
  cases hnext with
  | sent t =>
    obtain ⟨hretries, hvalidation, -, hle⟩ := h hasked hopts
    rw [if_pos rfl] at hle
    refine ⟨hretries, hvalidation, by simp, ?_⟩
    rw [if_neg (by simp)]
    push_cast
    dsimp only at hle ⊢
    omega
  | arrived t =>
    obtain ⟨hretries, hvalidation, -, hle⟩ := h hasked hopts
    exact ⟨hretries, hvalidation, by simp, hle⟩
  | ended place t =>
    obtain ⟨hretries, hvalidation, -, hle⟩ := h hasked hopts
    refine ⟨hretries, hvalidation, by simp, ?_⟩
    dsimp only at hle ⊢
    split at hle
    · simp
      omega
    · simpa using hle
  | timedOut t id hne =>
    obtain ⟨hretries, hvalidation, -, hle⟩ := h hasked hopts
    rw [if_neg (by simp)] at hle
    dsimp only at hretries hle
    refine ⟨?_, hvalidation, by simp, ?_⟩
    · dsimp only
      omega
    · rw [if_pos rfl]
      dsimp only
      omega
  | rejected t hpositive =>
    obtain ⟨hretries, hvalidation, -, hle⟩ := h hasked hopts
    exact ⟨hretries, hvalidation, fun _ => hpositive, hle⟩
  | retried t id =>
    obtain ⟨hretries, -, hpositive, hle⟩ := h hasked hopts
    have hpositive := hpositive rfl
    rw [if_neg (by simp)] at hle
    dsimp only at hpositive hle
    refine ⟨hretries, ?_, by simp, ?_⟩
    · dsimp only
      omega
    · rw [if_pos rfl]
      dsimp only
      omega

/-- The numbers of the requests in a place. -/
def numbers (f : IdFetcher α) (place : Place) : List Nat :=
  (f.tickets place).map Ticket.number

/-- Every request is in one place, once; at most one callback ends it; the window is respected; and
a request whose retries run out is sent no more often than they allow. -/
structure Conserves (opts : FetcherOptions) (f : IdFetcher α) : Prop where
  place : ∀ number < f.issued, ∃! place, number ∈ f.numbers place
  once : ∀ place, (f.numbers place).Nodup
  callbacks : ∀ number, (f.finished.filter fun ended => ended.1.number = number).length ≤ 1
  pending : f.pendingInterests.size = f.atFace.length
  window : ∀ sending ∈ f.sent, sending.pending < sending.windowSize
  budget : ∀ place, ∀ t ∈ f.tickets place, 0 ≤ t.asked → 0 ≤ opts.nRetriesOnValidationFail →
    ((f.sent.filter fun sending => sending.number = t.number).length : Int) ≤
      1 + t.asked + opts.nRetriesOnValidationFail

/-- What the steps keep. -/
structure Accounted (opts : FetcherOptions) (f : IdFetcher α) : Prop where
  matched : Matched f
  names : f.lives.names = Multiset.range f.issued
  sound : f.lives.Sound (Within opts)
  window : ∀ sending ∈ f.sent, sending.pending < sending.windowSize

theorem window_sendQueued {queue : List (Ticket α)}
    (h : ∀ sending ∈ f.sent, sending.pending < sending.windowSize) :
    ∀ sending ∈ (f.sendQueued queue).sent, sending.pending < sending.windowSize := by
  induction queue generalizing f with
  | nil => exact h
  | cons t queue ih =>
    rw [sendQueued]
    split
    · rename_i hroom
      refine ih fun sending hsending => ?_
      rcases List.mem_append.mp hsending with hsending | hsending
      · exact h sending hsending
      · obtain rfl := List.mem_singleton.mp hsending
        exact hroom
    · exact h

theorem issued_sendQueued (queue : List (Ticket α)) :
    (f.sendQueued queue).issued = f.issued := by
  induction queue generalizing f with
  | nil => rfl
  | cons t queue ih =>
    rw [sendQueued]
    split
    · exact ih
    · rfl

theorem Accounted.processQueue {opts : FetcherOptions} (h : Accounted opts f) :
    Accounted opts f.processQueue := by
  have hgoes := goesOn_processQueue f
  refine ⟨h.matched.processQueue, ?_, h.sound.goesOn hgoes within_next,
    window_sendQueued h.window⟩
  rw [hgoes.names, h.names, IdFetcher.processQueue, issued_sendQueued]

theorem Accounted.prepares {opts : FetcherOptions} {g : IdFetcher α} (h : Accounted opts f)
    (hprepares : Prepares opts f g) : Accounted opts g := by
  have hwindow : ∀ sending ∈ g.sent, sending.pending < sending.windowSize := by
    rw [hprepares.sent]
    exact h.window
  have hmatched := hprepares.matched h.matched
  rcases hprepares.lives with ⟨hissued, heq | hgoes⟩ | ⟨hissued, t, hbegins, hasked, hvalidation⟩
  · exact ⟨hmatched, by rw [heq, hissued]; exact h.names, heq ▸ h.sound, hwindow⟩
  · exact ⟨hmatched, by rw [hgoes.names, hissued]; exact h.names,
      h.sound.goes hgoes within_next, hwindow⟩
  · have hfresh : f.issued ∉ f.lives.names := by
      rw [h.names]
      exact Multiset.notMem_range_self
    have hwithin : Within opts 0 (.queued, t) := by
      intro hpositive hopts
      dsimp only at hpositive ⊢
      rw [hasked, hvalidation, if_pos rfl]
      exact ⟨hpositive, hopts, by simp, by omega⟩
    exact ⟨hmatched, by rw [hbegins.names, h.names, hissued, Multiset.range_succ],
      h.sound.begins hbegins hfresh hwithin, hwindow⟩

theorem Accounted.step {opts : FetcherOptions} {f' : IdFetcher α} {call : FetcherCall α}
    (h : Accounted opts f) (hstep : f.step opts call = some f') : Accounted opts f' := by
  obtain ⟨g, hprepares, rfl | rfl⟩ := step_prepares hstep
  · exact (h.prepares hprepares).processQueue
  · exact h.prepares hprepares

theorem accounted_empty (opts : FetcherOptions) : Accounted opts ({} : IdFetcher α) where
  matched := matched_empty
  names := rfl
  sound := ⟨Multiset.nodup_zero, fun _ h => absurd h (Multiset.notMem_zero _),
    fun _ _ h => absurd h (Multiset.notMem_zero _)⟩
  window := fun _ h => absurd h List.not_mem_nil

/-- A place has the requests that are in it. -/
theorem mem_objects {number : Nat} {place : Place} {t : Ticket α} :
    (number, place, t) ∈ f.lives.objects ↔ t ∈ f.tickets place ∧ t.number = number := by
  have hliving (place' : Place) (ts : List (Ticket α)) :
      (number, place, t) ∈ living place' ts ↔ place' = place ∧ t ∈ ts ∧ t.number = number := by
    simp only [living, Multiset.mem_coe, List.mem_map, Prod.mk.injEq]
    constructor
    · rintro ⟨u, hu, hnumber, hplace, rfl⟩
      exact ⟨hplace, hu, hnumber⟩
    · rintro ⟨hplace, ht, hnumber⟩
      exact ⟨t, ht, hnumber, hplace, rfl⟩
  simp only [lives, Multiset.mem_add, hliving]
  cases place <;> simp

theorem names_eq : f.lives.names = (f.numbers .queued : Multiset Nat) + f.numbers .pending +
    f.numbers .validating + f.numbers .retrying + f.numbers .finished := by
  have hnames (place : Place) : (living place (f.tickets place)).map Prod.fst =
      (f.numbers place : Multiset Nat) := by
    rw [living, numbers, Multiset.map_coe, List.map_map]
    rfl
  simp only [Lives.names, lives, Multiset.map_add, hnames]

theorem Accounted.conserves {opts : FetcherOptions} (h : Accounted opts f) :
    Conserves opts f := by
  have hnodup := h.sound.nodup
  have honce : ∀ place, (f.numbers place).Nodup := by
    rw [names_eq] at hnodup
    simp only [Multiset.nodup_add, Multiset.coe_nodup] at hnodup
    obtain ⟨⟨⟨⟨hqueued, hpending, -⟩, hvalidating, -⟩, hretrying, -⟩, hfinished, -⟩ := hnodup
    intro place
    cases place with
    | queued => exact hqueued
    | pending => exact hpending
    | validating => exact hvalidating
    | retrying => exact hretrying
    | finished => exact hfinished
  refine ⟨fun number hnumber => ?_, honce, fun number => ?_, h.matched.size, h.window,
    fun place t ht hasked hopts => ?_⟩
  · have hmem : number ∈ f.lives.names := by
      rw [h.names]
      exact Multiset.mem_range.mpr hnumber
    obtain ⟨⟨_, place, t⟩, hobject, rfl⟩ := Multiset.mem_map.mp hmem
    obtain ⟨ht, hn⟩ := mem_objects.mp hobject
    refine ⟨place, List.mem_map.mpr ⟨t, ht, hn⟩, fun place' hplace' => ?_⟩
    obtain ⟨t', ht', hn'⟩ := List.mem_map.mp hplace'
    have hsame := Multiset.inj_on_of_nodup_map hnodup _ (mem_objects.mpr ⟨ht', hn'⟩) _ hobject rfl
    exact congrArg (fun object => object.2.1) hsame
  · have hcount := List.nodup_iff_count_le_one.mp (honce .finished) number
    rw [numbers, tickets, List.map_map, List.count_eq_countP, List.countP_map,
      List.countP_eq_length_filter] at hcount
    exact hcount
  · have hbounded := h.sound.bounded t.number (place, t) (mem_objects.mpr ⟨ht, rfl⟩) hasked hopts
    obtain ⟨hretries, hvalidation, -, hle⟩ := hbounded
    have hcount : (f.lives.spent).count t.number =
        (f.sent.filter fun sending => sending.number = t.number).length := by
      rw [lives, Multiset.coe_count, List.count_eq_countP, List.countP_map,
        List.countP_eq_length_filter]
      rfl
    rw [hcount] at hle
    dsimp only at hretries hvalidation hle
    split at hle
    · omega
    · omega

/-- In every run of a fetcher, with whatever calls and events, requests are conserved. -/
theorem conserves_throughout (opts : FetcherOptions) (calls : List (FetcherCall α)) :
    Throughout (step opts) (Conserves opts) {} calls := fun _ _ hrun =>
  (run_invariant (fun _ _ _ hstep h => Accounted.step h hstep) (accounted_empty opts)
    hrun).conserves

/-- Every run is one of the fetcher of the model, without its ids. -/
theorem toFetcher_run {opts : FetcherOptions} {calls : List (FetcherCall α)}
    (hf : Accounted opts f) {f' : IdFetcher α} (hrun : run (step opts) f calls = some f') :
    run (call opts) f.toFetcher calls = some f'.toFetcher := by
  induction calls generalizing f with
  | nil =>
    obtain rfl := Option.some.inj hrun
    rfl
  | cons c calls ih =>
    obtain ⟨f₁, hstep, hrun⟩ := Option.bind_eq_some_iff.mp hrun
    rw [run_cons, toFetcher_call hf.matched hstep]
    exact ih (hf.step hstep) hrun

end IdFetcher

end NdnSvs
