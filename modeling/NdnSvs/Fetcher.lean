import Mathlib.Data.List.Perm.Basic
import NdnSvs.Packet

/-! The fetcher: a window of pending Interests, the queue behind it, and the retries after a timeout
or a failed validation.  A request is in one place until it comes to its outcome. -/

namespace NdnSvs

/-- What the fetcher uses of the security options. -/
structure FetcherOptions where
  validator : Bool := false
  nRetriesOnValidationFail : Int := 0

/-- A request with the retries that are left to it; a negative number does not run out. -/
structure QueuedInterest (α : Type) where
  request : α
  nRetries : Int
  nRetriesOnValidationFail : Int
deriving DecidableEq

structure Fetcher (α : Type) where
  windowSize : Nat := 10
  pendingInterests : List (QueuedInterest α) := []
  interestQueue : List (QueuedInterest α) := []
  /-- The requests whose Data the validator has, with the Data. -/
  validating : List (QueuedInterest α × Data) := []
  /-- The requests that wait for a retry after a failed validation. -/
  validationRetries : List (QueuedInterest α) := []
deriving DecidableEq

/-- What happens to a pending Interest, to Data in the hands of the validator, or to a timer. -/
inductive FetcherEvent
  | data (index : Nat) (data : Data)
  | nack (index : Nat)
  | timeout (index : Nat)
  | verdict (index : Nat) (accepted : Bool)
  | validationRetry (index : Nat)
deriving DecidableEq

/-- The callback that ends a request. -/
inductive FetchOutcome (α : Type)
  | satisfied (request : α) (data : Data)
  | nacked (request : α)
  | timedOut (request : α)
  | validationFailed (request : α)
deriving DecidableEq

def FetchOutcome.request {α : Type} : FetchOutcome α → α
  | .satisfied request _ | .nacked request | .timedOut request | .validationFailed request =>
    request

namespace Fetcher

variable {α : Type}

/-- Sends from the queue while the window has room. -/
def sendLoop (windowSize : Nat) : List (QueuedInterest α) → List (QueuedInterest α) →
    List (QueuedInterest α) × List (QueuedInterest α)
  | pending, [] => (pending, [])
  | pending, qi :: queue =>
    if pending.length < windowSize then sendLoop windowSize (pending ++ [qi]) queue
    else (pending, qi :: queue)

def processQueue (f : Fetcher α) : Fetcher α :=
  let (pending, queue) := sendLoop f.windowSize f.pendingInterests f.interestQueue
  { f with pendingInterests := pending, interestQueue := queue }

def setWindowSize (f : Fetcher α) (windowSize : Nat) : Fetcher α :=
  processQueue { f with windowSize := max 1 windowSize }

/-- Queues an Interest, which is sent when the window has room. -/
def resend (f : Fetcher α) (qi : QueuedInterest α) : Fetcher α :=
  processQueue { f with interestQueue := f.interestQueue ++ [qi] }

def expressInterest (opts : FetcherOptions) (f : Fetcher α) (request : α) (nRetries : Int) :
    Fetcher α :=
  f.resend ⟨request, nRetries, opts.nRetriesOnValidationFail⟩

def onData (opts : FetcherOptions) (f : Fetcher α) (data : Data) (qi : QueuedInterest α) :
    Fetcher α × Option (FetchOutcome α) :=
  let f := f.processQueue
  if opts.validator then ({ f with validating := f.validating ++ [(qi, data)] }, none)
  else (f, some (.satisfied qi.request data))

def onTimeout (f : Fetcher α) (qi : QueuedInterest α) : Fetcher α × Option (FetchOutcome α) :=
  if qi.nRetries = 0 then (f.processQueue, some (.timedOut qi.request))
  else (f.resend { qi with nRetries := qi.nRetries - 1 }, none)

def onValidationFailed (f : Fetcher α) (qi : QueuedInterest α) :
    Fetcher α × Option (FetchOutcome α) :=
  if 0 < qi.nRetriesOnValidationFail then
    ({ f with validationRetries := f.validationRetries ++ [qi] }, none)
  else (f, some (.validationFailed qi.request))

/-- The fetcher after an event, and the callback that the event leads to. -/
def step (opts : FetcherOptions) (f : Fetcher α) :
    FetcherEvent → Option (Fetcher α × Option (FetchOutcome α))
  | .data index data =>
    f.pendingInterests[index]?.map fun qi =>
      ({ f with pendingInterests := f.pendingInterests.eraseIdx index } : Fetcher α).onData opts
        data qi
  | .nack index =>
    f.pendingInterests[index]?.map fun qi =>
      (({ f with pendingInterests := f.pendingInterests.eraseIdx index } : Fetcher α).processQueue,
        some (.nacked qi.request))
  | .timeout index =>
    f.pendingInterests[index]?.map fun qi =>
      ({ f with pendingInterests := f.pendingInterests.eraseIdx index } : Fetcher α).onTimeout qi
  | .verdict index accepted =>
    f.validating[index]?.map fun (qi, data) =>
      let f := { f with validating := f.validating.eraseIdx index }
      if accepted then (f, some (.satisfied qi.request data)) else f.onValidationFailed qi
  | .validationRetry index =>
    f.validationRetries[index]?.map fun qi =>
      (({ f with validationRetries := f.validationRetries.eraseIdx index } : Fetcher α).resend
        { qi with nRetriesOnValidationFail := qi.nRetriesOnValidationFail - 1 }, none)

/-! ### Conservation of requests -/

/-- The requests that have not come to their outcome. -/
def outstanding (f : Fetcher α) : List α :=
  f.pendingInterests.map QueuedInterest.request ++ f.interestQueue.map QueuedInterest.request ++
    f.validating.map (fun v => v.1.request) ++ f.validationRetries.map QueuedInterest.request

theorem sendLoop_append (windowSize : Nat) (pending queue : List (QueuedInterest α)) :
    (sendLoop windowSize pending queue).1 ++ (sendLoop windowSize pending queue).2 =
      pending ++ queue := by
  induction queue generalizing pending with
  | nil => rfl
  | cons qi queue ih =>
    rw [sendLoop]
    split
    · rw [ih, List.append_assoc]
      rfl
    · rfl

@[simp] theorem outstanding_processQueue (f : Fetcher α) :
    f.processQueue.outstanding = f.outstanding := by
  have happend := sendLoop_append f.windowSize f.pendingInterests f.interestQueue
  simp only [outstanding, processQueue, ← List.map_append, happend]

theorem outstanding_resend (f : Fetcher α) (qi : QueuedInterest α) :
    (f.resend qi).outstanding.Perm (qi.request :: f.outstanding) := by
  rw [resend, outstanding_processQueue]
  simp only [outstanding, List.map_append, List.map_cons, List.map_nil, List.append_assoc,
    List.cons_append, List.nil_append]
  rw [← List.append_assoc, ← List.append_assoc (f.pendingInterests.map _)]
  exact List.perm_middle

theorem outstanding_expressInterest (opts : FetcherOptions) (f : Fetcher α) (request : α)
    (nRetries : Int) :
    (f.expressInterest opts request nRetries).outstanding.Perm (request :: f.outstanding) :=
  outstanding_resend f _

@[simp] theorem outstanding_setWindowSize (f : Fetcher α) (windowSize : Nat) :
    (f.setWindowSize windowSize).outstanding = f.outstanding :=
  outstanding_processQueue _

theorem outstanding_erasePending {f : Fetcher α} {index : Nat} {qi : QueuedInterest α}
    (h : f.pendingInterests[index]? = some qi) :
    f.outstanding.Perm (qi.request ::
      ({ f with pendingInterests := f.pendingInterests.eraseIdx index } : Fetcher α).outstanding) :=
  by
  obtain ⟨hlt, rfl⟩ := List.getElem?_eq_some_iff.mp h
  have hperm := (List.getElem_cons_eraseIdx_perm hlt).symm.map QueuedInterest.request
  exact ((hperm.append_right _).append_right _).append_right _

/-- A request is in one place until the callback that ends it. -/
theorem step_outstanding {opts : FetcherOptions} {f f' : Fetcher α} {e : FetcherEvent}
    {outcome : Option (FetchOutcome α)} (h : f.step opts e = some (f', outcome)) :
    f.outstanding.Perm ((outcome.map FetchOutcome.request).toList ++ f'.outstanding) := by
  cases e with
  | data index data =>
    obtain ⟨qi, hqi, heq⟩ := Option.map_eq_some_iff.mp h
    refine (outstanding_erasePending hqi).trans ?_
    unfold onData at heq
    split at heq
    · obtain ⟨rfl, rfl⟩ := Prod.mk.inj heq
      have hprocess := outstanding_processQueue
        { f with pendingInterests := f.pendingInterests.eraseIdx index }
      simp only [outstanding] at hprocess ⊢
      rw [← hprocess]
      simp only [List.map_append, List.map_cons, List.map_nil, Option.map_none,
        Option.toList_none, List.nil_append, List.append_assoc, List.cons_append]
      rw [← List.append_assoc, ← List.append_assoc, ← List.append_assoc, ← List.append_assoc]
      exact List.perm_middle.symm
    · obtain ⟨rfl, rfl⟩ := Prod.mk.inj heq
      rw [outstanding_processQueue]
      rfl
  | nack index =>
    obtain ⟨qi, hqi, heq⟩ := Option.map_eq_some_iff.mp h
    obtain ⟨rfl, rfl⟩ := Prod.mk.inj heq
    rw [outstanding_processQueue]
    exact outstanding_erasePending hqi
  | timeout index =>
    obtain ⟨qi, hqi, heq⟩ := Option.map_eq_some_iff.mp h
    refine (outstanding_erasePending hqi).trans ?_
    unfold onTimeout at heq
    split at heq
    · obtain ⟨rfl, rfl⟩ := Prod.mk.inj heq
      rw [outstanding_processQueue]
      rfl
    · obtain ⟨rfl, rfl⟩ := Prod.mk.inj heq
      exact (outstanding_resend _ { qi with nRetries := qi.nRetries - 1 }).symm
  | verdict index accepted =>
    obtain ⟨⟨qi, data⟩, hqi, heq⟩ := Option.map_eq_some_iff.mp h
    obtain ⟨hlt, hget⟩ := List.getElem?_eq_some_iff.mp hqi
    have hperm := (List.getElem_cons_eraseIdx_perm hlt).symm.map fun v => v.1.request
    rw [hget, List.map_cons] at hperm
    have hout : f.outstanding.Perm (qi.request ::
        ({ f with validating := f.validating.eraseIdx index } : Fetcher α).outstanding) := by
      simp only [outstanding]
      refine ((hperm.append_left _).append_right _).trans ?_
      simpa only [List.append_assoc, List.cons_append] using
        @List.perm_middle _ qi.request
          (f.pendingInterests.map QueuedInterest.request ++
            f.interestQueue.map QueuedInterest.request)
          ((f.validating.eraseIdx index).map (fun v => v.1.request) ++
            f.validationRetries.map QueuedInterest.request)
    refine hout.trans ?_
    dsimp only at heq
    split at heq
    · obtain ⟨rfl, rfl⟩ := Prod.mk.inj heq
      rfl
    · unfold onValidationFailed at heq
      split at heq
      · obtain ⟨rfl, rfl⟩ := Prod.mk.inj heq
        simp only [outstanding, List.map_append, List.map_cons, List.map_nil, Option.map_none,
          Option.toList_none, List.nil_append, ← List.append_assoc]
        exact (List.perm_append_singleton _ _).symm
      · obtain ⟨rfl, rfl⟩ := Prod.mk.inj heq
        rfl
  | validationRetry index =>
    obtain ⟨qi, hqi, heq⟩ := Option.map_eq_some_iff.mp h
    obtain ⟨rfl, rfl⟩ := Prod.mk.inj heq
    obtain ⟨hlt, rfl⟩ := List.getElem?_eq_some_iff.mp hqi
    have hperm := (List.getElem_cons_eraseIdx_perm hlt).symm.map QueuedInterest.request
    rw [List.map_cons] at hperm
    refine List.Perm.trans ?_ (outstanding_resend _
      { f.validationRetries[index] with
        nRetriesOnValidationFail := f.validationRetries[index].nRetriesOnValidationFail - 1 }).symm
    simp only [outstanding]
    exact (hperm.append_left _).trans List.perm_middle

/-- How a request comes to a failed validation. -/
theorem validationFailed_of_step {opts : FetcherOptions} {f f' : Fetcher α}
    {event : FetcherEvent} {request : α}
    (hstep : f.step opts event = some (f', some (.validationFailed request))) :
    ∃ index qi data, event = .verdict index false ∧ f.validating[index]? = some (qi, data) ∧
      qi.nRetriesOnValidationFail ≤ 0 ∧ qi.request = request ∧
      f' = { f with validating := f.validating.eraseIdx index } := by
  cases event with
  | data index data =>
    obtain ⟨qi, -, heq⟩ := Option.map_eq_some_iff.mp hstep
    unfold onData at heq
    split at heq
    · cases (Prod.mk.inj heq).2
    · cases (Prod.mk.inj heq).2
  | nack index =>
    obtain ⟨qi, -, heq⟩ := Option.map_eq_some_iff.mp hstep
    cases (Prod.mk.inj heq).2
  | timeout index =>
    obtain ⟨qi, -, heq⟩ := Option.map_eq_some_iff.mp hstep
    unfold onTimeout at heq
    split at heq
    · cases (Prod.mk.inj heq).2
    · cases (Prod.mk.inj heq).2
  | validationRetry index =>
    obtain ⟨qi, -, heq⟩ := Option.map_eq_some_iff.mp hstep
    cases (Prod.mk.inj heq).2
  | verdict index accepted =>
    obtain ⟨⟨qi, data⟩, hqi, heq⟩ := Option.map_eq_some_iff.mp hstep
    dsimp only at heq
    split at heq
    · cases (Prod.mk.inj heq).2
    · rename_i hrejected
      unfold onValidationFailed at heq
      split at heq
      · cases (Prod.mk.inj heq).2
      · rename_i hretries
        obtain ⟨rfl, hrequest⟩ := Prod.mk.inj heq
        obtain rfl := Bool.eq_false_iff.mpr hrejected
        exact ⟨index, qi, data, rfl, hqi, Int.not_lt.mp hretries,
          FetchOutcome.validationFailed.inj (Option.some.inj hrequest), rfl⟩

end Fetcher

end NdnSvs
