import NdnSvs.CoreNotes
import NdnSvs.Lib.Simulation
import NdnSvs.PooledCore

/-! The interleavings of the Face thread and the workers.  The core whose outstanding jobs form a
bag and whose results are computed when they are used can follow each of them. -/

namespace NdnSvs

open Lib Lib.Tlv

/-! ### The jobs of a pool -/

namespace Lane

variable {α ρ : Type}

/-- The jobs whose results have not been used, with their flags. -/
def outstanding (l : Lane α ρ) : List (Nat × α) :=
  l.results.map Prod.fst ++ l.pool.elim [] fun pool => pool.jobs ++ pool.queue

/-- The outstanding jobs whose results are still wanted. -/
def live (l : Lane α ρ) : List α := (l.outstanding.filter fun j => l.isAlive j.1).map Prod.snd

/-- While the workers are on the pool is open and the current flag is the only one that is set;
afterwards no flag is set, and a pool that is still there is being shut down. -/
structure Ok (on : Bool) (l : Lane α ρ) : Prop where
  opened : on → ∃ pool, l.pool = some pool ∧ pool.isStopped = false
  ended : on = false → ∀ pool, l.pool = some pool → pool.isStopped
  alive : ∀ flag, l.isAlive flag ↔ on ∧ flag = l.currentFlag
  known : ∀ j ∈ l.outstanding, j.1 < l.alive.length

variable {on : Bool} {l l' : Lane α ρ}

theorem ok_empty : Ok false ({} : Lane α ρ) where
  opened := fun h => absurd h Bool.false_ne_true
  ended := fun _ _ h => by cases h
  alive := fun flag => by simp [isAlive]
  known := fun j hj => by cases hj

theorem Ok.live_eq_nil (h : Ok false l) : l.live = [] := by
  have hnone : (l.outstanding.filter fun j => l.isAlive j.1) = [] := by
    refine List.filter_eq_nil_iff.mpr fun j _ hj => ?_
    exact Bool.false_ne_true ((h.alive j.1).mp hj).1
  rw [live, hnone, List.map_nil]

/-- What a change of the outstanding jobs does to the live ones. -/
theorem live_perm (l l' : Lane α ρ) {js : List (Nat × α)} (halive : l'.alive = l.alive)
    (h : l'.outstanding.Perm (l.outstanding ++ js)) :
    l'.live.Perm (l.live ++ (js.filter fun j => l.isAlive j.1).map Prod.snd) := by
  have hisAlive : l'.isAlive = l.isAlive := by
    funext flag
    rw [isAlive, isAlive, halive]
  rw [live, live, hisAlive, ← List.map_append, ← List.filter_append]
  exact (h.filter _).map _

theorem Ok.isAlive_current (h : Ok on l) (hon : on) : l.isAlive l.currentFlag :=
  (h.alive _).mpr ⟨hon, rfl⟩

theorem Ok.currentFlag_lt (h : Ok on l) (hon : on) : l.currentFlag < l.alive.length := by
  have halive := h.isAlive_current hon
  rw [isAlive] at halive
  by_contra hlt
  rw [List.getElem?_eq_none (Nat.not_lt.mp hlt), Option.getD_none] at halive
  cases halive

theorem isAlive_congr (halive : l'.alive = l.alive) (flag : Nat) :
    l'.isAlive flag = l.isAlive flag := by
  rw [isAlive, isAlive, halive]

/-- A change of the pool and of the results that keeps the flags. -/
theorem Ok.update (h : Ok on l) (halive : l'.alive = l.alive)
    (hopened : on → ∃ pool, l'.pool = some pool ∧ pool.isStopped = false)
    (hended : on = false → ∀ pool, l'.pool = some pool → pool.isStopped)
    (hknown : ∀ j ∈ l'.outstanding, j ∈ l.outstanding ∨ j.1 < l.alive.length) : Ok on l' where
  opened := hopened
  ended := hended
  alive := by
    intro flag
    rw [isAlive_congr halive, currentFlag, halive]
    exact h.alive flag
  known := by
    intro j hj
    rw [halive]
    exact (hknown j hj).elim (h.known j) id

theorem pool_post {pool pool' : SyncWorkerPool α} {job : α} {woken : Option Nat}
    (hrefuses : pool.refuses = false) (h : pool.post job woken = some pool') :
    pool'.isStopped = pool.isStopped ∧ (pool'.jobs ++ pool'.queue).Perm
      (pool.jobs ++ pool.queue ++ [job]) := by
  rcases SyncWorkerPool.step_post h with ⟨hrefuses', -⟩ | ⟨-, hqueue, ⟨rfl, -⟩ | hmoves⟩
  · rw [hrefuses] at hrefuses'
    cases hrefuses'
  · exact ⟨rfl, by rw [SyncWorkerPool.jobs, SyncWorkerPool.jobs, List.append_assoc]⟩
  · refine ⟨hmoves.isStopped, ?_⟩
    rw [hqueue, ← List.append_assoc]
    exact ((hmoves.jobs_perm rfl rfl).append_right _).append_right _

theorem post_live {job : α} {woken : Option Nat} (h : Ok on l) (hon : on)
    (hrefuses : l.refuses = false) (hpost : l.post job woken = some l') :
    Ok on l' ∧ l'.results = l.results ∧ l'.alive = l.alive ∧ l'.live.Perm (l.live ++ [job]) := by
  obtain ⟨pool, hpool, hopen⟩ := h.opened hon
  simp only [refuses, hpool] at hrefuses
  simp only [post, hpool, Option.bind_some, Option.map_eq_some_iff] at hpost
  obtain ⟨pool', hpost, rfl⟩ := hpost
  obtain ⟨hstopped, hjobs⟩ := pool_post hrefuses hpost
  have houtstanding : ({ l with pool := some pool' } : Lane α ρ).outstanding.Perm
      (l.outstanding ++ [(l.currentFlag, job)]) := by
    simp only [outstanding, hpool, Option.elim_some, List.append_assoc]
    exact (hjobs.append_left _).trans (by rw [List.append_assoc])
  refine ⟨h.update rfl (fun _ => ⟨pool', rfl, hstopped.trans hopen⟩) (fun hoff => ?_) ?_,
    rfl, rfl, ?_⟩
  · rw [hon] at hoff
    cases hoff
  · intro j hj
    rcases List.mem_append.mp (houtstanding.mem_iff.mp hj) with hold | hnew
    · exact .inl hold
    · obtain rfl := List.mem_singleton.mp hnew
      exact .inr (h.currentFlag_lt hon)
  · have hlive := live_perm l { l with pool := some pool' } rfl houtstanding
    have hkept : [(l.currentFlag, job)].filter (fun j => l.isAlive j.1) = [(l.currentFlag, job)] :=
      List.filter_eq_self.mpr fun j hj => by
        obtain rfl := List.mem_singleton.mp hj
        exact h.isAlive_current hon
    rwa [hkept] at hlive

/-- A step of the threads that ends neither a job nor the pool. -/
def isInner : SyncWorkerPool.Event α → Bool
  | .test _ | .spuriousWakeUp _ | .notifyAll => true
  | _ => false

theorem pool_inner {pool pool' : SyncWorkerPool α} {e : SyncWorkerPool.Event α}
    (he : isInner e) (h : pool.step e = some pool') :
    pool'.isStopped = pool.isStopped ∧
      (pool'.jobs ++ pool'.queue).Perm (pool.jobs ++ pool.queue) := by
  cases e with
  | test i =>
    rcases SyncWorkerPool.step_test h with
      ⟨job, hqueue, hmoves⟩ | ⟨hq, hq', -, hmoves⟩ | ⟨hq, hq', -, hmoves⟩
    · refine ⟨hmoves.isStopped, ?_⟩
      obtain ⟨rest, hold, hnew⟩ := hmoves.jobs
      rw [hqueue]
      exact (hnew.append_right _).trans
        ((hold.symm.append_right _).cons job |>.trans List.perm_middle.symm)
    · exact ⟨hmoves.isStopped, by rw [hq, hq']; exact (hmoves.jobs_perm rfl rfl).append_right _⟩
    · exact ⟨hmoves.isStopped, by rw [hq, hq']; exact (hmoves.jobs_perm rfl rfl).append_right _⟩
  | spuriousWakeUp i =>
    obtain ⟨hqueue, hmoves⟩ := SyncWorkerPool.step_spuriousWakeUp h
    exact ⟨hmoves.isStopped, by rw [hqueue]; exact (hmoves.jobs_perm rfl rfl).append_right _⟩
  | notifyAll =>
    simp only [SyncWorkerPool.step, Option.ite_none_right_eq_some, Option.some.injEq] at h
    obtain ⟨hstopped, rfl⟩ := h
    refine ⟨?_, ?_⟩
    · rw [SyncWorkerPool.isStopped, SyncWorkerPool.isStopped, hstopped]
      rfl
    · rw [SyncWorkerPool.jobs, SyncWorkerPool.jobs_notified]
      exact .rfl
  | post | finish | shutdown | join => cases he

theorem pool_finish {pool pool' : SyncWorkerPool α} {i : Nat}
    (h : pool.step (.finish i) = some pool') : pool'.isStopped = pool.isStopped ∧
      ∃ job, pool.workers[i]?.bind WorkerState.job? = some job ∧
        (pool.jobs ++ pool.queue).Perm (job :: (pool'.jobs ++ pool'.queue)) := by
  obtain ⟨job, hi, hqueue, hmoves⟩ := SyncWorkerPool.step_finish h
  obtain ⟨rest, hold, hnew⟩ := hmoves.jobs
  refine ⟨hmoves.isStopped, job, by rw [hi]; rfl, ?_⟩
  rw [hqueue]
  exact (hold.append_right _).trans ((hnew.symm.append_right _).cons job)

theorem Ok.setPool (h : Ok on l) {pool pool' : SyncWorkerPool (Nat × α)}
    (results : List ((Nat × α) × ρ)) (hpool : l.pool = some pool)
    (hstopped : pool'.isStopped = pool.isStopped)
    (houtstanding : ({ l with pool := some pool', results } : Lane α ρ).outstanding.Perm
      l.outstanding) : Ok on { l with pool := some pool', results } ∧
      ({ l with pool := some pool', results } : Lane α ρ).live.Perm l.live := by
  constructor
  · refine h.update rfl (fun hon => ⟨pool', rfl, ?_⟩) (fun hoff p hp => ?_) ?_
    · obtain ⟨pool₁, hpool₁, hopen⟩ := h.opened hon
      rw [hpool] at hpool₁
      obtain rfl := Option.some.inj hpool₁
      exact hstopped.trans hopen
    · obtain rfl := Option.some.inj hp
      exact hstopped ▸ h.ended hoff pool hpool
    · exact fun j hj => .inl (houtstanding.mem_iff.mp hj)
  · rw [← List.append_nil l.outstanding] at houtstanding
    have hlive := live_perm l { l with pool := some pool', results } rfl houtstanding
    simpa only [List.filter_nil, List.map_nil, List.append_nil] using hlive

/-- A step of the threads neither loses nor adds a job, and a result is what the work computes. -/
theorem thread_live {work : α → ρ} {e : SyncWorkerPool.Event (Nat × α)} (h : Ok on l)
    (hthread : l.thread work e = some l') : Ok on l' ∧ l'.alive = l.alive ∧ l'.live.Perm l.live ∧
      ∀ r ∈ l'.results, r ∈ l.results ∨ r.2 = work r.1.2 := by
  obtain ⟨pool, hpool, hthread⟩ := Option.bind_eq_some_iff.mp hthread
  have hinner : ∀ {pool'}, isInner e → pool.step e = some pool' →
      { l with pool := some pool' } = l' →
      Ok on l' ∧ l'.alive = l.alive ∧ l'.live.Perm l.live ∧
        ∀ r ∈ l'.results, r ∈ l.results ∨ r.2 = work r.1.2 := by
    rintro pool' he hstep rfl
    obtain ⟨hstopped, hjobs⟩ := pool_inner he hstep
    obtain ⟨hok, hlive⟩ := h.setPool l.results hpool hstopped (by
      simp only [outstanding, hpool, Option.elim_some]
      exact hjobs.append_left _)
    exact ⟨hok, rfl, hlive, fun r hr => .inl hr⟩
  cases e with
  | post | shutdown => cases hthread
  | test i =>
    obtain ⟨pool', hstep, hl'⟩ := Option.map_eq_some_iff.mp hthread
    exact hinner rfl hstep hl'
  | spuriousWakeUp i =>
    obtain ⟨pool', hstep, hl'⟩ := Option.map_eq_some_iff.mp hthread
    exact hinner rfl hstep hl'
  | notifyAll =>
    obtain ⟨pool', hstep, hl'⟩ := Option.map_eq_some_iff.mp hthread
    exact hinner rfl hstep hl'
  | finish i =>
    obtain ⟨pool', hstep, rfl⟩ := Option.map_eq_some_iff.mp hthread
    obtain ⟨hstopped, job, hjob, hjobs⟩ := pool_finish hstep
    rw [hjob]
    obtain ⟨hok, hlive⟩ := h.setPool (l.results ++ [(job, work job.2)]) hpool
      hstopped (by
        simp only [outstanding, hpool, Option.elim_some, List.map_append, List.map_cons,
          List.map_nil, List.append_assoc, List.singleton_append]
        exact hjobs.symm.append_left _)
    refine ⟨hok, rfl, hlive, fun r hr => ?_⟩
    rcases List.mem_append.mp hr with hold | hnew
    · exact .inl hold
    · obtain rfl := List.mem_singleton.mp hnew
      exact .inr rfl
  | join =>
    obtain ⟨pool', hstep, rfl⟩ := Option.map_eq_some_iff.mp hthread
    simp only [SyncWorkerPool.step, Option.ite_none_right_eq_some, Option.some.injEq] at hstep
    obtain ⟨⟨hnotified, -⟩, -⟩ := hstep
    have hoff : on = false := by
      refine Bool.eq_false_iff.mpr fun hon => ?_
      obtain ⟨pool₁, hpool₁, hopen⟩ := h.opened hon
      rw [hpool] at hpool₁
      obtain rfl := Option.some.inj hpool₁
      rw [SyncWorkerPool.isStopped, hnotified] at hopen
      cases hopen
    subst hoff
    have hok : Ok false { l with pool := none } :=
      h.update rfl (fun hon => absurd hon Bool.false_ne_true) (fun _ _ hp => by cases hp)
        fun j hj => .inl (List.mem_append_left _ (by simpa [outstanding] using hj))
    exact ⟨hok, rfl, by rw [h.live_eq_nil, hok.live_eq_nil], fun r hr => .inl hr⟩

theorem isAlive_enable (workerThreads maxQueueSize flag : Nat) :
    (l.enable workerThreads maxQueueSize).isAlive flag ↔
      l.isAlive flag ∨ flag = l.alive.length := by
  simp only [isAlive, enable, List.getElem?_append]
  split
  · rename_i hlt
    constructor
    · exact .inl
    · rintro (h | rfl)
      · exact h
      · exact absurd hlt (Nat.lt_irrefl _)
  · rename_i hge
    rw [List.getElem?_eq_none (Nat.not_lt.mp hge)]
    rcases Nat.eq_zero_or_pos (flag - l.alive.length) with hzero | hpos
    · rw [hzero]
      simp only [List.getElem?_cons_zero, Option.getD_some, Option.getD_none, true_iff]
      exact .inr (by omega)
    · rw [List.getElem?_eq_none (by rw [List.length_singleton]; exact hpos)]
      simp only [Option.getD_none, Bool.false_eq_true, false_or, false_iff]
      omega

/-- Turning the workers on when they are off makes a flag that no outstanding job has. -/
theorem enable_ok (h : Ok false l) (hblocked : l.isBlocked = false)
    (workerThreads maxQueueSize : Nat) :
    Ok true (l.enable workerThreads maxQueueSize) ∧
      (l.enable workerThreads maxQueueSize).live = [] ∧
      ∀ r ∈ l.results, ¬(l.enable workerThreads maxQueueSize).isAlive r.1.1 := by
  have hnone : l.pool = none := by
    cases hpool : l.pool with
    | none => rfl
    | some pool =>
      have hstopped := h.ended rfl pool hpool
      simp only [isBlocked, hpool, Option.any_some] at hblocked
      rw [hblocked] at hstopped
      cases hstopped
  have hdead : ∀ flag < l.alive.length, ¬(l.enable workerThreads maxQueueSize).isAlive flag := by
    intro flag hflag halive
    rcases (isAlive_enable workerThreads maxQueueSize flag).mp halive with hold | rfl
    · exact Bool.false_ne_true ((h.alive flag).mp hold).1
    · exact Nat.lt_irrefl _ hflag
  have houtstanding : (l.enable workerThreads maxQueueSize).outstanding = l.outstanding := by
    simp only [outstanding, enable, hnone, Option.getD_none, Option.elim_some, Option.elim_none,
      SyncWorkerPool.jobs_create]
    rfl
  refine ⟨⟨fun _ => ?_, fun hoff => absurd hoff.symm Bool.false_ne_true, fun flag => ?_, ?_⟩,
    ?_, ?_⟩
  · refine ⟨_, rfl, ?_⟩
    rw [hnone, Option.getD_none]
    rfl
  · rw [isAlive_enable]
    simp only [currentFlag, enable, List.length_append, List.length_singleton,
      Nat.add_sub_cancel, true_and]
    refine ⟨fun halive => halive.elim (fun hold => ?_) id, .inr⟩
    exact absurd ((h.alive flag).mp hold).1 Bool.false_ne_true
  · intro j hj
    rw [houtstanding] at hj
    have hlt := h.known j hj
    simp only [enable, List.length_append, List.length_singleton]
    omega
  · have hfilter : (l.enable workerThreads maxQueueSize).outstanding.filter
        (fun j => (l.enable workerThreads maxQueueSize).isAlive j.1) = [] := by
      refine List.filter_eq_nil_iff.mpr fun j hj => ?_
      rw [houtstanding] at hj
      exact hdead j.1 (h.known j hj)
    rw [live, hfilter, List.map_nil]
  · intro r hr
    exact hdead r.1.1 (h.known r.1 (List.mem_append_left _ (List.mem_map_of_mem hr)))

/-- Turning the workers off clears the only flag that was set. -/
theorem disable_ok (h : Ok on l) : Ok false l.disable := by
  have hdead : ∀ flag, l.disable.isAlive flag = false := by
    intro flag
    simp only [isAlive, disable, List.getElem?_set]
    split
    · split <;> rfl
    · rename_i hne
      refine Bool.eq_false_iff.mpr fun halive => hne ?_
      exact ((h.alive flag).mp halive).2.symm
  have houtstanding : l.disable.outstanding = l.outstanding := by
    simp only [outstanding, disable]
    cases l.pool with
    | none => rfl
    | some pool =>
      simp only [Option.bind_some, SyncWorkerPool.step, Option.elim_some]
      split <;> rfl
  refine ⟨fun hon => absurd hon Bool.false_ne_true, fun _ pool hpool => ?_, fun flag => ?_, ?_⟩
  · simp only [disable] at hpool
    obtain ⟨pool₀, -, hstep⟩ := Option.bind_eq_some_iff.mp hpool
    simp only [SyncWorkerPool.step, Option.some.injEq] at hstep
    subst hstep
    split
    · assumption
    · rfl
  · rw [hdead]
    exact ⟨fun h => absurd h Bool.false_ne_true, fun h => absurd h.1 Bool.false_ne_true⟩
  · intro j hj
    rw [houtstanding] at hj
    simp only [disable, List.length_set]
    exact h.known j hj

/-- The Face thread takes the oldest result. -/
theorem takeResult_ok {r : (Nat × α) × ρ} {results : List ((Nat × α) × ρ)} (h : Ok on l)
    (hresults : l.results = r :: results) : Ok on { l with results } ∧
      l.live =
        (if l.isAlive r.1.1 then [r.1.2] else []) ++ ({ l with results } : Lane α ρ).live := by
  have houtstanding : l.outstanding = r.1 :: ({ l with results } : Lane α ρ).outstanding := by
    simp only [outstanding, hresults, List.map_cons, List.cons_append]
  constructor
  · refine h.update rfl h.opened h.ended fun j hj => .inl ?_
    rw [houtstanding]
    exact List.mem_cons_of_mem _ hj
  · have hisAlive : ({ l with results } : Lane α ρ).isAlive = l.isAlive := rfl
    rw [live, live, houtstanding, hisAlive, List.filter_cons]
    split <;> rfl

end Lane

/-! ### Results -/

namespace SVSyncCore

variable (cfg : CoreConfig) (env : CoreInputs)

theorem afterMerge_clock (c : SVSyncCore) (clock : Nat) (other : VersionVector)
    (myVectorNew : Bool) : c.afterMerge cfg { env with clock } other myVectorNew =
      c.afterMerge cfg env other myVectorNew := by
  cases hrecorded : c.recordedVv with
  | some recorded => simp only [afterMerge, recordVector, hrecorded]
  | none =>
    rw [afterMerge_unrecorded hrecorded, afterMerge_unrecorded hrecorded]
    rfl

/-- The result of a worker is used like one that is computed when it is used: with the worker's
clock, unless the state has changed and the Interest is decoded again. -/
theorem exists_processSyncInterestResult (wenv : CoreInputs) (c : SVSyncCore)
    (job : SyncProcessingJob) : ∃ env', c.processSyncInterestResult cfg env' job =
      c.commitProcessing cfg env job (processJob cfg wenv job) := by
  unfold processJob
  cases hdecode : SyncProtocolCodec.decode cfg.cxx wenv.clock job.interest cfg.syncPrefix
    cfg.version true with
  | error e =>
    refine ⟨wenv, ?_⟩
    simp only [processSyncInterestResult, hdecode, commitProcessing]
  | ok envelope =>
    by_cases hstale : c.stateGeneration ≠ job.stateGeneration
    · refine ⟨env, ?_⟩
      simp only [processSyncInterestResult, commitProcessing, if_pos hstale]
      split
      · rename_i e he
        simp only [onSyncInterestValidatedSerial, he]
      · rfl
    · refine ⟨{ env with clock := wenv.clock }, ?_⟩
      simp only [processSyncInterestResult, commitProcessing, hdecode, if_neg hstale]
      exact afterMerge_clock cfg env _ _ _ _

/-- The inputs of a worker and of the Face thread, each where it is used. -/
def productionInputs (wenv env : CoreInputs) (c : SVSyncCore) : CoreInputs :=
  { env with
    extraBlocks := wenv.extraBlocks
    signData := if cfg.version = .v2 ∨ c.parallelSyncProductionSigning then wenv.signData
      else env.signData
    signInterest := if c.parallelSyncProductionSigning then wenv.signInterest
      else env.signInterest }

theorem produce_productionInputs (wenv : CoreInputs) (c : SVSyncCore) (job : SyncProductionJob) :
    c.produce cfg (productionInputs cfg wenv env c) job = c.produce cfg wenv job := by
  have hblocks : c.workerBlocks cfg (productionInputs cfg wenv env c) job =
    c.workerBlocks cfg wenv job := rfl
  unfold produce
  rw [hblocks]
  congr 1
  funext extensions
  by_cases hworker : cfg.version = .v2 ∨ c.parallelSyncProductionSigning
  · have hsign : (productionInputs cfg wenv env c).signData = wenv.signData := if_pos hworker
    rw [if_pos hworker, if_pos hworker, hsign]
    congr 1
    funext interest
    by_cases hinterest : cfg.version = .v2 ∧ c.parallelSyncProductionSigning
    · have hsignInterest : (productionInputs cfg wenv env c).signInterest = wenv.signInterest :=
        if_pos hinterest.2
      rw [if_pos hinterest, if_pos hinterest, signSyncInterest, signSyncInterest, hsignInterest]
    · rw [if_neg hinterest, if_neg hinterest]
  · rw [if_neg hworker, if_neg hworker]

theorem completeProduction_productionInputs {wenv : CoreInputs} {c : SVSyncCore}
    {job : SyncProductionJob} {result : Option Interest}
    (h : c.produce cfg wenv job = .ok result) :
    c.completeProduction cfg (productionInputs cfg wenv env c) job result =
      c.completeProduction cfg env job result := by
  cases result with
  | none =>
    have hface : ¬(cfg.version = .v2 ∨ c.parallelSyncProductionSigning) := by
      intro hworker
      obtain ⟨extensions, -, h⟩ := bind_eq_ok.mp h
      rw [if_pos hworker] at h
      obtain ⟨interest, -, h⟩ := bind_eq_ok.mp h
      split at h
      · obtain ⟨signed, -, h⟩ := bind_eq_ok.mp h
        cases h
      · cases h
    have hsign : (productionInputs cfg wenv env c).signData = env.signData := if_neg hface
    rw [completeProduction, completeProduction, hsign]
  | some interest =>
    simp only [completeProduction]
    split
    · rename_i hface
      have hsignInterest : (productionInputs cfg wenv env c).signInterest = env.signInterest :=
        if_neg hface.2
      rw [signSyncInterest, signSyncInterest, hsignInterest]
    · rfl

theorem exists_processSyncProductionResult (wenv : CoreInputs) (c : SVSyncCore)
    (job : SyncProductionJob) : ∃ env', c.processSyncProductionResult cfg env' job =
      c.commitProduction cfg env job (c.produce cfg wenv job) := by
  refine ⟨productionInputs cfg wenv env c, ?_⟩
  rw [processSyncProductionResult, produce_productionInputs]
  cases hproduce : c.produce cfg wenv job with
  | error e => rfl
  | ok result =>
    simp only [commitProduction]
    rw [completeProduction_productionInputs cfg env hproduce]
    rfl

end SVSyncCore

/-! ### The simulation -/

namespace PooledCore

variable {cfg : CoreConfig} {env : CoreInputs} {p p' : PooledCore} {c : SVSyncCore}

/-- What holds of the pools and the results in every state. -/
structure Ok (cfg : CoreConfig) (p : PooledCore) : Prop where
  processing : p.processing.Ok p.core.parallelSyncProcessing
  production : p.production.Ok p.core.parallelSyncProduction
  noProcessing : p.core.processing = []
  noProduction : p.core.production = []
  processed : ∀ r ∈ p.processing.results, ∃ wenv, r.2 = SVSyncCore.processJob cfg wenv r.1.2
  produced : ∀ r ∈ p.production.results, p.production.isAlive r.1.1 →
    ∃ wenv, r.2 = p.core.produce cfg wenv r.1.2

/-- The core that computes the results when they are used is in the same state, with the jobs that
the pools and the posted results hold. -/
def Implements (p : PooledCore) (c : SVSyncCore) : Prop :=
  ∃ ps qs, ps.Perm p.processing.live ∧ qs.Perm p.production.live ∧ c = p.core.withJobs ps qs

/-- The workers are turned on only when they are off. -/
def EnablesWhenOff (p : PooledCore) : Occurrence → Prop
  | (.setParallelSyncProcessing enabled _ _, _) => enabled → p.core.parallelSyncProcessing = false
  | (.setParallelSyncProduction enabled _ _ _ _, _) =>
    enabled → p.core.parallelSyncProduction = false
  | _ => True

instance (p : PooledCore) (o : Occurrence) : Decidable (p.EnablesWhenOff o) := by
  unfold EnablesWhenOff
  split <;> infer_instance

theorem produce_settings {c c' : SVSyncCore} (h : c'.settings = c.settings) (env : CoreInputs)
    (job : SyncProductionJob) : c'.produce cfg env job = c.produce cfg env job := by
  simp only [SVSyncCore.settings, Prod.mk.injEq] at h
  obtain ⟨-, -, hsigning, hextra⟩ := h
  simp only [SVSyncCore.produce, SVSyncCore.workerBlocks, hsigning, hextra]

/-- The jobs of a handler reach a pool that takes them. -/
theorem postAll_live {α ρ : Type} {l l' : Lane α ρ} {on : Bool} {jobs : List α}
    {woken : Option Nat} (h : l.Ok on)
    (hjobs : jobs = [] ∨ (l.refuses = false ∧ on ∧ ∃ job, jobs = [job]))
    (hpost : l.postAll jobs woken = some l') :
    l'.Ok on ∧ l'.results = l.results ∧ l'.alive = l.alive ∧ l'.live.Perm (l.live ++ jobs) := by
  rcases hjobs with rfl | ⟨hrefuses, hon, job, rfl⟩
  · obtain rfl := Option.some.inj hpost
    exact ⟨h, rfl, rfl, by rw [List.append_nil]⟩
  · have hone : l.postAll [job] woken = l.post job woken := Option.bind_fun_some _
    exact Lane.post_live h hon hrefuses (hone ▸ hpost)

theorem face_follows {e : SVSyncCore.Event} {woken : Option Nat} (hok : p.Ok cfg)
    (hc : p.Implements c) (hface : p.face cfg env e woken = some p') :
    p'.Ok cfg ∧ ∃ os c', run (SVSyncCore.next cfg) c os = some c' ∧ p'.Implements c' := by
  obtain ⟨ps, qs, hps, hqs, rfl⟩ := hc
  unfold face at hface
  split at hface
  · cases hface
  · rename_i hwork
    have he : e.isWork = false := Bool.eq_false_iff.mpr hwork
    obtain ⟨c₁, hstep, hface⟩ := Option.bind_eq_some_iff.mp hface
    obtain ⟨l₁, hl₁, hface⟩ := Option.bind_eq_some_iff.mp hface
    obtain ⟨l₂, hl₂, rfl⟩ := Option.map_eq_some_iff.mp hface
    obtain ⟨hsettings, hprocessing, hproduction⟩ := SVSyncCore.step_queues he hstep
    rw [hok.noProcessing] at hprocessing
    rw [hok.noProduction] at hproduction
    have hfull : (p.inputs env e).queueFull = p.queueFull e := rfl
    obtain ⟨hok₁, hresults₁, halive₁, hlive₁⟩ := postAll_live hok.processing
      (hprocessing.imp id fun ⟨hreceives, hroom, hon, job, hjob⟩ =>
        ⟨by rwa [hfull, queueFull, if_pos hreceives] at hroom, hon, job, hjob⟩) hl₁
    obtain ⟨hok₂, hresults₂, halive₂, hlive₂⟩ := postAll_live hok.production
      (hproduction.imp id fun ⟨hreceives, hroom, hon, job, hjob⟩ =>
        ⟨by rwa [hfull, queueFull, hreceives, if_neg Bool.false_ne_true] at hroom, hon, job, hjob⟩)
      hl₂
    have hon := hsettings
    simp only [SVSyncCore.settings, Prod.mk.injEq] at hon
    refine ⟨⟨hon.1 ▸ hok₁, hon.2.1 ▸ hok₂, rfl, rfl, ?_, ?_⟩, ?_⟩
    · rw [hresults₁]
      exact hok.processed
    · intro r hr halive
      rw [hresults₂] at hr
      rw [Lane.isAlive_congr halive₂] at halive
      obtain ⟨wenv, hwenv⟩ := hok.produced r hr halive
      exact ⟨wenv, hwenv.trans (produce_settings hsettings wenv r.1.2).symm⟩
    · refine ⟨[(e, p.inputs env e)], c₁.withJobs ps qs, ?_, ?_⟩
      · rw [run_cons, SVSyncCore.next, SVSyncCore.step_withJobs cfg _ ps qs _ he, hstep]
        rfl
      · refine ⟨ps ++ c₁.processing, qs ++ c₁.production, ?_, ?_, ?_⟩
        · exact (hps.append_right _).trans hlive₁.symm
        · exact (hqs.append_right _).trans hlive₂.symm
        · simp only [SVSyncCore.withJobs, List.append_nil]

/-- The steps of the threads are invisible. -/
theorem processingThread_follows
    {e : SyncWorkerPool.Event (Nat × SyncProcessingJob)} (hok : p.Ok cfg) (hc : p.Implements c)
    {l : Lane SyncProcessingJob (Option (DecodedSyncEnvelope × MergeComputationResult))}
    (h : p.processing.thread (SVSyncCore.processJob cfg env) e = some l) :
    Ok cfg { p with processing := l } ∧ Implements { p with processing := l } c := by
  obtain ⟨hlane, halive, hlive, hresults⟩ := Lane.thread_live hok.processing h
  obtain ⟨ps, qs, hps, hqs, rfl⟩ := hc
  refine ⟨{ hok with processing := hlane, processed := fun r hr => ?_ },
    ps, qs, hps.trans hlive.symm, hqs, rfl⟩
  rcases hresults r hr with hold | hnew
  · exact hok.processed r hold
  · exact ⟨env, hnew⟩

theorem productionThread_follows
    {e : SyncWorkerPool.Event (Nat × SyncProductionJob)} (hok : p.Ok cfg) (hc : p.Implements c)
    {l : Lane SyncProductionJob (Result (Option Interest))}
    (h : p.production.thread (p.core.produce cfg env) e = some l) :
    Ok cfg { p with production := l } ∧ Implements { p with production := l } c := by
  obtain ⟨hlane, halive, hlive, hresults⟩ := Lane.thread_live hok.production h
  obtain ⟨ps, qs, hps, hqs, rfl⟩ := hc
  refine ⟨{ hok with production := hlane, produced := fun r hr hr' => ?_ },
    ps, qs, hps, hqs.trans hlive.symm, rfl⟩
  rcases hresults r hr with hold | hnew
  · exact hok.produced r hold (Lane.isAlive_congr halive r.1.1 ▸ hr')
  · exact ⟨env, hnew⟩

/-- A job in the list has a place there, and the others are left when it is taken out. -/
theorem exists_index {α : Type} {job : α} {js rest : List α} (h : js.Perm (job :: rest)) :
    ∃ k, js[k]? = some job ∧ (js.eraseIdx k).Perm rest := by
  obtain ⟨k, hk⟩ := List.mem_iff_getElem?.mp (h.mem_iff.mpr List.mem_cons_self)
  obtain ⟨hlt, rfl⟩ := List.getElem?_eq_some_iff.mp hk
  exact ⟨k, hk, ((List.getElem_cons_eraseIdx_perm hlt).trans h).cons_inv⟩

theorem commitProcessing_jobState (c : SVSyncCore) (job : SyncProcessingJob)
    (result : Option (DecodedSyncEnvelope × MergeComputationResult)) :
    (c.commitProcessing cfg env job result).1.jobState = c.jobState := by
  unfold SVSyncCore.commitProcessing
  split
  · rfl
  · split
    · exact SVSyncCore.onSyncInterestValidatedSerial_jobState _ _
    · exact SVSyncCore.afterMerge_jobState _ _ _

theorem commitProduction_jobState (c : SVSyncCore) (job : SyncProductionJob)
    (result : Result (Option Interest)) :
    (c.commitProduction cfg env job result).1.jobState = c.jobState := by
  unfold SVSyncCore.commitProduction
  split
  · rfl
  · split
    · rfl
    · split
      · rfl
      · exact SVSyncCore.expressInterest_jobState _ _

/-- The invariant with another core whose jobs and settings are the same. -/
theorem Ok.setCore (h : p.Ok cfg) {c : SVSyncCore} (hc : c.jobState = p.core.jobState) :
    Ok cfg { p with core := c } := by
  simp only [SVSyncCore.jobState, Prod.mk.injEq] at hc
  obtain ⟨hsettings, hprocessing, hproduction⟩ := hc
  have hon := hsettings
  simp only [SVSyncCore.settings, Prod.mk.injEq] at hon
  refine ⟨hon.1 ▸ h.processing, hon.2.1 ▸ h.production, hprocessing.trans h.noProcessing,
    hproduction.trans h.noProduction, h.processed, fun r hr halive => ?_⟩
  obtain ⟨wenv, hwenv⟩ := h.produced r hr halive
  exact ⟨wenv, hwenv.trans (produce_settings hsettings wenv r.1.2).symm⟩

theorem processingResult_follows (hok : p.Ok cfg) (hc : p.Implements c)
    (h : p.processingResult cfg env = some p') :
    p'.Ok cfg ∧ ∃ os c', run (SVSyncCore.next cfg) c os = some c' ∧ p'.Implements c' := by
  obtain ⟨ps, qs, hps, hqs, rfl⟩ := hc
  unfold processingResult at h
  split at h
  · cases h
  · rename_i flag job result results hresults
    obtain ⟨hlane, hlive⟩ := Lane.takeResult_ok hok.processing hresults
    have hprocessed : ∀ r ∈ results, ∃ wenv, r.2 = SVSyncCore.processJob cfg wenv r.1.2 :=
      fun r hr => hok.processed r (hresults ▸ List.mem_cons_of_mem _ hr)
    have hok' : Ok cfg { p with processing := { p.processing with results } } :=
      { hok with processing := hlane, processed := hprocessed }
    dsimp only at h
    split at h
    · rename_i halive
      obtain rfl := Option.some.inj h
      rw [if_pos halive, List.singleton_append] at hlive
      obtain ⟨wenv, hwenv⟩ := hok.processed ((flag, job), result)
        (hresults ▸ List.mem_cons_self)
      obtain ⟨env', henv'⟩ := SVSyncCore.exists_processSyncInterestResult cfg env wenv p.core job
      obtain ⟨k, hk, hrest⟩ := exists_index (hlive ▸ hps)
      have hjob : (p.core.withJobs ps qs).processing[k]? = some job := by
        simp only [SVSyncCore.withJobs, hok.noProcessing, List.append_nil, hk]
      have htaken : ({ p.core.withJobs ps qs with
          processing := (p.core.withJobs ps qs).processing.eraseIdx k } : SVSyncCore) =
          p.core.withJobs (ps.eraseIdx k) qs := by
        simp only [SVSyncCore.withJobs, hok.noProcessing, List.append_nil]
      refine ⟨hok'.setCore (commitProcessing_jobState _ _ _), [(.processingResult k, env')],
        _, ?_, ps.eraseIdx k, qs, hrest, hqs, rfl⟩
      rw [run_cons, SVSyncCore.next, SVSyncCore.step_processingResult.mpr ⟨job, hjob, rfl⟩, htaken,
        SVSyncCore.processSyncInterestResult_withJobs, henv']
      simp only at hwenv
      rw [hwenv]
      rfl
    · rename_i halive
      obtain rfl := Option.some.inj h
      rw [if_neg halive, List.nil_append] at hlive
      exact ⟨hok', [], _, rfl, ps, qs, hlive ▸ hps, hqs, rfl⟩

theorem productionResult_follows (hok : p.Ok cfg) (hc : p.Implements c)
    (h : p.productionResult cfg env = some p') :
    p'.Ok cfg ∧ ∃ os c', run (SVSyncCore.next cfg) c os = some c' ∧ p'.Implements c' := by
  obtain ⟨ps, qs, hps, hqs, rfl⟩ := hc
  unfold productionResult at h
  split at h
  · cases h
  · rename_i flag job result results hresults
    obtain ⟨hlane, hlive⟩ := Lane.takeResult_ok hok.production hresults
    have hproduced : ∀ r ∈ results, p.production.isAlive r.1.1 →
        ∃ wenv, r.2 = p.core.produce cfg wenv r.1.2 :=
      fun r hr => hok.produced r (hresults ▸ List.mem_cons_of_mem _ hr)
    have hok' : Ok cfg { p with production := { p.production with results } } :=
      { hok with production := hlane, produced := hproduced }
    dsimp only at h
    split at h
    · rename_i halive
      obtain rfl := Option.some.inj h
      rw [if_pos halive, List.singleton_append] at hlive
      obtain ⟨wenv, hwenv⟩ := hok.produced ((flag, job), result)
        (hresults ▸ List.mem_cons_self) halive
      obtain ⟨env', henv'⟩ := SVSyncCore.exists_processSyncProductionResult cfg env wenv p.core job
      obtain ⟨k, hk, hrest⟩ := exists_index (hlive ▸ hqs)
      have hjob : (p.core.withJobs ps qs).production[k]? = some job := by
        simp only [SVSyncCore.withJobs, hok.noProduction, List.append_nil, hk]
      have htaken : ({ p.core.withJobs ps qs with
          production := (p.core.withJobs ps qs).production.eraseIdx k } : SVSyncCore) =
          p.core.withJobs ps (qs.eraseIdx k) := by
        simp only [SVSyncCore.withJobs, hok.noProduction, List.append_nil]
      refine ⟨hok'.setCore (commitProduction_jobState _ _ _), [(.productionResult k, env')],
        _, ?_, ps, qs.eraseIdx k, hps, hrest, rfl⟩
      rw [run_cons, SVSyncCore.next, SVSyncCore.step_productionResult.mpr ⟨job, hjob, rfl⟩, htaken,
        SVSyncCore.processSyncProductionResult_withJobs, henv']
      simp only at hwenv
      rw [hwenv]
      rfl
    · rename_i halive
      obtain rfl := Option.some.inj h
      rw [if_neg halive, List.nil_append] at hlive
      exact ⟨hok', [], _, rfl, ps, qs, hps, hlive ▸ hqs, rfl⟩

theorem setParallelSyncProcessing_follows (hok : p.Ok cfg) (hc : p.Implements c)
    (hblocked : p.processing.isBlocked = false) {enabled : Bool} {workerThreads maxQueueSize : Nat}
    (henables : enabled → p.core.parallelSyncProcessing = false)
    (h : p' = { p with
      core := p.core.setParallelSyncProcessing enabled
      processing := if enabled then p.processing.enable workerThreads maxQueueSize
        else p.processing.disable }) :
    p'.Ok cfg ∧ p'.Implements (c.setParallelSyncProcessing enabled) := by
  subst h
  obtain ⟨ps, qs, hps, hqs, rfl⟩ := hc
  cases enabled with
  | true =>
    have hoff := hok.processing
    rw [henables rfl] at hoff
    obtain ⟨hlane, hlive, -⟩ := Lane.enable_ok hoff hblocked workerThreads maxQueueSize
    rw [hoff.live_eq_nil] at hps
    exact ⟨{ hok with processing := hlane }, ps, qs, hlive ▸ hps, hqs, rfl⟩
  | false =>
    have hlane := Lane.disable_ok hok.processing
    refine ⟨{ hok with processing := hlane, noProcessing := rfl }, [], qs, ?_, hqs, rfl⟩
    exact .of_eq hlane.live_eq_nil.symm

theorem setParallelSyncProduction_follows (hok : p.Ok cfg) (hc : p.Implements c)
    (hblocked : p.production.isBlocked = false)
    {enabled signInWorker buildExtraBlockInWorker : Bool} {workerThreads maxQueueSize : Nat}
    (henables : enabled → p.core.parallelSyncProduction = false)
    (h : p' = { p with
      core := p.core.setParallelSyncProduction enabled signInWorker buildExtraBlockInWorker
      production := if enabled then p.production.enable workerThreads maxQueueSize
        else p.production.disable }) :
    p'.Ok cfg ∧ p'.Implements
      (c.setParallelSyncProduction enabled signInWorker buildExtraBlockInWorker) := by
  subst h
  obtain ⟨ps, qs, hps, hqs, rfl⟩ := hc
  cases enabled with
  | true =>
    have hoff := hok.production
    rw [henables rfl] at hoff
    obtain ⟨hlane, hlive, hdead⟩ := Lane.enable_ok hoff hblocked workerThreads maxQueueSize
    rw [hoff.live_eq_nil] at hqs
    refine ⟨{ hok with production := hlane, produced := fun r hr halive => ?_ },
      ps, qs, hps, hlive ▸ hqs, rfl⟩
    exact absurd halive (hdead r hr)
  | false =>
    have hlane := Lane.disable_ok hok.production
    refine ⟨{ hok with
      production := hlane, noProduction := rfl, produced := fun r hr halive => ?_ },
      ps, [], hps, .of_eq hlane.live_eq_nil.symm, rfl⟩
    exact absurd ((hlane.alive _).mp halive).1 Bool.false_ne_true

/-- Each step of the threads is a step of the core, or changes nothing that it sees. -/
theorem next_follows : Follows (next cfg) (SVSyncCore.next cfg) EnablesWhenOff
    fun p c => p.Ok cfg ∧ p.Implements c := by
  rintro p ⟨e, env⟩ p' c hstep henables ⟨hok, hc⟩
  simp only [next, step] at hstep
  cases e with
  | face event woken =>
    simp only [Option.ite_none_left_eq_some] at hstep
    obtain ⟨hok', os, c', hrun, hc'⟩ := face_follows hok hc hstep.2
    exact ⟨os, c', hrun, hok', hc'⟩
  | processingThread event =>
    obtain ⟨l, hl, rfl⟩ := Option.map_eq_some_iff.mp hstep
    exact ⟨[], c, rfl, processingThread_follows hok hc hl⟩
  | productionThread event =>
    obtain ⟨l, hl, rfl⟩ := Option.map_eq_some_iff.mp hstep
    exact ⟨[], c, rfl, productionThread_follows hok hc hl⟩
  | processingResult =>
    simp only [Option.ite_none_left_eq_some] at hstep
    obtain ⟨hok', os, c', hrun, hc'⟩ := processingResult_follows hok hc hstep.2
    exact ⟨os, c', hrun, hok', hc'⟩
  | productionResult =>
    simp only [Option.ite_none_left_eq_some] at hstep
    obtain ⟨hok', os, c', hrun, hc'⟩ := productionResult_follows hok hc hstep.2
    exact ⟨os, c', hrun, hok', hc'⟩
  | setParallelSyncProcessing enabled workerThreads maxQueueSize =>
    simp only [Option.ite_none_left_eq_some, Option.some.injEq] at hstep
    obtain ⟨hblocked, hp'⟩ := hstep
    simp only [isBlocked, Bool.or_eq_true, not_or, Bool.not_eq_true] at hblocked
    have h := setParallelSyncProcessing_follows hok hc hblocked.1 henables hp'.symm
    exact ⟨[(.setParallelSyncProcessing enabled, env)], _, rfl, h⟩
  | setParallelSyncProduction enabled workerThreads maxQueueSize sign extra =>
    simp only [Option.ite_none_left_eq_some, Option.some.injEq] at hstep
    obtain ⟨hblocked, hp'⟩ := hstep
    simp only [isBlocked, Bool.or_eq_true, not_or, Bool.not_eq_true] at hblocked
    have h := setParallelSyncProduction_follows hok hc hblocked.2 henables hp'.symm
    exact ⟨[(.setParallelSyncProduction enabled sign extra, env)], _, rfl, h⟩

/-- A core that has not used its workers yet, in the pools and in the state. -/
def Idle (c : SVSyncCore) : Prop :=
  c.parallelSyncProcessing = false ∧ c.parallelSyncProduction = false ∧ c.processing = [] ∧
    c.production = []
deriving Decidable

/-- Whatever the interleaving of the Face thread and the workers, the core that computes the results
of its jobs when they are used has a run to the same state. -/
theorem pooled_run_is_core_run {c₀ : SVSyncCore} {os : List Occurrence} (hidle : Idle c₀)
    (henables : Along (next cfg) EnablesWhenOff { core := c₀ } os)
    (hrun : run (next cfg) { core := c₀ } os = some p) :
    ∃ os' c, run (SVSyncCore.next cfg) c₀ os' = some c ∧ p.Implements c := by
  obtain ⟨hprocessingOn, hproductionOn, hprocessing, hproduction⟩ := hidle
  have hok : Ok cfg { core := c₀ } := by
    refine ⟨?_, ?_, hprocessing, hproduction, fun r hr => ?_, fun r hr => ?_⟩
    · rw [hprocessingOn]
      exact Lane.ok_empty
    · rw [hproductionOn]
      exact Lane.ok_empty
    · cases hr
    · cases hr
  have hc : Implements { core := c₀ } c₀ := by
    refine ⟨[], [], .nil, .nil, ?_⟩
    simp only [SVSyncCore.withJobs, List.nil_append]
  obtain ⟨os', c, hrun', -, hc'⟩ := next_follows.run ⟨hok, hc⟩ henables hrun
  exact ⟨os', c, hrun', hc'⟩

/-- A worker computes the result of an Interest while a local update is made, so that the Face
thread decodes the Interest again. -/
def staleResultRun : List Occurrence :=
  [(.setParallelSyncProcessing true 1 1, SVSyncCore.sampleInputs),
    (.face (.interest (SVSyncCore.carrying SVSyncCore.sampleConfig (SVSyncCore.sampleVector 2) []))
      none, SVSyncCore.sampleInputs),
    (.processingThread (.test 0), SVSyncCore.sampleInputs),
    (.face (.updateSeqNo 1 100 []) none, SVSyncCore.sampleInputs),
    (.processingThread (.finish 0), SVSyncCore.sampleInputs),
    (.processingResult, SVSyncCore.sampleInputs)]

theorem pooled_run_is_core_run_stale :
    let p := (run (next SVSyncCore.sampleConfig) { core := {} } staleResultRun).get
      (by decide +kernel)
    p.core.vv.get (Name.ofStrings ["b"]) 100 = 2 ∧
      ∃ os' c, run (SVSyncCore.next SVSyncCore.sampleConfig) {} os' = some c ∧ p.Implements c := by
  intro p
  have hrun : run (next SVSyncCore.sampleConfig) { core := {} } staleResultRun = some p :=
    (Option.some_get _).symm
  have hentry : p.core.vv.get (Name.ofStrings ["b"]) 100 = 2 := by decide +kernel
  clear_value p
  exact ⟨hentry, pooled_run_is_core_run (by decide) (by decide +kernel) hrun⟩

end PooledCore

end NdnSvs
