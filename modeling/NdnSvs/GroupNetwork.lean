import NdnSvs.Announcement
import NdnSvs.Lib.Simulation
import NdnSvs.PubSubGroup

/-! A group of the pub/sub layer, seen from its cores, is a network of sync cores: each step of a
member is a delivery, an event of its core, or the calls of `updateSeqNo` for new numbers, and the
network admits each of them. -/

namespace NdnSvs

open Lib Lib.Gossip Lib.Tlv

namespace SVSyncCore

variable {cfg : CoreConfig} {env : CoreInputs} {c c' : SVSyncCore}

/-- What has been sent stays in the log. -/
theorem step_sent (hc : c.Snapshots) {e : Event} (hstep : c.step cfg env e = some c') :
    c.sent <+: c'.sent := by
  by_cases he : e.discards
  · cases e with
    | publicationBatch =>
      obtain ⟨-, rfl⟩ := step_publicationBatch.mp hstep
      exact (sendLocalPublicationSyncInterest_extends
        { c with publicationSyncPending := false }).sent
    | productionResult index =>
      obtain ⟨job, -, rfl⟩ := step_productionResult.mp hstep
      rcases processSyncProductionResult_cases cfg env
        { c with production := c.production.eraseIdx index } job with hsame | ⟨interest, -, hsent⟩
      · rw [hsame]
      · rw [hsent]
        exact List.prefix_append _ _
    | setSyncInterestBatching enabled =>
      obtain rfl := Option.some.inj hstep
      exact List.prefix_refl _
    | setParallelSyncProduction enabled signInWorker buildExtraBlockInWorker =>
      obtain rfl := Option.some.inj hstep
      exact List.prefix_refl _
    | _ => cases he
  · exact (step_extends hc he hstep).sent

end SVSyncCore

namespace Network

variable {ι : Type} [DecidableEq ι] {g : Group ι} {limit : BootstrapTime} {i : ι}
  {c c' : SVSyncCore} {h : History ι} {s : Gossip ι} {env : CoreInputs}

omit [DecidableEq ι] in
theorem getElem?_of_map_fst_eq {α β : Type} {l : List (α × β)} {as : List α}
    (heq : l.map Prod.fst = as) {k : Nat} {a : α} (ha : as[k]? = some a) : ∃ b, l[k]? = some (a, b) := by
  rw [← heq, List.getElem?_map, Option.map_eq_some_iff] at ha
  obtain ⟨⟨a', b⟩, hk, rfl⟩ := ha
  exact ⟨b, hk⟩

/-- The history has what a step of the core takes out of the queues. -/
theorem historyAfter_isSome (hn : NodeRefines g limit i c h s) {event : SVSyncCore.Event}
    (hbrings : event.brings = none) (hstep : c.step (g.config i) env event = some c') :
    ∃ h' past, historyAfter (g.config i) i h c c' event = some (h', past) := by
  cases event with
  | interest interest => cases hbrings
  | verdict index accepted =>
    obtain ⟨interest, hindex, -⟩ := SVSyncCore.step_verdict.mp hstep
    obtain ⟨past, hpast⟩ := getElem?_of_map_fst_eq hn.validating_eq hindex
    simp only [historyAfter, hpast]
    exact ⟨_, _, rfl⟩
  | processingResult index =>
    obtain ⟨job, hindex, -⟩ := SVSyncCore.step_processingResult.mp hstep
    obtain ⟨past, hpast⟩ := getElem?_of_map_fst_eq hn.processing_eq hindex
    simp only [historyAfter, hpast]
    exact ⟨_, _, rfl⟩
  | productionResult index =>
    obtain ⟨job, hindex, -⟩ := SVSyncCore.step_productionResult.mp hstep
    obtain ⟨past, hpast⟩ := getElem?_of_map_fst_eq hn.production_eq hindex
    simp only [historyAfter, hpast]
    exact ⟨_, _, rfl⟩
  | _ => exact ⟨_, _, rfl⟩

end Network

namespace PubSubGroup

variable {ι : Type} [DecidableEq ι]

/-- The group of the cores. -/
def cores (g : PubSubGroup ι) : Group ι where
  cxx := g.cxx
  syncPrefix := g.syncPrefix
  plain := g.plain
  node i := (g.node i).core

/-- The steps of the network that it admits. -/
abbrev networkStep (g : PubSubGroup ι) (limit : BootstrapTime) :
    Network ι → Network.Event ι × CoreInputs → Option (Network ι) :=
  admitting (Network.step g.cores) (Network.Admits g.cores limit)

/-- A network with the same cores, in which what they have sent is on its way. -/
structure Mirrors (g : PubSubGroup ι) (limit : BootstrapTime) (c : ι → SVSyncCore)
    (m : Network ι) : Prop where
  core : m.core = c
  messages : ∀ interest, (∃ message ∈ m.messages, message.interest = interest) ↔
    ∃ i, interest ∈ (c i).sent
  refines : ∃ s, Network.Refines g.cores limit m s

variable {g : PubSubGroup ι} {limit : BootstrapTime} {c : ι → SVSyncCore} {m : Network ι} {i : ι}
  {c' : SVSyncCore} {env : CoreInputs} {own : ι → List NodeID}

omit [DecidableEq ι] in
theorem mirrors_initial (g : PubSubGroup ι) (limit : BootstrapTime) :
    Mirrors g limit (fun _ => {}) {} :=
  ⟨rfl, by simp, _, Network.refines_initial g.cores limit⟩

/-- A step of one core in the network. -/
theorem Mirrors.commit (h : Mirrors g limit c m) {h' : History ι} {past : Past ι}
    (hsent : (c i).sent <+: c'.sent)
    (hrefines : ∃ s, Network.Refines g.cores limit (m.commit i c' h' past) s) :
    Mirrors g limit (Function.update c i c') (m.commit i c' h' past) := by
  obtain ⟨interests, hinterests⟩ := hsent
  refine ⟨?_, fun interest => ?_, hrefines⟩
  · rw [← h.core]
    rfl
  · have hnew : c'.sent.drop (m.core i).sent.length = interests := by
      rw [h.core, ← hinterests, List.drop_left]
    have hold := h.messages interest
    constructor
    · rintro ⟨message, hmem, rfl⟩
      rcases List.mem_append.mp hmem with hmem | hmem
      · obtain ⟨j, hj⟩ := (h.messages _).mp ⟨message, hmem, rfl⟩
        by_cases hji : j = i
        · subst hji
          refine ⟨j, ?_⟩
          rw [Function.update_self, ← hinterests]
          exact List.mem_append_left _ hj
        · refine ⟨j, ?_⟩
          rwa [Function.update_of_ne hji]
      · obtain ⟨interest, hinterest, rfl⟩ := List.mem_map.mp hmem
        rw [hnew] at hinterest
        refine ⟨i, ?_⟩
        rw [Function.update_self, ← hinterests]
        exact List.mem_append_right _ hinterest
    · rintro ⟨j, hj⟩
      have hcases : (∃ k, interest ∈ (c k).sent) ∨ interest ∈ interests := by
        by_cases hji : j = i
        · subst hji
          rw [Function.update_self, ← hinterests] at hj
          exact (List.mem_append.mp hj).imp_left fun hj => ⟨j, hj⟩
        · rw [Function.update_of_ne hji] at hj
          exact .inl ⟨j, hj⟩
      rcases hcases with hk | hnew'
      · obtain ⟨message, hmem, heq⟩ := hold.mpr hk
        exact ⟨message, List.mem_append_left _ hmem, heq⟩
      · refine ⟨⟨interest, past⟩, List.mem_append_right _ (List.mem_map.mpr ⟨interest, ?_, rfl⟩),
          rfl⟩
        rw [hnew]
        exact hnew'

/-- An event of a core. -/
theorem Mirrors.event (h : Mirrors g limit c m) {event : SVSyncCore.Event}
    (hbrings : event.brings = none) (hok : Network.Admits g.cores limit m (.run i event, env))
    (hstep : (c i).step (g.config i).core env event = some c') :
    ∃ m', networkStep g limit m (.run i event, env) = some m' ∧
      Mirrors g limit (Function.update c i c') m' := by
  obtain ⟨s, hs⟩ := h.refines
  have hnode := hs.node i
  rw [h.core] at hnode
  obtain ⟨h', past, hafter⟩ := Network.historyAfter_isSome hnode hbrings hstep
  have hnetwork : Network.step g.cores m (.run i event, env) = some (m.commit i c' h' past) := by
    have hcore : (m.core i).step (g.cores.config i) env event = some c' := by
      rw [h.core]
      exact hstep
    have hhistory : Network.historyAfter (g.cores.config i) i (m.history i) (m.core i) c' event =
        some (h', past) := by
      rw [h.core]
      exact hafter
    simp only [Network.step, hcore, hhistory]
  obtain ⟨s', -, hs'⟩ := Network.step_refines hs hok hnetwork
  exact ⟨_, admitting_eq_some.mpr ⟨hok, hnetwork⟩,
    h.commit (SVSyncCore.step_sent hnode.snapshot hstep) ⟨s', hs'⟩⟩

/-- An Interest of a member reaches a core. -/
theorem Mirrors.deliver (h : Mirrors g limit c m) {j : ι} {interest : Interest} {face : Option Nat}
    (hsent : interest ∈ (c j).sent) (hclock : limit ≤ env.clock + 86400)
    (hstep : (c i).step (g.config i).core env
      (.interest { interest with incomingFaceId := face }) = some c') :
    ∃ k m', networkStep g limit m (.deliver i k face, env) = some m' ∧
      Mirrors g limit (Function.update c i c') m' := by
  obtain ⟨message, hmem, rfl⟩ := (h.messages interest).mpr ⟨j, hsent⟩
  obtain ⟨k, hk⟩ := List.mem_iff_getElem?.mp hmem
  obtain ⟨s, hs⟩ := h.refines
  have hnode := hs.node i
  rw [h.core] at hnode
  have hgrows := SVSyncCore.step_sent hnode.snapshot hstep
  obtain rfl := Option.some.inj hstep
  have hok : Network.Admits g.cores limit m (.deliver i k face, env) := hclock
  have hnetwork : ∃ h' past, Network.step g.cores m (.deliver i k face, env) =
      some (m.commit i ((c i).onSyncInterest (g.config i).core env
        { message.interest with incomingFaceId := face }).1 h' past) := by
    rw [← h.core]
    exact ⟨_, _, by simp only [Network.step, hk]; rfl⟩
  obtain ⟨h', past, hnetwork⟩ := hnetwork
  obtain ⟨s', -, hs'⟩ := Network.step_refines hs hok hnetwork
  exact ⟨k, _, admitting_eq_some.mpr ⟨hok, hnetwork⟩, h.commit hgrows ⟨s', hs'⟩⟩

/-- The announcements of a member. -/
theorem Mirrors.speaks (h : Mirrors g limit c m)
    (hlimit : ∀ i, (g.config i).core.bootstrapTime ≤ limit)
    (hspeaks : Publisher.Speaks (g.config i) (own i) (c i) c') :
    ∃ ds m', run (networkStep g limit) m ds = some m' ∧
      Mirrors g limit (Function.update c i c') m' := by
  induction hspeaks with
  | refl =>
    refine ⟨[], m, rfl, ?_⟩
    rwa [Function.update_eq_self]
  | tail _ hlast ih =>
    obtain ⟨ds, m₁, hrun, h₁⟩ := ih
    obtain ⟨nid, -, seq, env, hnode, hlt, hseq, rfl⟩ := hlast
    rename_i c₁ _
    have hself : (Function.update c i c₁) i = c₁ := Function.update_self ..
    have hok : Network.Admits g.cores limit m₁
        (.run i (.updateSeqNo seq (g.config i).core.bootstrapTime nid), env) := by
      refine .inr ⟨?_, hseq, g.bootstrapTime_lt i, hlimit i⟩
      rw [h₁.core, hself]
      refine le_trans (le_of_eq ?_) hlt.le
      exact congrArg (fun n => c₁.vv.get n _) hnode
    have hstep : ((Function.update c i c₁) i).step (g.config i).core env
        (.updateSeqNo seq (g.config i).core.bootstrapTime nid) =
        some (Publisher.updated (g.config i) env c₁ nid seq) := by
      rw [hself]
      rfl
    obtain ⟨m₂, hm₂, h₂⟩ := h₁.event rfl hok hstep
    rw [Function.update_idem] at h₂
    refine ⟨ds ++ [(.run i (.updateSeqNo seq (g.config i).core.bootstrapTime nid), env)], m₂,
      ?_, h₂⟩
    rw [run_append, hrun, Option.bind_some, run_cons, hm₂, Option.bind_some, run_nil]

/-! ### Steps and runs of the group -/

/-- The clocks of the receivers are at most a day behind every bootstrap time. -/
def Timely (limit : BootstrapTime) : Event ι → Prop
  | .deliver _ _ _ _ inputs => limit ≤ (inputs 0).core.clock + 86400
  | .run _ o =>
    match o.event with
    | .core (.verdict _ _) | .core (.processingResult _) =>
      limit ≤ (o.inputs 0).core.clock + 86400
    | _ => True

instance (limit : BootstrapTime) (e : Event ι) : Decidable (Timely limit e) := by
  induction e using Event.casesOn with
  | deliver => exact Nat.decLe _ _
  | run node o =>
    induction o using Publisher.Occurrence.casesOn with
    | mk event inputs =>
      induction event using Publisher.Event.casesOn with
      | core event =>
        induction event using SVSyncCore.Event.casesOn with
        | verdict | processingResult => exact Nat.decLe _ _
        | _ => exact isTrue trivial
      | _ => exact isTrue trivial

/-- What the steps of a run have to meet. -/
def Meets (g : PubSubGroup ι) (limit : BootstrapTime) (own : ι → List NodeID) (n : ι → Publisher)
    (e : Event ι) : Prop :=
  Admits g n e ∧ Timely limit e ∧ ∀ i o name, e = .run i o → o.event.nodePrefix? = some name →
    Publisher.nodeOf (g.config i) name ∈ own i

variable {n n' : ι → Publisher}

/-- A step of the group is a number of steps of the network. -/
theorem step_follows (hapart : Apart g own)
    (hown : ∀ i, ∀ nid ∈ own i, SVSyncCore.targetNode (g.config i).core nid = nid)
    (hlimit : ∀ i, (g.config i).core.bootstrapTime ≤ limit) :
    Follows (step g) (networkStep g limit) (Meets g limit own)
      fun n m => Agrees g own n ∧ Mirrors g limit (fun i => (n i).core) m := by
  rintro n e n' m hstep ⟨hok, htimely, hunder⟩ ⟨h, hm⟩
  have hagrees := h.step hapart hown hstep hok hunder
  simp only [step] at hstep
  split at hstep
  · cases hstep
  · rename_i i o hoccurrence
    split at hstep
    · cases hstep
    · rename_i p' hp'
      obtain rfl := Option.some.inj hstep
      have hcores : (fun j => (Function.update n i p' j).core) =
          Function.update (fun j => (n j).core) i p'.core :=
        funext fun j => Function.apply_update (fun _ (p : Publisher) => p.core) n i p' j
      beta_reduce
      rw [hcores]
      cases e with
      | deliver receiver sender index face inputs =>
        simp only [occurrence] at hoccurrence
        split at hoccurrence
        · cases hoccurrence
        · rename_i interest hindex
          obtain ⟨rfl, rfl⟩ := Prod.mk.inj (Option.some.inj hoccurrence)
          obtain ⟨core, hcore, rfl⟩ := (Publisher.step_core rfl).mp hp'
          obtain ⟨k, m', hm', hmirrors⟩ :=
            hm.deliver (List.mem_of_getElem? hindex) htimely hcore
          exact ⟨[(.deliver receiver k face, (inputs 0).core)], m',
            by rw [run_cons, hm', Option.bind_some, run_nil], hagrees, hmirrors⟩
      | run node o' =>
        simp only [occurrence] at hoccurrence
        split at hoccurrence
        · cases hoccurrence
        · rename_i hnone
          obtain ⟨rfl, rfl⟩ := Prod.mk.inj (Option.some.inj hoccurrence)
          by_cases hevent : ∃ event, o'.event = .core event
          · obtain ⟨event, hevent⟩ := hevent
            obtain ⟨core, hcore, rfl⟩ := (Publisher.step_core hevent).mp hp'
            have hbrings : event.brings = none := by
              rw [hevent] at hnone
              simpa [Publisher.Event.brings] using hnone
            have hassigns := hok.1
            rw [hevent] at hassigns
            have hadmits : Network.Admits g.cores limit m
                (.run node event, (o'.inputs 0).core) := by
              simp only [Timely, hevent] at htimely
              cases event with
              | verdict index accepted => exact htimely
              | processingResult index => exact htimely
              | updateSeqNo seq b nid => cases hassigns
              | _ => trivial
            obtain ⟨m', hm', hmirrors⟩ := hm.event hbrings hadmits hcore
            exact ⟨[(.run node event, (o'.inputs 0).core)], m',
              by rw [run_cons, hm', Option.bind_some, run_nil], hagrees, hmirrors⟩
          · have hmeets : Publisher.Meets (g.config node) (own node) (n node) o' := by
              refine ⟨?_, hok.2, fun name => hunder node o' name rfl⟩
              unfold Publisher.Modest
              split
              · rename_i he
                exact absurd ⟨_, he⟩ hevent
              · rename_i he
                exact absurd ⟨_, he⟩ hevent
              · trivial
            have hspeaks := (h.covered node).step_speaks (hown node) hmeets hp'
              fun event he => hevent ⟨event, he⟩
            obtain ⟨ds, m', hrun, hmirrors⟩ :=
              @Mirrors.speaks _ _ _ _ _ _ _ _ own hm hlimit hspeaks
            exact ⟨ds, m', hrun, hagrees, hmirrors⟩

/-- Every run of the group is, as far as its cores and their Interests are concerned, a run of the
network of sync cores whose updates lower no entry. -/
theorem group_run_is_network_run {es : List (Event ι)}
    (hapart : Apart g fun i => publishedUnder g i es)
    (hlimit : ∀ i, (g.config i).core.bootstrapTime ≤ limit)
    (hok : Along (step g) (Admits g) (fun _ => {}) es)
    (htimely : ∀ e ∈ es, Timely limit e) (hrun : run (step g) (fun _ => {}) es = some n) :
    ∃ ds m, Along (Network.step g.cores) (Network.Admits g.cores limit) {} ds ∧
      run (Network.step g.cores) {} ds = some m ∧ (∀ i, m.core i = (n i).core) ∧
      ∀ interest, (∃ message ∈ m.messages, message.interest = interest) ↔
        ∃ i, interest ∈ (n i).core.sent := by
  have hmeets : Along (step g) (Meets g limit fun i => publishedUnder g i es) (fun _ => {}) es := by
    have hrest : Along (step g) (fun _ e => Timely limit e ∧ ∀ i o name, e = .run i o →
        o.event.nodePrefix? = some name →
          Publisher.nodeOf (g.config i) name ∈ publishedUnder g i es) (fun _ => {}) es :=
      along_of_forall
        (fun e he _ => ⟨htimely e he, fun i o name heq => mem_publishedUnder (heq ▸ he)⟩) _
    exact (hok.and hrest).mono fun n e h => ⟨h.1, h.2.1, h.2.2⟩
  obtain ⟨ds, m, hrun', -, hmirrors⟩ := (step_follows hapart (targetNode_publishedUnder g es)
    hlimit).run ⟨agrees_initial g _, mirrors_initial g limit⟩ hmeets hrun
  obtain ⟨halong, hnetwork⟩ := run_admitting.mp hrun'
  exact ⟨ds, m, halong, hnetwork, fun i => by rw [hmirrors.core], hmirrors.messages⟩

theorem group_run_is_network_run_two_members :
    let n := (run (step exampleGroup) (fun _ => {}) exampleEvents).get exampleEvents_run
    ∃ m : Network Bool, (m.core false).vv.get (Name.ofStrings ["a"]) 100 = 2 ∧
      ∀ i, m.core i = (n i).core := by
  let n := (run (step exampleGroup) (fun _ => {}) exampleEvents).get exampleEvents_run
  have hrun : run (step exampleGroup) (fun _ => {}) exampleEvents = some n :=
    (Option.some_get _).symm
  have hget : (n false).core.vv.get (Name.ofStrings ["a"]) 100 = 2 := by decide +kernel
  have hlimit : ∀ i, (exampleGroup.config i).core.bootstrapTime ≤ 100 := fun _ => le_rfl
  obtain ⟨ds, m, -, -, hcore, -⟩ := group_run_is_network_run exampleGroup_apart hlimit
    (by decide +kernel) (by decide +kernel) hrun
  exact ⟨m, by rw [hcore]; exact hget, hcore⟩

end PubSubGroup

end NdnSvs
