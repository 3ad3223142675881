import Mathlib.Data.List.Perm.Subperm
import NdnSvs.PublishMonotone
import NdnSvs.Sections

/-! Sequence numbers of concurrent publish calls.  They are distinct as long as every publication of
bytes finds the reservation of its node still below the number that it records. -/

namespace NdnSvs

open Lib Lib.Tlv

namespace SharedPublisher

variable {cfg : PubSubConfig} {c c' : SharedPublisher}

/-- A publication of bytes records a number above the reservation, and the numbers have not run
out. -/
def Unraced (cfg : PubSubConfig) (c : SharedPublisher) (o : Occurrence) : Prop :=
  match o.event with
  | .proceed index =>
    match c.calls[index]? with
    | some (.announced prepared) =>
      (c.publisher.reservedSeqNo[prepared.nodePrefix]?).getD 0 < prepared.seqNo
    | _ => True
  | .publishName _ nodePrefix _ | .publishPacket _ nodePrefix _ =>
    Publisher.HasRoom cfg c.publisher (Publisher.nodeOf cfg nodePrefix)
  | .whole (.publishBytesAsync _ _ nodePrefix _ _) | .whole (.publishNameAsync _ nodePrefix _ _)
  | .whole (.publishPacketAsync _ nodePrefix _) =>
    Publisher.HasRoom cfg c.publisher (Publisher.nodeOf cfg nodePrefix)
  | _ => True

instance (c : SharedPublisher) (o : Occurrence) : Decidable (Unraced cfg c o) := by
  unfold Unraced
  generalize o.event = event
  rcases event
  case proceed index =>
    dsimp only
    generalize c.calls[index]? = call
    rcases call with _ | call
    · infer_instance
    · rcases call <;> infer_instance
  case whole event => rcases event <;> infer_instance
  all_goals infer_instance

/-! ### The numbers that have been handed out -/

/-- The numbers that calls have returned, and those that are reserved for the calls in flight. -/
def handed (c : SharedPublisher) : List (NodeID × SeqNo) :=
  c.publisher.returned.map Publication.key ++ c.calls.filterMap InFlight.reservation

/-- The numbers that have been handed out are distinct, and reserved. -/
structure Distinct (c : SharedPublisher) : Prop where
  nodup : c.handed.Nodup
  reserved : ∀ nid s, (nid, s) ∈ c.handed → s ≤ (c.publisher.reservedSeqNo[nid]?).getD 0

theorem distinct_empty : Distinct {} := ⟨List.nodup_nil, fun _ _ h => absurd h List.not_mem_nil⟩

theorem Distinct.of_subperm (h : Distinct c) (hsub : c'.handed.Subperm c.handed)
    (hle : ∀ nid : NodeID, (c.publisher.reservedSeqNo[nid]?).getD 0 ≤
      (c'.publisher.reservedSeqNo[nid]?).getD 0) : Distinct c' := by
  obtain ⟨l, hperm, hsublist⟩ := hsub
  exact ⟨hperm.nodup_iff.mp (hsublist.nodup h.nodup), fun nid s hmem =>
    (h.reserved nid s (hsublist.subset (hperm.mem_iff.mpr hmem))).trans (hle nid)⟩

/-- A number above the reservation is new. -/
theorem Distinct.cons (h : Distinct c) {nid : NodeID} {s : SeqNo}
    (hnew : (c.publisher.reservedSeqNo[nid]?).getD 0 < s)
    (hperm : c'.handed.Perm ((nid, s) :: c.handed))
    (hreserved : (c'.publisher.reservedSeqNo[nid]?).getD 0 = s)
    (hle : ∀ nid : NodeID, (c.publisher.reservedSeqNo[nid]?).getD 0 ≤
      (c'.publisher.reservedSeqNo[nid]?).getD 0) : Distinct c' := by
  constructor
  · rw [hperm.nodup_iff, List.nodup_cons]
    exact ⟨fun hmem => absurd (h.reserved nid s hmem) (Nat.not_le_of_lt hnew), h.nodup⟩
  · intro nid' s' hmem
    rcases List.mem_cons.mp (hperm.mem_iff.mp hmem) with heq | hmem
    · obtain ⟨rfl, rfl⟩ := Prod.mk.inj heq
      exact hreserved.ge
    · exact (h.reserved nid' s' hmem).trans (hle nid')

theorem handed_enter (c : SharedPublisher) {p : Publisher} (call : InFlight)
    (hreturned : p.returned = c.publisher.returned) :
    (c.enter p call).handed.Perm (call.reservation.toList ++ c.handed) := by
  have hcalls : (c.enter p call).handed = c.handed ++ call.reservation.toList := by
    simp only [handed, enter, hreturned, List.filterMap_append, List.append_assoc]
    cases hcall : call.reservation <;> simp [hcall]
  rw [hcalls]
  exact List.perm_append_comm

theorem handed_return (c : SharedPublisher) {p : Publisher} (nid : NodeID) (s : SeqNo)
    (packets : List Data) (async : Bool) (hreturned : p.returned = c.publisher.returned) :
    (⟨p.return_ nid s packets async, c.calls⟩ : SharedPublisher).handed.Perm
      ((nid, s) :: c.handed) := by
  simp only [handed, Publisher.return_, hreturned, List.map_append, List.map_cons, List.map_nil,
    Publication.key, List.append_assoc, List.singleton_append]
  exact List.perm_middle

theorem handed_take {index : Nat} {call : InFlight} (hcall : c.calls[index]? = some call) :
    (call.reservation.toList ++
      ({ c with calls := c.calls.eraseIdx index } : SharedPublisher).handed).Perm c.handed := by
  obtain ⟨hindex, rfl⟩ := List.getElem?_eq_some_iff.mp hcall
  have hcalls := (List.getElem_cons_eraseIdx_perm hindex).filterMap InFlight.reservation
  refine List.Perm.trans ?_ (hcalls.append_left (c.publisher.returned.map Publication.key))
  cases hreservation : c.calls[index].reservation with
  | none => simp [handed, hreservation]
  | some k =>
    simp only [handed, List.filterMap_cons, hreservation, Option.toList_some, List.singleton_append]
    exact List.perm_middle.symm

/-! ### Every step keeps the numbers distinct -/

theorem Distinct.keeps (h : Distinct c) {p : Publisher} (hkeeps : Keeps c.publisher p) :
    Distinct { c with publisher := p } := by
  refine h.of_subperm (List.Perm.subperm ?_) fun nid => ?_
  · simp only [handed, hkeeps.returned]
    exact List.Perm.refl _
  · simp only [hkeeps.reserved]
    exact le_rfl

/-- A call that has no number enters its next section. -/
theorem Distinct.goesOn (h : Distinct c) {p : Publisher} (hkeeps : Keeps c.publisher p)
    (call : InFlight) (hcall : call.reservation = none) : Distinct (c.enter p call) := by
  refine h.of_subperm (List.Perm.subperm ?_) fun nid => ?_
  · have henter := handed_enter c call hkeeps.returned
    rwa [hcall] at henter
  · simp only [enter, hkeeps.reserved]
    exact le_rfl

theorem Distinct.proceed (h : Distinct c) {index : Nat} {call : InFlight}
    (hcall : c.calls[index]? = some call) (env : PublishInputs)
    (hrecord : ∀ prepared, call = .announced prepared →
      (c.publisher.reservedSeqNo[prepared.nodePrefix]?).getD 0 < prepared.seqNo) :
    Distinct (({ c with calls := c.calls.eraseIdx index } : SharedPublisher).nextSection cfg env
      call) := by
  have htake := handed_take hcall
  rcases nextSection_cases cfg env { c with calls := c.calls.eraseIdx index } call with
    ⟨p, hmakes, heq⟩ | ⟨p, call', hmakes, hsame, heq⟩ |
    ⟨p, nid, s, packets, hmakes, hreserved, heq⟩ | ⟨prepared, rfl, heq⟩
  · rw [heq]
    have htaken : Distinct { c with calls := c.calls.eraseIdx index } :=
      h.of_subperm ((List.sublist_append_right _ _).subperm.trans htake.subperm) fun _ => le_rfl
    exact htaken.keeps hmakes.toKeeps
  · rw [heq]
    refine h.of_subperm (List.Perm.subperm ?_) fun nid => ?_
    · exact (handed_enter _ call' hmakes.returned).trans (hsame ▸ htake)
    · simp only [enter, hmakes.reserved]
      exact le_rfl
  · rw [heq]
    refine h.of_subperm (List.Perm.subperm ?_) fun nid => ?_
    · rw [hreserved] at htake
      exact (handed_return _ nid s packets false hmakes.returned).trans htake
    · simp only [Publisher.return_, hmakes.reserved]
      exact le_rfl
  · rw [heq]
    refine h.cons (hrecord prepared rfl) ?_ (by simp [recordSeqNo, Publisher.return_])
      (Publisher.le_insert (hrecord prepared rfl).le)
    exact (handed_return _ prepared.nodePrefix prepared.seqNo prepared.outerPackets false rfl).trans
      (htake.cons _)

theorem Distinct.reserve (h : Distinct c) {nid : NodeID} (call : InFlight)
    (hroom : Publisher.HasRoom cfg c.publisher nid)
    (hcall : call.reservation = some (nid, (c.publisher.reserveSeqNo cfg nid).2)) :
    Distinct (c.enter (c.publisher.reserveSeqNo cfg nid).1 call) := by
  have hseq : (c.publisher.reserveSeqNo cfg nid).2 = c.publisher.lastSeqNo cfg nid + 1 :=
    Publisher.nextSeqNo_eq hroom
  have hlast := Publisher.reserved_le_last cfg c.publisher nid
  have hnew : (c.publisher.reservedSeqNo[nid]?).getD 0 < (c.publisher.reserveSeqNo cfg nid).2 := by
    lia
  refine h.cons hnew ?_ ?_ (Publisher.le_insert hnew.le)
  · have henter := handed_enter c (p := (c.publisher.reserveSeqNo cfg nid).1) call rfl
    rw [hcall] at henter
    exact henter
  · simp [enter, Publisher.reserveSeqNo]

theorem Distinct.prepareAndStage (h : Distinct c) (env : PublishInputs)
    (kind : AsyncPublication.Kind)
    (name nodePrefix : Name) (freshnessPeriod : Int) (mappingBlocks : List Block)
    (hroom : Publisher.HasRoom cfg c.publisher (Publisher.nodeOf cfg nodePrefix)) :
    Distinct { c with publisher := (c.publisher.prepareAndStageAsyncPublication cfg env kind name
      nodePrefix freshnessPeriod mappingBlocks).1 } := by
  have hlast := Publisher.reserved_le_last cfg c.publisher (Publisher.nodeOf cfg nodePrefix)
  have hnext := Publisher.nextSeqNo_eq hroom
  rcases Publisher.prepareAndStage_cases cfg env c.publisher kind name nodePrefix freshnessPeriod
    mappingBlocks with ⟨halters, -⟩ | ⟨p₁, prepared, halters, -, hresult⟩
  · rw [halters.state]
    exact h.of_subperm (List.Perm.refl _).subperm (Publisher.le_insert hlast)
  · have hnew : (c.publisher.reservedSeqNo[Publisher.nodeOf cfg nodePrefix]?).getD 0 <
        c.publisher.nextSeqNo cfg (Publisher.nodeOf cfg nodePrefix) := by
      lia
    rw [hresult, halters.state]
    refine h.cons hnew (handed_return c _ _ _ true rfl) ?_ ?_
    · simp [Publisher.return_, Publisher.stage]
    · intro nid
      refine (Publisher.le_insert hlast nid).trans (Publisher.le_insert ?_ nid)
      simp only [Map.get_insert, if_true, Option.getD_some]
      lia

theorem Distinct.whole (h : Distinct c) {event : Publisher.Event} {inputs : Nat → PublishInputs}
    {p : Publisher} (hruns : c.runsWhole event = true)
    (hok : Unraced cfg c ⟨.whole event, inputs⟩)
    (hstep : c.publisher.step cfg ⟨event, inputs⟩ = some p) :
    Distinct { c with publisher := p } := by
  cases event with
  | publishBytes => cases hruns
  | publishName => cases hruns
  | publishPacket => cases hruns
  | preparedPublication => cases hruns
  | retry => cases hruns
  | publishBytesAsync =>
    obtain rfl := Option.some.inj hstep
    exact h.prepareAndStage _ _ _ _ _ _ hok
  | publishNameAsync =>
    obtain rfl := Option.some.inj hstep
    exact h.prepareAndStage _ _ _ _ _ _ hok
  | publishPacketAsync =>
    obtain rfl := Option.some.inj hstep
    exact h.prepareAndStage _ _ _ _ _ _ hok
  | extraBlocks =>
    obtain rfl := Option.some.inj hstep
    exact h.keeps ⟨rfl, rfl⟩
  | core event =>
    obtain ⟨_, -, rfl⟩ := (Publisher.step_core rfl).mp hstep
    exact h.keeps ⟨rfl, rfl⟩

theorem Distinct.step (h : Distinct c) {o : Occurrence} (hstep : step cfg c o = some c')
    (hok : Unraced cfg c o) : Distinct c' := by
  obtain ⟨event, inputs⟩ := o
  cases event with
  | publishBytes name value nodePrefix freshnessPeriod mappingBlocks =>
    simp only [SharedPublisher.step] at hstep
    split at hstep
    · obtain rfl := Option.some.inj hstep
      exact h.goesOn ⟨rfl, rfl⟩ _ rfl
    · cases hstep
  | publishName name nodePrefix mappingBlocks =>
    obtain rfl := Option.some.inj hstep
    exact h.reserve _ hok rfl
  | publishPacket data nodePrefix mappingBlocks =>
    obtain rfl := Option.some.inj hstep
    exact h.reserve _ hok rfl
  | preparedPublication index =>
    simp only [SharedPublisher.step] at hstep
    split at hstep
    · obtain ⟨publication, -, rfl⟩ := Option.map_eq_some_iff.mp hstep
      have hkeeps : Keeps c.publisher (({ c.publisher with
          posted := c.publisher.posted.eraseIdx index } : Publisher).unstage publication) :=
        ⟨rfl, rfl⟩
      exact h.goesOn hkeeps _ rfl
    · cases hstep
  | retry index =>
    simp only [SharedPublisher.step] at hstep
    split at hstep
    · obtain ⟨⟨nid, s⟩, -, rfl⟩ := Option.map_eq_some_iff.mp hstep
      simp only [beginRetry]
      split
      · exact h.keeps ⟨rfl, rfl⟩
      · rename_i publication _
        have hkeeps : Keeps c.publisher (({ c.publisher with
            retries := c.publisher.retries.eraseIdx index } : Publisher).clearRetry nid s
              publication) := ⟨rfl, rfl⟩
        exact h.goesOn hkeeps _ rfl
    · cases hstep
  | proceed index =>
    simp only [SharedPublisher.step] at hstep
    split at hstep
    · cases hstep
    · rename_i call hcall
      obtain rfl := Option.some.inj hstep
      refine h.proceed hcall _ fun prepared heq => ?_
      subst heq
      simp only [Unraced, hcall] at hok
      exact hok
  | whole event =>
    simp only [SharedPublisher.step] at hstep
    split at hstep
    · rename_i hruns
      obtain ⟨p, hp, rfl⟩ := Option.map_eq_some_iff.mp hstep
      exact h.whole hruns hok hp
    · cases hstep

/-- In every interleaving in which each publication of bytes records a number above the reservation,
no two calls return the same number. -/
theorem unraced_numbers_distinct {es : List Occurrence} (hok : Along (step cfg) (Unraced cfg) {} es)
    (hrun : run (step cfg) {} es = some c) :
    (c.publisher.returned.map Publication.key).Nodup := by
  have h : Distinct c := run_invariant_along
    (fun c o c' hstep hok (h : Distinct c) => h.step hstep hok) distinct_empty hok hrun
  exact h.nodup.of_append_left

/-- The packet reserves its number before the bytes pick theirs, and the sections of the two calls
alternate. -/
def alternatingRun : List Occurrence :=
  [beginPacketCall, beginBytesCall] ++ List.replicate 6 (going Publisher.sampleInputs)

theorem unraced_numbers_distinct_two :
    let c := (run (step sampleConfig) {} alternatingRun).get (by decide +kernel)
    c.publisher.returned.length = 2 ∧ (c.publisher.returned.map Publication.key).Nodup :=
  ⟨by decide +kernel, @unraced_numbers_distinct sampleConfig _ _ (by decide +kernel)
    (Option.some_get _).symm⟩

/-- The packet reserves its number after the bytes have picked theirs. -/
def racingRun : List Occurrence :=
  [beginBytesCall, beginPacketCall] ++ List.replicate 6 (going Publisher.sampleInputs)

/-- The publication of bytes and the packet return the same number. -/
theorem racing_calls_return_one : ∃ c, run (step sampleConfig) {} racingRun = some c ∧
    c.publisher.returned.map Publication.key =
      [(sampleConfig.core.id, 1), (sampleConfig.core.id, 1)] ∧
    ¬(c.publisher.returned.map Publication.key).Nodup :=
  ⟨(run (step sampleConfig) {} racingRun).get (by decide +kernel), (Option.some_get _).symm,
    by decide +kernel, by decide +kernel⟩

end SharedPublisher

end NdnSvs
