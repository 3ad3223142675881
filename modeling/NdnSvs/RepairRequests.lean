import NdnSvs.SubscribeCalls

/-! The repair requests of the subscribing side.  Publications that could not be fetched are asked
for in the next Sync Interests; a request that no receiver accepts makes the production of the
extension blocks fail. -/

namespace NdnSvs

open Lib Lib.Tlv Std

/-! ### Production from requests that can be read -/

namespace ExtraData

/-- What is selected from a queue fits the limit together. -/
theorem selectNewestFirst_wires_le {α : Type} {wire : α → Block} {limit : Nat}
    (queue : List (QueueEntry α)) (size : Nat) : selectNewestFirst wire limit queue size = [] ∨
      size + (wires ((selectNewestFirst wire limit queue size).map wire)).length ≤ limit := by
  induction queue generalizing size with
  | nil => exact .inl rfl
  | cons entry older ih =>
    rw [selectNewestFirst]
    split
    · exact ih size
    · rename_i hfits
      right
      simp only [List.map_cons, wires, List.flatMap_cons, List.length_append]
      have hsize : (wire entry.item).size = (wire entry.item).wire.length := rfl
      rcases ih (size + (wire entry.item).size) with hnone | hle
      · rw [hnone]
        simp only [List.map_nil, List.flatMap_nil, List.length_nil]
        omega
      · simp only [wires] at hle
        omega

variable {cxx : NdnCxx} {opts : ExtraDataOptions} {e : ExtraData}

/-- Production succeeds when every request in the queue can be read, and a receiver reads the
requests that are sent. -/
theorem onGetExtraBlocks_accepted (hlimit : opts.maxApplicationParameters < 2 ^ 64)
    (hrepairs : ∀ entry ∈ e.repairRequestQueue, entry.item.Repairable) :
    ∃ blocks, (onGetExtraBlocks cxx opts e).1 = .ok blocks ∧
      ∀ b ∈ blocks, b.type = tlv.repairData → ∃ requests, decodeRepairRequests b = .ok requests ∧
        ∀ info ∈ requests, 1 ≤ info.low ∧ info.low ≤ info.high := by
  have hselected : ∀ info ∈ selectedRepairs cxx opts e, info.Repairable := by
    intro info hinfo
    obtain ⟨entry, hentry, rfl⟩ := mem_of_selected hinfo
    exact hrepairs entry hentry
  have hwire : ∀ info ∈ selectedRepairs cxx opts e, (repairWire info).Fits := by
    intro info hinfo
    have hsize : (repairWire info).wire.length ≤ opts.maxApplicationParameters :=
      selectNewestFirst_size_le hinfo
    have hlength := (repairWire info).length_le_wire
    rw [Block.Fits]
    omega
  have hblocks := onGetExtraBlocks_ok fun info hinfo => ⟨hselected info hinfo, hwire info hinfo⟩
  refine ⟨_, hblocks, fun b hb htype => ?_⟩
  rcases List.mem_cons.mp hb with rfl | hb
  · cases htype
  · split at hb
    · cases hb
    · rename_i hsome
      obtain rfl := List.mem_singleton.mp hb
      have hfits : (encodeRepairRequests
          ((selectedRepairs cxx opts e).map MissingDataInfo.received)).Fits := by
        have hlength := repairs_length_le (selectedRepairs cxx opts e)
        rcases @selectNewestFirst_wires_le _ repairWire opts.maxApplicationParameters
          e.repairRequestQueue.reverse (packedData cxx opts e).size with hnone | hle
        · exact absurd hnone hsome
        · rw [selectedRepairs, selectQueue] at hlength ⊢
          rw [Block.Fits]
          omega
      have hreceived : ∀ info ∈ (selectedRepairs cxx opts e).map MissingDataInfo.received,
          info.Repairable := by
        intro received hreceived
        obtain ⟨info, hinfo, rfl⟩ := List.mem_map.mp hreceived
        obtain ⟨hb, hpos, hle, hlt⟩ := hselected info hinfo
        exact ⟨hb, hpos, hle, hlt⟩
      refine ⟨_, decodeRepairRequests_encode hreceived hfits, fun info hinfo => ?_⟩
      obtain ⟨request, hrequest, rfl⟩ := List.mem_map.mp hinfo
      exact ⟨(hreceived request hrequest).low_pos, (hreceived request hrequest).low_le⟩

end ExtraData

namespace Subscriber

/-! ### The invariant -/

/-- The publications that wait have 64-bit numbers, and the repair requests can be read. -/
structure Repairing (s : Subscriber) : Prop where
  waiting : ∀ key ∈ s.fetchMap, key.Fits
  repairs : ∀ entry ∈ s.extra.repairRequestQueue, entry.item.Repairable

/-- The call is not the failure of a fetch of number 0 of a publication that waits and whose tries
are not used up. -/
def RepairsNumbered (cfg : SubscriberConfig) (env : SubscribeInputs) (s : Subscriber) :
    Call → Prop
  | .markPublicationFetchFailed key => key.seqNo = 0 → key ∈ s.fetchMap →
      ∀ state ∈ s.publicationFetchStates[key]?, PublicationFetchState.isExhausted cfg env state
  | _ => True

instance (cfg : SubscriberConfig) (env : SubscribeInputs) (s : Subscriber) (call : Call) :
    Decidable (RepairsNumbered cfg env s call) := by
  apply Call.casesOn (motive := fun call => Decidable (RepairsNumbered cfg env s call)) call
  all_goals
    intros
    unfold RepairsNumbered
    infer_instance

section Repairing

variable {cfg : SubscriberConfig} {env : SubscribeInputs} {s t : Subscriber}

theorem repairing_act {call : Call} (hqueued : ∀ key, call.Queued key → key.Fits)
    (hnumbered : RepairsNumbered cfg env s call) (h : Repairing s) :
    Repairing (act cfg env call s).2 := by
  by_cases hmapping : call.IsMapping
  · obtain ⟨_, _, _, _, heq⟩ := mapping_act cfg env s hmapping
    rw [heq]
    exact ⟨h.waiting, h.repairs⟩
  · have hdelivers := @delivers_act cfg env _ s call hmapping (spares_true call) (among_true s)
    refine ⟨fun key hkey => (hdelivers.waiting key hkey).elim (hqueued key) (h.waiting key),
      fun entry hentry => ?_⟩
    rcases hdelivers.repairs entry hentry with hold | ⟨key, hfails, heq⟩
    · exact h.repairs entry hold
    · cases call with
      | markPublicationFetchFailed failed =>
        -- a failed fetch asks for a repair only when it is tried again
        obtain ⟨rfl, hmem, state, hstate, hretried⟩ := hfails
        have hkey := h.waiting key hmem
        have hpos : key.seqNo ≠ 0 := fun hzero => hretried (hnumbered hzero hmem state hstate)
        rw [heq]
        exact ⟨hkey.bootstrapTime, Nat.one_le_iff_ne_zero.mpr hpos, Nat.le_refl _, hkey.seqNo⟩
      | _ => exact hfails.elim

/-- Before its handler runs, an event puts no publication in line and asks for no repair. -/
theorem repairing_beginStep {begun : Subscriber} {e : SubscriberEvent × SubscribeInputs}
    {handler : Handler Unit} (hbegin : beginStep cfg s e = some (begun, handler))
    (h : Repairing s) : Repairing begun := by
  rcases beginStep_cases hbegin with hsubscribes | ⟨_, _, _, _, _, _, _, rfl, -, hqueues, -⟩
  · cases hsubscribes with
    | _ => exact ⟨h.waiting, h.repairs⟩
  · refine ⟨h.waiting, fun entry hentry => ?_⟩
    obtain ⟨old, hold, heq⟩ := List.mem_map.mp (hqueues.repairs.subset (List.mem_map_of_mem hentry))
    exact heq ▸ h.repairs old hold

end Repairing

variable {cfg : SubscriberConfig}

theorem repairing_step {s s' : Subscriber} {e : SubscriberEvent × SubscribeInputs}
    (hfits : e.1.Fits) (hok : CallsAlong cfg (RepairsNumbered cfg e.2) s e) (h : Repairing s)
    (hstep : step cfg s e = some s') : Repairing s' := by
  obtain ⟨-, begun, handler, hbegin, hexec⟩ := step_eq_some hstep
  have hmakes : Program.Makes (fun call => ∀ key, call.Queued key → key.Fits) handler := by
    refine makes_beginStep (fun call hcall _ _ key hkey => absurd hkey.queues hcall) ?_ cfg
      (fun _ call hcall key hkey => absurd hkey.queues hcall.not_queues)
      (fun _ call hcall key hkey => absurd hkey.queues hcall.not_queues)
      (fun info hinfo => ?_) hbegin
    · rintro key hkey _ rfl
      exact hkey
    · intro stream hstream
      unfold SubscriberEvent.Fits at hfits
      rw [hinfo] at hfits
      obtain ⟨hbootstrap, hhigh⟩ := hfits stream hstream
      constructor
      · rintro seq hseq _ rfl
        exact ⟨hbootstrap, Nat.lt_of_le_of_lt hseq hhigh⟩
      · rintro sub - seq hseq _ rfl
        exact ⟨hbootstrap, Nat.lt_of_le_of_lt hseq hhigh⟩
  have hqueued : handler.Along (act cfg e.2) (fun _ call => ∀ key, call.Queued key → key.Fits)
      begun := hmakes.along (fun _ _ hcall => hcall) begun
  have hkeep : ∀ s call, (∀ key, call.Queued key → key.Fits) ∧ RepairsNumbered cfg e.2 s call →
      Repairing s → Repairing (act cfg e.2 call s).2 :=
    fun s call hcall hs => repairing_act hcall.1 hcall.2 hs
  exact Program.exec_invariant hkeep (repairing_beginStep hbegin h)
    (hqueued.and (callsAlong_begun hok hbegin)) hexec

/-- Production succeeds in every state of a run in which no fetch of number 0 fails that is to be
tried again, and receivers accept the repair requests. -/
theorem production_succeeds (hlimit : cfg.pubSub.extraData.maxApplicationParameters < 2 ^ 64)
    {es : List (SubscriberEvent × SubscribeInputs)} (hfits : ∀ e ∈ es, e.1.Fits)
    (hok : Along (step cfg) (fun s e => CallsAlong cfg (RepairsNumbered cfg e.2) s e) (initial cfg)
      es)
    {s : Subscriber} (hrun : run (step cfg) (initial cfg) es = some s) :
    ∃ blocks, (s.extra.onGetExtraBlocks cfg.pubSub.core.cxx cfg.pubSub.extraData).1 = .ok blocks ∧
      ∀ b ∈ blocks, b.type = tlv.repairData → ∃ requests, decodeRepairRequests b = .ok requests ∧
        ∀ info ∈ requests, 1 ≤ info.low ∧ info.low ≤ info.high := by
  have hinitial : Repairing (initial cfg) :=
    ⟨fun key hkey => absurd hkey ExtTreeMap.not_mem_empty, fun entry hentry => nomatch hentry⟩
  have halong := (@along_of_forall _ _ (step cfg) _ es (fun e he _ => hfits e he) (initial cfg)).and
    hok
  have hrepairing := run_invariant_along (fun s e s' hstep h hs => repairing_step h.1 h.2 hs hstep)
    hinitial halong hrun
  exact ExtraData.onGetExtraBlocks_accepted hlimit hrepairing.repairs

/-- A subscription, a peer's mapping of a publication with the number, and a Nack for its fetch. -/
def nackedFetch (seqNo : SeqNo) : List (SubscriberEvent × SubscribeInputs) :=
  let env : SubscribeInputs := { steadyNow := 1000000000 }
  [(.subscribe (.ofStrings ["x"]) false, env),
    (.extraBlocks [({ nodeId := .ofStrings ["a"], pairs :=
      [{ bootstrapTime := 100, seqNo, mapping := { name := .ofStrings ["x"] } }] } :
        MappingList).encode], env),
    (.dataFetcher (.nack 0), env)]

theorem production_succeeds_nacked :
    let s := (run (step sampleSubscriber) (initial sampleSubscriber) (nackedFetch 1)).get
      (by decide +kernel)
    s.extra.repairRequestQueue.length = 1 ∧
      ∃ blocks, (s.extra.onGetExtraBlocks packetFormat {}).1 = .ok blocks := by
  refine ⟨by decide +kernel, ?_⟩
  have hfits : ∀ e ∈ nackedFetch 1, e.1.Fits := by
    intro e he
    simp only [nackedFetch, List.mem_cons, List.not_mem_nil, or_false] at he
    rcases he with rfl | rfl | rfl <;> trivial
  obtain ⟨blocks, hblocks, -⟩ := @production_succeeds sampleSubscriber (by decide) (nackedFetch 1)
    hfits (by decide +kernel) _ (Option.some_get _).symm
  exact ⟨blocks, hblocks⟩

/-- After a Nack for a publication with the number 0 no extension blocks can be produced. -/
theorem production_fails_for_zero :
    let s := (run (step sampleSubscriber) (initial sampleSubscriber) (nackedFetch 0)).get
      (by decide +kernel)
    run (step sampleSubscriber) (initial sampleSubscriber) (nackedFetch 0) = some s ∧
      (s.extra.onGetExtraBlocks packetFormat {}).1.toOption = none :=
  ⟨(Option.some_get _).symm, by decide +kernel⟩

end Subscriber

end NdnSvs
