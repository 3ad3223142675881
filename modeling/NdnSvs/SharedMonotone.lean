import NdnSvs.PublishMonotone
import NdnSvs.Sections

/-! Monotonicity of the state vector over the interleaved sections of publish calls and commits.  A
merge raises entries, and so does a call that announces its number in time.  Only the announcement
of a number that has been overtaken, or a direct assignment, lowers one. -/

namespace NdnSvs

open Lib Lib.Tlv SVSyncCore

namespace SharedPublisher

variable {cfg : PubSubConfig} {c c' : SharedPublisher} {o : Occurrence}

/-! ### The condition on the events -/

/-- The entry that an event sets, with the number it sets it to. -/
def assignment (cfg : PubSubConfig) (c : SharedPublisher) (o : Occurrence) :
    Option (NodeID × BootstrapTime × SeqNo) :=
  match o.event with
  | .proceed index => c.calls[index]?.bind (InFlight.assignment cfg)
  | .whole (.core (.updateSeqNo seq b nid)) => some (nid, b, seq)
  | _ => none

/-- An assignment throws, or finds its entry at or below the number. -/
def Current (cfg : PubSubConfig) (c : SharedPublisher) (o : Occurrence) : Prop :=
  ∀ a ∈ assignment cfg c o,
    a.2.2 = 0 ∨ c.publisher.core.vv.get (targetNode cfg.core a.1) a.2.1 ≤ a.2.2

instance (c : SharedPublisher) (o : Occurrence) : Decidable (Current cfg c o) := by
  unfold Current
  infer_instance

/-- The step lowers no entry of the state vector. -/
def Rising (cfg : PubSubConfig) (c : SharedPublisher) (o : Occurrence) : Prop :=
  ∀ c', step cfg c o = some c' → Publisher.Rises c.publisher c'.publisher

/-! ### What a step does to the core -/

variable (cfg) in
theorem nextSection_core (env : PublishInputs) (c : SharedPublisher) (call : InFlight) :
    (c.nextSection cfg env call).publisher.core =
      match call.assignment cfg with
      | none => c.publisher.core
      | some (nid, b, seq) => (c.publisher.core.updateSeqNo cfg.core env.core seq b nid).1 := by
  rcases nextSection_cases cfg env c call with ⟨p, hmakes, heq⟩ | ⟨p, call', hmakes, -, heq⟩ |
    ⟨p, nid, s, packets, hmakes, -, heq⟩ | ⟨prepared, rfl, heq⟩
  · rw [heq]
    exact hmakes.core
  · rw [heq]
    exact hmakes.core
  · rw [heq]
    exact hmakes.core
  · rw [heq]
    rfl

variable (cfg) in
theorem prepareAndStage_core (env : PublishInputs) (p : Publisher) (kind : AsyncPublication.Kind)
    (name nodePrefix : Name) (freshnessPeriod : Int) (mappingBlocks : List Block) :
    (p.prepareAndStageAsyncPublication cfg env kind name nodePrefix freshnessPeriod
      mappingBlocks).1.core = p.core := by
  rcases Publisher.prepareAndStage_cases cfg env p kind name nodePrefix freshnessPeriod
    mappingBlocks with ⟨halters, -⟩ | ⟨p₁, prepared, halters, -, hresult⟩
  · exact halters.core
  · rw [hresult]
    exact halters.core

/-- The core after an event that sets an entry, leaves the core as it is, or is another event of
the core. -/
def CoreFollows (cfg : PubSubConfig) (c : SharedPublisher) (o : Occurrence) (core : SVSyncCore) :
    Prop :=
  (∃ a ∈ assignment cfg c o,
    core = (c.publisher.core.updateSeqNo cfg.core (o.inputs 0).core a.2.2 a.2.1 a.1).1) ∨
  (assignment cfg c o = none ∧ (core = c.publisher.core ∨
    ∃ e, (∀ seq b nid, e ≠ .updateSeqNo seq b nid) ∧
      c.publisher.core.step cfg.core (o.inputs 0).core e = some core))

theorem whole_core {event : Publisher.Event} {inputs : Nat → PublishInputs} {p : Publisher}
    (hruns : c.runsWhole event = true) (hstep : c.publisher.step cfg ⟨event, inputs⟩ = some p) :
    CoreFollows cfg c ⟨.whole event, inputs⟩ p.core := by
  cases event with
  | publishBytes => cases hruns
  | publishName => cases hruns
  | publishPacket => cases hruns
  | preparedPublication => cases hruns
  | retry => cases hruns
  | publishBytesAsync =>
    obtain rfl := Option.some.inj hstep
    exact .inr ⟨rfl, .inl (prepareAndStage_core ..)⟩
  | publishNameAsync =>
    obtain rfl := Option.some.inj hstep
    exact .inr ⟨rfl, .inl (prepareAndStage_core ..)⟩
  | publishPacketAsync =>
    obtain rfl := Option.some.inj hstep
    exact .inr ⟨rfl, .inl (prepareAndStage_core ..)⟩
  | extraBlocks =>
    obtain rfl := Option.some.inj hstep
    exact .inr ⟨rfl, .inl rfl⟩
  | core event =>
    obtain ⟨core, hcore, rfl⟩ := (Publisher.step_core rfl).mp hstep
    by_cases hassign : ∃ seq b nid, event = .updateSeqNo seq b nid
    · obtain ⟨seq, b, nid, rfl⟩ := hassign
      exact .inl ⟨(nid, b, seq), rfl, (Option.some.inj hcore).symm⟩
    · have hother : ∀ seq b nid, event ≠ .updateSeqNo seq b nid :=
        fun seq b nid he => hassign ⟨seq, b, nid, he⟩
      refine .inr ⟨?_, .inr ⟨event, hother, hcore⟩⟩
      cases event with
      | updateSeqNo seq b nid => exact absurd rfl (hother seq b nid)
      | _ => rfl

theorem step_core (hstep : step cfg c o = some c') :
    CoreFollows cfg c o c'.publisher.core := by
  obtain ⟨event, inputs⟩ := o
  cases event with
  | publishBytes name value nodePrefix freshnessPeriod mappingBlocks =>
    simp only [step] at hstep
    split at hstep
    · obtain rfl := Option.some.inj hstep
      exact .inr ⟨rfl, .inl rfl⟩
    · cases hstep
  | publishName name nodePrefix mappingBlocks =>
    obtain rfl := Option.some.inj hstep
    exact .inr ⟨rfl, .inl rfl⟩
  | publishPacket data nodePrefix mappingBlocks =>
    obtain rfl := Option.some.inj hstep
    exact .inr ⟨rfl, .inl rfl⟩
  | preparedPublication index =>
    simp only [step] at hstep
    split at hstep
    · obtain ⟨publication, -, rfl⟩ := Option.map_eq_some_iff.mp hstep
      exact .inr ⟨rfl, .inl rfl⟩
    · cases hstep
  | retry index =>
    simp only [step] at hstep
    split at hstep
    · obtain ⟨⟨nid, s⟩, -, rfl⟩ := Option.map_eq_some_iff.mp hstep
      refine .inr ⟨rfl, .inl ?_⟩
      simp only [beginRetry]
      split <;> rfl
    · cases hstep
  | proceed index =>
    simp only [step] at hstep
    split at hstep
    · cases hstep
    · rename_i call hcall
      obtain rfl := Option.some.inj hstep
      have hassigns : assignment cfg c ⟨.proceed index, inputs⟩ = call.assignment cfg := by
        simp only [assignment, hcall, Option.bind_some]
      rw [nextSection_core, CoreFollows, hassigns]
      cases call.assignment cfg with
      | none => exact .inr ⟨rfl, .inl rfl⟩
      | some a => exact .inl ⟨a, rfl, rfl⟩
  | whole event =>
    simp only [step] at hstep
    split at hstep
    · rename_i hruns
      obtain ⟨p, hp, rfl⟩ := Option.map_eq_some_iff.mp hstep
      exact whole_core hruns hp
    · cases hstep

/-! ### Runs -/

/-- An event that sets an entry can always happen. -/
theorem current_of_disabled (hstep : step cfg c o = none) : Current cfg c o := by
  intro a ha
  obtain ⟨event, inputs⟩ := o
  exfalso
  cases event with
  | proceed index =>
    obtain ⟨call, hcall, -⟩ := Option.bind_eq_some_iff.mp ha
    simp [step, hcall] at hstep
  | whole event =>
    cases event with
    | core event =>
      cases event with
      | updateSeqNo seq b nid =>
        simp [step, runsWhole, needsFace, Publisher.step, SVSyncCore.step] at hstep
      | _ => cases ha
    | _ => cases ha
  | _ => cases ha

theorem rising_iff_current (hc : c.publisher.core.Snapshots) :
    Rising cfg c o ↔ Current cfg c o := by
  cases hstep : step cfg c o with
  | none =>
    refine iff_of_true (fun c' hc' => ?_) (current_of_disabled hstep)
    rw [hstep] at hc'
    cases hc'
  | some c' =>
    have hrising : Rising cfg c o ↔ Publisher.Rises c.publisher c'.publisher := by
      simp only [Rising, hstep, Option.some.injEq, forall_eq']
    rw [hrising]
    rcases step_core hstep with ⟨a, ha, hcore⟩ | ⟨hnone, hsame | ⟨e, he, hcore⟩⟩
    · unfold Publisher.Rises Current
      rw [hcore, updateSeqNo_le_iff]
      simp only [Option.mem_def.mp ha, Option.mem_some_iff, forall_eq']
    · have hrises : Publisher.Rises c.publisher c'.publisher := by
        unfold Publisher.Rises
        rw [hsame]
        exact fun _ _ => le_rfl
      refine iff_of_true hrises fun a ha => ?_
      rw [hnone] at ha
      cases ha
    -- a worker's result replaces the vector, which was the current one when its job was made
    · obtain ⟨other, htakes⟩ := step_takes hc hcore he
      refine iff_of_true htakes.le fun a ha => ?_
      rw [hnone] at ha
      cases ha

theorem snapshots_step (hc : c.publisher.core.Snapshots) (hstep : step cfg c o = some c')
    (hok : Current cfg c o) : c'.publisher.core.Snapshots := by
  rcases step_core hstep with ⟨a, ha, hcore⟩ | ⟨-, hsame | ⟨e, he, hcore⟩⟩
  · rw [hcore]
    exact updateSeqNo_snapshots hc (hok a ha)
  · rwa [hsame]
  · obtain ⟨other, htakes⟩ := step_takes hc hcore he
    exact htakes.snapshots hc

/-- The steps of a run lower no entry of the state vector exactly when each assignment throws or
finds its entry at or below the number. -/
theorem never_backwards (es : List Occurrence) :
    Along (step cfg) (Rising cfg) {} es ↔ Along (step cfg) (Current cfg) {} es :=
  along_iff_of_invariant (I := fun c => c.publisher.core.Snapshots)
    (fun _ _ _ hstep hok hc => snapshots_step hc hstep hok) (fun _ _ hc => rising_iff_current hc)
    snapshots_empty

/-- A packet reserves 1, a publication of bytes picks 2 and announces it, and the packet is stored
and mapped. -/
def overtakingRun : List Occurrence :=
  [beginPacketCall, beginBytesCall] ++
    List.replicate 3 ⟨.proceed 1, Publisher.sampleInputs⟩ ++
    List.replicate 2 (going Publisher.sampleInputs)

/-- The packet announces 1 after the publication of bytes has announced 2. -/
theorem overtaken_packet_lowers : ∃ c c', run (step sampleConfig) {} overtakingRun = some c ∧
    step sampleConfig c (going Publisher.sampleInputs) = some c' ∧
    c.publisher.core.vv.get sampleConfig.core.id 100 = 2 ∧
    c'.publisher.core.vv.get sampleConfig.core.id 100 = 1 ∧
    ¬Along (step sampleConfig) (Rising sampleConfig) {}
      (overtakingRun ++ [going Publisher.sampleInputs]) := by
  let c := (run (step sampleConfig) {} overtakingRun).get (by decide +kernel)
  let c' := (step sampleConfig c (going Publisher.sampleInputs)).get (by decide +kernel)
  have hrun : run (step sampleConfig) {} overtakingRun = some c := (Option.some_get _).symm
  have hstep : step sampleConfig c (going Publisher.sampleInputs) = some c' :=
    (Option.some_get _).symm
  have hbefore : c.publisher.core.vv.get sampleConfig.core.id 100 = 2 := by decide +kernel
  have hafter : c'.publisher.core.vv.get sampleConfig.core.id 100 = 1 := by decide +kernel
  refine ⟨c, c', hrun, hstep, hbefore, hafter, fun hrising => ?_⟩
  have hlast := (along_cons.mp ((along_append.mp hrising).2 c hrun)).1 c' hstep
  have hle := hlast sampleConfig.core.id 100
  rw [hbefore, hafter] at hle
  exact absurd hle (by decide)

end SharedPublisher

end NdnSvs
