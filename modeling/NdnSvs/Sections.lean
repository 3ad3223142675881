import NdnSvs.Advertised

/-! Publish calls from several threads, and the commits on the thread of the Face.  Each section that
a call or a commit runs under a lock is one step, and the sections of different calls interleave.  A
publication of bytes picks its number in one section and records it in a later one, and no lock keeps
the name-only calls and those for packets out in between.  No lock is held from the section that
takes a number to the one that announces it. -/

namespace NdnSvs

open Lib Lib.Tlv

/-- A publish call, or a callback that commits, between two of its sections. -/
inductive InFlight
  /-- A publication of bytes that has picked its number. -/
  | numbered (publication : AsyncPublication)
  /-- A publication of bytes that is stored and mapped. -/
  | committed (prepared : PreparedPublication)
  /-- A publication of bytes that is announced. -/
  | announced (prepared : PreparedPublication)
  /-- A packet that has reserved its number. -/
  | reserved (nid : NodeID) (seqNo : SeqNo) (data : Data) (mappingBlocks : List Block)
  /-- A name, or a packet in the store, with its reserved number. -/
  | stored (nid : NodeID) (seqNo : SeqNo) (name : Name) (mappingBlocks : List Block)
      (packets : List Data)
  /-- A name or a packet with its mapping. -/
  | mapped (nid : NodeID) (seqNo : SeqNo) (packets : List Data)
  /-- A callback or a retry at the start of a round of its loop. -/
  | looping (nid : NodeID)
  /-- A commit that has taken its publication out of the map. -/
  | taken (nid : NodeID) (publication : PreparedPublication)
  /-- A commit that has stored and mapped its publication. -/
  | ready (nid : NodeID) (publication : PreparedPublication)
  /-- A commit that has announced its publication. -/
  | advancing (nid : NodeID) (seqNo : SeqNo)
  /-- A commit that has thrown. -/
  | failed (nid : NodeID) (publication : PreparedPublication)
deriving DecidableEq

namespace InFlight

/-- Whether the call holds the mutex of the segmented publications. -/
def holdsOrderLock : InFlight → Bool
  | .numbered _ | .committed _ | .announced _ => true
  | _ => false

/-- Whether it is a callback, which occupies the thread of the Face. -/
def onFaceThread : InFlight → Bool
  | .looping _ | .taken .. | .ready .. | .advancing .. | .failed .. => true
  | _ => false

/-- The number that is reserved for the call. -/
def reservation : InFlight → Option (NodeID × SeqNo)
  | .reserved nid seqNo _ _ | .stored nid seqNo _ _ _ | .mapped nid seqNo _ => some (nid, seqNo)
  | _ => none

/-- The entry that the next section of the call sets, with the number it sets it to. -/
def assignment (cfg : PubSubConfig) : InFlight → Option (NodeID × BootstrapTime × SeqNo)
  | .committed prepared => some (prepared.nodePrefix, cfg.core.bootstrapTime, prepared.seqNo)
  | .mapped nid seqNo _ => some (nid, cfg.core.bootstrapTime, seqNo)
  | .ready nid publication => some (nid, cfg.core.bootstrapTime, publication.seqNo)
  | _ => none

end InFlight

/-- A publisher and the calls in flight. -/
structure SharedPublisher where
  publisher : Publisher := {}
  calls : List InFlight := []

namespace SharedPublisher

variable (cfg : PubSubConfig)

def orderLockFree (c : SharedPublisher) : Bool := c.calls.all fun call => !call.holdsOrderLock

def faceFree (c : SharedPublisher) : Bool := c.calls.all fun call => !call.onFaceThread

/-- A call enters its next section. -/
def enter (c : SharedPublisher) (p : Publisher) (call : InFlight) : SharedPublisher :=
  { publisher := p, calls := c.calls ++ [call] }

/-- The first section of a publication of bytes: the number is picked, but not recorded. -/
def beginBytes (c : SharedPublisher) (name : Name) (value : Span) (nodePrefix : Name)
    (freshnessPeriod : Int) (mappingBlocks : List Block) : SharedPublisher :=
  let nid := Publisher.nodeOf cfg nodePrefix
  c.enter c.publisher (.numbered
    { kind := .bytes value, bootstrapTime := cfg.core.bootstrapTime
      seqNo := c.publisher.nextSeqNo cfg nid, name
      nodePrefix := nid, freshnessPeriod, mappingBlocks })

/-- The last section of a publication of bytes. -/
def recordSeqNo (c : SharedPublisher) (prepared : PreparedPublication) : SharedPublisher :=
  let p := { c.publisher with
    reservedSeqNo := c.publisher.reservedSeqNo.insert prepared.nodePrefix prepared.seqNo
    nextAsyncCommitSeq := c.publisher.nextAsyncCommitSeq.insert prepared.nodePrefix
      ((prepared.seqNo + 1) % 2 ^ 64) }
  { c with publisher := p.return_ prepared.nodePrefix prepared.seqNo prepared.outerPackets false }

/-- The first section of a retry, which finds its publication or ends. -/
def beginRetry (c : SharedPublisher) (p : Publisher) (nid : NodeID) (seqNo : SeqNo) :
    SharedPublisher :=
  match p.preparedPublications.getAt nid seqNo with
  | none => { c with publisher := p }
  | some publication => c.enter (p.clearRetry nid seqNo publication) (.looping nid)

/-- The next section of a call, which has left the calls in flight: it enters the one after it, or
it returns or throws. -/
def nextSection (env : PublishInputs) (c : SharedPublisher) : InFlight → SharedPublisher
  | .numbered publication =>
    match prepare cfg env.core publication with
    | .error _ => c
    | .ok prepared =>
      match c.publisher.commitPreparedPublication cfg env prepared with
      | ((p, _), .error _) => { c with publisher := p }
      | ((p, prepared), .ok ()) => c.enter p (.committed prepared)
  | .committed prepared =>
    match c.publisher.updateSeqNo cfg env prepared.seqNo prepared.nodePrefix with
    | (p, .error _) => { c with publisher := p }
    | (p, .ok ()) => c.enter p (.announced prepared)
  | .announced prepared => c.recordSeqNo prepared
  | .reserved nid seqNo data mappingBlocks =>
    match c.publisher.insertPacketAtSeq cfg env data nid seqNo with
    | (p, .error _) => { c with publisher := p }
    | (p, .ok packet) => c.enter p (.stored nid seqNo data.name mappingBlocks [packet])
  | .stored nid seqNo name mappingBlocks packets =>
    match c.publisher.insertMapping cfg env nid cfg.core.bootstrapTime seqNo name mappingBlocks with
    | (p, .error _) => { c with publisher := p }
    | (p, .ok ()) => c.enter p (.mapped nid seqNo packets)
  | .mapped nid seqNo packets =>
    -- a later number of the node may have been announced since this one was reserved
    match c.publisher.updateSeqNo cfg env seqNo nid with
    | (p, .error _) => { c with publisher := p }
    | (p, .ok ()) => { c with publisher := p.return_ nid seqNo packets false }
  | .looping nid =>
    match c.publisher.takeHead nid with
    | none => c
    | some (publication, p) => c.enter p (.taken nid publication)
  | .taken nid publication =>
    if env.hookThrows then c.enter c.publisher (.failed nid publication)
    else
      match c.publisher.commitPreparedPublication cfg env publication with
      | ((p, publication), .error _) => c.enter p (.failed nid publication)
      | ((p, publication), .ok ()) => c.enter p (.ready nid publication)
  | .ready nid publication =>
    match c.publisher.updateSeqNo cfg env publication.seqNo nid with
    | (p, .error _) => c.enter p (.failed nid publication)
    | (p, .ok ()) =>
      c.enter { p with committed := p.committed ++ [(nid, publication.seqNo)] }
        (.advancing nid publication.seqNo)
  | .advancing nid seqNo => c.enter (c.publisher.advanceHead nid seqNo) (.looping nid)
  -- the callback catches what a commit throws, and ends with the retry
  | .failed nid publication =>
    { c with publisher := c.publisher.requeueFailedPublication nid publication }

/-- A publish call, a posted callback or the timer of a retry begins, one in flight goes on, or
something runs that is one section: an asynchronous call or an event of the core. -/
inductive Event
  | publishBytes (name : Name) (value : Span) (nodePrefix : Name) (freshnessPeriod : Int)
      (mappingBlocks : List Block)
  | publishName (name nodePrefix : Name) (mappingBlocks : List Block)
  | publishPacket (data : Data) (nodePrefix : Name) (mappingBlocks : List Block)
  | preparedPublication (index : Nat)
  | retry (index : Nat)
  | proceed (index : Nat)
  | whole (event : Publisher.Event)
deriving DecidableEq

structure Occurrence where
  event : Event
  inputs : Nat → PublishInputs

/-- Whether an event of the core runs on the thread of the Face; an application calls the others on
its own. -/
def needsFace : SVSyncCore.Event → Bool
  | .updateSeqNo .. | .setMaxSuppressionTime _ | .setSyncInterestBatching _
  | .setParallelSyncProcessing _ | .setParallelSyncProduction .. => false
  | _ => true

/-- Whether the event can run as one section: the asynchronous calls wait for the order lock, the
events on the thread of the Face for the callback that is running there, and the synchronous calls
and the callbacks have several sections. -/
def runsWhole (c : SharedPublisher) : Publisher.Event → Bool
  | .publishBytes .. | .publishName .. | .publishPacket .. | .preparedPublication _ | .retry _ =>
    false
  | .publishBytesAsync .. | .publishNameAsync .. | .publishPacketAsync .. => c.orderLockFree
  | .extraBlocks => true
  | .core event => !needsFace event || c.faceFree

def step (c : SharedPublisher) (o : Occurrence) : Option SharedPublisher :=
  match o.event with
  | .publishBytes name value nodePrefix freshnessPeriod mappingBlocks =>
    if c.orderLockFree then
      some (c.beginBytes cfg name value nodePrefix freshnessPeriod mappingBlocks)
    else none
  | .publishName name nodePrefix mappingBlocks =>
    let nid := Publisher.nodeOf cfg nodePrefix
    let (p, seqNo) := c.publisher.reserveSeqNo cfg nid
    some (c.enter p (.stored nid seqNo name mappingBlocks []))
  | .publishPacket data nodePrefix mappingBlocks =>
    let nid := Publisher.nodeOf cfg nodePrefix
    let (p, seqNo) := c.publisher.reserveSeqNo cfg nid
    some (c.enter p (.reserved nid seqNo data mappingBlocks))
  | .preparedPublication index =>
    if c.faceFree then
      c.publisher.posted[index]?.map fun publication =>
        c.enter
          (({ c.publisher with posted := c.publisher.posted.eraseIdx index } : Publisher).unstage
            publication)
          (.looping publication.nodePrefix)
    else none
  | .retry index =>
    if c.faceFree then
      c.publisher.retries[index]?.map fun (nid, seqNo) =>
        c.beginRetry { c.publisher with retries := c.publisher.retries.eraseIdx index } nid seqNo
    else none
  | .proceed index =>
    match c.calls[index]? with
    | none => none
    | some call =>
      some (({ c with calls := c.calls.eraseIdx index } : SharedPublisher).nextSection cfg
        (o.inputs 0) call)
  | .whole event =>
    if c.runsWhole event then
      (c.publisher.step cfg ⟨event, o.inputs⟩).map fun p => { c with publisher := p }
    else none

/-! ### What a section does -/

section Cases

variable {cfg} {env : PublishInputs} {call : InFlight} {p p' : Publisher}

/-- The calls that have returned and the reservations are the same. -/
structure Keeps (p p' : Publisher) : Prop where
  returned : p'.returned = p.returned
  reserved : p'.reservedSeqNo = p.reservedSeqNo

/-- What the next section of a call does to the publisher: it sets the entry of its assignment, and
else leaves the core as it is. -/
structure Makes (cfg : PubSubConfig) (env : PublishInputs) (call : InFlight) (p p' : Publisher) :
    Prop extends Keeps p p' where
  core : p'.core =
    match call.assignment cfg with
    | none => p.core
    | some (nid, b, seq) => (p.core.updateSeqNo cfg.core env.core seq b nid).1

theorem makes_of_keeps (hnone : call.assignment cfg = none) (hcore : p'.core = p.core)
    (hkeeps : Keeps p p') : Makes cfg env call p p' :=
  ⟨hkeeps, by rw [hnone, hcore]⟩

theorem makes_of_tries {publication publication' : PreparedPublication}
    (hnone : call.assignment cfg = none)
    (h : Publisher.Tries cfg p publication p' publication') : Makes cfg env call p p' := by
  refine makes_of_keeps hnone h.core ?_
  rw [h.state]
  exact ⟨rfl, rfl⟩

theorem makes_insertPacketAtSeq {data : Data} {nid : NodeID} {seqNo : SeqNo} {result : Result Data}
    (hnone : call.assignment cfg = none)
    (h : p.insertPacketAtSeq cfg env data nid seqNo = (p', result)) : Makes cfg env call p p' := by
  have halters : ∃ node, Publisher.Alters cfg node seqNo p p' := by
    rcases Publisher.insertPacketAtSeq_cases cfg env p data nid seqNo with
      ⟨p₁, e, hinsert, halters⟩ | ⟨p₁, packet, hinsert, halters, -⟩
    all_goals
      obtain ⟨rfl, -⟩ := Prod.mk.inj (h.symm.trans hinsert)
      exact ⟨_, halters⟩
  obtain ⟨node, halters⟩ := halters
  refine makes_of_keeps hnone halters.core ?_
  rw [halters.state]
  exact ⟨rfl, rfl⟩

theorem makes_insertMapping {nid : NodeID} {b : BootstrapTime} {seqNo : SeqNo} {name : Name}
    {additional : List Block} {result : Result Unit} (hnone : call.assignment cfg = none)
    (h : p.insertMapping cfg env nid b seqNo name additional = (p', result)) :
    Makes cfg env call p p' := by
  rcases Publisher.insertMapping_cases cfg env p nid b seqNo name additional with
    ⟨-, extra, e, hmapping⟩ | ⟨-, extra, mappings, -, -, hmapping⟩
  all_goals
    obtain ⟨rfl, -⟩ := Prod.mk.inj (h.symm.trans hmapping)
    exact makes_of_keeps hnone rfl ⟨rfl, rfl⟩

theorem makes_updateSeqNo {nid : NodeID} {seqNo : SeqNo} {result : Result Unit}
    (hassigns : call.assignment cfg = some (nid, cfg.core.bootstrapTime, seqNo))
    (h : p.updateSeqNo cfg env seqNo nid = (p', result)) : Makes cfg env call p p' := by
  have hkeeps : Keeps p p' := by
    rcases Publisher.updateSeqNo_cases cfg env p seqNo nid with ⟨-, e, hupdate⟩ |
      ⟨core, -, hupdate⟩
    all_goals
      obtain ⟨rfl, -⟩ := Prod.mk.inj (h.symm.trans hupdate)
      exact ⟨rfl, rfl⟩
  refine ⟨hkeeps, ?_⟩
  rw [hassigns]
  exact Publisher.updateSeqNo_core h

variable (cfg) in
/-- What the next section of a call does: it ends the call, it goes on with the same reservation, it
returns its reserved number, or it records the number of a publication of bytes. -/
theorem nextSection_cases (env : PublishInputs) (c : SharedPublisher) (call : InFlight) :
    (∃ p, Makes cfg env call c.publisher p ∧
      c.nextSection cfg env call = { c with publisher := p }) ∨
    (∃ p call', Makes cfg env call c.publisher p ∧ call'.reservation = call.reservation ∧
      c.nextSection cfg env call = c.enter p call') ∨
    (∃ p nid s packets, Makes cfg env call c.publisher p ∧ call.reservation = some (nid, s) ∧
      c.nextSection cfg env call = { c with publisher := p.return_ nid s packets false }) ∨
    ∃ prepared, call = .announced prepared ∧
      c.nextSection cfg env call = c.recordSeqNo prepared := by
  -- one case for each constructor, split as the section's own branches are
  cases call with
  | numbered publication =>
    simp only [nextSection]
    split
    · exact .inl ⟨c.publisher, makes_of_keeps rfl rfl ⟨rfl, rfl⟩, rfl⟩
    · rename_i prepared _
      have htries := Publisher.commitPreparedPublication_tries cfg env c.publisher prepared
      split
      · rename_i hcommit
        rw [hcommit] at htries
        exact .inl ⟨_, makes_of_tries rfl htries, rfl⟩
      · rename_i p prepared' hcommit
        rw [hcommit] at htries
        exact .inr (.inl ⟨p, .committed prepared', makes_of_tries rfl htries, rfl, rfl⟩)
  | committed prepared =>
    simp only [nextSection]
    split
    · rename_i hupdate
      exact .inl ⟨_, makes_updateSeqNo rfl hupdate, rfl⟩
    · rename_i p hupdate
      exact .inr (.inl ⟨p, .announced prepared, makes_updateSeqNo rfl hupdate, rfl, rfl⟩)
  | announced prepared => exact .inr (.inr (.inr ⟨prepared, rfl, rfl⟩))
  | reserved nid seqNo data mappingBlocks =>
    simp only [nextSection]
    split
    · rename_i hinsert
      exact .inl ⟨_, makes_insertPacketAtSeq rfl hinsert, rfl⟩
    · rename_i p packet hinsert
      exact .inr (.inl ⟨p, .stored nid seqNo data.name mappingBlocks [packet],
        makes_insertPacketAtSeq rfl hinsert, rfl, rfl⟩)
  | stored nid seqNo name mappingBlocks packets =>
    simp only [nextSection]
    split
    · rename_i hmapping
      exact .inl ⟨_, makes_insertMapping rfl hmapping, rfl⟩
    · rename_i p hmapping
      exact .inr (.inl ⟨p, .mapped nid seqNo packets, makes_insertMapping rfl hmapping, rfl, rfl⟩)
  | mapped nid seqNo packets =>
    simp only [nextSection]
    split
    · rename_i hupdate
      exact .inl ⟨_, makes_updateSeqNo rfl hupdate, rfl⟩
    · rename_i hupdate
      exact .inr (.inr (.inl ⟨_, nid, seqNo, packets, makes_updateSeqNo rfl hupdate, rfl, rfl⟩))
  | looping nid =>
    simp only [nextSection]
    split
    · exact .inl ⟨c.publisher, makes_of_keeps rfl rfl ⟨rfl, rfl⟩, rfl⟩
    · rename_i publication p htake
      have hmakes : Makes cfg env (.looping nid) c.publisher p := by
        obtain ⟨next, -, -, -, rfl⟩ := Publisher.takeHead_eq_some.mp htake
        exact makes_of_keeps rfl rfl ⟨rfl, rfl⟩
      exact .inr (.inl ⟨p, .taken nid publication, hmakes, rfl, rfl⟩)
  | taken nid publication =>
    have htries := Publisher.commitPreparedPublication_tries cfg env c.publisher publication
    simp only [nextSection]
    split
    · exact .inr (.inl ⟨_, .failed nid publication, makes_of_keeps rfl rfl ⟨rfl, rfl⟩, rfl, rfl⟩)
    · split
      · rename_i p publication' _ hcommit
        rw [hcommit] at htries
        exact .inr (.inl ⟨p, .failed nid publication', makes_of_tries rfl htries, rfl, rfl⟩)
      · rename_i p publication' hcommit
        rw [hcommit] at htries
        exact .inr (.inl ⟨p, .ready nid publication', makes_of_tries rfl htries, rfl, rfl⟩)
  | ready nid publication =>
    simp only [nextSection]
    split
    · rename_i p _ hupdate
      exact .inr (.inl ⟨p, .failed nid publication, makes_updateSeqNo rfl hupdate, rfl, rfl⟩)
    · rename_i p hupdate
      have hupdated : Makes cfg env (.ready nid publication) c.publisher p :=
        makes_updateSeqNo rfl hupdate
      have hmakes : Makes cfg env (.ready nid publication) c.publisher
          { p with committed := p.committed ++ [(nid, publication.seqNo)] } :=
        ⟨⟨hupdated.returned, hupdated.reserved⟩, hupdated.core⟩
      exact .inr (.inl ⟨_, .advancing nid publication.seqNo, hmakes, rfl, rfl⟩)
  | advancing nid seqNo =>
    have hmakes : Makes cfg env (.advancing nid seqNo) c.publisher
        (c.publisher.advanceHead nid seqNo) := by
      unfold Publisher.advanceHead
      split <;> exact makes_of_keeps rfl rfl ⟨rfl, rfl⟩
    exact .inr (.inl ⟨_, .looping nid, hmakes, rfl, rfl⟩)
  | failed nid publication =>
    have hmakes : Makes cfg env (.failed nid publication) c.publisher
        (c.publisher.requeueFailedPublication nid publication) :=
      makes_of_keeps rfl rfl ⟨rfl, rfl⟩
    exact .inl ⟨_, hmakes, rfl⟩

end Cases

/-! ### Calls that run alone -/

section Alone

variable {cfg} {p p' : Publisher}

/-- A call in flight that is alone goes on with its inputs. -/
def going (inputs : Nat → PublishInputs) : Occurrence := ⟨.proceed 0, inputs⟩

theorem exists_run_going (inputs : Nat → PublishInputs) {call : InFlight} {result : SharedPublisher}
    (h : ∃ es, run (step cfg) ((⟨p, []⟩ : SharedPublisher).nextSection cfg (inputs 0) call) es =
      some result) : ∃ es, run (step cfg) ⟨p, [call]⟩ es = some result := by
  obtain ⟨es, hes⟩ := h
  exact ⟨going inputs :: es, hes⟩

theorem exists_run_stored (inputs : Nat → PublishInputs) (nid : NodeID)
    (seqNo : SeqNo) (name : Name)
    (mappingBlocks : List Block) (packets : List Data) :
    ∃ es, run (step cfg) ⟨p, [.stored nid seqNo name mappingBlocks packets]⟩ es =
      some ⟨(p.announce cfg (inputs 0) nid seqNo name mappingBlocks packets).1, []⟩ := by
  refine exists_run_going inputs ?_
  simp only [nextSection, Publisher.announce]
  cases hmapping : p.insertMapping cfg (inputs 0) nid cfg.core.bootstrapTime seqNo name
    mappingBlocks with
  | mk p₁ result =>
    cases result with
    | error e => exact ⟨[], rfl⟩
    | ok _ =>
      refine exists_run_going inputs ?_
      simp only [nextSection]
      cases hupdate : p₁.updateSeqNo cfg (inputs 0) seqNo nid with
      | mk p₂ result =>
        cases result with
        | error e => exact ⟨[], rfl⟩
        | ok _ => exact ⟨[], rfl⟩

theorem exists_run_numbered (inputs : Nat → PublishInputs) (name : Name) (value : Span)
    (nodePrefix : Name) (freshnessPeriod : Int) (mappingBlocks : List Block) :
    ∃ es, run (step cfg) ((⟨p, []⟩ : SharedPublisher).beginBytes cfg name value nodePrefix
        freshnessPeriod mappingBlocks) es =
      some ⟨(p.publishBytes cfg (inputs 0) name value nodePrefix freshnessPeriod mappingBlocks).1,
        []⟩ := by
  refine exists_run_going inputs ?_
  simp only [nextSection, Publisher.publishBytes]
  cases hprepare : prepare cfg (inputs 0).core
    { kind := .bytes value, bootstrapTime := cfg.core.bootstrapTime
      seqNo := p.nextSeqNo cfg (Publisher.nodeOf cfg nodePrefix), name
      nodePrefix := Publisher.nodeOf cfg nodePrefix, freshnessPeriod, mappingBlocks } with
  | error e => exact ⟨[], rfl⟩
  | ok prepared =>
    have hprepares := prepare_prepares hprepare
    have hseq : prepared.seqNo = p.nextSeqNo cfg (Publisher.nodeOf cfg nodePrefix) :=
      hprepares.seqNo
    have hnode : prepared.nodePrefix = Publisher.nodeOf cfg nodePrefix := hprepares.nodePrefix
    have htries := Publisher.commitPreparedPublication_tries cfg (inputs 0) p prepared
    cases hcommit : p.commitPreparedPublication cfg (inputs 0) prepared with
    | mk state result =>
      obtain ⟨p₁, prepared₁⟩ := state
      rw [hcommit] at htries
      simp only [hcommit]
      cases result with
      | error e => exact ⟨[], rfl⟩
      | ok _ =>
        refine exists_run_going inputs ?_
        have hseq' := htries.seqNo.trans hseq
        have hnode' := htries.nodePrefix.trans hnode
        simp only at hseq' hnode'
        simp only [nextSection, hseq', hnode']
        cases hupdate : p₁.updateSeqNo cfg (inputs 0)
          (p.nextSeqNo cfg (Publisher.nodeOf cfg nodePrefix)) (Publisher.nodeOf cfg nodePrefix) with
        | mk p₂ result =>
          cases result with
          | error e => exact ⟨[], rfl⟩
          | ok _ =>
            refine exists_run_going inputs ⟨[], ?_⟩
            simp only [nextSection, recordSeqNo, hseq', hnode']
            rfl

theorem exists_run_append {c c' c'' : SharedPublisher}
    (h : ∃ es, run (step cfg) c es = some c') (h' : ∃ es, run (step cfg) c' es = some c'') :
    ∃ es, run (step cfg) c es = some c'' := by
  obtain ⟨es, hes⟩ := h
  obtain ⟨es', hes'⟩ := h'
  refine ⟨es ++ es', ?_⟩
  rw [run_append, hes]
  exact hes'

/-- A commit puts its publication back when it throws, and else goes on to the next round. -/
theorem exists_run_taken (inputs : Nat → PublishInputs) (nid : NodeID)
    (publication : PreparedPublication) :
    ∃ es, run (step cfg) ⟨p, [.taken nid publication]⟩ es =
      match p.attemptCommit cfg (inputs 0) nid publication with
      | ((p, publication), .error _) => some ⟨p.requeueFailedPublication nid publication, []⟩
      | ((p, publication), .ok ()) => some ⟨p.advanceHead nid publication.seqNo, [.looping nid]⟩ := by
  have hfailed (p : Publisher) (publication : PreparedPublication) :
      ∃ es, run (step cfg) ⟨p, [.failed nid publication]⟩ es =
        some ⟨p.requeueFailedPublication nid publication, []⟩ :=
    exists_run_going inputs ⟨[], rfl⟩
  unfold Publisher.attemptCommit
  by_cases hhook : (inputs 0).hookThrows = true
  · rw [if_pos hhook]
    refine exists_run_going inputs ?_
    simp only [nextSection, if_pos hhook]
    exact hfailed p publication
  · rw [if_neg hhook]
    cases hcommit : p.commitPreparedPublication cfg (inputs 0) publication with
    | mk state result =>
      obtain ⟨p₁, publication₁⟩ := state
      cases result with
      | error e =>
        refine exists_run_going inputs ?_
        simp only [nextSection, if_neg hhook, hcommit]
        exact hfailed p₁ publication₁
      | ok _ =>
        dsimp only
        cases hupdate : p₁.updateSeqNo cfg (inputs 0) publication₁.seqNo nid with
        | mk p₂ result =>
          have hready : ∀ {c : SharedPublisher},
              (∃ es, run (step cfg) ((⟨p₁, []⟩ : SharedPublisher).nextSection cfg (inputs 0)
                (.ready nid publication₁)) es = some c) →
              ∃ es, run (step cfg) ⟨p, [.taken nid publication]⟩ es = some c := by
            intro c h
            refine exists_run_going inputs ?_
            simp only [nextSection, if_neg hhook, hcommit]
            exact exists_run_going inputs h
          cases result with
          | error e =>
            refine hready ?_
            simp only [nextSection, hupdate]
            exact hfailed p₂ publication₁
          | ok _ =>
            refine hready ?_
            simp only [nextSection, hupdate]
            exact exists_run_going inputs ⟨[], rfl⟩

/-- With fuel for the publications in the map, the loop ends where its sections end. -/
theorem exists_run_looping (nid : NodeID) {fuel : Nat}
    (hfuel : p.preparedPublications.sizeAt nid < fuel) (attempts : Nat → PublishInputs) :
    ∃ es, run (step cfg) ⟨p, [.looping nid]⟩ es =
      some ⟨Publisher.commitLoop cfg nid fuel attempts p, []⟩ := by
  induction fuel generalizing p attempts with
  | zero => exact absurd hfuel (Nat.not_lt_zero _)
  | succ fuel ih =>
    refine exists_run_going attempts ?_
    simp only [nextSection, Publisher.commitLoop]
    cases htake : p.takeHead nid with
    | none => exact ⟨[], rfl⟩
    | some head =>
      obtain ⟨publication, p₀⟩ := head
      have htaken := @exists_run_taken cfg p₀ attempts nid publication
      cases hattempt : p₀.attemptCommit cfg (attempts 0) nid publication with
      | mk state result =>
        obtain ⟨p₁, publication₁⟩ := state
        rw [hattempt] at htaken
        simp only [hattempt]
        cases result with
        | error e => exact htaken
        | ok _ =>
          refine exists_run_append htaken (ih ?_ _)
          obtain ⟨next, -, hat, -, rfl⟩ := Publisher.takeHead_eq_some.mp htake
          obtain ⟨p₂, core, rfl, htries, -⟩ := Publisher.attemptCommit_ok hattempt
          obtain ⟨dataStore, mappings, extra, rfl⟩ := htries.exists_state
          have hsize := Map.sizeAt_eraseAt hat
          rw [Publisher.advanceHead_preparedPublications]
          change (p.preparedPublications.eraseAt nid next).sizeAt nid < fuel
          omega

/-- The sections of a call or a callback, with nothing in between, do what it does as one step. -/
theorem step_alone {o : Publisher.Occurrence} (hstep : p.step cfg o = some p') :
    ∃ es, run (step cfg) ⟨p, []⟩ es = some ⟨p', []⟩ := by
  obtain ⟨event, inputs⟩ := o
  have hwhole : (⟨p, []⟩ : SharedPublisher).runsWhole event = true →
      ∃ es, run (step cfg) ⟨p, []⟩ es = some ⟨p', []⟩ := by
    intro hruns
    refine ⟨[⟨.whole event, inputs⟩], ?_⟩
    rw [run_cons, step]
    simp only [hruns, if_true, hstep]
    rfl
  cases event with
  | publishBytes name value nodePrefix freshnessPeriod mappingBlocks =>
    obtain rfl := Option.some.inj hstep
    obtain ⟨es, hes⟩ := @exists_run_numbered cfg p inputs name value nodePrefix freshnessPeriod
      mappingBlocks
    exact ⟨⟨.publishBytes name value nodePrefix freshnessPeriod mappingBlocks, inputs⟩ :: es, hes⟩
  | publishName name nodePrefix mappingBlocks =>
    obtain rfl := Option.some.inj hstep
    obtain ⟨es, hes⟩ := @exists_run_stored cfg (p.reserveSeqNo cfg
      (Publisher.nodeOf cfg nodePrefix)).1
      inputs (Publisher.nodeOf cfg nodePrefix)
      (p.reserveSeqNo cfg (Publisher.nodeOf cfg nodePrefix)).2 name mappingBlocks []
    exact ⟨⟨.publishName name nodePrefix mappingBlocks, inputs⟩ :: es, hes⟩
  | publishPacket data nodePrefix mappingBlocks =>
    obtain rfl := Option.some.inj hstep
    have hrun : ∃ es, run (step cfg) ⟨(p.reserveSeqNo cfg (Publisher.nodeOf cfg nodePrefix)).1,
        [.reserved (Publisher.nodeOf cfg nodePrefix)
          (p.reserveSeqNo cfg (Publisher.nodeOf cfg nodePrefix)).2 data mappingBlocks]⟩ es =
        some ⟨(p.publishPacket cfg (inputs 0) data nodePrefix mappingBlocks).1, []⟩ := by
      refine exists_run_going inputs ?_
      simp only [nextSection, Publisher.publishPacket]
      cases hinsert : (p.reserveSeqNo cfg (Publisher.nodeOf cfg nodePrefix)).1.insertPacketAtSeq cfg
        (inputs 0) data (Publisher.nodeOf cfg nodePrefix)
        (p.reserveSeqNo cfg (Publisher.nodeOf cfg nodePrefix)).2 with
      | mk state result =>
        cases result with
        | error e => exact ⟨[], rfl⟩
        | ok _ => exact exists_run_stored inputs _ _ _ _ _
    obtain ⟨es, hes⟩ := hrun
    exact ⟨⟨.publishPacket data nodePrefix mappingBlocks, inputs⟩ :: es, hes⟩
  | publishBytesAsync => exact hwhole rfl
  | publishNameAsync => exact hwhole rfl
  | publishPacketAsync => exact hwhole rfl
  | preparedPublication index =>
    obtain ⟨publication, hindex, rfl⟩ := (Publisher.step_preparedPublication rfl).mp hstep
    obtain ⟨es, hes⟩ := @exists_run_looping cfg
      (({ p with posted := p.posted.eraseIdx index } : Publisher).unstage publication)
      publication.nodePrefix _ (Nat.lt_succ_self _) inputs
    refine ⟨⟨.preparedPublication index, inputs⟩ :: es, ?_⟩
    rw [run_cons]
    simp only [step, faceFree, List.all_nil, if_true, hindex, Option.map_some]
    exact hes
  | retry index =>
    obtain ⟨nid, s, hindex, rfl⟩ := (Publisher.step_retry rfl).mp hstep
    have hbegin : ∃ es, run (step cfg) ((⟨p, []⟩ : SharedPublisher).beginRetry
        { p with retries := p.retries.eraseIdx index } nid s) es =
        some ⟨({ p with retries := p.retries.eraseIdx index } : Publisher).onRetry cfg inputs nid s,
          []⟩ := by
      simp only [beginRetry, Publisher.onRetry]
      cases hat : p.preparedPublications.getAt nid s with
      | none => exact ⟨[], rfl⟩
      | some publication => exact exists_run_looping nid (Nat.lt_succ_self _) inputs
    obtain ⟨es, hes⟩ := hbegin
    refine ⟨⟨.retry index, inputs⟩ :: es, ?_⟩
    rw [run_cons]
    simp only [step, faceFree, List.all_nil, if_true, hindex, Option.map_some]
    exact hes
  | extraBlocks => exact hwhole rfl
  | core event => exact hwhole (by simp [runsWhole, faceFree])

end Alone

/-! ### Two calls for examples -/

/-- A publication of bytes begins. -/
def beginBytesCall : Occurrence :=
  ⟨.publishBytes (Name.ofStrings ["x"]) Publisher.sampleSpan [] 0 [], Publisher.sampleInputs⟩

/-- A publication of a packet begins. -/
def beginPacketCall : Occurrence :=
  ⟨.publishPacket { name := Name.ofStrings ["y"], signatureValue := some [1] } [] [],
    Publisher.sampleInputs⟩

end SharedPublisher

end NdnSvs
