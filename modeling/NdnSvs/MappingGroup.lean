import NdnSvs.MappingReplies
import NdnSvs.MappingTruth

/-! A group of nodes that tell each other the names of publications, in the extension blocks of Sync
Interests and in replies to mapping queries.  Blocks and replies are lost, repeated and reordered.
Whatever name a node keeps for a publication, a node has published under it. -/

namespace NdnSvs

open Lib Lib.Tlv

/-- The event comes from another node, or tells other nodes something. -/
def SubscriberEvent.exchanges : SubscriberEvent → Bool
  | .extraBlocks _ | .getExtraBlocks | .mappingFetcher (.data _ _) => true
  | _ => false

/-- The prefix that the nodes of a group share, and the options of each node. -/
structure MappingGroup (ι : Type) where
  syncPrefix : Name
  node : ι → SubscriberConfig

namespace MappingGroup

variable {ι : Type} [DecidableEq ι]

def config (g : MappingGroup ι) (i : ι) : SubscriberConfig :=
  { g.node i with
    pubSub := { (g.node i).pubSub with
      core := { (g.node i).pubSub.core with syncPrefix := g.syncPrefix } } }

/-- The nodes with what has happened at each, and all that has been sent. -/
structure State (ι : Type) where
  nodes : ι → Subscriber
  happened : ι → List (SubscriberEvent × SubscribeInputs) := fun _ => []
  sent : List (List Block) := []
  replies : List Data := []

inductive Event (ι : Type)
  | run (i : ι) (event : SubscriberEvent) (env : SubscribeInputs)
  /-- A node sends extension blocks. -/
  | send (i : ι) (env : SubscribeInputs)
  /-- Extension blocks reach a node. -/
  | receive (i : ι) (index : Nat) (env : SubscribeInputs)
  /-- A mapping query reaches a node. -/
  | answer (i : ι) (name : Name) (env : CoreInputs)
  /-- A reply reaches the node that has asked for it. -/
  | fetch (i : ι) (index : Nat) (reply : Nat) (env : SubscribeInputs)

variable (g : MappingGroup ι)

def happen (s : State ι) (i : ι) (event : SubscriberEvent) (env : SubscribeInputs) :
    Option (State ι) :=
  (Subscriber.step (g.config i) (s.nodes i) (event, env)).map fun node =>
    { s with
      nodes := Function.update s.nodes i node
      happened := Function.update s.happened i (s.happened i ++ [(event, env)]) }

/-- The blocks that a node sends next. -/
def extraBlocks (s : State ι) (i : ι) : Result (List Block) :=
  ((s.nodes i).extra.onGetExtraBlocks (g.config i).pubSub.core.cxx (g.config i).pubSub.extraData).1

def step (s : State ι) : Event ι → Option (State ι)
  | .run i event env => if event.exchanges then none else happen g s i event env
  | .send i env =>
    match extraBlocks g s i with
    | .error _ => happen g s i .getExtraBlocks env
    | .ok blocks =>
      if blocks.all fun block => block.value.length < 2 ^ 64 then
        (happen g s i .getExtraBlocks env).map fun s => { s with sent := s.sent ++ [blocks] }
      else none
  | .receive i index env =>
    (s.sent[index]?).bind fun blocks => happen g s i (.extraBlocks blocks) env
  | .answer i name env =>
    ((g.config i).pubSub.mappingProvider.mappingReply env (s.nodes i).mappings name).bind
      fun data =>
        if data.content.length < 2 ^ 64 then some { s with replies := s.replies ++ [data] }
        else none
  | .fetch i index reply env =>
    (s.replies[reply]?).bind fun data =>
      ((s.nodes i).mappingFetcher.pendingInterests[index]?).bind fun qi =>
        if data.name =
            (g.config i).pubSub.mappingProvider.getMappingQueryDataName qi.request.query then
          happen g s i (.mappingFetcher (.data index data)) env
        else none

def initial : State ι where
  nodes := fun i => Subscriber.initial (g.config i)

/-- Some node publishes the publication under the name. -/
def Published (es : List (Event ι)) (key name : Name) : Prop :=
  ∃ i nodeId entry env, Event.run i (.publishMapping nodeId entry) env ∈ es ∧
    key = makeMappingKey nodeId entry.bootstrapTime entry.seqNo ∧ name = entry.mapping.name

/-- Nodes publish under names that are not empty, with 64-bit numbers. -/
def Admits : Event ι → Prop
  | .run _ (.publishMapping nodeId entry) _ => nodeId ≠ [] ∧ entry.Fits
  | _ => True

/-- Nothing in the group is false. -/
structure Truthful (named : Name → Name → Prop) (s : State ι) : Prop where
  attends : ∀ i, Subscriber.Attends (g.config i) named (s.happened i) (s.nodes i)
  nodes : ∀ i, (s.nodes i).Truthful named
  sent : ∀ blocks ∈ s.sent, ∀ block ∈ blocks, ∀ list ∈ mappingListsOf block, list.Truthful named
  replies : ∀ data ∈ s.replies, ∀ i query,
    data.name = (g.config i).pubSub.mappingProvider.getMappingQueryDataName query →
      TruthfulReply named query.nodeId data

variable {g} {named : Name → Name → Prop} {s t : State ι}

theorem Truthful.happens (h : Truthful g named s) {i : ι} {event : SubscriberEvent}
    {env : SubscribeInputs} (hhears : (s.nodes i).Hears named event)
    (hstep : happen g s i event env = some t) : Truthful g named t := by
  obtain ⟨node, hnext, rfl⟩ := Option.map_eq_some_iff.mp hstep
  obtain ⟨hattends, hnode⟩ :=
    Subscriber.truthful_step (e := (event, env)) (h.attends i) (h.nodes i) hhears hnext
  refine ⟨fun j => ?_, fun j => ?_, h.sent, h.replies⟩
  · by_cases hj : j = i
    · subst hj
      simpa using hattends
    · simpa [hj] using h.attends j
  · by_cases hj : j = i
    · subst hj
      simpa using hnode
    · simpa [hj] using h.nodes j

/-- A name that a provider reads as a query for a node is that of no query for another node. -/
theorem parsed_nodeId {provider requester : MappingProvider} {query asked : MissingDataInfo}
    (hprovider : provider.protocolVersion = .v3) (hrequester : requester.protocolVersion = .v3)
    (hsame : provider.syncPrefix = requester.syncPrefix)
    (h : provider.parseMappingQueryDataName (requester.getMappingQueryDataName asked) =
      .ok query) : query.nodeId = asked.nodeId := by
  unfold MappingProvider.parseMappingQueryDataName at h
  rw [hprovider] at h
  dsimp only at h
  split at h
  · obtain ⟨-, -, h⟩ := bind_eq_ok.mp h
    obtain rfl := Except.ok.inj h
    unfold MappingProvider.getMappingQueryDataName
    rw [hrequester, hsame]
    have hlength : asked.nodeId.length + (requester.syncPrefix.length + 4) -
        (4 + requester.syncPrefix.length) = asked.nodeId.length := by
      omega
    simp [Name.dropLast, hlength]
  · cases h

omit [DecidableEq ι] in
/-- A reply is true for whoever asked under its name. -/
theorem Truthful.reply (h : Truthful g named s) {i : ι} {name : Name} {env : CoreInputs}
    {data : Data} (hdata : (g.config i).pubSub.mappingProvider.mappingReply env (s.nodes i).mappings
      name = some data) (hlength : data.content.length < 2 ^ 64) (j : ι) (asked : MissingDataInfo)
    (hname : data.name = (g.config j).pubSub.mappingProvider.getMappingQueryDataName asked) :
    TruthfulReply named asked.nodeId data := by
  obtain ⟨content, hcontent, -⟩ := Option.bind_eq_some_iff.mp hdata
  obtain ⟨query, hquery, -, -⟩ := MappingProvider.onMappingQuery_eq_some hcontent
  have hsame : data.name = name := by
    obtain ⟨-, signature, rfl⟩ := MappingProvider.mappingReply_eq_some hdata hquery
    rfl
  have hnode : query.nodeId = asked.nodeId := by
    rw [← hsame, hname] at hquery
    exact parsed_nodeId rfl rfl rfl hquery
  obtain ⟨block, hblock, hread⟩ := MappingProvider.reply_read hdata hquery hlength
  rw [show (g.config i).pubSub.mappingProvider.protocolVersion = .v3 from rfl,
    MappingList.decodeFor_v3] at hread
  intro list hlist entry hentry
  have hlist' : MappingList.read block = some list := by
    rw [Subscriber.replyOf, hblock] at hlist
    exact hlist
  rw [MappingList.read, hread] at hlist'
  obtain rfl := Option.some.inj hlist'
  obtain ⟨answered, hanswered, rfl⟩ := List.mem_map.mp hentry
  obtain ⟨hepoch, hmapping⟩ :=
    MappingProvider.mem_queryResponse_known (List.mem_reverse.mp hanswered)
  have hmapped := (h.attends i).listens.mapped
    ⟨query.nodeId, query.bootstrapTime, answered.seqNo⟩ answered.mapping hmapping
  rw [← hnode]
  exact hepoch ▸ hmapped

/-! ### Runs -/

omit [DecidableEq ι] in
theorem truthful_initial : Truthful g named (initial g) where
  attends := fun _ => Subscriber.attends_initial
  nodes := fun _ => ⟨.empty, fun _ hv => absurd hv List.not_mem_nil⟩
  sent := fun _ h => absurd h List.not_mem_nil
  replies := fun _ h => absurd h List.not_mem_nil

theorem truthful_step (h : Truthful g named s) {e : Event ι}
    (hnames : ∀ i nodeId entry env, e = .run i (.publishMapping nodeId entry) env →
      nodeId ≠ [] ∧ entry.Truthful named nodeId) (hstep : step g s e = some t) :
    Truthful g named t := by
  cases e with
  | run i event env =>
    rw [step] at hstep
    split at hstep
    · cases hstep
    · rename_i hlocal
      refine h.happens ?_ hstep
      cases event with
      | publishMapping nodeId entry => exact hnames i nodeId entry env rfl
      | extraBlocks blocks => exact absurd rfl hlocal
      | mappingFetcher event =>
        cases event with
        | data index data => exact absurd rfl hlocal
        | _ => trivial
      | _ => trivial
  | send i env =>
    have hhears : (s.nodes i).Hears named .getExtraBlocks := trivial
    rw [step] at hstep
    split at hstep
    · exact h.happens hhears hstep
    · rename_i blocks hblocks
      split at hstep
      · rename_i hfits
        obtain ⟨s₁, hnext, rfl⟩ := Option.map_eq_some_iff.mp hstep
        have hsent := h.happens hhears hnext
        refine ⟨hsent.attends, hsent.nodes, fun blocks' hblocks' => ?_, hsent.replies⟩
        rcases List.mem_append.mp hblocks' with hold | hnew
        · exact hsent.sent blocks' hold
        · obtain rfl := List.mem_singleton.mp hnew
          refine (h.nodes i).extra.sent hblocks fun block hblock => ?_
          have hfit : block.value.length < 2 ^ 64 :=
            of_decide_eq_true (List.all_eq_true.mp hfits block hblock)
          exact hfit
      · cases hstep
  | receive i index env =>
    obtain ⟨blocks, hblocks, hstep⟩ := Option.bind_eq_some_iff.mp hstep
    have hhears : (s.nodes i).Hears named (.extraBlocks blocks) :=
      h.sent blocks (List.mem_of_getElem? hblocks)
    exact h.happens hhears hstep
  | answer i name env =>
    obtain ⟨data, hdata, hstep⟩ := Option.bind_eq_some_iff.mp hstep
    split at hstep
    · rename_i hlength
      obtain rfl := Option.some.inj hstep
      refine ⟨h.attends, h.nodes, h.sent, fun data' hdata' => ?_⟩
      rcases List.mem_append.mp hdata' with hold | hnew
      · exact h.replies data' hold
      · obtain rfl := List.mem_singleton.mp hnew
        exact h.reply hdata hlength
    · cases hstep
  | fetch i index reply env =>
    obtain ⟨data, hdata, hstep⟩ := Option.bind_eq_some_iff.mp hstep
    obtain ⟨qi, hqi, hstep⟩ := Option.bind_eq_some_iff.mp hstep
    split at hstep
    · rename_i hname
      have hhears : (s.nodes i).Hears named (.mappingFetcher (.data index data)) := by
        intro qi' hqi'
        obtain rfl := Option.some.inj (hqi.symm.trans hqi')
        exact h.replies data (List.mem_of_getElem? hdata) i _ hname
      exact h.happens hhears hstep
    · cases hstep

/-- A node keeps no name for a publication but one that it was published under, whatever has come
between, and calls callbacks only for publications that they asked for by such names.  Publications
are told apart by their mapping key, as the mapping lists do: those of one node whose epochs are a
multiple of 2^55 apart share a key, and with it their names. -/
theorem mappings_are_published {es : List (Event ι)} (hadmits : ∀ e ∈ es, Admits e)
    (hrun : Lib.run (step g) (initial g) es = some s) (i : ι) :
    (∀ key mapping, (s.nodes i).getMapping key = some mapping →
      Published es key.mappingKey mapping.name) ∧
    ∀ invocation ∈ (s.nodes i).invoked, ∃ call,
      Subscriber.CalledFor (g.config i) (Published es) (s.happened i) call invocation := by
  have hnames : ∀ e ∈ es, ∀ i nodeId entry env, e = .run i (.publishMapping nodeId entry) env →
      nodeId ≠ [] ∧ entry.Truthful (Published es) nodeId := by
    rintro e he i nodeId entry env rfl
    obtain ⟨hnode, hfits⟩ := hadmits _ he
    exact ⟨hnode, hfits, i, nodeId, entry, env, he, rfl, rfl⟩
  have htruthful : Truthful g (Published es) s :=
    run_invariant_along (fun s e t hstep hok h => truthful_step h hok hstep) truthful_initial
      (along_of_forall (fun e he _ => hnames e he) _) hrun
  exact ⟨(htruthful.attends i).listens.mapped, (htruthful.attends i).serves.called⟩

/-- Two nodes, of which one asks for all names. -/
def examplePair : MappingGroup Bool where
  syncPrefix := .ofStrings ["g"]
  node i :=
    { pubSub := { sampleConfig with
        core := { sampleConfig.core with id := if i then .ofStrings ["b"] else .ofStrings ["a"] } }
      regexMatch := fun _ _ => true }

/-- A name goes to the other node in a reply to its query, and again with a Sync Interest. -/
def exampleExchange : List (Event Bool) :=
  [.run true (.subscribeWithRegex "" false false) {},
    .run false (.publishMapping (.ofStrings ["a"])
      { bootstrapTime := 100, seqNo := 1, mapping := { name := .ofStrings ["x"] } }) {},
    .run true (.update [{ nodeId := .ofStrings ["a"], bootstrapTime := 100, low := 1, high := 1 }])
      {},
    .answer false ((examplePair.config true).pubSub.mappingProvider.getMappingQueryDataName
      { nodeId := .ofStrings ["a"], bootstrapTime := 100, low := 1, high := 1 })
      MappingProvider.signing,
    .fetch true 0 0 {}, .send false {}, .receive true 0 {}]

theorem mappings_are_published_exchange :
    let s := (Lib.run (step examplePair) (initial examplePair) exampleExchange).get
      (by decide +kernel)
    (s.nodes true).invoked.length = 3 ∧ ∀ invocation ∈ (s.nodes true).invoked, ∃ call,
      Subscriber.CalledFor (examplePair.config true) (Published exampleExchange)
        (s.happened true) call invocation := by
  have hadmits : ∀ e ∈ exampleExchange, Admits e := by
    intro e he
    simp only [exampleExchange, List.mem_cons, List.not_mem_nil, or_false] at he
    rcases he with rfl | rfl | rfl | rfl | rfl | rfl | rfl
    all_goals first | trivial | exact ⟨by decide, by decide, by decide⟩
  refine ⟨by decide +kernel, ?_⟩
  exact (mappings_are_published hadmits (Option.some_get _).symm true).2

end MappingGroup

end NdnSvs
