import NdnSvs.CoreVectors
import NdnSvs.PublishUpdates

/-! A group of nodes of the pub/sub layer.  A Sync Interest that a node has sent may reach any node,
in any order, any number of times or never.  Whatever any node has heard of, it can fetch from the
node that published it. -/

namespace NdnSvs

open Lib Lib.Tlv SVSyncCore

/-- The parameters that the nodes of a group share, and the options of each node. -/
structure PubSubGroup (ι : Type) where
  cxx : NdnCxx
  syncPrefix : Name
  /-- Encoding would replace a parameters digest in the prefix. -/
  plain : syncPrefix.hasParametersDigest = false
  node : ι → PubSubConfig
  bootstrapTime_lt : ∀ i, (node i).core.bootstrapTime < 2 ^ 64

def PubSubGroup.config {ι : Type} (g : PubSubGroup ι) (i : ι) : PubSubConfig :=
  { g.node i with
    core := { (g.node i).core with cxx := g.cxx, syncPrefix := g.syncPrefix, version := .v3 } }

namespace Publisher

variable {cfg : PubSubConfig} {own : List NodeID} {p p' : Publisher} {nid : NodeID}

/-- Every number up to the advertised one is published, with its mapping and its packets. -/
theorem Covered.available (h : Covered cfg own p) (hnid : nid ∈ own) {s : SeqNo} (hpos : 1 ≤ s)
    (hle : s ≤ p.advertised cfg nid) :
    (p.mappings[makeMappingKey nid cfg.core.bootstrapTime s]?).isSome ∧
      (∃ r ∈ p.returned, r.nodePrefix = nid ∧ r.seqNo = s) ∧
      ∀ r ∈ p.returned, r.nodePrefix = nid → r.seqNo = s → p.dataStore.Has r.packets := by
  obtain ⟨hmapping, r, hr, hkey⟩ := h.mapped nid hnid s hpos hle
  obtain ⟨hnode, hseq⟩ := Prod.mk.inj hkey
  refine ⟨hmapping, ⟨r, hr, hnode, hseq⟩, fun r hr hnode hseq =>
    (h.has r hr).resolve_left fun hpending => ?_⟩
  have hahead := (h.ahead _ _ hpending).2
  rw [hnode, hseq] at hahead
  exact absurd hle (Nat.not_le_of_lt hahead)

/-- An event of the core that assigns an entry. -/
def Event.assigns : Event → Bool
  | .core (.updateSeqNo _ _ _) => true
  | _ => false

/-- The Interest that an event brings. -/
def Event.brings : Event → Option Interest
  | .core event => event.brings
  | _ => none

end Publisher

namespace PubSubGroup

variable {ι : Type} [DecidableEq ι]

inductive Event (ι : Type)
  | deliver (receiver sender : ι) (index : Nat) (incomingFaceId : Option Nat)
      (inputs : Nat → PublishInputs)
  | run (node : ι) (o : Publisher.Occurrence)

/-- What happens at a node: no Interest comes from outside the group. -/
def occurrence (n : ι → Publisher) : Event ι → Option (ι × Publisher.Occurrence)
  | .deliver receiver sender index incomingFaceId inputs =>
    match (n sender).core.sent[index]? with
    | none => none
    | some interest =>
      some (receiver, ⟨.core (.interest { interest with incomingFaceId }), inputs⟩)
  | .run node o => if o.event.brings.isSome then none else some (node, o)

def step (g : PubSubGroup ι) (n : ι → Publisher) (e : Event ι) : Option (ι → Publisher) :=
  match occurrence n e with
  | none => none
  | some (i, o) =>
    match Publisher.step (g.config i) (n i) o with
    | none => none
    | some p => some (Function.update n i p)

/-- The nodes that a member publishes under in a run. -/
def publishedUnder (g : PubSubGroup ι) (i : ι) (es : List (Event ι)) : List NodeID :=
  es.filterMap fun
    | .run node o =>
      if node = i then o.event.nodePrefix?.map (Publisher.nodeOf (g.config i)) else none
    | .deliver _ _ _ _ _ => none

/-- Nothing but the publish calls assigns an entry, and each number is announced right after the one
before it. -/
def Admits (g : PubSubGroup ι) (n : ι → Publisher) : Event ι → Prop
  | .deliver _ _ _ _ _ => True
  | .run i o => o.event.assigns = false ∧ Publisher.Contiguous (g.config i) (n i) o

instance (g : PubSubGroup ι) (n : ι → Publisher) (e : Event ι) : Decidable (Admits g n e) := by
  cases e <;> unfold Admits <;> infer_instance

/-! ### What the members say of each other -/

variable {g : PubSubGroup ι} {own : ι → List NodeID} {n n' : ι → Publisher} {i : ι}
  {p' : Publisher}

/-- An entry that some receiver accepts, and that claims no more for a node of a member than the
member itself has. -/
def Said (g : PubSubGroup ι) (own : ι → List NodeID) (c : ι → SVSyncCore)
    (e : VersionVector.Entry) : Prop :=
  e.Acceptable (2 ^ 64) ∧ ∀ i, e.nid ∈ own i →
    e.bootstrapTime = (g.config i).core.bootstrapTime →
    e.seqNo ≤ (c i).vv.get e.nid (g.config i).core.bootstrapTime

omit [DecidableEq ι] in
theorem Said.mono {c c' : ι → SVSyncCore} {e : VersionVector.Entry} (h : Said g own c e)
    (hle : ∀ i nid b, (c i).vv.get nid b ≤ (c' i).vv.get nid b) : Said g own c' e :=
  ⟨h.1, fun i hi hb => (h.2 i hi hb).trans (hle i _ _)⟩

omit [DecidableEq ι] in
theorem readable (g : PubSubGroup ι) (own : ι → List NodeID) (c : ι → SVSyncCore) (i : ι) :
    Readable (g.config i).core (2 ^ 64) (Said g own c) := ⟨rfl, g.plain, fun _ he => he.1⟩

/-- The members publish under different nodes, or since different times. -/
def Apart (g : PubSubGroup ι) (own : ι → List NodeID) : Prop :=
  ∀ i j nid, nid ∈ own i → nid ∈ own j →
    (g.config i).core.bootstrapTime = (g.config j).core.bootstrapTime → i = j

theorem update_le {c : ι → SVSyncCore} {c₁ c₂ : SVSyncCore}
    (hle : ∀ nid b, c₁.vv.get nid b ≤ c₂.vv.get nid b) (j : ι) (nid : NodeID) (b : BootstrapTime) :
    (Function.update c i c₁ j).vv.get nid b ≤ (Function.update c i c₂ j).vv.get nid b := by
  by_cases hj : j = i
  · subst hj
    rw [Function.update_self, Function.update_self]
    exact hle nid b
  · rw [Function.update_of_ne hj, Function.update_of_ne hj]

/-- Whatever a member says of itself stays within what it has. -/
theorem entries_speaksOnce (hapart : Apart g own) {c : ι → SVSyncCore} {c₁ c₂ : SVSyncCore}
    (h : Entries (g.config i).core (Said g own (Function.update c i c₁)) c₁)
    (hspeaks : Publisher.SpeaksOnce (g.config i) (own i) c₁ c₂) :
    Entries (g.config i).core (Said g own (Function.update c i c₂)) c₂ := by
  have hle := update_le (c := c) (i := i) hspeaks.le
  obtain ⟨nid, hown, s, env, hnode, hlt, hs, rfl⟩ := hspeaks
  have hannounces := @Publisher.updated_announces (g.config i) nid env c₁ s (Nat.ne_zero_of_lt hlt)
  have hget := hannounces.get
  refine (h.mono fun e he => he.mono hle).assigned (readable g own _ i) ?_ hannounces.emits
  rw [hnode] at hget ⊢
  have hb : (g.config i).core.bootstrapTime < 2 ^ 64 := g.bootstrapTime_lt i
  refine ⟨⟨Nat.pos_of_ne_zero hannounces.pos, hs, hb, hb.le⟩, fun j hj hboot => ?_⟩
  obtain rfl := hapart i j nid hown hj hboot
  rw [Function.update_self, hget, if_pos ⟨rfl, rfl⟩]

theorem entries_speaks (hapart : Apart g own) {c : ι → SVSyncCore} {c₁ c₂ : SVSyncCore}
    (h : Entries (g.config i).core (Said g own (Function.update c i c₁)) c₁)
    (hspeaks : Publisher.Speaks (g.config i) (own i) c₁ c₂) :
    Entries (g.config i).core (Said g own (Function.update c i c₂)) c₂ ∧
      ∀ nid b, c₁.vv.get nid b ≤ c₂.vv.get nid b := by
  induction hspeaks with
  | refl => exact ⟨h, fun _ _ => le_rfl⟩
  | tail _ hlast ih =>
    exact ⟨entries_speaksOnce hapart ih.1 hlast,
      fun nid b => (ih.2 nid b).trans (hlast.le nid b)⟩

/-- The invariant of the group: each member keeps what it has announced, and no member claims more
for another one. -/
structure Agrees (g : PubSubGroup ι) (own : ι → List NodeID) (n : ι → Publisher) : Prop where
  covered : ∀ i, Publisher.Covered (g.config i) (own i) (n i)
  entries : ∀ i, Entries (g.config i).core (Said g own fun j => (n j).core) (n i).core

omit [DecidableEq ι] in
theorem agrees_initial (g : PubSubGroup ι) (own : ι → List NodeID) :
    Agrees g own fun _ => {} :=
  ⟨fun _ => Publisher.covered_empty, fun _ => entries_empty⟩

omit [DecidableEq ι] in
/-- An Interest that a member has sent claims no more for another one than that one has. -/
theorem Agrees.claims (h : Agrees g own n) {j : ι} {interest : Interest}
    (hsent : interest ∈ (n j).core.sent) (face : Option Nat) (i : ι) {nid : NodeID}
    (hnid : nid ∈ own i) : Claims (g.config i).core nid (g.config i).core.bootstrapTime
      ((n i).advertised (g.config i) nid) { interest with incomingFaceId := face } :=
  fun env other hdecodes => ((h.entries j).sent interest hsent env other hdecodes).get_le
    fun _ hs => hs.2 i hnid rfl

/-- A step of one member. -/
theorem Agrees.member (h : Agrees g own n) (hapart : Apart g own)
    (hown : ∀ i, ∀ nid ∈ own i, targetNode (g.config i).core nid = nid)
    {o : Publisher.Occurrence} (hassigns : o.event.assigns = false)
    (hbrings : ∀ interest, o.event.brings = some interest →
      ∃ j face sent, sent ∈ (n j).core.sent ∧ interest = { sent with incomingFaceId := face })
    (hcontiguous : Publisher.Contiguous (g.config i) (n i) o)
    (hunder : ∀ name, o.event.nodePrefix? = some name →
      Publisher.nodeOf (g.config i) name ∈ own i)
    (hstep : Publisher.step (g.config i) (n i) o = some p') :
    Agrees g own (Function.update n i p') := by
  have hcores : (fun j => (Function.update n i p' j).core) =
      Function.update (fun j => (n j).core) i p'.core :=
    funext fun j => Function.apply_update (fun _ (p : Publisher) => p.core) n i p' j
  have hself : Function.update (fun j => (n j).core) i (n i).core = fun j => (n j).core :=
    Function.update_eq_self i _
  have hmeets : Publisher.Meets (g.config i) (own i) (n i) o := by
    refine ⟨?_, hcontiguous, hunder⟩
    unfold Publisher.Modest
    split
    · rename_i interest he
      obtain ⟨j, face, sent, hsent, rfl⟩ := hbrings interest (by rw [he]; rfl)
      exact fun nid hnid => h.claims hsent face i hnid
    · rename_i he
      rw [he] at hassigns
      cases hassigns
    · trivial
  have hcovered := (h.covered i).step (hown i) hstep hmeets
  have hnext : Entries (g.config i).core (Said g own fun j => (Function.update n i p' j).core)
      p'.core ∧ ∀ nid b, (n i).core.vv.get nid b ≤ p'.core.vv.get nid b := by
    rw [hcores]
    by_cases hevent : ∃ event, o.event = .core event
    · obtain ⟨event, hevent⟩ := hevent
      obtain ⟨core, hcore, rfl⟩ := (Publisher.step_core hevent).mp hstep
      have hassign : ∀ seq b nid, event ≠ .updateSeqNo seq b nid := by
        rintro seq b nid rfl
        rw [hevent] at hassigns
        cases hassigns
      obtain ⟨other, htakes⟩ := step_takes (h.covered i).snapshots hcore hassign
      refine ⟨?_, htakes.le⟩
      have hold := h.entries i
      rw [← hself] at hold
      refine (step_entries (h.covered i).snapshots hold (readable g own _ i)
        (fun interest hbrought => ?_) (fun seq b nid he => absurd he (hassign seq b nid)) hcore).mono
        fun e he => he.mono (update_le htakes.le)
      obtain ⟨j, face, sent, hsent, rfl⟩ := hbrings interest (by rw [hevent]; exact hbrought)
      rw [hself]
      exact (h.entries j).sent sent hsent
    · have hspeaks := (h.covered i).step_speaks (hown i) hmeets hstep
        fun event he => hevent ⟨event, he⟩
      have hold := h.entries i
      rw [← hself] at hold
      exact entries_speaks hapart hold hspeaks
  have hle : ∀ j nid b, (n j).core.vv.get nid b ≤ (Function.update n i p' j).core.vv.get nid b := by
    intro j nid b
    by_cases hj : j = i
    · subst hj
      rw [Function.update_self]
      exact hnext.2 nid b
    · rw [Function.update_of_ne hj]
  refine ⟨fun j => ?_, fun j => ?_⟩
  · by_cases hj : j = i
    · subst hj
      rw [Function.update_self]
      exact hcovered
    · rw [Function.update_of_ne hj]
      exact h.covered j
  · by_cases hj : j = i
    · subst hj
      have hmember : Function.update n j p' j = p' := Function.update_self ..
      rw [hmember]
      exact hnext.1
    · have hmember : Function.update n i p' j = n j := Function.update_of_ne hj ..
      rw [hmember]
      exact (h.entries j).mono fun e he => he.mono hle

theorem Agrees.step (hapart : Apart g own)
    (hown : ∀ i, ∀ nid ∈ own i, targetNode (g.config i).core nid = nid) {e : Event ι}
    (hstep : step g n e = some n') (hok : Admits g n e)
    (hunder : ∀ i o name, e = .run i o → o.event.nodePrefix? = some name →
      Publisher.nodeOf (g.config i) name ∈ own i) (h : Agrees g own n) : Agrees g own n' := by
  simp only [PubSubGroup.step] at hstep
  split at hstep
  · cases hstep
  · rename_i i o hoccurrence
    split at hstep
    · cases hstep
    · rename_i p' hp'
      obtain rfl := Option.some.inj hstep
      cases e with
      | deliver receiver sender index face inputs =>
        simp only [occurrence] at hoccurrence
        split at hoccurrence
        · cases hoccurrence
        · rename_i interest hindex
          obtain ⟨rfl, rfl⟩ := Prod.mk.inj (Option.some.inj hoccurrence)
          have hcontiguous : Publisher.Contiguous (g.config receiver) (n receiver)
              ⟨.core (.interest { interest with incomingFaceId := face }), inputs⟩ := trivial
          refine h.member hapart hown rfl (fun interest' hbrings => ?_) hcontiguous
            (fun name hname => by cases hname) hp'
          obtain rfl := Option.some.inj hbrings
          exact ⟨sender, face, interest, List.mem_of_getElem? hindex, rfl⟩
      | run node o' =>
        simp only [occurrence] at hoccurrence
        split at hoccurrence
        · cases hoccurrence
        · rename_i hnone
          obtain ⟨rfl, rfl⟩ := Prod.mk.inj (Option.some.inj hoccurrence)
          refine h.member hapart hown hok.1 (fun interest hbrings => ?_) hok.2
            (fun name => hunder _ _ name rfl) hp'
          rw [hbrings] at hnone
          exact absurd rfl hnone

/-- A vector that is known in the group: the one of a member, or one that is on its way. -/
def Known (g : PubSubGroup ι) (n : ι → Publisher) (v : VersionVector) : Prop :=
  ∃ j, v = (n j).core.vv ∨
    ∃ interest ∈ (n j).core.sent, ∃ env, decodesTo (g.config j).core env interest v

omit [DecidableEq ι] in
theorem Agrees.known_le (h : Agrees g own n) {v : VersionVector} (hv : Known g n v) {nid : NodeID}
    (hnid : nid ∈ own i) : v.get nid (g.config i).core.bootstrapTime ≤
      (n i).advertised (g.config i) nid := by
  have hall : v.All (Said g own fun j => (n j).core) := by
    obtain ⟨j, rfl | ⟨interest, hsent, env, hdecodes⟩⟩ := hv
    · exact (h.entries j).vv
    · exact (h.entries j).sent interest hsent env v hdecodes
  exact hall.get_le fun _ hs => hs.2 i hnid rfl

theorem mem_publishedUnder {es : List (Event ι)} {o : Publisher.Occurrence} {name : Name}
    (hmem : .run i o ∈ es) (hname : o.event.nodePrefix? = some name) :
    Publisher.nodeOf (g.config i) name ∈ publishedUnder g i es := by
  refine List.mem_filterMap.mpr ⟨_, hmem, ?_⟩
  simp [hname]

variable (g) in
theorem targetNode_publishedUnder (es : List (Event ι)) (i : ι) :
    ∀ nid ∈ publishedUnder g i es, targetNode (g.config i).core nid = nid := by
  intro nid hnid
  obtain ⟨e, -, he⟩ := List.mem_filterMap.mp hnid
  cases e with
  | deliver receiver sender index face inputs => cases he
  | run node o =>
    simp only at he
    split at he
    · obtain ⟨name, -, rfl⟩ := Option.map_eq_some_iff.mp he
      exact Publisher.nodeOf_eq _ name
    · cases he

/-- Whatever a known vector has for a node of a member, the member has published: the mapping and
the packets of each number up to it are in the member's stores. -/
theorem known_numbers_are_available {es : List (Event ι)}
    (hapart : Apart g fun i => publishedUnder g i es)
    (hok : Along (step g) (Admits g) (fun _ => {}) es)
    (hrun : run (step g) (fun _ => {}) es = some n) {v : VersionVector} (hv : Known g n v) (i : ι) :
    ∀ nid ∈ publishedUnder g i es, ∀ s, 1 ≤ s →
      s ≤ v.get nid (g.config i).core.bootstrapTime →
      ((n i).mappings[makeMappingKey nid (g.config i).core.bootstrapTime s]?).isSome ∧
        (∃ r ∈ (n i).returned, r.nodePrefix = nid ∧ r.seqNo = s) ∧
        ∀ r ∈ (n i).returned, r.nodePrefix = nid → r.seqNo = s →
          (n i).dataStore.Has r.packets := by
  have hunder : Along (step g) (fun _ e => ∀ i o name, e = .run i o →
      o.event.nodePrefix? = some name →
      Publisher.nodeOf (g.config i) name ∈ publishedUnder g i es) (fun _ => {}) es :=
    along_of_forall (fun e he n i o name heq => mem_publishedUnder (heq ▸ he)) _
  have h : Agrees g (fun i => publishedUnder g i es) n := run_invariant_along
    (fun n e n' hstep hok h => h.step hapart (targetNode_publishedUnder g es) hstep hok.1 hok.2)
    (agrees_initial g _) (hok.and hunder) hrun
  intro nid hnid s hpos hle
  exact (h.covered i).available hnid hpos (hle.trans (h.known_le hv hnid))

theorem sampleConfig_bootstrapTime_lt : sampleConfig.core.bootstrapTime < 2 ^ 64 := by decide

theorem examplePrefix_plain : (Name.ofStrings ["g"]).hasParametersDigest = false := by decide

/-- Two members, /a and /b, that publish under their own names. -/
def exampleGroup : PubSubGroup Bool where
  cxx := packetFormat
  syncPrefix := Name.ofStrings ["g"]
  plain := examplePrefix_plain
  node i := { sampleConfig with
    core := { sampleConfig.core with id := Name.ofStrings [if i then "a" else "b"] } }
  bootstrapTime_lt _ := sampleConfig_bootstrapTime_lt

/-- /a publishes twice and /b once, and /b hears of both publications at once. -/
def exampleEvents : List (Event Bool) :=
  [.run true ⟨.core .initialInterest, Publisher.sampleInputs⟩,
    .run true ⟨.publishBytes (Name.ofStrings ["x"]) Publisher.sampleSpan [] 0 [],
      Publisher.sampleInputs⟩,
    .run true ⟨.publishNameAsync (Name.ofStrings ["y"]) [] 0 [], Publisher.sampleInputs⟩,
    .run false ⟨.publishName (Name.ofStrings ["z"]) [] [], Publisher.sampleInputs⟩,
    .run true ⟨.preparedPublication 0, Publisher.sampleInputs⟩,
    .deliver false true 2 (some 7) Publisher.sampleInputs]

theorem exampleGroup_apart :
    Apart exampleGroup fun i => publishedUnder exampleGroup i exampleEvents := by
  have hunder : ∀ i, ∀ nid ∈ publishedUnder exampleGroup i exampleEvents,
      nid = Name.ofStrings [if i then "a" else "b"] := by decide +kernel
  intro i j nid hi hj _
  have hsame := (hunder i nid hi).symm.trans (hunder j nid hj)
  revert hsame
  cases i <;> cases j <;> decide

theorem exampleEvents_run :
    (run (step exampleGroup) (fun _ => {}) exampleEvents).isSome = true := by
  decide +kernel

theorem known_numbers_are_available_two_members :
    let n := (run (step exampleGroup) (fun _ => {}) exampleEvents).get exampleEvents_run
    (n false).core.vv.get (Name.ofStrings ["a"]) 100 = 2 ∧
      ∀ s, 1 ≤ s → s ≤ (n false).core.vv.get (Name.ofStrings ["a"]) 100 →
        ((n true).mappings[makeMappingKey (Name.ofStrings ["a"]) 100 s]?).isSome := by
  let n := (run (step exampleGroup) (fun _ => {}) exampleEvents).get exampleEvents_run
  have hrun : run (step exampleGroup) (fun _ => {}) exampleEvents = some n :=
    (Option.some_get _).symm
  have hok : Along (step exampleGroup) (Admits exampleGroup) (fun _ => {}) exampleEvents := by
    decide +kernel
  refine ⟨by decide +kernel, fun s hpos hle => ?_⟩
  exact (known_numbers_are_available exampleGroup_apart hok hrun ⟨false, .inl rfl⟩ true _
    (by decide +kernel) s hpos hle).1

end PubSubGroup

end NdnSvs
