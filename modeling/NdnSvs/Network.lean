import NdnSvs.Lib.Gossip
import NdnSvs.Lib.Runs
import NdnSvs.CoreSteps

/-! A group of sync cores that exchange Sync Interests.  An emitted Interest may reach any node, in
any order, any number of times or never.  Beside each core the network keeps the local updates in
its causal past, which no handler reads. -/

namespace NdnSvs

open Lib Lib.Tlv

/-- The parameters that the nodes of a group share, and the options of each node. -/
structure Group (ι : Type) where
  cxx : NdnCxx
  syncPrefix : Name
  /-- Encoding would replace a parameters digest in the prefix. -/
  plain : syncPrefix.hasParametersDigest = false
  node : ι → CoreConfig

def Group.config {ι : Type} (g : Group ι) (i : ι) : CoreConfig :=
  { g.node i with cxx := g.cxx, syncPrefix := g.syncPrefix, version := .v3 }

/-- A call of `updateSeqNo` at a node. -/
structure LocalUpdate (ι : Type) where
  node : ι
  nid : NodeID
  bootstrapTime : BootstrapTime
  seqNo : SeqNo
deriving DecidableEq

abbrev Past (ι : Type) := Finset (LocalUpdate ι)

structure Message (ι : Type) where
  interest : Interest
  past : Past ι

/-- The causal past of a node, and of what waits in its queues. -/
structure History (ι : Type) where
  past : Past ι := ∅
  validating : List (Interest × Past ι) := []
  processing : List (SyncProcessingJob × Past ι) := []
  production : List (SyncProductionJob × Past ι) := []

structure Network (ι : Type) where
  core : ι → SVSyncCore := fun _ => {}
  history : ι → History ι := fun _ => {}
  messages : List (Message ι) := []

variable {ι : Type} [DecidableEq ι]

/-- The history after a step that left the node with `past`, which a new production job gets. -/
def History.settle (h : History ι) (c c' : SVSyncCore) (past : Past ι) : History ι :=
  { h with
    past
    production := h.production ++
      (c'.production.drop c.production.length).map fun job => (job, past) }

/-- The history after an Interest: it joins the past when its vector is merged, after any queue it
waits in. -/
def History.receive (h : History ι) (c c' : SVSyncCore) (interest : Interest) (past : Past ι) :
    History ι :=
  if c.validating.length < c'.validating.length then
    { h with validating := h.validating ++ [(interest, past)] }
  else
    match c'.processing.drop c.processing.length with
    | [] => h.settle c c' (h.past ∪ past)
    | job :: _ => { h with processing := h.processing ++ [(job, past)] }

namespace Network

inductive Event (ι : Type)
  | deliver (receiver : ι) (index : Nat) (incomingFaceId : Option Nat)
  | run (node : ι) (event : SVSyncCore.Event)

/-- The update that a call of `updateSeqNo` adds to a past, unless it throws. -/
def addUpdate (past : Past ι) (node : ι) (nid : NodeID) (b : BootstrapTime)
    (seq : SeqNo) : Past ι :=
  if seq = 0 then past else insert ⟨node, nid, b, seq⟩ past

/-- The history after a step of a core from `c` to `c'`, and the past of the Interests it sent. -/
def historyAfter (cfg : CoreConfig) (node : ι) (h : History ι) (c c' : SVSyncCore) :
    SVSyncCore.Event → Option (History ι × Past ι)
  | .interest _ => none
  | .verdict index accepted =>
    match h.validating[index]? with
    | none => none
    | some (interest, past) =>
      let h := { h with validating := h.validating.eraseIdx index }
      let c := { c with validating := c.validating.eraseIdx index }
      let h := if accepted then h.receive c c' interest past else h
      some (h, h.past)
  | .processingResult index =>
    match h.processing[index]? with
    | none => none
    | some (_, past) =>
      let h := { h with processing := h.processing.eraseIdx index }
      some (h.settle c c' (h.past ∪ past), h.past ∪ past)
  | .productionResult index =>
    match h.production[index]? with
    | none => none
    | some (_, past) => some ({ h with production := h.production.eraseIdx index }, past)
  | .updateSeqNo seq b nid =>
    let past := addUpdate h.past node (SVSyncCore.targetNode cfg nid) b seq
    some (h.settle c c' past, past)
  | .setParallelSyncProcessing enabled =>
    some ({ h with processing := if enabled then h.processing else [] }, h.past)
  | .setParallelSyncProduction enabled _ _ =>
    some ({ h with production := if enabled then h.production else [] }, h.past)
  | .initialInterest | .retransmission | .publicationBatch | .setMaxSuppressionTime _
  | .setSyncInterestBatching _ => some (h.settle c c' h.past, h.past)

/-- The network after a node's step; what the node has sent becomes messages with their past. -/
def commit (n : Network ι) (i : ι) (c' : SVSyncCore) (h' : History ι) (past : Past ι) :
    Network ι where
  core := Function.update n.core i c'
  history := Function.update n.history i h'
  messages := n.messages ++
    (c'.sent.drop (n.core i).sent.length).map fun interest => ⟨interest, past⟩

def step (g : Group ι) (n : Network ι) : Event ι × CoreInputs → Option (Network ι)
  | (.deliver i index incomingFaceId, env) =>
    match n.messages[index]? with
    | none => none
    | some m =>
      let interest := { m.interest with incomingFaceId }
      let c' := ((n.core i).onSyncInterest (g.config i) env interest).1
      let h' := (n.history i).receive (n.core i) c' interest m.past
      some (n.commit i c' h' h'.past)
  | (.run i event, env) =>
    match (n.core i).step (g.config i) env event with
    | none => none
    | some c' =>
      match historyAfter (g.config i) i (n.history i) (n.core i) c' event with
      | none => none
      | some (h', past) => some (n.commit i c' h' past)

/-- The updates do not lower an entry and their numbers fit 64 bits, and every receiver's clock is
at most one day behind every bootstrap time. -/
def Admits (g : Group ι) (limit : BootstrapTime) (n : Network ι) : Event ι × CoreInputs → Prop
  | (.deliver _ _ _, env) => limit ≤ env.clock + 86400
  | (.run _ (.verdict _ _), env) => limit ≤ env.clock + 86400
  | (.run _ (.processingResult _), env) => limit ≤ env.clock + 86400
  | (.run i (.updateSeqNo seq b nid), _) => seq = 0 ∨
    (n.core i).vv.get (SVSyncCore.targetNode (g.config i) nid) b ≤ seq ∧ seq < 2 ^ 64 ∧
      b < 2 ^ 64 ∧ b ≤ limit
  | _ => True

instance (g : Group ι) (limit : BootstrapTime) (n : Network ι) (e : Event ι × CoreInputs) :
    Decidable (Admits g limit n e) := by
  obtain ⟨event, env⟩ := e
  unfold Admits
  rcases event
  case run i event => rcases event <;> infer_instance
  all_goals infer_instance

end Network

end NdnSvs
