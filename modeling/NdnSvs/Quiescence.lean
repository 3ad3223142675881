import NdnSvs.Convergence
import NdnSvs.CoreRuns
import NdnSvs.CoreReceive

/-! A group after its last update.  A node whose timer fires sends its vector, or it has heard
vectors that together cover its own: once the timer of each node has fired and what was sent has
reached everybody, the vectors are equal. -/

namespace NdnSvs

open Lib Lib.Tlv Lib.Gossip

/-! ### Receivers with a later clock -/

theorem foldlM_of_step {α β : Type} {f f' : β → α → Result β}
    (h : ∀ b a b', f b a = .ok b' → f' b a = .ok b') (as : List α) {b b' : β}
    (hfold : as.foldlM f b = .ok b') : as.foldlM f' b = .ok b' := by
  induction as generalizing b with
  | nil => exact hfold
  | cons a as ih =>
    rw [List.foldlM_cons] at hfold ⊢
    obtain ⟨b₁, hb, hrest⟩ := bind_eq_ok.mp hfold
    exact bind_eq_ok.mpr ⟨b₁, h b a b₁ hb, ih hrest⟩

namespace VersionVector

variable {now now' : Nat}

theorem decodeSeqNoEntry_later (hle : now ≤ now') {nid : NodeID} {v v' : VersionVector} {b : Block}
    (h : decodeSeqNoEntry now nid v b = .ok v') : decodeSeqNoEntry now' nid v b = .ok v' := by
  unfold decodeSeqNoEntry at h ⊢
  obtain ⟨htype, h⟩ := require_bind_eq_ok.mp h
  obtain ⟨elements, helements, h⟩ := bind_eq_ok.mp h
  refine require_bind_eq_ok.mpr ⟨htype, bind_eq_ok.mpr ⟨elements, helements, ?_⟩⟩
  split at h
  · obtain ⟨htypes, h⟩ := require_bind_eq_ok.mp h
    obtain ⟨bootstrapTime, hbootstrap, h⟩ := bind_eq_ok.mp h
    obtain ⟨hnear, h⟩ := require_bind_eq_ok.mp h
    refine require_bind_eq_ok.mpr ⟨htypes, bind_eq_ok.mpr ⟨bootstrapTime, hbootstrap,
      require_bind_eq_ok.mpr ⟨?_, h⟩⟩⟩
    simp only [isBootstrapTimeTooFarInFuture, gt_iff_lt, decide_eq_true_eq, not_lt] at hnear ⊢
    omega
  · cases h

/-- What a receiver accepts, one with a later clock accepts. -/
theorem decode_later (hle : now ≤ now') {b : Block} {v : VersionVector}
    (h : decode now b = .ok v) : decode now' b = .ok v := by
  unfold decode at h ⊢
  obtain ⟨htype, h⟩ := require_bind_eq_ok.mp h
  obtain ⟨entries, hentries, h⟩ := bind_eq_ok.mp h
  refine require_bind_eq_ok.mpr ⟨htype, bind_eq_ok.mpr ⟨entries, hentries, ?_⟩⟩
  refine foldlM_of_step (fun v b v' hentry => ?_) entries h
  unfold decodeEntry at hentry ⊢
  obtain ⟨htype, hentry⟩ := require_bind_eq_ok.mp hentry
  obtain ⟨elements, helements, hentry⟩ := bind_eq_ok.mp hentry
  refine require_bind_eq_ok.mpr ⟨htype, bind_eq_ok.mpr ⟨elements, helements, ?_⟩⟩
  split at hentry
  · cases hentry
  · obtain ⟨hname, hentry⟩ := require_bind_eq_ok.mp hentry
    obtain ⟨nid, hnid, hentry⟩ := bind_eq_ok.mp hentry
    refine require_bind_eq_ok.mpr ⟨hname, bind_eq_ok.mpr ⟨nid, hnid, ?_⟩⟩
    exact foldlM_of_step (fun v b v' => decodeSeqNoEntry_later hle) _ hentry

end VersionVector

namespace SVSyncCore

variable {cfg : CoreConfig} {env env' : CoreInputs} {c c' : SVSyncCore} {other : VersionVector}
  {brought : Option Interest} {nid : NodeID} {b : BootstrapTime} {limit : SeqNo}

theorem decodesTo_later (hv : cfg.version = .v3) (hle : env.clock ≤ env'.clock)
    {interest : Interest} {v : VersionVector} (h : decodesTo cfg env interest v) :
    decodesTo cfg env' interest v := by
  obtain ⟨envelope, hdecode, hvector⟩ := h
  rw [hv] at hdecode
  obtain ⟨judged, vv, hjudged, hvv, rfl⟩ :=
    (SyncProtocolCodec.decode_two_steps env.clock).mp hdecode
  refine ⟨_, ?_, hvector⟩
  rw [hv]
  refine (SyncProtocolCodec.decode_two_steps env.clock).mpr ⟨judged, vv, hjudged, ?_, rfl⟩
  obtain ⟨data, stateBlock, blocks, hdata, hblocks, hvector⟩ :=
    SyncProtocolCodec.decodeStateVector_v3_ok hvv
  have htype := (require_bind_eq_ok.mp hvector).1
  simp only [SyncProtocolCodec.decodeStateVector, hdata]
  exact bind_eq_ok.mpr ⟨_, by rw [hblocks]; rfl,
    require_bind_eq_ok.mpr ⟨htype, VersionVector.decode_later hle hvector⟩⟩

/-! ### What has been heard -/

/-- What the core has recorded, and what it has got and not yet merged, has at most `limit` for the
entry. -/
structure Heard (cfg : CoreConfig) (nid : NodeID) (b : BootstrapTime) (limit : SeqNo)
    (c : SVSyncCore) : Prop where
  recorded : (c.recordedVv.getD {}).get nid b ≤ limit
  waits : ∀ interest, c.Waits interest → Claims cfg nid b limit interest

theorem heard_empty : Heard cfg nid b limit {} := by
  have h : Bounded cfg nid b limit {} := bounded_empty
  exact ⟨h.recorded, h.waits⟩

theorem Takes.heard (h : Takes cfg brought other c c') (hc : Heard cfg nid b limit c)
    (hbrought : ∀ interest, brought = some interest → Claims cfg nid b limit interest) :
    Heard cfg nid b limit c' := by
  have hclaims : ∀ interest, (c.Waits interest ∨ brought = some interest) →
      Claims cfg nid b limit interest := fun interest hi =>
        hi.elim (hc.waits interest) (hbrought interest)
  have hother : other.get nid b ≤ limit := by
    rcases h.source with rfl | hrecorded | ⟨env, interest, hdecodes, hi⟩
    · simp
    · have hle := hc.recorded
      rwa [hrecorded] at hle
    · exact hclaims interest hi env other hdecodes
  refine ⟨?_, fun interest hwaits => hclaims interest (h.waits interest hwaits)⟩
  cases hr : c'.recordedVv with
  | none => simp
  | some r => exact (h.recorded r hr nid b).trans (max_le hc.recorded hother)

theorem updateSeqNo_heard (hc : Heard cfg nid b limit c) (seq : SeqNo) (b' : BootstrapTime)
    (nid' : NodeID) : Heard cfg nid b limit (c.updateSeqNo cfg env seq b' nid').1 := by
  rcases updateSeqNo_cases cfg env c seq b' nid' with ⟨-, hsame⟩ | ⟨-, -, hemits⟩
  · rw [hsame]
    exact hc
  · refine ⟨?_, fun interest hwaits => hc.waits interest ?_⟩
    · rcases hemits.recorded with hkept | hdropped
      · rw [hkept]
        exact hc.recorded
      · rw [hdropped]
        simp
    · rw [Waits, hemits.validating, hemits.processing] at hwaits
      exact hwaits

/-! ### The timer -/

/-- The timer can send, from the Face thread, and the send does not fail. -/
def Sends (cfg : CoreConfig) (env : CoreInputs) (c : SVSyncCore) : Prop :=
  c.initialized ∧ ¬c.parallelSyncProduction ∧
    (({ c with retxEvent := none } : SVSyncCore).sendUnlessSuppressed cfg env).2.isOk
deriving Decidable

theorem sendSyncInterest_sent (hinitialized : c.initialized) (hserial : ¬c.parallelSyncProduction)
    (hok : (c.sendSyncInterest cfg env).2.isOk) :
    ∃ interest, (c.sendSyncInterest cfg env).1.sent = c.sent ++ [interest] := by
  rw [sendSyncInterest, if_neg (not_not.mpr hinitialized), if_pos hserial] at hok ⊢
  obtain ⟨interest, -, hsent, -⟩ := sendSyncInterestSerial_sends hinitialized hok
  exact ⟨interest, hsent⟩

/-- The timer sends one Interest, or what has been recorded covers the vector. -/
theorem retransmission_sends (h : Sends cfg env c) (hle : c.RecordedLE)
    (hstep : c.step cfg env .retransmission = some c') :
    (∃ interest, c'.sent = c.sent ++ [interest]) ∨ c.vv.LE (c.recordedVv.getD {}) := by
  obtain ⟨hinitialized, hserial, hok⟩ := h
  obtain ⟨-, rfl⟩ := step_retransmission.mp hstep
  have hle' : ({ c with retxEvent := none } : SVSyncCore).RecordedLE := hle
  have hsent : ∀ c₁ : SVSyncCore, c₁.initialized → ¬c₁.parallelSyncProduction → c₁.sent = c.sent →
      (c₁.sendSyncInterest cfg env).2.isOk →
      ∃ interest, (c₁.sendSyncInterest cfg env).1.sent = c.sent ++ [interest] :=
    fun c₁ hi hs hsame hok => hsame ▸ sendSyncInterest_sent hi hs hok
  rw [(retxSyncInterest_output cfg env { c with retxEvent := none } 0).2.1]
  rw [sendUnlessSuppressed_eq hle'] at hok ⊢
  cases hrecorded : c.recordedVv with
  | none =>
    simp only [hrecorded] at hok ⊢
    exact .inl (hsent _ hinitialized hserial rfl hok)
  | some r =>
    simp only [hrecorded] at hok ⊢
    cases hexceeds : exceeds c.vv r with
    | true =>
      simp only [hexceeds, if_true] at hok ⊢
      exact .inl (hsent _ hinitialized hserial rfl hok)
    | false =>
      refine .inr fun nid b => ?_
      rw [VersionVector.get]
      cases hentry : c.vv.entryAt nid b with
      | none => exact Nat.zero_le _
      | some s => exact exceeds_eq_false.mp hexceeds nid b s hentry

end SVSyncCore

namespace Lib.Gossip

/-- What a message is made from is in the past of some replica. -/
theorem Reachable.message_past {ι υ α : Type*} [DecidableEq ι] [DecidableEq υ] [SemilatticeSup α]
    [OrderBot α] {contribution : υ → α} {s : System ι υ α} (h : Reachable contribution s) :
    ∀ m ∈ s.messages, ∃ i, m.past ⊆ (s.replica i).past := by
  have hgrow : ∀ (s : System ι υ α) (i j : ι) (r : Replica υ α),
      (s.replica i).past ⊆ r.past → (s.replica j).past ⊆ ((s.set i r).replica j).past := by
    intro s i j r hr
    by_cases hj : j = i
    · subst hj
      rw [System.set_replica_self]
      exact hr
    · rw [System.set_replica_ne s r hj]
  induction h with
  | refl => exact fun m hm => hm.elim
  | tail _ hstep ih =>
    cases hstep with
    | update i u =>
      intro m hm
      obtain ⟨j, hj⟩ := ih m hm
      exact ⟨j, hj.trans (hgrow _ i j _ (Finset.subset_insert _ _))⟩
    | emit i =>
      intro m hm
      rcases Set.mem_insert_iff.mp hm with rfl | hm
      · exact ⟨i, Finset.Subset.refl _⟩
      · exact ih m hm
    | deliver i m' hm' =>
      intro m hm
      obtain ⟨j, hj⟩ := ih m hm
      exact ⟨j, hj.trans (hgrow _ i j _ Finset.subset_union_left)⟩

end Lib.Gossip

namespace Network

variable {ι : Type} [DecidableEq ι] {g : Group ι} {limit : BootstrapTime} {n n' : Network ι}
  {s : Gossip ι} {es : List (Event ι × CoreInputs)}

/-! ### What a group has heard -/

/-- What a node has recorded or not yet merged is no more than some message has. -/
def Overheard (g : Group ι) (n : Network ι) : Prop :=
  ∀ i nid b top, (∀ m ∈ n.messages, latest m.past nid b ≤ top) →
    SVSyncCore.Heard (g.config i) nid b top (n.core i)

omit [DecidableEq ι] in
/-- Whatever an emitted Interest decodes to, its vector is the one of its past. -/
theorem claims_message (hs : s.Accounted contribution) {interest : Interest} {past : Past ι}
    (h : Emitted g limit s interest past) (i : ι) {nid : NodeID} {b : BootstrapTime} {top : SeqNo}
    (htop : latest past nid b ≤ top) :
    SVSyncCore.Claims (g.config i) nid b top interest := by
  intro env other hdecodes
  have hclock : limit ≤ ({ env with clock := env.clock + limit } : CoreInputs).clock + 86400 :=
    (Nat.le_add_left limit env.clock).trans (Nat.le_add_right _ _)
  obtain ⟨other', hdecodes', -, hmem⟩ := h.decodesTo i hclock
  have hlater := @SVSyncCore.decodesTo_later _ _ { env with clock := env.clock + limit } rfl
    (Nat.le_add_right _ _) _ _ hdecodes
  obtain rfl := decodesTo_unique hlater hdecodes'
  have hvalue := congrFun (hs.message _ hmem) (nid, b)
  rw [sup_contribution] at hvalue
  exact hvalue.trans_le htop

/-- A step is an Interest that reaches a node, or an event of a node. -/
theorem step_cases {e : Event ι × CoreInputs} (hstep : n.step g e = some n') :
    ∃ i c' h' past, n' = n.commit i c' h' past ∧
      ((∃ index face m, e.1 = .deliver i index face ∧ n.messages[index]? = some m ∧
          c' = ((n.core i).onSyncInterest (g.config i) e.2
            { m.interest with incomingFaceId := face }).1 ∧
          h' = (n.history i).receive (n.core i) c' { m.interest with incomingFaceId := face }
            m.past ∧ past = h'.past) ∨
        ∃ event, e.1 = .run i event ∧ (n.core i).step (g.config i) e.2 event = some c' ∧
          historyAfter (g.config i) i (n.history i) (n.core i) c' event = some (h', past)) := by
  obtain ⟨event, env⟩ := e
  cases event with
  | deliver i index face =>
    simp only [step] at hstep
    split at hstep
    · cases hstep
    · rename_i m hm
      exact ⟨i, _, _, _, (Option.some.inj hstep).symm,
        .inl ⟨index, face, m, rfl, hm, rfl, rfl, rfl⟩⟩
  | run i event =>
    simp only [step] at hstep
    split at hstep
    · cases hstep
    · rename_i c' hcore
      split at hstep
      · cases hstep
      · rename_i h' past hafter
        exact ⟨i, c', h', past, (Option.some.inj hstep).symm, .inr ⟨event, rfl, hcore, hafter⟩⟩

omit [DecidableEq ι] in
theorem overheard_initial (g : Group ι) : Overheard g {} :=
  fun _ _ _ _ _ => SVSyncCore.heard_empty

/-- What a node hears came in a message. -/
theorem Overheard.step {e : Event ι × CoreInputs} (h : Overheard g n)
    (hreach : Reachable contribution s) (hn : Refines g limit n s)
    (hstep : n.step g e = some n') : Overheard g n' := by
  obtain ⟨i, c', h', past, rfl, hcase⟩ := step_cases hstep
  intro j nid b top htop
  have hmessages : ∀ m ∈ n.messages, latest m.past nid b ≤ top :=
    fun m hm => htop m (List.mem_append_left _ hm)
  have hold := h j nid b top hmessages
  by_cases hj : j = i
  · subst hj
    have hcore : (n.commit j c' h' past).core j = c' := Function.update_self ..
    rw [hcore]
    rcases hcase with ⟨index, face, m, -, hm, rfl, -, -⟩ | ⟨event, -, hevent, hafter⟩
    · have hmem := List.mem_of_getElem? hm
      obtain ⟨k, vv, sent, face', hcarries, hacc, heq, hmessage⟩ := hn.message m hmem
      have hemitted : Emitted g limit s { m.interest with incomingFaceId := face } m.past :=
        ⟨k, vv, sent, face, hcarries, hacc, by rw [heq], hmessage⟩
      obtain ⟨other, htakes⟩ := @SVSyncCore.onSyncInterest_takes (g.config j) e.2 (n.core j)
        (some { m.interest with incomingFaceId := face }) _ rfl
      refine htakes.heard hold fun interest hbrought => ?_
      obtain rfl := Option.some.inj hbrought
      exact claims_message hreach.accounted hemitted j (hmessages m hmem)
    · by_cases hupdate : ∃ seq b' nid', event = .updateSeqNo seq b' nid'
      · obtain ⟨seq, b', nid', rfl⟩ := hupdate
        obtain rfl := Option.some.inj hevent
        exact SVSyncCore.updateSeqNo_heard hold seq b' nid'
      · obtain ⟨other, htakes⟩ := SVSyncCore.step_takes (hn.node j).snapshot hevent
          fun seq b' nid' he => hupdate ⟨seq, b', nid', he⟩
        refine htakes.heard hold fun interest hbrought => ?_
        cases event with
        | interest interest => cases hafter
        | _ => cases hbrought
  · have hcore : (n.commit i c' h' past).core j = n.core j := Function.update_of_ne hj ..
    rw [hcore]
    exact hold

/-! ### After the last update -/

def Event.isUpdate : Event ι → Bool
  | .run _ (.updateSeqNo _ _ _) => true
  | _ => false

/-- The updates that a node knows of are in the set. -/
structure History.Within (known : Set (LocalUpdate ι)) (h : History ι) : Prop where
  past : ∀ u ∈ h.past, u ∈ known
  validating : ∀ e ∈ h.validating, ∀ u ∈ e.2, u ∈ known
  processing : ∀ e ∈ h.processing, ∀ u ∈ e.2, u ∈ known
  production : ∀ e ∈ h.production, ∀ u ∈ e.2, u ∈ known

/-- The updates that anybody knows of, or that are on their way, are in the set. -/
structure Within (known : Set (LocalUpdate ι)) (n : Network ι) : Prop where
  node : ∀ i, History.Within known (n.history i)
  message : ∀ m ∈ n.messages, ∀ u ∈ m.past, u ∈ known

variable {known : Set (LocalUpdate ι)} {h h' : History ι} {c c' : SVSyncCore} {past : Past ι}

omit [DecidableEq ι] in
theorem History.Within.settle (hh : History.Within known h) (c c' : SVSyncCore)
    (hpast : ∀ u ∈ past, u ∈ known) : History.Within known (h.settle c c' past) where
  past := hpast
  validating := hh.validating
  processing := hh.processing
  production := by
    intro e he
    rcases List.mem_append.mp he with hold | hnew
    · exact hh.production e hold
    · obtain ⟨job, -, rfl⟩ := List.mem_map.mp hnew
      exact hpast

omit [DecidableEq ι] in
theorem union_known [DecidableEq ι] {past' : Past ι} (hpast : ∀ u ∈ past, u ∈ known)
    (hpast' : ∀ u ∈ past', u ∈ known) : ∀ u ∈ past ∪ past', u ∈ known := fun u hu =>
  (Finset.mem_union.mp hu).elim (hpast u) (hpast' u)

omit [DecidableEq ι] in
theorem append_known {α : Type} {l : List (α × Past ι)} {x : α}
    (hl : ∀ e ∈ l, ∀ u ∈ e.2, u ∈ known) (hpast : ∀ u ∈ past, u ∈ known) :
    ∀ e ∈ l ++ [(x, past)], ∀ u ∈ e.2, u ∈ known := by
  intro e he
  rcases List.mem_append.mp he with hold | hnew
  · exact hl e hold
  · obtain rfl := List.mem_singleton.mp hnew
    exact hpast

theorem History.Within.receive (hh : History.Within known h) (c c' : SVSyncCore)
    (interest : Interest) (hpast : ∀ u ∈ past, u ∈ known) :
    History.Within known (h.receive c c' interest past) := by
  unfold History.receive
  split
  · exact { hh with validating := append_known hh.validating hpast }
  · split
    · exact hh.settle c c' (union_known hh.past hpast)
    · exact { hh with processing := append_known hh.processing hpast }

/-- A step other than an update makes nothing known that was not known before. -/
theorem History.Within.after {cfg : CoreConfig} {i : ι} {event : SVSyncCore.Event}
    (hh : History.Within known h) (hupdate : ∀ seq b nid, event ≠ .updateSeqNo seq b nid)
    (hafter : historyAfter cfg i h c c' event = some (h', past)) :
    History.Within known h' ∧ ∀ u ∈ past, u ∈ known := by
  cases event with
  | interest interest => cases hafter
  | verdict index accepted =>
    simp only [historyAfter] at hafter
    split at hafter
    · cases hafter
    · rename_i interest past₁ hindex
      have herased : History.Within known
          { h with validating := h.validating.eraseIdx index } :=
        { hh with validating := fun e he => hh.validating e (List.mem_of_mem_eraseIdx he) }
      obtain ⟨rfl, rfl⟩ := Prod.mk.inj (Option.some.inj hafter)
      split
      · have hreceived := herased.receive { c with validating := c.validating.eraseIdx index } c'
          interest (hh.validating _ (List.mem_of_getElem? hindex))
        exact ⟨hreceived, hreceived.past⟩
      · exact ⟨herased, hh.past⟩
  | processingResult index =>
    simp only [historyAfter] at hafter
    split at hafter
    · cases hafter
    · rename_i job past₁ hindex
      have herased : History.Within known
          { h with processing := h.processing.eraseIdx index } :=
        { hh with processing := fun e he => hh.processing e (List.mem_of_mem_eraseIdx he) }
      have hunion := union_known hh.past (hh.processing _ (List.mem_of_getElem? hindex))
      obtain ⟨rfl, rfl⟩ := Prod.mk.inj (Option.some.inj hafter)
      exact ⟨herased.settle c c' hunion, hunion⟩
  | productionResult index =>
    simp only [historyAfter] at hafter
    split at hafter
    · cases hafter
    · rename_i job past₁ hindex
      obtain ⟨rfl, rfl⟩ := Prod.mk.inj (Option.some.inj hafter)
      exact ⟨{ hh with production := fun e he => hh.production e (List.mem_of_mem_eraseIdx he) },
        hh.production _ (List.mem_of_getElem? hindex)⟩
  | updateSeqNo seq b nid => exact absurd rfl (hupdate seq b nid)
  | setParallelSyncProcessing enabled =>
    obtain ⟨rfl, rfl⟩ := Prod.mk.inj (Option.some.inj hafter)
    refine ⟨{ hh with processing := fun e he => ?_ }, hh.past⟩
    cases enabled with
    | true => exact hh.processing e he
    | false => cases he
  | setParallelSyncProduction enabled signInWorker buildExtraBlockInWorker =>
    obtain ⟨rfl, rfl⟩ := Prod.mk.inj (Option.some.inj hafter)
    refine ⟨{ hh with production := fun e he => ?_ }, hh.past⟩
    cases enabled with
    | true => exact hh.production e he
    | false => cases he
  | initialInterest | retransmission | publicationBatch | setMaxSuppressionTime
  | setSyncInterestBatching =>
    obtain ⟨rfl, rfl⟩ := Prod.mk.inj (Option.some.inj hafter)
    exact ⟨hh.settle c c' hh.past, hh.past⟩

omit [DecidableEq ι] in
theorem commit_history [DecidableEq ι] {P : History ι → Prop} {i : ι} (hh' : P h')
    (hn : ∀ j, P (n.history j)) (c' : SVSyncCore) (past : Past ι) (j : ι) :
    P ((n.commit i c' h' past).history j) := by
  by_cases hj : j = i
  · subst hj
    have hself : (n.commit j c' h' past).history j = h' := Function.update_self ..
    rw [hself]
    exact hh'
  · have hother : (n.commit i c' h' past).history j = n.history j := Function.update_of_ne hj ..
    rw [hother]
    exact hn j

theorem Within.step {e : Event ι × CoreInputs} (hn : Within known n) (he : ¬e.1.isUpdate)
    (hstep : n.step g e = some n') : Within known n' := by
  obtain ⟨i, c', h', past, rfl, hcase⟩ := step_cases hstep
  have hnew : History.Within known h' ∧ ∀ u ∈ past, u ∈ known := by
    rcases hcase with ⟨index, face, m, -, hm, rfl, rfl, rfl⟩ | ⟨event, hevent, -, hafter⟩
    · have hreceived := (hn.node i).receive (n.core i)
        ((n.core i).onSyncInterest (g.config i) e.2 { m.interest with incomingFaceId := face }).1
        { m.interest with incomingFaceId := face } (hn.message m (List.mem_of_getElem? hm))
      exact ⟨hreceived, hreceived.past⟩
    · refine (hn.node i).after (fun seq b nid hupdate => he ?_) hafter
      rw [hevent, hupdate]
      rfl
  refine ⟨commit_history hnew.1 hn.node c' past, fun m hm => ?_⟩
  rcases List.mem_append.mp hm with hold | hsent
  · exact hn.message m hold
  · obtain ⟨interest, -, rfl⟩ := List.mem_map.mp hsent
    exact hnew.2

theorem receive_past (h : History ι) (c c' : SVSyncCore) (interest : Interest) (past : Past ι) :
    h.past ⊆ (h.receive c c' interest past).past := by
  unfold History.receive
  split
  · exact Finset.Subset.refl _
  · split
    · exact Finset.subset_union_left
    · exact Finset.Subset.refl _

theorem historyAfter_past {cfg : CoreConfig} {i : ι} {event : SVSyncCore.Event}
    (hafter : historyAfter cfg i h c c' event = some (h', past)) : h.past ⊆ h'.past := by
  cases event with
  | interest interest => cases hafter
  | verdict index accepted =>
    simp only [historyAfter] at hafter
    split at hafter
    · cases hafter
    · obtain ⟨rfl, rfl⟩ := Prod.mk.inj (Option.some.inj hafter)
      split
      · exact receive_past { h with validating := h.validating.eraseIdx index } _ _ _ _
      · exact Finset.Subset.refl _
  | processingResult index =>
    simp only [historyAfter] at hafter
    split at hafter
    · cases hafter
    · obtain ⟨rfl, rfl⟩ := Prod.mk.inj (Option.some.inj hafter)
      exact Finset.subset_union_left
  | productionResult index =>
    simp only [historyAfter] at hafter
    split at hafter
    · cases hafter
    · obtain ⟨rfl, rfl⟩ := Prod.mk.inj (Option.some.inj hafter)
      exact Finset.Subset.refl _
  | updateSeqNo seq b nid =>
    obtain ⟨rfl, rfl⟩ := Prod.mk.inj (Option.some.inj hafter)
    simp only [History.settle, addUpdate]
    split
    · exact Finset.Subset.refl _
    · exact Finset.subset_insert _ _
  | initialInterest | retransmission | publicationBatch | setMaxSuppressionTime
  | setSyncInterestBatching | setParallelSyncProcessing | setParallelSyncProduction =>
    obtain ⟨rfl, rfl⟩ := Prod.mk.inj (Option.some.inj hafter)
    exact Finset.Subset.refl _

/-- Nothing that is known is forgotten, and messages stay on their way. -/
structure Grows (n n' : Network ι) : Prop where
  past : ∀ i, (n.history i).past ⊆ (n'.history i).past
  messages : n.messages ⊆ n'.messages

theorem step_grows {e : Event ι × CoreInputs} (hstep : n.step g e = some n') : Grows n n' := by
  obtain ⟨i, c', h', past, rfl, hcase⟩ := step_cases hstep
  refine ⟨fun j => ?_, List.subset_append_left _ _⟩
  by_cases hj : j = i
  · subst hj
    have hself : (n.commit j c' h' past).history j = h' := Function.update_self ..
    rw [hself]
    rcases hcase with ⟨index, face, m, -, hm, rfl, rfl, rfl⟩ | ⟨event, hevent, -, hafter⟩
    · exact receive_past _ _ _ _ _
    · exact historyAfter_past hafter
  · have hother : (n.commit i c' h' past).history j = n.history j := Function.update_of_ne hj ..
    rw [hother]

theorem run_grows (hrun : Lib.run (step g) n es = some n') : Grows n n' :=
  run_invariant (P := fun n' => Grows n n')
    (fun _ _ _ hstep h => ⟨fun i => (h.past i).trans ((step_grows hstep).past i),
      fun _ hm => (step_grows hstep).messages (h.messages hm)⟩)
    ⟨fun _ => Finset.Subset.refl _, fun _ hm => hm⟩ hrun

omit [DecidableEq ι] in
theorem latest_mono {past past' : Past ι} (h : past ⊆ past') (nid : NodeID) (b : BootstrapTime) :
    latest past nid b ≤ latest past' nid b :=
  Finset.sup_mono (Finset.filter_subset_filter _ h)

/-- What an admitted run of the group reaches. -/
structure Reached (g : Group ι) (limit : BootstrapTime) (n : Network ι) (s : Gossip ι) : Prop where
  reachable : Reachable contribution s
  refines : Refines g limit n s
  overheard : Overheard g n

theorem run_reached (hok : Along (step g) (Admits g limit) {} es)
    (hrun : Lib.run (step g) {} es = some n) : ∃ s, Reached g limit n s :=
  run_invariant_along (P := fun n => ∃ s, Reached g limit n s)
    (fun n e n' hstep hok ⟨s, hreach⟩ => by
      obtain ⟨s', hsteps, hn'⟩ := step_refines hreach.refines hok hstep
      exact ⟨s', Relation.ReflTransGen.trans hreach.reachable hsteps, hn',
        hreach.overheard.step hreach.reachable hreach.refines hstep⟩)
    ⟨_, .refl, refines_initial g limit, overheard_initial g⟩ hok hrun

/-- Each entry of a node is the largest number of the updates that the node knows of. -/
theorem Reached.get (h : Reached g limit n s) (i : ι) (nid : NodeID) (b : BootstrapTime) :
    (n.core i).vv.get nid b = latest (n.history i).past nid b := by
  have hvalue := h.reachable.accounted.replica i
  rw [(h.refines.node i).replica, Replica.Accounted] at hvalue
  have hvalue := congrFun hvalue (nid, b)
  rwa [sup_contribution] at hvalue

/-- All that is on its way is known to somebody. -/
theorem Reached.within (h : Reached g limit n s) :
    Within {u | ∃ i, u ∈ (n.history i).past} n := by
  have hmessage : ∀ past v, ⟨past, v⟩ ∈ s.messages →
      ∀ u ∈ past, ∃ i, u ∈ (n.history i).past := by
    intro past v hm u hu
    obtain ⟨i, hi⟩ := h.reachable.message_past _ hm
    have hu := hi hu
    rw [(h.refines.node i).replica] at hu
    exact ⟨i, hu⟩
  have hemitted : ∀ interest past, Emitted g limit s interest past →
      ∀ u ∈ past, ∃ i, u ∈ (n.history i).past := by
    rintro interest past ⟨j, vv, sent, face, -, -, -, hm⟩
    exact hmessage past _ hm
  refine ⟨fun i => ⟨fun u hu => ⟨i, hu⟩, fun e he => ?_, fun e he => ?_, fun e he => ?_⟩,
    fun m hm => ?_⟩
  · exact hemitted _ _ ((h.refines.node i).validating e he)
  · exact hemitted _ _ ((h.refines.node i).processing e he)
  · exact hmessage _ _ ((h.refines.node i).production e he).2
  · exact hemitted _ _ (h.refines.message m hm)

/-- In the run the timer of the node fires, and its send does not fail. -/
def Fires (g : Group ι) (n : Network ι) (es : List (Event ι × CoreInputs)) (i : ι) : Prop :=
  ∃ es₁ env es₂ n₁, es = es₁ ++ (.run i .retransmission, env) :: es₂ ∧
    Lib.run (step g) n es₁ = some n₁ ∧ SVSyncCore.Sends (g.config i) env (n₁.core i)

/-- The timer sends a message with all that the node knows, or the node has heard vectors that
cover its own. -/
theorem retransmission_covers {i : ι} {env : CoreInputs} (hreach : Reached g limit n s)
    (hsends : SVSyncCore.Sends (g.config i) env (n.core i))
    (hstep : n.step g (.run i .retransmission, env) = some n') :
    (∃ m ∈ n'.messages, m.past = (n.history i).past) ∨
      (n.core i).vv.LE ((n.core i).recordedVv.getD {}) := by
  obtain ⟨i', c', h', past, rfl, hcase⟩ := step_cases hstep
  rcases hcase with ⟨index, face, m, hevent, -⟩ | ⟨event, hevent, hcore, hafter⟩
  · cases hevent
  · obtain ⟨rfl, rfl⟩ := Event.run.inj hevent
    obtain ⟨rfl, rfl⟩ := Prod.mk.inj (Option.some.inj hafter)
    have hle : (n.core i).RecordedLE := fun r hr nid b =>
      ((hreach.refines.node i).recorded r hr).1 (nid, b)
    rcases SVSyncCore.retransmission_sends hsends hle hcore with ⟨interest, hsent⟩ | hcovered
    · refine .inl ⟨⟨interest, (n.history i).past⟩, List.mem_append_right _ ?_, rfl⟩
      rw [hsent, List.drop_left]
      exact List.mem_cons_self
    · exact .inr hcovered

/-- After the last update, the vectors of all nodes are equal once the timer of each node has fired
and each message has reached everybody; no update is missing in them. -/
theorem agree_after_last_update {es' : List (Event ι × CoreInputs)}
    (hok : Along (step g) (Admits g limit) {} (es ++ es'))
    (hrun : Lib.run (step g) {} es = some n) (hrun' : Lib.run (step g) n es' = some n')
    (hquiet : ∀ e ∈ es', ¬e.1.isUpdate) (hfires : ∀ i, Fires g n es' i)
    (hheard : ∀ m ∈ n'.messages, ∀ i, m.past ⊆ (n'.history i).past) (i j : ι) (nid : NodeID)
    (b : BootstrapTime) : (n'.core i).vv.get nid b = (n'.core j).vv.get nid b ∧
      (n.core j).vv.get nid b ≤ (n'.core i).vv.get nid b := by
  obtain ⟨hok₀, hok'⟩ := along_append.mp hok
  obtain ⟨s, hreach⟩ := run_reached hok₀ hrun
  obtain ⟨s', hreach'⟩ := run_reached hok (by rw [run_append, hrun]; exact hrun')
  -- What each node knew at the last update is known to every node in the end.
  have hknown : ∀ i k nid b,
      latest (n.history k).past nid b ≤ (n'.core i).vv.get nid b := by
    intro i k nid b
    rw [hreach'.get]
    have hmessages : ∀ m ∈ n'.messages, latest m.past nid b ≤ latest (n'.history i).past nid b :=
      fun m hm => latest_mono (hheard m hm i) nid b
    obtain ⟨es₁, env, es₂, n₁, rfl, hrun₁, hsends⟩ := hfires k
    obtain ⟨s₁, hreach₁⟩ : ∃ s₁, Reached g limit n₁ s₁ := by
      have hok₁ : Along (step g) (Admits g limit) {} (es ++ es₁) :=
        along_append.mpr ⟨hok₀, fun n hn => (along_append.mp (hok' n hn)).1⟩
      exact run_reached hok₁ (by rw [run_append, hrun]; exact hrun₁)
    rw [run_append, hrun₁, Option.bind_some, run_cons] at hrun'
    obtain ⟨n₂, hstep, hrest⟩ := Option.bind_eq_some_iff.mp hrun'
    have hgrows := run_grows hrest
    refine (latest_mono ((run_grows hrun₁).past k) nid b).trans ?_
    rcases retransmission_covers hreach₁ hsends hstep with ⟨m, hm, hpast⟩ | hcovered
    · rw [← hpast]
      exact hmessages m (hgrows.messages hm)
    · rw [← hreach₁.get]
      refine (hcovered nid b).trans (hreach₁.overheard k nid b _ fun m hm => ?_).recorded
      exact hmessages m (hgrows.messages ((step_grows hstep).messages hm))
  have hquiet' : Along (step g) (fun _ e => ¬e.1.isUpdate) n es' :=
    along_of_forall (fun e he _ => hquiet e he) n
  have hwithin : Within {u | ∃ i, u ∈ (n.history i).past} n' :=
    run_invariant_along (fun n e n' hstep he h => h.step he hstep) hreach.within hquiet' hrun'
  have hle : ∀ i j, (n'.core j).vv.get nid b ≤ (n'.core i).vv.get nid b := by
    intro i j
    rw [hreach'.get j]
    refine Finset.sup_le fun u hu => ?_
    obtain ⟨hpast, hentry⟩ := Finset.mem_filter.mp hu
    obtain ⟨k, hk⟩ := (hwithin.node j).past u hpast
    refine le_trans ?_ (hknown i k nid b)
    exact Finset.le_sup (f := fun u : LocalUpdate ι => u.seqNo) (Finset.mem_filter.mpr ⟨hk, hentry⟩)
  refine ⟨le_antisymm (hle j i) (hle i j), ?_⟩
  rw [hreach.get]
  exact hknown i j nid b

/-- One node publishes; its timer fires, its first Interest reaches the other node, and the other
timer fires. -/
def quietEvents : List (Event Bool × CoreInputs) :=
  [(.run false .retransmission, exampleInputs), (.deliver true 2 none, exampleInputs),
    (.run true .retransmission, exampleInputs)]

theorem agree_after_last_update_two_nodes :
    let es := [(Event.run false .initialInterest, exampleInputs),
      (.run true .initialInterest, exampleInputs),
      (.run false (.updateSeqNo 3 100 []), exampleInputs)]
    let n := (Lib.run (step exampleGroup) {} es).get (by decide +kernel)
    let n' := (Lib.run (step exampleGroup) n quietEvents).get (by decide +kernel)
    ∀ i j nid b, (n'.core i).vv.get nid b = (n'.core j).vv.get nid b ∧
      (n.core j).vv.get nid b ≤ (n'.core i).vv.get nid b := by
  intro es n n'
  let n₁ := (Lib.run (step exampleGroup) n (quietEvents.take 2)).get (by decide +kernel)
  have hrun : Lib.run (step exampleGroup) {} es = some n := (Option.some_get _).symm
  have hrun' : Lib.run (step exampleGroup) n quietEvents = some n' := (Option.some_get _).symm
  have hrun₁ : Lib.run (step exampleGroup) n (quietEvents.take 2) = some n₁ :=
    (Option.some_get _).symm
  have hok : Along (step exampleGroup) (Admits exampleGroup 100) {} (es ++ quietEvents) := by
    decide +kernel
  have hsends : SVSyncCore.Sends (exampleGroup.config false) exampleInputs (n.core false) := by
    decide +kernel
  have hsends₁ : SVSyncCore.Sends (exampleGroup.config true) exampleInputs (n₁.core true) := by
    decide +kernel
  have hheard : ∀ m ∈ n'.messages, ∀ i, m.past ⊆ (n'.history i).past := by decide +kernel
  clear_value n₁ n' n es
  have hfires : ∀ i, Fires exampleGroup n quietEvents i := by
    intro i
    cases i with
    | false => exact ⟨[], exampleInputs, quietEvents.drop 1, n, rfl, rfl, hsends⟩
    | true => exact ⟨quietEvents.take 2, exampleInputs, [], n₁, rfl, hrun₁, hsends₁⟩
  exact agree_after_last_update hok hrun hrun' (by decide) hfires hheard

end Network

end NdnSvs
