import NdnSvs.Deliveries
import NdnSvs.Unsubscribing

/-! The validator of encapsulated packets.  A packet that was fetched is handed to a subscription
after the verdict on it, and one that came along without any verdict: the callbacks get only packets
that the validator has accepted exactly when it has accepted those that come along. -/

namespace NdnSvs

open Lib Lib.Tlv Std

/-- The assembly was put together from the inner packets. -/
def InnerSegmentAssembly.ComesFrom (cxx : NdnCxx) (assembly : InnerSegmentAssembly)
    (packets : List Data) : Prop :=
  ∃ blocks, decodeInnerSegments cxx blocks = some assembly ∧
    blocks.map cxx.decodeData = packets.map some

/-- The callback gets an accepted packet, or a publication put together from accepted packets. -/
def Invocation.Vetted (cxx : NdnCxx) (accepted : List Data) (invocation : Invocation) : Prop :=
  match invocation.data.packet with
  | some packet => packet ∈ accepted ∧ invocation.data.data = packet.content
  | none => ∃ packets, InnerSegmentAssembly.ComesFrom cxx
      ⟨invocation.data.name, invocation.data.data⟩ packets ∧ ∀ packet ∈ packets, packet ∈ accepted

theorem Invocation.Vetted.mono {cxx : NdnCxx} {accepted accepted' : List Data}
    {invocation : Invocation} (h : invocation.Vetted cxx accepted)
    (hsubset : ∀ packet ∈ accepted, packet ∈ accepted') : invocation.Vetted cxx accepted' := by
  unfold Vetted at h ⊢
  split
  · rename_i packet heq
    rw [heq] at h
    exact ⟨hsubset packet h.1, h.2⟩
  · rename_i heq
    rw [heq] at h
    obtain ⟨packets, hcomes, hall⟩ := h
    exact ⟨packets, hcomes, fun packet hmem => hsubset packet (hall packet hmem)⟩

namespace Subscriber

open Program (Makes)

variable (cfg : SubscriberConfig) (env : SubscribeInputs)

/-- Every publication that a callback got has been accepted. -/
def Vetted (s : Subscriber) : Prop :=
  ∀ invocation ∈ s.invoked, invocation.hasPayload → invocation.Vetted cfg.pubSub.core.cxx s.accepted

/-- `t` has the verdicts of `s`, and what waits for one. -/
structure SameVerdicts (s t : Subscriber) : Prop where
  accepted : t.accepted = s.accepted
  validations : t.validations = s.validations
  assemblies : t.assemblies = s.assemblies

section SameVerdicts

variable {cfg env} {s : Subscriber}

theorem SameVerdicts.trans {t u : Subscriber} (h : SameVerdicts s t) (h' : SameVerdicts t u) :
    SameVerdicts s u :=
  ⟨h'.accepted.trans h.accepted, h'.validations.trans h.validations,
    h'.assemblies.trans h.assemblies⟩

/-- The calls other than those about verdicts leave them alone. -/
theorem Edit.sameVerdicts {call : Call} {s₀ t : Subscriber} (h : Edit cfg env call s₀ s t)
    (hcall : ¬call.Settles) (hvalidate : ∀ packet target, call ≠ .validate packet target) :
    SameVerdicts s t := by
  cases h with
  | delivered => rw [invokeAll_eq]; exact ⟨rfl, rfl, rfl⟩
  | divided => rw [invokeAll_eq]; exact ⟨rfl, rfl, rfl⟩
  | failed key =>
    obtain ⟨_, _, _, _, _, heq⟩ := @markPublicationFetchFailed_eq cfg env s key
    rw [heq]
    exact ⟨rfl, rfl, rfl⟩
  | observed key =>
    obtain ⟨_, _, heq⟩ := @observePublicationFetchSuccess_eq cfg env s key
    rw [heq]
    exact ⟨rfl, rfl, rfl⟩
  | repaired key =>
    obtain ⟨_, heq⟩ := @enqueueRepairPublication_eq cfg env s key
    rw [heq]
    exact ⟨rfl, rfl, rfl⟩
  | validated packet target heq => exact absurd heq (hvalidate packet target)
  | assembling publication assembly expected heq => exact absurd (heq ▸ trivial) hcall
  | counted index failed state heq => exact absurd (heq ▸ trivial) hcall
  | _ => exact ⟨rfl, rfl, rfl⟩

theorem sameVerdicts_act (s : Subscriber) {call : Call} (hcall : ¬call.Settles)
    (hvalidate : ∀ packet target, call ≠ .validate packet target) :
    SameVerdicts s (act cfg env call s).2 := by
  by_cases hmapping : call.IsMapping
  · obtain ⟨_, _, _, _, heq⟩ := mapping_act cfg env s hmapping
    rw [heq]
    exact ⟨rfl, rfl, rfl⟩
  · have hrun : ∀ t, Edits cfg env call s s t → SameVerdicts s t := by
      intro t hedits
      induction hedits with
      | refl => exact ⟨rfl, rfl, rfl⟩
      | tail _ hedit ih => exact ih.trans (hedit.sameVerdicts hcall hvalidate)
    exact hrun _ (edits_act hmapping s)

end SameVerdicts

/-! ### The verdicts on segments -/

/-- The segments of a publication that wait for a verdict. -/
def awaited (s : Subscriber) (index : Nat) : List Data :=
  (s.validations.filter fun validation => validation.target = .segment index).map Validation.packet

/-- The counters count the verdicts on the segments that the payload was put together from. -/
def Judged (cxx : NdnCxx) (accepted waiting : List Data) (state : ValidationState) : Prop :=
  ∃ packets judged : List Data,
    InnerSegmentAssembly.ComesFrom cxx ⟨state.name, state.payload⟩ packets ∧
      state.expected = packets.length ∧ state.completed = judged.length ∧
      packets.Perm (judged ++ waiting) ∧ (state.failed = 0 → ∀ packet ∈ judged, packet ∈ accepted)

/-- The segments of a publication that is not complete wait, or have been judged. -/
structure Fair (s : Subscriber) : Prop where
  judged : ∀ index state, s.assemblies[index]? = some state → state.terminal = false →
    Judged cfg.pubSub.core.cxx s.accepted (s.awaited index) state
  known : ∀ validation ∈ s.validations, ∀ index, validation.target = .segment index →
    index < s.assemblies.length

section Fair

variable {cfg env} {s t : Subscriber}

theorem Judged.mono {cxx : NdnCxx} {accepted accepted' waiting waiting' : List Data}
    {state : ValidationState} (h : Judged cxx accepted waiting state)
    (hsubset : ∀ packet ∈ accepted, packet ∈ accepted') (hperm : waiting.Perm waiting') :
    Judged cxx accepted' waiting' state := by
  obtain ⟨packets, judged, hcomes, hexpected, hcompleted, hsplit, hall⟩ := h
  exact ⟨packets, judged, hcomes, hexpected, hcompleted, hsplit.trans (hperm.append_left judged),
    fun hfailed packet hmem => hsubset packet (hall hfailed packet hmem)⟩

theorem Fair.same (h : Fair cfg s) (hsame : SameVerdicts s t) : Fair cfg t := by
  constructor
  · intro index state hstate hterminal
    rw [hsame.assemblies] at hstate
    rw [awaited, hsame.accepted, hsame.validations]
    exact h.judged index state hstate hterminal
  · rw [hsame.validations, hsame.assemblies]
    exact h.known

theorem awaited_append (s : Subscriber) (validations : List Validation) (index : Nat) :
    ({ s with validations := s.validations ++ validations } : Subscriber).awaited index =
      s.awaited index ++ ({ s with validations } : Subscriber).awaited index := by
  rw [awaited, List.filter_append, List.map_append]
  rfl

theorem fair_act (h : Fair cfg s) {call : Call} (hcall : ¬call.Settles) :
    Fair cfg (act cfg env call s).2 := by
  by_cases hvalidate : ∃ packet target, call = .validate packet target
  · obtain ⟨packet, target, rfl⟩ := hvalidate
    cases target with
    | segment index => exact absurd trivial hcall
    | publication key firstData =>
      constructor
      · intro index state hstate hterminal
        have hsame : (s.validate packet (.publication key firstData)).awaited index =
            s.awaited index := by
          rw [validate, awaited_append]
          simp [awaited]
        rw [act, hsame]
        exact h.judged index state hstate hterminal
      · intro validation hmem index htarget
        rcases List.mem_append.mp hmem with hmem | hmem
        · exact h.known validation hmem index htarget
        · obtain rfl := List.mem_singleton.mp hmem
          cases htarget
  · exact h.same (sameVerdicts_act s hcall fun packet target heq => hvalidate ⟨packet, target, heq⟩)

/-- The state when the handler of a verdict begins. -/
def judge (s : Subscriber) (i : Nat) (packet : Data) (ok : Bool) : Subscriber :=
  { s with
    validations := s.validations.eraseIdx i
    accepted := s.accepted ++ if ok then [packet] else [] }

theorem mem_judge (s : Subscriber) (i : Nat) (packet : Data) (ok : Bool) :
    ∀ p ∈ s.accepted, p ∈ (s.judge i packet ok).accepted :=
  fun _ hp => List.mem_append_left _ hp

/-- The validations that are left when the verdict on one of them has come. -/
theorem awaited_judge {i : Nat} {validation : Validation}
    (h : s.validations[i]? = some validation) (index : Nat) (ok : Bool) :
    (s.awaited index).Perm
      ((if validation.target = .segment index then [validation.packet] else []) ++
        (s.judge i validation.packet ok).awaited index) := by
  obtain ⟨hlt, rfl⟩ := List.getElem?_eq_some_iff.mp h
  have hperm := ((List.getElem_cons_eraseIdx_perm hlt).symm.filter fun validation =>
    decide (validation.target = .segment index)).map Validation.packet
  rw [List.filter_cons] at hperm
  split at hperm
  · rename_i htarget
    rw [if_pos (of_decide_eq_true htarget)]
    exact hperm
  · rename_i htarget
    rw [if_neg fun heq => htarget (decide_eq_true heq)]
    exact hperm

theorem invoked_returnData (s : Subscriber) (firstData innerData : Data) (key : PublicationKey) :
    ∃ new, (s.returnData firstData innerData key).invoked = s.invoked ++ new ∧
      ∀ invocation ∈ new, invocation.data.packet = some innerData ∧
        invocation.data.data = innerData.content := by
  unfold returnData
  split
  · exact ⟨[], (List.append_nil _).symm, fun _ hmem => absurd hmem List.not_mem_nil⟩
  · dsimp only
    rw [invokeAll_eq]
    split
    · refine ⟨_, rfl, fun invocation hmem => ?_⟩
      obtain ⟨sub, -, rfl⟩ := List.mem_map.mp hmem
      exact ⟨rfl, rfl⟩
    · refine ⟨_, rfl, fun invocation hmem => ?_⟩
      obtain ⟨sub, -, rfl⟩ := List.mem_map.mp hmem
      exact ⟨rfl, rfl⟩

theorem sameVerdicts_returnData (s : Subscriber) (firstData innerData : Data)
    (key : PublicationKey) : SameVerdicts s (s.returnData firstData innerData key) := by
  unfold returnData
  split
  · exact ⟨rfl, rfl, rfl⟩
  · dsimp only
    rw [invokeAll_eq]
    split
    · exact ⟨rfl, rfl, rfl⟩
    · exact ⟨rfl, rfl, rfl⟩

/-- New calls of callbacks that get accepted publications. -/
theorem Vetted.append (h : Vetted cfg s) {new : List Invocation}
    (hinvoked : t.invoked = s.invoked ++ new) (hsubset : ∀ packet ∈ s.accepted, packet ∈ t.accepted)
    (hnew : ∀ invocation ∈ new, invocation.hasPayload →
      invocation.Vetted cfg.pubSub.core.cxx t.accepted) : Vetted cfg t := by
  intro invocation hmem hpayload
  rw [hinvoked] at hmem
  rcases List.mem_append.mp hmem with hmem | hmem
  · exact (h invocation hmem hpayload).mono hsubset
  · exact hnew invocation hmem hpayload

theorem Vetted.same (h : Vetted cfg s) (hinvoked : t.invoked = s.invoked)
    (hsubset : ∀ packet ∈ s.accepted, packet ∈ t.accepted) : Vetted cfg t := by
  refine h.append ?_ hsubset fun _ hmem => absurd hmem List.not_mem_nil
  rw [hinvoked, List.append_nil]

/-- The state after the verdict on a segment. -/
theorem finishOne_eq {index : Nat} {state : ValidationState}
    (hstate : s.assemblies[index]? = some state) (hterminal : state.terminal = false)
    (failed : Bool) :
    ∃ new, (s.finishOne index failed).invoked = s.invoked ++ new ∧
      (s.finishOne index failed).accepted = s.accepted ∧
      (s.finishOne index failed).validations = s.validations ∧
      (s.finishOne index failed).assemblies = s.assemblies.set index (state.count failed) ∧
      ∀ invocation ∈ new, state.completed + 1 = state.expected ∧
        (state.count failed).failed = 0 ∧ invocation.data.packet = none ∧
          invocation.data.name = state.name ∧ invocation.data.data = state.payload := by
  rw [finishOne, hstate]
  dsimp only
  rw [if_neg (by rw [hterminal]; exact Bool.false_ne_true)]
  split
  · rename_i hlast
    rw [finishAssembly, invokeAll_eq]
    refine ⟨_, rfl, rfl, rfl, rfl, fun invocation hmem => ?_⟩
    obtain ⟨sub, hsub, rfl⟩ := List.mem_map.mp hmem
    split at hsub
    · rename_i hfailed
      exact ⟨of_decide_eq_true hlast, hfailed, rfl, rfl, rfl⟩
    · cases hsub
  · exact ⟨[], (List.append_nil _).symm, rfl, rfl, rfl,
      fun _ hmem => absurd hmem List.not_mem_nil⟩

/-- One more verdict. -/
theorem Judged.count {cxx : NdnCxx} {accepted waiting waiting' : List Data} {packet : Data}
    {state : ValidationState} (h : Judged cxx accepted waiting state)
    (hperm : waiting.Perm (packet :: waiting')) (ok : Bool) :
    Judged cxx (accepted ++ if ok then [packet] else []) waiting' (state.count (!ok)) := by
  obtain ⟨packets, judged, hcomes, hexpected, hcompleted, hsplit, hall⟩ := h
  refine ⟨packets, judged ++ [packet], hcomes, hexpected, ?_, ?_, fun hfailed p hp => ?_⟩
  · rw [List.length_append, ← hcompleted]
    rfl
  · rw [List.append_assoc]
    exact hsplit.trans (hperm.append_left judged)
  · obtain ⟨hfailed, hok⟩ := Nat.add_eq_zero_iff.mp hfailed
    rcases List.mem_append.mp hp with hp | hp
    · exact List.mem_append_left _ (hall hfailed p hp)
    · cases ok with
      | false => cases hok
      | true => exact List.mem_append_right _ hp

/-- The last verdict, when no segment has failed. -/
theorem Judged.complete {cxx : NdnCxx} {accepted waiting : List Data} {state : ValidationState}
    (h : Judged cxx accepted waiting state) (hlast : state.completed = state.expected)
    (hfailed : state.failed = 0) :
    ∃ packets, InnerSegmentAssembly.ComesFrom cxx ⟨state.name, state.payload⟩ packets ∧
      ∀ packet ∈ packets, packet ∈ accepted := by
  obtain ⟨packets, judged, hcomes, hexpected, hcompleted, hsplit, hall⟩ := h
  have hlength := hsplit.length_eq
  rw [List.length_append] at hlength
  obtain rfl : waiting = [] := List.eq_nil_of_length_eq_zero (by omega)
  rw [List.append_nil] at hsplit
  exact ⟨packets, hcomes, fun packet hmem => hall hfailed packet (hsplit.mem_iff.mp hmem)⟩

/-- A verdict changes nothing for the publications that it is not about. -/
theorem Fair.judge_other (h : Fair cfg s) {i index : Nat} {validation : Validation}
    (hvalidation : s.validations[i]? = some validation) (ok : Bool)
    (hother : validation.target ≠ .segment index) {state : ValidationState}
    (hstate : s.assemblies[index]? = some state) (hterminal : state.terminal = false) :
    Judged cfg.pubSub.core.cxx (s.judge i validation.packet ok).accepted
      ((s.judge i validation.packet ok).awaited index) state := by
  have hperm := awaited_judge hvalidation index ok
  rw [if_neg hother] at hperm
  exact (h.judged index state hstate hterminal).mono (mem_judge s i _ ok) hperm

theorem Fair.judge_known (h : Fair cfg s) (i : Nat) (packet : Data) (ok : Bool) :
    ∀ validation ∈ (s.judge i packet ok).validations, ∀ index,
      validation.target = .segment index → index < s.assemblies.length :=
  fun validation hmem => h.known validation (List.mem_of_mem_eraseIdx hmem)

/-- The verdict on a segment. -/
theorem fair_finishOne (h : Fair cfg s) {i index : Nat} {packet : Data}
    (hvalidation : s.validations[i]? = some ⟨packet, .segment index⟩) (ok : Bool) :
    Fair cfg ((s.judge i packet ok).finishOne index (!ok)) ∧
      (Vetted cfg s → Vetted cfg ((s.judge i packet ok).finishOne index (!ok))) := by
  have hindex : index < s.assemblies.length :=
    h.known _ (List.mem_of_getElem? hvalidation) index rfl
  obtain ⟨state, hstate⟩ : ∃ state, s.assemblies[index]? = some state :=
    ⟨_, List.getElem?_eq_getElem hindex⟩
  have hother : ∀ {other : Nat} {state' : ValidationState}, other ≠ index →
      s.assemblies[other]? = some state' → state'.terminal = false →
      Judged cfg.pubSub.core.cxx (s.judge i packet ok).accepted
        ((s.judge i packet ok).awaited other) state' := fun hne =>
    h.judge_other hvalidation ok fun heq => hne (ValidationTarget.segment.inj heq).symm
  cases hterminal : state.terminal with
  | true =>
    have heq : (s.judge i packet ok).finishOne index (!ok) = s.judge i packet ok := by
      rw [finishOne, show (s.judge i packet ok).assemblies[index]? = some state from hstate]
      dsimp only
      rw [if_pos hterminal]
    rw [heq]
    refine ⟨⟨fun other state' hstate' hterminal' => ?_, h.judge_known i packet ok⟩,
      fun hvetted => hvetted.same rfl (mem_judge s i packet ok)⟩
    refine hother (fun hsame => ?_) hstate' hterminal'
    subst hsame
    obtain rfl := Option.some.inj (hstate.symm.trans hstate')
    rw [hterminal] at hterminal'
    cases hterminal'
  | false =>
    obtain ⟨new, hinvoked, haccepted, hvalidations, hassemblies, hnew⟩ :=
      @finishOne_eq (s.judge i packet ok) index state hstate hterminal (!ok)
    have hperm := awaited_judge hvalidation index ok
    rw [if_pos rfl] at hperm
    have hcount := (h.judged index state hstate hterminal).count hperm ok
    refine ⟨⟨fun other state' hstate' hterminal' => ?_, ?_⟩, fun hvetted => ?_⟩
    · rw [hassemblies] at hstate'
      rw [awaited, haccepted, hvalidations]
      by_cases hne : other = index
      · subst hne
        rw [List.getElem?_set_self (by exact hindex)] at hstate'
        obtain rfl := Option.some.inj hstate'
        exact hcount
      · rw [List.getElem?_set_ne (Ne.symm hne)] at hstate'
        exact hother hne hstate' hterminal'
    · rw [hassemblies, hvalidations, List.length_set]
      exact h.judge_known i packet ok
    · refine hvetted.append hinvoked (by rw [haccepted]; exact mem_judge s i packet ok)
        fun invocation hmem _ => ?_
      obtain ⟨hlast, hfailed, hpacket, hname, hdata⟩ := hnew invocation hmem
      rw [Invocation.Vetted, hpacket]
      dsimp only
      rw [hname, hdata, haccepted]
      exact hcount.complete hlast hfailed

/-- The verdict on a packet that was fetched, before it is returned. -/
theorem fair_judge (h : Fair cfg s) {i : Nat} {packet firstData : Data} {key : PublicationKey}
    (hvalidation : s.validations[i]? = some ⟨packet, .publication key firstData⟩) (ok : Bool) :
    Fair cfg (s.judge i packet ok) ∧ (Vetted cfg s → Vetted cfg (s.judge i packet ok)) := by
  constructor
  · refine ⟨fun index state hstate hterminal => ?_, h.judge_known i packet ok⟩
    refine h.judge_other hvalidation ok (fun heq => ?_) hstate hterminal
    cases heq
  · exact fun hvetted => hvetted.same rfl (mem_judge s i packet ok)

/-- A packet that has been accepted is returned. -/
theorem fair_returnData (h : Fair cfg s) {innerData : Data} (haccepted : innerData ∈ s.accepted)
    (firstData : Data) (key : PublicationKey) :
    Fair cfg (s.returnData firstData innerData key) ∧
      (Vetted cfg s → Vetted cfg (s.returnData firstData innerData key)) := by
  have hsame := sameVerdicts_returnData s firstData innerData key
  refine ⟨h.same hsame, fun hvetted => ?_⟩
  obtain ⟨new, hinvoked, hnew⟩ := invoked_returnData s firstData innerData key
  refine hvetted.append hinvoked (by rw [hsame.accepted]; exact fun _ => id)
    fun invocation hmem _ => ?_
  obtain ⟨hpacket, hdata⟩ := hnew invocation hmem
  rw [Invocation.Vetted, hpacket]
  exact ⟨hsame.accepted ▸ haccepted, hdata⟩

theorem packets_of_decodeInnerSegments {cxx : NdnCxx} {blocks : List Block}
    {assembly : InnerSegmentAssembly} (h : decodeInnerSegments cxx blocks = some assembly) :
    ∃ packets : List Data, blocks.map cxx.decodeData = packets.map some := by
  obtain ⟨-, -, h⟩ := Option.bind_eq_some_iff.mp h
  obtain ⟨state, hfold, -⟩ := Option.bind_eq_some_iff.mp h
  obtain ⟨packets, hpackets, -⟩ := foldlM_add_some hfold
  exact ⟨packets, hpackets⟩

/-- With a validator each segment is handed to it. -/
theorem exec_validateSegments (hvalidator : cfg.encapsulatedDataValidator = true)
    (publication : PublicationKey) (index : Nat) {blocks : List Block} {packets : List Data}
    (hpackets : blocks.map cfg.pubSub.core.cxx.decodeData = packets.map some) (s : Subscriber) :
    (validateSegments cfg publication index blocks).exec (act cfg env) s = some ((), { s with
      validations := s.validations ++ packets.map fun packet => ⟨packet, .segment index⟩ }) := by
  induction blocks generalizing packets s with
  | nil =>
    obtain rfl := List.map_eq_nil_iff.mp hpackets.symm
    rw [List.map_nil, List.append_nil]
    rfl
  | cons block blocks ih =>
    cases packets with
    | nil => cases hpackets
    | cons packet packets =>
      obtain ⟨hpacket, hpackets⟩ := List.cons.inj hpackets
      rw [validateSegments, hpacket]
      dsimp only
      rw [validateSegment, if_pos hvalidator]
      refine (ih hpackets _).trans ?_
      rw [act, validate, List.map_cons, List.append_assoc]
      rfl

/-- The validations of the segments of one publication. -/
theorem awaited_segments (s : Subscriber) (packets : List Data) (i index : Nat) :
    ({ s with validations := packets.map fun packet => ⟨packet, .segment i⟩ } :
      Subscriber).awaited index = if i = index then packets else [] := by
  rw [awaited]
  by_cases heq : i = index
  · simp [heq, List.filter_map, Function.comp_def]
  · simp [heq, List.filter_map, Function.comp_def]

/-- The segments of a publication are all handed to the validator. -/
theorem fair_startValidation (h : Fair cfg s) (publication : PublicationKey)
    {assembly : InnerSegmentAssembly} {packets : List Data}
    (hcomes : assembly.ComesFrom cfg.pubSub.core.cxx packets) :
    Fair cfg { (s.startValidation publication assembly packets.length).2 with
      validations := s.validations ++ packets.map fun packet =>
        ⟨packet, .segment s.assemblies.length⟩ } := by
  have hawaited : ∀ index, ({ (s.startValidation publication assembly packets.length).2 with
      validations := s.validations ++ packets.map fun packet =>
        ⟨packet, .segment s.assemblies.length⟩ } : Subscriber).awaited index =
      s.awaited index ++ if s.assemblies.length = index then packets else [] := fun index => by
    rw [← awaited_segments s, ← awaited_append]
    rfl
  constructor
  · intro index state hstate hterminal
    rw [hawaited]
    rcases Nat.lt_trichotomy index s.assemblies.length with hlt | rfl | hlt
    · rw [if_neg (Nat.ne_of_gt hlt), List.append_nil]
      refine h.judged index state ?_ hterminal
      rw [← hstate]
      exact (List.getElem?_append_left hlt).symm
    · rw [if_pos rfl]
      -- nothing has been handed over for it before
      have hnone : s.awaited s.assemblies.length = [] := by
        rw [awaited, List.map_eq_nil_iff, List.filter_eq_nil_iff]
        intro validation hmem htarget
        exact absurd (h.known validation hmem _ (of_decide_eq_true htarget)) (Nat.lt_irrefl _)
      obtain rfl := Option.some.inj ((List.getElem?_concat_length ..).symm.trans hstate)
      rw [hnone, List.nil_append]
      exact ⟨packets, [], hcomes, rfl, rfl, .refl _,
        fun _ _ hmem => absurd hmem List.not_mem_nil⟩
    · have hnone : (s.startValidation publication assembly packets.length).2.assemblies[index]? =
          none := List.getElem?_eq_none (by simpa [startValidation] using Nat.succ_le_of_lt hlt)
      cases hstate.symm.trans hnone
  · intro validation hmem index htarget
    refine Nat.lt_of_lt_of_le ?_ (Nat.le_of_eq (List.length_append).symm)
    rcases List.mem_append.mp hmem with hmem | hmem
    · exact Nat.lt_succ_of_lt (h.known validation hmem index htarget)
    · obtain ⟨packet, -, rfl⟩ := List.mem_map.mp hmem
      obtain rfl := ValidationTarget.segment.inj htarget
      exact Nat.lt_succ_self _

theorem fair_onSegments (hvalidator : cfg.encapsulatedDataValidator = true) (h : Fair cfg s)
    (publication : PublicationKey) (content : Option Bytes)
    (hexec : (onSegments cfg publication content).exec (act cfg env) s = some ((), t)) :
    Fair cfg t ∧ t.invoked = s.invoked ∧ t.accepted = s.accepted := by
  have hclean : ∀ {t : Subscriber}, (perform (.cleanUpFetch publication)).exec (act cfg env) s =
      some ((), t) → Fair cfg t ∧ t.invoked = s.invoked ∧ t.accepted = s.accepted := by
    intro t hexec
    obtain ⟨-, rfl⟩ := Prod.mk.inj (Option.some.inj hexec)
    exact ⟨h.same ⟨rfl, rfl, rfl⟩, rfl, rfl⟩
  unfold onSegments at hexec
  split at hexec
  · exact hclean hexec
  · rename_i blocks hblocks
    split at hexec
    · exact hclean hexec
    · rename_i assembly hassembly
      obtain ⟨packets, hpackets⟩ := packets_of_decodeInnerSegments hassembly
      have hlength : blocks.length = packets.length := by
        simpa using congrArg List.length hpackets
      have heq := (exec_validateSegments hvalidator publication s.assemblies.length hpackets
        (s.startValidation publication assembly blocks.length).2).symm.trans hexec
      obtain ⟨-, rfl⟩ := Prod.mk.inj (Option.some.inj heq)
      rw [hlength]
      exact ⟨fair_startValidation h publication ⟨blocks, hassembly, hpackets⟩, rfl, rfl⟩

theorem beginStep_verdict {begun : Subscriber} {i : Nat} {ok : Bool} {handler : Handler Unit}
    (h : beginStep cfg s (.verdict i ok, env) = some (begun, handler)) :
    ∃ validation, s.validations[i]? = some validation ∧
      begun = judge { s with steadyNow := env.steadyNow } i validation.packet ok ∧
      handler = onVerdict validation ok := by
  obtain ⟨validation, hvalidation, h⟩ := Option.map_eq_some_iff.mp h
  obtain ⟨rfl, rfl⟩ := Prod.mk.inj h
  exact ⟨validation, hvalidation, rfl, rfl⟩

/-- Only a verdict changes the verdicts before its handler runs. -/
theorem sameVerdicts_beginStep {begun : Subscriber} {e : SubscriberEvent × SubscribeInputs}
    {handler : Handler Unit} (hverdict : ∀ i ok, e.1 ≠ .verdict i ok)
    (h : beginStep cfg s e = some (begun, handler)) :
    SameVerdicts s begun ∧ begun.invoked = s.invoked := by
  rcases beginStep_cases h with hsubscribes | ⟨_, _, _, _, _, _, _, rfl, -, -, -, -, hverdicts⟩
  · cases hsubscribes with
    | _ => exact ⟨⟨rfl, rfl, rfl⟩, rfl⟩
  · rcases hverdicts with ⟨rfl, rfl⟩ | ⟨i, ok, heq⟩
    · exact ⟨⟨rfl, rfl, rfl⟩, rfl⟩
    · exact absurd heq (hverdict i ok)

/-- The steps that hand packets on whose verdicts have come, and those that ask for verdicts on
segments, hand out what has been accepted. -/
theorem settles_step (hvalidator : cfg.encapsulatedDataValidator = true) (h : Fair cfg s)
    {e : SubscriberEvent × SubscribeInputs} (hsettles : e.1.Settles cfg)
    (hstep : step cfg s e = some t) : Fair cfg t ∧ (Vetted cfg s → Vetted cfg t) := by
  obtain ⟨-, begun, handler, hbegin, hexec⟩ := step_eq_some hstep
  obtain ⟨e, env⟩ := e
  cases e with
  | verdict i ok =>
    obtain ⟨⟨packet, target⟩, hvalidation, rfl, rfl⟩ := beginStep_verdict hbegin
    have hclock : Fair cfg { s with steadyNow := env.steadyNow } := h.same ⟨rfl, rfl, rfl⟩
    cases target with
    | segment index =>
      obtain ⟨-, rfl⟩ := Prod.mk.inj (Option.some.inj hexec)
      exact fair_finishOne hclock hvalidation ok
    | publication key firstData =>
      have hjudge := fair_judge hclock hvalidation ok
      cases ok with
      | true =>
        obtain ⟨-, rfl⟩ := Prod.mk.inj (Option.some.inj hexec)
        have hreturn := fair_returnData hjudge.1
          (List.mem_append_right _ (List.mem_singleton.mpr rfl)) firstData key
        exact ⟨hreturn.1, fun hvetted => hreturn.2 (hjudge.2 hvetted)⟩
      | false =>
        obtain ⟨-, rfl⟩ := Prod.mk.inj (Option.some.inj hexec)
        exact ⟨hjudge.1.same ⟨rfl, rfl, rfl⟩, hjudge.2⟩
  | segments index content =>
    obtain ⟨hsame, hinvoked⟩ := sameVerdicts_beginStep (fun _ _ heq => by cases heq) hbegin
    obtain ⟨publication, -, hbegin⟩ := Option.map_eq_some_iff.mp hbegin
    obtain ⟨-, rfl⟩ := Prod.mk.inj hbegin
    obtain ⟨hfair, hcalls, haccepted⟩ := fair_onSegments hvalidator (h.same hsame) publication
      content hexec
    refine ⟨hfair, fun hvetted => hvetted.same (hcalls.trans hinvoked) ?_⟩
    rw [haccepted, hsame.accepted]
    exact fun _ => id
  | dataFetcher event =>
    rw [SubscriberEvent.Settles, hvalidator] at hsettles
    cases hsettles
  | _ => exact hsettles.elim

/-- The other steps settle nothing. -/
theorem makes_unsettled {begun : Subscriber} {e : SubscriberEvent × SubscribeInputs}
    {handler : Handler Unit} (hsettles : ¬e.1.Settles cfg)
    (hbegin : beginStep cfg s e = some (begun, handler)) :
    Makes (fun call => ¬call.Settles) handler :=
  makes_beginStep (fun _ _ _ hcall => hcall) (fun _ _ => id) cfg
    (fun _ _ hqueries hcall => hcall.not_queries hqueries)
    (fun h => absurd h hsettles) (fun _ _ _ _ => ⟨fun _ _ => id, fun _ _ _ _ => id⟩) hbegin

end Fair

/-! ### What the callbacks get -/

/-- The packet that the call hands out has been accepted. -/
def Accepts (s : Subscriber) (call : Call) : Prop :=
  ∀ packet ∈ handedOut cfg env s call, packet ∈ s.accepted

instance (s : Subscriber) (call : Call) : Decidable (Accepts cfg env s call) := by
  unfold Accepts
  infer_instance

/-- The packets that came along and that the step hands out have been accepted, unless the step
never ends. -/
def StepAccepts (s : Subscriber) (e : SubscriberEvent × SubscribeInputs) : Prop :=
  (step cfg s e).isSome → CallsAlong cfg (Accepts cfg e.2) s e

instance (s : Subscriber) (e : SubscriberEvent × SubscribeInputs) :
    Decidable (StepAccepts cfg s e) := by
  unfold StepAccepts
  infer_instance

section Vetted

variable {cfg env} {s t : Subscriber}

/-- A call takes no verdict back, and no call of a callback. -/
theorem grows_act (s : Subscriber) (call : Call) :
    (act cfg env call s).2.accepted = s.accepted ∧
      ∃ new, (act cfg env call s).2.invoked = s.invoked ++ new := by
  by_cases hcall : call.Settles
  · cases call with
    | returnData firstData innerData key =>
      obtain ⟨new, hinvoked, -⟩ := invoked_returnData s firstData innerData key
      exact ⟨(sameVerdicts_returnData s firstData innerData key).accepted, new, hinvoked⟩
    | startValidation publication assembly expected =>
      exact ⟨rfl, [], (List.append_nil _).symm⟩
    | validate packet target => exact ⟨rfl, [], (List.append_nil _).symm⟩
    | finishOne index failed =>
      have hsame : s.finishOne index failed = s → (s.finishOne index failed).accepted = s.accepted ∧
          ∃ new, (s.finishOne index failed).invoked = s.invoked ++ new := by
        intro heq
        rw [heq]
        exact ⟨rfl, [], (List.append_nil _).symm⟩
      cases hstate : s.assemblies[index]? with
      | none => exact hsame (by rw [finishOne, hstate])
      | some state =>
        cases hterminal : state.terminal with
        | true => exact hsame (by rw [finishOne, hstate]; exact if_pos hterminal)
        | false =>
          obtain ⟨new, hinvoked, haccepted, -⟩ := finishOne_eq hstate hterminal failed
          exact ⟨haccepted, new, hinvoked⟩
    | _ => exact hcall.elim
  · obtain ⟨new, hinvoked, -⟩ := @brings_act cfg env s call hcall
    refine ⟨?_, new, hinvoked⟩
    by_cases hvalidate : ∃ packet target, call = .validate packet target
    · obtain ⟨packet, target, rfl⟩ := hvalidate
      rfl
    · exact (sameVerdicts_act s hcall fun packet target heq =>
        hvalidate ⟨packet, target, heq⟩).accepted

theorem vetted_act (h : Vetted cfg s) {call : Call} (hcall : ¬call.Settles)
    (haccepts : Accepts cfg env s call) : Vetted cfg (act cfg env call s).2 := by
  obtain ⟨haccepted, -⟩ := @grows_act cfg env s call
  obtain ⟨new, hinvoked, hbrings⟩ := @brings_act cfg env s call hcall
  refine h.append hinvoked (by rw [haccepted]; exact fun _ => id) fun invocation hmem hpayload => ?_
  obtain ⟨packet, hpacket, hget, hdata⟩ := hbrings.only invocation hmem hpayload
  rw [Invocation.Vetted, hget]
  exact ⟨haccepted ▸ haccepts packet hpacket, hdata⟩

/-- A packet that was handed out without having been accepted stays among what the callbacks
got. -/
theorem accepts_of_vetted {call : Call} (h : Vetted cfg (act cfg env call s).2) :
    Vetted cfg s ∧ Accepts cfg env s call := by
  obtain ⟨haccepted, new, hinvoked⟩ := @grows_act cfg env s call
  rw [Vetted, haccepted, hinvoked] at h
  refine ⟨fun invocation hmem => h invocation (List.mem_append_left _ hmem), ?_⟩
  intro packet hpacket
  by_cases hcall : call.Settles
  · cases call with
    | returnData firstData innerData key => cases hpacket
    | startValidation publication assembly expected => cases hpacket
    | validate p target => cases hpacket
    | finishOne index failed => cases hpacket
    | _ => exact hcall.elim
  · obtain ⟨new', hinvoked', hbrings⟩ := @brings_act cfg env s call hcall
    obtain rfl := List.append_cancel_left (hinvoked.symm.trans hinvoked')
    obtain ⟨invocation, hmem, hpayload, hget⟩ := hbrings.given packet hpacket
    have hvetted := h invocation (List.mem_append_right _ hmem) hpayload
    rw [Invocation.Vetted, hget] at hvetted
    exact hvetted.1

theorem fair_step (hvalidator : cfg.encapsulatedDataValidator = true)
    {e : SubscriberEvent × SubscribeInputs} (hstep : step cfg s e = some t) (h : Fair cfg s) :
    Fair cfg t := by
  by_cases hsettles : e.1.Settles cfg
  · exact (settles_step hvalidator h hsettles hstep).1
  · obtain ⟨-, begun, handler, hbegin, hexec⟩ := step_eq_some hstep
    have hverdict : ∀ i ok, e.1 ≠ .verdict i ok := fun i ok heq => hsettles (heq ▸ trivial)
    have hkeep : ∀ (s : Subscriber) (call : Call), ¬call.Settles → Fair cfg s →
        Fair cfg (act cfg e.2 call s).2 := fun s call hcall hs => fair_act hs hcall
    exact Program.exec_invariant hkeep (h.same (sameVerdicts_beginStep hverdict hbegin).1)
      ((makes_unsettled hsettles hbegin).along (fun _ _ hcall => hcall) begun) hexec

/-- A step keeps what the callbacks got vetted exactly when it hands out accepted packets. -/
theorem vetted_step_iff (hvalidator : cfg.encapsulatedDataValidator = true)
    {e : SubscriberEvent × SubscribeInputs} (hstep : step cfg s e = some t) (h : Fair cfg s)
    (hvetted : Vetted cfg s) : Vetted cfg t ↔ StepAccepts cfg s e := by
  obtain ⟨-, begun, handler, hbegin, hexec⟩ := step_eq_some hstep
  have hcalls : CallsAlong cfg (Accepts cfg e.2) s e ↔
      handler.Along (act cfg e.2) (Accepts cfg e.2) begun := by
    rw [CallsAlong, hbegin]
  rw [StepAccepts, hstep, hcalls]
  constructor
  · have hback : ∀ (s : Subscriber) (call : Call), Vetted cfg (act cfg e.2 call s).2 →
        Vetted cfg s ∧ Accepts cfg e.2 s call := fun _ _ => accepts_of_vetted
    exact fun ht _ => (Program.along_of_exec hback hexec ht).2
  · intro haccepts
    by_cases hsettles : e.1.Settles cfg
    · exact (settles_step hvalidator h hsettles hstep).2 hvetted
    · have hverdict : ∀ i ok, e.1 ≠ .verdict i ok := fun i ok heq => hsettles (heq ▸ trivial)
      obtain ⟨hsame, hinvoked⟩ := sameVerdicts_beginStep hverdict hbegin
      have hkeep : ∀ (s : Subscriber) (call : Call), ¬call.Settles ∧ Accepts cfg e.2 s call →
          Vetted cfg s → Vetted cfg (act cfg e.2 call s).2 :=
        fun s call hok hs => vetted_act hs hok.1 hok.2
      have hunsettled : handler.Along (act cfg e.2) (fun _ call => ¬call.Settles) begun :=
        (makes_unsettled hsettles hbegin).along (fun _ _ hcall => hcall) begun
      exact Program.exec_invariant hkeep
        (hvetted.same hinvoked (by rw [hsame.accepted]; exact fun _ => id))
        (hunsettled.and (haccepts rfl)) hexec

/-- The callbacks get only what the validator has accepted in the runs that hand out no packet that
came along before it has accepted it, and in no others. -/
theorem vetted_iff_accepts (hvalidator : cfg.encapsulatedDataValidator = true)
    (es : List (SubscriberEvent × SubscribeInputs)) :
    Throughout (step cfg) (Vetted cfg) (initial cfg) es ↔
      Along (step cfg) (StepAccepts cfg) (initial cfg) es := by
  have hfair : Fair cfg (initial cfg) :=
    ⟨fun index state hstate => by simp [initial] at hstate, fun _ hmem => by simp [initial] at hmem⟩
  have hvetted : Vetted cfg (initial cfg) := fun invocation hmem => by simp [initial] at hmem
  have hany : Along (step cfg) (fun _ _ => True) (initial cfg) es :=
    along_of_forall (fun _ _ _ => trivial) _
  exact throughout_iff_along (fun s e s' hstep _ hs => fair_step hvalidator hstep hs)
    (fun s e s' hstep _ hs hP => vetted_step_iff hvalidator hstep hs hP)
    (fun s e hnone hsome => by rw [hnone] at hsome; cases hsome) hfair hvetted hany

theorem not_vetted (haccepted : s.accepted = []) (hgiven : ∃ invocation ∈ s.invoked,
    invocation.hasPayload ∧ invocation.data.packet.isSome) : ¬Vetted cfg s := by
  intro h
  obtain ⟨invocation, hmem, hpayload, hpacket⟩ := hgiven
  obtain ⟨packet, hpacket⟩ := Option.isSome_iff_exists.mp hpacket
  have hvetted := h invocation hmem hpayload
  rw [Invocation.Vetted, hpacket, haccepted] at hvetted
  exact List.not_mem_nil hvetted.1

end Vetted

/-- A node with a validator of encapsulated packets. -/
def validatingSubscriber : SubscriberConfig :=
  { sampleSubscriber with encapsulatedDataValidator := true }

/-- A publication that has been fetched and not yet validated. -/
def fetchedPublication : List (SubscriberEvent × SubscribeInputs) :=
  [subscribeTo (.ofStrings ["x"]), peerMapping (.ofStrings ["x"]),
    (.dataFetcher (.data 0
      { name := .ofStrings ["a", "x"], contentType := tlv.data
        content := (packetFormat.dataWire
          { name := .ofStrings ["x"], content := [1], signatureValue := some [] }).wire }), {})]

def verdictOn (index : Nat) (accepted : Bool) : SubscriberEvent × SubscribeInputs :=
  (.verdict index accepted, {})

theorem vetted_iff_accepts_fetched :
    let es := fetchedPublication ++ [verdictOn 0 true]
    ((run (step validatingSubscriber) (initial validatingSubscriber) es).map
        fun s => s.invoked.length) = some 1 ∧
      Throughout (step validatingSubscriber) (Vetted validatingSubscriber)
        (initial validatingSubscriber) es := by
  intro es
  refine ⟨by decide +kernel, ?_⟩
  exact (vetted_iff_accepts rfl es).mpr (by decide +kernel)

/-- A packet that came along is handed out with no verdict on it. -/
theorem piggyback_not_validated :
    let es := [subscribeTo (.ofStrings ["x"]), peerMapping (.ofStrings ["x"]),
      peerPacket (.ofStrings ["x"])]
    let s := (run (step validatingSubscriber) (initial validatingSubscriber) es).get
      (by decide +kernel)
    validatingSubscriber.encapsulatedDataValidator = true ∧
      run (step validatingSubscriber) (initial validatingSubscriber) es = some s ∧
      ¬Vetted validatingSubscriber s :=
  ⟨rfl, (Option.some_get _).symm, not_vetted (by decide +kernel) (by decide +kernel)⟩

end Subscriber

end NdnSvs
