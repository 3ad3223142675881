import NdnSvs.ExtraBlocks
import NdnSvs.Lib.Rounds

/-! The queues of mappings, packets and repair requests over any calls that fill and pack them.  An
entry is packed a bounded number of times and stays for a bounded number of calls, and is left out
of a block only when it does not fit behind what is packed before it. -/

namespace NdnSvs

open Lib Lib.Tlv

/-! ### The three queues -/

inductive QueueKind
  | mapping
  | data
  | repair

namespace QueueKind

abbrev Item : QueueKind → Type
  | mapping => NodeID × MappingEntry
  | data => Data
  | repair => MissingDataInfo

def wire (cxx : NdnCxx) : (k : QueueKind) → k.Item → Block
  | mapping => ExtraData.mappingWire
  | data => cxx.dataWire
  | repair => ExtraData.repairWire

def repeatCount (opts : ExtraDataOptions) : QueueKind → Nat
  | repair => opts.repairRequestRepeatCount
  | _ => opts.piggybackRepeatCount

end QueueKind

namespace ExtraData

def queue (e : ExtraData) : (k : QueueKind) → List (QueueEntry k.Item)
  | .mapping => e.piggyMappingQueue
  | .data => e.piggyDataQueue
  | .repair => e.repairRequestQueue

/-- What is put into a queue, and the packing of the next block. -/
inductive Call
  /-- A publication gets its mapping. -/
  | pushMapping (nid : NodeID) (entry : MappingEntry)
  /-- The mapping of a publication is sent again for a repair request. -/
  | repeatMapping (nid : NodeID) (entry : MappingEntry)
  | pushData (data : Data)
  | pushRepair (info : MissingDataInfo)
  | getExtraData
deriving DecidableEq

/-- What a call puts into a queue. -/
def Call.enqueued : Call → (k : QueueKind) → Option k.Item
  | .pushMapping nid entry, .mapping => some (nid, entry)
  | .repeatMapping nid entry, .mapping => some (nid, entry)
  | .pushData data, .data => some data
  | .pushRepair info, .repair => some info
  | _, _ => none

variable (cxx : NdnCxx) (opts : ExtraDataOptions)

def step (e : ExtraData) : Call → ExtraData
  | .pushMapping nid entry => e.pushMapping nid entry
  | .repeatMapping nid entry =>
    { e with piggyMappingQueue := e.piggyMappingQueue ++ [{ item := (nid, entry) }] }
  | .pushData data => e.pushData data
  | .pushRepair info => { e with repairRequestQueue := e.repairRequestQueue ++ [{ item := info }] }
  | .getExtraData => (e.onGetExtraData cxx opts).2

/-- The size of the block when the pass over a queue begins. -/
def startSize (e : ExtraData) : QueueKind → Nat
  | .mapping => (includedMappings opts e.notificationMappingList).encode.size
  | .data => (e.packedMappings opts).size
  | .repair => (e.packedData cxx opts).size

/-- The elements that do not come from the queues. -/
def notificationElements (e : ExtraData) : List Block :=
  let included := includedMappings opts e.notificationMappingList
  included.nodeId.block :: (included.pairs.map MappingEntry.block).reverse

/-- What is packed of a queue, and what stays in it. -/
def packed (e : ExtraData) (k : QueueKind) : Packed k.Item :=
  packQueue (k.wire cxx) opts.maxApplicationParameters (k.repeatCount opts)
    opts.piggybackMissLimit (e.queue k) (e.startSize cxx opts k)

variable {cxx opts}

theorem onGetExtraData_packed (e : ExtraData) : (e.onGetExtraData cxx opts).1 =
    .ofElements tlv.mappingData (e.notificationElements opts ++
      (e.packed cxx opts .mapping).blocks ++ (e.packed cxx opts .data).blocks ++
      (e.packed cxx opts .repair).blocks) := rfl

theorem queue_getExtraData (e : ExtraData) (k : QueueKind) :
    (e.step cxx opts .getExtraData).queue k = (e.packed cxx opts k).retained := by
  cases k with
  | mapping => rfl
  | data => rfl
  | repair => rfl

theorem queue_step (e : ExtraData) {call : Call} (hcall : call ≠ .getExtraData) (k : QueueKind) :
    (e.step cxx opts call).queue k =
      e.queue k ++ (call.enqueued k).toList.map fun item => (⟨item, 0, 0⟩ : QueueEntry k.Item) := by
  cases call with
  | getExtraData => exact absurd rfl hcall
  | pushMapping nid entry =>
    cases k with
    | mapping => rfl
    | _ => exact (List.append_nil _).symm
  | repeatMapping nid entry =>
    cases k with
    | mapping => rfl
    | _ => exact (List.append_nil _).symm
  | pushData data =>
    cases k with
    | data => rfl
    | _ => exact (List.append_nil _).symm
  | pushRepair info =>
    cases k with
    | repair => rfl
    | _ => exact (List.append_nil _).symm

end ExtraData

/-! ### Numbered entries -/

section Numbered

variable {α β : Type} {limit repeatCount missLimit : Nat}

def QueueEntry.map (f : α → β) (entry : QueueEntry α) : QueueEntry β :=
  { item := f entry.item
    sent := entry.sent
    missed := entry.missed }

def QueueEntry.place (entry : QueueEntry (Nat × α)) : Place :=
  { number := entry.item.1
    served := entry.sent
    passed := entry.missed }

/-- A pass reads nothing of an item but its encoding. -/
theorem retained_map (f : α → β) (wire : β → Block) (queue : List (QueueEntry α)) (size : Nat) :
    (packNewestFirst wire limit repeatCount missLimit (queue.map (QueueEntry.map f))
        size).retained =
      (packNewestFirst (wire ∘ f) limit repeatCount missLimit queue size).retained.map
        (QueueEntry.map f) := by
  induction queue generalizing size with
  | nil => rfl
  | cons entry older ih =>
    simp only [List.map_cons, packNewestFirst, QueueEntry.map, Function.comp_apply]
    split
    · split
      · rw [ih, List.map_append]
        rfl
      · exact ih size
    · split
      · rw [ih, List.map_append]
        rfl
      · exact ih _

theorem selectNewestFirst_map (f : α → β) (wire : β → Block) (queue : List (QueueEntry α))
    (size : Nat) : selectNewestFirst wire limit (queue.map (QueueEntry.map f)) size =
      (selectNewestFirst (wire ∘ f) limit queue size).map f := by
  induction queue generalizing size with
  | nil => rfl
  | cons entry older ih =>
    simp only [List.map_cons, selectNewestFirst, QueueEntry.map, Function.comp_apply]
    split
    · exact ih size
    · rw [ih, List.map_cons]

variable {wire : Nat × α → Block}

def itemNumbers (items : List (Nat × α)) : List Nat := items.map Prod.fst

theorem itemNumbers_cons (item : Nat × α) (items : List (Nat × α)) :
    itemNumbers (item :: items) = item.1 :: itemNumbers items := rfl

theorem itemNumbers_subset (queue : List (QueueEntry (Nat × α))) (size : Nat) :
    itemNumbers (selectNewestFirst wire limit queue size) ⊆
      itemNumbers (queue.map QueueEntry.item) :=
  List.map_subset _ (selectNewestFirst_subset queue size)

/-- What a pass selects, by number, in the order of the pass. -/
theorem itemNumbers_selected {queue : List (QueueEntry (Nat × α))}
    (hnodup : (itemNumbers (queue.map QueueEntry.item)).Nodup) (size : Nat) :
    itemNumbers (selectNewestFirst wire limit queue size) =
      (itemNumbers (queue.map QueueEntry.item)).filter
        (· ∈ itemNumbers (selectNewestFirst wire limit queue size)) := by
  induction queue generalizing size with
  | nil => rfl
  | cons entry older ih =>
    obtain ⟨hnew, hnodup⟩ := List.nodup_cons.mp hnodup
    have hnot : entry.item.1 ∉ itemNumbers (selectNewestFirst wire limit older size) :=
      fun h => hnew (itemNumbers_subset older size h)
    simp only [selectNewestFirst]
    split
    · refine (ih hnodup size).trans (List.filter_cons_of_neg ?_).symm
      exact fun h => hnot (of_decide_eq_true h)
    · -- No older entry has the number of the one that is selected.
      generalize hselected :
        selectNewestFirst wire limit older (size + (wire entry.item).size) = selected
      have hsame : ∀ n ∈ itemNumbers (older.map QueueEntry.item),
          decide (n ∈ entry.item.1 :: itemNumbers selected) =
            decide (n ∈ itemNumbers selected) := by
        intro n hn
        have hne : n ≠ entry.item.1 := fun h => hnew (h ▸ hn)
        simp only [List.mem_cons, hne, false_or]
      rw [List.map_cons, itemNumbers_cons, itemNumbers_cons, List.filter_cons,
        if_pos (decide_eq_true List.mem_cons_self), List.filter_congr hsame, ← hselected,
        ← ih hnodup]

/-- An entry after a pass, nothing when it leaves the queue. -/
def QueueEntry.next (repeatCount missLimit : Nat) (entry : QueueEntry α) (isSent : Bool) :
    Option (QueueEntry α) :=
  if isSent then
    if entry.sent + 1 < repeatCount then some { entry with sent := entry.sent + 1 } else none
  else
    if entry.missed + 1 < missLimit then some { entry with missed := entry.missed + 1 } else none

theorem QueueEntry.place_next (entry : QueueEntry (Nat × α)) (isSent : Bool) :
    (entry.next repeatCount missLimit isSent).map QueueEntry.place =
      entry.place.next repeatCount missLimit isSent := by
  cases isSent with
  | true => exact apply_ite (Option.map QueueEntry.place) (entry.sent + 1 < repeatCount) _ none
  | false => exact apply_ite (Option.map QueueEntry.place) (entry.missed + 1 < missLimit) _ none

theorem retained_skipped {entry : QueueEntry α} {older : List (QueueEntry α)} {size : Nat}
    {wire : α → Block} (h : limit < size + (wire entry.item).size) :
    (packNewestFirst wire limit repeatCount missLimit (entry :: older) size).retained =
      (packNewestFirst wire limit repeatCount missLimit older size).retained ++
        (entry.next repeatCount missLimit false).toList := by
  rw [packNewestFirst, if_pos h, QueueEntry.next, if_neg Bool.false_ne_true]
  split
  · rfl
  · exact (List.append_nil _).symm

theorem retained_packed {entry : QueueEntry α} {older : List (QueueEntry α)} {size : Nat}
    {wire : α → Block} (h : ¬limit < size + (wire entry.item).size) :
    (packNewestFirst wire limit repeatCount missLimit (entry :: older) size).retained =
      (packNewestFirst wire limit repeatCount missLimit older
          (size + (wire entry.item).size)).retained ++
        (entry.next repeatCount missLimit true).toList := by
  rw [packNewestFirst, if_neg h, QueueEntry.next, if_pos rfl]
  split
  · rfl
  · exact (List.append_nil _).symm

/-- What stays of a queue stands in line as the places that the pass has served or passed over. -/
theorem places_retained {queue : List (QueueEntry (Nat × α))}
    (hnodup : (itemNumbers (queue.map QueueEntry.item)).Nodup) (size : Nat) :
    (packNewestFirst wire limit repeatCount missLimit queue size).retained.map QueueEntry.place =
      (queue.reverse.map QueueEntry.place).filterMap fun place =>
        place.next repeatCount missLimit
          (place.number ∈ itemNumbers (selectNewestFirst wire limit queue size)) := by
  induction queue generalizing size with
  | nil => rfl
  | cons entry older ih =>
    obtain ⟨hnew, hnodup⟩ := List.nodup_cons.mp hnodup
    rw [List.reverse_cons, List.map_append, List.filterMap_append, selectNewestFirst]
    by_cases h : limit < size + (wire entry.item).size
    · have hnot : entry.place.number ∉ itemNumbers (selectNewestFirst wire limit older size) :=
        fun h => hnew (itemNumbers_subset older size h)
      rw [retained_skipped h, List.map_append, ih hnodup, if_pos h, List.map_singleton,
        List.filterMap_cons, decide_eq_false hnot, ← QueueEntry.place_next]
      cases entry.next repeatCount missLimit false with
      | none => rfl
      | some next => rfl
    · generalize hselected :
        selectNewestFirst wire limit older (size + (wire entry.item).size) = selected
      have hsame : ∀ place ∈ older.reverse.map QueueEntry.place,
          place.next repeatCount missLimit (place.number ∈ entry.item.1 :: itemNumbers selected) =
            place.next repeatCount missLimit (place.number ∈ itemNumbers selected) := by
        intro place hplace
        obtain ⟨old, hold, rfl⟩ := List.mem_map.mp hplace
        have hne : old.place.number ≠ entry.item.1 := fun h =>
          hnew (h ▸ List.mem_map_of_mem (List.mem_map_of_mem (List.mem_reverse.mp hold)))
        simp only [List.mem_cons, hne, false_or]
      have hself : entry.place.number ∈ entry.item.1 :: itemNumbers selected := List.mem_cons_self
      rw [retained_packed h, List.map_append, ih hnodup, if_neg h, hselected, itemNumbers_cons,
        List.filterMap_congr hsame, List.map_singleton, List.filterMap_cons, decide_eq_true hself,
        ← QueueEntry.place_next]
      cases entry.next repeatCount missLimit true with
      | none => rfl
      | some next => rfl

variable (wire) in
/-- The size of the items that are newer than a number. -/
def newerSize (items : List (Nat × α)) (n : Nat) : Nat :=
  ((items.filter fun item => n < item.1).map fun item => (wire item).size).sum

theorem newerSize_cons {item : Nat × α} {n : Nat} (h : n < item.1) (items : List (Nat × α)) :
    newerSize wire (item :: items) n = (wire item).size + newerSize wire items n := by
  rw [newerSize, List.filter_cons, if_pos (decide_eq_true h), List.map_cons, List.sum_cons,
    newerSize]

theorem newerSize_eq_zero {items : List (Nat × α)} {n : Nat} (h : ∀ m ∈ itemNumbers items, m ≤ n) :
    newerSize wire items n = 0 := by
  have hnone : items.filter (fun item => n < item.1) = [] := by
    refine List.filter_eq_nil_iff.mpr fun item hitem hlt => ?_
    exact Nat.not_lt_of_le (h item.1 (List.mem_map_of_mem hitem)) (of_decide_eq_true hlt)
  rw [newerSize, hnone]
  rfl

/-- An entry is selected when it fits behind the newer ones that are. -/
theorem mem_selected_iff {queue : List (QueueEntry (Nat × α))}
    (hordered : (itemNumbers (queue.map QueueEntry.item)).Pairwise (· > ·)) (size : Nat)
    {entry : QueueEntry (Nat × α)} (hentry : entry ∈ queue) :
    entry.item ∈ selectNewestFirst wire limit queue size ↔
      size + newerSize wire (selectNewestFirst wire limit queue size) entry.item.1 +
        (wire entry.item).size ≤ limit := by
  induction queue generalizing size with
  | nil => cases hentry
  | cons newest older ih =>
    obtain ⟨hlt, hordered⟩ := List.pairwise_cons.mp hordered
    have hselected (size : Nat) : ∀ n ∈ itemNumbers (selectNewestFirst wire limit older size),
        n < newest.item.1 := fun n hn => hlt n (itemNumbers_subset older size hn)
    rcases List.mem_cons.mp hentry with rfl | hentry
    · have hnot (size : Nat) : entry.item ∉ selectNewestFirst wire limit older size := fun h =>
        Nat.lt_irrefl _ (hselected size _ (List.mem_map_of_mem h))
      rw [selectNewestFirst]
      split
      · rw [newerSize_eq_zero fun n hn => Nat.le_of_lt (hselected size n hn)]
        exact iff_of_false (hnot size) (by omega)
      · have hle : ∀ n ∈ itemNumbers (entry.item :: selectNewestFirst wire limit older
            (size + (wire entry.item).size)), n ≤ entry.item.1 := by
          intro n hn
          rcases List.mem_cons.mp hn with rfl | hn
          · exact Nat.le_refl _
          · exact Nat.le_of_lt (hselected _ n hn)
        rw [newerSize_eq_zero hle]
        exact iff_of_true List.mem_cons_self (by omega)
    · have hnewer : entry.item.1 < newest.item.1 :=
        hlt _ (List.mem_map_of_mem (List.mem_map_of_mem hentry))
      rw [selectNewestFirst]
      split
      · exact ih hordered size hentry
      · have hne : entry.item ≠ newest.item := fun h => Nat.ne_of_lt hnewer (congrArg Prod.fst h)
        rw [newerSize_cons hnewer, List.mem_cons, or_iff_right hne, ih hordered _ hentry,
          Nat.add_assoc size]

end Numbered

/-! ### The queues over a run -/

/-- A queue whose entries carry the number of those that were put into it before them. -/
structure NumberedQueue (k : QueueKind) where
  extra : ExtraData := {}
  entries : List (QueueEntry (Nat × k.Item)) := []
  joined : Nat := 0
  /-- The numbers that have been packed into blocks. -/
  emitted : List Nat := []

namespace NumberedQueue

variable {k : QueueKind} (cxx : NdnCxx) (opts : ExtraDataOptions)

def wire (item : Nat × k.Item) : Block := k.wire cxx item.2

/-- What is packed of the queue into the next block, the newest first. -/
def chosen (q : NumberedQueue k) : List (Nat × k.Item) :=
  selectQueue (wire cxx) opts.maxApplicationParameters q.entries (q.extra.startSize cxx opts k)

def step (q : NumberedQueue k) : ExtraData.Call → NumberedQueue k
  | .getExtraData =>
    { extra := q.extra.step cxx opts .getExtraData
      entries := (packQueue (wire cxx) opts.maxApplicationParameters (k.repeatCount opts)
        opts.piggybackMissLimit q.entries (q.extra.startSize cxx opts k)).retained
      joined := q.joined
      emitted := q.emitted ++ itemNumbers (q.chosen cxx opts) }
  | call =>
    match call.enqueued k with
    | none => { q with extra := q.extra.step cxx opts call }
    | some item =>
      { q with
        extra := q.extra.step cxx opts call
        entries := q.entries ++ [⟨(q.joined, item), 0, 0⟩]
        joined := q.joined + 1 }

def run (calls : List ExtraData.Call) : NumberedQueue k := calls.foldl (step cxx opts) {}

/-- The numbers that wait, the oldest first. -/
def waiting (q : NumberedQueue k) : List Nat := itemNumbers (q.entries.map QueueEntry.item)

def toLine (q : NumberedQueue k) : Line :=
  { places := q.entries.map QueueEntry.place
    joined := q.joined
    served := q.emitted }

theorem toLine_numbers (q : NumberedQueue k) : q.toLine.numbers = q.waiting := by
  rw [Line.numbers, toLine, waiting, itemNumbers, List.map_map, List.map_map]
  rfl

variable {cxx opts}

theorem step_of_ne (q : NumberedQueue k) {call : ExtraData.Call} (hcall : call ≠ .getExtraData) :
    q.step cxx opts call =
      match call.enqueued k with
      | none => { q with extra := q.extra.step cxx opts call }
      | some item =>
        { q with
          extra := q.extra.step cxx opts call
          entries := q.entries ++ [⟨(q.joined, item), 0, 0⟩]
          joined := q.joined + 1 } := by
  cases call with
  | getExtraData => exact absurd rfl hcall
  | _ => rfl

theorem step_extra (q : NumberedQueue k) (call : ExtraData.Call) :
    (q.step cxx opts call).extra = q.extra.step cxx opts call := by
  by_cases hcall : call = .getExtraData
  · rw [hcall]
    rfl
  · rw [step_of_ne q hcall]
    split
    · rfl
    · rfl

theorem waiting_reverse (q : NumberedQueue k) :
    itemNumbers (q.entries.reverse.map QueueEntry.item) = q.waiting.reverse := by
  rw [List.map_reverse, itemNumbers, List.map_reverse]
  rfl

/-- A call is a join, a round, or nothing to the line. -/
theorem toLine_step (q : NumberedQueue k) (hnodup : q.waiting.Nodup) (call : ExtraData.Call) :
    ∃ steps, (q.step cxx opts call).toLine =
        steps.foldl (Line.step (k.repeatCount opts) opts.piggybackMissLimit) q.toLine ∧
      Line.rounds steps = [call].count .getExtraData := by
  have hnodup : (itemNumbers (q.entries.reverse.map QueueEntry.item)).Nodup := by
    rw [waiting_reverse]
    exact List.nodup_reverse.mpr hnodup
  by_cases hcall : call = .getExtraData
  · subst hcall
    have hplaces : (q.step cxx opts .getExtraData).toLine.places =
        q.toLine.places.filterMap fun place => place.next (k.repeatCount opts)
          opts.piggybackMissLimit (place.number ∈ itemNumbers (q.chosen cxx opts)) := by
      refine (places_retained hnodup _).trans ?_
      rw [List.reverse_reverse]
      rfl
    have hserved : itemNumbers (q.chosen cxx opts) =
        q.toLine.numbers.reverse.filter (· ∈ itemNumbers (q.chosen cxx opts)) := by
      rw [toLine_numbers, ← waiting_reverse]
      exact itemNumbers_selected hnodup _
    refine ⟨[.round (· ∈ itemNumbers (q.chosen cxx opts))], ?_, rfl⟩
    exact congrArg₂ (fun places served => { places, joined := q.joined, served : Line }) hplaces
      (congrArg (q.emitted ++ ·) hserved)
  · have hcount : [call].count .getExtraData = 0 :=
      List.count_eq_zero.mpr fun h => hcall (List.mem_singleton.mp h).symm
    rw [step_of_ne q hcall, hcount]
    split
    · exact ⟨[], rfl, rfl⟩
    · refine ⟨[.join], ?_, rfl⟩
      rw [toLine, List.map_append]
      rfl

/-- Calls move the line by as many rounds as blocks are packed. -/
theorem toLine_calls {q : NumberedQueue k}
    (h : q.toLine.Bounded (k.repeatCount opts) opts.piggybackMissLimit)
    (calls : List ExtraData.Call) :
    ∃ steps, (calls.foldl (step cxx opts) q).toLine =
        steps.foldl (Line.step (k.repeatCount opts) opts.piggybackMissLimit) q.toLine ∧
      Line.rounds steps = calls.count .getExtraData := by
  induction calls generalizing q with
  | nil => exact ⟨[], rfl, rfl⟩
  | cons call calls ih =>
    obtain ⟨steps, hsteps, hrounds⟩ := @toLine_step k cxx opts q (toLine_numbers q ▸ h.nodup) call
    obtain ⟨more, hmore, hcount⟩ := @ih (q.step cxx opts call) (hsteps ▸ h.steps steps)
    refine ⟨steps ++ more, ?_, ?_⟩
    · rw [List.foldl_append, ← hsteps, List.foldl_cons, hmore]
    · rw [Line.rounds_append, hrounds, hcount, ← List.count_append, List.singleton_append]

theorem run_bounded (calls : List ExtraData.Call) :
    (run cxx opts calls : NumberedQueue k).toLine.Bounded (k.repeatCount opts)
      opts.piggybackMissLimit := by
  obtain ⟨steps, hsteps, -⟩ := @toLine_calls k cxx opts {} Line.bounded_empty calls
  rw [run, hsteps]
  exact Line.bounded_empty.steps steps

theorem run_extra (calls : List ExtraData.Call) :
    (run cxx opts calls : NumberedQueue k).extra = calls.foldl (ExtraData.step cxx opts) {} :=
  (List.foldl_hom NumberedQueue.extra fun q call => (step_extra q call).symm).symm

/-- Without the numbers the entries are those of the queue. -/
theorem step_entries {q : NumberedQueue k}
    (h : q.entries.map (QueueEntry.map Prod.snd) = q.extra.queue k) (call : ExtraData.Call) :
    (q.step cxx opts call).entries.map (QueueEntry.map Prod.snd) =
      (q.step cxx opts call).extra.queue k := by
  rw [step_extra]
  by_cases hcall : call = .getExtraData
  · subst hcall
    rw [ExtraData.queue_getExtraData, ExtraData.packed, packQueue, ← h, ← List.map_reverse,
      retained_map]
    rfl
  · rw [ExtraData.queue_step _ hcall, step_of_ne q hcall, ← h]
    split
    · rename_i hput
      rw [hput]
      exact (List.append_nil _).symm
    · rename_i item hput
      rw [hput, List.map_append]
      rfl

theorem run_entries (calls : List ExtraData.Call) :
    (run cxx opts calls : NumberedQueue k).entries.map (QueueEntry.map Prod.snd) =
      (run cxx opts calls : NumberedQueue k).extra.queue k := by
  have hempty : ([] : List (QueueEntry k.Item)) = ({} : ExtraData).queue k := by
    cases k with
    | mapping => rfl
    | data => rfl
    | repair => rfl
  have hcalls (q : NumberedQueue k)
      (h : q.entries.map (QueueEntry.map Prod.snd) = q.extra.queue k) :
      (calls.foldl (step cxx opts) q).entries.map (QueueEntry.map Prod.snd) =
        (calls.foldl (step cxx opts) q).extra.queue k := by
    induction calls generalizing q with
    | nil => exact h
    | cons call calls ih => exact ih (q.step cxx opts call) (step_entries h call)
  exact hcalls {} hempty

variable (cxx opts) in
/-- What every call finds: the entries wait in the order in which they came; those that fit go out,
once; none goes out more than its times or waits longer than its calls. -/
structure Fair (q : NumberedQueue k) : Prop where
  entries : q.entries.map (QueueEntry.map Prod.snd) = q.extra.queue k
  block : (q.extra.onGetExtraData cxx opts).1 =
    .ofElements tlv.mappingData (q.extra.notificationElements opts ++
      (q.extra.packed cxx opts .mapping).blocks ++ (q.extra.packed cxx opts .data).blocks ++
      (q.extra.packed cxx opts .repair).blocks)
  chosen : (q.extra.packed cxx opts k).blocks = (q.chosen cxx opts).map (wire cxx)
  size : (q.extra.packed cxx opts k).size = q.extra.startSize cxx opts k +
    ((q.chosen cxx opts).map fun item => (wire cxx item).size).sum
  once : (itemNumbers (q.chosen cxx opts)).Nodup
  ordered : q.waiting.Pairwise (· < ·)
  kept : ((q.step cxx opts .getExtraData).entries.map QueueEntry.item).Sublist
    (q.entries.map QueueEntry.item)
  /-- An entry is left out when it does not fit behind the newer ones that are not. -/
  omitted : ∀ entry ∈ q.entries, entry.item ∉ q.chosen cxx opts ↔
    opts.maxApplicationParameters < q.extra.startSize cxx opts k +
      newerSize (wire cxx) (q.chosen cxx opts) entry.item.1 + (wire cxx entry.item).size
  count_le : ∀ n, q.emitted.count n ≤ max 1 (k.repeatCount opts)
  leaves : ∀ n ∈ q.waiting, ∀ calls : List ExtraData.Call,
    max 1 (k.repeatCount opts) + max 1 opts.piggybackMissLimit - 1 ≤ calls.count .getExtraData →
      n ∉ (calls.foldl (step cxx opts) q).waiting

theorem chosen_blocks {q : NumberedQueue k}
    (h : q.entries.map (QueueEntry.map Prod.snd) = q.extra.queue k) :
    (q.extra.packed cxx opts k).blocks = (q.chosen cxx opts).map (wire cxx) := by
  rw [ExtraData.packed, packQueue_blocks, selectQueue, ← h, ← List.map_reverse,
    selectNewestFirst_map, List.map_map]
  rfl

theorem Fair.of_bounded {q : NumberedQueue k}
    (hentries : q.entries.map (QueueEntry.map Prod.snd) = q.extra.queue k)
    (h : q.toLine.Bounded (k.repeatCount opts) opts.piggybackMissLimit) : q.Fair cxx opts := by
  have hordered : (itemNumbers (q.entries.reverse.map QueueEntry.item)).Pairwise (· > ·) := by
    rw [waiting_reverse, ← toLine_numbers]
    exact List.pairwise_reverse.mpr h.ordered
  have hnodup : (itemNumbers (q.entries.reverse.map QueueEntry.item)).Nodup :=
    hordered.imp Nat.ne_of_gt
  exact {
    entries := hentries
    block := ExtraData.onGetExtraData_packed _
    chosen := chosen_blocks hentries
    size := by
      refine (packNewestFirst_size _ _).trans ?_
      rw [← packQueue, ← ExtraData.packed, chosen_blocks hentries, List.map_map]
      rfl
    once := by
      rw [NumberedQueue.chosen, selectQueue, itemNumbers_selected hnodup]
      exact hnodup.filter _
    ordered := toLine_numbers q ▸ h.ordered
    kept := packQueue_retained _ _ _ _ _ _
    omitted := by
      intro entry hentry
      rw [NumberedQueue.chosen, selectQueue,
        mem_selected_iff hordered _ (List.mem_reverse.mpr hentry), Nat.not_le]
    count_le := h.count_le
    leaves := by
      intro n hn calls hcalls
      obtain ⟨steps, hsteps, hrounds⟩ := @toLine_calls k cxx opts q h calls
      rw [← toLine_numbers, hsteps]
      exact h.leaves (hrounds ▸ hcalls) (toLine_numbers q ▸ hn) }

/-- However its entries come, a queue is fair at every call. -/
theorem piggy_queues_fair (cxx : NdnCxx) (opts : ExtraDataOptions) (k : QueueKind)
    (calls : List ExtraData.Call) :
    (run cxx opts calls : NumberedQueue k).extra = calls.foldl (ExtraData.step cxx opts) {} ∧
      (run cxx opts calls : NumberedQueue k).Fair cxx opts :=
  ⟨run_extra calls, .of_bounded (run_entries calls) (run_bounded calls)⟩

/-- A packet that is repeated twice goes out with two blocks. -/
example : (run packetFormat { piggybackRepeatCount := 2 }
    [.pushData { name := .ofStrings ["x"], signatureValue := some [1] }, .getExtraData,
      .getExtraData, .getExtraData] : NumberedQueue .data).emitted = [0, 0] := by decide +kernel

end NumberedQueue

end NdnSvs
