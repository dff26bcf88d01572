import Vosp.Pool.Queue

/-!
This module shows which tasks a worker claims: the head of the queue if it is a scalar task, and
otherwise the longest prefix of bulk tasks, at most `bulkClaimSize` of them, of the queue as the
worker loaded it.
-/

namespace Vosp.Pool

variable {cfg : Config} {C : Type}

def longestBulkPrefix (queue : List TaskItem) : List TaskItem :=
  (queue.take bulkClaimSize).takeWhile (fun item => item.bulk)

def nextClaim (queue : List TaskItem) : List TaskItem :=
  match queue with
  | [] => []
  | item :: _ => if item.bulk then longestBulkPrefix queue else [item]

structure History.Filling (history : History) (limit : Nat) (batch : List TaskItem) : Prop where
  limit_eq : limit = min bulkClaimSize history.loaded.length
  head_bulk : ∃ item, history.loaded.head? = some item ∧ item.bulk = true
  all_bulk : ∀ item ∈ batch, item.bulk = true
  loaded_eq : ∃ rest, history.loaded = batch ++ rest ∧ rest <+: history.queue

namespace History.Filling

variable {history history' : History} {limit : Nat} {batch : List TaskItem}

theorem mono (h : history.Filling limit batch) (hloaded : history'.loaded = history.loaded)
    (hfront : history.queue <+: history'.queue)
    : history'.Filling limit batch := by
  obtain ⟨hlimit, hhead, hbulk, rest, hrest, hqueue⟩ := h
  exact ⟨hloaded ▸ hlimit, hloaded ▸ hhead, hbulk, rest, hloaded ▸ hrest, hqueue.trans hfront⟩

theorem nextClaim_eq (h : history.Filling limit batch) (hle : batch.length ≤ limit)
    (hend : limit ≤ batch.length ∨ ∃ item, history.queue.head? = some item ∧ item.bulk = false)
    : nextClaim history.loaded = batch := by
  obtain ⟨hlimit, ⟨first, hfirst, hbulk⟩, hall, rest, hrest, hqueue⟩ := h
  have hfront : nextClaim history.loaded = longestBulkPrefix history.loaded := by
    obtain ⟨tail, htail⟩ := List.head?_eq_some_iff.mp hfirst
    rw [htail, nextClaim, if_pos hbulk]
  have hlength := congrArg List.length hrest
  rw [List.length_append] at hlength
  rw [hfront, longestBulkPrefix, hrest, List.take_append, List.take_of_length_le (by omega),
    List.takeWhile_append_of_pos hall]
  apply List.append_right_eq_self.mpr
  cases rest with
  | nil => simp
  | cons item rest =>
    cases hend with
    | inl hfull =>
      have hzero : bulkClaimSize - batch.length = 0 := by
        rw [List.length_cons] at hlength
        omega
      rw [hzero]
      rfl
    | inr hscalar =>
      obtain ⟨head, hhead, hscalar⟩ := hscalar
      obtain ⟨tail, htail⟩ := hqueue
      rw [← htail] at hhead
      cases hhead
      cases bulkClaimSize - batch.length with
      | zero => rfl
      | succ => simp [hscalar]

end History.Filling

def Pc.Loading (pc : Pc cfg) (history : History) : Prop :=
  match pc with
  | .headPeek state =>
    history.loaded.length = pendingFromState state ∧ history.loaded <+: history.queue
  | .scalarTake =>
    ∃ item, history.loaded.head? = some item ∧ item.bulk = false ∧ history.loaded <+: history.queue
  | .bulkLoop limit batch | .bulkPeek limit batch => history.Filling limit batch
  | .bulkTake limit batch =>
    history.Filling limit batch ∧ ∃ item, history.queue.head? = some item ∧ item.bulk = true
  | .claim batch =>
    nextClaim history.loaded = batch ∧ ∃ rest, history.loaded = batch ++ rest ∧ rest <+: history.queue
  | _ => True

theorem Pc.Loading.mono {pc : Pc cfg} {history history' : History} (h : pc.Loading history)
    (hloaded : history'.loaded = history.loaded) (hfront : history.queue <+: history'.queue)
    : pc.Loading history' := by
  have hhead : ∀ item, history.queue.head? = some item → history'.queue.head? = some item := by
    intro item hitem
    obtain ⟨rest, hrest⟩ := List.head?_eq_some_iff.mp hitem
    obtain ⟨tail, htail⟩ := hfront
    rw [← htail, hrest]
    rfl
  cases pc
  case headPeek => exact ⟨hloaded ▸ h.1, hloaded ▸ h.2.trans hfront⟩
  case scalarTake =>
    obtain ⟨item, hitem, hscalar, hqueue⟩ := h
    exact ⟨item, hloaded ▸ hitem, hscalar, hloaded ▸ hqueue.trans hfront⟩
  case bulkLoop | bulkPeek => exact History.Filling.mono h hloaded hfront
  case bulkTake =>
    obtain ⟨hfilling, item, hitem, hbulk⟩ := h
    exact ⟨hfilling.mono hloaded hfront, item, hhead item hitem, hbulk⟩
  case claim =>
    obtain ⟨hbatch, rest, hrest, hqueue⟩ := h
    exact ⟨hloaded ▸ hbatch, rest, hloaded ▸ hrest, hqueue.trans hfront⟩
  all_goals trivial

theorem Effect.loaded_eq [DecidableEq C] {t : Thread cfg C} {choice : Choice cfg C} {op : Op cfg}
    {m m' : Memory cfg C} (h : Effect t choice op m m') (hop : op.needs .consumer = false)
    : m'.history.loaded = m.history.loaded := by
  cases h
  case complete hcomplete =>
    obtain ⟨_, _, rfl⟩ := Memory.complete_eq hcomplete
    rfl
  all_goals first | rfl | cases hop

theorem Pc.Loading.of_not_holds {pc : Pc cfg} {history : History} (h : pc.holds .consumer = false)
    : pc.Loading history := by
  have h : pc.holdsConsumer = false := h
  unfold Loading
  split
  all_goals first | cases h | trivial

theorem head?_eq_of_isPrefix {l l' : List TaskItem} (h : l <+: l') (hpos : 0 < l.length)
    : l.head? = l'.head? := by
  obtain ⟨tail, rfl⟩ := h
  cases l with
  | nil => simp at hpos
  | cons => rfl

theorem Edge.loading [DecidableEq C] {t : Thread cfg C} {choice : Choice cfg C} {op : Op cfg}
    {m m' : Memory cfg C} {pc pc' : Pc cfg} (h : Edge t m pc op pc') (heffect : Effect t choice op m m')
    (hclaiming : pc.Claiming) (hconsuming : pc.Consuming m.history)
    (hpending : m.pendingTasks = m.history.leaving.length + m.history.queue.length) (hm : m.Ringed)
    (hloading : pc.Loading m.history)
    : pc'.Loading m'.history := by
  have hhead : pc.looksAtHead = true → m.tasks m.queueHead = m.history.queue.head? :=
    fun hlooks => hm.head_eq (Pc.queue_pos hlooks hclaiming hconsuming)
  cases heffect
  all_goals cases h
  case read.headPeekBulk item state hitem hbulk =>
    obtain ⟨hlength, hfront⟩ := hloading
    refine ⟨by rw [hlength], ⟨item, ?_, hbulk⟩, nofun, _, rfl, hfront⟩
    rw [head?_eq_of_isPrefix hfront (hlength ▸ hconsuming.2.1), ← hhead rfl, hitem]
  case read.headPeek item state hitem hscalar =>
    obtain ⟨hlength, hfront⟩ := hloading
    refine ⟨item, ?_, hscalar, hfront⟩
    rw [head?_eq_of_isPrefix hfront (hlength ▸ hconsuming.2.1), ← hhead rfl, hitem]
  case read.bulkLoopEnd hend =>
    have hfilling : m.history.Filling _ _ := hloading
    exact ⟨hfilling.nextClaim_eq hclaiming.1 (.inl (Nat.le_of_not_lt hend)), hfilling.loaded_eq⟩
  case read.bulkPeek hitem hbulk =>
    refine ⟨hloading, _, ?_, hbulk⟩
    rw [← hhead rfl, hitem]
  case read.bulkPeekEnd hitem hscalar =>
    have hfilling : m.history.Filling _ _ := hloading
    refine ⟨hfilling.nextClaim_eq (Nat.le_of_lt hclaiming.1) (.inr ⟨_, ?_, hscalar⟩), hfilling.loaded_eq⟩
    rw [← hhead rfl, hitem]
  case vacate.scalarTake item hitem =>
    obtain ⟨first, hfirst, hscalar, hfront⟩ := hloading
    obtain ⟨rest, hrest⟩ := List.head?_eq_some_iff.mp hfirst
    obtain ⟨tail, htail⟩ := hfront
    rw [hhead rfl, ← htail, hrest] at hitem
    cases hitem
    refine ⟨?_, rest, hrest, tail, ?_⟩
    . simp [Memory.vacate, hrest, nextClaim, hscalar]
    . simp [Memory.vacate, ← htail, hrest]
  case vacate.bulkTake item hitem limit batch =>
    obtain ⟨⟨hlimit, hfirst, hall, rest, hrest, tail, htail⟩, head, hhead', hbulk⟩ := hloading
    rw [hhead rfl, hhead'] at hitem
    cases hitem
    have hlength := congrArg List.length hrest
    have hlt := hclaiming.1
    rw [List.length_append] at hlength
    cases rest with
    | nil =>
      rw [List.length_nil] at hlength
      omega
    | cons next rest =>
      rw [← htail] at hhead'
      cases hhead'
      refine ⟨hlimit, hfirst, ?_, rest, ?_, tail, ?_⟩
      . simpa [or_imp, forall_and, hbulk] using hall
      . simp [Memory.vacate, hrest]
      . simp [Memory.vacate, ← htail]
  case load.consumerLoad =>
    have hleaving : m.history.leaving = [] := hconsuming rfl
    rw [hleaving] at hpending
    exact ⟨(hpending.trans (Nat.zero_add _)).symm, List.prefix_rfl⟩
  all_goals trivial

theorem State.loading [Fintype C] [DecidableEq C] {s : State cfg C} (hs : (system cfg C).Reachable s)
    : ∀ t, (s.pc t).Loading s.memory.history := by
  apply reachable_induction _ _ _ hs
  . rintro (_ | _)
    all_goals trivial
  . intro s t choice op pc' m' hs h hedge heffect
    have hcounted := counted hs
    apply forall_update (fun _ pc => pc.Loading m'.history)
    . exact hedge.loading heffect (hcounted.claiming t) (hcounted.consuming t) hcounted.pending_eq
        (ringed hs) (h t)
    . intro u hu
      cases hholds : (s.pc u).holds .consumer with
      | false => exact .of_not_holds hholds
      | true =>
        have hop := hedge.not_needs hs hholds hu
        exact (h u).mono (heffect.loaded_eq hop) (heffect.queue_isPrefix hop)
  . intro s t _ h
    exact h

end Vosp.Pool
