import Vosp.Pool.Refinement

/-!
This module contains runs in which one thread moves alone: a client that submits a group of bulk
tasks to an empty queue, and a worker that claims all of them.
-/

namespace Vosp.Pool

variable {cfg : Config} {C : Type} [Fintype C] [DecidableEq C]

inductive Solo (t : Thread cfg C) (m : Memory cfg C) (pc : Pc cfg) : Memory cfg C → Pc cfg → Prop where
  | refl : Solo t m pc m pc
  | step (choice : Choice cfg C) (h : Solo t m pc m' pc')
      (hexec : pc'.code.exec t m' choice = some (m'', pc''))
    : Solo t m pc m'' pc''

namespace Solo

variable {t : Thread cfg C} {m m' m'' : Memory cfg C} {pc pc' pc'' : Pc cfg}

theorem trans (h : Solo t m pc m' pc') (h' : Solo t m' pc' m'' pc'') : Solo t m pc m'' pc'' := by
  induction h' with
  | refl => exact h
  | step choice _ hexec ih => exact .step choice ih hexec

theorem go (h : Solo t m pc m' pc') (hexec : pc'.code.exec t m' .go = some (m'', pc''))
    : Solo t m pc m'' pc'' :=
  .step .go h hexec

theorem reachable {s : State cfg C} (hs : (system cfg C).Reachable s)
    (h : Solo t s.memory (s.pc t) m' pc')
    : (system cfg C).Reachable { memory := m', pc := Function.update s.pc t pc' } := by
  induction h with
  | refl =>
    rw [Function.update_eq_self]
    exact hs
  | @step m' pc' m'' pc'' choice _ hexec ih =>
    apply ih.next (e := .step t choice)
    simp [system, State.step, hexec]

end Solo

structure Memory.Same (m m' : Memory cfg C) : Prop where
  owner : m'.owner = m.owner
  waiting : m'.waiting = m.waiting

namespace Memory

variable {m : Memory cfg C}

omit [Fintype C] [DecidableEq C] in
theorem Same.refl (m : Memory cfg C) : m.Same m := ⟨rfl, rfl⟩

omit [Fintype C] [DecidableEq C] in
theorem update_owner (m : Memory cfg C) {mutex : Mutex} {t : Thread cfg C} (hfree : m.owner mutex = none)
    : Function.update (Function.update m.owner mutex (some t)) mutex none = m.owner := by
  rw [Function.update_idem, ← hfree, Function.update_eq_self]

end Memory

namespace Solo

variable {t : Thread cfg C} {m : Memory cfg C} {c : Context} {j : Submission}

theorem emplaceAll (group written : List TaskItem)
    : ∃ m', Solo t m (.slotWrite c j written group) m' (.slotWrite c j (written ++ group) []) ∧
        m.Same m' ∧ m'.queueState = m.queueState ∧
        m'.history = { m.history with written := m.history.written ++ group } := by
  induction group generalizing m written with
  | nil =>
    refine ⟨m, ?_, .refl m, rfl, ?_⟩
    . rw [List.append_nil]
      exact .refl
    . rw [List.append_nil]
  | cons item group ih =>
    obtain ⟨m', hsolo, hsame, hword, hhistory⟩ := @ih (m.emplace item) (written ++ [item])
    refine ⟨m', ?_, ⟨hsame.owner, hsame.waiting⟩, hword, ?_⟩
    . rw [List.append_cons]
      exact (Solo.refl.go rfl).trans hsolo
    . rw [hhistory]
      simp [Memory.emplace]

theorem dispatchBulk {n : Nat} {last : Option Result} (hpos : 0 < n) (hle : n ≤ cfg.queueCapacity)
    (hpending : pendingFromState m.queueState = 0) (hrunning : isStoppingState m.queueState = false)
    (hfree : m.owner .producer = none) (hwaiting : m.waiting .workers = 0)
    : ∃ m' last', Solo t m (.resting c last) m' (.resting c last') ∧ m.Same m' ∧
        m'.queueState = publishState m.queueState n ∧
        m'.history.leaving = m.history.leaving ∧
        m'.history.queue = m.history.queue ++
          (m.history.written ++ Request.items (.dispatchBulk n) m.history.nextId) := by
  generalize hitems : Request.items (.dispatchBulk n) m.history.nextId = items
  have hlength : items.length = n := by
    rw [← hitems]
    simp [Request.items]
  have hcapacity := cfg.queueCapacity_pos
  have hcall : Solo t m (.resting c last) (m.startCall (.dispatchBulk n))
      (.submitted c ⟨items, 0, true, false⟩) := by
    apply Solo.step (.call (.dispatchBulk n)) .refl
    rw [← hitems]
    cases c
    all_goals rfl
  have hne : ¬ 0 = cfg.queueCapacity := Nat.ne_of_lt cfg.queueCapacity_pos
  have hspace : Solo t m (.resting c last) (m.startCall (.dispatchBulk n))
      (.spaceLoad c ⟨items, 0, true, false⟩) := by
    apply hcall.go
    simp [Pc.code, Code.exec, hlength, hpos]
  have hload : Solo t m (.resting c last) (m.startCall (.dispatchBulk n))
      (.producerLock c ⟨items, 0, true, false⟩) := by
    apply hspace.go
    simp [Pc.code, Code.exec, Memory.startCall, isFull, hpending, hrunning, hne]
  let m₁ := (m.startCall (.dispatchBulk n)).setOwner .producer (some t)
  have hlock : Solo t m (.resting c last) m₁ (.producerLoad c ⟨items, 0, true, false⟩) := by
    apply hload.go
    simp [Pc.code, Code.exec, Memory.startCall, hfree, m₁]
  have havailable : Solo t m (.resting c last) m₁ (.slotWrite c ⟨items, 0, true, false⟩ [] items) := by
    apply hlock.go
    simp [Pc.code, Code.exec, Memory.startCall, Memory.setOwner, hpending, hrunning, m₁,
      Nat.ne_of_gt cfg.queueCapacity_pos, List.take_of_length_le (hlength.trans_le hle)]
  obtain ⟨m₂, hwrite, hsame, hword, hhistory⟩ :=
    @emplaceAll cfg C _ _ t m₁ c ⟨items, 0, true, false⟩ items []
  let m₃ := (m₂.publish items.length).setOwner .producer none
  let j : Submission := ⟨items, 0 + items.length, true, false⟩
  have hpublish : Solo t m (.resting c last) (m₂.publish items.length) (.producerUnlock c j items.length) :=
    (havailable.trans hwrite).go rfl
  have hunlock : Solo t m (.resting c last) m₃ (.workersWaiting c j items.length) := hpublish.go rfl
  have hsubmitted : Solo t m (.resting c last) m₃ (.submitted c j) := by
    apply hunlock.go
    have hnone : m₃.waiting .workers = 0 := by
      simp [m₃, Memory.setOwner, Memory.publish, hsame.waiting, m₁, Memory.startCall, hwaiting]
    simp [Pc.code, Code.exec, hnone]
  have hreturn : Solo t m (.resting c last) m₃ (.resting c (some (.dispatched items (0 + items.length)))) := by
    apply hsubmitted.go
    simp [Pc.code, Code.exec, j]
  refine ⟨m₃, _, hreturn, ⟨?_, ?_⟩, ?_, ?_, ?_⟩
  . simp only [m₃, Memory.setOwner, Memory.publish, hsame.owner, m₁]
    exact Memory.update_owner _ hfree
  . simp [m₃, Memory.setOwner, Memory.publish, hsame.waiting, m₁, Memory.startCall]
  . simp [m₃, Memory.setOwner, Memory.publish, hword, m₁, Memory.startCall, hlength]
  . simp [m₃, Memory.setOwner, Memory.publish, hhistory, m₁, Memory.startCall]
  . simp [m₃, Memory.setOwner, Memory.publish, hhistory, m₁, Memory.startCall]

theorem collectAll (items batch : List TaskItem) (hm : m.Ringed) (hqueue : m.history.queue = items)
    (hbulk : ∀ item ∈ items, item.bulk = true)
    : ∃ m', Solo t m (.bulkLoop (batch.length + items.length) batch) m' (.claim (batch ++ items)) ∧
        m.Same m' ∧ m'.queueState = m.queueState ∧ m'.history.queue = [] := by
  induction items generalizing m batch with
  | nil =>
    refine ⟨m, ?_, .refl m, rfl, hqueue⟩
    rw [List.append_nil]
    apply Solo.refl.go
    simp [Pc.code, Code.exec]
  | cons item items ih =>
    have hpos : 0 < m.history.queue.length := by simp [hqueue]
    have hhead : m.tasks m.queueHead = some item := by simp [hm.head_eq hpos, hqueue]
    obtain ⟨m', hsolo, hsame, hword, hempty⟩ := @ih (m.vacate item) (batch ++ [item])
      (hm.vacate hhead hpos) (by simp [Memory.vacate, hqueue])
      (fun other hmem => hbulk other (List.mem_cons_of_mem _ hmem))
    refine ⟨m', ?_, ⟨hsame.owner, hsame.waiting⟩, hword, hempty⟩
    have hpeek : Solo t m (.bulkLoop (batch.length + (item :: items).length) batch) m
        (.bulkPeek (batch.length + (item :: items).length) batch) := by
      apply Solo.refl.go
      simp [Pc.code, Code.exec]
    have htake : Solo t m (.bulkLoop (batch.length + (item :: items).length) batch) m
        (.bulkTake (batch.length + (item :: items).length) batch) := by
      apply hpeek.go
      simp [Pc.code, Code.exec, hhead, hbulk item (List.mem_cons_self)]
    have hvacate : Solo t m (.bulkLoop (batch.length + (item :: items).length) batch) (m.vacate item)
        (.bulkLoop ((batch ++ [item]).length + items.length) (batch ++ [item])) := by
      apply htake.go
      simp [Pc.code, Code.exec, hhead]
      omega
    rw [List.append_cons]
    exact hvacate.trans hsolo

theorem claimAll {items : List TaskItem} {item : TaskItem} {rest : List TaskItem} (hm : m.Ringed)
    (hqueue : m.history.queue = items) (hitems : items = item :: rest)
    (hbulk : ∀ item ∈ items, item.bulk = true) (hlength : items.length ≤ bulkClaimSize)
    (hpending : pendingFromState m.queueState = items.length)
    (hfree : m.owner .consumer = none) (hwaiting : m.waiting .producers = 0)
    : ∃ m', Solo t m .stateLoad m' (.resting (some ⟨item, rest, items.length⟩) none) ∧ m.Same m' ∧
        m'.queueState = claimState m.queueState items.length ∧
        m'.history.leaving = [] ∧ m'.history.queue = [] := by
  have hne : pendingFromState m.queueState ≠ 0 := by
    rw [hpending, hitems]
    simp
  have hload : Solo t m .stateLoad m .consumerLock := by
    apply Solo.refl.go
    simp [Pc.code, Code.exec, isEmpty, hne]
  let m₁ := m.setOwner .consumer (some t)
  have hlock : Solo t m .stateLoad m₁ .consumerLoad := by
    apply hload.go
    simp [Pc.code, Code.exec, hfree, m₁]
  have hhead : Solo t m .stateLoad m₁.load (.headPeek m.queueState) := by
    apply hlock.go
    simp [Pc.code, Code.exec, m₁, Memory.setOwner, hne]
  have hm₁ : m₁.load.Ringed := ⟨hm.slots, hm.tail_eq, hm.order, hm.not_faulted⟩
  have hpeek : Solo t m .stateLoad m₁.load (.bulkLoop (([] : List TaskItem).length + items.length) []) := by
    apply hhead.go
    have hsome : m₁.load.tasks m₁.load.queueHead = some item := by
      have hqueue₁ : m₁.load.history.queue = item :: rest := hqueue.trans hitems
      rw [hm₁.head_eq (by simp [hqueue₁]), hqueue₁]
      rfl
    have hitem : item.bulk = true := hbulk item (by simp [hitems])
    simp [Pc.code, Code.exec, hsome, hitem, hpending, hlength]
  obtain ⟨m₂, hcollect, hsame, hword, hempty⟩ := @collectAll cfg C _ _ t m₁.load items [] hm₁ hqueue hbulk
  let m₃ := (m₂.claim items.length).setOwner .consumer none
  have hclaim : Solo t m .stateLoad (m₂.claim items.length) (.consumerUnlock items) :=
    (hpeek.trans hcollect).go rfl
  have hunlock : Solo t m .stateLoad m₃ (.producersWaiting items) := hclaim.go rfl
  have hnone : m₃.waiting .producers = 0 := by
    simp [m₃, Memory.setOwner, Memory.claim, hsame.waiting, m₁, Memory.load, hwaiting]
  have hexecute : Solo t m .stateLoad m₃ (.executeNext items items.length) := by
    apply hunlock.go
    simp [Pc.code, Code.exec, hnone]
  refine ⟨m₃, hexecute.go ?_, ⟨?_, ?_⟩, ?_, rfl, hempty⟩
  . simp [Pc.code, Code.exec, hitems]
  . simp only [m₃, Memory.setOwner, Memory.claim, hsame.owner, Memory.load, m₁]
    exact Memory.update_owner _ hfree
  . simp [m₃, Memory.setOwner, Memory.claim, hsame.waiting, m₁, Memory.load]
  . simp [m₃, Memory.setOwner, Memory.claim, hword, m₁, Memory.load]

end Solo

end Vosp.Pool
