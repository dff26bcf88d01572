import Vosp.Pool.Effect
import Vosp.Pool.Program

/-!
This module says once what a step of a thread can do. `Edge t m pc op pc'` are the edges of the
control flow graph with the guards under which thread `t` takes them in the memory `m`.
`State.step_cases` connects them to the program, everything that is proved about runs goes through
it.
-/

namespace Vosp.Pool

inductive Edge (t : Thread cfg C) (m : Memory cfg C) : Pc cfg → Op cfg → Pc cfg → Prop where
  | callEnqueue (h : request.isScalar = true)
    : Edge t m (.resting c last) (.call request)
        (.spaceLoad c ⟨request.items m.history.nextId, 0, false, false⟩)
  | callBulk
    : Edge t m (.resting c last) (.call (.dispatchBulk n))
        (.submitted c ⟨Request.items (.dispatchBulk n) m.history.nextId, 0, true, false⟩)
  | callClearQueue
    : Edge t m (.resting c last) (.call .clearQueue) (.cancelLock c .clearQueue .producer)
  | callWait : Edge t m (.resting c last) (.call .wait) (.idleCheck c)
  | callObserve
    : Edge t m (.resting c last) (.call (.observe observer)) (.observe c observer)
  | callShutdown : Edge t m (.resting none last) (.call (.shutdown mode)) (.shutdownLock mode)
  | callShutdownWorker
    : Edge t m (.resting (some f) last) (.call (.shutdown mode)) (.signalLock (some f) mode)
  | ret : Edge t m (.resting (some f) last) .read (.complete f outcome)
  | spaceLoadFull (h : isFull m.queueState) : Edge t m (.spaceLoad c j) .read (.spaceEnlist c j)
  | spaceLoadStopping (h : isStoppingState m.queueState) : Edge t m (.spaceLoad c j) .read (.rejected c j)
  | spaceLoad (h : ¬ isFull m.queueState) (h' : ¬ isStoppingState m.queueState)
    : Edge t m (.spaceLoad c j) .read (.producerLock c j)
  | spaceEnlist : Edge t m (.spaceEnlist c j) (.enlist .producers) (.spaceObserve c j)
  | spaceObserveFull (h : isFull m.queueState)
    : Edge t m (.spaceObserve c j) .read (.spaceWait c j m.queueState)
  | spaceObserve (h : ¬ isFull m.queueState) : Edge t m (.spaceObserve c j) .read (.spaceDelist c j)
  | spaceSleep
    : Edge t m (.spaceWait c j observed) (.sleep observed) (.spaceWait c { j with slept := true } observed)
  | spaceWake (h : m.queueState ≠ observed) (h' : m.stateSleeper t = false)
    : Edge t m (.spaceWait c j observed) .read (.spaceDelist c j)
  | spaceDelist : Edge t m (.spaceDelist c j) (.delist .producers) (.spaceLoad c j)
  | producerLock : Edge t m (.producerLock c j) (.lock .producer) (.producerLoad c j)
  | producerLoadStopping (h : isStoppingState m.queueState)
    : Edge t m (.producerLoad c j) .read (.producerReject c j)
  | producerLoadFull (h : ¬ isStoppingState m.queueState)
      (h' : cfg.queueCapacity - pendingFromState m.queueState = 0)
    : Edge t m (.producerLoad c j) .read (.producerRetry c j)
  | producerLoad (h : ¬ isStoppingState m.queueState)
      (h' : cfg.queueCapacity - pendingFromState m.queueState ≠ 0)
    : Edge t m (.producerLoad c j) .read
        (.slotWrite c j []
          ((j.tasks.drop j.accepted).take (cfg.queueCapacity - pendingFromState m.queueState)))
  | producerReject : Edge t m (.producerReject c j) (.unlock .producer) (.rejected c j)
  | producerRetry : Edge t m (.producerRetry c j) (.unlock .producer) (.spaceLoad c j)
  | slotWrite
    : Edge t m (.slotWrite c j written (item :: group)) (.emplace item)
        (.slotWrite c j (written ++ [item]) group)
  | slotPublish
    : Edge t m (.slotWrite c j written []) (.publish written.length)
        (.producerUnlock c { j with accepted := j.accepted + written.length, slept := false }
          written.length)
  | producerUnlock : Edge t m (.producerUnlock c j n) (.unlock .producer) (.workersWaiting c j n)
  | workersWaiting (h : m.waiting .workers ≠ 0)
    : Edge t m (.workersWaiting c j n) .read (.workersNotify c j n)
  | workersWaitingNone (h : m.waiting .workers = 0)
    : Edge t m (.workersWaiting c j n) .read (.submitted c j)
  | workersNotifyAll (h : j.bulk = true) (h' : n ≠ 1)
    : Edge t m (.workersNotify c j n) .notifyAll (.submitted c j)
  | workersNotifyOne (h : ¬ (j.bulk = true ∧ n ≠ 1))
    : Edge t m (.workersNotify c j n) .notifyOne (.submitted c j)
  | submittedScalar (h : j.bulk = false)
    : Edge t m (.submitted c j) .read (.resting c (some (.enqueued j.tasks)))
  | submittedMore (h : j.bulk = true) (h' : j.accepted < j.tasks.length)
    : Edge t m (.submitted c j) .read (.spaceLoad c j)
  | submittedAll (h : j.bulk = true) (h' : ¬ j.accepted < j.tasks.length)
    : Edge t m (.submitted c j) .read (.resting c (some (.dispatched j.tasks j.accepted)))
  | rejectedBulk (h : j.bulk = true)
    : Edge t m (.rejected c j) .read (.resting c (some (.dispatched j.tasks j.accepted)))
  | rejectedScalar (h : j.bulk = false)
    : Edge t m (.rejected c j) .read (.resting c (some (.rejected j.tasks)))
  | idleCheck (h : isIdle m.queueState) : Edge t m (.idleCheck c) .read (.resting c (some .waited))
  | idleCheckBusy (h : ¬ isIdle m.queueState) : Edge t m (.idleCheck c) .read (.idleEnlist c)
  | idleEnlist : Edge t m (.idleEnlist c) (.enlist .idle) (.epochLoad c)
  | epochLoad : Edge t m (.epochLoad c) .read (.idleRecheck c m.completionEpoch)
  | idleRecheck (h : isIdle m.queueState) : Edge t m (.idleRecheck c epoch) .read (.idleDelist c)
  | idleRecheckBusy (h : ¬ isIdle m.queueState) : Edge t m (.idleRecheck c epoch) .read (.epochWait c epoch)
  | epochSleep : Edge t m (.epochWait c epoch) (.sleepEpoch epoch) (.epochWait c epoch)
  | epochWake (h : m.completionEpoch ≠ epoch) (h' : m.epochSleeper t = false)
    : Edge t m (.epochWait c epoch) .read (.idleDelist c)
  | idleDelist : Edge t m (.idleDelist c) (.delist .idle) (.idleCheck c)
  | cancelLock : Edge t m (.cancelLock c p first) (.lock first.mutex) (.cancelTry c p first)
  | cancelTry : Edge t m (.cancelTry c p first) (.lock first.other.mutex) (.cancelLoad c p)
  | cancelTryBusy (h : m.owner first.other.mutex ≠ none)
    : Edge t m (.cancelTry c p first) .read (.cancelBackOff c p first)
  | cancelBackOff : Edge t m (.cancelBackOff c p first) (.unlock first.mutex) (.cancelLock c p first.other)
  | cancelLoad
    : Edge t m (.cancelLoad c p) .read
        (.cancelSlot c p (pendingFromState m.queueState) (pendingFromState m.queueState))
  | cancelSlot : Edge t m (.cancelSlot c p n (remaining + 1)) (.cancel item) (.cancelSlot c p n remaining)
  | cancelSlotTerminate (h : m.tasks m.queueHead = some item) (h' : m.cancel item = none)
    : Edge t m (.cancelSlot c p n (remaining + 1)) .terminate (.cancelSlot c p n (remaining + 1))
  | cancelSlotFault (h : m.tasks m.queueHead = none)
    : Edge t m (.cancelSlot c p n (remaining + 1)) .fault (.cancelSlot c p n (remaining + 1))
  | cancelReset (h : n ≠ 0) : Edge t m (.cancelSlot c p n 0) .resetTail (.cancelPublish c p n)
  | cancelResetNone : Edge t m (.cancelSlot c p 0 0) .resetTail (.cancelUnlockProducer c p 0)
  | cancelPublish : Edge t m (.cancelPublish c p n) (.cancelAll n) (.cancelActive c p n)
  | cancelActive (h : activeFromState m.queueState = 0)
    : Edge t m (.cancelActive c p n) .read (.cancelIdle c p n)
  | cancelActiveBusy (h : activeFromState m.queueState ≠ 0)
    : Edge t m (.cancelActive c p n) .read (.cancelNotify c p n)
  | cancelIdle (h : m.waiting .idle ≠ 0) : Edge t m (.cancelIdle c p n) .read (.cancelEpoch c p n)
  | cancelIdleNone (h : m.waiting .idle = 0) : Edge t m (.cancelIdle c p n) .read (.cancelNotify c p n)
  | cancelEpoch : Edge t m (.cancelEpoch c p n) .addEpoch (.cancelEpochNotify c p n)
  | cancelEpochNotify : Edge t m (.cancelEpochNotify c p n) .notifyEpoch (.cancelNotify c p n)
  | cancelNotify : Edge t m (.cancelNotify c p n) .notifyAll (.cancelUnlockProducer c p n)
  | cancelUnlockProducer
    : Edge t m (.cancelUnlockProducer c p n) (.unlock .producer) (.cancelUnlockConsumer c p n)
  | cancelUnlockClear
    : Edge t m (.cancelUnlockConsumer c .clearQueue n) (.unlock .consumer)
        (.resting c (some (.cleared n)))
  | cancelUnlockSignal
    : Edge t m (.cancelUnlockConsumer c .signalShutdown n) (.unlock .consumer) (.workersLock c)
  | observe
    : Edge t m (.observe c observer) .read (.resting c (some (.observed (m.observe observer))))
  | shutdownLock : Edge t m (.shutdownLock mode) (.lock .shutdown) (.signalLock none mode)
  | signalLock : Edge t m (.signalLock c mode) (.lock .producer) (.signalStop c mode)
  | signalStop : Edge t m (.signalStop c mode) .setStopping (.signalUnlock c mode)
  | signalUnlockDrain
    : Edge t m (.signalUnlock c .drain) (.unlock .producer) (.signalNotify c .drain)
  | signalUnlockCancel
    : Edge t m (.signalUnlock c .cancelPending) (.unlock .producer)
        (.cancelLock c .signalShutdown .producer)
  | workersLock : Edge t m (.workersLock c) (.lock .workers) (.workersRead c)
  | workersRead : Edge t m (.workersRead c) .read (.workersStop c m.workers)
  | workersStop : Edge t m (.workersStop c (i :: rest)) (.requestStop i) (.workersStop c rest)
  | workersUnlock : Edge t m (.workersStop c []) (.unlock .workers) (.signalNotify c .cancelPending)
  | signalNotify : Edge t m (.signalNotify c mode) .notifyAll (.signalReturn c mode)
  | signalReturnWorker
    : Edge t m (.signalReturn (some f) mode) (.signalled mode) (.resting (some f) (some .shutDown))
  | signalReturn : Edge t m (.signalReturn none mode) (.signalled mode) .joinLock
  | joinLock : Edge t m .joinLock (.lock .workers) .joinSwap
  | joinSwap : Edge t m .joinSwap .swapWorkers (.joinUnlock m.workers)
  | joinUnlock : Edge t m (.joinUnlock rest) (.unlock .workers) (.join rest)
  | join (h : m.exited (.worker i) = true) : Edge t m (.join (i :: rest)) .read (.join rest)
  | joinReturn : Edge t m (.join []) (.unlock .shutdown) (.resting none (some .shutDown))
  | stateLoadEmpty (h : isEmpty m.queueState) : Edge t m .stateLoad .read .workerEnlist
  | stateLoadExit (h : pendingFromState m.queueState = 0) (h' : isStoppingState m.queueState)
    : Edge t m .stateLoad .read .workerExit
  | stateLoad (h : pendingFromState m.queueState ≠ 0) : Edge t m .stateLoad .read .consumerLock
  | workerEnlist : Edge t m .workerEnlist (.enlist .workers) .workerObserve
  | workerObserveEmpty (h : isEmpty m.queueState)
    : Edge t m .workerObserve .read (.workerWait m.queueState)
  | workerObserve (h : ¬ isEmpty m.queueState) : Edge t m .workerObserve .read .workerDelist
  | workerSleep : Edge t m (.workerWait observed) (.sleep observed) (.workerWait observed)
  | workerWake (h : m.queueState ≠ observed) (h' : m.stateSleeper t = false)
    : Edge t m (.workerWait observed) .read .workerDelist
  | workerDelist : Edge t m .workerDelist (.delist .workers) .stateLoad
  | workerExit : Edge t m .workerExit .exit .exited
  | consumerLock : Edge t m .consumerLock (.lock .consumer) .consumerLoad
  | consumerLoad (h : pendingFromState m.queueState ≠ 0)
    : Edge t m .consumerLoad .load (.headPeek m.queueState)
  | consumerLoadEmpty (h : pendingFromState m.queueState = 0)
    : Edge t m .consumerLoad .load .consumerRetry
  | consumerRetry : Edge t m .consumerRetry (.unlock .consumer) .stateLoad
  | headPeekBulk (h : m.tasks m.queueHead = some item) (h' : item.bulk = true)
    : Edge t m (.headPeek state) .read (.bulkLoop (min bulkClaimSize (pendingFromState state)) [])
  | headPeek (h : m.tasks m.queueHead = some item) (h' : item.bulk = false)
    : Edge t m (.headPeek state) .read .scalarTake
  | headPeekFault (h : m.tasks m.queueHead = none) : Edge t m (.headPeek state) .fault (.headPeek state)
  | scalarTake : Edge t m .scalarTake (.vacate item) (.claim [item])
  | scalarTakeFault (h : m.tasks m.queueHead = none) : Edge t m .scalarTake .fault .scalarTake
  | bulkLoop (h : batch.length < limit)
    : Edge t m (.bulkLoop limit batch) .read (.bulkPeek limit batch)
  | bulkLoopEnd (h : ¬ batch.length < limit) : Edge t m (.bulkLoop limit batch) .read (.claim batch)
  | bulkPeek (h : m.tasks m.queueHead = some item) (h' : item.bulk = true)
    : Edge t m (.bulkPeek limit batch) .read (.bulkTake limit batch)
  | bulkPeekEnd (h : m.tasks m.queueHead = some item) (h' : item.bulk = false)
    : Edge t m (.bulkPeek limit batch) .read (.claim batch)
  | bulkPeekFault (h : m.tasks m.queueHead = none)
    : Edge t m (.bulkPeek limit batch) .fault (.bulkPeek limit batch)
  | bulkTake : Edge t m (.bulkTake limit batch) (.vacate item) (.bulkLoop limit (batch ++ [item]))
  | bulkTakeFault (h : m.tasks m.queueHead = none)
    : Edge t m (.bulkTake limit batch) .fault (.bulkTake limit batch)
  | claim : Edge t m (.claim batch) (.claim batch.length) (.consumerUnlock batch)
  | consumerUnlock : Edge t m (.consumerUnlock batch) (.unlock .consumer) (.producersWaiting batch)
  | producersWaiting (h : m.waiting .producers ≠ 0)
    : Edge t m (.producersWaiting batch) .read (.producersNotify batch)
  | producersWaitingNone (h : m.waiting .producers = 0)
    : Edge t m (.producersWaiting batch) .read (.executeNext batch batch.length)
  | producersNotify : Edge t m (.producersNotify batch) .notifyOne (.executeNext batch batch.length)
  | executeNext
    : Edge t m (.executeNext (item :: rest) n) .read (.resting (some ⟨item, rest, n⟩) none)
  | executeEnd : Edge t m (.executeNext [] n) .read (.finish n)
  | complete
    : Edge t m (.complete f outcome) (.complete f.item outcome) (.executeNext f.rest f.claimed)
  | completeTerminate (h : m.complete f.item outcome = none)
    : Edge t m (.complete f outcome) .terminate (.complete f outcome)
  | finish (h : ¬ (activeFromState m.queueState = n ∧ pendingFromState m.queueState = 0))
    : Edge t m (.finish n) (.finish n) .stateLoad
  | finishLast (h : activeFromState m.queueState = n) (h' : pendingFromState m.queueState = 0)
    : Edge t m (.finish n) (.finish n) .finishIdle
  | finishIdle (h : m.waiting .idle ≠ 0) : Edge t m .finishIdle .read .finishEpoch
  | finishIdleNone (h : m.waiting .idle = 0) : Edge t m .finishIdle .read .stateLoad
  | finishEpoch : Edge t m .finishEpoch .addEpoch .finishEpochNotify
  | finishEpochNotify : Edge t m .finishEpochNotify .notifyEpoch .stateLoad

variable {cfg : Config} {C : Type}

theorem Pc.edge_of_steps {t : Thread cfg C} {m : Memory cfg C} {pc pc' : Pc cfg} {op : Op cfg}
    (h : (pc.code : Code cfg C (Pc cfg)).Steps t m op pc')
    : Edge t m pc op pc' := by
  cases pc
  -- the program points whose instruction depends on their arguments
  case resting c last =>
    cases c
    all_goals
      cases h
      try exact .ret
    all_goals
      next request =>
        cases request
        all_goals
          constructor
          try rfl
  case slotWrite group =>
    cases group
    all_goals
      cases h
      constructor
  case cancelSlot cancelled remaining =>
    cases remaining with
    | zero =>
      rw [code] at h
      split at h
      . cases h
        constructor
        assumption
      . next hzero =>
        rw [Decidable.not_not] at hzero
        subst hzero
        cases h
        constructor
    | succ => cases h <;> constructor <;> assumption
  case cancelUnlockConsumer caller cancelled =>
    cases caller
    all_goals
      cases h
      constructor
  case signalUnlock mode =>
    cases mode
    all_goals
      cases h
      constructor
  case workersStop rest =>
    cases rest
    all_goals
      cases h
      constructor
  case signalReturn c mode =>
    cases c
    all_goals
      cases h
      constructor
  case join rest =>
    cases rest
    all_goals
      cases h
      constructor
      try assumption
  case executeNext batch claimed =>
    cases batch
    all_goals
      cases h
      constructor
  case workersNotify j n =>
    rw [code] at h
    split at h
    . next hall =>
      simp only [Bool.and_eq_true, bne_iff_ne] at hall
      cases h
      exact .workersNotifyAll hall.1 hall.2
    . next hone =>
      simp only [Bool.and_eq_true, bne_iff_ne] at hone
      cases h
      exact .workersNotifyOne hone
  case submitted j =>
    cases h
    dsimp only
    split
    . next hbulk =>
      split
      . next hmore => exact .submittedMore hbulk hmore
      . next hall => exact .submittedAll hbulk hall
    . next hscalar => exact .submittedScalar (by simpa using hscalar)
  case rejected j =>
    cases h
    dsimp only
    split
    . next hbulk => exact .rejectedBulk hbulk
    . next hscalar => exact .rejectedScalar (by simpa using hscalar)
  case workersWaiting =>
    cases h
    dsimp only
    split
    . next hwaiting => exact .workersWaiting hwaiting
    . next hnone => exact .workersWaitingNone (Decidable.not_not.mp hnone)
  case cancelTry =>
    cases h with
    | tryLock => exact .cancelTry
    | tryLockBusy hbusy => exact .cancelTryBusy hbusy
  case stateLoad =>
    cases h
    dsimp only
    split
    . next hempty => exact .stateLoadEmpty hempty
    . next hempty =>
      simp only [isEmpty, Bool.and_eq_true, beq_iff_eq, Bool.not_eq_true', not_and,
        Bool.not_eq_false] at hempty
      split
      . next hexit =>
        simp only [Bool.and_eq_true, beq_iff_eq] at hexit
        exact .stateLoadExit hexit.1 hexit.2
      . next hstay =>
        simp only [Bool.and_eq_true, beq_iff_eq, not_and] at hstay
        exact .stateLoad (fun hzero => hstay hzero (hempty hzero))
  case headPeek =>
    cases h with
    | peek hhead =>
      dsimp only
      split
      . next hbulk => exact .headPeekBulk hhead hbulk
      . next hscalar => exact .headPeek hhead (by simpa using hscalar)
    | peekFault hnone => exact .headPeekFault hnone
  case bulkPeek =>
    cases h with
    | peek hhead =>
      dsimp only
      split
      . next hbulk => exact .bulkPeek hhead hbulk
      . next hscalar => exact .bulkPeekEnd hhead (by simpa using hscalar)
    | peekFault hnone => exact .bulkPeekFault hnone
  case producersWaiting =>
    cases h
    dsimp only
    split
    . next hwaiting => exact .producersWaiting hwaiting
    . next hnone => exact .producersWaitingNone (Decidable.not_not.mp hnone)
  case finish =>
    cases h
    dsimp only
    split
    . next hlast =>
      simp only [Bool.and_eq_true, beq_iff_eq] at hlast
      exact .finishLast hlast.1 hlast.2
    . next hmore =>
      simp only [Bool.and_eq_true, beq_iff_eq] at hmore
      exact .finish hmore
  all_goals
    rw [code] at h
    cases h
  all_goals try dsimp only
  all_goals repeat' split
  all_goals constructor <;> assumption

section

variable [Fintype C] [DecidableEq C]

inductive State.Step (s : State cfg C) : Event cfg C → State cfg C → Prop where
  | thread (t : Thread cfg C) (choice : Choice cfg C) {op : Op cfg} {pc' : Pc cfg} {m' : Memory cfg C}
      (hedge : Edge t s.memory (s.pc t) op pc') (heffect : Effect t choice op s.memory m')
    : Step s (.step t choice) { memory := m', pc := Function.update s.pc t pc' }
  | spurious (t : Thread cfg C)
    : Step s (.spurious t)
        { s with memory := (s.memory.setStateSleeper t false).setEpochSleeper t false }

theorem State.step_cases {s s' : State cfg C} {event : Event cfg C} (h : s.step event = some s')
    : s.Step event s' := by
  cases event with
  | step t choice =>
    simp only [step, Option.map_eq_some_iff] at h
    obtain ⟨⟨m', pc'⟩, hexec, rfl⟩ := h
    obtain ⟨op, hsteps, heffect⟩ := Code.exec_cases hexec
    exact .thread t choice (Pc.edge_of_steps hsteps) heffect
  | spurious t =>
    cases h
    exact .spurious t

end

end Vosp.Pool
