import Vosp.Pool.Code

/-!
This module says what an instruction can do: the operations it performs, the program point at which
it continues, and the effect of an operation on the memory. Choices of the environment matter only
for calls and for `notifyOne`. A step that leaves the memory as it is has the operation `read`.
-/

namespace Vosp.Pool

inductive Op (cfg : Config) where
  | read
  | call (request : Request)
  | lock (mutex : Mutex)
  | unlock (mutex : Mutex)
  | enlist (group : Group)
  | delist (group : Group)
  | sleep (observed : Word cfg)
  | notifyOne
  | notifyAll
  | sleepEpoch (epoch : Nat)
  | addEpoch
  | notifyEpoch
  | emplace (item : TaskItem)
  | publish (count : Nat)
  | vacate (item : TaskItem)
  | load
  | claim (count : Nat)
  | cancel (item : TaskItem)
  | resetTail
  | cancelAll (count : Nat)
  | complete (item : TaskItem) (outcome : Outcome)
  | finish (count : Nat)
  | setStopping
  | requestStop (index : Fin cfg.workerCount)
  | signalled (mode : ShutdownMode)
  | swapWorkers
  | exit
  | terminate
  | fault

inductive Effect [DecidableEq C] (thread : Thread cfg C)
    : Choice cfg C → Op cfg → Memory cfg C → Memory cfg C → Prop where
  | read : Effect thread choice .read m m
  | call : Effect thread (.call request) (.call request) m (m.startCall request)
  | lock (hfree : m.owner mutex = none) : Effect thread .go (.lock mutex) m (m.setOwner mutex (some thread))
  | unlock : Effect thread .go (.unlock mutex) m (m.setOwner mutex none)
  | enlist : Effect thread .go (.enlist group) m (m.setWaiting group (m.waiting group + 1))
  | delist : Effect thread .go (.delist group) m (m.setWaiting group (m.waiting group - 1))
  | sleep (hawake : m.stateSleeper thread = false) (heq : m.queueState = observed)
    : Effect thread .go (.sleep observed) m (m.setStateSleeper thread true)
  | unblock (sleeper : Thread cfg C) (hasleep : m.stateSleeper sleeper = true)
    : Effect thread (.unblock sleeper) .notifyOne m (m.setStateSleeper sleeper false)
  | notifyNone (hnone : ∀ sleeper, m.stateSleeper sleeper = false) : Effect thread .go .notifyOne m m
  | notifyAll : Effect thread .go .notifyAll m { m with stateSleeper := fun _ => false }
  | sleepEpoch (hawake : m.epochSleeper thread = false) (heq : m.completionEpoch = epoch)
    : Effect thread .go (.sleepEpoch epoch) m (m.setEpochSleeper thread true)
  | addEpoch : Effect thread .go .addEpoch m { m with completionEpoch := m.completionEpoch + 1 }
  | notifyEpoch : Effect thread .go .notifyEpoch m { m with epochSleeper := fun _ => false }
  | emplace : Effect thread .go (.emplace item) m (m.emplace item)
  | publish : Effect thread .go (.publish count) m (m.publish count)
  | vacate (hhead : m.tasks m.queueHead = some item) : Effect thread .go (.vacate item) m (m.vacate item)
  | load : Effect thread .go .load m m.load
  | claim : Effect thread .go (.claim count) m (m.claim count)
  | cancel (hhead : m.tasks m.queueHead = some item) (hcancel : m.cancel item = some m')
    : Effect thread .go (.cancel item) m (m'.vacate item)
  | resetTail : Effect thread .go .resetTail m { m with queueTail := m.queueHead }
  | cancelAll : Effect thread .go (.cancelAll count) m (m.cancelAll count)
  | complete (hcomplete : m.complete item outcome = some m') : Effect thread .go (.complete item outcome) m m'
  | finish
    : Effect thread .go (.finish count) m { m with queueState := finishState m.queueState count }
  | setStopping
    : Effect thread .go .setStopping m { m with queueState := stopState m.queueState }
  | requestStop
    : Effect thread .go (.requestStop index) m
        { m with stopRequested := Function.update m.stopRequested index true }
  | signalled
    : Effect thread .go (.signalled mode) m
        { m with history := { m.history with signalled := m.history.signalled ++ [mode] } }
  | swapWorkers : Effect thread .go .swapWorkers m { m with workers := [] }
  | exit : Effect thread .go .exit m { m with exited := Function.update m.exited thread true }
  | terminate : Effect thread .go .terminate m { m with terminated := true }
  | fault : Effect thread .go .fault m { m with faulted := true }

section

variable {cfg : Config} {C κ : Type} [Fintype C] [DecidableEq C]

inductive Code.Steps (t : Thread cfg C) (m : Memory cfg C) : Code cfg C κ → Op cfg → κ → Prop where
  | await : Steps t m (.await k) (.call request) (k request m.history.nextId)
  | bodyCall : Steps t m (.body call ret) (.call request) (call request m.history.nextId)
  | bodyRet : Steps t m (.body call ret) .read (ret outcome)
  | read : Steps t m (.read k) .read (k m)
  | lock : Steps t m (.lock mutex k) (.lock mutex) k
  | tryLock : Steps t m (.tryLock mutex k) (.lock mutex) (k true)
  | tryLockBusy (h : m.owner mutex ≠ none) : Steps t m (.tryLock mutex k) .read (k false)
  | unlock : Steps t m (.unlock mutex k) (.unlock mutex) k
  | enlist : Steps t m (.enlist group k) (.enlist group) k
  | delist : Steps t m (.delist group k) (.delist group) k
  | sleep : Steps t m (.wait observed asleep k) (.sleep observed) asleep
  | wake (h : m.queueState ≠ observed) (h' : m.stateSleeper t = false)
    : Steps t m (.wait observed asleep k) .read k
  | notifyOne : Steps t m (.notifyOne k) .notifyOne k
  | notifyAll : Steps t m (.notifyAll k) .notifyAll k
  | sleepEpoch : Steps t m (.waitEpoch epoch asleep k) (.sleepEpoch epoch) asleep
  | wakeEpoch (h : m.completionEpoch ≠ epoch) (h' : m.epochSleeper t = false)
    : Steps t m (.waitEpoch epoch asleep k) .read k
  | addEpoch : Steps t m (.addEpoch k) .addEpoch k
  | notifyEpoch : Steps t m (.notifyEpoch k) .notifyEpoch k
  | emplace : Steps t m (.emplace item k) (.emplace item) k
  | publish : Steps t m (.publish count k) (.publish count) k
  | peek (h : m.tasks m.queueHead = some item) : Steps t m (.peek k stay) .read (k item)
  | peekFault (h : m.tasks m.queueHead = none) : Steps t m (.peek k stay) .fault stay
  | take (item : TaskItem) : Steps t m (.take k stay) (.vacate item) (k item)
  | takeFault (h : m.tasks m.queueHead = none) : Steps t m (.take k stay) .fault stay
  | load : Steps t m (.load k) .load (k m)
  | claim : Steps t m (.claim count k) (.claim count) k
  | cancel : Steps t m (.cancelHead k stay) (.cancel item) k
  | cancelTerminate (h : m.tasks m.queueHead = some item) (h' : m.cancel item = none)
    : Steps t m (.cancelHead k stay) .terminate stay
  | cancelFault (h : m.tasks m.queueHead = none) : Steps t m (.cancelHead k stay) .fault stay
  | resetTail : Steps t m (.resetTail k) .resetTail k
  | cancelAll : Steps t m (.cancelAll count k) (.cancelAll count) k
  | complete : Steps t m (.complete item outcome k stay) (.complete item outcome) k
  | completeTerminate (h : m.complete item outcome = none)
    : Steps t m (.complete item outcome k stay) .terminate stay
  | finish : Steps t m (.finish count k) (.finish count) (k m.queueState)
  | setStopping : Steps t m (.setStopping k) .setStopping k
  | requestStop : Steps t m (.requestStop index k) (.requestStop index) k
  | signalled : Steps t m (.signalled mode k) (.signalled mode) k
  | swapWorkers : Steps t m (.swapWorkers k) .swapWorkers (k m.workers)
  | join (h : m.exited (.worker index) = true) : Steps t m (.join index k) .read k
  | exit : Steps t m (.exit k) .exit k

theorem Code.exec_cases {t : Thread cfg C} {m m' : Memory cfg C} {code : Code cfg C κ}
    {choice : Choice cfg C} {k : κ} (h : code.exec t m choice = some (m', k))
    : ∃ op, code.Steps t m op k ∧ Effect t choice op m m' := by
  cases code
  all_goals
    cases choice
    all_goals
      simp only [exec, Option.some.injEq, Prod.mk.injEq, reduceCtorEq] at h
      try
        obtain ⟨rfl, rfl⟩ := h
        exact ⟨_, by constructor, by constructor⟩
  case lock.go =>
    split at h
    . next hfree =>
      cases h
      exact ⟨_, .lock, .lock hfree⟩
    . cases h
  case tryLock.go =>
    split at h
    . next hfree =>
      cases h
      exact ⟨_, .tryLock, .lock hfree⟩
    . next hbusy =>
      cases h
      exact ⟨_, .tryLockBusy hbusy, .read⟩
  case wait.go =>
    split at h
    . cases h
    . next hawake =>
      have hawake : m.stateSleeper t = false := by simpa using hawake
      split at h
      . next heq =>
        cases h
        exact ⟨_, .sleep, .sleep hawake heq⟩
      . next hne =>
        cases h
        exact ⟨_, .wake hne hawake, .read⟩
  case notifyOne.go =>
    split at h
    . next hnone =>
      cases h
      exact ⟨_, .notifyOne, .notifyNone hnone⟩
    . cases h
  case notifyOne.unblock sleeper =>
    split at h
    . next hasleep =>
      cases h
      exact ⟨_, .notifyOne, .unblock sleeper hasleep⟩
    . cases h
  case waitEpoch.go =>
    split at h
    . cases h
    . next hawake =>
      have hawake : m.epochSleeper t = false := by simpa using hawake
      split at h
      . next heq =>
        cases h
        exact ⟨_, .sleepEpoch, .sleepEpoch hawake heq⟩
      . next hne =>
        cases h
        exact ⟨_, .wakeEpoch hne hawake, .read⟩
  case peek.go =>
    split at h
    . next hhead =>
      cases h
      exact ⟨_, .peek hhead, .read⟩
    . next hempty =>
      cases h
      exact ⟨_, .peekFault hempty, .fault⟩
  case take.go =>
    split at h
    . next item hhead =>
      cases h
      exact ⟨_, .take item, .vacate hhead⟩
    . next hempty =>
      cases h
      exact ⟨_, .takeFault hempty, .fault⟩
  case cancelHead.go =>
    split at h
    . next item hhead =>
      split at h
      . next hcancel =>
        cases h
        exact ⟨_, .cancel, .cancel hhead hcancel⟩
      . next hcancel =>
        cases h
        exact ⟨_, .cancelTerminate hhead hcancel, .terminate⟩
    . next hempty =>
      cases h
      exact ⟨_, .cancelFault hempty, .fault⟩
  case complete.go =>
    split at h
    . next hcomplete =>
      cases h
      exact ⟨_, .complete, .complete hcomplete⟩
    . next hcomplete =>
      cases h
      exact ⟨_, .completeTerminate hcomplete, .terminate⟩
  case join.go =>
    split at h
    . next hexited =>
      cases h
      exact ⟨_, .join hexited, .read⟩
    . cases h

end

end Vosp.Pool
