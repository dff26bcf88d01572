import Vosp.Lib.System
import Vosp.Pool.Code

/-!
This module contains the program of a pool: the program points of its threads, the atomic
instruction at each of them and the points at which the thread continues.

The points of a call carry the context of the caller: `none` for a client thread, and the frame of
the running task if the call is made by a callback on a worker thread. This is also what
`is_worker_thread()` tests.
-/

namespace Vosp.Pool

/--
A worker that runs `item`, with the claimed tasks `rest` still to run. `claimed` is the size of the claim.
-/
structure Frame where
  item : TaskItem
  rest : List TaskItem
  claimed : Nat

abbrev Context := Option Frame

/--
The callbacks of a submission, of which the first `accepted` ones are in the queue. `slept` says whether the
thread fell asleep since it last entered `wait_for_space`; no step reads it.
-/
structure Submission where
  tasks : List TaskItem
  accepted : Nat
  bulk : Bool
  slept : Bool

inductive Result where
  | enqueued (tasks : List TaskItem)
  | rejected (tasks : List TaskItem)
  | dispatched (tasks : List TaskItem) (accepted : Nat)
  | waited
  | cleared (count : Nat)
  | shutDown
  | observed (value : Nat)

-- The two mutexes of the queue, for the order in which `cancel_pending` tries them.
inductive Side where
  | producer
  | consumer

def Side.mutex (side : Side) : Mutex :=
  match side with
  | .producer => .producer
  | .consumer => .consumer

def Side.other (side : Side) : Side :=
  match side with
  | .producer => .consumer
  | .consumer => .producer

inductive Caller where
  | clearQueue
  | signalShutdown

inductive Pc (cfg : Config) where
  | resting (c : Context) (last : Option Result)
  -- wait_for_space
  | spaceLoad (c : Context) (j : Submission)
  | spaceEnlist (c : Context) (j : Submission)
  | spaceObserve (c : Context) (j : Submission)
  | spaceWait (c : Context) (j : Submission) (observed : Word cfg)
  | spaceDelist (c : Context) (j : Submission)
  -- enqueue and dispatch_bulk
  | producerLock (c : Context) (j : Submission)
  | producerLoad (c : Context) (j : Submission)
  | producerReject (c : Context) (j : Submission)
  | producerRetry (c : Context) (j : Submission)
  | slotWrite (c : Context) (j : Submission) (written group : List TaskItem)
  | producerUnlock (c : Context) (j : Submission) (enqueued : Nat)
  | workersWaiting (c : Context) (j : Submission) (enqueued : Nat)
  | workersNotify (c : Context) (j : Submission) (enqueued : Nat)
  | submitted (c : Context) (j : Submission)
  | rejected (c : Context) (j : Submission)
  -- wait
  | idleCheck (c : Context)
  | idleEnlist (c : Context)
  | epochLoad (c : Context)
  | idleRecheck (c : Context) (epoch : Nat)
  | epochWait (c : Context) (epoch : Nat)
  | idleDelist (c : Context)
  -- cancel_pending
  | cancelLock (c : Context) (caller : Caller) (first : Side)
  | cancelTry (c : Context) (caller : Caller) (first : Side)
  | cancelBackOff (c : Context) (caller : Caller) (first : Side)
  | cancelLoad (c : Context) (caller : Caller)
  | cancelSlot (c : Context) (caller : Caller) (cancelled remaining : Nat)
  | cancelPublish (c : Context) (caller : Caller) (cancelled : Nat)
  | cancelActive (c : Context) (caller : Caller) (cancelled : Nat)
  | cancelIdle (c : Context) (caller : Caller) (cancelled : Nat)
  | cancelEpoch (c : Context) (caller : Caller) (cancelled : Nat)
  | cancelEpochNotify (c : Context) (caller : Caller) (cancelled : Nat)
  | cancelNotify (c : Context) (caller : Caller) (cancelled : Nat)
  | cancelUnlockProducer (c : Context) (caller : Caller) (cancelled : Nat)
  | cancelUnlockConsumer (c : Context) (caller : Caller) (cancelled : Nat)
  | observe (c : Context) (observer : Observer)
  -- shutdown and signal_shutdown
  | shutdownLock (mode : ShutdownMode)
  | signalLock (c : Context) (mode : ShutdownMode)
  | signalStop (c : Context) (mode : ShutdownMode)
  | signalUnlock (c : Context) (mode : ShutdownMode)
  | workersLock (c : Context)
  | workersRead (c : Context)
  | workersStop (c : Context) (rest : List (Fin cfg.workerCount))
  | signalNotify (c : Context) (mode : ShutdownMode)
  | signalReturn (c : Context) (mode : ShutdownMode)
  | joinLock
  | joinSwap
  | joinUnlock (rest : List (Fin cfg.workerCount))
  | join (rest : List (Fin cfg.workerCount))
  -- run and process_bulk
  | stateLoad
  | workerEnlist
  | workerObserve
  | workerWait (observed : Word cfg)
  | workerDelist
  | workerExit
  | exited
  | consumerLock
  | consumerLoad
  | consumerRetry
  | headPeek (state : Word cfg)
  | scalarTake
  | bulkLoop (limit : Nat) (batch : List TaskItem)
  | bulkPeek (limit : Nat) (batch : List TaskItem)
  | bulkTake (limit : Nat) (batch : List TaskItem)
  | claim (batch : List TaskItem)
  | consumerUnlock (batch : List TaskItem)
  | producersWaiting (batch : List TaskItem)
  | producersNotify (batch : List TaskItem)
  -- execute and finish_tasks
  | executeNext (batch : List TaskItem) (claimed : Nat)
  | complete (f : Frame) (outcome : Outcome)
  | finish (claimed : Nat)
  | finishIdle
  | finishEpoch
  | finishEpochNotify

namespace Pc

variable {cfg : Config} {C : Type}

def begin (c : Context) (request : Request) (id : Nat) : Pc cfg :=
  match request with
  | .submit | .submitCancellable | .dispatch | .dispatchCancellable =>
    .spaceLoad c ⟨request.items id, 0, false, false⟩
  | .dispatchBulk _ => .submitted c ⟨request.items id, 0, true, false⟩
  | .clearQueue => .cancelLock c .clearQueue .producer
  | .shutdown mode =>
    match c with
    | some _ => .signalLock c mode
    | none => .shutdownLock mode
  | .wait => .idleCheck c
  | .observe observer => .observe c observer

def code (pc : Pc cfg) : Code cfg C (Pc cfg) :=
  match pc with
  | .resting none _ => .await fun request id => begin none request id
  | .resting (some f) _ =>
    .body (fun request id => begin (some f) request id) fun outcome => .complete f outcome
  | .spaceLoad c j =>
    .read fun memory =>
      let state := memory.queueState
      if isFull state then
        .spaceEnlist c j
      else if isStoppingState state then
        .rejected c j
      else
        .producerLock c j
  | .spaceEnlist c j => .enlist .producers (.spaceObserve c j)
  | .spaceObserve c j =>
    .read fun memory =>
      let observed := memory.queueState
      if isFull observed then .spaceWait c j observed else .spaceDelist c j
  | .spaceWait c j observed =>
    .wait observed (.spaceWait c { j with slept := true } observed) (.spaceDelist c j)
  | .spaceDelist c j => .delist .producers (.spaceLoad c j)
  | .producerLock c j => .lock .producer (.producerLoad c j)
  | .producerLoad c j =>
    .read fun memory =>
      let state := memory.queueState
      if isStoppingState state then
        .producerReject c j
      else
        let available := cfg.queueCapacity - pendingFromState state
        if available = 0 then
          .producerRetry c j
        else
          .slotWrite c j [] ((j.tasks.drop j.accepted).take available)
  | .producerReject c j => .unlock .producer (.rejected c j)
  | .producerRetry c j => .unlock .producer (.spaceLoad c j)
  | .slotWrite c j written (item :: group) =>
    .emplace item (.slotWrite c j (written ++ [item]) group)
  | .slotWrite c j written [] =>
    .publish written.length
      (.producerUnlock c { j with accepted := j.accepted + written.length, slept := false }
        written.length)
  | .producerUnlock c j enqueued => .unlock .producer (.workersWaiting c j enqueued)
  | .workersWaiting c j enqueued =>
    .read fun memory =>
      if memory.waiting .workers ≠ 0 then .workersNotify c j enqueued else .submitted c j
  | .workersNotify c j enqueued =>
    if j.bulk && enqueued != 1 then
      .notifyAll (.submitted c j)
    else
      .notifyOne (.submitted c j)
  -- the loop condition of dispatch_bulk; enqueue returns after one task
  | .submitted c j =>
    .read fun _ =>
      if j.bulk then
        if j.accepted < j.tasks.length then
          .spaceLoad c j
        else
          .resting c (some (.dispatched j.tasks j.accepted))
      else
        .resting c (some (.enqueued j.tasks))
  -- enqueue throws, dispatch_bulk returns its count
  | .rejected c j =>
    .read fun _ =>
      if j.bulk then
        .resting c (some (.dispatched j.tasks j.accepted))
      else
        .resting c (some (.rejected j.tasks))
  | .idleCheck c =>
    .read fun memory =>
      if isIdle memory.queueState then .resting c (some .waited) else .idleEnlist c
  | .idleEnlist c => .enlist .idle (.epochLoad c)
  | .epochLoad c => .read fun memory => .idleRecheck c memory.completionEpoch
  | .idleRecheck c epoch =>
    .read fun memory =>
      if isIdle memory.queueState then .idleDelist c else .epochWait c epoch
  | .epochWait c epoch => .waitEpoch epoch (.epochWait c epoch) (.idleDelist c)
  | .idleDelist c => .delist .idle (.idleCheck c)
  -- std::scoped_lock backs off when it cannot get the second mutex
  | .cancelLock c caller first => .lock first.mutex (.cancelTry c caller first)
  | .cancelTry c caller first =>
    .tryLock first.other.mutex fun acquired =>
      if acquired then .cancelLoad c caller else .cancelBackOff c caller first
  | .cancelBackOff c caller first => .unlock first.mutex (.cancelLock c caller first.other)
  | .cancelLoad c caller =>
    .read fun memory =>
      let cancelled := pendingFromState memory.queueState
      .cancelSlot c caller cancelled cancelled
  | .cancelSlot c caller cancelled (remaining + 1) =>
    .cancelHead (.cancelSlot c caller cancelled remaining)
      (.cancelSlot c caller cancelled (remaining + 1))
  | .cancelSlot c caller cancelled 0 =>
    .resetTail
      (if cancelled ≠ 0 then .cancelPublish c caller cancelled
        else .cancelUnlockProducer c caller cancelled)
  | .cancelPublish c caller cancelled => .cancelAll cancelled (.cancelActive c caller cancelled)
  | .cancelActive c caller cancelled =>
    .read fun memory =>
      if activeFromState memory.queueState = 0 then
        .cancelIdle c caller cancelled
      else
        .cancelNotify c caller cancelled
  | .cancelIdle c caller cancelled =>
    .read fun memory =>
      if memory.waiting .idle = 0 then .cancelNotify c caller cancelled
      else .cancelEpoch c caller cancelled
  | .cancelEpoch c caller cancelled => .addEpoch (.cancelEpochNotify c caller cancelled)
  | .cancelEpochNotify c caller cancelled => .notifyEpoch (.cancelNotify c caller cancelled)
  | .cancelNotify c caller cancelled => .notifyAll (.cancelUnlockProducer c caller cancelled)
  | .cancelUnlockProducer c caller cancelled =>
    .unlock .producer (.cancelUnlockConsumer c caller cancelled)
  | .cancelUnlockConsumer c caller cancelled =>
    .unlock .consumer
      (match caller with
        | .clearQueue => .resting c (some (.cleared cancelled))
        | .signalShutdown => .workersLock c)
  | .observe c observer => .read fun memory => .resting c (some (.observed (memory.observe observer)))
  | .shutdownLock mode => .lock .shutdown (.signalLock none mode)
  | .signalLock c mode => .lock .producer (.signalStop c mode)
  | .signalStop c mode => .setStopping (.signalUnlock c mode)
  | .signalUnlock c mode =>
    .unlock .producer
      (match mode with
        | .drain => .signalNotify c mode
        | .cancelPending => .cancelLock c .signalShutdown .producer)
  | .workersLock c => .lock .workers (.workersRead c)
  | .workersRead c => .read fun memory => .workersStop c memory.workers
  | .workersStop c (index :: rest) => .requestStop index (.workersStop c rest)
  | .workersStop c [] => .unlock .workers (.signalNotify c .cancelPending)
  | .signalNotify c mode => .notifyAll (.signalReturn c mode)
  | .signalReturn c mode =>
    .signalled mode
      (match c with
        | some _ => .resting c (some .shutDown)
        | none => .joinLock)
  | .joinLock => .lock .workers .joinSwap
  | .joinSwap => .swapWorkers fun rest => .joinUnlock rest
  | .joinUnlock rest => .unlock .workers (.join rest)
  | .join (index :: rest) => .join index (.join rest)
  | .join [] => .unlock .shutdown (.resting none (some .shutDown))
  | .stateLoad =>
    .read fun memory =>
      let state := memory.queueState
      if isEmpty state then
        .workerEnlist
      else if pendingFromState state == 0 && isStoppingState state then
        .workerExit
      else
        .consumerLock
  | .workerEnlist => .enlist .workers .workerObserve
  | .workerObserve =>
    .read fun memory =>
      let observed := memory.queueState
      if isEmpty observed then .workerWait observed else .workerDelist
  | .workerWait observed => .wait observed (.workerWait observed) .workerDelist
  | .workerDelist => .delist .workers .stateLoad
  | .workerExit => .exit .exited
  | .exited => .halt
  | .consumerLock => .lock .consumer .consumerLoad
  | .consumerLoad =>
    .load fun memory =>
      let state := memory.queueState
      if pendingFromState state = 0 then .consumerRetry else .headPeek state
  | .consumerRetry => .unlock .consumer .stateLoad
  | .headPeek state =>
    .peek
      (fun item =>
        if item.bulk then .bulkLoop (min bulkClaimSize (pendingFromState state)) []
        else .scalarTake)
      (.headPeek state)
  | .scalarTake => .take (fun item => .claim [item]) .scalarTake
  | .bulkLoop limit batch =>
    .read fun _ => if batch.length < limit then .bulkPeek limit batch else .claim batch
  | .bulkPeek limit batch =>
    .peek (fun item => if item.bulk then .bulkTake limit batch else .claim batch)
      (.bulkPeek limit batch)
  | .bulkTake limit batch =>
    .take (fun item => .bulkLoop limit (batch ++ [item])) (.bulkTake limit batch)
  | .claim batch => .claim batch.length (.consumerUnlock batch)
  | .consumerUnlock batch => .unlock .consumer (.producersWaiting batch)
  | .producersWaiting batch =>
    .read fun memory =>
      if memory.waiting .producers ≠ 0 then .producersNotify batch
      else .executeNext batch batch.length
  | .producersNotify batch => .notifyOne (.executeNext batch batch.length)
  -- the claimed tasks run one after the other, then all of them are finished at once
  | .executeNext batch claimed =>
    .read fun _ =>
      match batch with
      | item :: rest => .resting (some ⟨item, rest, claimed⟩) none
      | [] => .finish claimed
  | .complete f outcome =>
    .complete f.item outcome (.executeNext f.rest f.claimed) (.complete f outcome)
  | .finish claimed =>
    .finish claimed fun previous =>
      if activeFromState previous == claimed && pendingFromState previous == 0 then
        .finishIdle
      else
        .stateLoad
  | .finishIdle =>
    .read fun memory => if memory.waiting .idle = 0 then .stateLoad else .finishEpoch
  | .finishEpoch => .addEpoch .finishEpochNotify
  | .finishEpochNotify => .notifyEpoch .stateLoad

end Pc

structure State (cfg : Config) (C : Type) where
  memory : Memory cfg C
  pc : Thread cfg C → Pc cfg

-- `spurious` is a wake-up of the standard library's own.
inductive Event (cfg : Config) (C : Type) where
  | step (thread : Thread cfg C) (choice : Choice cfg C)
  | spurious (thread : Thread cfg C)

def Event.goes (thread : Thread cfg C) (count : Nat) : List (Event cfg C) :=
  List.replicate count (.step thread .go)

namespace State

variable {cfg : Config} {C : Type} [Fintype C] [DecidableEq C]

def init : State cfg C where
  memory := {}
  pc thread :=
    match thread with
    | .worker _ => .stateLoad
    | .client _ => .resting none none

def step (s : State cfg C) (event : Event cfg C) : Option (State cfg C) :=
  match event with
  | .step thread choice =>
    ((s.pc thread).code.exec thread s.memory choice).map fun (memory, pc) =>
      { memory := memory, pc := Function.update s.pc thread pc }
  | .spurious thread =>
    some { s with memory := (s.memory.setStateSleeper thread false).setEpochSleeper thread false }

end State

/--
A pool and the clients `C` that use it.
-/
def system (cfg : Config) (C : Type) [Fintype C] [DecidableEq C]
    : System (State cfg C) (Event cfg C) where
  init := State.init
  step := State.step

def tinyConfig : Config := .word64 1 1 (by decide) (by decide)

def narrowConfig : Config := .word64 1 2 (by decide) (by decide)

def pairConfig : Config := .word64 2 2 (by decide) (by decide)

def tinyRun : List (Event tinyConfig Unit) :=
  let client := .client ()
  let worker := .worker (0 : Fin 1)
  .step client (.call .submit) :: Event.goes client 8 ++
    Event.goes worker 9 ++ .step worker (.ret (.result (.ok ()))) :: Event.goes worker 4 ++
    .step client (.call (.shutdown .drain)) :: Event.goes client 9 ++
    Event.goes worker 2 ++ Event.goes client 2

end Vosp.Pool
