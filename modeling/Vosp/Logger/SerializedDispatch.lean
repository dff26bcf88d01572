import Vosp.Lib.WaitGraph
import Vosp.Logger.SyncLoggerStep

/-!
This module contains the threads that use the synchronous logger. A sink callback may call the logger
again, so a thread has a stack of calls, of which only the innermost one takes steps. With serialized
callbacks only one thread at a time is inside them, and the two mutexes are always taken in one order.
-/

namespace Vosp.SyncLogger

def CallPc.inSink (pc : CallPc) : Bool :=
  match pc with
  | .inCallback .. => true
  | _ => false

def CallPc.dispatches (pc : CallPc) : Bool :=
  match pc with
  | .deliver .. | .inCallback .. | .callbackUnlock .. => true
  | _ => false

def CallPc.active (pc : CallPc) : Bool :=
  match pc with
  | .idle | .returned .. => false
  | _ => true

/--
The logger with the calls of every thread, the innermost one first.
-/
structure Threads where
  logger : State
  stack : Nat → List Call

namespace Threads

def init : Threads where
  logger := .init
  stack _ := []

-- A thread calls the logger from outside, or from the callback that it runs.
def mayCall (s : Threads) (thread : Nat) : Bool :=
  match s.stack thread with
  | [] => true
  | call :: _ => (s.logger.call call).inSink

def advance (config : Config) (s : Threads) (call : Call) (event : Event) : Option Threads :=
  if (s.stack call.thread).head? = some call then
    (s.logger.step config event).map fun logger =>
      let stack := s.stack call.thread
      let stack := if (logger.call call).active then stack else stack.tail
      { logger := logger, stack := Function.update s.stack call.thread stack }
  else
    none

def step (config : Config) (s : Threads) (event : Event) : Option Threads :=
  match event with
  | .call call _ =>
    if s.mayCall call.thread then
      (s.logger.step config event).map fun logger =>
        { logger := logger, stack := Function.update s.stack call.thread (call :: s.stack call.thread) }
    else
      none
  | .step call _ => s.advance config call event
  | .finish call _ => s.advance config call event

end Threads

def threads (config : Config) : System Threads Event where
  init := .init
  step := Threads.step config

inductive Lock where
  | mutex
  | callbackMutex
  deriving DecidableEq

def Lock.level (lock : Lock) : Nat :=
  match lock with
  | .mutex => 0
  | .callbackMutex => 1

-- The mutex that a call waits for. The callback mutex does not block the thread that owns it.
def CallPc.wants (m : Memory) (thread : Nat) (pc : CallPc) : Option Lock :=
  match pc with
  | .attachLock _ | .detachLock _ | .readLock _ => some .mutex
  | .callbackLock .. => if ∀ other ∈ m.callbackOwners, other.thread = thread then none else some .callbackMutex
  | _ => none

namespace Threads

def wants (s : Threads) (thread : Nat) : Option Lock :=
  match s.stack thread with
  | [] => none
  | call :: _ => (s.logger.call call).wants s.logger.memory thread

def holder (s : Threads) (lock : Lock) : Option Nat :=
  match lock with
  | .mutex => s.logger.memory.owner.map Call.thread
  | .callbackMutex => s.logger.memory.callbackOwners.head?.map Call.thread

end Threads

variable {config : Config} {call other : Call} {m m' : Memory} {now : TimePoint} {pc pc' : CallPc}

theorem callbackOwners_of_step (hserializes : config.serializesCallbacks = true)
    (h : CallPc.step config m call now pc = some (m', pc'))
    : (pc.dispatches = false ∧ pc'.dispatches = true ∧ (∀ other ∈ m.callbackOwners, other.thread = call.thread) ∧
          m'.callbackOwners = call :: m.callbackOwners) ∨
        (pc.dispatches = true ∧ pc'.dispatches = false ∧ m'.callbackOwners = m.callbackOwners.erase call) ∨
        (pc'.dispatches = pc.dispatches ∧ m'.callbackOwners = m.callbackOwners) := by
  cases pc
  case callbackLock entry selection =>
    simp only [CallPc.step, hserializes, ↓reduceIte] at h
    obtain ⟨m₁, hacquire, hpair⟩ := Option.map_eq_some_iff.mp h
    unfold Memory.acquireCallback at hacquire
    split at hacquire
    . next hthread =>
      cases hacquire
      cases hpair
      exact .inl ⟨rfl, rfl, hthread, rfl⟩
    . cases hacquire
  case callbackUnlock selection accepted =>
    simp only [CallPc.step, hserializes, ↓reduceIte] at h
    cases h
    exact .inr (.inl ⟨rfl, rfl, rfl⟩)
  all_goals
    have hedge := edge_of_step h
    cases hedge
    all_goals exact .inr (.inr ⟨rfl, rfl⟩)

def Event.subject (event : Event) : Call :=
  match event with
  | .call call _ | .step call _ | .finish call _ => call

namespace State

variable {s s' : State} {event : Event}

structure Serialized (s : State) : Prop where
  owned : s.Owned
  holds_iff : ∀ call, (s.call call).dispatches = true ↔ call ∈ s.memory.callbackOwners
  nodup : s.memory.callbackOwners.Nodup
  thread_eq : ∀ call ∈ s.memory.callbackOwners, ∀ other ∈ s.memory.callbackOwners, call.thread = other.thread

namespace Serialized

theorem same (h : s.Serialized) (howned : (({ s with memory := m } : State).setCall call pc).Owned)
    (howners : m.callbackOwners = s.memory.callbackOwners) (hpc : pc.dispatches = (s.call call).dispatches)
    : (({ s with memory := m } : State).setCall call pc).Serialized where
  owned := howned
  holds_iff u := by
    simp only [setCall, howners, ← h.holds_iff u]
    by_cases hu : u = call
    . rw [hu, Function.update_self, hpc]
    . rw [Function.update_of_ne hu]
  nodup := by
    simp only [setCall, howners]
    exact h.nodup
  thread_eq := by
    simp only [setCall, howners]
    exact h.thread_eq

theorem step (hserializes : config.serializesCallbacks = true) (h : s.Serialized)
    (hstep : s.step config event = some s')
    : s'.Serialized := by
  have howned : s'.Owned := h.owned.step (step_cases hstep)
  cases event <;> simp only [State.step] at hstep
  case call call request =>
    split at hstep
    . next hidle =>
      cases hstep
      apply h.same howned rfl
      rw [hidle]
      rcases request with _ | (_ | _) | _ | _ <;> rfl
    . cases hstep
  case step call now =>
    obtain ⟨⟨m, pc⟩, hpc, rfl⟩ := Option.map_eq_some_iff.mp hstep
    rcases callbackOwners_of_step hserializes hpc with
      ⟨hbefore, hafter, hthread, howners⟩ | ⟨hbefore, hafter, howners⟩ | ⟨hsame, howners⟩
    . have hnew : call ∉ s.memory.callbackOwners := by
        rw [← h.holds_iff, hbefore]
        exact Bool.false_ne_true
      constructor
      case owned => exact howned
      case holds_iff =>
        intro u
        simp only [setCall, howners, List.mem_cons, ← h.holds_iff u]
        by_cases hu : u = call
        . rw [hu, Function.update_self, hafter]
          simp
        . rw [Function.update_of_ne hu]
          simp [hu]
      case nodup =>
        simp only [setCall, howners]
        exact List.nodup_cons.mpr ⟨hnew, h.nodup⟩
      case thread_eq =>
        simp only [setCall, howners, List.mem_cons]
        rintro u (rfl | hu) v (rfl | hv)
        . rfl
        . exact (hthread v hv).symm
        . exact hthread u hu
        . exact h.thread_eq u hu v hv
    . constructor
      case owned => exact howned
      case holds_iff =>
        intro u
        simp only [setCall, howners]
        rw [h.nodup.mem_erase_iff, ← h.holds_iff u]
        by_cases hu : u = call
        . rw [hu, Function.update_self, hafter]
          simp
        . rw [Function.update_of_ne hu]
          simp [hu]
      case nodup =>
        simp only [setCall, howners]
        exact h.nodup.erase call
      case thread_eq =>
        simp only [setCall, howners]
        exact fun u hu v hv => h.thread_eq u (List.mem_of_mem_erase hu) v (List.mem_of_mem_erase hv)
    . exact h.same howned howners hsame
  case finish call accepted =>
    unfold stepFinish at hstep
    split at hstep
    . next hcall =>
      cases accepted with
      | some accepted =>
        cases hstep
        apply h.same howned rfl
        rw [hcall]
        rfl
      | none =>
        cases hstep
        apply h.same howned rfl
        rw [hcall]
        rfl
    . cases hstep

theorem init : State.init.Serialized where
  owned _ := iff_of_false Bool.false_ne_true (Option.some_ne_none _).symm
  holds_iff _ := iff_of_false Bool.false_ne_true List.not_mem_nil
  nodup := List.nodup_nil
  thread_eq _ hmem := absurd hmem List.not_mem_nil

end Serialized

theorem step_of_ne (h : s.step config event = some s') (hne : other ≠ event.subject)
    : s'.call other = s.call other := by
  cases step_cases h with
  | start | call | accepted | thrown => exact setCall_of_ne hne

end State

namespace Threads

variable {s s' : Threads} {event : Event} {thread : Nat}

structure Stacked (s : Threads) : Prop where
  thread_eq : ∀ thread, ∀ call ∈ s.stack thread, call.thread = thread
  nodup : ∀ thread, (s.stack thread).Nodup
  mem_iff : ∀ call, call ∈ s.stack call.thread ↔ (s.logger.call call).active = true
  outer : ∀ thread, ∀ call ∈ (s.stack thread).tail, (s.logger.call call).inSink = true

namespace Stacked

theorem init : Threads.init.Stacked where
  thread_eq _ _ hmem := absurd hmem List.not_mem_nil
  nodup _ := List.nodup_nil
  mem_iff _ := iff_of_false List.not_mem_nil Bool.false_ne_true
  outer _ _ hmem := absurd hmem List.not_mem_nil

theorem update (h : s.Stacked) {logger : State} {stack : List Call}
    (hframe : ∀ other, other ≠ call → logger.call other = s.logger.call other) (hnodup : stack.Nodup)
    (hmem : ∀ other, other ≠ call → (other ∈ stack ↔ other ∈ s.stack call.thread))
    (hcall : call ∈ stack ↔ (logger.call call).active = true)
    (houter : ∀ other ∈ stack.tail, other ≠ call ∧ (s.logger.call other).inSink = true)
    : Stacked { logger := logger, stack := Function.update s.stack call.thread stack } := by
  have hne : ∀ thread, thread ≠ call.thread → ∀ other ∈ s.stack thread, other ≠ call := by
    rintro thread hthread other hother rfl
    exact hthread (h.thread_eq thread other hother).symm
  constructor
  case thread_eq =>
    intro thread
    dsimp only
    by_cases hthread : thread = call.thread
    . subst hthread
      rw [Function.update_self]
      intro other hother
      by_cases hother' : other = call
      . rw [hother']
      . exact h.thread_eq _ other ((hmem other hother').mp hother)
    . rw [Function.update_of_ne hthread]
      exact h.thread_eq thread
  case nodup =>
    intro thread
    dsimp only
    by_cases hthread : thread = call.thread
    . rw [hthread, Function.update_self]
      exact hnodup
    . rw [Function.update_of_ne hthread]
      exact h.nodup thread
  case mem_iff =>
    intro other
    dsimp only
    by_cases hother : other = call
    . rw [hother, Function.update_self]
      exact hcall
    . simp only [hframe other hother, ← h.mem_iff other]
      by_cases hthread : other.thread = call.thread
      . rw [hthread, Function.update_self]
        exact hmem other hother
      . rw [Function.update_of_ne hthread]
  case outer =>
    intro thread
    dsimp only
    by_cases hthread : thread = call.thread
    . rw [hthread, Function.update_self]
      intro other hother
      obtain ⟨hother', hin⟩ := houter other hother
      rw [hframe other hother']
      exact hin
    . rw [Function.update_of_ne hthread]
      intro other hother
      rw [hframe other (hne thread hthread other (List.mem_of_mem_tail hother))]
      exact h.outer thread other hother

theorem advance (h : s.Stacked) (hstep : s.advance config call event = some s')
    (hsubject : event.subject = call)
    : s'.Stacked := by
  unfold Threads.advance at hstep
  split at hstep
  . next hhead =>
    obtain ⟨logger, hlogger, rfl⟩ := Option.map_eq_some_iff.mp hstep
    obtain ⟨rest, hstack⟩ := List.head?_eq_some_iff.mp hhead
    have hnodup := h.nodup call.thread
    have houter := h.outer call.thread
    rw [hstack] at hnodup houter
    have hnew := (List.nodup_cons.mp hnodup).1
    have hrest : ∀ other ∈ rest, other ≠ call ∧ (s.logger.call other).inSink = true :=
      fun other hother => ⟨fun heq => hnew (heq ▸ hother), houter other hother⟩
    apply h.update (fun other hother => State.step_of_ne hlogger (hsubject ▸ hother))
    all_goals simp only [hstack]
    . split
      . exact hnodup
      . exact (List.nodup_cons.mp hnodup).2
    . intro other hother
      split
      . rfl
      . simp [hother]
    . split
      . next hactive => simp [hactive]
      . next hactive => simp [hactive, hnew]
    . split
      . exact hrest
      . exact fun other hother => hrest other (List.mem_of_mem_tail hother)
  . cases hstep

theorem step (h : s.Stacked) (hstep : s.step config event = some s') : s'.Stacked := by
  cases event with
  | step call now => exact h.advance hstep rfl
  | finish call accepted => exact h.advance hstep rfl
  | call call request =>
    simp only [Threads.step] at hstep
    split at hstep
    . next hmay =>
      obtain ⟨logger, hlogger, rfl⟩ := Option.map_eq_some_iff.mp hstep
      have hnew : call ∉ s.stack call.thread := by
        rw [h.mem_iff]
        cases State.step_cases hlogger with
        | start request hidle => simp [hidle, CallPc.active]
      have hframe : ∀ other, other ≠ call → logger.call other = s.logger.call other :=
        fun other hother => State.step_of_ne hlogger hother
      apply h.update hframe
      . exact List.nodup_cons.mpr ⟨hnew, h.nodup call.thread⟩
      . intro other hother
        simp [hother]
      . cases State.step_cases hlogger with
        | start request hidle =>
          rw [State.setCall_self]
          rcases request with _ | (_ | _) | _ | _ <;> simp [Request.entry, CallPc.active]
      . intro other hother
        refine ⟨fun heq => hnew (heq ▸ hother), ?_⟩
        have houter := h.outer call.thread other
        unfold mayCall at hmay
        rw [List.tail_cons] at hother
        cases hstack : s.stack call.thread with
        | nil =>
          rw [hstack] at hother
          exact absurd hother List.not_mem_nil
        | cons innermost rest =>
          rw [hstack] at hother hmay houter
          rcases List.mem_cons.mp hother with rfl | hrest
          . exact hmay
          . exact houter hrest
    . cases hstep

theorem head_eq (h : s.Stacked) (hactive : (s.logger.call call).active = true)
    (hout : (s.logger.call call).inSink = false)
    : (s.stack call.thread).head? = some call := by
  have hmem := (h.mem_iff call).mpr hactive
  have houter := h.outer call.thread call
  cases hstack : s.stack call.thread with
  | nil =>
    rw [hstack] at hmem
    exact absurd hmem List.not_mem_nil
  | cons innermost rest =>
    rw [hstack] at hmem houter
    rcases List.mem_cons.mp hmem with rfl | hrest
    . rfl
    . rw [houter hrest] at hout
      cases hout

end Stacked

theorem serialized_advance (hserializes : config.serializesCallbacks = true) (h : s.logger.Serialized)
    (hstep : s.advance config call event = some s')
    : s'.logger.Serialized := by
  unfold Threads.advance at hstep
  split at hstep
  . obtain ⟨logger, hlogger, rfl⟩ := Option.map_eq_some_iff.mp hstep
    exact h.step hserializes hlogger
  . cases hstep

theorem serialized_step (hserializes : config.serializesCallbacks = true) (h : s.logger.Serialized)
    (hstep : s.step config event = some s')
    : s'.logger.Serialized := by
  cases event with
  | step call now => exact serialized_advance hserializes h hstep
  | finish call accepted => exact serialized_advance hserializes h hstep
  | call call request =>
    simp only [Threads.step] at hstep
    split at hstep
    . obtain ⟨logger, hlogger, rfl⟩ := Option.map_eq_some_iff.mp hstep
      exact h.step hserializes hlogger
    . cases hstep

theorem stacked (hs : (threads config).Reachable s) : s.Stacked :=
  hs.invariant .init fun _ _ _ _ h _ hstep => h.step hstep

theorem serialized (hserializes : config.serializesCallbacks = true) (hs : (threads config).Reachable s)
    : s.logger.Serialized := by
  apply System.ReachableVia.invariant .init _ hs
  intro s event s' _ h _ hstep
  exact serialized_step hserializes h hstep

end Threads

namespace CallPc

theorem of_inSink (h : pc.inSink = true) : pc.holds = false ∧ pc.dispatches = true := by
  cases pc
  case inCallback => exact ⟨rfl, rfl⟩
  all_goals cases h

theorem of_holds (h : pc.holds = true) (m : Memory) (thread : Nat)
    : pc.active = true ∧ pc.inSink = false ∧ pc.wants m thread = none := by
  cases pc
  all_goals first | exact ⟨rfl, rfl, rfl⟩ | cases h

theorem wants_eq {thread : Nat} {lock : Lock} (h : pc.wants m thread = some lock)
    : lock = .mutex ∨ lock = .callbackMutex ∧ ∃ other ∈ m.callbackOwners, other.thread ≠ thread := by
  unfold wants at h
  split at h
  case h_4 =>
    split at h
    . cases h
    . next hother =>
      cases h
      exact .inr ⟨rfl, by simpa using hother⟩
  all_goals
    cases h
    try exact .inl rfl

end CallPc

namespace Threads

variable {s : Threads}

theorem ranked (h : s.Stacked) (hserialized : s.logger.Serialized)
    : WaitGraph.Ranked Lock.level s.wants s.holder := by
  intro thread lock wanted hholder hwants
  unfold wants at hwants
  split at hwants
  . cases hwants
  . next innermost rest hstack =>
    cases lock with
    | mutex =>
      obtain ⟨owner, howner, rfl⟩ := Option.map_eq_some_iff.mp hholder
      have hholds := (hserialized.owned owner).mpr howner
      obtain ⟨hactive, hout, hnone⟩ := CallPc.of_holds hholds s.logger.memory owner.thread
      have hhead := h.head_eq hactive hout
      rw [hstack] at hhead
      cases hhead
      rw [hnone] at hwants
      cases hwants
    | callbackMutex =>
      obtain ⟨owner, howner, rfl⟩ := Option.map_eq_some_iff.mp hholder
      have hmem := List.mem_of_mem_head? howner
      rcases CallPc.wants_eq hwants with rfl | ⟨-, other, hother, hne⟩
      . exact Nat.one_pos
      . exact absurd (hserialized.thread_eq other hother owner hmem) hne

/--
Callbacks of different threads do not overlap, no thread runs a callback with the mutex of the registry held, and
no threads wait for each other in a circle.
-/
structure Safe (s : Threads) : Prop where
  exclusive : ∀ call other, (s.logger.call call).inSink = true → (s.logger.call other).inSink = true →
    call.thread = other.thread
  unlocked : ∀ call, (s.logger.call call).inSink = true → s.logger.memory.owner ≠ some call
  outside : ∀ call owner, (s.stack call.thread).head? = some call → (s.logger.call call).inSink = true →
    s.logger.memory.owner = some owner → owner.thread ≠ call.thread
  acyclic : WaitGraph.Acyclic (WaitGraph.Waits s.wants s.holder)

theorem safe (h : s.Stacked) (hserialized : s.logger.Serialized) : s.Safe := by
  constructor
  case exclusive =>
    intro call other hcall hother
    apply hserialized.thread_eq
    . exact (hserialized.holds_iff call).mp (CallPc.of_inSink hcall).2
    . exact (hserialized.holds_iff other).mp (CallPc.of_inSink hother).2
  case unlocked =>
    intro call hcall howner
    have hholds := (hserialized.owned call).mpr howner
    rw [(CallPc.of_inSink hcall).1] at hholds
    cases hholds
  case outside =>
    intro call owner hhead hcall howner hthread
    have hholds := (hserialized.owned owner).mpr howner
    obtain ⟨hactive, hout, -⟩ := CallPc.of_holds hholds s.logger.memory owner.thread
    have hhead' := h.head_eq hactive hout
    rw [hthread, hhead] at hhead'
    cases hhead'
    rw [hcall] at hout
    cases hout
  case acyclic => exact (ranked h hserialized).acyclic

end Threads

end Vosp.SyncLogger

namespace Vosp

open SyncLogger

theorem serialized_dispatch_safe {config : Config} {s : Threads} (hserializes : config.serializesCallbacks = true)
    (hs : (threads config).Reachable s)
    : s.Safe :=
  Threads.safe (Threads.stacked hs) (Threads.serialized hserializes hs)

-- A thread attaches a sink and calls it, and the callback begins to detach it. A second thread waits for the
-- callback to end, a third one for the registry.
def reentrantRun : List SyncLogger.Event :=
  .call ⟨1, 0⟩ (.attach 5) :: List.replicate 5 (.step ⟨1, 0⟩ 0) ++
    .call ⟨1, 1⟩ (.write .info ⟨.network, 7, []⟩) :: List.replicate 5 (.step ⟨1, 1⟩ 0) ++
    .call ⟨2, 0⟩ (.write .info ⟨.network, 7, []⟩) :: List.replicate 3 (.step ⟨2, 0⟩ 0) ++
    [.call ⟨1, 2⟩ (.detach 5), .step ⟨1, 2⟩ 0, .call ⟨3, 0⟩ (.attach 7)]

theorem serialized_dispatch_safe_reentrant
    : ∃ s : Threads, s.stack 1 = [⟨1, 2⟩, ⟨1, 1⟩] ∧ s.wants 2 = some .callbackMutex ∧ s.wants 3 = some .mutex ∧
        s.holder .mutex = some 1 ∧ s.Safe := by
  have hrun : ((threads ⟨acceptAllPolicy, fullMetadataPolicy, true⟩).run .init reentrantRun).map
      (fun s => decide (s.stack 1 = [⟨1, 2⟩, ⟨1, 1⟩]) && decide (s.wants 2 = some .callbackMutex) &&
        decide (s.wants 3 = some .mutex) && decide (s.holder .mutex = some 1)) = some true := by
    decide +kernel
  obtain ⟨s, hs, hp⟩ := System.exists_of_run _ hrun
  simp only [Bool.and_eq_true, decide_eq_true_eq] at hp
  obtain ⟨⟨⟨hstack, hcallback⟩, hmutex⟩, hholder⟩ := hp
  exact ⟨s, hstack, hcallback, hmutex, hholder, serialized_dispatch_safe rfl hs⟩

end Vosp
