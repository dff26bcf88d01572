import Mathlib.Data.Prod.Lex
import Vosp.Lib.Termination
import Vosp.Logger.SerializedDispatch

/-!
This module says that the calls of the synchronous logger come to an end, whichever way its threads and the sink
callbacks take turns: every step brings a call nearer to its end, and while a call is left some thread can go on.
-/

namespace Vosp.SyncLogger

def Event.advances (event : Event) : Bool :=
  match event with
  | .call _ _ => false
  | .step _ _ | .finish _ _ => true

def CallPc.rank (pc : CallPc) : Nat ×ₗ Nat :=
  match pc with
  | .idle | .returned .. => toLex (0, 0)
  | .callbackUnlock .. | .unlock .. | .leave .. => toLex (1, 0)
  | .attachNull | .refresh _ => toLex (2, 0)
  | .deliver _ _ remaining _ => toLex (2, 2 * remaining.length)
  | .inCallback _ _ remaining _ => toLex (2, 2 * remaining.length + 1)
  | .attachPush _ | .detachErase _ | .callbackLock .. => toLex (3, 0)
  | .attachTest _ | .detachLock _ | .readUnlock .. => toLex (4, 0)
  | .attachLock _ | .read _ => toLex (5, 0)
  | .readLock _ => toLex (6, 0)
  | .load _ => toLex (7, 0)
  | .stamp .. => toLex (8, 0)
  | .write .. => toLex (9, 0)

variable {config : Config} {call other : Call} {m m' : Memory} {now : TimePoint} {pc pc' : CallPc}

theorem Edge.rank_lt (h : Edge config call m pc m' pc') : pc'.rank < pc.rank := by
  cases h
  case deliver =>
    simp only [CallPc.rank, List.length_cons]
    exact Prod.Lex.right _ (by omega)
  all_goals exact Prod.Lex.left _ _ (by decide)

theorem Edge.active (h : Edge config call m pc m' pc') : pc.active = true := by
  cases h <;> rfl

theorem CallPc.can_step (config : Config) (m : Memory) (now : TimePoint) (hactive : pc.active = true)
    (hout : pc.inSink = false)
    (hmutex : pc.wants m call.thread = some .mutex → m.owner = none)
    (hcallback : pc.wants m call.thread = some .callbackMutex → m.callbackOwners = [])
    : ∃ next, CallPc.step config m call now pc = some next := by
  cases pc
  case attachLock | detachLock | readLock =>
    simp only [step, Memory.acquire, hmutex rfl, ↓reduceIte, Option.map_some]
    exact ⟨_, rfl⟩
  case callbackLock =>
    have howners : ∀ other ∈ m.callbackOwners, other.thread = call.thread := by
      by_contra hother
      rw [hcallback (if_neg hother)] at hother
      exact hother (fun other hmem => absurd hmem List.not_mem_nil)
    simp only [step, Memory.acquireCallback, if_pos howners, Option.map_some]
    split <;> exact ⟨_, rfl⟩
  case deliver remaining _ => cases remaining <;> exact ⟨_, rfl⟩
  case inCallback => cases hout
  case idle | returned => cases hactive
  case attachTest | detachErase | write | load | readUnlock =>
    simp only [step]
    split <;> exact ⟨_, rfl⟩
  all_goals exact ⟨_, rfl⟩

namespace State

variable {s s' : State} {event : Event}

theorem rank_lt (h : s.step config event = some s') (hadvances : event.advances = true)
    : (s'.call event.subject).rank < (s.call event.subject).rank := by
  cases step_cases h with
  | start => cases hadvances
  | @call call m pc now hedge =>
    simp only [Event.subject, setCall_self]
    exact hedge.rank_lt
  | @accepted _ _ _ _ call hcall accepted =>
    simp only [Event.subject, setCall_self, hcall, CallPc.rank]
    exact Prod.Lex.right _ (Nat.lt_succ_self _)
  | @thrown _ _ _ _ call hcall =>
    simp only [Event.subject, setCall_self, hcall, CallPc.rank]
    exact Prod.Lex.left _ _ (by decide)

theorem active_of_step (h : s.step config event = some s') (hadvances : event.advances = true)
    : (s.call event.subject).active = true := by
  cases step_cases h with
  | start => cases hadvances
  | call hedge => exact hedge.active
  | accepted hcall | thrown hcall =>
    simp only [Event.subject, hcall]
    rfl

theorem callbackOwners_step (hserializes : config.serializesCallbacks = false) (hnone : s.memory.callbackOwners = [])
    (h : s.step config event = some s')
    : s'.memory.callbackOwners = [] := by
  cases event <;> simp only [step] at h
  case call call request =>
    split at h
    . cases h
      exact hnone
    . cases h
  case step call now =>
    obtain ⟨⟨m, pc⟩, hpc, rfl⟩ := Option.map_eq_some_iff.mp h
    generalize s.call call = before at hpc
    cases before
    case callbackLock | callbackUnlock =>
      simp only [CallPc.step, hserializes, Bool.false_eq_true, ↓reduceIte] at hpc
      cases hpc
      exact hnone
    all_goals
      have hedge := edge_of_step hpc
      cases hedge
      all_goals exact hnone
  case finish call accepted =>
    unfold stepFinish at h
    split at h
    . cases accepted <;> cases h <;> exact hnone
    . cases h

end State

namespace Threads

variable {s s' : Threads} {event : Event}

theorem logger_step (h : s.step config event = some s') : s.logger.step config event = some s'.logger := by
  cases event with
  | call call request =>
    simp only [step] at h
    split at h
    . obtain ⟨logger, hlogger, rfl⟩ := Option.map_eq_some_iff.mp h
      exact hlogger
    . cases h
  | step call _ | finish call _ =>
    simp only [step, advance] at h
    split at h
    . obtain ⟨logger, hlogger, rfl⟩ := Option.map_eq_some_iff.mp h
      exact hlogger
    . cases h

theorem owned (hs : (threads config).Reachable s) : s.logger.Owned := by
  apply System.ReachableVia.invariant (I := fun s => s.logger.Owned) _ _ hs
  . exact State.Serialized.init.owned
  . exact fun _ _ _ _ h _ hstep => h.step (State.step_cases (logger_step hstep))

theorem callbackOwners_eq_nil (hserializes : config.serializesCallbacks = false) (hs : (threads config).Reachable s)
    : s.logger.memory.callbackOwners = [] := by
  apply System.ReachableVia.invariant (I := fun s => s.logger.memory.callbackOwners = []) rfl _ hs
  exact fun _ _ _ _ h _ hstep => State.callbackOwners_step hserializes h (logger_step hstep)

theorem terminates (hs : (threads config).Reachable s) : (threads config).Terminates Event.advances s := by
  obtain ⟨F, hF⟩ := hs.exists_finset (A := fun s call => (s.logger.call call).active = true) Event.subject
    (fun _ => Bool.false_ne_true) (fun s event s' hstep call hne hactive => by
      rw [State.step_of_ne (logger_step hstep) hne] at hactive
      exact hactive)
  apply System.terminates_of_rank (I := fun s => ∀ call, (s.logger.call call).active = true → call ∈ F)
    (fun s call => (s.logger.call call).rank) F _ hF
  intro s event s' hbusy hadvances hstep
  have hlogger := logger_step hstep
  have hsubject := hbusy _ (State.active_of_step hlogger hadvances)
  constructor
  . intro call hactive
    by_cases hcall : call = event.subject
    . rw [hcall]
      exact hsubject
    . rw [State.step_of_ne hlogger hcall] at hactive
      exact hbusy call hactive
  . refine ⟨event.subject, hsubject, State.rank_lt hlogger hadvances, ?_⟩
    intro call hne
    rw [State.step_of_ne hlogger hne]

theorem can_advance (h : s.Stacked) {innermost : Call} {rest : List Call} {thread : Nat}
    (hstack : s.stack thread = innermost :: rest)
    (hfree : ∀ lock, s.wants thread = some lock → s.holder lock = none)
    : ¬(threads config).Halted Event.advances s := by
  have hmem : innermost ∈ s.stack thread := by
    rw [hstack]
    exact List.mem_cons_self
  obtain rfl := h.thread_eq thread innermost hmem
  have hactive := (h.mem_iff innermost).mp hmem
  have hhead : (s.stack innermost.thread).head? = some innermost := by
    rw [hstack]
    rfl
  intro hhalted
  cases hout : (s.logger.call innermost).inSink with
  | true =>
    have hfinish : s.step config (.finish innermost none) = none := hhalted (.finish innermost none) rfl
    simp only [step, advance, if_pos hhead, Option.map_eq_none_iff, State.step, State.stepFinish] at hfinish
    generalize s.logger.call innermost = pc at hout hfinish
    cases pc
    case inCallback => cases hfinish
    all_goals cases hout
  | false =>
    have hwants : s.wants innermost.thread = (s.logger.call innermost).wants s.logger.memory innermost.thread := by
      unfold wants
      rw [hstack]
    rw [hwants] at hfree
    have hmutex := fun hlock => Option.map_eq_none_iff.mp (hfree .mutex hlock)
    have hcallback := fun hlock => List.head?_eq_none_iff.mp (Option.map_eq_none_iff.mp (hfree .callbackMutex hlock))
    obtain ⟨next, hnext⟩ := CallPc.can_step config s.logger.memory 0 hactive hout hmutex hcallback
    have hstep : s.step config (.step innermost 0) = none := hhalted (.step innermost 0) rfl
    simp only [step, advance, if_pos hhead, Option.map_eq_none_iff, State.step] at hstep
    rw [hnext] at hstep
    cases hstep

theorem stack_ne_nil (h : s.Stacked) (hactive : (s.logger.call call).active = true)
    : s.stack call.thread ≠ [] := by
  intro hempty
  have hmem := (h.mem_iff call).mpr hactive
  rw [hempty] at hmem
  cases hmem

theorem holder_stack_ne_nil (h : s.Stacked) (howned : s.logger.Owned)
    (hdispatches : ∀ call ∈ s.logger.memory.callbackOwners, (s.logger.call call).dispatches = true) {lock : Lock}
    {thread : Nat} (hholder : s.holder lock = some thread)
    : s.stack thread ≠ [] := by
  cases lock with
  | mutex =>
    obtain ⟨owner, howner, rfl⟩ := Option.map_eq_some_iff.mp hholder
    exact stack_ne_nil h (CallPc.of_holds ((howned owner).mpr howner) s.logger.memory owner.thread).1
  | callbackMutex =>
    obtain ⟨owner, howner, rfl⟩ := Option.map_eq_some_iff.mp hholder
    apply stack_ne_nil h
    have hdispatching := hdispatches owner (List.mem_of_mem_head? howner)
    generalize s.logger.call owner = pc at hdispatching
    cases pc
    case deliver | inCallback | callbackUnlock => rfl
    all_goals cases hdispatching

theorem idle_of_halted (h : s.Stacked) (howned : s.logger.Owned)
    (hdispatches : ∀ call ∈ s.logger.memory.callbackOwners, (s.logger.call call).dispatches = true)
    (hranked : WaitGraph.Ranked Lock.level s.wants s.holder) (hhalted : (threads config).Halted Event.advances s)
    (call : Call)
    : (s.logger.call call).active = false := by
  rw [← Bool.not_eq_true]
  intro hactive
  obtain ⟨thread, hpath, hfree⟩ := hranked.exists_unblocked call.thread
  have hstack : s.stack thread ≠ [] := by
    cases hpath.cases_tail with
    | inl heq =>
      rw [heq]
      exact stack_ne_nil h hactive
    | inr hlast =>
      obtain ⟨_, _, lock, _, hholder⟩ := hlast
      exact holder_stack_ne_nil h howned hdispatches hholder
  obtain ⟨innermost, rest, hcons⟩ := List.exists_cons_of_ne_nil hstack
  exact can_advance h hcons hfree hhalted

theorem Stacked.halted (h : s.Stacked) (hidle : ∀ call, (s.logger.call call).active = false)
    : (threads config).Halted Event.advances s := by
  have hnone : ∀ call, (s.stack call.thread).head? ≠ some call := by
    intro call hhead
    have hactive := (h.mem_iff call).mp (List.mem_of_mem_head? hhead)
    rw [hidle call] at hactive
    cases hactive
  intro event hadvances
  cases event with
  | call => cases hadvances
  | step call _ | finish call _ => exact if_neg (hnone call)

theorem ranked_of_parallel (h : s.Stacked) (howned : s.logger.Owned) (hnone : s.logger.memory.callbackOwners = [])
    : WaitGraph.Ranked Lock.level s.wants s.holder := by
  intro thread lock wanted hholder hwants
  cases lock with
  | mutex =>
    obtain ⟨owner, howner, rfl⟩ := Option.map_eq_some_iff.mp hholder
    obtain ⟨hactive, hout, hwaits⟩ := CallPc.of_holds ((howned owner).mpr howner) s.logger.memory owner.thread
    obtain ⟨rest, hstack⟩ := List.head?_eq_some_iff.mp (h.head_eq hactive hout)
    rw [wants, hstack] at hwants
    dsimp only at hwants
    rw [hwaits] at hwants
    cases hwants
  | callbackMutex =>
    rw [holder, hnone] at hholder
    cases hholder

/--
All calls return, also those that a sink callback makes.
-/
structure Returns (config : Config) (s : Threads) : Prop where
  terminates : (threads config).Terminates Event.advances s
  halted : (threads config).Halted Event.advances s ↔ ∀ call, (s.logger.call call).active = false
  unlocked : (∀ call, (s.logger.call call).active = false) →
    s.logger.memory.owner = none ∧ s.logger.memory.callbackOwners = []

theorem returns (hs : (threads config).Reachable s)
    (hdispatches : ∀ call ∈ s.logger.memory.callbackOwners, (s.logger.call call).dispatches = true)
    (hranked : WaitGraph.Ranked Lock.level s.wants s.holder)
    : s.Returns config := by
  have h := stacked hs
  have howned := owned hs
  constructor
  case terminates => exact terminates hs
  case halted => exact ⟨idle_of_halted h howned hdispatches hranked, h.halted⟩
  case unlocked =>
    intro hidle
    have hfree : ∀ lock, s.holder lock = none := by
      intro lock
      cases hholder : s.holder lock with
      | none => rfl
      | some thread =>
        exfalso
        apply holder_stack_ne_nil h howned hdispatches hholder
        cases hstack : s.stack thread with
        | nil => rfl
        | cons innermost rest =>
          have hmem : innermost ∈ s.stack thread := by
            rw [hstack]
            exact List.mem_cons_self
          obtain rfl := h.thread_eq thread innermost hmem
          have hactive := (h.mem_iff innermost).mp hmem
          rw [hidle innermost] at hactive
          cases hactive
    constructor
    . exact Option.map_eq_none_iff.mp (hfree .mutex)
    . exact List.head?_eq_none_iff.mp (Option.map_eq_none_iff.mp (hfree .callbackMutex))

end Threads

end Vosp.SyncLogger

namespace Vosp

open SyncLogger

theorem sync_logger_calls_return {config : Config} {s : Threads} (hs : (threads config).Reachable s)
    : s.Returns config := by
  cases hserializes : config.serializesCallbacks with
  | true =>
    have hserialized := Threads.serialized hserializes hs
    exact Threads.returns hs (fun call hmem => (hserialized.holds_iff call).mpr hmem)
      (Threads.ranked (Threads.stacked hs) hserialized)
  | false =>
    have hnone := Threads.callbackOwners_eq_nil hserializes hs
    apply Threads.returns hs
    . intro call hmem
      rw [hnone] at hmem
      cases hmem
    . exact Threads.ranked_of_parallel (Threads.stacked hs) (Threads.owned hs) hnone

theorem sync_logger_calls_return_reentrant
    : ∃ s : Threads, s.wants 2 = some .callbackMutex ∧ s.wants 3 = some .mutex ∧
        s.Returns ⟨acceptAllPolicy, fullMetadataPolicy, true⟩ := by
  have hrun : ((threads ⟨acceptAllPolicy, fullMetadataPolicy, true⟩).run .init reentrantRun).map
      (fun s => decide (s.wants 2 = some .callbackMutex) && decide (s.wants 3 = some .mutex)) = some true := by
    decide +kernel
  obtain ⟨s, hs, hp⟩ := System.exists_of_run _ hrun
  simp only [Bool.and_eq_true, decide_eq_true_eq] at hp
  exact ⟨s, hp.1, hp.2, sync_logger_calls_return hs⟩

end Vosp
