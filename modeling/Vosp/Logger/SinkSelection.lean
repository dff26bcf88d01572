import Vosp.Logger.SyncLoggerStep

/-!
This module contains the list of attached sinks that the synchronous logger implements. An `attach` or a
`detach` that succeeds changes it when it stores `single_non_owning_sink_`, not when it changes `sinks_`, so
that the cached pointer belongs to the list at every instant.
-/

namespace Vosp.SyncLogger

def Operation.run (list : List SinkSlot) (operation : Operation) : Response × List SinkSlot :=
  match operation with
  | .attach none => (.result false, list)
  | .attach (some slot) =>
    if slot.sink ∈ list.map SinkSlot.sink then
      (.result false, list)
    else
      (.result true, list ++ [slot])
  | .detach sink => (.result (sink ∈ list.map SinkSlot.sink), list.filter fun slot => slot.sink ≠ sink)
  | .write => (.selected list, list)

section

variable {list : List SinkSlot} {slot : SinkSlot} {sink : LogSink}

theorem Operation.run_attach (h : ∀ registered ∈ list, registered.sink ≠ slot.sink)
    : (Operation.attach (some slot)).run list = (.result true, list ++ [slot]) := by
  rw [run, if_neg]
  rw [List.mem_map]
  rintro ⟨registered, hmem, hsink⟩
  exact h registered hmem hsink

theorem Operation.run_attach_fail (h : ∃ registered ∈ list, registered.sink = slot.sink)
    : (Operation.attach (some slot)).run list = (.result false, list) := by
  rw [run, if_pos]
  exact List.mem_map.mpr h

theorem Operation.run_detach (h : ∃ registered ∈ list, registered.sink = sink)
    : (Operation.detach sink).run list = (.result true, list.filter fun slot => slot.sink ≠ sink) := by
  rw [run, decide_eq_true (List.mem_map.mpr h)]

theorem Operation.run_detach_fail (h : ∀ registered ∈ list, registered.sink ≠ sink)
    : (Operation.detach sink).run list = (.result false, list) := by
  rw [run, decide_eq_false, List.filter_eq_self.mpr]
  . exact fun registered hmem => decide_eq_true (h registered hmem)
  . rw [List.mem_map]
    rintro ⟨registered, hmem, hsink⟩
    exact h registered hmem hsink

theorem Operation.run_nodup (list : List SinkSlot) (operation : Operation) (h : (list.map SinkSlot.sink).Nodup)
    : ((operation.run list).2.map SinkSlot.sink).Nodup := by
  unfold run
  split
  . exact h
  . next slot =>
    split
    . exact h
    . next hnew =>
      rw [List.map_append, List.map_singleton, List.nodup_append]
      refine ⟨h, List.nodup_singleton _, ?_⟩
      rintro sink hsink _ hother rfl
      rw [List.mem_singleton.mp hother] at hsink
      exact hnew hsink
  . exact h.sublist (List.filter_sublist.map _)
  . exact h

theorem nodup_of_replay {log : List (Linear.Entry Call Operation Response)}
    (h : Linear.replay Operation.run [] log = some list)
    : (list.map SinkSlot.sink).Nodup :=
  Linear.replay_invariant (I := fun list => (list.map SinkSlot.sink).Nodup) Operation.run_nodup h List.nodup_nil

theorem eq_of_refresh_eq_some (h : refreshSingleSinkFastPath list = some sink) : list = [⟨sink, none⟩] := by
  unfold refreshSingleSinkFastPath at h
  split at h
  . next slot =>
    split at h
    . next howner =>
      cases h
      rw [← Option.isNone_iff_eq_none.mp howner]
    . cases h
  . cases h

theorem select_slots (list : List SinkSlot) : (select list).slots = list := by
  unfold select
  split <;> rfl

theorem select_eq (list : List SinkSlot) : select list = .empty ∨ (select list).slots ≠ [] := by
  cases list with
  | nil => exact .inl rfl
  | cons slot list =>
    right
    rw [select_slots]
    nofun

end

namespace State

variable {config : Config} {s s' : State} {event : Event} {call other : Call} {list : List SinkSlot} {m : Memory}
  {pc : CallPc}

structure Consistent (s : State) (list : List SinkSlot) : Prop where
  attached : Linear.replay Operation.run [] s.memory.history.log = some list
  cached : s.memory.singleNonOwningSink = refreshSingleSinkFastPath list
  sinks : (∀ call operation, s.call call ≠ .refresh operation) → s.memory.sinks = list
  refresh : ∀ call operation, s.call call = .refresh operation → operation.run list = (.result true, s.memory.sinks)
  push : ∀ call slot, s.call call = .attachPush slot → ∀ registered ∈ list, registered.sink ≠ slot.sink

theorem Consistent.sinks_eq (h : s.Consistent list) (ho : s.Owned) (hholds : (s.call call).holds = true)
    (hpc : ∀ operation, s.call call ≠ .refresh operation)
    : s.memory.sinks = list := by
  apply h.sinks
  intro other operation hother
  have hsame : other = call := ho.unique (by rw [hother]; rfl) hholds
  exact hpc operation (hsame ▸ hother)

theorem Consistent.same (h : s.Consistent list) (hlog : m.history.log = s.memory.history.log)
    (hcached : m.singleNonOwningSink = s.memory.singleNonOwningSink) (hsinks : m.sinks = s.memory.sinks)
    (hbefore : ∀ operation, s.call call ≠ .refresh operation) (hrefresh : ∀ operation, pc ≠ .refresh operation)
    (hpush : ∀ slot, pc = .attachPush slot → ∀ registered ∈ list, registered.sink ≠ slot.sink)
    : (({ s with memory := m } : State).setCall call pc).Consistent list where
  attached := hlog ▸ h.attached
  cached := hcached.trans h.cached
  sinks hnone := by
    apply hsinks.trans
    apply h.sinks
    intro other operation
    by_cases hother : other = call
    . rw [hother]
      exact hbefore operation
    . have hpc := hnone other operation
      rwa [setCall_of_ne hother] at hpc
  refresh other operation hpc := by
    by_cases hother : other = call
    . rw [hother, setCall_self] at hpc
      exact absurd hpc (hrefresh operation)
    . rw [setCall_of_ne hother] at hpc
      exact (h.refresh other operation hpc).trans (congrArg _ hsinks.symm)
  push other slot hpc := by
    by_cases hother : other = call
    . rw [hother, setCall_self] at hpc
      exact hpush slot hpc
    . rw [setCall_of_ne hother] at hpc
      exact h.push other slot hpc

theorem Consistent.effect (h : s.Consistent list) {operation : Operation} {response : Response}
    (hrun : operation.run list = (response, list)) (hbefore : ∀ operation, s.call call ≠ .refresh operation)
    (hrefresh : ∀ operation, pc ≠ .refresh operation) (hpush : ∀ slot, pc ≠ .attachPush slot)
    : (({ s with memory := s.memory.effect call operation response } : State).setCall call pc).Consistent list := by
  have hsame := h.same rfl rfl rfl hbefore hrefresh (fun slot hpc => absurd hpc (hpush slot))
  exact ⟨Linear.replay_concat h.attached hrun call, hsame.cached, hsame.sinks, hsame.refresh, hsame.push⟩

theorem Consistent.change (h : s.Consistent list) (ho : s.Owned) (hholds : (s.call call).holds = true)
    {operation : Operation} {sinks : List SinkSlot} (hrun : operation.run list = (.result true, sinks))
    : (({ s with memory := { s.memory with sinks := sinks } } : State).setCall call (.refresh operation)).Consistent
        list where
  attached := h.attached
  cached := h.cached
  sinks hnone := absurd setCall_self (hnone call operation)
  refresh other operation' hpc := by
    by_cases hother : other = call
    . subst hother
      rw [setCall_self, CallPc.refresh.injEq] at hpc
      rw [← hpc]
      exact hrun
    . rw [setCall_of_ne hother] at hpc
      exact absurd (ho.unique (by rw [hpc]; rfl) hholds) hother
  push other slot hpc := by
    by_cases hother : other = call
    . rw [hother, setCall_self] at hpc
      cases hpc
    . rw [setCall_of_ne hother] at hpc
      exact h.push other slot hpc

-- The operation takes effect with the store of the pointer.
theorem Consistent.store (h : s.Consistent list) (ho : s.Owned) {operation : Operation}
    (hcall : s.call call = .refresh operation)
    : (({ s with
          memory := { s.memory with
            singleNonOwningSink := refreshSingleSinkFastPath s.memory.sinks }.effect call operation (.result true)
          } : State).setCall call (.unlock operation true)).Consistent s.memory.sinks where
  attached := Linear.replay_concat h.attached (h.refresh call operation hcall) call
  cached := rfl
  sinks _ := rfl
  refresh other operation' hpc := by
    by_cases hother : other = call
    . rw [hother, setCall_self] at hpc
      cases hpc
    . rw [setCall_of_ne hother] at hpc
      exact absurd (ho.unique (by rw [hpc]; rfl) (by rw [hcall]; rfl)) hother
  push other slot hpc := by
    by_cases hother : other = call
    . rw [hother, setCall_self] at hpc
      cases hpc
    . rw [setCall_of_ne hother] at hpc
      exact absurd (ho.unique (by rw [hpc]; rfl) (by rw [hcall]; rfl)) hother

theorem Consistent.edge (h : s.Consistent list) (ho : s.Owned) (hedge : Edge config call s.memory (s.call call) m pc)
    : ∃ list', (({ s with memory := m } : State).setCall call pc).Consistent list' := by
  have hsame := @Consistent.same s call list m pc h
  generalize hcall : s.call call = before at hedge hsame
  have hsinks (hholds : before.holds = true) (hbefore : ∀ operation, before ≠ .refresh operation)
      : s.memory.sinks = list := h.sinks_eq ho (hcall ▸ hholds) (hcall ▸ hbefore)
  cases hedge with
  | attachNull => exact ⟨list, h.effect rfl (by rw [hcall]; nofun) nofun nofun⟩
  | attachFail slot hregistered =>
    rw [hsinks rfl nofun] at hregistered
    exact ⟨list, h.effect (Operation.run_attach_fail hregistered) (by rw [hcall]; nofun) nofun nofun⟩
  | attachTest slot hnew =>
    rw [hsinks rfl nofun] at hnew
    refine ⟨list, hsame rfl rfl rfl nofun nofun ?_⟩
    intro slot' hpc
    cases hpc
    exact hnew
  | attachPush slot =>
    have hnew := h.push call slot hcall
    have hrun := Operation.run_attach hnew
    rw [hsinks rfl nofun]
    exact ⟨list, h.change ho (by rw [hcall]; rfl) hrun⟩
  | detachFail sink hnone =>
    rw [hsinks rfl nofun] at hnone
    exact ⟨list, h.effect (Operation.run_detach_fail hnone) (by rw [hcall]; nofun) nofun nofun⟩
  | detachErase sink hregistered =>
    rw [hsinks rfl nofun] at hregistered ⊢
    exact ⟨list, h.change ho (by rw [hcall]; rfl) (Operation.run_detach hregistered)⟩
  | refresh operation => exact ⟨_, h.store ho hcall⟩
  | loadFast entry sink hsink =>
    rw [h.cached] at hsink
    rw [eq_of_refresh_eq_some hsink] at h
    exact ⟨_, h.effect rfl (by rw [hcall]; nofun) nofun nofun⟩
  | read entry =>
    rw [select_slots, hsinks rfl nofun]
    exact ⟨list, h.effect rfl (by rw [hcall]; nofun) nofun nofun⟩
  | _ => exact ⟨list, hsame rfl rfl rfl nofun nofun nofun⟩

theorem Consistent.step (h : s.Consistent list) (ho : s.Owned) (hstep : Step config s event s')
    : ∃ list', s'.Consistent list' := by
  cases hstep with
  | @start call request hidle =>
    refine ⟨list, h.same rfl rfl rfl (by rw [hidle]; nofun) ?_ ?_⟩
    all_goals rcases request with _ | (_ | _) | _ | _ <;> nofun
  | call hedge => exact h.edge ho hedge
  | accepted hcall | thrown hcall => exact ⟨list, h.same rfl rfl rfl (by rw [hcall]; nofun) nofun nofun⟩

end State

open Linear (Progress Tracked)

def CallPc.progress (pc : CallPc) : Progress Operation Response :=
  match pc with
  | .idle | .returned _ .filtered => .outside
  | .unlock operation result | .leave operation result => .done operation (.result result)
  | .readUnlock _ selection | .callbackLock _ selection | .deliver _ selection _ _ | .inCallback _ selection _ _
  | .callbackUnlock selection _ => .done .write (.selected selection.slots)
  | .returned operation (.result result) => .returned operation (.result result)
  | .returned _ (.wrote selection _) => .returned .write (.selected selection.slots)
  | _ => .pending

inductive LogEdge (call : Call) (m m' : Memory) (before after : Progress Operation Response) : Prop where
  | same (hprogress : after = before) (hlog : m'.history.log = m.history.log)
    (hfirst : m'.history.first = m.history.first) (hlast : m'.history.last = m.history.last)
  | effect (operation : Operation) (response : Response) (hbefore : before = .pending)
    (hafter : after = .done operation response) (hlog : m'.history.log = m.history.log ++ [⟨call, operation, response⟩])
    (hfirst : m'.history.first = m.history.first) (hlast : m'.history.last = m.history.last)
  | finish (operation : Operation) (response : Response) (hbefore : before = .done operation response)
    (hafter : after = .returned operation response) (hlog : m'.history.log = m.history.log)
    (hfirst : m'.history.first = m.history.first)
    (hlast : m'.history.last = Function.update m.history.last call m.history.log.length)
  | skip (hbefore : before = .pending) (hafter : after = .outside) (hlog : m'.history.log = m.history.log)
    (hfirst : m'.history.first = m.history.first)
    (hlast : m'.history.last = Function.update m.history.last call m.history.log.length)

theorem Edge.log {config : Config} {call : Call} {m m' : Memory} {pc pc' : CallPc} (h : Edge config call m pc m' pc')
    : LogEdge call m m' pc.progress pc'.progress := by
  cases h
  case attachNull | attachFail | detachFail | refresh | loadFast | read => exact .effect _ _ rfl rfl rfl rfl rfl
  case unlock | leave | readEmpty | callbackUnlock => exact .finish _ _ rfl rfl rfl rfl rfl
  case filter => exact .skip rfl rfl rfl rfl rfl
  all_goals exact .same rfl rfl rfl rfl

namespace State

variable {config : Config} {s s' : State} {event : Event} {call other : Call} {list : List SinkSlot} {m : Memory}
  {pc : CallPc}

def Logged (s : State) : Prop :=
  Tracked s.memory.history.log s.memory.history.first s.memory.history.last (fun call => (s.call call).progress)

theorem progress_self : ((s.setCall call pc).call call).progress = pc.progress := by
  rw [setCall_self]

theorem progress_of_ne (other : Call) (h : other ≠ call)
    : ((s.setCall call pc).call other).progress = (s.call other).progress := by
  rw [setCall_of_ne h]

theorem Logged.same (h : s.Logged) (hprogress : pc.progress = (s.call call).progress)
    (hlog : m.history.log = s.memory.history.log) (hfirst : m.history.first = s.memory.history.first)
    (hlast : m.history.last = s.memory.history.last)
    : (({ s with memory := m } : State).setCall call pc).Logged := by
  have hsame : (fun other => ((({ s with memory := m } : State).setCall call pc).call other).progress) =
      fun other => (s.call other).progress := by
    funext other
    by_cases hother : other = call
    . rw [hother, setCall_self, hprogress]
    . rw [setCall_of_ne hother]
  unfold Logged
  rw [hsame]
  simp only [setCall, hlog, hfirst, hlast]
  exact h

theorem Logged.step (h : s.Logged) (hstep : Step config s event s') : s'.Logged := by
  cases hstep with
  | @start call request hidle =>
    have hbefore : (s.call call).progress = .outside := by rw [hidle]; rfl
    have hafter : request.entry.progress = .pending := by
      rcases request with _ | (_ | _) | _ | _ <;> rfl
    exact Tracked.start h hbefore (progress_self.trans hafter) progress_of_ne
  | @call call m pc now hedge =>
    cases hedge.log with
    | same hprogress hlog hfirst hlast => exact h.same hprogress hlog hfirst hlast
    | effect operation response hbefore hafter hlog hfirst hlast =>
      have heffect := Tracked.effect h hbefore (progress_self.trans hafter) progress_of_ne
      unfold Logged
      simp only [setCall, hlog, hfirst, hlast]
      exact heffect
    | finish operation response hbefore hafter hlog hfirst hlast =>
      have hfinish := Tracked.finish h hbefore (progress_self.trans hafter) progress_of_ne
      unfold Logged
      simp only [setCall, hlog, hfirst, hlast]
      exact hfinish
    | skip hbefore hafter hlog hfirst hlast =>
      have hskip := Tracked.skip h (by rw [hbefore]; exact id) (progress_self.trans hafter) progress_of_ne
      unfold Logged
      simp only [setCall, hlog, hfirst, hlast]
      exact hskip
  | accepted hcall | thrown hcall => exact h.same (by rw [hcall]; rfl) rfl rfl rfl

end State

def CallPc.Makes (pc : CallPc) (made : List LogSink) : Prop :=
  match pc with
  | .readUnlock _ selection => made = [] ∧ (selection = .empty ∨ selection.slots ≠ [])
  | .callbackLock _ selection => made = [] ∧ selection.slots ≠ []
  | .deliver _ selection remaining _ => made ++ remaining = selection.slots.map SinkSlot.sink ∧ selection.slots ≠ []
  | .inCallback _ selection remaining _ => made ++ remaining = selection.slots.map SinkSlot.sink ∧ made ≠ []
  | .callbackUnlock selection (some _) => made = selection.slots.map SinkSlot.sink ∧ made ≠ []
  | .returned _ (.wrote selection (some accepted)) =>
    made = selection.slots.map SinkSlot.sink ∧ (selection.slots = [] → accepted = false)
  | .callbackUnlock selection none | .returned _ (.wrote selection none) =>
    made <+: selection.slots.map SinkSlot.sink ∧ made ≠ []
  | _ => made = []

def History.made (history : History) (call : Call) : List LogSink := (history.callbacks call).map Prod.fst

theorem Edge.makes {config : Config} {call : Call} {m m' : Memory} {pc pc' : CallPc} (h : Edge config call m pc m' pc')
    (hmakes : pc.Makes (m.history.made call))
    : pc'.Makes (m'.history.made call) := by
  cases h
  case loadFast => exact ⟨hmakes, List.cons_ne_nil _ _⟩
  case read => exact ⟨hmakes, select_eq m.sinks⟩
  case readEmpty => exact ⟨hmakes.1, fun _ => rfl⟩
  case readUnlock hselection => exact ⟨hmakes.1, hmakes.2.resolve_left hselection⟩
  case callbackLock =>
    refine ⟨?_, hmakes.2⟩
    have hnone : m.history.made call = [] := hmakes.1
    change m.history.made call ++ _ = _
    rw [hnone, List.nil_append]
  case deliver entry selection sink remaining accepted =>
    have hmade : (m.invoke call sink entry).history.made call = m.history.made call ++ [sink] := by
      simp [History.made, Memory.invoke]
    refine ⟨?_, ?_⟩
    . rw [hmade, List.append_assoc, List.singleton_append]
      exact hmakes.1
    . rw [hmade]
      simp
  case delivered =>
    have hall := hmakes.1
    rw [List.append_nil] at hall
    refine ⟨hall, ?_⟩
    rw [hall, Ne, List.map_eq_nil_iff]
    exact hmakes.2
  case callbackUnlock selection accepted owners =>
    cases accepted with
    | none => exact hmakes
    | some accepted =>
      refine ⟨hmakes.1, ?_⟩
      intro hempty
      have hall : m.history.made call = selection.slots.map SinkSlot.sink := hmakes.1
      rw [hempty] at hall
      exact absurd hall hmakes.2
  all_goals exact hmakes

theorem Edge.callbacks_of_ne {config : Config} {call other : Call} {m m' : Memory} {pc pc' : CallPc}
    (h : Edge config call m pc m' pc') (hother : other ≠ call)
    : m'.history.callbacks other = m.history.callbacks other := by
  cases h
  case deliver => exact Function.update_of_ne hother _ _
  all_goals rfl

namespace State

variable {config : Config} {s s' : State} {event : Event} {call other : Call} {list : List SinkSlot} {m : Memory}
  {pc : CallPc}

def Making (s : State) : Prop := ∀ call, (s.call call).Makes (s.memory.history.made call)

theorem Making.set (h : s.Making) (hcall : pc.Makes (m.history.made call))
    (hother : ∀ other, other ≠ call → m.history.callbacks other = s.memory.history.callbacks other)
    : (({ s with memory := m } : State).setCall call pc).Making := by
  intro other
  by_cases hne : other = call
  . rw [hne, setCall_self]
    exact hcall
  . rw [setCall_of_ne hne]
    simp only [setCall, History.made, hother other hne]
    exact h other

theorem Making.step (h : s.Making) (hstep : Step config s event s') : s'.Making := by
  cases hstep with
  | @start call request hidle =>
    have hnone := h call
    rw [hidle] at hnone
    refine h.set ?_ (fun _ _ => rfl)
    rcases request with _ | (_ | _) | _ | _ <;> exact hnone
  | call hedge => exact h.set (hedge.makes (h _)) (fun _ hother => hedge.callbacks_of_ne hother)
  | @accepted entry selection remaining soFar call hcall accepted =>
    have hmakes := h call
    rw [hcall] at hmakes
    refine h.set ⟨hmakes.1, ?_⟩ (fun _ _ => rfl)
    intro hempty
    have hall := hmakes.1
    rw [hempty, List.map_nil, List.append_eq_nil_iff] at hall
    exact hmakes.2 hall.1
  | @thrown entry selection remaining soFar call hcall =>
    have hmakes := h call
    rw [hcall] at hmakes
    refine h.set ⟨?_, hmakes.2⟩ (fun _ _ => rfl)
    rw [← hmakes.1]
    exact List.prefix_append _ _

structure Valid (s : State) : Prop where
  owned : s.Owned
  consistent : ∃ list, s.Consistent list
  logged : s.Logged
  making : s.Making

theorem valid (hs : (system config).Reachable s) : s.Valid := by
  apply System.ReachableVia.invariant _ _ hs
  . constructor
    case owned => exact fun call => ⟨nofun, nofun⟩
    case consistent => exact ⟨[], rfl, rfl, fun _ => rfl, nofun, nofun⟩
    case logged => exact .init _ _
    case making => exact fun call => rfl
  . intro s event s' _ h _ hstep
    obtain ⟨list, hlist⟩ := h.consistent
    have hcases := step_cases hstep
    exact ⟨h.owned.step hcases, hlist.step h.owned hcases, h.logged.step hcases, h.making.step hcases⟩

def TookEffect (s : State) (call : Call) (operation : Operation) (response : Response) (list : List SinkSlot) : Prop :=
  ∃ i, s.memory.history.first call ≤ i ∧ i < s.memory.history.last call ∧
    s.memory.history.log[i]? = some ⟨call, operation, response⟩ ∧
    Linear.replay Operation.run [] (s.memory.history.log.take i) = some list ∧ (list.map SinkSlot.sink).Nodup

structure Linearizable (s : State) : Prop where
  list : ∃ list, Linear.replay Operation.run [] s.memory.history.log = some list ∧ (list.map SinkSlot.sink).Nodup
  once : (s.memory.history.log.map Linear.Entry.call).Nodup
  attach : ∀ call slot result, s.call call = .returned (.attach slot) (.result result) →
    ∃ list, s.TookEffect call (.attach slot) (.result result) list ∧
      (result = false ↔ ∀ new, slot = some new → new.sink ∈ list.map SinkSlot.sink)
  detach : ∀ call sink result, s.call call = .returned (.detach sink) (.result result) →
    ∃ list, s.TookEffect call (.detach sink) (.result result) list ∧
      (result = true ↔ sink ∈ list.map SinkSlot.sink)
  write : ∀ call operation selection accepted, s.call call = .returned operation (.wrote selection accepted) →
    s.TookEffect call .write (.selected selection.slots) selection.slots ∧
      (accepted = some false ∧ s.memory.history.made call = [] ↔ selection.slots = []) ∧
      s.memory.history.made call <+: selection.slots.map SinkSlot.sink ∧
      (accepted ≠ none → s.memory.history.made call = selection.slots.map SinkSlot.sink)
  fast : ∀ sink, s.memory.singleNonOwningSink = some sink →
    Linear.replay Operation.run [] s.memory.history.log = some [⟨sink, none⟩]

theorem tookEffect (h : s.Logged) {final : List SinkSlot}
    (hlist : Linear.replay Operation.run [] s.memory.history.log = some final) {operation : Operation}
    {response : Response} (hcall : (s.call call).progress = .returned operation response)
    : ∃ list, s.TookEffect call operation response list ∧ (operation.run list).1 = response := by
  obtain ⟨i, hfirst, hlast, hentry⟩ := h.returned call operation response hcall
  obtain ⟨list, hbefore, hresponse⟩ := Linear.replay_take hlist hentry
  exact ⟨list, ⟨i, hfirst, hlast, hentry, hbefore, nodup_of_replay hbefore⟩, hresponse⟩

end State

end Vosp.SyncLogger

namespace Vosp

open SyncLogger

end Vosp
