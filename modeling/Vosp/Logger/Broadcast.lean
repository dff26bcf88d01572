import Vosp.Logger.SinkSelection

/-!
This module says what a call of `write` makes of the answers of its sinks. The events of a run are recorded,
so that the answers are known after the call has returned.
-/

namespace Vosp.SyncLogger

def Event.request (call : Call) (event : Event) : Option Request :=
  match event with
  | .call other request => if other = call then some request else none
  | _ => none

-- A sink returns `true` or `false`, or it throws.
def Event.answer (call : Call) (event : Event) : Option (Option Bool) :=
  match event with
  | .finish other accepted => if other = call then some accepted else none
  | _ => none

def requestOf (log : List Event) (call : Call) : Option Request := log.findSome? (Event.request call)

def answersOf (log : List Event) (call : Call) : List (Option Bool) := log.filterMap (Event.answer call)

abbrev recorded (config : Config) : System (State × List Event) Event :=
  (system config).recording fun _ event => [event]

def Reports (selection : Selection) (answers : List (Option Bool)) (result : Option Bool) : Prop :=
  match result with
  | some accepted =>
    none ∉ answers ∧ (accepted = true ↔ selection.slots ≠ [] ∧ ∀ answer ∈ answers, answer = some true)
  | none => ∃ before, answers = before ++ [none] ∧ none ∉ before

def CallPc.Offers (request : Option Request) (offers : List (LogSink × LogEntry)) (answers : List (Option Bool))
    (pc : CallPc) : Prop :=
  match pc with
  | .idle => request = none ∧ answers = []
  | .write level error | .stamp level error => request = some (.write level error) ∧ answers = []
  | .load entry | .readLock entry | .read entry | .readUnlock entry _ | .callbackLock entry _ =>
    request = some (.write entry.level entry.error) ∧ answers = []
  | .deliver entry _ _ accepted =>
    request = some (.write entry.level entry.error) ∧ (∀ offer ∈ offers, offer.2 = entry) ∧
      answers.length = offers.length ∧ none ∉ answers ∧
      (accepted = true ↔ ∀ answer ∈ answers, answer = some true)
  | .inCallback entry _ _ accepted =>
    request = some (.write entry.level entry.error) ∧ (∀ offer ∈ offers, offer.2 = entry) ∧
      answers.length + 1 = offers.length ∧ none ∉ answers ∧
      (accepted = true ↔ ∀ answer ∈ answers, answer = some true)
  | .callbackUnlock selection result | .returned _ (.wrote selection result) =>
    (∃ entry : LogEntry, request = some (.write entry.level entry.error) ∧ ∀ offer ∈ offers, offer.2 = entry) ∧
      answers.length = offers.length ∧ Reports selection answers result
  | _ => answers = []

section

variable {config : Config} {call : Call} {m m' : Memory} {pc pc' : CallPc} {now : TimePoint}
  {request : Option Request} {answers : List (Option Bool)}

theorem offers_of_made {history : History} (h : history.made call = []) : history.callbacks call = [] :=
  List.map_eq_nil_iff.mp h

theorem CallPc.Offers.step (hoffers : pc.Offers request (m.history.callbacks call) answers)
    (hmakes : pc.Makes (m.history.made call)) (h : CallPc.step config m call now pc = some (m', pc'))
    : pc'.Offers request (m'.history.callbacks call) answers := by
  cases edge_of_step h
  case stamp level error entry =>
    cases h
    exact hoffers
  case readEmpty entry =>
    obtain ⟨hrequest, rfl⟩ := hoffers
    have hnone : m.history.callbacks call = [] := offers_of_made hmakes.1
    refine ⟨⟨entry, hrequest, ?_⟩, ?_, List.not_mem_nil, ?_⟩
    . simp [Memory.finish, Memory.release, hnone]
    . simp [Memory.finish, Memory.release, hnone]
    . simp [Selection.slots]
  case callbackLock entry selection owners =>
    obtain ⟨hrequest, rfl⟩ := hoffers
    have hnone : m.history.callbacks call = [] := offers_of_made hmakes.1
    refine ⟨hrequest, ?_, ?_, List.not_mem_nil, ?_⟩
    . simp [hnone]
    . simp [hnone]
    . simp
  case deliver entry selection sink remaining accepted =>
    obtain ⟨hrequest, hentry, hlength, hplain⟩ := hoffers
    refine ⟨hrequest, ?_, ?_, hplain⟩
    . intro offer hoffer
      simp only [Memory.invoke, Function.update_self, List.mem_append, List.mem_singleton] at hoffer
      rcases hoffer with hold | rfl
      . exact hentry offer hold
      . rfl
    . simp [Memory.invoke, hlength]
  case delivered entry selection accepted =>
    obtain ⟨hrequest, hentry, hlength, hnone, haccepted⟩ := hoffers
    refine ⟨⟨entry, hrequest, hentry⟩, hlength, hnone, ?_⟩
    rw [haccepted]
    simp [hmakes.2]
  case filter => exact hoffers.2
  all_goals exact hoffers

theorem requestOf_append (log : List Event) (event : Event)
    : requestOf (log ++ [event]) call = (requestOf log call).or (event.request call) := by
  rw [requestOf, List.findSome?_append, List.findSome?_singleton]
  rfl

theorem answersOf_append (log : List Event) (event : Event)
    : answersOf (log ++ [event]) call = answersOf log call ++ (event.answer call).toList := by
  rw [answersOf, List.filterMap_append]
  cases hanswer : event.answer call <;> simp [answersOf, hanswer]

end

namespace State

variable {config : Config} {s s' : State} {log : List Event} {event : Event} {call other : Call} {m : Memory}
  {pc : CallPc}

def Offering (s : State) (log : List Event) : Prop :=
  ∀ call, (s.call call).Offers (requestOf log call) (s.memory.history.callbacks call) (answersOf log call)

theorem Offering.set (h : s.Offering log)
    (hcall : pc.Offers ((requestOf log call).or (event.request call)) (m.history.callbacks call)
      (answersOf log call ++ (event.answer call).toList))
    (hother : ∀ other, other ≠ call → m.history.callbacks other = s.memory.history.callbacks other)
    (hrequest : ∀ other, other ≠ call → event.request other = none)
    (hanswer : ∀ other, other ≠ call → event.answer other = none)
    : (({ s with memory := m } : State).setCall call pc).Offering (log ++ [event]) := by
  intro other
  rw [requestOf_append, answersOf_append]
  by_cases hne : other = call
  . rw [hne, setCall_self]
    exact hcall
  . rw [setCall_of_ne hne, hrequest other hne, hanswer other hne]
    simp only [setCall, hother other hne, Option.or_none, Option.toList_none, List.append_nil]
    exact h other

theorem Offering.start (h : s.Offering log) (request : Request) (hidle : s.call call = .idle)
    : (({ s with memory := s.memory.start call } : State).setCall call request.entry).Offering
        (log ++ [.call call request]) := by
  have hnone := h call
  rw [hidle] at hnone
  apply h.set
  case hcall =>
    rw [hnone.1, hnone.2]
    rcases request with _ | (_ | _) | _ | _ <;> simp [Event.request, Event.answer, Request.entry, CallPc.Offers]
  case hother => exact fun _ _ => rfl
  case hrequest => exact fun other hne => if_neg (Ne.symm hne)
  case hanswer => exact fun _ _ => rfl

theorem Offering.move {now : TimePoint} (h : s.Offering log) (hm : s.Making)
    (hstep : CallPc.step config s.memory call now (s.call call) = some (m, pc))
    : (({ s with memory := m } : State).setCall call pc).Offering (log ++ [.step call now]) := by
  apply h.set
  case hcall =>
    have hoffers := (h call).step (hm call) hstep
    simpa [Event.request, Event.answer] using hoffers
  case hother => exact fun other hne => (edge_of_step hstep).callbacks_of_ne hne
  case hrequest => exact fun _ _ => rfl
  case hanswer => exact fun _ _ => rfl

theorem Offering.answer {entry : LogEntry} {selection : Selection} {remaining : List LogSink} {soFar : Bool}
    (h : s.Offering log) (hcall : s.call call = .inCallback entry selection remaining soFar) (answer : Option Bool)
    (hpc : pc = match answer with
      | some accepted => .deliver entry selection remaining (accepted && soFar)
      | none => .callbackUnlock selection none)
    : (s.setCall call pc).Offering (log ++ [.finish call answer]) := by
  have hoffers := h call
  rw [hcall] at hoffers
  obtain ⟨hrequest, hentry, hlength, hnone, haccepted⟩ := hoffers
  apply h.set
  case hcall =>
    have hanswer : (Event.finish call answer).answer call = some answer := if_pos rfl
    have hasked : (Event.finish call answer).request call = none := rfl
    rw [hanswer, hasked, Option.or_none, hpc]
    cases answer with
    | some accepted =>
      refine ⟨hrequest, hentry, ?_, ?_, ?_⟩
      . simpa using hlength
      . simpa using hnone
      . rw [Bool.and_eq_true, haccepted]
        simp [or_imp, forall_and, and_comm]
    | none =>
      refine ⟨⟨entry, hrequest, hentry⟩, ?_, answersOf log call, rfl, hnone⟩
      simpa using hlength
  case hother => exact fun _ _ => rfl
  case hrequest => exact fun _ _ => rfl
  case hanswer => exact fun other hne => if_neg (Ne.symm hne)

theorem Offering.step (h : s.Offering log) (hm : s.Making) (hstep : s.step config event = some s')
    : s'.Offering (log ++ [event]) := by
  cases event with
  | call call request =>
    cases step_cases hstep with
    | start _ hidle => exact h.start request hidle
  | step call now =>
    obtain ⟨⟨m, pc⟩, hcall, rfl⟩ := Option.map_eq_some_iff.mp hstep
    exact h.move hm hcall
  | finish call answer =>
    cases step_cases hstep with
    | accepted hcall accepted => exact h.answer hcall (some accepted) rfl
    | thrown hcall => exact h.answer hcall none rfl

theorem offering {s : State × List Event} (hs : (recorded config).Reachable s) : s.1.Offering s.2 := by
  apply hs.recording_invariant (I := Offering)
  . exact fun call => ⟨rfl, rfl⟩
  . intro s log event s' hs h hstep
    exact h.step (valid hs).making hstep

/--
A call of `write` that has not been filtered has offered its record to the sinks that it had selected.
-/
structure Broadcast (s : State) (log : List Event) (call : Call) (selection : Selection) (result : Option Bool)
    : Prop where
  selected : s.TookEffect call .write (.selected selection.slots) selection.slots
  once : (selection.slots.map SinkSlot.sink).Nodup
  offered : ∃ entry : LogEntry, requestOf log call = some (.write entry.level entry.error) ∧
    s.memory.history.callbacks call <+: selection.slots.map fun slot => (slot.sink, entry)
  answered : (answersOf log call).length = (s.memory.history.callbacks call).length
  -- Only an exception can keep the record from the sinks that are left.
  reached : ∀ i < selection.slots.length, (∀ j < i, (answersOf log call)[j]? ≠ some none) →
    i < (s.memory.history.callbacks call).length
  success : result = some true ↔
    selection.slots ≠ [] ∧ answersOf log call = List.replicate selection.slots.length (some true)
  propagated : result = none ↔ none ∈ answersOf log call

theorem eq_map_of_entry {offers : List (LogSink × LogEntry)} {entry : LogEntry}
    (h : ∀ offer ∈ offers, offer.2 = entry)
    : offers = (offers.map Prod.fst).map fun sink => (sink, entry) := by
  rw [List.map_map]
  conv_lhs => rw [← List.map_id offers]
  apply List.map_congr_left
  intro offer hoffer
  rw [id, Function.comp, ← h offer hoffer]

theorem wrote {s : State} (hs : (system config).Reachable s) {operation : Operation} {selection : Selection}
    {result : Option Bool} (hcall : s.call call = .returned operation (.wrote selection result))
    : s.TookEffect call .write (.selected selection.slots) selection.slots ∧
        s.memory.history.made call <+: selection.slots.map SinkSlot.sink ∧
        (result ≠ none → s.memory.history.made call = selection.slots.map SinkSlot.sink) := by
  have hv := valid hs
  obtain ⟨final, hfinal⟩ := hv.consistent
  have hprogress : (s.call call).progress = .returned .write (.selected selection.slots) := by
    rw [hcall]
    rfl
  obtain ⟨list, heffect, hresponse⟩ := tookEffect hv.logged hfinal.attached hprogress
  have hlist : list = selection.slots := Response.selected.inj hresponse
  subst hlist
  have hmakes := hv.making call
  rw [hcall] at hmakes
  refine ⟨heffect, ?_⟩
  cases result with
  | none => exact ⟨hmakes.1, fun hthrown => absurd rfl hthrown⟩
  | some accepted => exact ⟨hmakes.1 ▸ List.prefix_rfl, fun _ => hmakes.1⟩

theorem broadcast {s : State × List Event} (hs : (recorded config).Reachable s) {operation : Operation}
    {selection : Selection} {result : Option Bool}
    (hcall : s.1.call call = .returned operation (.wrote selection result))
    : s.1.Broadcast s.2 call selection result := by
  obtain ⟨heffect, hmade, hall⟩ := wrote hs.of_recording hcall
  have hoffers := offering hs call
  rw [hcall] at hoffers
  obtain ⟨⟨entry, hrequest, hentry⟩, hlength, hreports⟩ := hoffers
  have hnodup : (selection.slots.map SinkSlot.sink).Nodup := heffect.choose_spec.2.2.2.2
  have hcallbacks : (s.1.memory.history.made call).length = (s.1.memory.history.callbacks call).length :=
    List.length_map _
  constructor
  case selected => exact heffect
  case once => exact hnodup
  case offered =>
    refine ⟨entry, hrequest, ?_⟩
    rw [eq_map_of_entry hentry]
    have hmap := hmade.map fun sink => (sink, entry)
    rwa [List.map_map] at hmap
  case answered => exact hlength
  case reached =>
    intro i hi hnone
    cases result with
    | some accepted =>
      rw [← hcallbacks, hall (Option.some_ne_none _), List.length_map]
      exact hi
    | none =>
      obtain ⟨before, hbefore, -⟩ := hreports
      rw [← hlength]
      by_contra hge
      -- The last answer is that of the sink that has thrown.
      rw [hbefore, List.length_append, List.length_singleton] at hge
      apply hnone before.length (by omega)
      rw [hbefore, List.getElem?_concat_length]
  case success =>
    cases result with
    | some accepted =>
      have hslots : (answersOf s.2 call).length = selection.slots.length := by
        rw [hlength, ← hcallbacks, hall (Option.some_ne_none _), List.length_map]
      rw [Option.some.injEq, hreports.2, ← hslots, List.eq_replicate_iff]
      simp
    | none =>
      obtain ⟨before, hbefore, -⟩ := hreports
      refine iff_of_false nofun ?_
      rintro ⟨-, hreplicate⟩
      have hmem : none ∈ List.replicate selection.slots.length (some true) := by
        rw [← hreplicate, hbefore]
        exact List.mem_append_right _ (List.mem_singleton_self _)
      exact absurd (List.eq_of_mem_replicate hmem) (Option.some_ne_none _).symm
  case propagated =>
    cases result with
    | some accepted => exact iff_of_false (Option.some_ne_none _) hreports.1
    | none =>
      obtain ⟨before, hbefore, -⟩ := hreports
      refine iff_of_true rfl ?_
      rw [hbefore]
      exact List.mem_append_right _ (List.mem_singleton_self _)

end State

end Vosp.SyncLogger
