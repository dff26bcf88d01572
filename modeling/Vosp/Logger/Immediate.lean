import Vosp.Logger.ImmediateSystem

/-!
This module contains what the immediate sink guarantees. The text of the stream is made of what the writes have
added, one after the other, and a write whose result is `true` has added its whole line.
-/

namespace Vosp

theorem Record.text_prepare (record : Record)
    : record.text = (prepareTextRecord record.entry).text :=
  (text_prepareTextRecord record.entry).symm

namespace ImmediatePc

def remaining (pc : ImmediatePc) : Text :=
  match pc with
  | .write record => record.text
  | .writeView _ text => text ++ [newline]
  | .put _ => [newline]
  | _ => []

def inflight (pc : ImmediatePc) : List Record :=
  match pc with
  | .idle => []
  | .lock record | .write record | .writeView record _ | .put record | .test record | .unlock record _ => [record]

def holds (pc : ImmediatePc) : Bool :=
  match pc with
  | .idle | .lock _ => false
  | _ => true

inductive Writes : ImmediatePc → Text → ImmediatePc → Prop where
  | line (record : Record) (hbuffered : (prepareTextRecord record.entry).messageIsBuffered = true)
    : Writes (.write record) (prepareTextRecord record.entry).prefixText (.test record)
  | head (record : Record) (hlong : (prepareTextRecord record.entry).messageIsBuffered = false)
    : Writes (.write record) (prepareTextRecord record.entry).prefixText
        (.writeView record (prepareTextRecord record.entry).message)
  | writeView (record : Record) (text : Text) (n : Nat)
    : Writes (.writeView record text) (text.take n) (.writeView record (text.drop n))
  | put (record : Record) : Writes (.put record) [newline] (.test record)

variable {pc pc' : ImmediatePc} {text current : Text} {out : Stream} {taken : Option Nat}

theorem Writes.remaining_eq (h : Writes pc text pc') : pc.remaining = text ++ pc'.remaining := by
  cases h with
  | line record hbuffered | head record hlong =>
    simp [remaining, Record.text_prepare, PreparedTextRecord.text, *]
  | writeView record text n =>
    simp only [remaining]
    rw [← List.append_assoc, List.take_append_drop]
  | put record => rfl

theorem Writes.inflight_eq (h : Writes pc text pc') : pc'.inflight = pc.inflight := by
  cases h <;> rfl

theorem Writes.holds (h : Writes pc text pc') : pc.holds = true ∧ pc'.holds = true := by
  cases h <;> exact ⟨rfl, rfl⟩

def Ok (failed : Bool) (current : Text) (pc : ImmediatePc) : Prop :=
  match pc with
  | .idle | .lock _ => True
  | .write record | .writeView record _ | .put record | .test record =>
    current <+: record.text ∧ (failed = false → current ++ pc.remaining = record.text)
  | .unlock record result => current <+: record.text ∧ (result = true → current = record.text)

theorem portion_ok {rest whole : Text} (hpart : current <+: whole)
    (h : out.failed = false → current ++ (text ++ rest) = whole)
    : current ++ out.portion text taken <+: whole ∧
        ((out.accept text taken).failed = false → current ++ out.portion text taken ++ rest = whole) := by
  cases hfailed : out.failed with
  | true => simpa [Stream.portion, Stream.accept, hfailed] using hpart
  | false =>
    have hwhole := h hfailed
    cases taken with
    | none =>
      simp only [Stream.portion, hfailed, Bool.false_eq_true, ↓reduceIte, List.append_assoc]
      exact ⟨⟨rest, by rw [← hwhole, List.append_assoc]⟩, fun _ => hwhole⟩
    | some n =>
      simp only [Stream.portion, Stream.accept, hfailed, Bool.false_eq_true, ↓reduceIte, Option.isSome_some,
        Bool.or_true, Bool.true_eq_false, false_implies, and_true]
      refine ⟨text.drop n ++ rest, ?_⟩
      rw [List.append_assoc, ← List.append_assoc (text.take n), List.take_append_drop, hwhole]

theorem Writes.ok (h : Writes pc text pc') (hok : pc.Ok out.failed current)
    : pc'.Ok (out.accept text taken).failed (current ++ out.portion text taken) := by
  have hremaining := h.remaining_eq
  cases h with
  | line record | head record | writeView record | put record =>
    apply portion_ok hok.1
    rw [← hremaining]
    exact hok.2

end ImmediatePc

namespace ImmediateState

inductive Step (s : ImmediateState) : ImmediateEvent → ImmediateState → Prop where
  | start (entry : LogEntry) (hpc : s.pc t = .idle) : Step s (.write t entry) (s.startWrite t entry)
  | lock (hpc : s.pc t = .lock record) (hfree : s.mutex = none)
    : Step s (.step t taken) ({ s with mutex := some t }.setPc t (.write record))
  | accept {before after : ImmediatePc} {text : Text} (hpc : s.pc t = before) (hwrites : before.Writes text after)
    : Step s (.step t taken) ((s.accept text taken).setPc t after)
  | viewed {text : Text} (hpc : s.pc t = .writeView record text) (hdone : text = [] ∨ s.output.failed = true)
    : Step s (.step t taken) (s.setPc t (.put record))
  | test (hpc : s.pc t = .test record) : Step s (.step t taken) (s.setPc t (.unlock record (!s.output.failed)))
  | ret {result : Bool} (hpc : s.pc t = .unlock record result) : Step s (.step t taken) (s.returnWrite t record result)
  | fail (hfree : s.mutex = none) : Step s .fail { s with output := { s.output with failed := true } }
  | clear (hfree : s.mutex = none) : Step s .clear { s with output := { s.output with failed := false } }

variable {s s' : ImmediateState} {event : ImmediateEvent} {t u : Nat} {taken : Option Nat} {record : Record}
  {pc : ImmediatePc}

theorem step_cases (h : s.step event = some s') : Step s event s' := by
  cases event <;> simp only [step] at h
  case write thread entry =>
    split at h
    . next hpc =>
      cases h
      exact .start entry hpc
    . cases h
  case step thread taken =>
    unfold advance at h
    split at h
    . cases h
    . next record hpc =>
      split at h
      . next hfree =>
        cases h
        exact .lock hpc hfree
      . cases h
    . next record hpc =>
      cases h
      cases hbuffered : (prepareTextRecord record.entry).messageIsBuffered with
      | true => exact .accept hpc (.line record hbuffered)
      | false => exact .accept hpc (.head record hbuffered)
    . next record text hpc =>
      split at h
      . next hdone =>
        cases h
        exact .viewed hpc (by simpa using hdone)
      . cases h
        exact .accept hpc (.writeView record text _)
    . next record hpc =>
      cases h
      exact .accept hpc (.put record)
    . next record hpc =>
      cases h
      exact .test hpc
    . next record result hpc =>
      cases h
      exact .ret hpc
  case fail | clear =>
    split at h
    . next hfree =>
      cases h
      constructor
      exact hfree
    . cases h

theorem pc_self : (s.setPc t pc).pc t = pc := Function.update_self _ _ _

theorem pc_of_ne (h : u ≠ t) : (s.setPc t pc).pc u = s.pc u := Function.update_of_ne h _ _

theorem Step.busy_before (h : Step s event s') (hwrite : ∀ thread entry, event ≠ .write thread entry)
    (hbusy : s'.pc u ≠ .idle)
    : s.pc u ≠ .idle := by
  have hmove : ∀ {s₁ : ImmediateState} {t pc before}, s₁.pc = s.pc → s.pc t = before → before ≠ .idle →
      (s₁.setPc t pc).pc u ≠ .idle → s.pc u ≠ .idle := by
    intro s₁ t pc before hpcs hpc hbefore hafter
    by_cases hu : u = t
    . rw [hu, hpc]
      exact hbefore
    . rw [pc_of_ne hu, hpcs] at hafter
      exact hafter
  cases h with
  | start entry hpc => exact absurd rfl (hwrite _ entry)
  | lock hpc => exact hmove rfl hpc nofun hbusy
  | accept hpc hwrites => exact hmove (by rfl) hpc (by cases hwrites <;> nofun) hbusy
  | viewed hpc => exact hmove rfl hpc nofun hbusy
  | test hpc => exact hmove rfl hpc nofun hbusy
  | ret hpc => exact hmove (by rfl) hpc nofun hbusy
  | fail | clear => exact hbusy

def inflight (s : ImmediateState) (producer : ThreadId) : List Record :=
  match producer with
  | some t => (s.pc t).inflight
  | none => []

theorem inflight_of_ne (producer : ThreadId) (h : producer ≠ some t)
    : (s.setPc t pc).inflight producer = s.inflight producer := by
  cases producer with
  | none => rfl
  | some u => exact congrArg ImmediatePc.inflight (pc_of_ne fun hut => h (congrArg some hut))

theorem inflight_frame (h : pc.inflight = (s.pc t).inflight) : (s.setPc t pc).inflight = s.inflight := by
  funext producer
  by_cases hproducer : producer = some t
  . subst hproducer
    exact (congrArg ImmediatePc.inflight pc_self).trans h
  . exact inflight_of_ne producer hproducer

structure Valid (s : ImmediateState) : Prop where
  owned : ∀ t, (s.pc t).holds = true ↔ s.mutex = some t
  contents : s.output.contents = s.history.written.flatMap Written.text ++ s.history.current
  between : s.mutex = none → s.history.current = []
  current : ∀ t, s.mutex = some t → (s.pc t).Ok s.output.failed s.history.current
  lines : ∀ written ∈ s.history.written,
    written.text <+: written.record.text ∧ (written.result = true → written.text = written.record.text)
  merge : Merge Record.producer s.history.calls (s.history.written.map Written.record) [] (fun _ => []) s.inflight
  numbered : s.history.calls.map Record.id = List.range s.history.calls.length

namespace Valid

theorem init : ImmediateState.init.Valid where
  owned _ := iff_of_false Bool.false_ne_true nofun
  contents := rfl
  between _ := rfl
  current := nofun
  lines := nofun
  merge := by
    have hnone : ImmediateState.init.inflight = fun _ => [] := by
      funext producer
      cases producer <;> rfl
    rw [hnone]
    exact .init
  numbered := rfl

theorem owned_frame (h : s.Valid) (hholds : pc.holds = (s.pc t).holds) (u : Nat)
    : ((s.setPc t pc).pc u).holds = true ↔ s.mutex = some u := by
  by_cases hu : u = t
  . subst hu
    rw [pc_self, hholds]
    exact h.owned u
  . rw [pc_of_ne hu]
    exact h.owned u

theorem mutex_eq (h : s.Valid) (hpc : s.pc t = pc) (hholds : pc.holds = true) : s.mutex = some t := by
  rw [← h.owned, hpc]
  exact hholds

theorem go (h : s.Valid) {before : ImmediatePc} (hpc : s.pc t = before) (hbefore : before.holds = true)
    (hafter : pc.holds = true) (hinflight : pc.inflight = before.inflight) {output : Stream} {current : Text}
    (hcontents : output.contents = s.history.written.flatMap Written.text ++ current)
    (hok : pc.Ok output.failed current)
    : ({ s with output := output, history := { s.history with current := current } }.setPc t pc).Valid := by
  have hmutex := h.mutex_eq hpc hbefore
  constructor
  case owned => exact h.owned_frame (by rw [hpc, hbefore, hafter])
  case contents => exact hcontents
  case between =>
    intro hfree
    rw [show s.mutex = none from hfree] at hmutex
    cases hmutex
  case current =>
    intro u hu
    cases hmutex.symm.trans hu
    rw [pc_self]
    exact hok
  case lines => exact h.lines
  case merge =>
    have hframe := inflight_frame (s := s) (hinflight.trans (congrArg ImmediatePc.inflight hpc).symm)
    have hmerge := h.merge
    rw [← hframe] at hmerge
    exact hmerge
  case numbered => exact h.numbered

theorem ret (h : s.Valid) {result : Bool} (hpc : s.pc t = .unlock record result)
    : (s.returnWrite t record result).Valid := by
  have hmutex := h.mutex_eq hpc rfl
  have hcurrent := h.current t hmutex
  rw [hpc] at hcurrent
  constructor
  case owned =>
    intro u
    by_cases hu : u = t
    . subst hu
      exact iff_of_false (by rw [returnWrite, pc_self]; exact Bool.false_ne_true) nofun
    . have hother : ¬(s.pc u).holds = true := by
        rw [h.owned, hmutex]
        exact fun heq => hu (Option.some.inj heq).symm
      refine iff_of_false ?_ nofun
      rw [returnWrite, pc_of_ne hu]
      exact hother
  case contents => simp [returnWrite, setPc, h.contents]
  case between => exact fun _ => rfl
  case current => nofun
  case lines =>
    intro written hmem
    rcases List.mem_append.mp hmem with hold | hnew
    . exact h.lines written hold
    . cases List.mem_singleton.mp hnew
      exact hcurrent
  case merge =>
    simp only [returnWrite, setPc, List.map_append, List.map_cons, List.map_nil]
    apply h.merge.pass (k := some t)
    . exact congrArg ImmediatePc.inflight hpc
    . exact congrArg ImmediatePc.inflight pc_self
    . exact fun producer hproducer => inflight_of_ne producer hproducer
  case numbered => exact h.numbered

theorem start (h : s.Valid) (entry : LogEntry) (hpc : s.pc t = .idle) : (s.startWrite t entry).Valid := by
  have hholds : ∀ record, (ImmediatePc.lock record).holds = (s.pc t).holds := by
    intro record
    rw [hpc]
    rfl
  constructor
  case owned => exact h.owned_frame (hholds _)
  case contents => exact h.contents
  case between => exact h.between
  case current =>
    intro u hu
    have hne : u ≠ t := by
      rintro rfl
      have hheld := (h.owned u).mpr hu
      rw [hpc] at hheld
      cases hheld
    rw [startWrite, pc_of_ne hne]
    exact h.current u hu
  case lines => exact h.lines
  case merge =>
    apply h.merge.start (k := some t) rfl
    . exact congrArg ImmediatePc.inflight hpc
    . exact congrArg ImmediatePc.inflight pc_self
    . exact fun producer hproducer => inflight_of_ne producer hproducer
  case numbered =>
    simp only [startWrite, setPc, List.map_append, List.map_cons, List.map_nil, List.length_append,
      List.length_singleton, List.range_succ, h.numbered]

theorem lock (h : s.Valid) (hpc : s.pc t = .lock record) (hfree : s.mutex = none)
    : ({ s with mutex := some t }.setPc t (.write record)).Valid := by
  have hcurrent := h.between hfree
  have hnone : ∀ u, ¬(s.pc u).holds = true := by
    intro u hu
    rw [h.owned, hfree] at hu
    cases hu
  constructor
  case owned =>
    intro u
    by_cases hu : u = t
    . subst hu
      exact iff_of_true (by rw [pc_self]; rfl) rfl
    . refine iff_of_false ?_ (fun heq => hu (Option.some.inj heq).symm)
      rw [pc_of_ne hu]
      exact hnone u
  case contents => exact h.contents
  case between => nofun
  case current =>
    intro u hu
    cases hu
    rw [pc_self]
    have hok : s.history.current <+: record.text ∧
        (s.output.failed = false → s.history.current ++ record.text = record.text) := by
      rw [hcurrent]
      exact ⟨List.nil_prefix, fun _ => rfl⟩
    exact hok
  case lines => exact h.lines
  case merge =>
    have hframe : (s.setPc t (.write record)).inflight = s.inflight :=
      inflight_frame (by rw [hpc]; rfl)
    have hmerge := h.merge
    rw [← hframe] at hmerge
    exact hmerge
  case numbered => exact h.numbered

theorem step (h : s.Valid) (hstep : Step s event s') : s'.Valid := by
  cases hstep with
  | start entry hpc => exact h.start entry hpc
  | lock hpc hfree => exact h.lock hpc hfree
  | @accept t taken before after text hpc hwrites =>
    have hok := h.current t (h.mutex_eq hpc hwrites.holds.1)
    rw [hpc] at hok
    apply h.go hpc hwrites.holds.1 hwrites.holds.2 hwrites.inflight_eq
    . rw [Stream.accept, h.contents, List.append_assoc]
    . exact hwrites.ok hok
  | @viewed t record taken text hpc hdone =>
    have hok := h.current t (h.mutex_eq hpc rfl)
    rw [hpc] at hok
    refine h.go hpc rfl (by rfl) (by rfl) h.contents ⟨hok.1, ?_⟩
    intro hfailed
    rcases hdone with rfl | hfails
    . exact hok.2 hfailed
    . rw [hfailed] at hfails
      cases hfails
  | @test t record taken hpc =>
    have hok := h.current t (h.mutex_eq hpc rfl)
    rw [hpc] at hok
    refine h.go hpc rfl (by rfl) (by rfl) h.contents ⟨hok.1, ?_⟩
    intro hresult
    have hwhole : s.history.current ++ [] = record.text := hok.2 (by simpa using hresult)
    rwa [List.append_nil] at hwhole
  | ret hpc => exact h.ret hpc
  | fail hfree | clear hfree =>
    constructor
    case owned => exact h.owned
    case contents => exact h.contents
    case between => exact h.between
    case current =>
      intro u hu
      rw [show s.mutex = some u from hu] at hfree
      cases hfree
    case lines => exact h.lines
    case merge => exact h.merge
    case numbered => exact h.numbered

end Valid

theorem valid (hs : immediateSystem.Reachable s) : s.Valid :=
  hs.invariant .init fun _ _ _ _ h _ hstep => h.step (step_cases hstep)

/--
The stream takes the writes one by one, and keeps at least a prefix of each.
-/
structure Whole (s : ImmediateState) : Prop where
  contents : s.output.contents = s.history.written.flatMap Written.text ++ s.history.current
  between : s.mutex = none → s.history.current = []
  kept : ∀ written ∈ s.history.written, written.text <+: written.record.text
  accepted : ∀ written ∈ s.history.written, written.result = true → written.text = written.record.text
  order : ∀ producer, (s.history.written.map Written.record).filter (Record.producer · = producer) ++
    s.inflight producer = s.history.calls.filter (Record.producer · = producer)
  once : (s.history.written.map Written.record).Nodup

theorem Valid.whole (h : s.Valid) : s.Whole where
  contents := h.contents
  between := h.between
  kept written hmem := (h.lines written hmem).1
  accepted written hmem := (h.lines written hmem).2
  order producer := by
    have horder := h.merge.eq_of_lost_nil producer
    rwa [List.append_nil] at horder
  once := by
    apply h.merge.nodup
    apply List.Nodup.of_map Record.id
    rw [h.numbered]
    exact List.nodup_range

end ImmediateState

def ImmediateEvent.healthy (event : ImmediateEvent) : Bool :=
  match event with
  | .step _ taken => taken.isNone
  | .fail => false
  | .write _ _ | .clear => true

def ImmediatePc.accepts (pc : ImmediatePc) : Bool :=
  match pc with
  | .unlock _ result => result
  | _ => true

namespace ImmediateState

variable {s s' s₁ : ImmediateState} {event : ImmediateEvent} {t : Nat} {pc : ImmediatePc}

structure Healthy (s : ImmediateState) : Prop where
  healthy : s.output.failed = false
  returning : ∀ t, (s.pc t).accepts = true
  accepted : ∀ written ∈ s.history.written, written.result = true

theorem Healthy.update (h : s.Healthy) (hpcs : s₁.pc = s.pc) (hhealthy : s₁.output.failed = false)
    (haccepted : ∀ written ∈ s₁.history.written, written.result = true) (hpc : pc.accepts = true)
    : (s₁.setPc t pc).Healthy where
  healthy := hhealthy
  returning u := by
    by_cases hu : u = t
    . rw [hu, pc_self]
      exact hpc
    . rw [pc_of_ne hu, hpcs]
      exact h.returning u
  accepted := haccepted

theorem Healthy.step (h : s.Healthy) (hevent : event.healthy = true) (hstep : Step s event s') : s'.Healthy := by
  cases hstep with
  | start | lock | viewed => exact h.update rfl h.healthy h.accepted rfl
  | @accept t taken before after text hpc hwrites =>
    have haccepts : after.accepts = true := by cases hwrites <;> rfl
    have hhealthy : (s.accept text taken).output.failed = false := by
      rw [ImmediateEvent.healthy, Option.isNone_iff_eq_none] at hevent
      simp [ImmediateState.accept, Stream.accept, h.healthy, hevent]
    exact h.update (by rfl) hhealthy h.accepted haccepts
  | test =>
    apply h.update rfl h.healthy h.accepted
    rw [ImmediatePc.accepts, h.healthy]
    rfl
  | @ret t record taken result hpc =>
    have hresult := h.returning t
    rw [hpc] at hresult
    refine h.update (by rfl) h.healthy ?_ (by rfl)
    intro written hmem
    rcases List.mem_append.mp hmem with hold | hnew
    . exact h.accepted written hold
    . cases List.mem_singleton.mp hnew
      exact hresult
  | fail => cases hevent
  | clear => exact ⟨rfl, h.returning, h.accepted⟩

theorem healthy (hs : immediateSystem.ReachableVia (fun _ event => event.healthy = true) s) : s.Healthy := by
  apply hs.invariant _ fun _ _ _ _ h hevent hstep => h.step hevent (step_cases hstep)
  constructor
  case healthy => rfl
  case returning => exact fun _ => rfl
  case accepted => exact fun _ hmem => absurd hmem List.not_mem_nil

def entries (s : ImmediateState) : List LogEntry := s.history.written.map fun written => written.record.entry

/--
The threads together write what a single one would write.
-/
structure Sequential (s : ImmediateState) : Prop where
  accepted : ∀ written ∈ s.history.written, written.result = true
  output : s.mutex = none → s.output = ImmediateSink.writeAll {} s.entries
  readsBack : s.mutex = none → (ReadsBack s.output.contents s.entries ↔ SingleLine s.entries)

theorem Healthy.sequential (h : s.Healthy) (hv : s.Valid) : s.Sequential := by
  have htext : s.mutex = none → s.output.contents = logText s.entries := by
    intro hfree
    rw [hv.contents, hv.between hfree, List.append_nil, logText, entries, List.flatMap_map]
    apply List.flatMap_congr
    intro written hmem
    exact (hv.lines written hmem).2 (h.accepted written hmem)
  constructor
  case accepted => exact h.accepted
  case output =>
    intro hfree
    have hcontents := htext hfree
    rw [ImmediateSink.writeAll_eq, Stream.write, if_neg Bool.false_ne_true]
    cases hout : s.output with
    | mk contents failed =>
      have hhealthy := h.healthy
      rw [hout] at hcontents hhealthy
      dsimp only at hcontents hhealthy
      rw [hcontents, hhealthy]
      rfl
  case readsBack =>
    intro hfree
    rw [htext hfree]
    exact readsBack_iff s.entries

end ImmediateState

def ImmediateEvent.clears (event : ImmediateEvent) : Bool :=
  match event with
  | .clear => true
  | _ => false

namespace ImmediateState

variable {s s' : ImmediateState} {event : ImmediateEvent} {t : Nat}

def records (s : ImmediateState) : List Record := s.history.written.map Written.record

def writing (s : ImmediateState) : List Record :=
  match s.mutex with
  | some t => (s.pc t).inflight
  | none => []

theorem writing_eq (h : s.mutex = some t) : s.writing = (s.pc t).inflight := by
  rw [writing, h]

theorem writing_eq_nil (h : s.mutex = none) : s.writing = [] := by
  rw [writing, h]

/--
What is left on a stream that is never cleared. The text stops for good where an operation has failed.
-/
structure Unbroken (s : ImmediateState) : Prop where
  cut : s.output.contents <+: render (s.records ++ s.writing)
  whole : s.output.failed = false → s.output.contents = render s.records ++ s.history.current
  returning : s.output.failed = false → ∀ t, (s.pc t).accepts = true

theorem render_append (before after : List Record) : render (before ++ after) = render before ++ render after :=
  List.flatMap_append

theorem Unbroken.start (h : s.Unbroken) (hv : s.Valid) (entry : LogEntry) (hpc : s.pc t = .idle)
    : (s.startWrite t entry).Unbroken := by
  have hwriting : (s.startWrite t entry).writing = s.writing := by
    cases hmutex : s.mutex with
    | none => exact (writing_eq_nil (s := s.startWrite t entry) hmutex).trans (writing_eq_nil hmutex).symm
    | some u =>
      have hne : u ≠ t := by
        rintro rfl
        have hheld := (hv.owned u).mpr hmutex
        rw [hpc] at hheld
        cases hheld
      rw [writing_eq (s := s.startWrite t entry) hmutex, writing_eq hmutex, startWrite, pc_of_ne hne]
  constructor
  case cut =>
    rw [hwriting]
    exact h.cut
  case whole => exact h.whole
  case returning =>
    intro hfailed u
    by_cases hu : u = t
    . subst hu
      rw [startWrite, pc_self]
      rfl
    . rw [startWrite, pc_of_ne hu]
      exact h.returning hfailed u

theorem Ok.prefix_render {pc : ImmediatePc} {failed : Bool} {current : Text} (h : pc.Ok failed current)
    (hholds : pc.holds = true)
    : current <+: render pc.inflight := by
  cases pc
  case idle | lock => cases hholds
  all_goals
    simp only [ImmediatePc.inflight, render, List.flatMap_singleton]
    exact h.1

theorem Unbroken.go (h : s.Unbroken) (hv : s.Valid) {before pc : ImmediatePc} (hpc : s.pc t = before)
    (hbefore : before.holds = true) (hafter : pc.holds = true) (hinflight : pc.inflight = before.inflight)
    {output : Stream} {current : Text} (haccepts : output.failed = false → pc.accepts = true)
    (hhealthy : s.output.failed = false → output.contents = render s.records ++ current)
    (hfailed : s.output.failed = true → output.contents = s.output.contents ∧ output.failed = true)
    (hv' : ({ s with output := output, history := { s.history with current := current } }.setPc t pc).Valid)
    : ({ s with output := output, history := { s.history with current := current } }.setPc t pc).Unbroken := by
  have hmutex := hv.mutex_eq hpc hbefore
  have hwriting : s.writing = pc.inflight := by
    rw [writing_eq hmutex, hpc, hinflight]
  have hwriting' : ({ s with output := output, history := { s.history with current := current } }.setPc t pc).writing =
      pc.inflight :=
    (writing_eq (t := t) (by exact hmutex)).trans (by rw [pc_self])
  have hbefore : output.failed = false → s.output.failed = false := by
    intro houtput
    by_contra hbroken
    rw [(hfailed (by simpa using hbroken)).2] at houtput
    cases houtput
  constructor
  case cut =>
    rw [hwriting']
    show output.contents <+: render (s.records ++ pc.inflight)
    cases hbroken : s.output.failed with
    | true =>
      rw [(hfailed hbroken).1, ← hwriting]
      exact h.cut
    | false =>
      have hok := hv'.current t hmutex
      rw [pc_self] at hok
      rw [hhealthy hbroken, render_append, List.prefix_append_right_inj]
      exact Ok.prefix_render hok hafter
  case whole => exact fun houtput => hhealthy (hbefore houtput)
  case returning =>
    intro houtput u
    by_cases hu : u = t
    . rw [hu, pc_self]
      exact haccepts houtput
    . rw [pc_of_ne hu]
      exact h.returning (hbefore houtput) u

theorem Unbroken.lock (h : s.Unbroken) {record : Record} (hfree : s.mutex = none)
    : ({ s with mutex := some t }.setPc t (.write record)).Unbroken := by
  have hcut := h.cut
  rw [writing_eq_nil hfree, List.append_nil] at hcut
  constructor
  case cut =>
    apply hcut.trans
    rw [render_append]
    exact List.prefix_append _ _
  case whole => exact h.whole
  case returning =>
    intro hfailed u
    by_cases hu : u = t
    . rw [hu, pc_self]
      rfl
    . rw [pc_of_ne hu]
      exact h.returning hfailed u

theorem Unbroken.ret (h : s.Unbroken) (hv : s.Valid) {record : Record} {result : Bool}
    (hpc : s.pc t = .unlock record result)
    : (s.returnWrite t record result).Unbroken := by
  have hmutex := hv.mutex_eq hpc rfl
  have hrecords : (s.returnWrite t record result).records = s.records ++ [record] := by
    rw [records, records, returnWrite]
    exact List.map_append
  have hwriting : s.writing = [record] := by
    rw [writing_eq hmutex, hpc]
    rfl
  constructor
  case cut =>
    rw [hrecords, ← hwriting]
    show s.output.contents <+: render (s.records ++ s.writing ++ [])
    rw [List.append_nil]
    exact h.cut
  case whole =>
    intro hfailed
    have hresult := h.returning hfailed t
    have hok := hv.current t hmutex
    rw [hpc] at hresult hok
    rw [hrecords, render_append]
    show s.output.contents = render s.records ++ render [record] ++ []
    rw [List.append_nil, h.whole hfailed, hok.2 hresult]
    simp [render]
  case returning =>
    intro hfailed u
    by_cases hu : u = t
    . rw [hu, returnWrite, pc_self]
      rfl
    . rw [returnWrite, pc_of_ne hu]
      exact h.returning hfailed u

theorem Unbroken.step (h : s.Unbroken) (hv : s.Valid) (hclears : event.clears = false) (hstep : Step s event s')
    : s'.Unbroken := by
  have hv' := hv.step hstep
  cases hstep with
  | start entry hpc => exact h.start hv entry hpc
  | lock hpc hfree => exact h.lock hfree
  | @accept t taken before after text hpc hwrites =>
    have haccepts : after.accepts = true := by cases hwrites <;> rfl
    apply h.go hv hpc hwrites.holds.1 hwrites.holds.2 hwrites.inflight_eq (fun _ => haccepts) ?_ ?_ hv'
    . intro hhealthy
      rw [Stream.accept, h.whole hhealthy, List.append_assoc]
    . intro hfailed
      simp [Stream.accept, Stream.portion, hfailed]
  | viewed hpc hdone =>
    exact h.go hv hpc (by rfl) (by rfl) (by rfl) (fun _ => rfl) h.whole (fun hfailed => ⟨rfl, hfailed⟩) hv'
  | @test t record taken hpc =>
    refine h.go hv hpc (by rfl) (by rfl) (by rfl) ?_ h.whole (fun hfailed => ⟨rfl, hfailed⟩) hv'
    intro hhealthy
    rw [ImmediatePc.accepts, hhealthy]
    rfl
  | ret hpc => exact h.ret hv hpc
  | fail => exact ⟨h.cut, nofun, nofun⟩
  | clear => cases hclears

end ImmediateState

theorem immediate_sink_writes_whole {s : ImmediateState} (hs : immediateSystem.Reachable s) : s.Whole :=
  (ImmediateState.valid hs).whole

-- A long record is cut off in the middle, and the next one finds the stream cleared.
theorem immediate_sink_writes_whole_cut
    : ∃ s : ImmediateState, s.history.written.map Written.result = [false, true] ∧ s.Whole := by
  have hrun : (immediateSystem.run .init
      (.write 1 (plainEntry "first") :: .write 2 (plainEntry "second") :: .step 1 none :: .step 1 (some 10) ::
        List.replicate 2 (.step 1 none) ++ .clear :: List.replicate 4 (.step 2 none))).map
      (fun s => decide (s.history.written.map Written.result = [false, true])) = some true := by
    decide +kernel
  obtain ⟨s, hs, hp⟩ := System.exists_of_run _ hrun
  rw [decide_eq_true_eq] at hp
  exact ⟨s, hp, immediate_sink_writes_whole hs⟩

theorem immediate_sink_refines_sequential {s : ImmediateState}
    (hs : immediateSystem.ReachableVia (fun _ event => event.healthy = true) s)
    : s.Sequential :=
  (ImmediateState.healthy hs).sequential (ImmediateState.valid hs.reachable)

theorem immediate_sink_refines_sequential_two
    : ∃ s : ImmediateState, s.entries = [plainEntry "second", plainEntry "first"] ∧ s.mutex = none ∧ s.Sequential := by
  have hrun : ((immediateSystem.restrict (fun _ event => event.healthy)).run .init
      (.write 1 (plainEntry "first") :: .write 2 (plainEntry "second") :: List.replicate 4 (.step 2 none) ++
        List.replicate 4 (.step 1 none))).map
      (fun s => decide (s.entries = [plainEntry "second", plainEntry "first"]) && decide (s.mutex = none)) =
        some true := by
    decide +kernel
  obtain ⟨s, hs, hp⟩ := System.exists_via_of_run _ hrun
  simp only [Bool.and_eq_true, decide_eq_true_eq] at hp
  exact ⟨s, hp.1, hp.2, immediate_sink_refines_sequential hs⟩

end Vosp
