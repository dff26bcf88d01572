import Vosp.Logger.Covered

/-!
This module says what the buffered sink guarantees: on a stream that never fails it loses, duplicates and
reorders nothing, and on a stream that can fail the success of a flush can be trusted as long as no
buffer is output while the stream is failed.
-/

namespace Vosp

namespace BufferedState

variable {n : Nat} {s s' : BufferedState} {event : SinkEvent} {flushThreshold : { n : Nat // 0 < n }}

structure Valid (n : Nat) (s : BufferedState) : Prop where
  owned : s.Owned
  registered : s.Registered
  own : s.Own
  rendered : s.Rendered
  placed : s.Placed
  called : s.Called
  numbered : s.Numbered
  bounded : s.Bounded n
  spilled : s.Spilled
  covered : s.Covered

theorem Valid.init (n : Nat) : BufferedState.init.Valid n where
  owned := Mutex.Owned.none (fun _ _ => rfl)
  registered := .init
  own := fun _ _ hmem => absurd hmem List.not_mem_nil
  rendered := {
    contents := rfl
    buffers := fun _ _ hshard => absurd hshard (Option.some_ne_none _).symm
    unregistered := fun _ _ => rfl
  }
  placed := by
    have hbyThread : byThread SinkPc.inflight BufferedState.init.pc = fun _ => [] := by
      funext producer
      cases producer <;> rfl
    unfold Placed
    rw [hbyThread]
    exact .init
  called := by
    have hbyThread : byThread SinkPc.active BufferedState.init.pc = fun _ => [] := by
      funext producer
      cases producer <;> rfl
    unfold Called
    rw [hbyThread]
    exact .init
  numbered := rfl
  bounded := fun _ _ _ hshard => absurd hshard (Option.some_ne_none _).symm
  spilled := fun _ _ _ hpc => SinkPc.noConfusion hpc
  covered := {
    before := fun _ => List.Subset.refl _
    located := fun _ _ _ _ _ hmem => absurd hmem List.not_mem_nil
  }

theorem Valid.step (h : s.Valid n) (hn : 0 < n) (hstep : Step n s event s') : s'.Valid n where
  owned := h.owned.step hstep
  registered := h.registered.step hstep
  own := h.own.step hstep
  rendered := h.rendered.step h.registered h.own hstep
  placed := h.placed.step h.own hstep
  called := h.called.step hstep
  numbered := h.numbered.step hstep
  bounded := h.bounded.step hn hstep
  spilled := h.spilled.step h.own h.registered h.owned hstep
  covered := h.covered.step h.rendered h.called h.placed h.numbered.nodup hstep

theorem valid (hs : (bufferedSystem flushThreshold).Reachable s) : s.Valid flushThreshold := by
  apply System.ReachableVia.invariant _ _ hs
  . exact .init _
  . intro s event s' _ h _ hstep
    exact h.step flushThreshold.2 (step_cases hstep)

theorem Valid.flushed (h : s.Valid n) {t : Nat} {result result' : Bool} {record : Record}
    (hpc : s.pc t = .flushed result) (hmem : (record, result') ∈ s.history.before t)
    : record ∈ s.history.log ∨ record ∈ s.history.lost := by
  rcases h.covered.located t [] (by rw [hpc]; rfl) record result' hmem with hlog | hlost | ⟨i, hi, -⟩
  . exact .inl hlog
  . exact .inr hlost
  . cases hi

def buffered (s : BufferedState) : List Record := s.shards.flatMap fun shard => s.history.pending shard.producer

theorem count_flatMap_pending {shards : List Shard} {pending : ThreadId → List Record} {record : Record}
    (hnodup : (shards.map Shard.producer).Nodup)
    (hkey : ∀ producer, ∀ other ∈ pending producer, other.producer = producer)
    : (shards.flatMap fun shard => pending shard.producer).count record =
        if record.producer ∈ shards.map Shard.producer then (pending record.producer).count record else 0 := by
  induction shards with
  | nil => simp
  | cons shard shards ih =>
    rw [List.map_cons, List.nodup_cons] at hnodup
    rw [List.flatMap_cons, List.count_append, ih hnodup.2, List.map_cons]
    by_cases hproducer : record.producer = shard.producer
    . rw [hproducer, if_neg hnodup.1, if_pos List.mem_cons_self, Nat.add_zero]
    . rw [Merge.count_eq_zero (hkey shard.producer) hproducer, Nat.zero_add]
      simp [hproducer]

theorem Valid.count_buffered (h : s.Valid n) (record : Record)
    : s.buffered.count record = (s.history.pending record.producer).count record := by
  rw [buffered, count_flatMap_pending h.registered.producers (fun _ _ => Merge.key_of_pending h.placed)]
  split
  . rfl
  . next hnone =>
    rw [h.rendered.unregistered, List.count_nil]
    intro shard hshard heq
    exact hnone (heq ▸ List.mem_map_of_mem hshard)

theorem Valid.count_returned (h : s.Valid n) {record : Record} {result : Bool}
    (hmem : (record, result) ∈ s.history.returned)
    : (s.history.log ++ s.buffered).count record + s.history.lost.count record = 1 := by
  have hcalled := h.called.total record
  have hplaced := h.placed.total record
  have hle := List.nodup_iff_count_le_one.mp h.numbered.nodup record
  have hpos : 0 < (s.history.returned.map Prod.fst).count record :=
    List.count_pos_iff.mpr (List.mem_map_of_mem hmem)
  have hactive : (byThread SinkPc.active s.pc record.producer).count record = 0 := by omega
  have hinflight : (byThread SinkPc.inflight s.pc record.producer).count record = 0 := by
    rw [List.count_eq_zero] at hactive ⊢
    intro hin
    apply hactive
    cases hproducer : record.producer with
    | none =>
      rw [hproducer] at hin
      cases hin
    | some t =>
      rw [hproducer] at hin
      exact inflight_subset_active (s.pc t) hin
  rw [List.count_append, h.count_buffered]
  omega

end BufferedState

def SinkEvent.healthy (event : SinkEvent) : Bool :=
  match event with
  | .fail => false
  | _ => true

namespace BufferedState

variable {n : Nat} {s s' : BufferedState} {event : SinkEvent} {flushThreshold : { n : Nat // 0 < n }}

-- `flush_shard` does not output a buffer to a failed stream.
def outputsHealthy (s : BufferedState) (event : SinkEvent) : Bool :=
  match event with
  | .step t =>
    match s.pc t with
    | .spill _ _ | .output _ _ _ => !s.output.failed
    | _ => true
  | _ => true

-- The same, but a write may meet a failed stream when the buffer holds nothing but its own record.
def outputsOwn (s : BufferedState) (event : SinkEvent) : Bool :=
  match event with
  | .step t =>
    match s.pc t with
    | .spill record i => !s.output.failed || s.shards[i]?.all (·.buffer = record.text)
    | .output _ _ _ => !s.output.failed
    | _ => true
  | _ => true

theorem lost_output_of_healthy (hfailed : s.output.failed = false) (i : Nat) (shard : Shard)
    : (s.outputShard i shard).history.lost = s.history.lost := by
  simp [outputShard, SinkHistory.drain, hfailed]

theorem lost_step_of_healthy (hstep : Step n s event s') (hok : s.outputsHealthy event = true)
    : s'.history.lost = s.history.lost := by
  cases hstep with
  | @spill t record i shard hpc | @output t i rest success shard hpc =>
    simp only [outputsHealthy, hpc, Bool.not_eq_true'] at hok
    exact lost_output_of_healthy hok i shard
  | _ => rfl

theorem lost_eq_nil (hs : (bufferedSystem flushThreshold).ReachableVia (fun s e => s.outputsHealthy e = true) s)
    : s.history.lost = [] := by
  apply System.ReachableVia.invariant _ _ hs
  . rfl
  . intro s event s' _ h hok hstep
    rw [lost_step_of_healthy (step_cases hstep) hok, h]

end BufferedState

def sampleEntry : LogEntry where
  error := { category := .network, code := 7, message := ascii "a" }

namespace BufferedState

variable {n : Nat} {s s' : BufferedState} {event : SinkEvent} {flushThreshold : { n : Nat // 0 < n }}

def Reported (s : BufferedState) : Prop :=
  ∀ record ∈ s.history.lost, (record, false) ∈ s.history.returned ∨ ∃ t, s.pc t = .wrote record false

theorem Reported.frame (h : s.Reported) {t : Nat} {after : SinkPc}
    (hpc : ∀ record result, s.pc t ≠ .wrote record result) (record : Record) (hlost : record ∈ s.history.lost)
    : (record, false) ∈ s.history.returned ∨ ∃ u, Function.update s.pc t after u = .wrote record false := by
  rcases h record hlost with hreturned | ⟨u, hu⟩
  . exact .inl hreturned
  . refine .inr ⟨u, ?_⟩
    rw [Function.update_of_ne]
    . exact hu
    . rintro rfl
      exact hpc record false hu

theorem Reported.spill (h : s.Reported) (hv : s.Valid n) {t i : Nat} {record : Record} {shard : Shard}
    (hpc : s.pc t = .spill record i) (hshard : s.shards[i]? = some shard)
    (hok : s.output.failed = true → shard.buffer = record.text) (other : Record)
    (hlost : other ∈ (s.outputShard i shard).history.lost)
    : (other, false) ∈ s.history.returned ∨
        ∃ u, Function.update s.pc t (.wrote record (shard.output s.output).1) u = .wrote other false := by
  have hpc' : ∀ record result, s.pc t ≠ .wrote record result := by
    rw [hpc]
    exact fun _ _ heq => SinkPc.noConfusion heq
  have hframe := @Reported.frame s h t (.wrote record (shard.output s.output).1) hpc' other
  cases hfailed : s.output.failed with
  | false =>
    rw [lost_output_of_healthy hfailed] at hlost
    exact hframe hlost
  | true =>
    have hresult : (shard.output s.output).1 = false := by
      simp [Shard.output, hfailed]
    have hproducer : shard.producer = some t := by
      obtain ⟨shard', hshard', hproducer⟩ := hv.registered.target t i (by rw [hpc]; rfl)
      rw [hshard, Option.some.injEq] at hshard'
      rwa [hshard']
    -- The buffer ends with the record of the write, so there is nothing in front of it.
    obtain ⟨front, hfront⟩ := hv.spilled t record i hpc
    have hbuffer := hv.rendered.buffers i shard hshard
    rw [hok hfailed, hproducer, hfront, render_append, render_singleton] at hbuffer
    have hempty := eq_nil_of_render (List.self_eq_append_left.mp hbuffer)
    simp only [outputShard, SinkHistory.drain, hfailed, if_true, hproducer, hfront, hempty, List.nil_append,
      List.mem_append, List.mem_singleton] at hlost
    rcases hlost with hold | rfl
    . exact hframe hold
    . refine .inr ⟨t, ?_⟩
      rw [Function.update_self, hresult]

theorem Reported.step (h : s.Reported) (hv : s.Valid n) (hok : s.outputsOwn event = true)
    (hstep : Step n s event s')
    : s'.Reported := by
  intro other hlost
  cases hstep with
  | switch | fail | clear => exact h other hlost
  | @wrote t record result hpc =>
    rcases h other hlost with hreturned | ⟨u, hu⟩
    . exact .inl (List.mem_append_left _ hreturned)
    . by_cases hut : u = t
      . subst hut
        rw [hpc] at hu
        cases hu
        exact .inl (List.mem_append_right _ List.mem_cons_self)
      . refine .inr ⟨u, ?_⟩
        simp only [returnWrite, setPc, Function.update_of_ne hut]
        exact hu
  | @spill t record i shard hpc hshard =>
    apply h.spill hv hpc hshard _ other hlost
    intro hfailed
    simpa [outputsOwn, hpc, hshard, hfailed] using hok
  | @output t i rest success shard hpc hshard =>
    simp only [outputsOwn, hpc, Bool.not_eq_true'] at hok
    have hold : other ∈ s.history.lost := lost_output_of_healthy hok i shard ▸ hlost
    apply h.frame _ other hold
    rw [hpc]
    exact fun _ _ heq => SinkPc.noConfusion heq
  | move hpc hmove =>
    apply h.frame _ other hlost
    rw [hpc]
    cases hmove <;> exact fun _ _ heq => SinkPc.noConfusion heq
  | write hpc | flush hpc | register hpc | append hpc | full hpc | take hpc =>
    apply h.frame _ other hlost
    rw [hpc]
    exact fun _ _ heq => SinkPc.noConfusion heq

theorem reported (hs : (bufferedSystem flushThreshold).ReachableVia (fun s e => s.outputsOwn e = true) s)
    : s.Reported := by
  apply System.ReachableVia.invariant _ _ hs
  . exact fun _ hmem => absurd hmem List.not_mem_nil
  . intro s event s' hs h hok hstep
    exact h.step (valid hs.reachable) hok (step_cases hstep)

theorem Valid.not_lost (h : s.Valid n) (hreported : s.Reported) {record : Record}
    (hmem : (record, true) ∈ s.history.returned)
    : record ∉ s.history.lost := by
  intro hlost
  have hnodup := h.called.nodup h.numbered.nodup
  rcases hreported record hlost with hreturned | ⟨t, ht⟩
  . have heq := List.inj_on_of_nodup_map hnodup hmem hreturned rfl
    cases heq
  . have hcalled := h.called.total record
    have hle := List.nodup_iff_count_le_one.mp h.numbered.nodup record
    have hpos : 0 < (s.history.returned.map Prod.fst).count record :=
      List.count_pos_iff.mpr (List.mem_map_of_mem hmem)
    have hproducer : record.producer = some t := h.own t record (by rw [ht]; exact List.mem_cons_self)
    have hactive : 0 < (byThread SinkPc.active s.pc record.producer).count record := by
      rw [List.count_pos_iff, hproducer, byThread, ht]
      exact List.mem_cons_self
    omega

/--
A record whose write was successful is in the stream or in a buffer, and after a flush in the stream.
-/
structure Kept (s : BufferedState) : Prop where
  lines : s.output.contents = render s.history.log
  accepted : ∀ record, (record, true) ∈ s.history.returned → (s.history.log ++ s.buffered).count record = 1
  flushed : ∀ t, s.pc t = .flushed true → ∀ record, (record, true) ∈ s.history.before t →
    s.history.log.count record = 1

theorem Valid.kept (h : s.Valid n) (hlost : ∀ record, (record, true) ∈ s.history.returned → record ∉ s.history.lost)
    : s.Kept where
  lines := h.rendered.contents
  accepted := by
    intro record hmem
    have hcount := h.count_returned hmem
    rwa [List.count_eq_zero_of_not_mem (hlost record hmem), Nat.add_zero] at hcount
  flushed := by
    intro t hpc record hmem
    have hlog : record ∈ s.history.log := by
      rcases h.flushed hpc hmem with hlog | hmemlost
      . exact hlog
      . exact absurd hmemlost (hlost record (h.covered.before t hmem))
    have hpos := List.count_pos_iff.mpr hlog
    have hle := List.nodup_iff_count_le_one.mp (h.placed.nodup h.numbered.nodup) record
    omega

end BufferedState

theorem buffered_sink_keeps_records (flushThreshold : { n : Nat // 0 < n })
    : (∀ s, (bufferedSystem flushThreshold).ReachableVia (fun s e => s.outputsOwn e = true) s → s.Kept) ∧
        ∀ s, (bufferedSystem flushThreshold).ReachableVia (fun s e => s.outputsHealthy e = true) s →
          s.Kept ∧ s.history.lost = [] := by
  constructor
  . intro s hs
    have hv := BufferedState.valid hs.reachable
    exact hv.kept (fun record => hv.not_lost (BufferedState.reported hs))
  . intro s hs
    have hlost := BufferedState.lost_eq_nil hs
    refine ⟨(BufferedState.valid hs.reachable).kept (fun record _ => ?_), hlost⟩
    rw [hlost]
    exact List.not_mem_nil

theorem buffered_sink_keeps_records_sample
    : ∃ s : BufferedState, s.pc 2 = .flushed true ∧ s.history.before 2 = [(⟨0, some 1, sampleEntry⟩, true)] ∧
        s.Kept := by
  have hrun : (((bufferedSystem ⟨4096, by decide⟩).restrict BufferedState.outputsOwn).run .init
      [.write 1 sampleEntry, .step 1, .step 1, .step 1, .step 1, .fail, .flush 2, .step 2, .clear, .step 2,
        .step 2, .step 2]).map (fun s => decide (s.pc 2 = .flushed true) &&
          decide (s.history.before 2 = [(⟨0, some 1, sampleEntry⟩, true)])) = some true := by
    decide
  obtain ⟨s, hs, hp⟩ := System.exists_via_of_run _ hrun
  rw [Bool.and_eq_true, decide_eq_true_eq, decide_eq_true_eq] at hp
  exact ⟨s, hp.1, hp.2, (buffered_sink_keeps_records _).1 s hs⟩

-- A flush on the failed stream empties the buffer, and the next one has nothing left to do.
theorem buffered_sink_drops_record
    : ∃ s : BufferedState, (bufferedSystem ⟨4096, by decide⟩).Reachable s ∧ s.pc 2 = .flushed true ∧
        (⟨0, some 1, sampleEntry⟩, true) ∈ s.history.before 2 ∧
        ⟨0, some 1, sampleEntry⟩ ∉ s.history.log ++ s.buffered := by
  have hrun : ((bufferedSystem ⟨4096, by decide⟩).run .init
      [.write 1 sampleEntry, .step 1, .step 1, .step 1, .step 1, .fail, .flush 2, .step 2, .step 2, .step 2,
        .step 2, .step 2, .clear, .flush 2, .step 2, .step 2, .step 2]).map
      (fun s => decide (s.pc 2 = .flushed true) &&
        (decide ((⟨0, some 1, sampleEntry⟩, true) ∈ s.history.before 2) &&
          decide (⟨0, some 1, sampleEntry⟩ ∉ s.history.log ++ s.buffered))) = some true := by
    decide
  obtain ⟨s, hs, hp⟩ := System.exists_of_run _ hrun
  simp only [Bool.and_eq_true, decide_eq_true_eq] at hp
  exact ⟨s, hs, hp⟩

end Vosp
