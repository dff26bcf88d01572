import Vosp.Lib.Merge
import Vosp.Logger.Shards

/-!
This module contains where the records of the buffered sink are, in every reachable state: the bytes of
the stream are those of the log, the bytes of a buffer those of the pending records of its producer, and
every record that a write was called for is in exactly one place.
-/

namespace Vosp.BufferedState

variable {n : Nat} {s s' : BufferedState} {event : SinkEvent} {t : Nat}

theorem render_append (records records' : List Record)
    : render (records ++ records') = render records ++ render records' :=
  List.flatMap_append

theorem render_singleton (record : Record) : render [record] = record.text := by
  simp [render]

theorem text_ne_nil (record : Record) : record.text ≠ [] := by
  simp [Record.text]

theorem eq_nil_of_render {records : List Record} (h : render records = []) : records = [] := by
  cases records with
  | nil => rfl
  | cons record records =>
    rw [render, List.flatMap_cons, List.append_eq_nil_iff] at h
    exact absurd h.1 (text_ne_nil record)

def Own (s : BufferedState) : Prop := ∀ t, ∀ record ∈ (s.pc t).active, record.producer = some t

theorem own_update (h : s.Own) {before after : SinkPc} (hpc : s.pc t = before)
    (hsub : ∀ record ∈ after.active, record ∈ before.active) (u : Nat)
    : ∀ record ∈ (Function.update s.pc t after u).active, record.producer = some u := by
  intro record hrecord
  by_cases hut : u = t
  . subst hut
    rw [Function.update_self] at hrecord
    exact h u record (hpc ▸ hsub record hrecord)
  . rw [Function.update_of_ne hut] at hrecord
    exact h u record hrecord

theorem Own.step (h : s.Own) (hstep : Step n s event s') : s'.Own := by
  cases hstep with
  | switch | fail | clear => exact h
  | @write t entry hpc =>
    intro u record hu
    by_cases hut : u = t
    . subst hut
      simp only [startWrite, setPc, Function.update_self, SinkPc.active, List.mem_singleton] at hu
      rw [hu]
    . simp only [startWrite, setPc, Function.update_of_ne hut] at hu
      exact h u record hu
  | move hpc hmove => exact own_update h hpc (fun r hr => hmove.active_eq ▸ hr)
  | flush hpc | register hpc | append hpc | full hpc | spill hpc | take hpc | output hpc =>
    exact own_update h hpc (fun _ hr => hr)
  | wrote hpc => exact own_update h hpc (fun _ hr => absurd hr List.not_mem_nil)

structure Rendered (s : BufferedState) : Prop where
  contents : s.output.contents = render s.history.log
  buffers : ∀ (i : Nat) (shard : Shard), s.shards[i]? = some shard →
    shard.buffer = render (s.history.pending shard.producer)
  unregistered : ∀ producer, (∀ shard ∈ s.shards, shard.producer ≠ producer) →
    s.history.pending producer = []

theorem Registered.eq_of_producer (h : s.Registered) {i j : Nat} {shard shard' : Shard}
    (hi : s.shards[i]? = some shard) (hj : s.shards[j]? = some shard')
    (hproducer : shard.producer = shard'.producer)
    : i = j := by
  obtain ⟨hilt, rfl⟩ := List.getElem?_eq_some_iff.mp hi
  obtain ⟨hjlt, rfl⟩ := List.getElem?_eq_some_iff.mp hj
  have hnodup := List.nodup_iff_injective_get.mp h.producers
  have hmap : (s.shards.map Shard.producer).get ⟨i, by simpa using hilt⟩ =
      (s.shards.map Shard.producer).get ⟨j, by simpa using hjlt⟩ := by
    simpa using hproducer
  exact congrArg Fin.val (hnodup hmap)

theorem buffers_set (h : s.Rendered) (hr : s.Registered) {i : Nat} {shard shard' : Shard}
    {records : List Record} (hshard : s.shards[i]? = some shard) (hproducer : shard'.producer = shard.producer)
    (hbuffer : shard'.buffer = render records) {j : Nat} {other : Shard}
    (hj : (s.shards.set i shard')[j]? = some other)
    : other.buffer = render (Function.update s.history.pending shard.producer records other.producer) := by
  by_cases hij : i = j
  . subst hij
    rw [List.getElem?_set_self (List.getElem?_eq_some_iff.mp hshard).1, Option.some.injEq] at hj
    subst hj
    rw [hproducer, Function.update_self, hbuffer]
  . rw [List.getElem?_set_ne hij] at hj
    have hne : other.producer ≠ shard.producer := by
      intro heq
      exact hij (hr.eq_of_producer hshard hj heq.symm)
    rw [Function.update_of_ne hne]
    exact h.buffers j other hj

theorem unregistered_set (h : s.Rendered) {i : Nat} {shard shard' : Shard} {records : List Record}
    (hshard : s.shards[i]? = some shard) (hproducer : shard'.producer = shard.producer) (producer : ThreadId)
    (hnone : ∀ other ∈ s.shards.set i shard', other.producer ≠ producer)
    : Function.update s.history.pending shard.producer records producer = [] := by
  have hi := (List.getElem?_eq_some_iff.mp hshard).1
  have hne : producer ≠ shard.producer := by
    rintro rfl
    exact hnone shard' (List.mem_set hi _) hproducer
  rw [Function.update_of_ne hne]
  apply h.unregistered
  intro other hother heq
  have hmem : other.producer ∈ (s.shards.set i shard').map Shard.producer := by
    rw [producers_set hshard hproducer]
    exact List.mem_map_of_mem hother
  obtain ⟨other', hother', hsame⟩ := List.mem_map.mp hmem
  exact hnone other' hother' (hsame.trans heq)

theorem Rendered.append (h : s.Rendered) (hr : s.Registered) {record : Record} {i : Nat} {shard : Shard}
    (hshard : s.shards[i]? = some shard) (hproducer : shard.producer = record.producer)
    : (s.appendRecord record i shard).Rendered where
  contents := h.contents
  buffers := by
    intro j other hj
    rw [appendRecord] at hj ⊢
    rw [← hproducer]
    apply buffers_set h hr hshard (shard.producer_append record.entry) _ hj
    rw [Shard.buffer_append, h.buffers i shard hshard, render_append, render_singleton]
    rfl
  unregistered := by
    rw [appendRecord, ← hproducer]
    exact fun producer hnone => unregistered_set h hshard (shard.producer_append record.entry) producer hnone

theorem Rendered.output (h : s.Rendered) (hr : s.Registered) {i : Nat} {shard : Shard}
    (hshard : s.shards[i]? = some shard)
    : (s.outputShard i shard).Rendered where
  contents := by
    simp only [outputShard, Shard.output, SinkHistory.drain]
    cases hfailed : s.output.failed with
    | true => rw [Stream.write_of_failed hfailed, if_pos rfl, h.contents]
    | false =>
      rw [Stream.contents_write hfailed, if_neg Bool.false_ne_true, render_append, h.contents,
        h.buffers i shard hshard]
  buffers := by
    have hproducer : (shard.output s.output).2.1.producer = shard.producer := rfl
    exact fun j other hj => buffers_set h hr hshard hproducer rfl hj
  unregistered := by
    have hproducer : (shard.output s.output).2.1.producer = shard.producer := rfl
    exact fun producer hnone => unregistered_set h hshard hproducer producer hnone

theorem Rendered.step (h : s.Rendered) (hr : s.Registered) (hown : s.Own) (hstep : Step n s event s')
    : s'.Rendered := by
  cases hstep with
  | @register t record i shards hpc hregister =>
    rcases registerShard_cases hregister with ⟨rfl, -⟩ | ⟨hnew, -, rfl⟩
    . exact ⟨h.contents, h.buffers, h.unregistered⟩
    . constructor
      . exact h.contents
      . intro i shard hshard
        simp only [setPc, setCache] at hshard ⊢
        by_cases hi : i < s.shards.length
        . rw [List.getElem?_append_left hi] at hshard
          exact h.buffers i shard hshard
        . rw [List.getElem?_append_right (Nat.le_of_not_lt hi)] at hshard
          have hmem := List.mem_of_getElem? hshard
          rw [List.mem_singleton] at hmem
          rw [hmem, h.unregistered _ hnew]
          rfl
      . intro producer hnone
        simp only [setPc, setCache] at hnone ⊢
        apply h.unregistered
        exact fun shard hshard => hnone shard (List.mem_append_left _ hshard)
  | @append t record i shard hpc hfree hshard | @full t record i shard hpc hfree hshard =>
    have hproducer : shard.producer = record.producer := by
      obtain ⟨other, hother, hproducer⟩ := hr.target t i (by rw [hpc]; rfl)
      rw [hshard] at hother
      cases hother
      rw [hproducer, hown t record (by rw [hpc]; exact List.mem_cons_self)]
    have happend := h.append hr hshard hproducer
    exact ⟨happend.contents, happend.buffers, happend.unregistered⟩
  | spill hpc hshard | output hpc hshard =>
    have houtput := h.output hr hshard
    exact ⟨houtput.contents, houtput.buffers, houtput.unregistered⟩
  | _ => exact ⟨h.contents, h.buffers, h.unregistered⟩

def byThread (f : SinkPc → List Record) (g : Nat → SinkPc) (producer : ThreadId) : List Record :=
  match producer with
  | some t => f (g t)
  | none => []

section

variable {f : SinkPc → List Record} {g : Nat → SinkPc} {before after : SinkPc}

theorem byThread_self : byThread f (Function.update g t after) (some t) = f after :=
  congrArg f (Function.update_self _ _ _)

theorem byThread_of_ne (producer : ThreadId) (hne : producer ≠ some t)
    : byThread f (Function.update g t after) producer = byThread f g producer := by
  cases producer with
  | none => rfl
  | some u => exact congrArg f (Function.update_of_ne (fun hut => hne (congrArg some hut)) _ _)

theorem byThread_frame (hpc : g t = before) (h : f after = f before)
    : byThread f (Function.update g t after) = byThread f g := by
  funext producer
  cases producer with
  | none => rfl
  | some u => exact proj_update hpc h u

end

def Placed (s : BufferedState) : Prop :=
  Merge Record.producer s.history.calls s.history.log s.history.lost s.history.pending
    (byThread SinkPc.inflight s.pc)

def Called (s : BufferedState) : Prop :=
  Merge Record.producer s.history.calls (s.history.returned.map Prod.fst) [] (fun _ => [])
    (byThread SinkPc.active s.pc)

theorem Placed.output (h : s.Placed) (i : Nat) (shard : Shard) : (s.outputShard i shard).Placed := by
  unfold Placed
  cases hfailed : s.output.failed with
  | true =>
    simp only [outputShard, SinkHistory.drain, hfailed, if_true]
    exact h.lose shard.producer
  | false =>
    simp only [outputShard, SinkHistory.drain, hfailed, Bool.false_eq_true, if_false]
    exact h.drain shard.producer

theorem Placed.frame (h : s.Placed) {before after : SinkPc} (hpc : s.pc t = before)
    (hinflight : after.inflight = before.inflight)
    : (s.setPc t after).Placed := by
  have hframe := byThread_frame (f := SinkPc.inflight) hpc hinflight
  unfold Placed
  rw [setPc, hframe]
  exact h

theorem Placed.append (h : s.Placed) (hown : s.Own) {record : Record} {i : Nat} (shard : Shard) {after : SinkPc}
    (hpc : s.pc t = .append record i) (hafter : after.inflight = [])
    : ((s.appendRecord record i shard).setPc t after).Placed := by
  have hrecord : record.producer = some t := hown t record (by rw [hpc]; exact List.mem_cons_self)
  have hinflight : byThread SinkPc.inflight s.pc (some t) = [record] := by
    rw [byThread, hpc]
    rfl
  have hself : byThread SinkPc.inflight (Function.update s.pc t after) (some t) = [] := by
    rw [byThread_self, hafter]
  apply Merge.push (k := some t) h hinflight _ hself byThread_of_ne
  simp only [appendRecord, setPc, hrecord]

theorem Placed.step (h : s.Placed) (hown : s.Own) (hstep : Step n s event s') : s'.Placed := by
  cases hstep with
  | switch | fail | clear => exact h
  | @write t entry hpc =>
    have hidle : byThread SinkPc.inflight s.pc (some t) = [] := by
      rw [byThread, hpc]
      rfl
    exact Merge.start (k := some t) h rfl hidle byThread_self byThread_of_ne
  | move hpc hmove => exact h.frame hpc hmove.inflight_eq
  | @flush t hpc | register hpc | wrote hpc | take hpc => exact h.frame hpc rfl
  | @append t record i shard hpc | @full t record i shard hpc => exact h.append hown shard hpc rfl
  | @spill t record i shard hpc => exact (h.output i shard).frame hpc rfl
  | @output t i rest success shard hpc => exact (h.output i shard).frame hpc rfl

theorem Called.frame (h : s.Called) {before after : SinkPc} (hpc : s.pc t = before)
    (hactive : after.active = before.active)
    : (s.setPc t after).Called := by
  have hframe := byThread_frame (f := SinkPc.active) hpc hactive
  unfold Called
  rw [setPc, hframe]
  exact h

theorem Called.step (h : s.Called) (hstep : Step n s event s') : s'.Called := by
  cases hstep with
  | switch | fail | clear => exact h
  | @write t entry hpc =>
    have hidle : byThread SinkPc.active s.pc (some t) = [] := by
      rw [byThread, hpc]
      rfl
    exact Merge.start (k := some t) h rfl hidle byThread_self byThread_of_ne
  | @wrote t record result hpc =>
    have hactive : byThread SinkPc.active s.pc (some t) = [record] := by
      rw [byThread, hpc]
      rfl
    have hself : byThread SinkPc.active (Function.update s.pc t .idle) (some t) = [] := byThread_self
    have hpass := Merge.pass (k := some t) h hactive hself byThread_of_ne
    unfold Called
    simp only [returnWrite, setPc, List.map_append, List.map_cons, List.map_nil]
    exact hpass
  | move hpc hmove => exact h.frame hpc hmove.active_eq
  | flush hpc | register hpc | append hpc | full hpc | spill hpc | take hpc | output hpc =>
    exact h.frame hpc rfl

def Numbered (s : BufferedState) : Prop :=
  s.history.calls.map Record.id = List.range s.history.calls.length

theorem Numbered.step (h : s.Numbered) (hstep : Step n s event s') : s'.Numbered := by
  cases hstep with
  | write hpc =>
    simp only [Numbered, startWrite, setPc, List.map_append, List.map_cons, List.map_nil, List.length_append,
      List.length_singleton, List.range_succ]
    rw [h]
  | _ => exact h

theorem Numbered.nodup (h : s.Numbered) : s.history.calls.Nodup := by
  apply List.Nodup.of_map Record.id
  rw [h]
  exact List.nodup_range

end Vosp.BufferedState
