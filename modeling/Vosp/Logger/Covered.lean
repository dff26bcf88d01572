import Vosp.Logger.Records

/-!
This module contains how far a flush of the buffered sink has come: what had returned when it was called
is in the stream, lost, or in a shard that the flush has yet to output. A shard whose mutex is free is
below the threshold.
-/

namespace Vosp.BufferedState

variable {n : Nat} {s s' : BufferedState} {event : SinkEvent} {t : Nat} {record : Record} {rest : List Nat}

def Bounded (n : Nat) (s : BufferedState) : Prop :=
  ∀ (i : Nat) (shard : Shard), s.mutex i = none → s.shards[i]? = some shard → shard.buffer.length < n

theorem Bounded.set (h : s.Bounded n) {i : Nat} {shard : Shard} {mutex : Nat → Option Nat}
    (hmutex : ∀ j, j ≠ i → mutex j = s.mutex j) (hi : mutex i = none → shard.buffer.length < n) (j : Nat)
    (other : Shard) (hj : mutex j = none) (hother : (s.shards.set i shard)[j]? = some other)
    : other.buffer.length < n := by
  by_cases hij : i = j
  . subst hij
    have hlt := (List.getElem?_eq_some_iff.mp hother).1
    rw [List.length_set] at hlt
    rw [List.getElem?_set_self hlt, Option.some.injEq] at hother
    rw [← hother]
    exact hi hj
  . rw [List.getElem?_set_ne hij] at hother
    rw [hmutex j (Ne.symm hij)] at hj
    exact h j other hj hother

theorem Bounded.step (h : s.Bounded n) (hn : 0 < n) (hstep : Step n s event s') : s'.Bounded n := by
  cases hstep with
  | @register t record j shards hpc hregister =>
    intro i shard hi hshard
    rcases registerShard_cases hregister with ⟨rfl, -⟩ | ⟨-, -, rfl⟩
    . exact h i shard hi hshard
    . simp only [setPc, setCache] at hi hshard
      by_cases hlt : i < s.shards.length
      . rw [List.getElem?_append_left hlt] at hshard
        exact h i shard hi hshard
      . rw [List.getElem?_append_right (Nat.le_of_not_lt hlt)] at hshard
        have hmem := List.mem_of_getElem? hshard
        rw [List.mem_singleton] at hmem
        rw [hmem]
        exact hn
  | append hpc hfree hshard hlt => exact h.set (fun _ _ => rfl) (fun _ => hlt)
  | @full t record i shard hpc hfree hshard =>
    apply h.set
    . exact fun j hj => Function.update_of_ne hj _ _
    . intro hnone
      simp [setPc, setMutex] at hnone
  | spill hpc hshard | output hpc hshard =>
    exact h.set (fun j hj => Function.update_of_ne hj _ _) (fun _ => hn)
  | @take t i rest success shard hpc hfree hshard =>
    intro j other hj hother
    by_cases hij : j = i
    . subst hij
      exact h j other hfree hother
    . simp only [setPc, setMutex, Function.update_of_ne hij] at hj
      exact h j other hj hother
  | _ => exact h

def Spilled (s : BufferedState) : Prop :=
  ∀ t record i, s.pc t = .spill record i → ∃ front, s.history.pending (some t) = front ++ [record]

theorem Spilled.frame (h : s.Spilled) {after : SinkPc} (hafter : ∀ record i, after ≠ .spill record i)
    {pending : ThreadId → List Record}
    (hpending : ∀ u record i, u ≠ t → s.pc u = .spill record i → pending (some u) = s.history.pending (some u))
    (u : Nat) (record : Record) (i : Nat) (hu : Function.update s.pc t after u = .spill record i)
    : ∃ front, pending (some u) = front ++ [record] := by
  by_cases hut : u = t
  . subst hut
    rw [Function.update_self] at hu
    exact absurd hu (hafter record i)
  . rw [Function.update_of_ne hut] at hu
    rw [hpending u record i hut hu]
    exact h u record i hu

theorem producer_ne_of_spill (hr : s.Registered) (ho : s.Owned) {u j : Nat} {other : Record} {shard : Shard}
    (hut : u ≠ t) (hu : s.pc u = .spill other j) {i : Nat} (hshard : s.shards[i]? = some shard)
    (hholds : (s.pc t).holds i = true)
    : some u ≠ shard.producer := by
  intro hproducer
  obtain ⟨shard', hshard', hproducer'⟩ := hr.target u j (by rw [hu]; rfl)
  have hij := hr.eq_of_producer hshard hshard' (hproducer.symm.trans hproducer'.symm)
  subst hij
  have hholds' : (s.pc u).holds i = true := by
    rw [hu]
    exact decide_eq_true rfl
  exact hut (Mutex.Owned.unique ho hholds' hholds)

theorem pending_outputShard {i : Nat} {shard : Shard} {producer : ThreadId} (hne : producer ≠ shard.producer)
    : (s.outputShard i shard).history.pending producer = s.history.pending producer :=
  Function.update_of_ne hne _ _

theorem Spilled.step (h : s.Spilled) (hown : s.Own) (hr : s.Registered) (ho : s.Owned)
    (hstep : Step n s event s')
    : s'.Spilled := by
  cases hstep with
  | switch | fail | clear => exact h
  | @append t record i shard hpc hfree hshard hlt =>
    apply h.frame
    . exact fun _ _ heq => SinkPc.noConfusion heq
    . intro u other j hut hu
      have hrecord : record.producer = some t := hown t record (by rw [hpc]; exact List.mem_cons_self)
      apply Function.update_of_ne
      rw [hrecord]
      exact fun heq => hut (Option.some.inj heq)
  | @full t record i shard hpc hfree hshard =>
    have hrecord : record.producer = some t := hown t record (by rw [hpc]; exact List.mem_cons_self)
    intro u other j hu
    by_cases hut : u = t
    . subst hut
      simp only [setPc, Function.update_self, SinkPc.spill.injEq] at hu
      obtain ⟨rfl, rfl⟩ := hu
      refine ⟨s.history.pending (some u), ?_⟩
      simp only [setPc, setMutex, appendRecord, hrecord, Function.update_self]
    . simp only [setPc, Function.update_of_ne hut] at hu
      have hne : some u ≠ record.producer := by
        rw [hrecord]
        exact fun heq => hut (Option.some.inj heq)
      simp only [setPc, setMutex, appendRecord, Function.update_of_ne hne]
      exact h u other j hu
  | @spill t record i shard hpc hshard =>
    apply h.frame
    . exact fun _ _ heq => SinkPc.noConfusion heq
    . intro u other j hut hu
      have hholds : (s.pc t).holds i = true := by
        rw [hpc]
        exact decide_eq_true rfl
      exact pending_outputShard (i := i) (producer_ne_of_spill hr ho hut hu hshard hholds)
  | @output t i rest success shard hpc hshard =>
    apply h.frame
    . exact fun _ _ heq => SinkPc.noConfusion heq
    . intro u other j hut hu
      have hholds : (s.pc t).holds i = true := by
        rw [hpc]
        exact decide_eq_true rfl
      exact pending_outputShard (i := i) (producer_ne_of_spill hr ho hut hu hshard hholds)
  | move hpc hmove =>
    apply h.frame
    . cases hmove <;> exact fun _ _ heq => SinkPc.noConfusion heq
    . exact fun _ _ _ _ _ => rfl
  | _ =>
    apply h.frame
    . exact fun _ _ heq => SinkPc.noConfusion heq
    . exact fun _ _ _ _ _ => rfl

def Located (s : BufferedState) (rest : List Nat) (record : Record) : Prop :=
  record ∈ s.history.log ∨ record ∈ s.history.lost ∨
    ∃ i ∈ rest, s.Belongs i record.producer ∧ record ∈ s.history.pending record.producer

theorem log_subset_output (s : BufferedState) (i : Nat) (shard : Shard)
    : s.history.log ⊆ (s.outputShard i shard).history.log := by
  simp only [outputShard, SinkHistory.drain]
  split
  . exact List.Subset.refl _
  . exact List.subset_append_left _ _

theorem lost_subset_output (s : BufferedState) (i : Nat) (shard : Shard)
    : s.history.lost ⊆ (s.outputShard i shard).history.lost := by
  simp only [outputShard, SinkHistory.drain]
  split
  . exact List.subset_append_left _ _
  . exact List.Subset.refl _

theorem mem_output (s : BufferedState) (i : Nat) {shard : Shard} (h : record ∈ s.history.pending shard.producer)
    : record ∈ (s.outputShard i shard).history.log ∨ record ∈ (s.outputShard i shard).history.lost := by
  simp only [outputShard, SinkHistory.drain]
  split
  . exact .inr (List.mem_append_right _ h)
  . exact .inl (List.mem_append_right _ h)

theorem Located.output (h : s.Located rest record) {i : Nat} {shard : Shard} (hshard : s.shards[i]? = some shard)
    : (s.outputShard i shard).Located (rest.filter (· ≠ i)) record := by
  rcases h with hlog | hlost | ⟨j, hj, hbelongs, hpending⟩
  . exact .inl (log_subset_output s i shard hlog)
  . exact .inr (.inl (lost_subset_output s i shard hlost))
  by_cases hproducer : record.producer = shard.producer
  . rw [hproducer] at hpending
    rcases mem_output s i hpending with hlog | hlost
    . exact .inl hlog
    . exact .inr (.inl hlost)
  . obtain ⟨other, hother, hsame⟩ := hbelongs
    have hij : i ≠ j := by
      rintro rfl
      rw [hshard, Option.some.injEq] at hother
      subst hother
      exact hproducer hsame.symm
    refine .inr (.inr ⟨j, ?_, ⟨other, ?_, hsame⟩, ?_⟩)
    . exact List.mem_filter.mpr ⟨hj, decide_eq_true hij.symm⟩
    . exact (List.getElem?_set_ne hij).trans hother
    . rwa [pending_outputShard hproducer]

theorem Located.mono (h : s.Located rest record) {rest' : List Nat} (hsub : rest ⊆ rest') : s.Located rest' record := by
  rcases h with hlog | hlost | ⟨i, hi, hrest⟩
  . exact .inl hlog
  . exact .inr (.inl hlost)
  . exact .inr (.inr ⟨i, hsub hi, hrest⟩)

theorem Located.append (h : s.Located rest record) (other : Record) {i : Nat} {shard : Shard}
    (hshard : s.shards[i]? = some shard)
    : (s.appendRecord other i shard).Located rest record := by
  rcases h with hlog | hlost | ⟨j, hj, ⟨shard', hshard', hproducer⟩, hpending⟩
  . exact .inl hlog
  . exact .inr (.inl hlost)
  refine .inr (.inr ⟨j, hj, ?_, ?_⟩)
  . have hreshard : Reshard s.shards (s.shards.set i (shard.append other.entry)) :=
      .set hshard (shard.producer_append other.entry)
    obtain ⟨shard'', hshard'', hsame⟩ := hreshard.getElem? hshard'
    exact ⟨shard'', hshard'', hsame.trans hproducer⟩
  . simp only [appendRecord]
    by_cases hsame : record.producer = other.producer
    . rw [hsame, Function.update_self, ← hsame]
      exact List.mem_append_left _ hpending
    . rwa [Function.update_of_ne hsame]

theorem Located.step (h : s.Located rest record) (hstep : Step n s event s') : s'.Located rest record := by
  cases hstep with
  | @append t other i shard hpc hfree hshard => exact h.append other hshard
  | @full t other i shard hpc hfree hshard => exact h.append other hshard
  | spill hpc hshard | output hpc hshard => exact (h.output hshard).mono (fun _ hmem => (List.mem_filter.mp hmem).1)
  | @register t other j shards hpc hregister =>
    have hstep := Step.register hpc hregister
    rcases h with hlog | hlost | ⟨i, hi, hbelongs, hpending⟩
    . exact .inl hlog
    . exact .inr (.inl hlost)
    . exact .inr (.inr ⟨i, hi, hstep.belongs hbelongs, hpending⟩)
  | _ => exact h

structure Covered (s : BufferedState) : Prop where
  before : ∀ t, s.history.before t ⊆ s.history.returned
  located : ∀ t rest, (s.pc t).rest = some rest → ∀ record result, (record, result) ∈ s.history.before t →
    s.Located rest record

theorem inflight_subset_active (pc : SinkPc) : pc.inflight ⊆ pc.active := by
  cases pc
  case lookup | register | append => exact List.Subset.refl _
  all_goals exact List.nil_subset _

theorem located_of_returned (hr : s.Rendered) (hc : s.Called) (hp : s.Placed) (hnodup : s.history.calls.Nodup)
    {result : Bool} (h : (record, result) ∈ s.history.returned)
    : s.Located (List.range s.shards.length) record := by
  have hmem : record ∈ s.history.returned.map Prod.fst := List.mem_map_of_mem h
  have htotal := hc.total record
  have hle := List.nodup_iff_count_le_one.mp hnodup record
  have hpos := List.count_pos_iff.mpr hmem
  have hcall : record ∈ s.history.calls := List.count_pos_iff.mp (by omega)
  have hactive : record ∉ byThread SinkPc.active s.pc record.producer := List.count_eq_zero.mp (by omega)
  rcases Merge.mem_cases hp hcall with hlog | hpending | hinflight | hlost
  . exact .inl hlog
  . have hne : ¬∀ shard ∈ s.shards, shard.producer ≠ record.producer := by
      intro hall
      rw [hr.unregistered _ hall] at hpending
      cases hpending
    simp only [not_forall, not_not] at hne
    obtain ⟨shard, hshard, hproducer⟩ := hne
    obtain ⟨i, hi, hget⟩ := List.getElem_of_mem hshard
    refine .inr (.inr ⟨i, List.mem_range.mpr hi, ⟨shard, ?_, hproducer⟩, hpending⟩)
    rw [List.getElem?_eq_getElem hi, hget]
  . apply absurd _ hactive
    revert hinflight
    cases record.producer with
    | none => exact id
    | some t => exact fun hmem => inflight_subset_active (s.pc t) hmem
  . exact .inr (.inl hlost)

theorem Located.of_empty (h : s.Located (i :: rest) record) (hr : s.Rendered) {shard : Shard}
    (hshard : s.shards[i]? = some shard) (hempty : shard.buffer = [])
    : s.Located rest record := by
  rcases h with hlog | hlost | ⟨j, hj, ⟨other, hother, hproducer⟩, hpending⟩
  . exact .inl hlog
  . exact .inr (.inl hlost)
  rcases List.mem_cons.mp hj with rfl | hrest
  . rw [hshard, Option.some.injEq] at hother
    subst hother
    have hnil := eq_nil_of_render ((hr.buffers j shard hshard).symm.trans hempty)
    rw [← hproducer, hnil] at hpending
    cases hpending
  . exact .inr (.inr ⟨j, hrest, ⟨other, hother, hproducer⟩, hpending⟩)

theorem rest_update {after : SinkPc} {u : Nat} (hu : (Function.update s.pc t after u).rest = some rest)
    (hafter : after.rest = none ∨ after.rest = (s.pc t).rest)
    : (s.pc u).rest = some rest := by
  by_cases hut : u = t
  . subst hut
    rw [Function.update_self] at hu
    rcases hafter with hnone | hsame
    . rw [hnone] at hu
      cases hu
    . rwa [hsame] at hu
  . rwa [Function.update_of_ne hut] at hu

theorem Covered.move (h : s.Covered) (hr : s.Rendered) (hc : s.Called) (hp : s.Placed)
    (hnodup : s.history.calls.Nodup) {before after : SinkPc} (hpc : s.pc t = before)
    (hmove : Move s t before after) (hrest : after.rest = some rest) {result : Bool}
    (hmem : (record, result) ∈ s.history.before t)
    : s.Located rest record := by
  cases hmove with
  | cached | uncached | flushed => cases hrest
  | snapshot =>
    cases hrest
    exact located_of_returned hr hc hp hnodup (h.before t hmem)
  | finish =>
    cases hrest
    exact h.located t _ (by rw [hpc]; rfl) record result hmem
  | skip hfree hshard hempty =>
    cases hrest
    exact (h.located t _ (by rw [hpc]; rfl) record result hmem).of_empty hr hshard hempty

theorem Covered.step (h : s.Covered) (hr : s.Rendered) (hc : s.Called) (hp : s.Placed)
    (hnodup : s.history.calls.Nodup) (hstep : Step n s event s')
    : s'.Covered where
  before := by
    intro u
    cases hstep with
    | @flush t hpc =>
      by_cases hut : u = t
      . subst hut
        simp only [startFlush, setPc, Function.update_self]
        exact List.Subset.refl _
      . simp only [startFlush, setPc, Function.update_of_ne hut]
        exact h.before u
    | wrote hpc => exact fun _ hmem => List.mem_append_left _ (h.before u hmem)
    | _ => exact h.before u
  located := by
    intro u rest hu record result hmem
    have hsame : (s.pc u).rest = some rest → (record, result) ∈ s.history.before u → s'.Located rest record :=
      fun hrest hbefore => (h.located u rest hrest record result hbefore).step hstep
    cases hstep with
    | switch | fail | clear => exact hsame hu hmem
    | @flush t hpc =>
      by_cases hut : u = t
      . subst hut
        simp only [startFlush, setPc, Function.update_self] at hu
        cases hu
      . simp only [startFlush, setPc, Function.update_of_ne hut] at hu hmem
        exact hsame hu hmem
    | @move t before after hpc hmove =>
      by_cases hut : u = t
      . subst hut
        simp only [setPc, Function.update_self] at hu
        exact h.move hr hc hp hnodup hpc hmove hu hmem
      . simp only [setPc, Function.update_of_ne hut] at hu
        exact hsame hu hmem
    | take hpc => exact hsame (rest_update hu (.inr (congrArg SinkPc.rest hpc).symm)) hmem
    | @output t i shards success shard hpc hshard =>
      by_cases hut : u = t
      . subst hut
        simp only [setPc, Function.update_self] at hu
        cases hu
        have hlocated := h.located u (i :: rest) (by rw [hpc]; rfl) record result hmem
        apply (hlocated.output hshard).mono
        intro j hj
        obtain ⟨hj, hji⟩ := List.mem_filter.mp hj
        exact List.mem_of_ne_of_mem (of_decide_eq_true hji) hj
      . simp only [setPc, Function.update_of_ne hut] at hu
        exact hsame hu hmem
    | _ => exact hsame (rest_update hu (.inl rfl)) hmem

end Vosp.BufferedState
