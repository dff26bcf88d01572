import Vosp.Logger.BufferedStep

/-!
This module contains what holds of the shards in every reachable state of the buffered sink: a shard
mutex has one owner, a producer has at most one shard, and a thread only appends to its own.
-/

namespace Vosp.BufferedState

variable {n : Nat} {s s' : BufferedState} {event : SinkEvent} {t : Nat}

theorem proj_update {β : Type} {f : SinkPc → β} {g : Nat → SinkPc} {before after : SinkPc}
    (hpc : g t = before) (h : f after = f before) (u : Nat)
    : f (Function.update g t after u) = f (g u) := by
  by_cases hu : u = t
  . subst hu
    rw [Function.update_self, h, hpc]
  . rw [Function.update_of_ne hu]

theorem Move.holds_eq {before after : SinkPc} (h : Move s t before after) : after.holds = before.holds := by
  cases h <;> rfl

theorem Move.inflight_eq {before after : SinkPc} (h : Move s t before after)
    : after.inflight = before.inflight := by
  cases h <;> rfl

theorem Move.active_eq {before after : SinkPc} (h : Move s t before after) : after.active = before.active := by
  cases h <;> rfl

def Owned (s : BufferedState) : Prop := Mutex.Owned (fun t => (s.pc t).holds) s.mutex

theorem Owned.step (h : s.Owned) (hstep : Step n s event s') : s'.Owned := by
  cases hstep with
  | write hpc | flush hpc | register hpc | append hpc | wrote hpc =>
    apply Mutex.Owned.frame h
    exact proj_update hpc rfl
  | switch | fail | clear => exact h
  | move hpc hmove =>
    apply Mutex.Owned.frame h
    exact proj_update hpc hmove.holds_eq
  | @full t record i shard hpc hfree hshard =>
    apply Mutex.Owned.lock (t := t) h hfree
    . intro b
      simp [setPc, SinkPc.holds, hpc, eq_comm]
    . intro u hu
      exact congrArg SinkPc.holds (Function.update_of_ne hu _ _)
  | @take t i rest success shard hpc hfree hshard =>
    apply Mutex.Owned.lock (t := t) h hfree
    . intro b
      simp [setPc, setMutex, SinkPc.holds, hpc, eq_comm]
    . intro u hu
      exact congrArg SinkPc.holds (Function.update_of_ne hu _ _)
  | @spill t record i shard hpc hshard =>
    apply Mutex.Owned.unlock (t := t) h
    . simp [hpc, SinkPc.holds]
    . intro b
      simp [setPc, SinkPc.holds, hpc, eq_comm]
    . intro u hu
      exact congrArg SinkPc.holds (Function.update_of_ne hu _ _)
  | @output t i rest success shard hpc hshard =>
    apply Mutex.Owned.unlock (t := t) h
    . simp [hpc, SinkPc.holds]
    . intro b
      simp [setPc, SinkPc.holds, hpc, eq_comm]
    . intro u hu
      exact congrArg SinkPc.holds (Function.update_of_ne hu _ _)

def Belongs (s : BufferedState) (i : Nat) (producer : ThreadId) : Prop :=
  ∃ shard, s.shards[i]? = some shard ∧ shard.producer = producer

theorem registerShard_cases {capacity i : Nat} {shards shards' : List Shard} {producer : ThreadId}
    (h : registerShard capacity shards producer = .ok (i, shards'))
    : shards' = shards ∧ (∃ shard, shards[i]? = some shard ∧ shard.producer = producer) ∨
        (∀ shard ∈ shards, shard.producer ≠ producer) ∧ i = shards.length ∧
          shards' = shards ++ [{ producer := producer }] := by
  unfold registerShard at h
  cases hfind : shards.findIdx? (·.producer = producer) with
  | none =>
    simp only [hfind, Shard.create] at h
    split at h
    . cases h
      refine .inr ⟨?_, rfl, rfl⟩
      simpa using hfind
    . cases h
  | some j =>
    rw [hfind] at h
    cases h
    obtain ⟨hlt, hproducer, -⟩ := List.findIdx?_eq_some_iff_getElem.mp hfind
    exact .inl ⟨rfl, shards[i], List.getElem?_eq_getElem hlt, of_decide_eq_true hproducer⟩

theorem producers_set {shards : List Shard} {i : Nat} {shard shard' : Shard}
    (hshard : shards[i]? = some shard) (hproducer : shard'.producer = shard.producer)
    : (shards.set i shard').map Shard.producer = shards.map Shard.producer := by
  obtain ⟨hlt, rfl⟩ := List.getElem?_eq_some_iff.mp hshard
  have hlt' : i < (shards.map Shard.producer).length := by simpa using hlt
  rw [List.map_set, hproducer]
  conv_rhs => rw [← List.set_getElem_self hlt', List.getElem_map]

inductive Reshard (shards : List Shard) : List Shard → Prop where
  | same : Reshard shards shards
  | set (hshard : shards[i]? = some shard) (hproducer : shard'.producer = shard.producer)
    : Reshard shards (shards.set i shard')
  | new (hnew : ∀ shard ∈ shards, shard.producer ≠ producer)
    : Reshard shards (shards ++ [{ producer := producer }])

theorem Reshard.nodup {shards shards' : List Shard} (h : Reshard shards shards')
    (hnodup : (shards.map Shard.producer).Nodup)
    : (shards'.map Shard.producer).Nodup := by
  cases h with
  | same => exact hnodup
  | set hshard hproducer => rwa [producers_set hshard hproducer]
  | new hnew =>
    rw [List.map_append, List.nodup_append]
    refine ⟨hnodup, by simp, ?_⟩
    intro p hp p' hp'
    obtain ⟨shard, hshard, rfl⟩ := List.mem_map.mp hp
    rw [List.map_singleton, List.mem_singleton] at hp'
    rw [hp']
    exact hnew shard hshard

theorem Reshard.getElem? {shards shards' : List Shard} (h : Reshard shards shards') {i : Nat} {shard : Shard}
    (hshard : shards[i]? = some shard)
    : ∃ shard', shards'[i]? = some shard' ∧ shard'.producer = shard.producer := by
  cases h with
  | same => exact ⟨shard, hshard, rfl⟩
  | @set j old new hold hproducer =>
    by_cases hij : j = i
    . subst hij
      rw [hold] at hshard
      cases hshard
      have hlt := (List.getElem?_eq_some_iff.mp hold).1
      exact ⟨new, by rw [List.getElem?_set_self hlt], hproducer⟩
    . exact ⟨shard, by rw [List.getElem?_set_ne hij, hshard], rfl⟩
  | new hnew =>
    have hlt := (List.getElem?_eq_some_iff.mp hshard).1
    exact ⟨shard, by rw [List.getElem?_append_left hlt, hshard], rfl⟩

theorem Step.reshard (hstep : Step n s event s') : Reshard s.shards s'.shards := by
  cases hstep with
  | register hpc hregister =>
    rcases registerShard_cases hregister with ⟨rfl, -⟩ | ⟨hnew, -, rfl⟩
    . exact .same
    . exact .new hnew
  | append hpc hfree hshard | full hpc hfree hshard => exact .set hshard rfl
  | spill hpc hshard | output hpc hshard => exact .set hshard rfl
  | _ => exact .same

theorem Step.belongs (hstep : Step n s event s') {i : Nat} {producer : ThreadId} (h : s.Belongs i producer)
    : s'.Belongs i producer := by
  obtain ⟨shard, hshard, rfl⟩ := h
  exact hstep.reshard.getElem? hshard

structure Registered (s : BufferedState) : Prop where
  producers : (s.shards.map Shard.producer).Nodup
  cache : ∀ t i, s.cache t = some i → s.Belongs i (some t)
  target : ∀ t i, (s.pc t).target = some i → s.Belongs i (some t)

theorem Registered.init : BufferedState.init.Registered where
  producers := List.nodup_nil
  cache := nofun
  target := nofun

theorem belongs_register {capacity i : Nat} {shards shards' : List Shard} {producer : ThreadId}
    (h : registerShard capacity shards producer = .ok (i, shards'))
    : ∃ shard, shards'[i]? = some shard ∧ shard.producer = producer := by
  rcases registerShard_cases h with ⟨rfl, hshard⟩ | ⟨-, rfl, rfl⟩
  . exact hshard
  . exact ⟨{ producer := producer }, List.getElem?_concat_length, rfl⟩

theorem target_update {g : Nat → SinkPc} {after : SinkPc} {u i : Nat}
    (hu : (Function.update g t after u).target = some i) (hafter : after.target = none ∨ after.target = (g t).target)
    : (g u).target = some i := by
  by_cases hut : u = t
  . subst hut
    rw [Function.update_self] at hu
    rcases hafter with hnone | hsame
    . rw [hnone] at hu
      cases hu
    . rwa [hsame] at hu
  . rwa [Function.update_of_ne hut] at hu

theorem Registered.step (h : s.Registered) (hstep : Step n s event s') : s'.Registered where
  producers := hstep.reshard.nodup h.producers
  cache := by
    intro u i hu
    have hmono : s.cache u = some i → s'.Belongs i (some u) := fun hcache => hstep.belongs (h.cache u i hcache)
    cases hstep with
    | @switch t hpc =>
      by_cases hut : u = t
      . subst hut
        simp [setCache] at hu
      . simp only [setCache, Function.update_of_ne hut] at hu
        exact hmono hu
    | @register t record i shards hpc hregister =>
      by_cases hut : u = t
      . subst hut
        simp only [setPc, setCache, Function.update_self, Option.some.injEq] at hu
        subst hu
        exact belongs_register hregister
      . simp only [setPc, setCache, Function.update_of_ne hut] at hu
        exact hmono hu
    | _ => exact hmono hu
  target := by
    intro u i hu
    have hmono : (s.pc u).target = some i → s'.Belongs i (some u) :=
      fun htarget => hstep.belongs (h.target u i htarget)
    cases hstep with
    | switch | fail | clear => exact hmono hu
    | @register t record i shards hpc hregister =>
      by_cases hut : u = t
      . subst hut
        simp only [setPc, Function.update_self, SinkPc.target, Option.some.injEq] at hu
        subst hu
        exact belongs_register hregister
      . simp only [setPc, Function.update_of_ne hut] at hu
        exact hmono hu
    | @move t before after hpc hmove =>
      cases hmove with
      | @cached j record hcache =>
        by_cases hut : u = t
        . subst hut
          simp only [setPc, Function.update_self, SinkPc.target, Option.some.injEq] at hu
          subst hu
          exact h.cache u j hcache
        . simp only [setPc, Function.update_of_ne hut] at hu
          exact hmono hu
      | _ => exact hmono (target_update hu (.inl rfl))
    | full hpc => exact hmono (target_update hu (.inr (congrArg SinkPc.target hpc).symm))
    | _ => exact hmono (target_update hu (.inl rfl))

end Vosp.BufferedState
