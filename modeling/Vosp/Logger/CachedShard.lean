import Vosp.Logger.ShardCache

/-!
This module proves that the cached shard is always right: an instance id is never drawn twice, so a cache
whose id is that of a living sink was filled by a call on this very sink.
-/

namespace Vosp.ShardCache

inductive State.Step (s : State) : Event → State → Prop where
  | constructFail (address : SinkAddress)
    : Step s (.construct address 0) { s with nextInstanceId := (s.nextInstanceId + 1) % 2 ^ 64 }
  | construct {address : SinkAddress} (flushThreshold : Nat) (hfree : s.sinks address = none)
    : Step s (.construct address flushThreshold)
        ({ s with nextInstanceId := (s.nextInstanceId + 1) % 2 ^ 64 }.setSink address
          (some ⟨s.nextInstanceId, none, []⟩))
  | destroy {address : SinkAddress} {sink : Sink} (hsink : s.sinks address = some sink)
      (hunused : ∀ thread ∈ s.running, (s.threads thread).pc.sink ≠ some address)
      (allocated : ShardAddress → Bool)
      (hallocated : ∀ shard, s.allocated shard = true → (∀ freed ∈ sink.shards, freed.address ≠ shard) →
        allocated shard = true)
    : Step s (.destroy address) ({ s with allocated := allocated }.setSink address none)
  | start {thread : ThreadId} (hnew : thread ∉ s.running)
    : Step s (.start thread) ({ s with running := thread :: s.running }.setThread thread {})
  | exit {thread : ThreadId} (hidle : (s.threads thread).pc = .idle)
    : Step s (.exit thread) { s with running := s.running.erase thread }
  | call {thread : ThreadId} {address : SinkAddress} (hrunning : thread ∈ s.running)
      (hidle : (s.threads thread).pc = .idle) (hsink : ∃ sink, s.sinks address = some sink)
    : Step s (.call thread address) (s.setThread thread { s.threads thread with pc := .compare address })
  | hit {thread : ThreadId} {address : SinkAddress} {sink : Sink} (unused : ShardAddress)
      (hpc : (s.threads thread).pc = .compare address) (hsink : s.sinks address = some sink)
      (hcached : (s.threads thread).cachedInstanceId = sink.instanceId)
    : Step s (.step thread unused)
        (s.setThread thread { s.threads thread with pc := .returned address (s.threads thread).cachedShard })
  | miss {thread : ThreadId} {address : SinkAddress} (unused : ShardAddress)
      (hpc : (s.threads thread).pc = .compare address)
    : Step s (.step thread unused) (s.setThread thread { s.threads thread with pc := .registryLock address })
  | lock {thread : ThreadId} {address : SinkAddress} {sink : Sink} (unused : ShardAddress)
      (hpc : (s.threads thread).pc = .registryLock address) (hsink : s.sinks address = some sink)
    : Step s (.step thread unused)
        ((s.setSink address (some { sink with registryOwner := some thread })).setThread thread
          { s.threads thread with pc := .find address })
  | found {thread : ThreadId} {address : SinkAddress} {sink : Sink} {shard : Shard} (unused : ShardAddress)
      (hpc : (s.threads thread).pc = .find address) (hsink : s.sinks address = some sink)
      (hshard : shard ∈ sink.shards) (hproducer : shard.producer = thread)
    : Step s (.step thread unused)
        (s.setThread thread
          { s.threads thread with cachedShard := some shard.address, pc := .registryUnlock address })
  | missing {thread : ThreadId} {address : SinkAddress} {sink : Sink} (unused : ShardAddress)
      (hpc : (s.threads thread).pc = .find address) (hsink : s.sinks address = some sink)
      (hnone : ∀ shard ∈ sink.shards, shard.producer ≠ thread)
    : Step s (.step thread unused) (s.setThread thread { s.threads thread with pc := .emplace address })
  | emplace {thread : ThreadId} {address : SinkAddress} {sink : Sink} {allocated : ShardAddress}
      (hpc : (s.threads thread).pc = .emplace address) (hsink : s.sinks address = some sink)
      (hfresh : s.allocated allocated = false)
    : Step s (.step thread allocated)
        (({ s with allocated := Function.update s.allocated allocated true }.setSink address
          (some { sink with shards := sink.shards ++ [Shard.mk allocated thread] })).setThread thread
            { s.threads thread with cachedShard := some allocated, pc := .registryUnlock address })
  | unwind {thread : ThreadId} {address : SinkAddress} {sink : Sink} (unused : ShardAddress)
      (hpc : (s.threads thread).pc = .unwind address) (hsink : s.sinks address = some sink)
    : Step s (.step thread unused)
        ((s.setSink address (some { sink with registryOwner := none })).setThread thread
          { s.threads thread with pc := .idle })
  | registryUnlock {thread : ThreadId} {address : SinkAddress} {sink : Sink} (unused : ShardAddress)
      (hpc : (s.threads thread).pc = .registryUnlock address) (hsink : s.sinks address = some sink)
    : Step s (.step thread unused)
        ((s.setSink address (some { sink with registryOwner := none })).setThread thread
          { s.threads thread with pc := .store address })
  | store {thread : ThreadId} {address : SinkAddress} {sink : Sink} (unused : ShardAddress)
      (hpc : (s.threads thread).pc = .store address) (hsink : s.sinks address = some sink)
    : Step s (.step thread unused)
        (s.setThread thread
          { s.threads thread with
            cachedInstanceId := sink.instanceId
            pc := .returned address (s.threads thread).cachedShard })
  | fail {thread : ThreadId} {address : SinkAddress} (hpc : (s.threads thread).pc = .emplace address)
    : Step s (.fail thread) (s.setThread thread { s.threads thread with pc := .unwind address })
  | done {thread : ThreadId} {address : SinkAddress} {shard : Option ShardAddress}
      (hpc : (s.threads thread).pc = .returned address shard)
    : Step s (.done thread) (s.setThread thread { s.threads thread with pc := .idle })

namespace State

variable {s s' : State} {event : Event} {thread : ThreadId} {address : SinkAddress}

theorem step_of_advance {unused : ShardAddress} (h : s.advance thread unused = some s')
    : s.Step (.step thread unused) s' := by
  simp only [advance, Option.bind_eq_bind, Option.bind_eq_some_iff] at h
  obtain ⟨address, haddress, sink, hsink, h⟩ := h
  cases hpc : (s.threads thread).pc with
  | idle => simp [hpc, Pc.sink] at haddress
  | returned => simp [hpc] at h
  | compare =>
    rw [hpc] at haddress h
    cases haddress
    simp only at h
    split at h
    . next hcached =>
      cases h
      exact .hit unused hpc hsink hcached
    . cases h
      exact .miss unused hpc
  | registryLock =>
    rw [hpc] at haddress h
    cases haddress
    simp only at h
    split at h
    . cases h
      exact .lock unused hpc hsink
    . cases h
  | find =>
    rw [hpc] at haddress h
    cases haddress
    simp only [find] at h
    split at h
    . next shard hfound =>
      cases h
      exact .found unused hpc hsink (List.mem_of_find?_eq_some hfound)
        (by simpa using List.find?_some hfound)
    . next hnone =>
      cases h
      exact .missing unused hpc hsink (by simpa using hnone)
  | emplace =>
    rw [hpc] at haddress h
    cases haddress
    simp only [emplace] at h
    split at h
    . cases h
    . next hfresh =>
      cases h
      exact .emplace hpc hsink (eq_false_of_ne_true hfresh)
  | unwind =>
    rw [hpc] at haddress h
    cases haddress
    cases h
    exact .unwind unused hpc hsink
  | registryUnlock =>
    rw [hpc] at haddress h
    cases haddress
    cases h
    exact .registryUnlock unused hpc hsink
  | store =>
    rw [hpc] at haddress h
    cases haddress
    cases h
    exact .store unused hpc hsink

theorem step_cases (h : s.step event = some s') : s.Step event s' := by
  cases event with
  | construct address flushThreshold =>
    simp only [step, construct] at h
    split at h
    . next hfree =>
      split at h
      . next hzero =>
        cases h
        subst hzero
        exact .constructFail address
      . cases h
        exact .construct flushThreshold (Option.isNone_iff_eq_none.mp hfree)
    . cases h
  | destroy address =>
    simp only [step, destroy] at h
    split at h
    . next sink hsink =>
      split at h
      . next hunused =>
        cases h
        apply Step.destroy hsink hunused
        intro shard hshard hfreed
        simpa [hshard] using hfreed
      . cases h
    . cases h
  | start thread =>
    simp only [step, start] at h
    split at h
    . cases h
    . next hnew =>
      cases h
      exact .start hnew
  | exit thread =>
    simp only [step, exit] at h
    split at h
    . next hidle =>
      cases h
      exact .exit hidle.2
    . cases h
  | call thread address =>
    simp only [step, call] at h
    split at h
    . next hcall =>
      cases h
      exact .call hcall.1 hcall.2.1 (Option.isSome_iff_exists.mp hcall.2.2)
    . cases h
  | step thread unused => exact step_of_advance h
  | fail thread =>
    simp only [step, fail] at h
    split at h
    . next hpc =>
      cases h
      exact .fail hpc
    . cases h
  | done thread =>
    simp only [step, done] at h
    split at h
    . next hpc =>
      cases h
      exact .done hpc
    . cases h

end State

def Sink.Has (sink : Sink) (thread : ThreadId) (pointer : Option ShardAddress) : Prop :=
  ∃ shard ∈ sink.shards, pointer = some shard.address ∧ shard.producer = thread

def Thread.Right (sinks : SinkAddress → Option Sink) (thread : ThreadId) (t : Thread) : Prop :=
  ∀ address sink, sinks address = some sink → t.cachedInstanceId = sink.instanceId → sink.Has thread t.cachedShard

def Pc.Caching (sinks : SinkAddress → Option Sink) (thread : ThreadId) (t : Thread) (pc : Pc) : Prop :=
  match pc with
  -- The two variables are about different sinks here.
  | .registryUnlock address | .store address =>
    ∀ sink, sinks address = some sink → sink.Has thread t.cachedShard
  | .emplace address =>
    t.Right sinks thread ∧ ∀ sink, sinks address = some sink → ∀ shard ∈ sink.shards, shard.producer ≠ thread
  | .returned address shard => t.Right sinks thread ∧ ∀ sink, sinks address = some sink → sink.Has thread shard
  | _ => t.Right sinks thread

def Thread.Caching (sinks : SinkAddress → Option Sink) (thread : ThreadId) (t : Thread) : Prop :=
  t.pc.Caching sinks thread t

def Evolves (s s' : State) (movers : List ThreadId) : Prop :=
  ∀ address sink', s'.sinks address = some sink' →
    (∃ sink rest, s.sinks address = some sink ∧ sink'.instanceId = sink.instanceId ∧
      sink'.shards = sink.shards ++ rest ∧ ∀ shard ∈ rest, shard.producer ∈ movers) ∨
    s.sinks address = none ∧ sink'.instanceId = s.nextInstanceId ∧ sink'.shards = []

def Keeps (s s' : State) : Prop :=
  ∀ address sink', s'.sinks address = some sink' →
    ∃ sink, s.sinks address = some sink ∧ sink'.instanceId = sink.instanceId ∧ sink'.shards = sink.shards

def KeepsIds (s s' : State) : Prop :=
  ∀ address sink', s'.sinks address = some sink' →
    ∃ sink, s.sinks address = some sink ∧ sink'.instanceId = sink.instanceId

structure Registered (s : State) : Prop where
  next_pos : 0 < s.nextInstanceId
  instanceId_pos : ∀ address sink, s.sinks address = some sink → 0 < sink.instanceId
  instanceId_lt : ∀ address sink, s.sinks address = some sink → sink.instanceId < s.nextInstanceId
  instanceId_inj : ∀ address address' sink sink', s.sinks address = some sink → s.sinks address' = some sink' →
    sink.instanceId = sink'.instanceId → address = address'
  nodup : ∀ address sink, s.sinks address = some sink → (sink.shards.map Shard.producer).Nodup
  allocated : ∀ address sink, s.sinks address = some sink → ∀ shard ∈ sink.shards, s.allocated shard.address = true
  address_inj : ∀ address address' sink sink', s.sinks address = some sink → s.sinks address' = some sink' →
    ∀ shard ∈ sink.shards, ∀ shard' ∈ sink'.shards, shard.address = shard'.address →
      address = address' ∧ shard = shard'

structure State.Fits (s : State) (thread : ThreadId) : Prop where
  cached_lt : (s.threads thread).cachedInstanceId < s.nextInstanceId
  living : ∀ address, (s.threads thread).pc.sink = some address →
    thread ∈ s.running ∧ ∃ sink, s.sinks address = some sink
  caching : (s.threads thread).Caching s.sinks thread

structure State.Valid (s : State) : Prop where
  registered : Registered s
  fits : ∀ thread, s.Fits thread

theorem Sink.Has.mono {sink sink' : Sink} {thread : ThreadId} {pointer : Option ShardAddress} {rest : List Shard}
    (h : sink.Has thread pointer) (hshards : sink'.shards = sink.shards ++ rest)
    : sink'.Has thread pointer := by
  obtain ⟨shard, hmem, hpointer, hproducer⟩ := h
  refine ⟨shard, ?_, hpointer, hproducer⟩
  rw [hshards]
  exact List.mem_append_left rest hmem

section

variable {s s' : State} {movers : List ThreadId} {thread : ThreadId} {address : SinkAddress} {t : Thread}

theorem Keeps.evolves (h : Keeps s s') (movers : List ThreadId) : Evolves s s' movers := by
  intro address sink' hsink'
  obtain ⟨sink, hsink, hinstance, hshards⟩ := h address sink' hsink'
  exact .inl ⟨sink, [], hsink, hinstance, by rw [hshards, List.append_nil], by simp⟩

theorem Keeps.of_eq (h : s'.sinks = s.sinks) : Keeps s s' := by
  intro address sink hsink
  rw [h] at hsink
  exact ⟨sink, hsink, rfl, rfl⟩

theorem Keeps.setOwner {sink : Sink} (hsink : s.sinks address = some sink) (owner : Option ThreadId)
    : Keeps s (s.setSink address (some { sink with registryOwner := owner })) := by
  intro other sink' hsink'
  simp only [State.setSink] at hsink'
  by_cases hother : other = address
  . subst hother
    rw [Function.update_self] at hsink'
    cases hsink'
    exact ⟨sink, hsink, rfl, rfl⟩
  . rw [Function.update_of_ne hother] at hsink'
    exact ⟨sink', hsink', rfl, rfl⟩

theorem Keeps.ids (h : Keeps s s') : KeepsIds s s' := by
  intro address sink' hsink'
  obtain ⟨sink, hsink, hinstance, -⟩ := h address sink' hsink'
  exact ⟨sink, hsink, hinstance⟩

namespace KeepsIds

theorem instanceId_pos (h : KeepsIds s s') (hs : Registered s) {sink' : Sink} (hsink' : s'.sinks address = some sink')
    : 0 < sink'.instanceId := by
  obtain ⟨sink, hsink, hinstance⟩ := h address sink' hsink'
  rw [hinstance]
  exact hs.instanceId_pos address sink hsink

theorem instanceId_lt (h : KeepsIds s s') (hs : Registered s) {sink' : Sink} (hsink' : s'.sinks address = some sink')
    : sink'.instanceId < s.nextInstanceId := by
  obtain ⟨sink, hsink, hinstance⟩ := h address sink' hsink'
  rw [hinstance]
  exact hs.instanceId_lt address sink hsink

theorem instanceId_inj (h : KeepsIds s s') (hs : Registered s) {address' : SinkAddress} {sink sink' : Sink}
    (hsink : s'.sinks address = some sink) (hsink' : s'.sinks address' = some sink')
    (heq : sink.instanceId = sink'.instanceId)
    : address = address' := by
  obtain ⟨old, hold, hinstance⟩ := h address sink hsink
  obtain ⟨old', hold', hinstance'⟩ := h address' sink' hsink'
  rw [hinstance, hinstance'] at heq
  exact hs.instanceId_inj address address' old old' hold hold' heq

end KeepsIds

theorem Registered.keep (h : Registered s) (hkeeps : Keeps s s') (hnext : s'.nextInstanceId = s.nextInstanceId)
    (hallocated : ∀ address sink, s'.sinks address = some sink → ∀ shard ∈ sink.shards,
      s.allocated shard.address = true → s'.allocated shard.address = true)
    : Registered s' := by
  constructor
  case next_pos =>
    rw [hnext]
    exact h.next_pos
  case instanceId_pos => exact fun _ _ hsink => hkeeps.ids.instanceId_pos h hsink
  case instanceId_lt =>
    intro address sink hsink
    rw [hnext]
    exact hkeeps.ids.instanceId_lt h hsink
  case instanceId_inj => exact fun _ _ _ _ hsink hsink' => hkeeps.ids.instanceId_inj h hsink hsink'
  case nodup =>
    intro address sink' hsink'
    obtain ⟨sink, hsink, -, hshards⟩ := hkeeps address sink' hsink'
    rw [hshards]
    exact h.nodup address sink hsink
  case allocated =>
    intro address sink' hsink' shard hshard
    obtain ⟨sink, hsink, -, hshards⟩ := hkeeps address sink' hsink'
    apply hallocated address sink' hsink' shard hshard
    rw [hshards] at hshard
    exact h.allocated address sink hsink shard hshard
  case address_inj =>
    intro address other sink' other' hsink' hother' shard hshard shard' hshard' heq
    obtain ⟨sink, hsink, -, hshards⟩ := hkeeps address sink' hsink'
    obtain ⟨sink₂, hsink₂, -, hshards₂⟩ := hkeeps other other' hother'
    rw [hshards] at hshard
    rw [hshards₂] at hshard'
    exact h.address_inj address other sink sink₂ hsink hsink₂ shard hshard shard' hshard' heq

end

namespace Evolves

variable {s s' : State} {movers : List ThreadId} {thread : ThreadId} {address : SinkAddress} {t : Thread}

theorem right (h : Evolves s s' movers) (ht : t.Right s.sinks thread) (hlt : t.cachedInstanceId < s.nextInstanceId)
    : t.Right s'.sinks thread := by
  intro address sink' hsink' hcached
  rcases h address sink' hsink' with ⟨sink, rest, hsink, hinstance, hshards, -⟩ | ⟨-, hinstance, -⟩
  . exact (ht address sink hsink (hcached.trans hinstance)).mono hshards
  . omega

theorem has {pointer : Option ShardAddress} (h : Evolves s s' movers)
    (ht : ∀ sink, s.sinks address = some sink → sink.Has thread pointer) (hliving : ∃ sink, s.sinks address = some sink)
    : ∀ sink', s'.sinks address = some sink' → sink'.Has thread pointer := by
  intro sink' hsink'
  rcases h address sink' hsink' with ⟨sink, rest, hsink, -, hshards, -⟩ | ⟨hnone, -⟩
  . exact (ht sink hsink).mono hshards
  . obtain ⟨sink, hsink⟩ := hliving
    rw [hnone] at hsink
    cases hsink

theorem caching (h : Evolves s s' movers) (hne : thread ∉ movers) (ht : t.Caching s.sinks thread)
    (hlt : t.cachedInstanceId < s.nextInstanceId)
    (hliving : ∀ address, t.pc.sink = some address → ∃ sink, s.sinks address = some sink)
    : t.Caching s'.sinks thread := by
  unfold Thread.Caching Pc.Caching at ht ⊢
  split at ht
  . next address hpc => exact h.has ht (hliving address (by rw [hpc]; rfl))
  . next address hpc => exact h.has ht (hliving address (by rw [hpc]; rfl))
  . next address hpc =>
    refine ⟨h.right ht.1 hlt, ?_⟩
    intro sink' hsink'
    rcases h address sink' hsink' with ⟨sink, rest, hsink, -, hshards, hrest⟩ | ⟨-, -, hempty⟩
    . intro shard hshard hproducer
      rw [hshards] at hshard
      rcases List.mem_append.mp hshard with hold | hnew
      . exact ht.2 sink hsink shard hold hproducer
      . exact hne (hproducer ▸ hrest shard hnew)
    . rw [hempty]
      exact fun shard hshard => absurd hshard List.not_mem_nil
  . next address shard hpc => exact ⟨h.right ht.1 hlt, h.has ht.2 (hliving address (by rw [hpc]; rfl))⟩
  . exact h.right ht hlt

end Evolves

theorem sinks_setSink_iff {s : State} {address other : SinkAddress} {new : Option Sink} {sink : Sink}
    : (s.setSink address new).sinks other = some sink ↔
        other = address ∧ new = some sink ∨ other ≠ address ∧ s.sinks other = some sink := by
  simp only [State.setSink]
  by_cases hother : other = address
  . rw [hother, Function.update_self]
    simp
  . rw [Function.update_of_ne hother]
    simp [hother]

theorem Keeps.destroy {s : State} {address : SinkAddress} {allocated : ShardAddress → Bool}
    : Keeps s ({ s with allocated := allocated }.setSink address none) := by
  intro other sink' hsink'
  obtain ⟨-, heq⟩ | ⟨-, hold⟩ := sinks_setSink_iff.mp hsink'
  . cases heq
  . exact ⟨sink', hold, rfl, rfl⟩

theorem Evolves.construct {s : State} {address : SinkAddress} (hfree : s.sinks address = none)
    : Evolves s ({ s with nextInstanceId := (s.nextInstanceId + 1) % 2 ^ 64 }.setSink address
        (some ⟨s.nextInstanceId, none, []⟩)) [] := by
  intro other sink' hsink'
  rcases sinks_setSink_iff.mp hsink' with ⟨rfl, heq⟩ | ⟨-, hold⟩
  . cases heq
    exact .inr ⟨hfree, rfl, rfl⟩
  . exact .inl ⟨sink', [], hold, rfl, (List.append_nil _).symm, by simp⟩

theorem Evolves.emplace {s : State} {address : SinkAddress} {sink : Sink} {thread : ThreadId}
    {allocated : ShardAddress} (hsink : s.sinks address = some sink)
    : Evolves s ({ s with allocated := Function.update s.allocated allocated true }.setSink address
        (some { sink with shards := sink.shards ++ [Shard.mk allocated thread] })) [thread] := by
  intro other sink' hsink'
  rcases sinks_setSink_iff.mp hsink' with ⟨rfl, heq⟩ | ⟨-, hold⟩
  . cases heq
    exact .inl ⟨sink, [⟨allocated, thread⟩], hsink, rfl, rfl, by simp⟩
  . exact .inl ⟨sink', [], hold, rfl, (List.append_nil _).symm, by simp⟩

theorem State.Step.evolves {s s' : State} {event : Event} (h : s.Step event s')
    : ∃ movers, Evolves s s' movers := by
  cases h with
  | construct flushThreshold hfree => exact ⟨_, .construct hfree⟩
  | destroy => exact ⟨[], Keeps.destroy.evolves []⟩
  | @lock thread _ _ _ _ hsink => exact ⟨[], (Keeps.setOwner hsink (some thread)).evolves []⟩
  | unwind _ _ hsink | registryUnlock _ _ hsink => exact ⟨[], (Keeps.setOwner hsink none).evolves []⟩
  | @emplace thread _ _ _ _ hsink => exact ⟨[thread], Evolves.emplace hsink⟩
  | _ =>
    refine ⟨[], Keeps.evolves ?_ []⟩
    exact .of_eq rfl

theorem State.Step.nextInstanceId_le {s s' : State} {event : Event} (hwrap : noWrap s event = true)
    (h : s.Step event s')
    : s.nextInstanceId ≤ s'.nextInstanceId := by
  cases h with
  | constructFail | construct =>
    have hnext := Nat.mod_eq_of_lt (of_decide_eq_true hwrap)
    simp only [State.setSink, hnext]
    exact Nat.le_succ _
  | _ => exact Nat.le_refl _

namespace State

variable {s s' : State} {movers : List ThreadId} {thread : ThreadId} {address : SinkAddress} {t : Thread} {sink : Sink}

@[simp]
theorem threads_setThread : (s.setThread thread t).threads thread = t := Function.update_self _ _ _

theorem sinks_setSink : (s.setSink address (some sink)).sinks address = some sink := Function.update_self _ _ _

theorem exists_sinks_setSink (h : ∃ old, s.sinks address' = some old)
    : ∃ new, (s.setSink address (some sink)).sinks address' = some new := by
  by_cases heq : address' = address
  . exact ⟨sink, heq ▸ sinks_setSink⟩
  . simp only [setSink]
    rw [Function.update_of_ne heq]
    exact h

theorem Valid.evolve (hv : s.Valid) (hregistered : Registered s') (hevolves : Evolves s s' movers)
    (hnext : s.nextInstanceId ≤ s'.nextInstanceId)
    (hframe : ∀ other, other ∉ movers → s'.threads other = s.threads other)
    (hliving : ∀ other, other ∉ movers → ∀ address, (s.threads other).pc.sink = some address →
      other ∈ s'.running ∧ ∃ sink, s'.sinks address = some sink)
    (hmovers : ∀ thread ∈ movers, s'.Fits thread)
    : s'.Valid := by
  refine ⟨hregistered, ?_⟩
  intro other
  by_cases hother : other ∈ movers
  . exact hmovers other hother
  . have hfits := hv.fits other
    constructor
    case cached_lt =>
      rw [hframe other hother]
      exact Nat.lt_of_lt_of_le hfits.cached_lt hnext
    case living =>
      rw [hframe other hother]
      exact hliving other hother
    case caching =>
      rw [hframe other hother]
      exact hevolves.caching hother hfits.caching hfits.cached_lt fun address h => (hfits.living address h).2

theorem Valid.move {m : State} (hv : s.Valid) (hregistered : Registered m) (hevolves : Evolves s m [thread])
    (hnext : m.nextInstanceId = s.nextInstanceId) (hthreads : m.threads = s.threads) (hrunning : m.running = s.running)
    (hsinks : ∀ address, (∃ sink, s.sinks address = some sink) → ∃ sink, m.sinks address = some sink)
    (hlt : t.cachedInstanceId < s.nextInstanceId)
    (hpc : ∀ address, t.pc.sink = some address → thread ∈ s.running ∧ ∃ sink, s.sinks address = some sink)
    (hcaching : t.Caching m.sinks thread)
    : (m.setThread thread t).Valid := by
  have hevolves' : Evolves s (m.setThread thread t) [thread] := hevolves
  have hregistered' : Registered (m.setThread thread t) :=
    hregistered.keep (Keeps.of_eq rfl) rfl fun _ _ _ _ _ h => h
  apply hv.evolve hregistered' hevolves' (Nat.le_of_eq hnext.symm)
  case hframe =>
    intro other hother
    simp only [setThread, hthreads]
    exact Function.update_of_ne (fun heq => hother (List.mem_singleton.mpr heq)) _ _
  case hliving =>
    intro other _ address haddress
    obtain ⟨hmem, hsink⟩ := (hv.fits other).living address haddress
    exact ⟨hrunning ▸ hmem, hsinks address hsink⟩
  case hmovers =>
    intro other hother
    obtain rfl := List.mem_singleton.mp hother
    constructor
    case cached_lt =>
      rw [threads_setThread]
      exact Nat.lt_of_lt_of_le hlt (Nat.le_of_eq hnext.symm)
    case living =>
      rw [threads_setThread]
      intro address haddress
      obtain ⟨hmem, hsink⟩ := hpc address haddress
      exact ⟨hrunning ▸ hmem, hsinks address hsink⟩
    case caching =>
      rw [threads_setThread]
      exact hcaching

theorem Valid.own (hv : s.Valid) (hlt : t.cachedInstanceId < s.nextInstanceId)
    (hpc : ∀ address, t.pc.sink = some address → thread ∈ s.running ∧ ∃ sink, s.sinks address = some sink)
    (hcaching : t.Caching s.sinks thread)
    : (s.setThread thread t).Valid :=
  hv.move hv.registered ((Keeps.of_eq rfl).evolves _) rfl rfl rfl (fun _ h => h) hlt hpc hcaching

theorem Valid.setOwner (hv : s.Valid) (hsink : s.sinks address = some sink) (owner : Option ThreadId)
    (hlt : t.cachedInstanceId < s.nextInstanceId)
    (hpc : ∀ address, t.pc.sink = some address → thread ∈ s.running ∧ ∃ sink, s.sinks address = some sink)
    (hcaching : t.Caching (s.setSink address (some { sink with registryOwner := owner })).sinks thread)
    : ((s.setSink address (some { sink with registryOwner := owner })).setThread thread t).Valid := by
  have hkeeps := Keeps.setOwner hsink owner
  have hregistered := hv.registered.keep hkeeps rfl fun _ _ _ _ _ h => h
  exact hv.move hregistered (hkeeps.evolves _) rfl rfl rfl (fun _ h => exists_sinks_setSink h) hlt hpc hcaching

end State

namespace Registered

variable {s : State} {address : SinkAddress} {sink : Sink} {thread : ThreadId}

theorem construct (h : Registered s) (hwrap : s.nextInstanceId + 1 < 2 ^ 64)
    : Registered ({ s with nextInstanceId := (s.nextInstanceId + 1) % 2 ^ 64 }.setSink address
        (some ⟨s.nextInstanceId, none, []⟩)) := by
  have hnext : (s.nextInstanceId + 1) % 2 ^ 64 = s.nextInstanceId + 1 := Nat.mod_eq_of_lt hwrap
  have hold := h.instanceId_lt
  constructor
  case next_pos =>
    simp only [State.setSink, hnext]
    exact Nat.succ_pos _
  case instanceId_pos =>
    intro other sink' hsink'
    rcases sinks_setSink_iff.mp hsink' with ⟨-, heq⟩ | ⟨-, hsink⟩
    . cases heq
      exact h.next_pos
    . exact h.instanceId_pos other sink' hsink
  case instanceId_lt =>
    intro other sink' hsink'
    simp only [State.setSink, hnext]
    rcases sinks_setSink_iff.mp hsink' with ⟨-, heq⟩ | ⟨-, hsink⟩
    . cases heq
      exact Nat.lt_succ_self _
    . exact Nat.lt_succ_of_lt (hold other sink' hsink)
  case instanceId_inj =>
    intro a b sink₁ sink₂ h₁ h₂ heq
    rcases sinks_setSink_iff.mp h₁ with ⟨ha, heq₁⟩ | ⟨-, h₁⟩ <;>
      rcases sinks_setSink_iff.mp h₂ with ⟨hb, heq₂⟩ | ⟨-, h₂⟩
    . rw [ha, hb]
    . cases heq₁
      exact absurd heq.symm (Nat.ne_of_lt (hold b sink₂ h₂))
    . cases heq₂
      exact absurd heq (Nat.ne_of_lt (hold a sink₁ h₁))
    . exact h.instanceId_inj a b sink₁ sink₂ h₁ h₂ heq
  case nodup =>
    intro other sink' hsink'
    rcases sinks_setSink_iff.mp hsink' with ⟨-, heq⟩ | ⟨-, hsink⟩
    . cases heq
      exact List.nodup_nil
    . exact h.nodup other sink' hsink
  case allocated =>
    intro other sink' hsink'
    rcases sinks_setSink_iff.mp hsink' with ⟨-, heq⟩ | ⟨-, hsink⟩
    . cases heq
      exact fun shard hshard => absurd hshard List.not_mem_nil
    . exact h.allocated other sink' hsink
  case address_inj =>
    intro a b sink₁ sink₂ h₁ h₂ shard hshard shard' hshard'
    rcases sinks_setSink_iff.mp h₁ with ⟨-, heq₁⟩ | ⟨-, h₁⟩
    . cases heq₁
      exact absurd hshard List.not_mem_nil
    . rcases sinks_setSink_iff.mp h₂ with ⟨-, heq₂⟩ | ⟨-, h₂⟩
      . cases heq₂
        exact absurd hshard' List.not_mem_nil
      . exact h.address_inj a b sink₁ sink₂ h₁ h₂ shard hshard shard' hshard'

theorem emplace {allocated : ShardAddress} (h : Registered s) (hsink : s.sinks address = some sink)
    (hfresh : s.allocated allocated = false) (hnone : ∀ shard ∈ sink.shards, shard.producer ≠ thread)
    : Registered ({ s with allocated := Function.update s.allocated allocated true }.setSink address
        (some { sink with shards := sink.shards ++ [Shard.mk allocated thread] })) := by
  -- A shard of the new state is an old one of the same sink, or the new one.
  have hshards : ∀ other sink' shard,
      ({ s with allocated := Function.update s.allocated allocated true }.setSink address
        (some { sink with shards := sink.shards ++ [Shard.mk allocated thread] })).sinks other = some sink' →
      shard ∈ sink'.shards → (∃ old, s.sinks other = some old ∧ shard ∈ old.shards) ∨
        other = address ∧ shard = ⟨allocated, thread⟩ := by
    intro other sink' shard hsink' hshard
    rcases sinks_setSink_iff.mp hsink' with ⟨rfl, heq⟩ | ⟨-, hold⟩
    . cases heq
      rcases List.mem_append.mp hshard with hmem | hnew
      . exact .inl ⟨sink, hsink, hmem⟩
      . exact .inr ⟨rfl, List.mem_singleton.mp hnew⟩
    . exact .inl ⟨sink', hold, hshard⟩
  have hdiffers : ∀ other old shard, s.sinks other = some old → shard ∈ old.shards → shard.address ≠ allocated := by
    intro other old shard hold hshard heq
    have hallocated := h.allocated other old hold shard hshard
    rw [heq, hfresh] at hallocated
    cases hallocated
  have hids : KeepsIds s ({ s with allocated := Function.update s.allocated allocated true }.setSink address
      (some { sink with shards := sink.shards ++ [Shard.mk allocated thread] })) := by
    intro other sink' hsink'
    rcases sinks_setSink_iff.mp hsink' with ⟨rfl, heq⟩ | ⟨-, hold⟩
    . cases heq
      exact ⟨sink, hsink, rfl⟩
    . exact ⟨sink', hold, rfl⟩
  constructor
  case next_pos => exact h.next_pos
  case instanceId_pos => exact fun _ _ hsink' => hids.instanceId_pos h hsink'
  case instanceId_lt => exact fun _ _ hsink' => hids.instanceId_lt h hsink'
  case instanceId_inj => exact fun _ _ _ _ h₁ h₂ => hids.instanceId_inj h h₁ h₂
  case nodup =>
    intro other sink' hsink'
    rcases sinks_setSink_iff.mp hsink' with ⟨-, heq⟩ | ⟨-, hold⟩
    . cases heq
      simp only [List.map_append, List.map_cons, List.map_nil]
      refine List.nodup_append.mpr
        ⟨h.nodup address sink hsink, List.nodup_cons.mpr ⟨List.not_mem_nil, List.nodup_nil⟩, ?_⟩
      intro producer hproducer other hother heq
      obtain ⟨shard, hshard, rfl⟩ := List.mem_map.mp hproducer
      exact hnone shard hshard (heq.trans (List.mem_singleton.mp hother))
    . exact h.nodup other sink' hold
  case allocated =>
    intro other sink' hsink' shard hshard
    simp only [State.setSink]
    rcases hshards other sink' shard hsink' hshard with ⟨old, hold, hmem⟩ | ⟨-, rfl⟩
    . rw [Function.update_of_ne (hdiffers other old shard hold hmem)]
      exact h.allocated other old hold shard hmem
    . exact Function.update_self _ _ _
  case address_inj =>
    intro a b sink₁ sink₂ h₁ h₂ shard hshard shard' hshard' heq
    rcases hshards a sink₁ shard h₁ hshard with ⟨old₁, hold₁, hmem₁⟩ | ⟨rfl, rfl⟩ <;>
      rcases hshards b sink₂ shard' h₂ hshard' with ⟨old₂, hold₂, hmem₂⟩ | ⟨rfl, rfl⟩
    . exact h.address_inj a b old₁ old₂ hold₁ hold₂ shard hmem₁ shard' hmem₂ heq
    . exact absurd heq (hdiffers a old₁ shard hold₁ hmem₁)
    . exact absurd heq.symm (hdiffers b old₂ shard' hold₂ hmem₂)
    . exact ⟨rfl, rfl⟩

end Registered

namespace State

variable {s s' : State} {event : Event} {thread : ThreadId} {address : SinkAddress} {sink : Sink}

theorem Valid.using (hv : s.Valid) (hpc : (s.threads thread).pc.sink = some address) {pc : Pc}
    (h : pc.sink = some address)
    : ∀ address', pc.sink = some address' → thread ∈ s.running ∧ ∃ sink, s.sinks address' = some sink := by
  intro address' h'
  rw [h] at h'
  cases h'
  exact (hv.fits thread).living address hpc

theorem Valid.caching_at {pc : Pc} (hv : s.Valid) (hpc : (s.threads thread).pc = pc)
    : pc.Caching s.sinks thread (s.threads thread) := by
  rw [← hpc]
  exact (hv.fits thread).caching

theorem Valid.construct (hv : s.Valid) (hwrap : s.nextInstanceId + 1 < 2 ^ 64) (hfree : s.sinks address = none)
    : ({ s with nextInstanceId := (s.nextInstanceId + 1) % 2 ^ 64 }.setSink address
        (some ⟨s.nextInstanceId, none, []⟩)).Valid := by
  have hnext : (s.nextInstanceId + 1) % 2 ^ 64 = s.nextInstanceId + 1 := Nat.mod_eq_of_lt hwrap
  apply hv.evolve (hv.registered.construct hwrap) (Evolves.construct hfree)
  case hnext =>
    simp only [setSink, hnext]
    exact Nat.le_succ _
  case hframe => exact fun _ _ => rfl
  case hliving =>
    intro other _ address' h
    obtain ⟨hmem, hsink⟩ := (hv.fits other).living address' h
    exact ⟨hmem, exists_sinks_setSink hsink⟩
  case hmovers => exact fun thread hthread => absurd hthread List.not_mem_nil

theorem Valid.constructFail (hv : s.Valid) (hwrap : s.nextInstanceId + 1 < 2 ^ 64)
    : State.Valid { s with nextInstanceId := (s.nextInstanceId + 1) % 2 ^ 64 } := by
  have hnext : (s.nextInstanceId + 1) % 2 ^ 64 = s.nextInstanceId + 1 := Nat.mod_eq_of_lt hwrap
  rw [hnext]
  have hregistered : Registered { s with nextInstanceId := s.nextInstanceId + 1 } := {
    hv.registered with
    next_pos := Nat.succ_pos _
    instanceId_lt := fun a sink hsink => Nat.lt_succ_of_lt (hv.registered.instanceId_lt a sink hsink)
  }
  have hkeeps : Keeps s { s with nextInstanceId := s.nextInstanceId + 1 } := .of_eq rfl
  have hevolves : Evolves s { s with nextInstanceId := s.nextInstanceId + 1 } [] := hkeeps.evolves _
  apply hv.evolve hregistered hevolves (Nat.le_succ _) (fun _ _ => rfl)
  case hliving => exact fun other _ => (hv.fits other).living
  case hmovers => exact fun thread hthread => absurd hthread List.not_mem_nil

theorem Valid.destroy (hv : s.Valid) (hsink : s.sinks address = some sink)
    (hunused : ∀ thread ∈ s.running, (s.threads thread).pc.sink ≠ some address) {allocated : ShardAddress → Bool}
    (hallocated : ∀ shard, s.allocated shard = true → (∀ freed ∈ sink.shards, freed.address ≠ shard) →
      allocated shard = true)
    : ({ s with allocated := allocated }.setSink address none).Valid := by
  have hkeeps : Keeps s ({ s with allocated := allocated }.setSink address none) := .destroy
  have hregistered : Registered ({ s with allocated := allocated }.setSink address none) := by
    apply hv.registered.keep hkeeps rfl
    intro other sink' hsink' shard hshard hbefore
    obtain ⟨-, heq⟩ | ⟨hne, hother⟩ := sinks_setSink_iff.mp hsink'
    . cases heq
    apply hallocated _ hbefore
    intro freed hfreed heq
    exact hne (hv.registered.address_inj address other sink sink' hsink hother freed hfreed shard hshard heq).1.symm
  apply hv.evolve hregistered (hkeeps.evolves []) (Nat.le_refl _) (fun _ _ => rfl)
  case hliving =>
    intro other _ address' h
    obtain ⟨hmem, sink', hsink'⟩ := (hv.fits other).living address' h
    refine ⟨hmem, sink', ?_⟩
    apply sinks_setSink_iff.mpr
    refine .inr ⟨?_, hsink'⟩
    rintro rfl
    exact hunused other hmem h
  case hmovers => exact fun thread hthread => absurd hthread List.not_mem_nil

theorem Valid.start (hv : s.Valid) (thread : ThreadId)
    : ({ s with running := thread :: s.running }.setThread thread {}).Valid := by
  have hregistered : Registered ({ s with running := thread :: s.running }.setThread thread {}) :=
    hv.registered.keep (Keeps.of_eq rfl) rfl fun _ _ _ _ _ h => h
  have hevolves : Evolves s ({ s with running := thread :: s.running }.setThread thread {}) [thread] :=
    (Keeps.of_eq rfl).evolves _
  apply hv.evolve hregistered hevolves (Nat.le_refl _)
  case hframe =>
    intro other hother
    exact Function.update_of_ne (fun heq => hother (List.mem_singleton.mpr heq)) _ _
  case hliving =>
    intro other _ address' h
    obtain ⟨hmem, hsink⟩ := (hv.fits other).living address' h
    exact ⟨List.mem_cons_of_mem thread hmem, hsink⟩
  case hmovers =>
    intro other hother
    obtain rfl := List.mem_singleton.mp hother
    constructor
    case cached_lt =>
      rw [threads_setThread]
      exact hv.registered.next_pos
    case living =>
      rw [threads_setThread]
      exact fun _ h => absurd h.symm (Option.some_ne_none _)
    case caching =>
      rw [threads_setThread]
      -- No sink has the id that the cache of a new thread has.
      intro address' sink' hsink' hcached
      exact absurd hcached (Nat.ne_of_lt (hv.registered.instanceId_pos address' sink' hsink'))

theorem Valid.exit (hv : s.Valid) (hidle : (s.threads thread).pc = .idle)
    : State.Valid { s with running := s.running.erase thread } := by
  have hregistered : Registered { s with running := s.running.erase thread } :=
    hv.registered.keep (Keeps.of_eq rfl) rfl fun _ _ _ _ _ h => h
  have hevolves : Evolves s { s with running := s.running.erase thread } [] := (Keeps.of_eq rfl).evolves _
  apply hv.evolve hregistered hevolves (Nat.le_refl _) (fun _ _ => rfl)
  case hliving =>
    intro other _ address' h
    obtain ⟨hmem, hsink⟩ := (hv.fits other).living address' h
    refine ⟨(List.mem_erase_of_ne ?_).mpr hmem, hsink⟩
    rintro rfl
    rw [hidle] at h
    cases h
  case hmovers => exact fun thread hthread => absurd hthread List.not_mem_nil

theorem Valid.emplace {allocated : ShardAddress} (hv : s.Valid) (hpc : (s.threads thread).pc = .emplace address)
    (hsink : s.sinks address = some sink) (hfresh : s.allocated allocated = false)
    : (({ s with allocated := Function.update s.allocated allocated true }.setSink address
        (some { sink with shards := sink.shards ++ [Shard.mk allocated thread] })).setThread thread
          { s.threads thread with cachedShard := some allocated, pc := .registryUnlock address }).Valid := by
  have hfits := hv.fits thread
  have hcaching := hv.caching_at hpc
  apply hv.move (hv.registered.emplace hsink hfresh (hcaching.2 sink hsink)) (Evolves.emplace hsink) rfl rfl rfl
    (fun _ h => exists_sinks_setSink h)
  case hlt => exact hfits.cached_lt
  case hpc => exact hv.using (by rw [hpc]; rfl) rfl
  case hcaching =>
    intro sink' hsink'
    rw [sinks_setSink] at hsink'
    cases hsink'
    exact ⟨⟨allocated, thread⟩, List.mem_append_right _ (List.mem_singleton_self _), rfl, rfl⟩

-- Of two living sinks with the same id, the cache means the one that filled it.
theorem Valid.store (hv : s.Valid) (hpc : (s.threads thread).pc = .store address)
    (hsink : s.sinks address = some sink)
    : (s.setThread thread
        { s.threads thread with
          cachedInstanceId := sink.instanceId
          pc := .returned address (s.threads thread).cachedShard }).Valid := by
  have hcaching := hv.caching_at hpc
  apply hv.own
  case hlt => exact hv.registered.instanceId_lt address sink hsink
  case hpc => exact hv.using (by rw [hpc]; rfl) rfl
  case hcaching =>
    refine ⟨?_, hcaching⟩
    intro address' sink' hsink' hcached
    obtain rfl := hv.registered.instanceId_inj address address' sink sink' hsink hsink' hcached
    exact hcaching sink' hsink'

theorem Valid.setPc {pc : Pc} (hv : s.Valid) (hpc : (s.threads thread).pc.sink = some address)
    (hsink : pc.sink = some address ∨ pc.sink = none)
    (hcaching : Thread.Caching s.sinks thread { s.threads thread with pc := pc })
    : (s.setThread thread { s.threads thread with pc := pc }).Valid := by
  apply hv.own
  case hlt => exact (hv.fits thread).cached_lt
  case hpc =>
    rcases hsink with hsame | hnone
    . exact hv.using hpc hsame
    . intro address' h
      rw [hnone] at h
      cases h
  case hcaching => exact hcaching

theorem Valid.setOwnerPc {pc : Pc} (hv : s.Valid) (hpc : (s.threads thread).pc.sink = some address)
    (hsink : s.sinks address = some sink) (owner : Option ThreadId)
    (hpc' : pc.sink = some address ∨ pc.sink = none)
    (hcaching : Thread.Caching (s.setSink address (some { sink with registryOwner := owner })).sinks thread
      { s.threads thread with pc := pc })
    : ((s.setSink address (some { sink with registryOwner := owner })).setThread thread
        { s.threads thread with pc := pc }).Valid := by
  apply hv.setOwner hsink owner
  case hlt => exact (hv.fits thread).cached_lt
  case hpc =>
    rcases hpc' with hsame | hnone
    . exact hv.using hpc hsame
    . intro address' h
      rw [hnone] at h
      cases h
  case hcaching => exact hcaching

theorem Valid.step (hv : s.Valid) (hwrap : noWrap s event = true) (h : s.Step event s') : s'.Valid := by
  cases h with
  | constructFail address => exact hv.constructFail (of_decide_eq_true hwrap)
  | construct flushThreshold hfree => exact hv.construct (of_decide_eq_true hwrap) hfree
  | destroy hsink hunused allocated hallocated => exact hv.destroy hsink hunused hallocated
  | start hnew => exact hv.start _
  | exit hidle => exact hv.exit hidle
  | emplace hpc hsink hfresh => exact hv.emplace hpc hsink hfresh
  | store unused hpc hsink => exact hv.store hpc hsink
  | @call thread address hrunning hidle hsink =>
    have hcaching := hv.caching_at hidle
    apply hv.own
    case hlt => exact (hv.fits thread).cached_lt
    case hpc =>
      intro address' h
      cases h
      exact ⟨hrunning, hsink⟩
    case hcaching => exact hcaching
  | @hit thread address sink unused hpc hsink hcached =>
    have hcaching := hv.caching_at hpc
    apply hv.setPc (by rw [hpc]; rfl) (.inl rfl)
    refine ⟨hcaching, ?_⟩
    intro sink' hsink'
    rw [hsink] at hsink'
    cases hsink'
    exact hcaching address sink hsink hcached
  | @miss thread address unused hpc =>
    have hcaching := hv.caching_at hpc
    exact hv.setPc (by rw [hpc]; rfl) (.inl rfl) hcaching
  | @lock thread address sink unused hpc hsink =>
    have hcaching := hv.caching_at hpc
    apply hv.setOwnerPc (by rw [hpc]; rfl) hsink _ (.inl rfl)
    exact ((Keeps.setOwner hsink _).evolves []).right hcaching (hv.fits thread).cached_lt
  | @found thread address sink shard unused hpc hsink hshard hproducer =>
    apply hv.own
    case hlt => exact (hv.fits thread).cached_lt
    case hpc => exact hv.using (by rw [hpc]; rfl) rfl
    case hcaching =>
      intro sink' hsink'
      rw [hsink] at hsink'
      cases hsink'
      exact ⟨shard, hshard, rfl, hproducer⟩
  | @missing thread address sink unused hpc hsink hnone =>
    have hcaching := hv.caching_at hpc
    apply hv.setPc (by rw [hpc]; rfl) (.inl rfl)
    refine ⟨hcaching, ?_⟩
    intro sink' hsink'
    rw [hsink] at hsink'
    cases hsink'
    exact hnone
  | @unwind thread address sink unused hpc hsink =>
    have hcaching := hv.caching_at hpc
    apply hv.setOwnerPc (by rw [hpc]; rfl) hsink _ (.inr rfl)
    exact ((Keeps.setOwner hsink _).evolves []).right hcaching (hv.fits thread).cached_lt
  | @registryUnlock thread address sink unused hpc hsink =>
    have hcaching := hv.caching_at hpc
    apply hv.setOwnerPc (by rw [hpc]; rfl) hsink _ (.inl rfl)
    exact ((Keeps.setOwner hsink _).evolves []).has hcaching ⟨sink, hsink⟩
  | @fail thread address hpc =>
    have hcaching := hv.caching_at hpc
    exact hv.setPc (by rw [hpc]; rfl) (.inl rfl) hcaching.1
  | @done thread address shard hpc =>
    have hcaching := hv.caching_at hpc
    exact hv.setPc (by rw [hpc]; rfl) (.inr rfl) hcaching.1

end State

end Vosp.ShardCache
