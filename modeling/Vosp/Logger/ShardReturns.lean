import Mathlib.Data.List.Nodup
import Vosp.Logger.CachedShard

/-!
This module proves what the callers of `current_thread_shard` rely on. The shards that calls have returned are
recorded under the instance ids of their sinks, because the addresses of sinks are used again.
-/

namespace Vosp

namespace ShardCache

variable {s s' : State} {event : Event} {thread : ThreadId} {log new : List Return}

theorem State.Valid.init : State.init.Valid := by
  constructor
  case registered =>
    constructor
    case next_pos => exact Nat.one_pos
    case instanceId_pos => exact fun _ _ hsink => by cases hsink
    case instanceId_lt => exact fun _ _ hsink => by cases hsink
    case instanceId_inj => exact fun _ _ _ _ hsink => by cases hsink
    case nodup => exact fun _ _ hsink => by cases hsink
    case allocated => exact fun _ _ hsink => by cases hsink
    case address_inj => exact fun _ _ _ _ hsink => by cases hsink
  case fits =>
    intro thread
    constructor
    case cached_lt => exact Nat.one_pos
    case living => exact fun _ hsink => by cases hsink
    case caching => exact fun _ _ hsink => by cases hsink

theorem Sink.Has.unique {sink : Sink} {pointer pointer' : Option ShardAddress}
    (hnodup : (sink.shards.map Shard.producer).Nodup) (h : sink.Has thread pointer) (h' : sink.Has thread pointer')
    : pointer = pointer' := by
  obtain ⟨shard, hmem, rfl, hproducer⟩ := h
  obtain ⟨shard', hmem', rfl, hproducer'⟩ := h'
  rw [List.inj_on_of_nodup_map hnodup hmem hmem' (hproducer.trans hproducer'.symm)]

def Stored (s : State) (entry : Return) : Prop :=
  ∃ address sink, s.sinks address = some sink ∧ sink.instanceId = entry.instanceId ∧
    sink.Has entry.thread entry.shard

theorem State.Valid.returns_stored (hv : s.Valid) {entry : Return} (h : entry ∈ s.returns event)
    : Stored s entry := by
  simp only [State.returns] at h
  split at h
  . next thread _ =>
    split at h
    . next address hpc =>
      split at h
      . next sink hsink =>
        split at h
        . next hcached =>
          obtain rfl := List.mem_singleton.mp h
          have hright := hv.caching_at hpc
          exact ⟨address, sink, hsink, rfl, hright address sink hsink hcached⟩
        . cases h
      . cases h
    . next address hpc =>
      split at h
      . next sink hsink =>
        obtain rfl := List.mem_singleton.mp h
        have hcaching := hv.caching_at hpc
        exact ⟨address, sink, hsink, rfl, hcaching sink hsink⟩
      . cases h
    . cases h
  . cases h

structure Recorded (s : State) (log : List Return) : Prop where
  instanceId_lt : ∀ entry ∈ log, entry.instanceId < s.nextInstanceId
  shard_ne : ∀ entry ∈ log, entry.shard ≠ none
  has : ∀ entry ∈ log, ∀ address sink, s.sinks address = some sink → sink.instanceId = entry.instanceId →
    sink.Has entry.thread entry.shard
  stable : ∀ entry ∈ log, ∀ other ∈ log, entry.instanceId = other.instanceId → entry.thread = other.thread →
    entry.shard = other.shard

namespace Recorded

theorem nil : Recorded s [] := by
  constructor <;> exact fun _ hentry => absurd hentry List.not_mem_nil

theorem append (hv : Registered s) (h : Recorded s log) (hnew : ∀ entry ∈ new, Stored s entry)
    : Recorded s (log ++ new) := by
  have hhas : ∀ entry ∈ log ++ new, ∀ address sink, s.sinks address = some sink →
      sink.instanceId = entry.instanceId → sink.Has entry.thread entry.shard := by
    intro entry hentry address sink hsink hid
    rcases List.mem_append.mp hentry with hold | hentry
    . exact h.has entry hold address sink hsink hid
    . obtain ⟨address', sink', hsink', hid', hstored⟩ := hnew entry hentry
      obtain rfl := hv.instanceId_inj address address' sink sink' hsink hsink' (hid.trans hid'.symm)
      rw [hsink] at hsink'
      cases hsink'
      exact hstored
  -- The sink of a new entry is there to compare with.
  have hnewest : ∀ entry ∈ new, ∀ other ∈ log ++ new, entry.instanceId = other.instanceId →
      entry.thread = other.thread → entry.shard = other.shard := by
    intro entry hentry other hother hid hthread
    obtain ⟨address, sink, hsink, hid', hstored⟩ := hnew entry hentry
    have hother := hhas other hother address sink hsink (hid'.trans hid)
    rw [← hthread] at hother
    exact hstored.unique (hv.nodup address sink hsink) hother
  constructor
  case instanceId_lt =>
    intro entry hentry
    rcases List.mem_append.mp hentry with hold | hentry
    . exact h.instanceId_lt entry hold
    . obtain ⟨address, sink, hsink, hid, -⟩ := hnew entry hentry
      rw [← hid]
      exact hv.instanceId_lt address sink hsink
  case shard_ne =>
    intro entry hentry
    rcases List.mem_append.mp hentry with hold | hentry
    . exact h.shard_ne entry hold
    . obtain ⟨_, _, _, _, shard, _, hpointer, _⟩ := hnew entry hentry
      rw [hpointer]
      exact Option.some_ne_none _
  case has => exact hhas
  case stable =>
    intro entry hentry other hother hid hthread
    rcases List.mem_append.mp hentry with hold | hentry'
    . rcases List.mem_append.mp hother with hold' | hother'
      . exact h.stable entry hold other hold' hid hthread
      . exact (hnewest other hother' entry hentry hid.symm hthread.symm).symm
    . exact hnewest entry hentry' other hother hid hthread

theorem evolve {movers : List ThreadId} (h : Recorded s log) (hevolves : Evolves s s' movers)
    (hnext : s.nextInstanceId ≤ s'.nextInstanceId)
    : Recorded s' log where
  instanceId_lt entry hentry := Nat.lt_of_lt_of_le (h.instanceId_lt entry hentry) hnext
  shard_ne := h.shard_ne
  has := by
    intro entry hentry address sink' hsink' hid
    rcases hevolves address sink' hsink' with ⟨sink, rest, hsink, hinstance, hshards, -⟩ | ⟨-, hinstance, -⟩
    . exact (h.has entry hentry address sink hsink (hinstance.symm.trans hid)).mono hshards
    . have hlt := h.instanceId_lt entry hentry
      omega
  stable := h.stable

theorem mono {log' : List Return} (h : Recorded s log) (hmem : ∀ entry ∈ log', entry ∈ log)
    : Recorded s log' where
  instanceId_lt entry hentry := h.instanceId_lt entry (hmem entry hentry)
  shard_ne entry hentry := h.shard_ne entry (hmem entry hentry)
  has entry hentry := h.has entry (hmem entry hentry)
  stable entry hentry other hother := h.stable entry (hmem entry hentry) other (hmem other hother)

end Recorded

theorem step_of_restrict (h : (system.restrict noWrap).step s event = some s')
    : noWrap s event = true ∧ s.Step event s' := by
  simp only [System.restrict] at h
  split at h
  . next hwrap => exact ⟨hwrap, State.step_cases h⟩
  . cases h

theorem State.Valid.of_reachable (hs : (system.restrict noWrap).Reachable s) : s.Valid := by
  apply hs.invariant State.Valid.init
  intro s event s' _ hv _ h
  obtain ⟨hwrap, hstep⟩ := step_of_restrict h
  exact hv.step hwrap hstep

theorem Recorded.step (hv : s.Valid) (h : (system.restrict noWrap).step s event = some s') (hlog : Recorded s log)
    : Recorded s' (log ++ s.returns event) := by
  obtain ⟨hwrap, hstep⟩ := step_of_restrict h
  obtain ⟨movers, hevolves⟩ := hstep.evolves
  have hreturns : Recorded s (log ++ s.returns event) :=
    hlog.append hv.registered fun entry hentry => hv.returns_stored hentry
  exact hreturns.evolve hevolves (hstep.nextInstanceId_le hwrap)

abbrev history : System (State × List Return) Event := (system.restrict noWrap).recording State.returns

theorem recorded_of_reachable {s : State × List Return} (hs : history.Reachable s) : Recorded s.1 s.2 := by
  apply hs.recording_invariant (I := fun s log => Recorded s log) .nil
  intro s log event s' hs hlog h
  exact hlog.step (.of_reachable hs) h

theorem Recorded.run {s s' : State × List Return} (hs : history.Reachable s) {entry : Return}
    (hentry : Stored s.1 entry) {events : List Event} (hrun : history.run s events = some s')
    : Recorded s'.1 (entry :: s'.2) := by
  have hadded : Recorded s.1 (entry :: s.2) := by
    have hv := State.Valid.of_reachable hs.of_recording
    have hnew : Recorded s.1 (s.2 ++ [entry]) := by
      apply (recorded_of_reachable hs).append hv.registered
      intro other hother
      rw [List.mem_singleton.mp hother]
      exact hentry
    apply hnew.mono
    intro other hother
    rcases List.mem_cons.mp hother with rfl | hold
    . exact List.mem_append_right _ (List.mem_singleton_self _)
    . exact List.mem_append_left _ hold
  apply hs.run_invariant (I := fun s => Recorded s.1 (entry :: s.2)) ?_ hadded events hrun
  intro s event s' hs hlog h
  obtain ⟨s₁, hstep, rfl⟩ := Option.map_eq_some_iff.mp h
  exact hlog.step (.of_reachable hs.of_recording) hstep

/--
A thread gets the shard of its own in the sink that it has called, and for the lifetime of this sink the same one.
`later` is the log of the returned shards at some later moment.
-/
structure CacheRight (s : State) (later : List Return) : Prop where
  returned : ∀ thread address pointer, (s.threads thread).pc = .returned address pointer →
    ∃ sink, s.sinks address = some sink ∧
      ∃ shard ∈ sink.shards, pointer = some shard.address ∧ shard.producer = thread
  own : ∀ address address' sink sink', s.sinks address = some sink → s.sinks address' = some sink' →
    ∀ shard ∈ sink.shards, ∀ shard' ∈ sink'.shards, shard.address = shard'.address →
      address = address' ∧ shard = shard'
  living : ∀ address sink, s.sinks address = some sink → ∀ shard ∈ sink.shards, s.allocated shard.address = true
  once : ∀ address sink, s.sinks address = some sink → (sink.shards.map Shard.producer).Nodup
  instances : ∀ address address' sink sink', s.sinks address = some sink → s.sinks address' = some sink' →
    sink.instanceId = sink'.instanceId → address = address'
  stays : ∀ address sink, s.sinks address = some sink → ∀ shard ∈ sink.shards, ∀ entry ∈ later,
    entry.instanceId = sink.instanceId → entry.thread = shard.producer → entry.shard = some shard.address
  stable : ∀ entry ∈ later, entry.shard ≠ none ∧
    ∀ other ∈ later, entry.instanceId = other.instanceId → entry.thread = other.thread →
      entry.shard = other.shard

end ShardCache

open ShardCache

theorem thread_shard_cache_right {s s' : State × List Return} (hs : history.Reachable s) {events : List Event}
    (hrun : history.run s events = some s')
    : CacheRight s.1 s'.2 := by
  have hv := State.Valid.of_reachable hs.of_recording
  have hlater := recorded_of_reachable (hs.run events hrun)
  constructor
  case returned =>
    intro thread address pointer hpc
    have hliving := (hv.fits thread).living
    have hcaching := hv.caching_at hpc
    rw [hpc] at hliving
    obtain ⟨-, sink, hsink⟩ := hliving address rfl
    exact ⟨sink, hsink, hcaching.2 sink hsink⟩
  case own => exact hv.registered.address_inj
  case living => exact hv.registered.allocated
  case once => exact hv.registered.nodup
  case instances => exact hv.registered.instanceId_inj
  case stays =>
    intro address sink hsink shard hshard entry hentry hid hthread
    have hstored : Stored s.1 ⟨sink.instanceId, shard.producer, some shard.address⟩ :=
      ⟨address, sink, hsink, rfl, shard, hshard, rfl, rfl⟩
    have hrecorded := Recorded.run hs hstored hrun
    exact hrecorded.stable entry (List.mem_cons_of_mem _ hentry) _ List.mem_cons_self hid hthread
  case stable => exact fun entry hentry => ⟨hlater.shard_ne entry hentry, hlater.stable entry hentry⟩

-- Thread 1 goes back and forth between two sinks, and then starts again when another sink is at the first address.
def alternatingRun : List Event :=
  [.construct 100 8, .construct 200 8, .start (some 1), .call (some 1) 100] ++ List.replicate 6 (.step (some 1) 500) ++
    [.done (some 1), .call (some 1) 200] ++ List.replicate 6 (.step (some 1) 600) ++ [.done (some 1)]

def reusedRun : List Event :=
  .call (some 1) 100 :: List.replicate 5 (.step (some 1) 0) ++
    [.done (some 1), .destroy 100, .exit (some 1), .construct 100 8, .start (some 1), .call (some 1) 200] ++
    List.replicate 5 (.step (some 1) 0) ++ [.done (some 1), .call (some 1) 100] ++ List.replicate 6 (.step (some 1) 500)

theorem thread_shard_cache_right_reused
    : ∃ s s' : State × List Return, s.2 = [⟨1, some 1, some 500⟩, ⟨2, some 1, some 600⟩] ∧
        s'.2 = s.2 ++ [⟨1, some 1, some 500⟩, ⟨2, some 1, some 600⟩, ⟨3, some 1, some 500⟩] ∧
        CacheRight s.1 s'.2 := by
  have hrun : (history.run history.init alternatingRun).bind (fun s =>
      (history.run s reusedRun).map fun s' => (s.2, s'.2)) =
        some ([⟨1, some 1, some 500⟩, ⟨2, some 1, some 600⟩],
          [⟨1, some 1, some 500⟩, ⟨2, some 1, some 600⟩, ⟨1, some 1, some 500⟩, ⟨2, some 1, some 600⟩,
            ⟨3, some 1, some 500⟩]) := by
    decide +kernel
  obtain ⟨s, hfirst, hrest⟩ := Option.bind_eq_some_iff.mp hrun
  obtain ⟨s', hsecond, hlogs⟩ := Option.map_eq_some_iff.mp hrest
  obtain ⟨hlog, hlog'⟩ := Prod.mk.inj hlogs
  have hinit : history.Reachable history.init := .init
  have hs := hinit.run alternatingRun hfirst
  refine ⟨s, s', hlog, ?_, thread_shard_cache_right hs hsecond⟩
  rw [hlog, hlog']
  rfl

end Vosp
