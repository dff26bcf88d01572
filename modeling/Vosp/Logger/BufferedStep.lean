import Vosp.Lib.Mutex
import Vosp.Logger.BufferedSystem

/-!
This module says once what a step of the buffered sink can do, and which shards, mutexes and bytes a
program point relies on.
-/

namespace Vosp

namespace SinkPc

def inflight (pc : SinkPc) : List Record :=
  match pc with
  | .lookup record | .register record | .append record _ => [record]
  | _ => []

def active (pc : SinkPc) : List Record :=
  match pc with
  | .lookup record | .register record | .append record _ | .spill record _ | .wrote record _ => [record]
  | _ => []

def target (pc : SinkPc) : Option Nat :=
  match pc with
  | .append _ i | .spill _ i => some i
  | _ => none

def holds (pc : SinkPc) (shard : Nat) : Bool :=
  match pc with
  | .spill _ i | .output i _ _ => i = shard
  | _ => false

def rest (pc : SinkPc) : Option (List Nat) :=
  match pc with
  | .shards rest _ => some rest
  | .output i rest _ => some (i :: rest)
  | .flushed _ => some []
  | _ => none

end SinkPc

namespace BufferedState

inductive Move (s : BufferedState) (t : Nat) : SinkPc → SinkPc → Prop where
  | cached (hcache : s.cache t = some i) : Move s t (.lookup record) (.append record i)
  | uncached (hcache : s.cache t = none) : Move s t (.lookup record) (.register record)
  | snapshot : Move s t .snapshot (.shards (List.range s.shards.length) true)
  | finish : Move s t (.shards [] success) (.flushed (!s.output.failed && success))
  | skip (hfree : s.mutex i = none) (hshard : s.shards[i]? = some shard) (hempty : shard.buffer = [])
    : Move s t (.shards (i :: rest) success) (.shards rest success)
  | flushed : Move s t (.flushed result) .idle

inductive Step (flushThreshold : Nat) (s : BufferedState) : SinkEvent → BufferedState → Prop where
  | write (hpc : s.pc t = .idle) : Step flushThreshold s (.write t entry) (s.startWrite t entry)
  | flush (hpc : s.pc t = .idle) : Step flushThreshold s (.flush t) (s.startFlush t)
  | switch (hpc : s.pc t = .idle) : Step flushThreshold s (.switch t) (s.setCache t none)
  | fail : Step flushThreshold s .fail { s with output := { s.output with failed := true } }
  | clear : Step flushThreshold s .clear { s with output := { s.output with failed := false } }
  | move {before after : SinkPc} (hpc : s.pc t = before) (hmove : Move s t before after)
    : Step flushThreshold s (.step t) (s.setPc t after)
  | register {i : Nat} {shards : List Shard} (hpc : s.pc t = .register record)
      (hregister : registerShard flushThreshold s.shards (some t) = .ok (i, shards))
    : Step flushThreshold s (.step t)
        (({ s with shards := shards }.setCache t (some i)).setPc t (.append record i))
  | append (hpc : s.pc t = .append record i) (hfree : s.mutex i = none) (hshard : s.shards[i]? = some shard)
    (hlt : (shard.append record.entry).buffer.length < flushThreshold)
    : Step flushThreshold s (.step t) ((s.appendRecord record i shard).setPc t (.wrote record true))
  | full (hpc : s.pc t = .append record i) (hfree : s.mutex i = none) (hshard : s.shards[i]? = some shard)
    : Step flushThreshold s (.step t)
        (((s.appendRecord record i shard).setMutex i (some t)).setPc t (.spill record i))
  | spill (hpc : s.pc t = .spill record i) (hshard : s.shards[i]? = some shard)
    : Step flushThreshold s (.step t)
        (((s.outputShard i shard).setMutex i none).setPc t (.wrote record (shard.output s.output).1))
  | wrote (hpc : s.pc t = .wrote record result)
    : Step flushThreshold s (.step t) (s.returnWrite t record result)
  | take (hpc : s.pc t = .shards (i :: rest) success) (hfree : s.mutex i = none)
    (hshard : s.shards[i]? = some shard)
    : Step flushThreshold s (.step t) ((s.setMutex i (some t)).setPc t (.output i rest success))
  | output (hpc : s.pc t = .output i rest success) (hshard : s.shards[i]? = some shard)
    : Step flushThreshold s (.step t)
        (((s.outputShard i shard).setMutex i none).setPc t
          (.shards rest ((shard.output s.output).1 && success)))

theorem advance_cases {n t : Nat} {s s' : BufferedState} (h : s.advance n t = some s')
    : Step n s (.step t) s' := by
  unfold advance at h
  split at h
  . cases h
  . next record hpc =>
    split at h
    . next i hcache =>
      cases h
      exact .move hpc (.cached hcache)
    . next hcache =>
      cases h
      exact .move hpc (.uncached hcache)
  . next record hpc =>
    split at h
    . next i shards hregister =>
      cases h
      exact .register hpc hregister
    . cases h
  . next record i hpc =>
    split at h
    . next shard hfree hshard =>
      split at h
      . next hlt =>
        cases h
        exact .append hpc hfree hshard hlt
      . cases h
        exact .full hpc hfree hshard
    . cases h
  . next record i hpc =>
    obtain ⟨shard, hshard, rfl⟩ := Option.map_eq_some_iff.mp h
    exact .spill hpc hshard
  . next record result hpc =>
    cases h
    exact .wrote hpc
  . next hpc =>
    cases h
    exact .move hpc .snapshot
  . next success hpc =>
    cases h
    exact .move hpc .finish
  . next i rest success hpc =>
    split at h
    . next shard hfree hshard =>
      split at h
      . next hempty =>
        cases h
        exact .move hpc (.skip hfree hshard (List.isEmpty_iff.mp hempty))
      . cases h
        exact .take hpc hfree hshard
    . cases h
  . next i rest success hpc =>
    obtain ⟨shard, hshard, rfl⟩ := Option.map_eq_some_iff.mp h
    exact .output hpc hshard
  . next result hpc =>
    cases h
    exact .move hpc .flushed

theorem step_cases {n : Nat} {s s' : BufferedState} {event : SinkEvent} (h : s.step n event = some s')
    : Step n s event s' := by
  cases event with
  | write t entry =>
    simp only [step] at h
    split at h
    . next hpc =>
      cases h
      exact .write hpc
    . cases h
  | flush t =>
    simp only [step] at h
    split at h
    . next hpc =>
      cases h
      exact .flush hpc
    . cases h
  | step t => exact advance_cases h
  | switch t =>
    simp only [step] at h
    split at h
    . next hpc =>
      cases h
      exact .switch hpc
    . cases h
  | fail =>
    cases h
    exact .fail
  | clear =>
    cases h
    exact .clear

end BufferedState

end Vosp
