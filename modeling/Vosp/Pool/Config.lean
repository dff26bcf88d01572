import Vosp.Error.Basic
import Vosp.Lib.PackedWord
import Vosp.Lib.Ring

/-!
This module contains the constants of the worker pool, the limits that its constructor checks and
the layout of the word `queue_state_`. A `Config` is what a successful construction fixes, `digits`
is the width of `std::size_t` on the platform.
-/

namespace Vosp.Pool

def maxWorkerCount : Nat := 1024

def maxQueueCapacity : Nat := 1024

def countBits : Nat := 11

def bulkClaimSize : Nat := 16

structure Config where
  digits : Nat
  workerCount : Nat
  queueCapacity : Nat
  le_digits : 32 ≤ digits
  workerCount_pos : 0 < workerCount
  workerCount_le : workerCount ≤ maxWorkerCount
  queueCapacity_pos : 0 < queueCapacity
  queueCapacity_le : queueCapacity ≤ maxQueueCapacity

def validateQueueCapacity (capacity : Nat)
    : Except InvalidArgument { c : Nat // 0 < c ∧ c ≤ maxQueueCapacity } :=
  if h : capacity = 0 ∨ maxQueueCapacity < capacity then
    .error ⟨"Worker pool queue capacity must be in [1, 1024]"⟩
  else
    .ok ⟨capacity, by omega⟩

def Config.create (digits : { d : Nat // 32 ≤ d }) (hardwareConcurrency workerCount queueCapacity : Nat)
    : Except InvalidArgument Config := do
  let capacity ← validateQueueCapacity queueCapacity
  let count := if workerCount = 0 then hardwareConcurrency else workerCount
  if h : count = 0 ∨ maxWorkerCount < count then
    .error ⟨"Worker pool worker count must be in [1, 1024]"⟩
  else
    .ok
      {
        digits := digits
        workerCount := count
        queueCapacity := capacity
        le_digits := digits.property
        workerCount_pos := by omega
        workerCount_le := by omega
        queueCapacity_pos := capacity.property.1
        queueCapacity_le := capacity.property.2
      }

def Config.word64 (workerCount queueCapacity : Nat)
    (hworkers : 0 < workerCount ∧ workerCount ≤ maxWorkerCount)
    (hcapacity : 0 < queueCapacity ∧ queueCapacity ≤ maxQueueCapacity)
    : Config where
  digits := 64
  workerCount := workerCount
  queueCapacity := queueCapacity
  le_digits := by decide
  workerCount_pos := hworkers.1
  workerCount_le := hworkers.2
  queueCapacity_pos := hcapacity.1
  queueCapacity_le := hcapacity.2

abbrev Word (cfg : Config) := BitVec cfg.digits

variable {cfg : Config}

def stoppingMask (cfg : Config) : Word cfg := PackedWord.topMask cfg.digits

def pendingMask (cfg : Config) : Word cfg := PackedWord.lowMask countBits cfg.digits

def activeUnit (cfg : Config) : Word cfg := PackedWord.unit countBits cfg.digits

def activeMask (cfg : Config) : Word cfg := PackedWord.midMask countBits cfg.digits

def pendingFromState (state : Word cfg) : Nat := (state &&& pendingMask cfg).toNat

def isStoppingState (state : Word cfg) : Bool := state &&& stoppingMask cfg != BitVec.ofNat cfg.digits 0

def activeFromState (state : Word cfg) : Nat := ((state &&& activeMask cfg) >>> countBits).toNat

/-!
The updates of the word. They are irreducible: no proof but those of their counts looks inside.
-/

@[irreducible]
def publishState (state : Word cfg) (count : Nat) : Word cfg := state + BitVec.ofNat cfg.digits count

@[irreducible]
def claimState (state : Word cfg) (count : Nat) : Word cfg :=
  state + BitVec.ofNat cfg.digits count * (activeUnit cfg - 1)

@[irreducible]
def cancelState (state : Word cfg) (count : Nat) : Word cfg := state - BitVec.ofNat cfg.digits count

@[irreducible]
def finishState (state : Word cfg) (count : Nat) : Word cfg :=
  state - BitVec.ofNat cfg.digits count * activeUnit cfg

@[irreducible]
def stopState (state : Word cfg) : Word cfg := state ||| stoppingMask cfg

def nextQueueIndex (cfg : Config) (index : Nat) : Nat := Ring.next cfg.queueCapacity index

def isFull (state : Word cfg) : Bool :=
  !isStoppingState state && pendingFromState state == cfg.queueCapacity

def isEmpty (state : Word cfg) : Bool :=
  pendingFromState state == 0 && !isStoppingState state

def isIdle (state : Word cfg) : Bool :=
  pendingFromState state == 0 && activeFromState state == 0

abbrev Counts (state : Word cfg) (pending active : Nat) (stopping : Bool) : Prop :=
  PackedWord.Packs countBits state pending active stopping

theorem counts_fit {pending active : Nat} (hp : pending < 2 ^ countBits)
    (ha : active ≤ maxWorkerCount * bulkClaimSize)
    : pending + 2 ^ countBits * active < 2 ^ (cfg.digits - 1) := by
  have hpow : 2 ^ 31 ≤ 2 ^ (cfg.digits - 1) := by
    apply Nat.pow_le_pow_right
    . omega
    . have := cfg.le_digits
      omega
  simp only [countBits, maxWorkerCount, bulkClaimSize] at *
  omega

namespace Counts

theorem zero : Counts (BitVec.ofNat cfg.digits 0) 0 0 false :=
  ⟨by decide, Nat.two_pow_pos _, rfl⟩

variable {state : Word cfg} {pending active : Nat} {stopping : Bool}

theorem pending_eq (h : Counts state pending active stopping) : pendingFromState state = pending := by
  have := cfg.le_digits
  apply h.low_eq
  simp only [countBits]
  omega

theorem active_eq (h : Counts state pending active stopping)
    : activeFromState state = active % 2048 := by
  have := cfg.le_digits
  apply h.mid_eq
  . simp only [countBits]
    omega
  . simp [countBits]

theorem stopping_eq (h : Counts state pending active stopping) : isStoppingState state = stopping := by
  have := cfg.le_digits
  apply h.top_eq
  omega

theorem publish (h : Counts state pending active stopping) {n : Nat}
    (hpending : pending + n < 2 ^ countBits) (hactive : active ≤ maxWorkerCount * bulkClaimSize)
    : Counts (publishState state n) (pending + n) active stopping := by
  unfold publishState
  exact h.add_low hpending (counts_fit hpending hactive)

theorem claim (h : Counts state pending active stopping) {n : Nat} (hn : n ≤ pending)
    (hactive : active + n ≤ maxWorkerCount * bulkClaimSize)
    : Counts (claimState state n) (pending - n) (active + n) stopping := by
  have hlt := h.lo_lt
  unfold claimState
  apply h.move hn
  apply counts_fit _ hactive
  omega

theorem cancel (h : Counts state pending active stopping) {n : Nat} (hn : n ≤ pending)
    : Counts (cancelState state n) (pending - n) active stopping := by
  unfold cancelState
  exact h.sub_low hn

theorem finish (h : Counts state pending active stopping) {n : Nat} (hn : n ≤ active)
    : Counts (finishState state n) pending (active - n) stopping := by
  unfold finishState
  exact h.sub_mid hn

theorem stop (h : Counts state pending active stopping) : Counts (stopState state) pending active true := by
  have := cfg.le_digits
  unfold stopState
  apply h.set_top
  omega

end Counts

end Vosp.Pool
