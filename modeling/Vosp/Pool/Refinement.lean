import Vosp.Pool.Claim

/-!
This module contains the abstract queue of a pool and the theorem that every step of the pool is a
step of a bounded first-in first-out queue or does not change it.
-/

namespace Vosp.Pool

variable {cfg : Config} {C : Type} [Fintype C] [DecidableEq C]

namespace State

variable {s s' : State cfg C} {event : Event cfg C}

def fifo (s : State cfg C) (hs : (system cfg C).Reachable s) : Fifo TaskItem cfg.queueCapacity where
  pushed := s.memory.history.accepted
  popped := s.memory.history.removed
  queue := s.memory.history.leaving ++ s.memory.history.queue
  length_le := by
    rw [List.length_append, ← (counted hs).pending_eq]
    exact (counted hs).pending_le
  order := by rw [(ringed hs).order, List.append_assoc]

/--
What the slots, the indices and the word say about the abstract queue between any two steps.
-/
structure QueueOk (s : State cfg C) : Prop where
  slots : Ring.Holds cfg.queueCapacity s.memory.tasks s.memory.queueHead
    (s.memory.history.queue ++ s.memory.history.written)
  occupied : ∀ i, i < cfg.queueCapacity →
    ((s.memory.tasks i).isSome = true ↔
      Ring.dist cfg.queueCapacity s.memory.queueHead i <
        s.memory.history.queue.length + s.memory.history.written.length)
  pending_eq : s.memory.pendingTasks =
    s.memory.history.leaving.length + s.memory.history.queue.length
  bounded : s.memory.history.leaving.length + s.memory.history.queue.length
    + s.memory.history.written.length ≤ cfg.queueCapacity
  written_owned : s.memory.history.written ≠ [] →
    ∃ t, s.memory.owner .producer = some t ∧
      ∃ c j group, s.pc t = .slotWrite c j s.memory.history.written group
  leaving_owned : s.memory.history.leaving ≠ [] → ∃ t, s.memory.owner .consumer = some t
  writes_empty : ∀ t c j written item group,
    s.pc t = .slotWrite c j written (item :: group) → s.memory.tasks s.memory.queueTail = none
  reads_occupied : ∀ t, (s.pc t).looksAtHead = true → (s.memory.tasks s.memory.queueHead).isSome = true
  not_faulted : s.memory.faulted = false

theorem written_owned (hs : (system cfg C).Reachable s) (hne : s.memory.history.written ≠ [])
    : ∃ t, s.memory.owner .producer = some t ∧
        ∃ c j group, s.pc t = .slotWrite c j s.memory.history.written group := by
  have hcounted := counted hs
  cases howner : s.memory.owner .producer with
  | none => exact absurd (hcounted.written_eq howner) hne
  | some t =>
    refine ⟨t, rfl, ?_⟩
    have hholds : (s.pc t).holds .producer = true := (locked hs t .producer).mpr howner
    have hproducing := hcounted.producing t
    cases hpc : s.pc t
    case slotWrite c j written group =>
      rw [hpc] at hproducing
      rw [hproducing.1]
      exact ⟨c, j, group, rfl⟩
    all_goals
      rw [hpc] at hproducing hholds
      exact absurd (hproducing hholds) hne

theorem queueOk (hs : (system cfg C).Reachable s) : s.QueueOk := by
  have hcounted := counted hs
  have hringed := ringed hs
  constructor
  case slots => exact hringed.slots
  case occupied =>
    intro i hi
    rw [hringed.slots.isSome_iff hi, List.length_append]
  case pending_eq => exact hcounted.pending_eq
  case bounded =>
    rw [← hcounted.pending_eq]
    by_cases hwritten : s.memory.history.written = []
    . rw [hwritten]
      exact hcounted.pending_le
    . obtain ⟨t, -, c, j, group, hpc⟩ := written_owned hs hwritten
      have hproducing := hcounted.producing t
      rw [hpc] at hproducing
      have := hproducing.2.1
      omega
  case written_owned => exact written_owned hs
  case leaving_owned =>
    intro hne
    cases howner : s.memory.owner .consumer with
    | none => exact absurd (hcounted.leaving_eq howner) hne
    | some t => exact ⟨t, rfl⟩
  case writes_empty =>
    intro t c j written item group hpc
    have hproducing := hcounted.producing t
    rw [hpc] at hproducing
    obtain ⟨hwritten, hfits, -⟩ := hproducing
    rw [hcounted.pending_eq, List.length_cons] at hfits
    rw [hringed.tail_eq]
    apply hringed.slots.tail_eq_none
    rw [List.length_append, hwritten]
    omega
  case reads_occupied =>
    intro t hlooks
    exact hringed.isSome_head (Pc.queue_pos hlooks (hcounted.claiming t) (hcounted.consuming t))
  case not_faulted => exact hringed.not_faulted

/--
What a step does to the abstract queue, and to the queue that a worker remembers to have loaded.
-/
structure QueueStep (s : State cfg C) (hs : (system cfg C).Reachable s) (event : Event cfg C)
    (s' : State cfg C) (hs' : (system cfg C).Reachable s')
    : Prop where
  fifo : Fifo.Step (s.fifo hs) (s'.fifo hs')
  load : ∀ t choice, event = .step t choice → s.pc t = .consumerLoad →
    s'.memory.history.loaded = (s.fifo hs).queue
  keep : ∀ t, (s.pc t).holds .consumer = true → s.pc t ≠ .consumerLoad →
    s'.memory.history.loaded = s.memory.history.loaded
  publish : ∀ t choice c j written, event = .step t choice → s.pc t = .slotWrite c j written [] →
    ∃ h, s'.fifo hs' = (s.fifo hs).push written h
  claim : ∀ t choice batch, event = .step t choice → s.pc t = .claim batch →
    batch = nextClaim s.memory.history.loaded ∧
      s.memory.history.loaded <+: (s.fifo hs).queue ∧
      s'.fifo hs' = (s.fifo hs).pop batch.length ∧ (s.fifo hs).queue.take batch.length = batch
  cancel : ∀ t choice c caller cancelled, event = .step t choice →
    s.pc t = .cancelPublish c caller cancelled → s'.fifo hs' = (s.fifo hs).pop cancelled ∧
      (s'.fifo hs').queue = []

section

variable {t : Thread cfg C} {choice : Choice cfg C}

theorem step_of_pc {pc : Pc cfg} (h : (system cfg C).step s (.step t choice) = some s') (hpc : s.pc t = pc)
    : ∃ op pc' m', Edge t s.memory pc op pc' ∧ Effect t choice op s.memory m' ∧
        s' = { memory := m', pc := Function.update s.pc t pc' } := by
  have hcases : s.Step (.step t choice) s' := step_cases h
  cases hcases with
  | thread _ _ hedge heffect =>
    rw [hpc] at hedge
    exact ⟨_, _, _, hedge, heffect, rfl⟩

theorem fifo_publish {c : Context} {j : Submission} {written : List TaskItem}
    (hs : (system cfg C).Reachable s) (h : (system cfg C).step s (.step t choice) = some s')
    (hpc : s.pc t = .slotWrite c j written [])
    : ∃ hfits, s'.fifo (hs.next h) = (s.fifo hs).push written hfits := by
  have hproducing := (counted hs).producing t
  rw [hpc] at hproducing
  obtain ⟨hwritten, hfits, -⟩ := hproducing
  rw [(counted hs).pending_eq] at hfits
  refine ⟨?_, ?_⟩
  . simp only [fifo, List.length_append]
    simp only [List.length_nil] at hfits
    omega
  . obtain ⟨op, pc', m', hedge, heffect, rfl⟩ := step_of_pc h hpc
    cases hedge with
    | slotPublish =>
      cases heffect with
      | publish =>
        apply Fifo.ext
        . rfl
        . simp [fifo, Fifo.push, Memory.publish, hwritten]

theorem fifo_claim {batch : List TaskItem} (hs : (system cfg C).Reachable s)
    (h : (system cfg C).step s (.step t choice) = some s') (hpc : s.pc t = .claim batch)
    : s'.fifo (hs.next h) = (s.fifo hs).pop batch.length ∧ (s.fifo hs).queue.take batch.length = batch := by
  have hconsuming := (counted hs).consuming t
  rw [hpc] at hconsuming
  have hleaving : s.memory.history.leaving = batch := hconsuming
  subst hleaving
  refine ⟨?_, by simp [fifo]⟩
  obtain ⟨op, pc', m', hedge, heffect, rfl⟩ := step_of_pc h hpc
  cases hedge with
  | claim =>
    cases heffect with
    | claim =>
      apply Fifo.ext
      . simp [fifo, Fifo.pop, Memory.claim, History.release]
      . simp [fifo, Fifo.pop, Memory.claim, History.release]

theorem fifo_cancel {c : Context} {caller : Caller} {cancelled : Nat}
    (hs : (system cfg C).Reachable s) (h : (system cfg C).step s (.step t choice) = some s')
    (hpc : s.pc t = .cancelPublish c caller cancelled)
    : s'.fifo (hs.next h) = (s.fifo hs).pop cancelled ∧ (s'.fifo (hs.next h)).queue = [] := by
  have hconsuming := (counted hs).consuming t
  rw [hpc] at hconsuming
  obtain ⟨hleaving, hqueue⟩ := hconsuming
  have hqueue := List.eq_nil_of_length_eq_zero hqueue
  obtain ⟨op, pc', m', hedge, heffect, rfl⟩ := step_of_pc h hpc
  cases hedge with
  | cancelPublish =>
    cases heffect with
    | cancelAll =>
      refine ⟨?_, ?_⟩
      . apply Fifo.ext
        . simp [fifo, Fifo.pop, Memory.cancelAll, History.release, ← hleaving]
        . simp [fifo, Fifo.pop, Memory.cancelAll, History.release, ← hleaving, hqueue]
      . simp [fifo, Memory.cancelAll, History.release, hqueue]

end

theorem fifo_step (hs : (system cfg C).Reachable s) (h : (system cfg C).step s event = some s')
    : Fifo.Step (s.fifo hs) (s'.fifo (hs.next h)) := by
  have hstay : s'.memory.history.removed = s.memory.history.removed →
      s'.memory.history.leaving ++ s'.memory.history.queue
        = s.memory.history.leaving ++ s.memory.history.queue →
      Fifo.Step (s.fifo hs) (s'.fifo (hs.next h)) := by
    intro hremoved hqueue
    have heq : s'.fifo (hs.next h) = s.fifo hs := Fifo.ext hremoved hqueue
    rw [heq]
    exact .stay
  -- only the update of the word changes the abstract queue
  cases step_cases h with
  | spurious => exact hstay rfl rfl
  | thread t choice hedge heffect =>
    have hhead : ∀ item, (s.pc t).looksAtHead = true →
        s.memory.tasks s.memory.queueHead = some item →
        item :: s.memory.history.queue.tail = s.memory.history.queue := by
      intro item hlooks hitem
      have hpos := Pc.queue_pos hlooks ((counted hs).claiming t) ((counted hs).consuming t)
      rw [(ringed hs).head_eq hpos] at hitem
      exact List.cons_head?_tail hitem
    generalize hpc : s.pc t = pc at hedge hhead
    cases heffect
    case publish =>
      cases hedge with
      | slotPublish =>
        obtain ⟨hfits, heq⟩ := fifo_publish hs h hpc
        rw [heq]
        exact .push _ _
    case claim =>
      cases hedge with
      | claim =>
        rw [(fifo_claim hs h hpc).1]
        exact .pop _
    case cancelAll =>
      cases hedge with
      | cancelPublish =>
        rw [(fifo_cancel hs h hpc).1]
        exact .pop _
    case vacate item hitem =>
      apply hstay rfl
      have hlooks : pc.looksAtHead = true := by
        cases hedge
        all_goals rfl
      simp [Memory.vacate, hhead item hlooks hitem]
    case cancel item _ hitem hcancel =>
      obtain ⟨_, _, rfl⟩ := Memory.cancel_eq hcancel
      apply hstay rfl
      have hlooks : pc.looksAtHead = true := by
        cases hedge
        all_goals rfl
      simp [Memory.vacate, hhead item hlooks hitem]
    case complete hcomplete =>
      obtain ⟨_, _, rfl⟩ := Memory.complete_eq hcomplete
      exact hstay rfl rfl
    all_goals exact hstay rfl rfl

theorem loaded_step {u : Thread cfg C} (hs : (system cfg C).Reachable s) (h : (system cfg C).step s event = some s')
    (hholds : (s.pc u).holds .consumer = true) (hpc : s.pc u ≠ .consumerLoad)
    : s'.memory.history.loaded = s.memory.history.loaded := by
  cases step_cases h with
  | spurious => rfl
  | thread t choice hedge heffect =>
    by_cases hu : u = t
    . subst hu
      cases heffect
      case load =>
        generalize s.pc u = pc at hedge hpc
        cases hedge
        all_goals exact absurd rfl hpc
      case cancel hcancel =>
        obtain ⟨_, _, rfl⟩ := Memory.cancel_eq hcancel
        rfl
      case complete hcomplete =>
        obtain ⟨_, _, rfl⟩ := Memory.complete_eq hcomplete
        rfl
      all_goals rfl
    . exact heffect.loaded_eq (hedge.not_needs hs hholds hu)

theorem queueStep (hs : (system cfg C).Reachable s) (h : (system cfg C).step s event = some s')
    : s.QueueStep hs event s' (hs.next h) := by
  constructor
  case fifo => exact fifo_step hs h
  case load =>
    rintro t choice rfl hpc
    have hconsuming := (counted hs).consuming t
    rw [hpc] at hconsuming
    have hleaving : s.memory.history.leaving = [] := hconsuming rfl
    obtain ⟨op, pc', m', hedge, heffect, rfl⟩ := step_of_pc h hpc
    cases hedge
    all_goals
      cases heffect
      simp [fifo, Memory.load, hleaving]
  case keep => exact fun t hholds hpc => loaded_step hs h hholds hpc
  case publish =>
    rintro t choice c j written rfl hpc
    exact fifo_publish hs h hpc
  case claim =>
    rintro t choice batch rfl hpc
    obtain ⟨hpop, htake⟩ := fifo_claim hs h hpc
    have hloading := loading hs t
    rw [hpc] at hloading
    obtain ⟨hbatch, rest, hrest, hfront⟩ := hloading
    refine ⟨hbatch.symm, ?_, hpop, htake⟩
    have hconsuming := (counted hs).consuming t
    rw [hpc] at hconsuming
    have hleaving : s.memory.history.leaving = batch := hconsuming
    show s.memory.history.loaded <+: s.memory.history.leaving ++ s.memory.history.queue
    rw [hrest, hleaving]
    exact (List.prefix_append_right_inj batch).mpr hfront
  case cancel =>
    rintro t choice c caller cancelled rfl hpc
    exact fifo_cancel hs h hpc

end State

theorem queue_refines_fifo {s : State cfg C} (hs : (system cfg C).Reachable s)
    : s.QueueOk ∧ ∀ event s' (h : (system cfg C).step s event = some s'), s.QueueStep hs event s' (hs.next h) :=
  ⟨State.queueOk hs, fun _ _ h => State.queueStep hs h⟩

theorem queue_refines_fifo_tiny
    : ∃ s : State tinyConfig Unit, (system tinyConfig Unit).Reachable s ∧ s.memory.pendingTasks = 1 ∧
        s.QueueOk := by
  have hrun : ((system tinyConfig Unit).run State.init (tinyRun.take 9)).map
      (fun s => s.memory.pendingTasks == 1) = some true := by
    decide +kernel
  obtain ⟨s, hs, hpending⟩ := System.exists_of_run _ hrun
  exact ⟨s, hs, by simpa using hpending, (queue_refines_fifo hs).1⟩

end Vosp.Pool
