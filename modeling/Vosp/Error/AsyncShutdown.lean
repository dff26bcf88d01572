import Vosp.Error.AsyncRefinement
import Vosp.Pool.Shutdown

/-!
This module says what a shutdown of its pool leaves of an asynchronous `ErrorSystem`: every operation that the pool
has accepted has a result, no mutex of a register is held and no register changes any more. Before that, operations
take effect in the order of real time, in which an operation ends when its future is ready.
-/

namespace Vosp

open Pool (Config Thread Choice Outcome TaskItem Memory Pc)

namespace Pool

variable {cfg : Config} {C : Type} [Fintype C] [DecidableEq C] {s s' : State cfg C} {item : TaskItem}

def State.Known (s : State cfg C) (item : TaskItem) : Prop :=
  item ∈ s.memory.history.accepted ++ s.memory.history.written ∨ ∃ t, item ∈ (s.pc t).unsent

namespace State

theorem lt_nextId_of_known (hs : (system cfg C).Reachable s) (h : s.Known item)
    : item.id < s.memory.history.nextId := by
  rw [← Nat.not_le]
  intro hle
  have hzero := (fresh hs item.id).2 hle
  rw [sent, Nat.add_eq_zero_iff, Finset.sum_eq_zero_iff] at hzero
  rcases h with hsent | ⟨t, hunsent⟩
  . have hcount : 0 < idCount item.id (s.memory.history.accepted ++ s.memory.history.written) :=
      List.count_pos_iff.mpr (List.mem_map.mpr ⟨item, hsent, rfl⟩)
    omega
  . have hcount : 0 < idCount item.id (s.pc t).unsent :=
      List.count_pos_iff.mpr (List.mem_map.mpr ⟨item, hunsent, rfl⟩)
    have hnone := hzero.2 t (Finset.mem_univ t)
    omega

theorem known_step (hs : (system cfg C).Reachable s) {event : Event cfg C}
    (hstep : (system cfg C).step s event = some s') (h : s'.Known item)
    : s.Known item ∨ ∃ t request, event = .step t (.call request) ∧
        item ∈ request.items s.memory.history.nextId := by
  cases step_cases hstep with
  | spurious => exact .inl h
  | @thread t choice op pc' m' hedge heffect =>
    have hbefore : item ∈ m'.history.accepted ++ m'.history.written ∨ (∃ u, item ∈ (s.pc u).unsent) ∨
        item ∈ pc'.unsent := by
      rcases h with hsent | ⟨u, hunsent⟩
      . exact .inl hsent
      . by_cases hut : u = t
        . subst hut
          dsimp only at hunsent
          rw [Function.update_self] at hunsent
          exact .inr (.inr hunsent)
        . dsimp only at hunsent
          rw [Function.update_of_ne hut] at hunsent
          exact .inr (.inl ⟨u, hunsent⟩)
    by_cases hcall : ∃ request, op = .call request
    . obtain ⟨request, rfl⟩ := hcall
      obtain ⟨-, hitems⟩ := hedge.unsent_call
      cases heffect with
      | call =>
        rcases hbefore with hsent | hunsent | hnew
        . exact .inl (.inl hsent)
        . exact .inl (.inr hunsent)
        . rcases hitems with hitems | hnone
          . rw [hitems] at hnew
            exact .inr ⟨t, request, rfl, hnew⟩
          . rw [hnone] at hnew
            cases hnew
    . left
      simp only [not_exists] at hcall
      by_cases hemplace : ∃ other, op = .emplace other
      . obtain ⟨other, rfl⟩ := hemplace
        have hunsent := hedge.unsent_emplace ((counted hs).submitting t)
        cases heffect with
        | emplace =>
          rcases hbefore with hsent | hold | hnew
          . simp only [Memory.emplace, ← List.append_assoc] at hsent
            rcases List.mem_append.mp hsent with hold | hother
            . exact .inl hold
            . rw [List.mem_singleton.mp hother]
              exact .inr ⟨t, hunsent ▸ List.mem_cons_self⟩
          . exact .inr hold
          . exact .inr ⟨t, hunsent ▸ List.mem_cons_of_mem _ hnew⟩
      . simp only [not_exists] at hemplace
        rw [heffect.sent_eq hemplace] at hbefore
        rcases hbefore with hsent | hold | hnew
        . exact .inl hsent
        . exact .inr hold
        . rcases hedge.unsent_eq hcall hemplace with hsame | hnone
          . exact .inr ⟨t, hsame ▸ hnew⟩
          . rw [hnone] at hnew
            cases hnew

theorem cancelled_mono {event : Event cfg C} (h : s.step event = some s')
    (hcancelled : item ∈ s.memory.history.cancelled)
    : item ∈ s'.memory.history.cancelled := by
  cases step_cases h with
  | spurious => exact hcancelled
  | thread t choice hedge heffect =>
    cases heffect
    case cancel hcancel =>
      obtain ⟨_, _, rfl⟩ := Memory.cancel_eq hcancel
      exact List.mem_append_left _ hcancelled
    case complete hcomplete =>
      obtain ⟨_, _, rfl⟩ := Memory.complete_eq hcomplete
      exact hcancelled
    all_goals exact hcancelled

end State

end Pool

namespace AsyncState

variable {cfg : Config} {C ι ρ : Type} [Fintype C] [DecidableEq C] [DecidableEq ι] [IRegister ρ]
  {handler : Handler ι} {store : ι → ρ} {s s' : AsyncState cfg C ι ρ} {event : AsyncEvent cfg C}

def Tracked (s : AsyncState cfg C ι ρ) : Prop :=
  ∀ item, s.pool.Known item → (s.closure item.id).isSome = true → item.tracked = true

theorem Tracked.pool_step (h : s.Tracked) (hv : s.Valid handler store) {event : Pool.Event cfg C}
    {p : Pool.State cfg C} (hpool : s.pool.step event = some p)
    : Tracked { s with pool := p } := by
  intro item hknown hclosure
  rcases Pool.State.known_step hv.pool hpool hknown with hold | ⟨t, request, -, hitem⟩
  . exact h item hold hclosure
  . have hid := Pool.idCount_items request s.pool.memory.history.nextId item.id
    have hcount : 0 < Pool.idCount item.id (request.items s.pool.memory.history.nextId) :=
      List.count_pos_iff.mpr (List.mem_map.mpr ⟨item, hitem, rfl⟩)
    split at hid
    . next hrange =>
      dsimp only at hclosure
      rw [hv.fresh item.id hrange.1] at hclosure
      cases hclosure
    . omega

theorem Tracked.invoke (h : s.Tracked) (hv : s.Valid handler store) {t : Thread cfg C} {command : Command}
    {p : Pool.State cfg C} (hpool : s.pool.step (.step t (.call .submit)) = some p)
    : Tracked { s with
        pool := p
        closure := Function.update s.closure s.pool.memory.history.nextId (some command) } := by
  intro item hknown hclosure
  have hsystem : (Pool.system cfg C).step s.pool (.step t (.call .submit)) = some p := hpool
  rcases Pool.State.known_step hv.pool hsystem hknown with hold | ⟨t', request, hevent, hitem⟩
  . have hne := (Pool.State.lt_nextId_of_known hv.pool hold).ne
    dsimp only at hclosure
    rw [Function.update_of_ne hne] at hclosure
    exact h item hold hclosure
  . cases hevent
    rw [List.mem_singleton.mp hitem]

theorem tracked (hs : (asyncSystem cfg C handler store).Reachable s) : s.Tracked := by
  apply System.ReachableVia.invariant _ _ hs
  . rintro item (hsent | ⟨t, hunsent⟩) hclosure
    . cases hsent
    . cases hclosure
  . intro s event s' hs h _ hstep
    have hv := valid hs
    cases step_cases hstep with
    | invoke hfree hpool => exact h.invoke hv hpool
    | pool hfree hpool => exact h.pool_step hv hpool
    | ret hcurrent hbody hpool => exact h.pool_step hv hpool
    | missing | skip | route | lock | read | write | unlock => exact h

omit [Fintype C] [DecidableEq C] [DecidableEq ι] [IRegister ρ] in
theorem current_eq_none {worker : Fin cfg.workerCount} (h : (s.pool.pc (.worker worker)).bodyFrame = none)
    : s.current worker = none := by
  rw [current_eq, h]
  rfl

theorem mutexes_eq_none (hv : s.Valid handler store) (hnone : ∀ worker, s.current worker = none) (index : Nat)
    : s.mutexes index = none := by
  cases howner : s.mutexes index with
  | none => rfl
  | some worker =>
    have hholds : (s.body worker).holds index = true := (hv.owned worker index).mpr howner
    rw [hv.idle worker (hnone worker)] at hholds
    cases hholds

theorem ready_of_settled (hs : (asyncSystem cfg C handler store).Reachable s) {item : TaskItem}
    (hitem : item ∈ s.pool.memory.history.accepted) (hclosure : (s.closure item.id).isSome = true)
    (hsettled : s.pool.At item .executed ∨ s.pool.At item .cancelled)
    : ∃ outcome, s.pool.memory.promise item.id = some outcome := by
  have htracked := tracked hs item (.inl (List.mem_append_left _ hitem)) hclosure
  have hpromise := (Pool.State.settled (valid hs).pool).promise item hitem htracked
  rcases hsettled with hexecuted | hcancelled
  . obtain ⟨⟨other, outcome⟩, hmem, rfl⟩ := List.mem_map.mp hexecuted
    exact ⟨outcome, (hpromise outcome).mpr (.inl hmem)⟩
  . exact ⟨_, (hpromise _).mpr (.inr ⟨hcancelled, rfl⟩)⟩

def Final (store : ι → ρ) (order : List Applied) (s : AsyncState cfg C ι ρ) : Prop :=
  (∀ worker, s.pool.memory.exited (.worker worker) = true) ∧ s.store = store ∧ s.order = order

theorem Final.step {store' : ι → ρ} {order : List Applied} (h : s.Final store' order)
    (hs : (asyncSystem cfg C handler store).Reachable s) (hstep : s.step handler event = some s')
    : s'.Final store' order := by
  obtain ⟨hexited, hstore, horder⟩ := h
  have hv := valid hs
  have hnone : ∀ worker f command, s.current worker ≠ some (f, command) := by
    intro worker f command hcurrent
    rw [current_eq_none (by rw [Pool.State.pc_of_exited hv.pool _ (hexited worker)]; rfl)] at hcurrent
    cases hcurrent
  have hkeeps : ∀ {event p}, s.pool.step event = some p → ∀ worker, p.memory.exited (.worker worker) = true := by
    intro event p hpool worker
    cases Pool.State.step_cases hpool with
    | spurious => exact hexited worker
    | thread t choice hedge heffect => exact heffect.exited_mono (hexited worker)
  cases step_cases hstep with
  | invoke hfree hpool => exact ⟨hkeeps hpool, hstore, horder⟩
  | pool hfree hpool => exact ⟨hkeeps hpool, hstore, horder⟩
  | missing hcurrent | skip hcurrent | route hcurrent | lock hcurrent | read hcurrent | write hcurrent
  | unlock hcurrent | ret hcurrent =>
    exact absurd hcurrent (hnone _ _ _)

structure Later (s s' : AsyncState cfg C ι ρ) : Prop where
  order : s.order <+: s'.order
  nextId : s.pool.memory.history.nextId ≤ s'.pool.memory.history.nextId
  closure : ∀ id < s.pool.memory.history.nextId, s'.closure id = s.closure id
  cancelled : ∀ item ∈ s.pool.memory.history.cancelled, item ∈ s'.pool.memory.history.cancelled

namespace Later

variable {s₀ : AsyncState cfg C ι ρ}

omit [Fintype C] [DecidableEq C] [DecidableEq ι] [IRegister ρ] in
theorem refl (s : AsyncState cfg C ι ρ) : s.Later s where
  order := List.prefix_rfl
  nextId := Nat.le_refl _
  closure _ _ := rfl
  cancelled _ h := h

omit [DecidableEq ι] [IRegister ρ] in
theorem pool_step (h : s₀.Later s) {event : Pool.Event cfg C} {p : Pool.State cfg C}
    (hpool : s.pool.step event = some p) {body : Fin cfg.workerCount → Body ι ρ} {closure : Nat → Option Command}
    (hclosure : ∀ id < s.pool.memory.history.nextId, closure id = s.closure id)
    : s₀.Later { s with pool := p, body := body, closure := closure } where
  order := h.order
  nextId := h.nextId.trans (Pool.State.nextId_le hpool)
  closure id hid := (hclosure id (hid.trans_le h.nextId)).trans (h.closure id hid)
  cancelled item hitem := Pool.State.cancelled_mono hpool (h.cancelled item hitem)

theorem step (h : s₀.Later s) (hstep : s.step handler event = some s') : s₀.Later s' := by
  cases step_cases hstep with
  | invoke hfree hpool =>
    apply h.pool_step hpool
    intro id hid
    exact Function.update_of_ne hid.ne _ _
  | pool hfree hpool | ret hcurrent hbody hpool => exact h.pool_step hpool (fun _ _ => rfl)
  | missing | write => exact ⟨h.order.trans (List.prefix_append _ _), h.nextId, h.closure, h.cancelled⟩
  | skip | route | lock | read | unlock => exact ⟨h.order, h.nextId, h.closure, h.cancelled⟩

end Later

theorem mem_order_of_ready (hv : s.Valid handler store) (hv' : s'.Valid handler store) (hlater : s.Later s')
    {entry : Applied} (hentry : entry ∈ s'.order) (hready : (s.pool.memory.promise entry.id).isSome = true)
    : ∃ result, ⟨entry.id, entry.command, result⟩ ∈ s.order := by
  obtain ⟨outcome, hpromise⟩ := Option.isSome_iff_exists.mp hready
  obtain ⟨item, hid, -, hsettled⟩ := ((Pool.State.accounted hv.pool).promise _ _).mp hpromise
  rcases hsettled with hexecuted | ⟨hcancelled, -⟩
  . have hat : s.pool.At item .executed := List.mem_map.mpr ⟨_, hexecuted, rfl⟩
    have hlt := Pool.State.lt_nextId_of_accepted hv.pool (Pool.State.mem_accepted hv.pool hat)
    have hclosure : s.closure entry.id = some entry.command := by
      rw [← hlater.closure _ (hid ▸ hlt)]
      exact (hv'.done entry hentry).1
    obtain ⟨result, -, hmem⟩ := hv.applied _ _ _ hclosure (.inl ⟨item, hid, hexecuted⟩)
    exact ⟨result, hmem⟩
  . exact absurd hid.symm (ne_of_cancelled hv' (hlater.cancelled item hcancelled) hentry)

theorem future_of_settled (hs : (asyncSystem cfg C handler store).Reachable s) {item : TaskItem}
    (hitem : item ∈ s.pool.memory.history.accepted) {command : Command} (hclosure : s.closure item.id = some command)
    (hsettled : s.pool.At item .executed ∨ s.pool.At item .cancelled)
    : (∃ result, s.pool.memory.promise item.id = some (.result result) ∧ ⟨item.id, command, result⟩ ∈ s.order) ∨
        s.pool.memory.promise item.id = some (.result (.error Pool.taskCancelledError)) ∧
          ∀ entry ∈ s.order, entry.id ≠ item.id := by
  obtain ⟨outcome, houtcome⟩ := ready_of_settled hs hitem (by rw [hclosure]; rfl) hsettled
  rcases future_cases (valid hs) hclosure houtcome with ⟨result, rfl, hmem⟩ | ⟨rfl, hnone⟩
  . exact .inl ⟨result, houtcome, hmem⟩
  . exact .inr ⟨houtcome, hnone⟩

theorem order_perm_of_idle (hv : s.Valid handler store) (hidle : s.pool.Idle)
    : (s.order.map Applied.id).Perm
        ((s.uncancelled.filter fun item => (s.closure item.id).isSome).map fun item => item.id) := by
  rw [List.perm_ext_iff_of_nodup hv.once]
  . exact mem_order_iff hv hidle
  . exact (List.Sublist.map _ (List.filter_sublist.trans List.filter_sublist)).nodup
      (Pool.State.accepted_nodup hv.pool)

/--
What is left when a shutdown of the pool has returned.
-/
structure ShutDown (handler : Handler ι) (store : ι → ρ) (s : AsyncState cfg C ι ρ) : Prop where
  futures : ∀ item ∈ s.pool.memory.history.accepted, ∀ command, s.closure item.id = some command →
    (∃ result, s.pool.memory.promise item.id = some (.result result) ∧ ⟨item.id, command, result⟩ ∈ s.order) ∨
      s.pool.memory.promise item.id = some (.result (.error Pool.taskCancelledError)) ∧
        ∀ entry ∈ s.order, entry.id ≠ item.id
  order : (s.order.map Applied.id).Perm
    ((s.uncancelled.filter fun item => (s.closure item.id).isSome).map fun item => item.id)
  replay : handler.run store (s.order.map Applied.command) = (s.order.map Applied.result, s.store)
  mutexes : ∀ index, s.mutexes index = none
  final : ∀ events s', (asyncSystem cfg C handler store).run s events = some s' →
    s'.store = s.store ∧ s'.order = s.order

end AsyncState

theorem async_system_shut_down {cfg : Config} {C ι ρ : Type} [Fintype C] [DecidableEq C] [DecidableEq ι]
    [IRegister ρ] {handler : Handler ι} {store : ι → ρ} {s : AsyncState cfg C ι ρ}
    (hs : (asyncSystem cfg C handler store).Reachable s) {t : Thread cfg C}
    (hshutDown : (s.pool.pc t).shutDown = true)
    : s.ShutDown handler store := by
  have hv := AsyncState.valid hs
  have hexited := Pool.State.exited_of_shutDown hv.pool t hshutDown
  have hfinished := Pool.State.finished hv.pool hexited
  constructor
  case futures =>
    intro item hitem command hclosure
    exact AsyncState.future_of_settled hs hitem hclosure (hfinished.settled item hitem)
  case order => exact AsyncState.order_perm_of_idle hv hfinished.idle
  case replay => exact hv.replay
  case mutexes =>
    apply AsyncState.mutexes_eq_none hv
    intro worker
    exact AsyncState.current_eq_none (by rw [hfinished.exited worker]; rfl)
  case final =>
    intro events s' hrun
    have hfinal := hs.run_invariant (I := AsyncState.Final s.store s.order)
      (fun _ _ _ hs₁ h hstep => h.step hs₁ hstep) ⟨hexited, rfl, rfl⟩ events hrun
    exact hfinal.2

theorem async_system_shut_down_tiny
    : ∃ s : AsyncState Pool.tinyConfig Unit Unit ((category : Category) × Register category),
        s.order.length = 1 ∧ (s.store ()).2.size = 1 ∧ s.ShutDown ⟨[()]⟩ tinyStore := by
  let worker : Thread Pool.tinyConfig Unit := .worker (0 : Fin 1)
  let shutdown : List (Pool.Event Pool.tinyConfig Unit) :=
    .step (.client ()) (.call (.shutdown .drain)) :: Pool.Event.goes (.client ()) 9 ++
      Pool.Event.goes worker 2 ++ Pool.Event.goes (.client ()) 2
  have hrun : ((asyncSystem Pool.tinyConfig Unit ⟨[()]⟩ tinyStore).run (.init tinyStore)
      (tinyOperation ⟨.add, ⟨.network, 1000, ascii "Network error"⟩⟩ ++ shutdown.map .pool)).map
      (fun s => (s.pool.pc (.client ())).shutDown && decide (s.order.length = 1) &&
        decide ((s.store ()).2.size = 1)) = some true := by
    decide +kernel
  obtain ⟨s, hs, hp⟩ := System.exists_of_run _ hrun
  simp only [Bool.and_eq_true, decide_eq_true_eq] at hp
  exact ⟨s, hp.1.2, hp.2, async_system_shut_down hs hp.1.1⟩

theorem async_system_real_time {cfg : Config} {C ι ρ : Type} [Fintype C] [DecidableEq C] [DecidableEq ι]
    [IRegister ρ] {handler : Handler ι} {store : ι → ρ} {s s' : AsyncState cfg C ι ρ}
    (hs : (asyncSystem cfg C handler store).Reachable s) {events : List (AsyncEvent cfg C)}
    (hrun : (asyncSystem cfg C handler store).run s events = some s') {i j : Nat} {a b : Applied}
    (ha : s'.order[i]? = some a) (hb : s'.order[j]? = some b)
    (hready : (s.pool.memory.promise a.id).isSome = true) (hafter : s.pool.memory.history.nextId ≤ b.id)
    : i < j := by
  have hv := AsyncState.valid hs
  have hv' := AsyncState.valid (hs.run events hrun)
  have hlater : s.Later s' := hs.run_invariant (fun _ _ _ _ h hstep => h.step hstep) (.refl s) events hrun
  have hold : ∀ k < s.order.length, s'.order[k]? = s.order[k]? := by
    intro k hk
    rw [List.getElem?_eq_getElem hk]
    exact List.prefix_iff_getElem?.mp hlater.order k hk
  -- The first operation is in the part of the order that was there before the second call.
  have hi : i < s.order.length := by
    obtain ⟨result, hmem⟩ := AsyncState.mem_order_of_ready hv hv' hlater (List.mem_of_getElem? ha) hready
    obtain ⟨k, hk⟩ := List.mem_iff_getElem?.mp hmem
    have hlt := (List.getElem?_eq_some_iff.mp hk).1
    have hki : k = i := by
      have hlength : k < (s'.order.map Applied.id).length := by
        rw [List.length_map]
        exact hlt.trans_le hlater.order.length_le
      rw [← List.getElem?_inj hlength hv'.once, List.getElem?_map, List.getElem?_map, hold k hlt, hk, ha]
      rfl
    exact hki ▸ hlt
  have hj : s.order.length ≤ j := by
    rw [← Nat.not_lt]
    intro hlt
    rw [hold j hlt] at hb
    have hlt := AsyncState.lt_nextId_of_done hv.pool (hv.done b (List.mem_of_getElem? hb)).2
    omega
  omega

theorem async_system_real_time_pair
    : ∃ s s' : AsyncState Pool.tinyConfig Unit Unit ((category : Category) × Register category),
        (s.store ()).2.size = 1 ∧ (s'.store ()).2.size = 0 ∧
          ∃ (i j : Nat) (a b : Applied), s'.order[i]? = some a ∧ s'.order[j]? = some b ∧
            a.command.operation = .add ∧ b.command.operation = .remove ∧ i < j := by
  let M := asyncSystem Pool.tinyConfig Unit ⟨[()]⟩ tinyStore
  let e : Error := ⟨.network, 1000, ascii "Network error"⟩
  have hrun : ((M.run M.init (tinyOperation ⟨.add, e⟩)).bind fun s =>
      (M.run s (tinyOperation ⟨.remove, e⟩)).map fun s' =>
        decide ((s.store ()).2.size = 1) && decide ((s'.store ()).2.size = 0) &&
        s'.order[0]?.any (fun a => decide (a.command.operation = .add) && (s.pool.memory.promise a.id).isSome) &&
        s'.order[1]?.any (fun b => decide (b.command.operation = .remove) &&
          decide (s.pool.memory.history.nextId ≤ b.id))) = some true := by
    decide +kernel
  obtain ⟨s, hs, hrun⟩ := Option.bind_eq_some_iff.mp hrun
  obtain ⟨s', hs', hp⟩ := Option.map_eq_some_iff.mp hrun
  simp only [Bool.and_eq_true, decide_eq_true_eq, Option.any_eq_true] at hp
  obtain ⟨⟨⟨hone, hzero⟩, a, ha, hadd, hready⟩, b, hb, hremove, hafter⟩ := hp
  have hreachable : M.Reachable s := System.Reachable.run .init _ hs
  have hlt := async_system_real_time hreachable hs' ha hb hready hafter
  exact ⟨s, s', hone, hzero, 0, 1, a, b, ha, hb, hadd, hremove, hlt⟩

end Vosp
