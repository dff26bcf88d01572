import Vosp.Error.Handler

/-!
This module contains the proof that routing isolates categories: a register that is the first one of
its category behaves as if it were alone with the operations of its category, whatever else is routed
in between, and every other register is left as it is.
-/

namespace Vosp

variable {ι ρ : Type} [IRegister ρ]

def commandsOf (category : Category) (commands : List Command) : List Command :=
  commands.filter fun command => command.category = category

def resultsOf (category : Category) (commands : List Command) (results : List OperationResult)
    : List OperationResult :=
  ((commands.zip results).filter fun entry => entry.1.category = category).map fun entry => entry.2

section

variable {category : Category} {command : Command} {commands : List Command}

theorem commandsOf_cons_self (h : command.category = category)
    : commandsOf category (command :: commands) = command :: commandsOf category commands :=
  List.filter_cons_of_pos (by simpa using h)

theorem commandsOf_cons_of_ne (h : command.category ≠ category)
    : commandsOf category (command :: commands) = commandsOf category commands :=
  List.filter_cons_of_neg (by simpa using h)

variable {result : OperationResult} {results : List OperationResult}

theorem resultsOf_cons_self (h : command.category = category)
    : resultsOf category (command :: commands) (result :: results) =
        result :: resultsOf category commands results := by
  unfold resultsOf
  rw [List.zip_cons_cons, List.filter_cons_of_pos (by simpa using h), List.map_cons]

theorem resultsOf_cons_of_ne (h : command.category ≠ category)
    : resultsOf category (command :: commands) (result :: results) = resultsOf category commands results := by
  unfold resultsOf
  rw [List.zip_cons_cons, List.filter_cons_of_neg (by simpa using h)]

end

namespace Handler

variable [DecidableEq ι] {handler : Handler ι} {store : ι → ρ} {category : Category} {command : Command}
  {i : ι}

/--
The register that receives the operations of a category.
-/
def route (handler : Handler ι) (store : ι → ρ) (category : Category) : Option ι :=
  handler.registers.find? fun i => IRegister.category (store i) = category

theorem call_eq_dispatch : handler.call store command = handler.dispatch store command := by
  cases command with
  | mk operation error => cases operation <;> rfl

theorem call_of_route (h : handler.route store command.category = some i)
    : handler.call store command =
        ((IRegister.invoke (store i) command).1,
          Function.update store i (IRegister.invoke (store i) command).2) := by
  rw [call_eq_dispatch, dispatch]
  unfold route at h
  generalize handler.registers = registers at h
  induction registers with
  | nil => cases h
  | cons j registers ih =>
    rw [dispatchFrom]
    by_cases hj : IRegister.category (store j) = command.category
    . rw [List.find?_cons_of_pos (by simpa using hj)] at h
      cases h
      rw [if_neg (Decidable.not_not.mpr hj)]
    . rw [List.find?_cons_of_neg (by simpa using hj)] at h
      rw [if_pos hj]
      exact ih h

theorem call_of_route_eq_none (h : handler.route store command.category = none)
    : handler.call store command = (.error (missingRegister command.category), store) := by
  rw [call_eq_dispatch, dispatch]
  unfold route at h
  generalize handler.registers = registers at h
  induction registers with
  | nil => rfl
  | cons j registers ih =>
    rw [List.find?_eq_none] at h
    have hj : IRegister.category (store j) ≠ command.category := by
      simpa using h j List.mem_cons_self
    rw [dispatchFrom, if_pos hj]
    apply ih
    rw [List.find?_eq_none]
    intro k hk
    exact h k (List.mem_cons_of_mem _ hk)

omit [DecidableEq ι] in
theorem category_of_route (h : handler.route store category = some i)
    : IRegister.category (store i) = category := by
  have hfound := List.find?_some h
  simpa using hfound

theorem category_call (j : ι)
    : IRegister.category ((handler.call store command).2 j) = IRegister.category (store j) := by
  cases hroute : handler.route store command.category with
  | none => rw [call_of_route_eq_none hroute]
  | some i =>
    rw [call_of_route hroute]
    dsimp only
    by_cases hj : j = i
    . subst hj
      rw [Function.update_self]
      exact IRegister.category_invoke _ _
    . rw [Function.update_of_ne hj]

theorem route_call (category : Category)
    : handler.route (handler.call store command).2 category = handler.route store category := by
  unfold route
  simp only [category_call]

theorem call_of_ne (h : handler.route store command.category ≠ some i)
    : (handler.call store command).2 i = store i := by
  cases hroute : handler.route store command.category with
  | none => rw [call_of_route_eq_none hroute]
  | some j =>
    rw [call_of_route hroute]
    apply Function.update_of_ne
    intro hij
    exact h (by rw [hroute, hij])

theorem run_of_route (h : handler.route store category = some i) (commands : List Command)
    : (handler.run store commands).2 i = (IRegister.run (store i) (commandsOf category commands)).2 ∧
        resultsOf category commands (handler.run store commands).1 =
          (IRegister.run (store i) (commandsOf category commands)).1 := by
  induction commands generalizing store with
  | nil => exact ⟨rfl, rfl⟩
  | cons command commands ih =>
    have hroute : handler.route (handler.call store command).2 category = some i := by
      rw [route_call, h]
    obtain ⟨hstore, hresults⟩ := ih hroute
    simp only [run]
    by_cases hcategory : command.category = category
    . have hself : handler.route store command.category = some i := by rw [hcategory, h]
      have hcall := call_of_route hself
      have hi : (handler.call store command).2 i = (IRegister.invoke (store i) command).2 := by
        rw [hcall]
        exact Function.update_self _ _ _
      rw [commandsOf_cons_self hcategory, resultsOf_cons_self hcategory, hstore, hresults, hi, hcall,
        IRegister.run_cons]
      exact ⟨rfl, rfl⟩
    . have hi : (handler.call store command).2 i = store i := by
        apply call_of_ne
        intro hother
        exact hcategory (((category_of_route hother).symm.trans (category_of_route h)))
      rw [commandsOf_cons_of_ne hcategory, resultsOf_cons_of_ne hcategory, hstore, hresults, hi]
      exact ⟨rfl, rfl⟩

theorem run_of_route_eq_none (h : handler.route store category = none) (commands : List Command)
    : resultsOf category commands (handler.run store commands).1 =
        (commandsOf category commands).map fun _ => .error (missingRegister category) := by
  induction commands generalizing store with
  | nil => rfl
  | cons command commands ih =>
    have hroute : handler.route (handler.call store command).2 category = none := by
      rw [route_call, h]
    simp only [run]
    by_cases hcategory : command.category = category
    . have hself : handler.route store command.category = none := by rw [hcategory, h]
      have hcall := call_of_route_eq_none hself
      rw [commandsOf_cons_self hcategory, resultsOf_cons_self hcategory, ih hroute, hcall, hcategory]
      rfl
    . rw [commandsOf_cons_of_ne hcategory, resultsOf_cons_of_ne hcategory, ih hroute]

-- The frame: only the first register of a category is ever touched.
theorem run_of_ne (h : handler.route store (IRegister.category (store i)) ≠ some i) (commands : List Command)
    : (handler.run store commands).2 i = store i := by
  induction commands generalizing store with
  | nil => rfl
  | cons command commands ih =>
    have hi : (handler.call store command).2 i = store i := by
      apply call_of_ne
      intro hroute
      rw [category_of_route hroute, hroute] at h
      exact h rfl
    have hother : handler.route (handler.call store command).2
        (IRegister.category ((handler.call store command).2 i)) ≠ some i := by
      rwa [route_call, category_call]
    exact (ih hother).trans hi

omit [DecidableEq ι] in
theorem route_eq_some {n : Nat} (hi : handler.registers[n]? = some i)
    (hfirst : ∀ m j, m < n → handler.registers[m]? = some j →
      IRegister.category (store j) ≠ IRegister.category (store i))
    : handler.route store (IRegister.category (store i)) = some i := by
  unfold route
  obtain ⟨hn, rfl⟩ := List.getElem?_eq_some_iff.mp hi
  rw [List.find?_eq_some_iff_getElem]
  refine ⟨by simp, n, hn, rfl, ?_⟩
  intro m hm
  have hne := hfirst m _ hm (List.getElem?_eq_getElem (Nat.lt_trans hm hn))
  simpa using hne

omit [DecidableEq ι] in
theorem route_ne_of_earlier {n m : Nat} {j : ι} (hnew : i ∉ handler.registers.take n) (hm : m < n)
    (hj : handler.registers[m]? = some j)
    (hcategory : IRegister.category (store j) = IRegister.category (store i))
    : handler.route store (IRegister.category (store i)) ≠ some i := by
  intro hroute
  unfold route at hroute
  rw [List.find?_eq_some_iff_getElem] at hroute
  obtain ⟨_, k, hk, hki, hbefore⟩ := hroute
  obtain ⟨hm', hmj⟩ := List.getElem?_eq_some_iff.mp hj
  have hkn : n ≤ k := by
    rw [← Nat.not_lt]
    intro hlt
    apply hnew
    rw [List.mem_take_iff_getElem]
    exact ⟨k, by omega, hki⟩
  have hearlier := hbefore m (by omega)
  simp [hmj, hcategory] at hearlier

structure Isolated (handler : Handler ι) (store : ι → ρ) (commands : List Command) : Prop where
  receives : ∀ (n : Nat) (i : ι), handler.registers[n]? = some i →
    (∀ (m : Nat) (j : ι), m < n → handler.registers[m]? = some j →
      IRegister.category (store j) ≠ IRegister.category (store i)) →
    (handler.run store commands).2 i =
        (IRegister.run (store i) (commandsOf (IRegister.category (store i)) commands)).2 ∧
      resultsOf (IRegister.category (store i)) commands (handler.run store commands).1 =
        (IRegister.run (store i) (commandsOf (IRegister.category (store i)) commands)).1
  ignored : ∀ (n m : Nat) (i j : ι), handler.registers[n]? = some i → i ∉ handler.registers.take n → m < n →
    handler.registers[m]? = some j → IRegister.category (store j) = IRegister.category (store i) →
    (handler.run store commands).2 i = store i
  unlisted : ∀ i, i ∉ handler.registers → (handler.run store commands).2 i = store i
  unroutable : ∀ category, (∀ i ∈ handler.registers, IRegister.category (store i) ≠ category) →
    resultsOf category commands (handler.run store commands).1 =
      (commandsOf category commands).map fun _ => .error (missingRegister category)
  missing : ∀ command : Command,
    (∀ i ∈ handler.registers, IRegister.category (store i) ≠ command.category) →
    handler.call store command = (.error (missingRegister command.category), store)

omit [DecidableEq ι] in
theorem route_eq_none_iff
    : handler.route store category = none ↔
        ∀ i ∈ handler.registers, IRegister.category (store i) ≠ category := by
  unfold route
  rw [List.find?_eq_none]
  simp only [decide_eq_true_eq]

theorem isolated (handler : Handler ι) (store : ι → ρ) (commands : List Command)
    : handler.Isolated store commands where
  receives _ _ hi hfirst := run_of_route (route_eq_some hi hfirst) commands
  ignored _ _ _ _ _ hnew hm hj hcategory := run_of_ne (route_ne_of_earlier hnew hm hj hcategory) commands
  unlisted i hi := by
    apply run_of_ne
    intro hroute
    exact hi (List.mem_of_find?_eq_some hroute)
  unroutable _ hnone := run_of_route_eq_none (route_eq_none_iff.mpr hnone) commands
  missing _ hnone := call_of_route_eq_none (route_eq_none_iff.mpr hnone)

theorem run_eq_of_commandsOf {commands commands' : List Command}
    (h : ∀ category, commandsOf category commands = commandsOf category commands')
    : (handler.run store commands).2 = (handler.run store commands').2 ∧
        ∀ category, resultsOf category commands (handler.run store commands).1 =
          resultsOf category commands' (handler.run store commands').1 := by
  constructor
  . funext i
    by_cases hroute : handler.route store (IRegister.category (store i)) = some i
    . rw [(run_of_route hroute commands).1, (run_of_route hroute commands').1, h]
    . rw [run_of_ne hroute, run_of_ne hroute]
  . intro category
    cases hroute : handler.route store category with
    | none => rw [run_of_route_eq_none hroute, run_of_route_eq_none hroute, h]
    | some i => rw [(run_of_route hroute commands).2, (run_of_route hroute commands').2, h]

end Handler

theorem SynchronousErrorSystem.run_eq [DecidableEq ι] (system : SynchronousErrorSystem ι) (store : ι → ρ)
    (commands : List Command)
    : system.run store commands = system.handler.run store commands := by
  induction commands generalizing store with
  | nil => rfl
  | cons command commands ih =>
    simp only [run, Handler.run, ih]
    rfl

theorem routing_isolates_categories [DecidableEq ι] (handler : Handler ι) (store : ι → ρ)
    (commands : List Command)
    : handler.Isolated store commands ∧
        (∀ commands', (∀ category, commandsOf category commands = commandsOf category commands') →
          (handler.run store commands).2 = (handler.run store commands').2 ∧
            ∀ category, resultsOf category commands (handler.run store commands).1 =
              resultsOf category commands' (handler.run store commands').1) ∧
          (SynchronousErrorSystem.mk handler).run store commands = handler.run store commands :=
  ⟨handler.isolated store commands, fun _ h => Handler.run_eq_of_commandsOf h,
    SynchronousErrorSystem.run_eq _ store commands⟩

theorem routing_isolates_categories_pair
    : let network : Command := ⟨.add, ⟨.network, 1000, ascii "Network error"⟩⟩
      let database : Command := ⟨.add, ⟨.database, 2000, ascii "Database error"⟩⟩
      let store : Bool → (category : Category) × Register category :=
        fun i => if i then ⟨.network, .empty _⟩ else ⟨.database, .empty _⟩
      ((Handler.mk [true, false]).run store [network, database]).2 =
        ((Handler.mk [true, false]).run store [database, network]).2 := by
  intro network database store
  apply ((routing_isolates_categories _ _ _).2.1 _ _).1
  intro category
  cases category
  all_goals rfl

end Vosp
