import Vosp.Error.Register
import Vosp.Lib.BoundedMap

/-!
This module contains the abstract meaning of a register: a bounded map from codes to errors. `Spec`
says for every call which answer it gives and what it does to the map, and every run of a register
follows it.
-/

namespace Vosp

namespace Register

variable {category : Category}

inductive Spec (category : Category) (m : BoundedMap UInt32 Error)
    : Call → Answer → BoundedMap UInt32 Error → Prop where
  | added (hcategory : error.category = category) (hnew : m.find error.code = none)
      (hroom : m.size < m.limit)
    : Spec category m (.add error) (.result (.ok ())) (m.insert error.code error hroom)
  | addMismatch (hcategory : error.category ≠ category)
    : Spec category m (.add error) (.result (.error (mismatch category))) m
  | addDuplicate (hcategory : error.category = category) (hold : m.find error.code ≠ none)
    : Spec category m (.add error) (.result (.error (duplicate category))) m
  | addFull (hcategory : error.category = category) (hnew : m.find error.code = none)
      (hfull : m.limit ≤ m.size)
    : Spec category m (.add error) (.result (.error (full category))) m
  | removed (hcategory : error.category = category) (hstored : m.find error.code = some error)
    : Spec category m (.remove error) (.result (.ok ())) (m.erase error.code)
  | removeMismatch (hcategory : error.category ≠ category)
    : Spec category m (.remove error) (.result (.error (mismatch category))) m
  | removeMissing (hcategory : error.category = category) (hother : m.find error.code ≠ some error)
    : Spec category m (.remove error) (.result (.error (missing category))) m
  | removedCode (hold : m.find code ≠ none)
    : Spec category m (.removeCode code) (.result (.ok ())) (m.erase code)
  | removeCodeMissing (hnew : m.find code = none)
    : Spec category m (.removeCode code) (.result (.error (missingCode category))) m
  | cleared : Spec category m .clear (.count m.size) m.clear
  | reserved (hfits : expectedSize ≤ m.limit) : Spec category m (.reserve expectedSize) .returned m
  | reserveThrows (hlarge : m.limit < expectedSize)
    : Spec category m (.reserve expectedSize)
        (.thrown ⟨"Register expected size exceeds its capacity limit"⟩) m
  | found : Spec category m (.find code) (.found (m.find code)) m
  | contains : Spec category m (.contains error) (.flag (decide (m.find error.code = some error))) m
  | containsCode : Spec category m (.containsCode code) (.flag (m.find code).isSome) m
  | snapshot {result : List Error} (hnodup : result.Nodup)
      (hmem : ∀ error, error ∈ result ↔ m.find error.code = some error)
    : Spec category m .snapshot (.errors result) m
  | size : Spec category m .size (.count m.size) m
  | capacityLimit : Spec category m .capacityLimit (.count m.limit) m

inductive SpecRun (category : Category)
    : BoundedMap UInt32 Error → List Call → List Answer → BoundedMap UInt32 Error → Prop where
  | nil : SpecRun category m [] [] m
  | cons {c : Call} {a : Answer} (hcall : Spec category m c a m') (hcalls : SpecRun category m' calls answers m'')
    : SpecRun category m (c :: calls) (a :: answers) m''

-- The order in which the map iterates is not part of its meaning.
def contents (r : Register category) : BoundedMap UInt32 Error where
  limit := r.capacityLimit
  map := r.errors.toFinmap
  size_le := r.size_le

section

variable (r : Register category) {error : Error} {code : UInt32}

@[simp]
theorem find_contents : r.contents.find code = r.find code :=
  Finmap.lookup_toFinmap code r.errors

@[simp]
theorem size_contents : r.contents.size = r.size := by
  rfl

@[simp]
theorem limit_contents : r.contents.limit = r.capacityLimit := by
  rfl

theorem contents_erase : (r.erase code).contents = r.contents.erase code := by
  apply BoundedMap.ext
  . rfl
  . intro code'
    unfold contents erase BoundedMap.erase BoundedMap.find
    simp only [Finmap.erase_toFinmap]

theorem contents_clear : r.clear.2.contents = r.contents.clear := by
  apply BoundedMap.ext
  . rfl
  . intro code'
    rw [BoundedMap.find_clear, find_contents]
    exact AList.lookup_empty code'

theorem tryEmplace_eq (hcategory : error.category = category) (hroom : r.size < r.capacityLimit)
    (hnew : r.find error.code = none)
    : ∃ r', r.tryEmplace error hcategory hroom = some r' ∧
        r'.contents = r.contents.insert error.code error hroom := by
  have hmem : error.code ∉ r.errors := AList.lookup_eq_none.mp hnew
  unfold tryEmplace
  rw [dif_neg hmem]
  refine ⟨_, rfl, ?_⟩
  apply BoundedMap.ext
  . rfl
  . intro code'
    unfold contents BoundedMap.insert BoundedMap.find
    simp only [Finmap.insert_toFinmap]

theorem tryEmplace_eq_none (hcategory : error.category = category) (hroom : r.size < r.capacityLimit)
    (hold : r.find error.code ≠ none)
    : r.tryEmplace error hcategory hroom = none := by
  unfold tryEmplace
  rw [dif_pos (Decidable.not_not.mp (AList.lookup_eq_none.not.mp hold))]

theorem mem_iff : code ∈ r.errors ↔ r.find code ≠ none := by
  rw [Ne, find, AList.lookup_eq_none, Decidable.not_not]

-- The two paths of `add`, below and at the capacity, agree on which error comes first.
theorem spec_add (error : Error)
    : Spec category r.contents (.add error) (.result (r.add error).1) (r.add error).2.contents := by
  by_cases hcategory : error.category = category
  . by_cases hfull : r.capacityLimit ≤ r.size
    . by_cases hold : r.find error.code = none
      . have hadd : r.add error = (.error (full category), r) := by
          simp [add, hcategory, hfull, mem_iff, hold]
        rw [hadd]
        exact .addFull hcategory (by simpa using hold) hfull
      . have hadd : r.add error = (.error (duplicate category), r) := by
          simp [add, hcategory, hfull, mem_iff, hold]
        rw [hadd]
        exact .addDuplicate hcategory (by simpa using hold)
    . have hroom : r.size < r.capacityLimit := Nat.lt_of_not_le hfull
      by_cases hold : r.find error.code = none
      . obtain ⟨r', hemplace, hcontents⟩ := r.tryEmplace_eq hcategory hroom hold
        have hadd : r.add error = (.ok (), r') := by
          simp [add, hcategory, hfull, hemplace]
        rw [hadd, hcontents]
        exact Spec.added (m := r.contents) hcategory (by simpa using hold) hroom
      . have hadd : r.add error = (.error (duplicate category), r) := by
          simp [add, hcategory, hfull, r.tryEmplace_eq_none hcategory hroom hold]
        rw [hadd]
        exact .addDuplicate hcategory (by simpa using hold)
  . have hadd : r.add error = (.error (mismatch category), r) := by
      simp [add, hcategory]
    rw [hadd]
    exact .addMismatch hcategory

theorem spec_remove (error : Error)
    : Spec category r.contents (.remove error) (.result (r.remove error).1) (r.remove error).2.contents := by
  by_cases hcategory : error.category = category
  . by_cases hstored : r.find error.code = some error
    . have hremove : r.remove error = (.ok (), r.erase error.code) := by
        rw [find] at hstored
        simp [remove, hcategory, hstored]
      rw [hremove, contents_erase]
      exact .removed hcategory (by simpa using hstored)
    . have hremove : r.remove error = (.error (missing category), r) := by
        unfold remove
        rw [if_neg (Decidable.not_not.mpr hcategory)]
        split
        . rfl
        . next stored hlookup =>
          rw [find, hlookup, Option.some.injEq] at hstored
          rw [if_pos hstored]
      rw [hremove]
      exact .removeMissing hcategory (by simpa using hstored)
  . have hremove : r.remove error = (.error (mismatch category), r) := by
      simp [remove, hcategory]
    rw [hremove]
    exact .removeMismatch hcategory

theorem spec_removeCode (code : UInt32)
    : Spec category r.contents (.removeCode code) (.result (r.removeCode code).1)
        (r.removeCode code).2.contents := by
  by_cases hold : r.find code = none
  . have hremove : r.removeCode code = (.error (missingCode category), r) := by
      simp [removeCode, mem_iff, hold]
    rw [hremove]
    exact .removeCodeMissing (by simpa using hold)
  . have hremove : r.removeCode code = (.ok (), r.erase code) := by
      simp [removeCode, mem_iff, hold]
    rw [hremove, contents_erase]
    exact .removedCode (by simpa using hold)

theorem reserve_eq (expectedSize : Nat)
    : r.reserve expectedSize =
        if r.capacityLimit < expectedSize then
          .error ⟨"Register expected size exceeds its capacity limit"⟩
        else
          .ok r := by
  have hlimit : ¬ (r.capacityLimit = 0 ∨ maxRegisterCapacity < r.capacityLimit) := by
    have := r.capacityLimit_pos
    have := r.capacityLimit_le
    omega
  unfold reserve validateLimits
  rw [dif_neg hlimit]
  split
  . rfl
  . rfl

theorem mem_snapshot : error ∈ r.snapshot ↔ r.find error.code = some error := by
  unfold snapshot
  rw [List.mem_map]
  constructor
  . rintro ⟨⟨code, error'⟩, hmem, rfl⟩
    have hlookup : r.find code = some error' := AList.mem_lookup_iff.mpr hmem
    rwa [(r.stored code error' hlookup).2]
  . intro hlookup
    exact ⟨⟨error.code, error⟩, AList.mem_lookup_iff.mp hlookup, rfl⟩

theorem snapshot_codes : r.snapshot.map (fun error => error.code) = r.errors.keys := by
  unfold snapshot AList.keys List.keys
  rw [List.map_map]
  apply List.map_congr_left
  rintro ⟨code, error⟩ hmem
  exact (r.stored code error (AList.mem_lookup_iff.mpr hmem)).2

theorem nodup_codes : (r.snapshot.map (fun error => error.code)).Nodup := by
  rw [snapshot_codes]
  exact r.errors.keys_nodup

theorem nodup_snapshot : r.snapshot.Nodup := r.nodup_codes.of_map

end

theorem spec_call (r : Register category) (call : Call)
    : Spec category r.contents call (r.call call).1 (r.call call).2.contents := by
  cases call with
  | add error => exact r.spec_add error
  | remove error => exact r.spec_remove error
  | removeCode code => exact r.spec_removeCode code
  | clear =>
    have hspec := @Spec.cleared category r.contents
    rwa [← contents_clear] at hspec
  | reserve expectedSize =>
    simp only [Register.call, reserve_eq]
    by_cases hlarge : r.capacityLimit < expectedSize
    . rw [if_pos hlarge]
      exact .reserveThrows hlarge
    . rw [if_neg hlarge]
      exact .reserved (Nat.le_of_not_lt hlarge)
  | find code =>
    have hspec := @Spec.found category r.contents code
    rwa [find_contents] at hspec
  | contains error =>
    have hspec := @Spec.contains category r.contents error
    have hflag : r.contains error = decide (r.find error.code = some error) := by
      unfold contains find
      split
      . next hlookup => simp [hlookup]
      . next hlookup => simp [hlookup]
    rwa [find_contents, ← hflag] at hspec
  | containsCode code =>
    have hspec := @Spec.containsCode category r.contents code
    have hflag : r.containsCode code = (r.find code).isSome := by
      unfold containsCode find
      rw [Bool.eq_iff_iff, decide_eq_true_eq, AList.lookup_isSome]
    rwa [find_contents, ← hflag] at hspec
  | snapshot =>
    apply Spec.snapshot r.nodup_snapshot
    intro error
    rw [find_contents]
    exact r.mem_snapshot
  | size => exact .size
  | capacityLimit => exact .capacityLimit

theorem spec_run (r : Register category) (calls : List Call)
    : SpecRun category r.contents calls (r.run calls).1 (r.run calls).2.contents := by
  induction calls generalizing r with
  | nil => exact .nil
  | cons call calls ih => exact .cons (r.spec_call call) (ih (r.call call).2)

def Answer.failed (answer : Answer) : Bool :=
  match answer with
  | .result (.error _) | .thrown _ => true
  | _ => false

theorem Spec.eq_of_failed {m m' : BoundedMap UInt32 Error} {c : Call} {a : Answer}
    (h : Spec category m c a m') (hfailed : a.failed = true)
    : m' = m := by
  cases h
  all_goals first | rfl | cases hfailed

section

variable {r : Register category} {error : Error}

theorem add_eq_ok_iff
    : (r.add error).1 = .ok () ↔
        error.category = category ∧ r.find error.code = none ∧ r.size < r.capacityLimit := by
  have hspec := r.spec_add error
  generalize (r.add error).1 = result at hspec
  generalize (r.add error).2.contents = m' at hspec
  cases hspec with
  | added hcategory hnew hroom =>
    rw [find_contents] at hnew
    exact ⟨fun _ => ⟨hcategory, hnew, hroom⟩, fun _ => rfl⟩
  | addMismatch hcategory => exact ⟨nofun, fun h => absurd h.1 hcategory⟩
  | addDuplicate hcategory hold =>
    rw [find_contents] at hold
    exact ⟨nofun, fun h => absurd h.2.1 hold⟩
  | addFull hcategory hnew hfull => exact ⟨nofun, fun h => absurd h.2.2 (Nat.not_lt_of_le hfull)⟩

theorem add_eq_error {failure : Error} (h : (r.add error).1 = .error failure)
    : failure =
        if error.category ≠ category then mismatch category
        else if r.find error.code ≠ none then duplicate category
        else full category := by
  have hspec := r.spec_add error
  rw [h] at hspec
  generalize (r.add error).2.contents = m' at hspec
  cases hspec with
  | addMismatch hcategory => rw [if_pos hcategory]
  | addDuplicate hcategory hold =>
    rw [find_contents] at hold
    rw [if_neg (Decidable.not_not.mpr hcategory), if_pos hold]
  | addFull hcategory hnew =>
    rw [find_contents] at hnew
    rw [if_neg (Decidable.not_not.mpr hcategory), if_neg (Decidable.not_not.mpr hnew)]

theorem remove_eq_ok_iff : (r.remove error).1 = .ok () ↔ r.find error.code = some error := by
  have hspec := r.spec_remove error
  generalize (r.remove error).1 = result at hspec
  generalize (r.remove error).2.contents = m' at hspec
  cases hspec with
  | removed hcategory hstored =>
    rw [find_contents] at hstored
    exact ⟨fun _ => hstored, fun _ => rfl⟩
  | removeMismatch hcategory =>
    exact ⟨nofun, fun h => absurd (r.stored _ _ h).1 hcategory⟩
  | removeMissing hcategory hother =>
    rw [find_contents] at hother
    exact ⟨nofun, fun h => absurd h hother⟩

theorem contents_add (h : (r.add error).1 = .ok ())
    : r.contents.find error.code = none ∧
        ∃ hroom, (r.add error).2.contents = r.contents.insert error.code error hroom := by
  have hspec := r.spec_add error
  rw [h] at hspec
  generalize (r.add error).2.contents = m' at hspec ⊢
  cases hspec with
  | added hcategory hnew hroom => exact ⟨hnew, hroom, rfl⟩

theorem contents_remove (h : (r.remove error).1 = .ok ())
    : (r.remove error).2.contents = r.contents.erase error.code := by
  have hspec := r.spec_remove error
  rw [h] at hspec
  generalize (r.remove error).2.contents = m' at hspec ⊢
  cases hspec with
  | removed => rfl

theorem remove_add (h : (r.add error).1 = .ok ())
    : ((r.add error).2.remove error).1 = .ok () ∧ ((r.add error).2.remove error).2.contents = r.contents := by
  obtain ⟨hnew, hroom, hcontents⟩ := contents_add h
  have hremove : ((r.add error).2.remove error).1 = .ok () := by
    rw [remove_eq_ok_iff, ← find_contents, hcontents]
    exact BoundedMap.find_insert_self
  refine ⟨hremove, ?_⟩
  rw [contents_remove hremove, hcontents]
  exact BoundedMap.erase_insert hnew

end

/--
What holds of a register whatever was called on it.
-/
structure Laws (r : Register category) : Prop where
  stored : ∀ code error, r.find code = some error → error.category = category ∧ error.code = code
  codes : ∀ error error', error ∈ r.snapshot → error' ∈ r.snapshot → error.code = error'.code → error = error'
  size_le : r.size ≤ r.capacityLimit
  add_ok : ∀ error, (r.add error).1 = .ok () ↔
    error.category = category ∧ r.find error.code = none ∧ r.size < r.capacityLimit
  add_error : ∀ error failure, (r.add error).1 = .error failure →
    failure =
      if error.category ≠ category then mismatch category
      else if r.find error.code ≠ none then duplicate category
      else full category
  remove_ok : ∀ error, (r.remove error).1 = .ok () ↔ r.find error.code = some error
  snapshot : ∀ error, error ∈ r.snapshot ↔ r.find error.code = some error
  once : r.snapshot.Nodup
  failed : ∀ call, (r.call call).1.failed = true → (r.call call).2.contents = r.contents
  restored : ∀ error, (r.add error).1 = .ok () →
    ((r.add error).2.remove error).1 = .ok () ∧ ((r.add error).2.remove error).2.contents = r.contents

theorem laws (r : Register category) : r.Laws where
  stored := r.stored
  codes _ _ h h' hcode := List.inj_on_of_nodup_map r.nodup_codes h h' hcode
  size_le := r.size_le
  add_ok _ := add_eq_ok_iff
  add_error _ _ h := add_eq_error h
  remove_ok _ := remove_eq_ok_iff
  snapshot _ := r.mem_snapshot
  once := r.nodup_snapshot
  failed c h := (r.spec_call c).eq_of_failed h
  restored _ h := remove_add h

theorem create_eq_ok {expectedSize capacityLimit : Nat} {r : Register category}
    (h : create expectedSize capacityLimit = .ok r)
    : r.capacityLimit = capacityLimit ∧ ∀ code, r.find code = none := by
  unfold create at h
  cases hlimits : validateLimits expectedSize capacityLimit with
  | error exception =>
    rw [hlimits] at h
    cases h
  | ok limits =>
    rw [hlimits] at h
    cases h
    exact ⟨rfl, fun code => AList.lookup_empty code⟩

end Register

theorem register_refines_bounded_map {category : Category} {expectedSize capacityLimit : Nat}
    {r : Register category} (h : Register.create expectedSize capacityLimit = .ok r)
    (calls : List Register.Call)
    : r.contents.limit = capacityLimit ∧ (∀ code, r.contents.find code = none) ∧
        Register.SpecRun category r.contents calls (r.run calls).1 (r.run calls).2.contents ∧
        (r.run calls).2.Laws := by
  obtain ⟨hlimit, hempty⟩ := Register.create_eq_ok h
  refine ⟨hlimit, ?_, r.spec_run calls, Register.laws _⟩
  intro code
  rw [Register.find_contents]
  exact hempty code

def networkError : Error := ⟨.network, 1000, ascii "Network error"⟩

theorem register_refines_bounded_map_single
    : ∃ r : Register .network, Register.create 1 1 = .ok r ∧
        (r.run [.add networkError, .reserve 2, .add { networkError with message := [] }]).2.Laws := by
  have hlimits : 0 < 1 ∧ 1 ≤ maxRegisterCapacity := by decide
  let r : Register .network :=
    {
      capacityLimit := 1
      errors := ∅
      capacityLimit_pos := hlimits.1
      capacityLimit_le := hlimits.2
      size_le := Nat.zero_le _
      stored := by simp
    }
  have hcreate : Register.create 1 1 = .ok r := by rfl
  exact ⟨r, hcreate, (register_refines_bounded_map hcreate _).2.2.2⟩

end Vosp
