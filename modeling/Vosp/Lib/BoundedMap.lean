import Mathlib.Data.Finmap
import Mathlib.Data.Finset.Card

/-!
This module contains finite maps with a limit on their size. A map that is over its limit cannot be
built, so inserting takes a proof that there is room.
-/

structure BoundedMap (κ υ : Type) where
  limit : Nat
  map : Finmap (fun _ : κ => υ)
  size_le : map.keys.card ≤ limit

namespace BoundedMap

variable {κ υ : Type}

def size (m : BoundedMap κ υ) : Nat := m.map.keys.card

def clear (m : BoundedMap κ υ) : BoundedMap κ υ where
  limit := m.limit
  map := ∅
  size_le := by
    rw [Finmap.keys_empty, Finset.card_empty]
    exact Nat.zero_le _

variable [DecidableEq κ]

def find (m : BoundedMap κ υ) (k : κ) : Option υ := m.map.lookup k

theorem ext {m m' : BoundedMap κ υ} (hlimit : m.limit = m'.limit) (hfind : ∀ k, m.find k = m'.find k)
    : m = m' := by
  have hmap : m.map = m'.map := Finmap.ext_lookup hfind
  cases m
  cases m'
  cases hlimit
  cases hmap
  rfl

theorem keys_insert (m : Finmap (fun _ : κ => υ)) (k : κ) (v : υ)
    : (m.insert k v).keys = insert k m.keys := by
  ext k'
  rw [Finmap.mem_keys, Finmap.mem_insert, Finset.mem_insert, Finmap.mem_keys]

def insert (m : BoundedMap κ υ) (k : κ) (v : υ) (hroom : m.size < m.limit) : BoundedMap κ υ where
  limit := m.limit
  map := m.map.insert k v
  size_le := by
    rw [keys_insert]
    exact Nat.le_trans (Finset.card_insert_le _ _) hroom

def erase (m : BoundedMap κ υ) (k : κ) : BoundedMap κ υ where
  limit := m.limit
  map := m.map.erase k
  size_le := by
    rw [Finmap.keys_erase]
    exact Nat.le_trans Finset.card_erase_le m.size_le

section

variable {m : BoundedMap κ υ} {k k' : κ} {v : υ} {hroom : m.size < m.limit}

@[simp]
theorem find_insert_self : (m.insert k v hroom).find k = some v :=
  Finmap.lookup_insert _

theorem find_insert_of_ne (h : k' ≠ k) : (m.insert k v hroom).find k' = m.find k' :=
  Finmap.lookup_insert_of_ne _ h

@[simp]
theorem find_erase_self : (m.erase k).find k = none :=
  Finmap.lookup_erase _ _

theorem find_erase_of_ne (h : k' ≠ k) : (m.erase k).find k' = m.find k' :=
  Finmap.lookup_erase_ne h

@[simp]
theorem find_clear : m.clear.find k = none :=
  Finmap.lookup_empty k

theorem erase_insert (h : m.find k = none) : (m.insert k v hroom).erase k = m := by
  apply ext
  . rfl
  . intro k'
    by_cases hk : k' = k
    . subst hk
      rw [find_erase_self, h]
    . rw [find_erase_of_ne hk, find_insert_of_ne hk]

end

end BoundedMap
