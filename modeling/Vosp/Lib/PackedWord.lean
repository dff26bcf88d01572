import Mathlib.Data.BitVec
import Mathlib.Tactic.Ring
import Mathlib.Tactic.LinearCombination

/-!
This module contains machine words of `w` bits that pack a low field of `k` bits, a counter above it
and a flag in the top bit. The counter may outgrow the `k` bits that `midMask` reads, as long as it
stays below the top bit.
-/

namespace PackedWord

def unit (k w : Nat) : BitVec w := 1#w <<< k

def lowMask (k w : Nat) : BitVec w := unit k w - 1#w

def midMask (k w : Nat) : BitVec w := lowMask k w <<< k

def topMask (w : Nat) : BitVec w := 1#w <<< (w - 1)

structure Packs (k : Nat) {w : Nat} (x : BitVec w) (lo mid : Nat) (top : Bool) : Prop where
  lo_lt : lo < 2 ^ k
  fits : lo + 2 ^ k * mid < 2 ^ (w - 1)
  eq : x = BitVec.ofNat w (lo + 2 ^ k * mid + if top then 2 ^ (w - 1) else 0)

variable {k w : Nat}

theorem unit_eq_ofNat : unit k w = BitVec.ofNat w (2 ^ k) := by
  apply BitVec.eq_of_toNat_eq
  rw [unit, BitVec.toNat_shiftLeft, Nat.shiftLeft_eq, BitVec.toNat_ofNat, BitVec.toNat_ofNat,
    Nat.mul_mod, Nat.mod_mod, ← Nat.mul_mod, Nat.one_mul]

theorem topMask_eq_twoPow : topMask w = BitVec.twoPow w (w - 1) := by
  rfl

theorem toNat_lowMask (hkw : k < w) : (lowMask k w).toNat = 2 ^ k - 1 := by
  have hlt : 2 ^ k < 2 ^ w := Nat.pow_lt_pow_right (by omega) hkw
  have hpos : 0 < 2 ^ k := Nat.two_pow_pos k
  unfold lowMask
  rw [unit_eq_ofNat, BitVec.toNat_sub_of_le]
  . simp only [BitVec.toNat_ofNat, Nat.mod_eq_of_lt hlt]
    rw [Nat.mod_eq_of_lt (by omega)]
  . rw [BitVec.le_def]
    simp only [BitVec.toNat_ofNat, Nat.mod_eq_of_lt hlt]
    rw [Nat.mod_eq_of_lt (by omega)]
    omega

theorem toNat_and_lowMask (hkw : k < w) (x : BitVec w)
    : (x &&& lowMask k w).toNat = x.toNat % 2 ^ k := by
  rw [BitVec.toNat_and, toNat_lowMask hkw, Nat.and_two_pow_sub_one_eq_mod]

theorem toNat_and_midMask (hkw : 2 * k ≤ w) (hk : 0 < k) (x : BitVec w)
    : ((x &&& midMask k w) >>> k).toNat = x.toNat / 2 ^ k % 2 ^ k := by
  have hmask : midMask k w >>> k = lowMask k w := by
    unfold midMask
    apply BitVec.eq_of_toNat_eq
    have hlow := toNat_lowMask (k := k) (w := w) (by omega)
    have hlt : (2 ^ k - 1) * 2 ^ k < 2 ^ w := by
      calc (2 ^ k - 1) * 2 ^ k < 2 ^ k * 2 ^ k := by
            apply Nat.mul_lt_mul_of_pos_right _ (Nat.two_pow_pos k)
            have := Nat.two_pow_pos k
            omega
        _ = 2 ^ (2 * k) := by rw [← Nat.pow_add]; congr 1; omega
        _ ≤ 2 ^ w := Nat.pow_le_pow_right (by omega) hkw
    rw [BitVec.toNat_ushiftRight, BitVec.toNat_shiftLeft, hlow, Nat.shiftLeft_eq,
      Nat.mod_eq_of_lt hlt, Nat.shiftRight_eq_div_pow, Nat.mul_div_cancel _ (Nat.two_pow_pos k)]
  rw [BitVec.ushiftRight_and_distrib, hmask, toNat_and_lowMask (by omega), BitVec.toNat_ushiftRight,
    Nat.shiftRight_eq_div_pow]

namespace Packs

variable {x : BitVec w} {lo mid : Nat} {top : Bool}

theorem toNat_eq (h : Packs k x lo mid top) (hw : 0 < w)
    : x.toNat = lo + 2 ^ k * mid + if top then 2 ^ (w - 1) else 0 := by
  have hfits := h.fits
  have hpow : 2 ^ w = 2 * 2 ^ (w - 1) := by
    rw [← Nat.pow_succ']
    congr 1
    omega
  rw [h.eq, BitVec.toNat_ofNat, Nat.mod_eq_of_lt]
  split <;> omega

theorem low_eq (h : Packs k x lo mid top) (hkw : k < w) : (x &&& lowMask k w).toNat = lo := by
  obtain ⟨d, hd⟩ : 2 ^ k ∣ 2 ^ (w - 1) := Nat.pow_dvd_pow 2 (by omega)
  have hval : x.toNat = lo + 2 ^ k * (mid + if top then d else 0) := by
    rw [h.toNat_eq (by omega), hd]
    split <;> ring
  rw [toNat_and_lowMask hkw, hval, Nat.add_mul_mod_self_left, Nat.mod_eq_of_lt h.lo_lt]

theorem mid_eq (h : Packs k x lo mid top) (hkw : 2 * k < w) (hk : 0 < k)
    : ((x &&& midMask k w) >>> k).toNat = mid % 2 ^ k := by
  have hpow : 2 ^ (w - 1) = 2 ^ k * (2 ^ k * 2 ^ (w - 1 - 2 * k)) := by
    rw [← Nat.pow_add, ← Nat.pow_add]
    congr 1
    omega
  have hval : x.toNat = lo + 2 ^ k * (mid + 2 ^ k * if top then 2 ^ (w - 1 - 2 * k) else 0) := by
    rw [h.toNat_eq (by omega)]
    split
    . rw [hpow]
      ring
    . ring
  rw [toNat_and_midMask (by omega) hk, hval, Nat.add_mul_div_left _ _ (Nat.two_pow_pos k),
    Nat.div_eq_of_lt h.lo_lt, Nat.zero_add, Nat.add_mul_mod_self_left]

theorem top_eq (h : Packs k x lo mid top) (hw : 0 < w) : (x &&& topMask w != 0#w) = top := by
  have hbit : x.getLsbD (w - 1) = top := by
    rw [BitVec.getLsbD, h.toNat_eq hw]
    have hfits := h.fits
    cases top with
    | false => simpa using Nat.testBit_lt_two_pow hfits
    | true =>
      simp only [↓reduceIte]
      rw [Nat.add_comm, Nat.testBit_two_pow_add_eq, Nat.testBit_lt_two_pow hfits]
      rfl
  rw [topMask_eq_twoPow, BitVec.and_twoPow, hbit]
  cases top with
  | false => simp
  | true =>
    simp only [↓reduceIte, bne_iff_ne, ne_eq]
    intro hzero
    have := congrArg (fun y : BitVec w => y.getLsbD (w - 1)) hzero
    simp [hw] at this

theorem mod_eq (h : Packs k x lo mid top) (hkw : k < w) : x.toNat % 2 ^ k = lo := by
  rw [← toNat_and_lowMask hkw, h.low_eq hkw]

theorem div_eq (h : Packs k x lo mid top) (hw : 0 < w) : x.toNat % 2 ^ (w - 1) / 2 ^ k = mid := by
  have hmod : x.toNat % 2 ^ (w - 1) = lo + 2 ^ k * mid := by
    rw [h.toNat_eq hw]
    split
    . rw [Nat.add_mod_right, Nat.mod_eq_of_lt h.fits]
    . rw [Nat.add_zero, Nat.mod_eq_of_lt h.fits]
  rw [hmod, Nat.add_mul_div_left _ _ (Nat.two_pow_pos k), Nat.div_eq_of_lt h.lo_lt, Nat.zero_add]

theorem msb_eq (h : Packs k x lo mid top) (hw : 0 < w) : x.msb = top := by
  rw [BitVec.msb_eq_decide, h.toNat_eq hw]
  have hfits := h.fits
  cases top with
  | false => simpa using hfits
  | true => simp

theorem add_low (h : Packs k x lo mid top) {n : Nat} (hlo : lo + n < 2 ^ k)
    (hfits : lo + n + 2 ^ k * mid < 2 ^ (w - 1))
    : Packs k (x + BitVec.ofNat w n) (lo + n) mid top where
  lo_lt := hlo
  fits := hfits
  eq := by
    rw [h.eq, ← BitVec.ofNat_add]
    congr 1
    omega

theorem sub_low (h : Packs k x lo mid top) {n : Nat} (hn : n ≤ lo)
    : Packs k (x - BitVec.ofNat w n) (lo - n) mid top where
  lo_lt := by have := h.lo_lt; omega
  fits := by have := h.fits; omega
  eq := by
    have heq : lo + 2 ^ k * mid = lo - n + 2 ^ k * mid + n := by omega
    rw [h.eq, heq, Nat.add_right_comm, BitVec.ofNat_add _ n]
    ring

theorem move (h : Packs k x lo mid top) {n : Nat} (hn : n ≤ lo)
    (hfits : lo - n + 2 ^ k * (mid + n) < 2 ^ (w - 1))
    : Packs k (x + BitVec.ofNat w n * (unit k w - 1#w)) (lo - n) (mid + n) top where
  lo_lt := by have := h.lo_lt; omega
  fits := hfits
  eq := by
    have heq : lo - n + 2 ^ k * (mid + n) + (if top then 2 ^ (w - 1) else 0) + n
        = lo + 2 ^ k * mid + (if top then 2 ^ (w - 1) else 0) + n * 2 ^ k := by
      rw [Nat.mul_add, Nat.mul_comm n]
      omega
    have hcast := congrArg (BitVec.ofNat w) heq
    rw [BitVec.ofNat_add _ n, BitVec.ofNat_add _ (n * 2 ^ k), BitVec.ofNat_mul, ← h.eq,
      ← unit_eq_ofNat] at hcast
    have hone : (1#w : BitVec w) = 1 := rfl
    rw [hone]
    linear_combination -hcast

theorem sub_mid (h : Packs k x lo mid top) {n : Nat} (hn : n ≤ mid)
    : Packs k (x - BitVec.ofNat w n * unit k w) lo (mid - n) top where
  lo_lt := h.lo_lt
  fits := by
    have := h.fits
    have := Nat.mul_le_mul_left (2 ^ k) (Nat.sub_le mid n)
    omega
  eq := by
    have heq : lo + 2 ^ k * (mid - n) + (if top then 2 ^ (w - 1) else 0) + n * 2 ^ k
        = lo + 2 ^ k * mid + (if top then 2 ^ (w - 1) else 0) := by
      have : 2 ^ k * (mid - n) + n * 2 ^ k = 2 ^ k * mid := by
        rw [Nat.mul_comm n, ← Nat.mul_add]
        congr 1
        omega
      omega
    have hcast := congrArg (BitVec.ofNat w) heq
    rw [BitVec.ofNat_add _ (n * 2 ^ k), BitVec.ofNat_mul, ← h.eq, ← unit_eq_ofNat] at hcast
    linear_combination -hcast

theorem set_top (h : Packs k x lo mid top) (hw : 0 < w) : Packs k (x ||| topMask w) lo mid true where
  lo_lt := h.lo_lt
  fits := h.fits
  eq := by
    have hfits := h.fits
    apply BitVec.eq_of_toNat_eq
    have hpow : 2 ^ w = 2 * 2 ^ (w - 1) := by
      rw [← Nat.pow_succ']
      congr 1
      omega
    have htop : (topMask w).toNat = 2 ^ (w - 1) := by
      rw [topMask_eq_twoPow, BitVec.toNat_twoPow, Nat.mod_eq_of_lt (by omega)]
    have hor : (lo + 2 ^ k * mid) ||| 2 ^ (w - 1) = lo + 2 ^ k * mid + 2 ^ (w - 1) := by
      have hadd := Nat.two_pow_add_eq_or_of_lt hfits 1
      rw [Nat.mul_one] at hadd
      rw [Nat.or_comm, ← hadd]
      omega
    rw [BitVec.toNat_or, htop, h.toNat_eq hw, BitVec.toNat_ofNat, Nat.mod_eq_of_lt]
    . cases top with
      | false => simpa using hor
      | true =>
        simp only [↓reduceIte]
        rw [← hor, Nat.or_assoc, Nat.or_self]
    . simp
      omega

end Packs

end PackedWord
