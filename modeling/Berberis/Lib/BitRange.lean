import Mathlib

/-!
# Bits and Ranges

Which numbers a bit vector may stand for is seen from its bits. The low bits tell
by which power of two the number can be divided. The high bits tell how large it
is: a number fits in fewer bits if the bits above them are all like the highest.
-/

namespace Berberis.Lib.BitRange

open BitVec

variable {w : Nat} (x : BitVec w) {a n : Nat}

theorem lt_two_pow_iff : x.toNat < 2 ^ n ↔ ∀ i, n ≤ i → x.getLsbD i = false := by
  constructor
  · intro hlt i hi
    rw [← testBit_toNat]
    exact Nat.testBit_lt_two_pow (hlt.trans_le (Nat.pow_le_pow_right (by omega) hi))
  · intro hbits
    refine Nat.lt_pow_two_of_testBit _ fun i hi => ?_
    rw [testBit_toNat]
    exact hbits i hi

theorem two_pow_dvd_toNat_iff : 2 ^ a ∣ x.toNat ↔ ∀ i < a, x.getLsbD i = false := by
  rw [Nat.dvd_iff_mod_eq_zero]
  constructor
  · intro hmod i hi
    have hbit := Nat.testBit_mod_two_pow x.toNat a i
    rw [hmod, Nat.zero_testBit, testBit_toNat] at hbit
    simpa [hi] using hbit.symm
  · intro hbits
    refine Nat.eq_of_testBit_eq fun i => ?_
    rw [Nat.testBit_mod_two_pow, Nat.zero_testBit, testBit_toNat]
    by_cases hi : i < a
    · simp [hbits i hi]
    · simp [hi]

theorem two_pow_dvd_toInt_iff : (2 : Int) ^ a ∣ x.toInt ↔ ∀ i < a, x.getLsbD i = false := by
  have hcast : (2 : Int) ^ a ∣ (x.toNat : Int) ↔ 2 ^ a ∣ x.toNat := by
    rw [← Int.natCast_dvd_natCast]
    push_cast
    rfl
  rw [← two_pow_dvd_toNat_iff, ← hcast]
  by_cases ha : a ≤ w
  · have hw : ((2 : Int) ^ a) ∣ ((2 ^ w : Nat) : Int) := by
      push_cast
      exact pow_dvd_pow 2 ha
    rw [toInt_eq_msb_cond]
    split
    · exact (Int.dvd_iff_dvd_of_dvd_sub (by simpa using hw)).symm
    · rfl
  · -- Only zero can be divided by a number above all of the width.
    have hpow : 2 ^ w < 2 ^ a := Nat.pow_lt_pow_right (by omega) (by omega)
    have hx := x.isLt
    rw [toInt_eq_toNat_cond]
    constructor
    · intro hdvd
      have hzero := Int.eq_zero_of_abs_lt_dvd hdvd (by
        have hpow' : (2 : Int) ^ a = ((2 ^ a : Nat) : Int) := by push_cast; rfl
        rw [abs_lt, hpow']
        split <;> omega)
      split at hzero
      · rw [hzero]
        exact Int.dvd_zero _
      · omega
    · intro hdvd
      have hzero := Nat.eq_zero_of_dvd_of_lt (hcast.mp hdvd) (by omega)
      rw [hzero]
      simp

theorem upper_zeros_iff : (∀ i, n ≤ i → i < w → x.getLsbD i = false) ↔ x.toNat < 2 ^ n := by
  rw [lt_two_pow_iff]
  refine ⟨fun h i hi => ?_, fun h i hi _ => h i hi⟩
  by_cases hlt : i < w
  · exact h i hi hlt
  · exact x.getLsbD_of_ge i (by omega)

theorem upper_ones_iff (hn : n < w) :
    (∀ i, n ≤ i → i < w → x.getLsbD i = true) ↔ 2 ^ w - 2 ^ n ≤ x.toNat := by
  have hnot : (∀ i, n ≤ i → i < w → x.getLsbD i = true) ↔
      ∀ i, n ≤ i → i < w → (~~~x).getLsbD i = false := by
    refine forall_congr' fun i => forall_congr' fun _ => forall_congr' fun hi => ?_
    simp [hi]
  rw [hnot, upper_zeros_iff, toNat_not]
  have hx := x.isLt
  have hpow : 2 ^ n < 2 ^ w := Nat.pow_lt_pow_right (by omega) hn
  omega

theorem toInt_range_iff (hn : n < w) : (-(2 : Int) ^ n ≤ x.toInt ∧ x.toInt < 2 ^ n) ↔
      ∀ i, n ≤ i → i < w → x.getLsbD i = x.msb := by
  have hpow : 2 ^ n * 2 ≤ 2 ^ w := by
    rw [← Nat.pow_succ]
    exact Nat.pow_le_pow_right (by omega) hn
  have hcast : (2 : Int) ^ n = ((2 ^ n : Nat) : Int) := by push_cast; rfl
  have hx := x.isLt
  rw [toInt_eq_toNat_cond, msb_eq_decide, hcast]
  have hhalf : 2 ^ w = 2 * 2 ^ (w - 1) := by
    rw [Nat.mul_comm, ← Nat.pow_succ, Nat.succ_eq_add_one, Nat.sub_add_cancel (by omega)]
  by_cases hmsb : 2 ^ (w - 1) ≤ x.toNat
  · simp only [hmsb, decide_true]
    rw [upper_ones_iff x hn, if_neg (by omega)]
    omega
  · simp only [hmsb, decide_false]
    rw [upper_zeros_iff, if_pos (by omega)]
    omega

def valueOf (isSigned : Bool) (x : BitVec w) : Int := if isSigned then x.toInt else x.toNat

/-- A mask of the lowest `a` bits, and of those from `n` on. -/
structure IsRangeMask (mask low : BitVec 64) (a n : Nat) : Prop where
  le : a ≤ n
  mask : ∀ i < 64, mask.getLsbD i = (decide (i < a) || decide (n ≤ i))
  low : ∀ i < 64, low.getLsbD i = decide (i < a)

variable {x} {mask low : BitVec 64}

theorem and_mask_eq_zero_iff (hw : w ≤ 64) (h : IsRangeMask mask low a n) :
    x &&& mask.setWidth w = 0 ↔
      (∀ i < a, x.getLsbD i = false) ∧ ∀ i, n ≤ i → x.getLsbD i = false := by
  constructor
  · intro hzero
    have hbit : ∀ i, (i < a ∨ n ≤ i) → x.getLsbD i = false := by
      intro i hi
      by_cases hlt : i < w
      · have hbit := congrArg (BitVec.getLsbD · i) hzero
        have hmask : mask.getLsbD i = true := by
          rw [h.mask i (by omega)]
          simpa using hi
        simpa [hlt, hmask] using hbit
      · exact x.getLsbD_of_ge i (by omega)
    exact ⟨fun i hi => hbit i (Or.inl hi), fun i hi => hbit i (Or.inr hi)⟩
  · rintro ⟨hlow, hhigh⟩
    refine eq_of_getLsbD_eq fun i hi => ?_
    simp only [getLsbD_and, getLsbD_setWidth, hi, decide_true, Bool.true_and,
      h.mask i (by omega), ofNat_eq_ofNat, getLsbD_zero]
    by_cases hlt : i < a
    · simp [hlow i hlt]
    · by_cases hle : n ≤ i
      · simp [hhigh i hle]
      · simp [hlt, hle]

theorem bits_of_and_mask_eq_ones (hw : w ≤ 64) (h : IsRangeMask mask low a n)
    (heq : (x &&& mask.setWidth w).signExtend 64 = (mask.setWidth w).signExtend 64 &&& ~~~low) :
    (∀ i < a, x.getLsbD i = false) ∧ ∀ i, n ≤ i → i < w → x.getLsbD i = true := by
  have hle := h.le
  have hbit : ∀ i < w, (x.getLsbD i && (decide (i < a) || decide (n ≤ i))) =
      ((decide (i < a) || decide (n ≤ i)) && !decide (i < a)) := by
    intro i hi
    have hbit := congrArg (BitVec.getLsbD · i) heq
    have hi' : i < 64 := by omega
    simpa only [getLsbD_signExtend, getLsbD_and, getLsbD_setWidth,
      getLsbD_not, hi, hi', if_true, decide_true, Bool.true_and, h.mask i hi',
      h.low i hi'] using hbit
  constructor
  · intro i hi
    by_cases hlt : i < w
    · simpa [hi] using hbit i hlt
    · exact x.getLsbD_of_ge i (by omega)
  · intro i hi hlt
    have hna : ¬i < a := by omega
    simpa [hi, hna] using hbit i hlt

theorem and_mask_eq_ones_iff (hw : w ≤ 64) (hn : n < w) (h : IsRangeMask mask low a n) :
    (x &&& mask.setWidth w).signExtend 64 = (mask.setWidth w).signExtend 64 &&& ~~~low ↔
      (∀ i < a, x.getLsbD i = false) ∧ ∀ i, n ≤ i → i < w → x.getLsbD i = true := by
  have hle := h.le
  have hmsb : (mask.setWidth w).msb = true := by
    rw [msb_eq_getLsbD_last, getLsbD_setWidth, h.mask _ (by omega)]
    simp
    omega
  constructor
  · exact bits_of_and_mask_eq_ones hw h
  · rintro ⟨hlow, hhigh⟩
    refine eq_of_getLsbD_eq fun i hi => ?_
    simp only [getLsbD_signExtend, getLsbD_and, getLsbD_not, hi, decide_true,
      Bool.true_and, msb_and, hmsb, h.low i hi, Bool.and_true]
    by_cases hlt : i < w
    · simp only [hlt, if_true, getLsbD_setWidth, decide_true, Bool.true_and, h.mask i hi]
      by_cases hia : i < a
      · simp [hlow i hia, hia]
      · by_cases hin : n ≤ i
        · simp [hhigh i hin hlt, hin, hia]
        · simp [hia, hin]
    · have hia : ¬i < a := by omega
      have hx : x.msb = true := by
        rw [msb_eq_getLsbD_last]
        exact hhigh _ (by omega) (by omega)
      simp [hlt, hia, hx]

variable (x)

theorem shiftLeft_sshiftRight {k : Nat} (hk : k < w) (hlo : -(2 : Int) ^ (w - 1 - k) ≤ x.toInt)
    (hhi : x.toInt < 2 ^ (w - 1 - k)) : (x <<< k).sshiftRight k = x := by
  have hbits := (toInt_range_iff x (by omega)).mp ⟨hlo, hhi⟩
  refine eq_of_getLsbD_eq fun i hi => ?_
  rw [getLsbD_sshiftRight, msb_eq_getLsbD_last]
  simp only [getLsbD_shiftLeft]
  by_cases hlt : k + i < w
  · have hsub : k + i - k = i := by omega
    simp [hi, hlt, hsub]
  · -- The bits that were shifted out are like those that were not.
    have hlast : ¬w - 1 < k := by omega
    have hlt' : w - 1 < w := by omega
    rw [hbits i (by omega) hi, ← hbits (w - 1 - k) (by omega) (by omega)]
    simp only [hlt, if_false, hlast, decide_false, Bool.not_false, hlt', decide_true, Bool.and_true,
      Bool.true_and, not_le.mpr hi]

end Berberis.Lib.BitRange
