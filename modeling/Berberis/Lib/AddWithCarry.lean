import Mathlib

/-!
# Addition with a Carry

The sum of two words and a carry, with four flags: the sign of the result, whether it is
zero, whether the sum of the unsigned values does not fit, and whether that of the signed
values does not. A difference is the sum with the inverted word and a carry, and its
flags say how the words compare. Words that are added one after another, each with the
carry of the last one, make the sum of long numbers.
-/

namespace Berberis.Lib

open BitVec

structure Nzcv where
  n : Bool
  z : Bool
  c : Bool
  v : Bool
  deriving DecidableEq

variable {w : Nat}

def addWithCarry (x y : BitVec w) (carry : Bool) : BitVec w × Nzcv :=
  let result := x + y + (BitVec.ofBool carry).setWidth w
  (result, ⟨result.msb, result == 0#w, decide (2 ^ w ≤ x.toNat + y.toNat + carry.toNat),
    decide (result.toInt ≠ x.toInt + y.toInt + carry.toNat)⟩)

theorem and_lowMask {n : Nat} (v : BitVec 64) (hn : n ≤ 64) :
    v &&& BitVec.ofNat 64 (2 ^ n - 1) = (v.setWidth n).setWidth 64 := by
  have hpow : 2 ^ n ≤ 2 ^ 64 := Nat.pow_le_pow_right (by omega) hn
  have hpos : 0 < 2 ^ n := Nat.two_pow_pos n
  refine eq_of_toNat_eq ?_
  rw [toNat_and, toNat_ofNat, Nat.mod_eq_of_lt (by omega),
    Nat.and_two_pow_sub_one_eq_mod, toNat_setWidth, toNat_setWidth,
    Nat.mod_eq_of_lt (Nat.lt_of_lt_of_le (Nat.mod_lt _ hpos) hpow)]

theorem msb_sub_of_msb_eq {a b : BitVec w} (h : a.msb = b.msb) : (a - b).msb = a.ult b := by
  rcases Nat.eq_zero_or_pos w with rfl | hw
  · simp [of_length_zero]
  · have hpow : 2 ^ w = 2 * 2 ^ (w - 1) := by
      rw [← Nat.pow_succ', Nat.succ_eq_add_one, Nat.sub_add_cancel hw]
    have ha := a.isLt
    have hb := b.isLt
    rw [msb_eq_decide, msb_eq_decide, decide_eq_decide] at h
    rw [msb_eq_decide, BitVec.ult, toNat_sub, decide_eq_decide]
    rcases Nat.lt_or_ge a.toNat b.toNat with hlt | hge
    · rw [Nat.mod_eq_of_lt (by omega)]
      omega
    · rw [show 2 ^ w - b.toNat + a.toNat = a.toNat - b.toNat + 2 ^ w by omega,
        Nat.add_mod_right, Nat.mod_eq_of_lt (by omega)]
      omega

theorem ult_of_msb_ne {a b : BitVec w} (h : a.msb ≠ b.msb) : a.ult b = b.msb := by
  rw [msb_eq_decide, msb_eq_decide, ne_eq, decide_eq_decide] at h
  rw [msb_eq_decide, BitVec.ult, decide_eq_decide]
  omega

theorem less_sub (a b : BitVec w) :
    ((a - b).msb != (a.msb != b.msb && (a - b).msb != a.msb)) = a.slt b := by
  rw [slt_eq_ult]
  by_cases h : a.msb = b.msb
  · rw [msb_sub_of_msb_eq h, h]
    simp
  · rw [ult_of_msb_ne h]
    cases ha : a.msb <;> cases hb : b.msb <;> cases (a - b).msb <;> simp_all

def wordsValue (words : List (BitVec w)) : Nat :=
  words.foldr (fun word rest => word.toNat + 2 ^ w * rest) 0

theorem toNat_addWithCarry (hw : 0 < w) (x y : BitVec w) (carry : Bool) :
    (addWithCarry x y carry).1.toNat + (addWithCarry x y carry).2.c.toNat * 2 ^ w =
      x.toNat + y.toNat + carry.toNat := by
  have hx := x.isLt
  have hy := y.isLt
  have hc := Bool.toNat_le carry
  have hbit : ((BitVec.ofBool carry).setWidth w).toNat = carry.toNat := by
    have hone : 1 < 2 ^ w := Nat.one_lt_two_pow (by omega)
    rw [toNat_setWidth, toNat_ofBool, Nat.mod_eq_of_lt (by omega)]
  have hsum : (addWithCarry x y carry).1.toNat = (x.toNat + y.toNat + carry.toNat) % 2 ^ w := by
    simp [addWithCarry, toNat_add, hbit]
  rw [hsum]
  by_cases hle : 2 ^ w ≤ x.toNat + y.toNat + carry.toNat
  · have hflag : (addWithCarry x y carry).2.c = true := decide_eq_true hle
    rw [hflag, Nat.mod_eq_sub_mod hle, Nat.mod_eq_of_lt (by omega), Bool.toNat_true]
    omega
  · have hflag : (addWithCarry x y carry).2.c = false := decide_eq_false hle
    rw [hflag, Nat.mod_eq_of_lt (by omega), Bool.toNat_false]
    omega

theorem v_addWithCarry (hw : 0 < w) (x y : BitVec w) (carry : Bool) : (addWithCarry x y carry).2.v =
      (x.msb == y.msb && (addWithCarry x y carry).1.msb != x.msb) := by
  have hsum := toNat_addWithCarry hw x y carry
  have hv : (addWithCarry x y carry).2.v =
      decide ((addWithCarry x y carry).1.toInt ≠ x.toInt + y.toInt + carry.toNat) := rfl
  have hx := x.isLt
  have hy := y.isLt
  have hr := (addWithCarry x y carry).1.isLt
  have hc := Bool.toNat_le carry
  have hc' := Bool.toNat_le (addWithCarry x y carry).2.c
  have hpow : 2 ^ w = 2 * 2 ^ (w - 1) := by
    rw [← Nat.pow_succ', Nat.succ_eq_add_one, Nat.sub_add_cancel hw]
  generalize (addWithCarry x y carry).1 = r at *
  generalize (addWithCarry x y carry).2.c = c' at *
  rw [hv, Bool.eq_iff_iff]
  simp only [toInt_eq_msb_cond, msb_eq_decide, decide_eq_true_eq, Bool.and_eq_true,
    beq_iff_eq, bne_iff_ne, ne_eq, decide_eq_decide]
  -- The carry out decides by how much the result differs from the sum.
  cases c' <;> simp only [Bool.toNat_true, Bool.toNat_false] at hsum hc' <;> split_ifs <;> omega

section

variable (x y : BitVec w)

theorem addWithCarry_not : (addWithCarry x (~~~y) true).1 = x - y := by
  unfold addWithCarry
  rw [sub_eq_add_neg, neg_eq_not_add, add_assoc]
  rcases Nat.eq_zero_or_pos w with rfl | hw
  · exact Subsingleton.elim _ _
  · refine congrArg (fun one => x + (~~~y + one)) (eq_of_toNat_eq ?_)
    simp [toNat_setWidth]

theorem z_addWithCarry_not : (addWithCarry x (~~~y) true).2.z = decide (x = y) := by
  have hz : (addWithCarry x (~~~y) true).2.z = ((addWithCarry x (~~~y) true).1 == 0#w) := rfl
  rw [hz, addWithCarry_not, Bool.eq_iff_iff, beq_iff_eq, decide_eq_true_eq]
  constructor
  · intro h
    rw [← BitVec.sub_add_cancel x y, h, BitVec.zero_add]
  · intro h
    rw [h, BitVec.sub_self]

theorem c_addWithCarry_not : (addWithCarry x (~~~y) true).2.c = decide (y.toNat ≤ x.toNat) := by
  have hy := y.isLt
  simp only [addWithCarry, toNat_not, Bool.toNat_true, decide_eq_decide]
  omega

theorem lt_addWithCarry_not (hw : 0 < w) :
    ((addWithCarry x (~~~y) true).2.n != (addWithCarry x (~~~y) true).2.v) =
      decide (x.toInt < y.toInt) := by
  have hn : (addWithCarry x (~~~y) true).2.n = (addWithCarry x (~~~y) true).1.msb := rfl
  rw [v_addWithCarry hw, hn, addWithCarry_not, msb_not, decide_eq_true hw, Bool.true_and]
  refine Eq.trans ?_ (less_sub x y)
  cases x.msb <;> cases y.msb <;> rfl

end

end Berberis.Lib
