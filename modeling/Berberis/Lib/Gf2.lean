import Mathlib

/-!
# Words as Polynomials over GF(2)

Exclusive or is the addition of such polynomials. A function that respects it is known from
its values on the words with one bit.

## Theorems

* `Additive.eq_of_basis`: Two such functions that agree on words with one bit are the same.
* `JointlyAdditive.eq_of_basis`: The same for functions of two words.
* `clmul_additive`: The product without carries respects the addition.
-/

namespace Berberis.Lib

variable {m n : Nat}

def Additive (f : BitVec m → BitVec n) : Prop := ∀ x y, f (x ^^^ y) = f x ^^^ f y

theorem Additive.zero {f : BitVec m → BitVec n} (hf : Additive f) : f 0 = 0 := by
  have h := hf 0 0
  rwa [BitVec.xor_self, BitVec.xor_self] at h

/-- The word `x` below bit `k`, and its bit `k`. -/
theorem setWidth_succ_xor (x : BitVec m) (k : Nat) : (x.setWidth (k + 1)).setWidth m =
      (x.setWidth k).setWidth m ^^^ if x.getLsbD k then BitVec.twoPow m k else 0 := by
  refine BitVec.eq_of_getLsbD_eq fun i hi => ?_
  rw [BitVec.getLsbD_xor]
  simp only [BitVec.getLsbD_setWidth, hi, decide_true, Bool.true_and]
  by_cases hik : i = k
  · subst hik
    cases h : x.getLsbD i <;> simp [hi]
  · have : decide (i < k + 1) = decide (i < k) := by
      congr 1
      exact propext (by omega)
    rw [this]
    split
    · simp [BitVec.getLsbD_twoPow, Ne.symm hik]
    · simp

theorem Additive.eq_of_basis {f g : BitVec m → BitVec n} (hf : Additive f) (hg : Additive g)
    (h : ∀ i : Fin m, f (BitVec.twoPow m i) = g (BitVec.twoPow m i))
    (x : BitVec m) : f x = g x := by
  -- By induction on how many bits of `x` are taken into account.
  have hlow : ∀ k ≤ m, f ((x.setWidth k).setWidth m) = g ((x.setWidth k).setWidth m) := by
    intro k
    induction k with
    | zero =>
      intro _
      rw [BitVec.eq_nil (x.setWidth 0), show (BitVec.nil.setWidth m) = 0 by simp, hf.zero, hg.zero]
    | succ k ih =>
      intro hk
      rw [setWidth_succ_xor, hf, hg, ih (by omega)]
      split
      · rw [h ⟨k, hk⟩]
      · rw [hf.zero, hg.zero]
  have := hlow m (Nat.le_refl m)
  rwa [BitVec.setWidth_eq, BitVec.setWidth_eq] at this

def JointlyAdditive (f : BitVec m → BitVec m → BitVec n) : Prop :=
  ∀ a a' b b', f (a ^^^ a') (b ^^^ b') = f a b ^^^ f a' b'

section

variable {f g : BitVec m → BitVec m → BitVec n}

theorem JointlyAdditive.split (hf : JointlyAdditive f) (a b : BitVec m) :
    f a b = f a 0#m ^^^ f 0#m b := by
  rw [← hf, BitVec.xor_zero, BitVec.zero_xor]

theorem JointlyAdditive.left (hf : JointlyAdditive f) : Additive fun a => f a 0#m := by
  intro x y
  rw [← hf, BitVec.xor_self]

theorem JointlyAdditive.right (hf : JointlyAdditive f) : Additive fun b => f 0#m b := by
  intro x y
  rw [← hf, BitVec.xor_self]

theorem JointlyAdditive.eq_of_basis (hf : JointlyAdditive f) (hg : JointlyAdditive g)
    (hleft : ∀ i : Fin m, f (BitVec.twoPow m i) 0#m = g (BitVec.twoPow m i) 0#m)
    (hright : ∀ i : Fin m, f 0#m (BitVec.twoPow m i) = g 0#m (BitVec.twoPow m i))
    (a b : BitVec m) : f a b = g a b := by
  rw [hf.split, hg.split, hf.left.eq_of_basis hg.left hleft a,
    hf.right.eq_of_basis hg.right hright b]

end

/-- The product of `a` and the lowest bits of `b`. -/
def clmulBits (a b : BitVec 64) : Nat → BitVec 128
  | 0 => 0
  | k + 1 => clmulBits a b k ^^^ if b.getLsbD k then a.setWidth 128 <<< k else 0

def clmul (a b : BitVec 64) : BitVec 128 := clmulBits a b 64

theorem clmulBits_additive (b : BitVec 64) (k : Nat) : Additive fun a => clmulBits a b k := by
  intro x y
  induction k with
  | zero => exact (BitVec.xor_self).symm
  | succ k ih =>
    simp only [clmulBits, ih]
    split
    · rw [BitVec.setWidth_xor, BitVec.shiftLeft_xor_distrib]
      ac_rfl
    · simp

theorem clmul_additive (b : BitVec 64) : Additive fun a => clmul a b := clmulBits_additive b 64

end Berberis.Lib
