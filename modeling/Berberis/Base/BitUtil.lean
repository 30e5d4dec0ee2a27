import Mathlib

/-!
# Alignment

Rounding of addresses of 64 bits to a power of two.
-/

namespace Berberis

def alignDown (x align : Nat) : Nat := x &&& ((2 ^ 64 - 1) ^^^ (align - 1))

def alignUp (x align : Nat) : Nat := alignDown ((x + align - 1) % 2 ^ 64) align

theorem alignDown_two_pow {x k : Nat} (hx : x < 2 ^ 64) :
    alignDown x (2 ^ k) = x / 2 ^ k * 2 ^ k := by
  rw [alignDown, ← Nat.shiftRight_eq_div_pow, ← Nat.shiftLeft_eq]
  apply Nat.eq_of_testBit_eq
  intro i
  rw [Nat.testBit_and, Nat.testBit_xor, Nat.testBit_two_pow_sub_one, Nat.testBit_two_pow_sub_one,
    Nat.testBit_shiftLeft, Nat.testBit_shiftRight]
  by_cases hi : i < 64
  · by_cases hik : i < k
    · simp [hi, hik]
    · simp [hi, hik, show k ≤ i by omega]
  · -- The number has no bits from 64 on.
    have hfalse : x.testBit i = false :=
      Nat.testBit_lt_two_pow (lt_of_lt_of_le hx (Nat.pow_le_pow_right (by omega) (by omega)))
    by_cases hik : k ≤ i
    · simp [hfalse, hik]
    · simp [hfalse, hik]

theorem alignUp_two_pow {x k : Nat} (hx : x + 2 ^ k ≤ 2 ^ 64) :
    alignUp x (2 ^ k) = (x + 2 ^ k - 1) / 2 ^ k * 2 ^ k := by
  rw [alignUp, Nat.mod_eq_of_lt (by omega), alignDown_two_pow (by omega)]

/-- A page size is a power of two, far below the size of the address space. -/
structure PageSize where
  log2 : Nat
  log2_le : log2 ≤ 32

def PageSize.size (page : PageSize) : Nat := 2 ^ page.log2

namespace PageSize

theorem twelve_le : 12 ≤ 32 := by omega

variable (page : PageSize)

theorem size_pos : 0 < page.size := Nat.two_pow_pos page.log2

theorem size_le : page.size ≤ 2 ^ 32 := Nat.pow_le_pow_right (by omega) page.log2_le

variable {x b : Nat}

theorem alignDown_eq (hx : x < 2 ^ 64) :
    alignDown x page.size = x / page.size * page.size := alignDown_two_pow hx

theorem alignUp_eq (hx : x + page.size ≤ 2 ^ 64) :
    alignUp x page.size = (x + page.size - 1) / page.size * page.size := alignUp_two_pow hx

theorem alignDown_le (hx : x < 2 ^ 64) : alignDown x page.size ≤ x := by
  rw [page.alignDown_eq hx]
  exact Nat.div_mul_le_self x page.size

theorem le_alignUp (hx : x + page.size ≤ 2 ^ 64) : x ≤ alignUp x page.size := by
  rw [page.alignUp_eq hx]
  have hlt := Nat.lt_div_mul_add (a := x + page.size - 1) page.size_pos
  omega

theorem alignUp_lt_add (hx : x + page.size ≤ 2 ^ 64) : alignUp x page.size < x + page.size := by
  rw [page.alignUp_eq hx]
  have hle := Nat.div_mul_le_self (x + page.size - 1) page.size
  have hpos := page.size_pos
  omega

theorem mul_lt_alignUp_iff {n : Nat} (hx : x + page.size ≤ 2 ^ 64) :
    n * page.size < alignUp x page.size ↔ n * page.size < x := by
  have hlt := page.alignUp_lt_add hx
  have hle := page.le_alignUp hx
  refine ⟨fun h => ?_, fun h => by omega⟩
  rw [page.alignUp_eq hx] at h hlt
  have hn : n + 1 ≤ (x + page.size - 1) / page.size := Nat.lt_of_mul_lt_mul_right h
  have hmul := Nat.mul_le_mul_right page.size hn
  rw [Nat.add_mul, Nat.one_mul] at hmul
  omega

theorem dvd_two_pow : page.size ∣ 2 ^ 64 :=
  pow_dvd_pow 2 (le_trans page.log2_le (by omega))

theorem add_size_le (hb : page.size ∣ b) (hlt : b < 2 ^ 64) : b + page.size ≤ 2 ^ 64 := by
  have hdvd : page.size ∣ 2 ^ 64 - b := Nat.dvd_sub page.dvd_two_pow hb
  have hle := Nat.le_of_dvd (by omega) hdvd
  omega

theorem alignDown_add {r : Nat} (hb : page.size ∣ b) (hr : r < page.size) (hlt : b + r < 2 ^ 64) :
    alignDown (b + r) page.size = b := by
  obtain ⟨k, rfl⟩ := hb
  rw [page.alignDown_eq hlt, Nat.mul_add_div page.size_pos, Nat.div_eq_of_lt hr, Nat.add_zero,
    Nat.mul_comm]

theorem sub_alignDown (hx : x < 2 ^ 64) : x - alignDown x page.size = x % page.size := by
  rw [page.alignDown_eq hx]
  have hdiv := Nat.div_add_mod' x page.size
  omega

theorem dvd_alignUp (hx : x + page.size ≤ 2 ^ 64) : page.size ∣ alignUp x page.size := by
  rw [page.alignUp_eq hx]
  exact Nat.dvd_mul_left _ _

end PageSize

end Berberis
