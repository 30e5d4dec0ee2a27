import Berberis.Lib.BitMemory

/-!
# Lanes of a Register

A register of 128 bits is a row of lanes of the same width. Bit by bit operations
with a mask that is the same in all bits of a lane act on whole lanes.
-/

namespace Berberis.Lib

def lane (w : Nat) (r : BitVec 128) (i : Nat) : BitVec w := r.extractLsb' (w * i) w

theorem getLsbD_lane (w : Nat) (r : BitVec 128) (i b : Nat) :
    (lane w r i).getLsbD b = (decide (b < w) && r.getLsbD (w * i + b)) := by
  unfold lane
  rw [BitVec.getLsbD_extractLsb']

variable {w b i : Nat} {r : BitVec 128}

theorem getLsbD_lane_of_lt (r : BitVec 128) (i : Nat) (hb : b < w) :
    (lane w r i).getLsbD b = r.getLsbD (w * i + b) := by
  rw [getLsbD_lane, decide_eq_true hb, Bool.true_and]

def ofLanes (w : Nat) (f : Nat → BitVec w) : BitVec 128 :=
  ofBits (fun b => (f (b / w)).getLsbD (b % w)) 128

theorem getLsbD_ofLanes (w : Nat) (f : Nat → BitVec w) (hb : b < 128) :
    (ofLanes w f).getLsbD b = (f (b / w)).getLsbD (b % w) := by
  unfold ofLanes
  rw [getLsbD_ofBits, decide_eq_true hb, Bool.true_and]

theorem lane_ofLanes (f : Nat → BitVec w) (hi : w * i + w ≤ 128) :
    lane w (ofLanes w f) i = f i := by
  refine BitVec.eq_of_getLsbD_eq fun b hb => ?_
  rw [getLsbD_lane_of_lt _ i hb, getLsbD_ofLanes w f (by omega),
    Nat.mul_add_div (by omega), Nat.mul_add_mod, Nat.div_eq_of_lt hb, Nat.mod_eq_of_lt hb,
    Nat.add_zero]

theorem lane_congr {r' : BitVec 128} {j : Nat}
    (h : ∀ b < w, r.getLsbD (w * i + b) = r'.getLsbD (w * j + b)) : lane w r i = lane w r' j := by
  refine BitVec.eq_of_getLsbD_eq fun b hb => ?_
  rw [getLsbD_lane_of_lt r i hb, getLsbD_lane_of_lt r' j hb, h b hb]

theorem eq_of_lane_eq {n : Nat} {r' : BitVec 128} (hw : 0 < w) (hmul : w * n = 128)
    (h : ∀ i < n, lane w r i = lane w r' i) : r = r' := by
  refine BitVec.eq_of_getLsbD_eq fun b hb => ?_
  have hlane : b / w < n := Nat.div_lt_of_lt_mul (hmul.symm ▸ hb)
  have hbit := congrArg (BitVec.getLsbD · (b % w)) (h (b / w) hlane)
  simp only [getLsbD_lane_of_lt _ _ (Nat.mod_lt b hw), Nat.div_add_mod] at hbit
  exact hbit

theorem div_lane (hb : b < w) : (w * i + b) / w = i := by
  rw [Nat.mul_add_div (by omega), Nat.div_eq_of_lt hb, Nat.add_zero]

def setLane (w : Nat) (r : BitVec 128) (i : Nat) (value : BitVec w) : BitVec 128 :=
  ofLanes w fun j => if j = i then value else lane w r j

theorem lane_setLane {j : Nat} {value : BitVec w} (hj : w * j + w ≤ 128) :
    lane w (setLane w r i value) j = if j = i then value else lane w r j :=
  lane_ofLanes _ hj

/-- A register of zeros in which the first lanes are written one after another. -/
def writeLanes (w : Nat) (f : Nat → BitVec w) : Nat → BitVec 128
  | 0 => 0
  | n + 1 => setLane w (writeLanes w f n) n (f n)

theorem lane_writeLanes {f : Nat → BitVec w} {n : Nat} (hn : w * n ≤ 128) (hi : i < n) :
    lane w (writeLanes w f n) i = f i := by
  induction n with
  | zero => exact absurd hi (Nat.not_lt_zero i)
  | succ n ih =>
    rw [Nat.mul_succ] at hn
    have hmul : w * i ≤ w * n := Nat.mul_le_mul_left w (Nat.le_of_lt_succ hi)
    rw [writeLanes, lane_setLane (by omega)]
    by_cases h : i = n
    · rw [if_pos h, h]
    · rw [if_neg h]
      exact ih (by omega) (by omega)

theorem getLsbD_writeLanes {f : Nat → BitVec w} {n : Nat} (hw : 0 < w) (hb : w * n ≤ b) :
    (writeLanes w f n).getLsbD b = false := by
  induction n with
  | zero => exact BitVec.getLsbD_zero
  | succ n ih =>
    by_cases hlt : b < 128
    · have hdiv : n < b / w := Nat.succ_le_iff.mp ((Nat.le_div_iff_mul_le hw).mpr (by linarith))
      rw [writeLanes, setLane, getLsbD_ofLanes w _ hlt, if_neg (by omega),
        getLsbD_lane_of_lt _ _ (Nat.mod_lt b hw), Nat.div_add_mod]
      exact ih (le_trans (Nat.mul_le_mul_left w (Nat.le_succ n)) hb)
    · exact BitVec.getLsbD_of_ge _ b (by omega)

/-! Lanes of a register that is combined with a mask. -/

theorem lane_or_of_ones {m : BitVec 128} (h : ∀ b < w, m.getLsbD (w * i + b) = true) :
    lane w (r ||| m) i = BitVec.allOnes w := by
  refine BitVec.eq_of_getLsbD_eq fun b hb => ?_
  rw [getLsbD_lane_of_lt _ i hb, BitVec.getLsbD_or, h b hb, Bool.or_true, BitVec.getLsbD_allOnes,
    decide_eq_true hb]

theorem lane_or_of_zeros {m : BitVec 128} (h : ∀ b < w, m.getLsbD (w * i + b) = false) :
    lane w (r ||| m) i = lane w r i := by
  refine lane_congr fun b hb => ?_
  rw [BitVec.getLsbD_or, h b hb, Bool.or_false]

def maskFrom (n : Nat) : BitVec 128 := BitVec.allOnes 128 <<< n

theorem getLsbD_maskFrom (n : Nat) (hb : b < 128) : (maskFrom n).getLsbD b = decide (n ≤ b) := by
  unfold maskFrom
  rw [BitVec.getLsbD_shiftLeft, BitVec.getLsbD_allOnes]
  by_cases hn : n ≤ b
  · simp [hb, hn, Nat.lt_of_le_of_lt (Nat.sub_le b n) hb]
  · simp [hb, hn]

end Berberis.Lib
