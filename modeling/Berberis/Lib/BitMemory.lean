import Mathlib

/-!
# Words in a Memory of Bytes

A memory is a byte for each address. Its bits are numbered through, from the
lowest bit of the byte at address zero on, in both directions. A word in memory
with the lowest byte first is then a run of bits.
-/

namespace Berberis.Lib

def ofBits (f : Nat → Bool) : (w : Nat) → BitVec w
  | 0 => 0#0
  | w + 1 => BitVec.cons (f w) (ofBits f w)

theorem getLsbD_ofBits (f : Nat → Bool) (w i : Nat) :
    (ofBits f w).getLsbD i = (decide (i < w) && f i) := by
  induction w with
  | zero => simp [ofBits]
  | succ w ih =>
    rw [ofBits, BitVec.getLsbD_cons, ih]
    by_cases hi : i = w
    · simp [hi]
    · rw [if_neg hi]
      congr 1
      simp only [decide_eq_decide]
      omega

def bitAt (mem : Int → BitVec 8) (i : Int) : Bool := (mem (i / 8)).getLsbD (i % 8).toNat

def readWord (mem : Int → BitVec 8) (address : Int) (w : Nat) : BitVec w :=
  ofBits (fun i => bitAt mem (8 * address + i)) w

theorem getLsbD_readWord (mem : Int → BitVec 8) (address : Int) (w i : Nat) :
    (readWord mem address w).getLsbD i = (decide (i < w) && bitAt mem (8 * address + i)) :=
  getLsbD_ofBits _ w i

theorem setWidth_readWord (mem : Int → BitVec 8) (address : Int) {v w : Nat} (h : w ≤ v) :
    (readWord mem address v).setWidth w = readWord mem address w := by
  refine BitVec.eq_of_getLsbD_eq fun i hi => ?_
  rw [BitVec.getLsbD_setWidth, getLsbD_readWord, getLsbD_readWord, decide_eq_true hi,
    decide_eq_true (Nat.lt_of_lt_of_le hi h)]
  simp only [Bool.true_and]

theorem readWord_congr {mem mem' : Int → BitVec 8} {address : Int} {w n : Nat} (hw : w ≤ 8 * n)
    (h : ∀ i < n, mem' (address + i) = mem (address + i)) :
    readWord mem' address w = readWord mem address w := by
  refine BitVec.eq_of_getLsbD_eq fun i hi => ?_
  have hbyte : (8 * address + (i : Int)) / 8 = address + ((i / 8 : Nat) : Int) := by omega
  rw [getLsbD_readWord, getLsbD_readWord]
  unfold bitAt
  rw [hbyte, h (i / 8) (by omega)]

def writeBytes (mem : Int → BitVec 8) (address : Int) (n : Nat) (f : Nat → BitVec 8) :
    Int → BitVec 8 :=
  fun a => if address ≤ a ∧ a < address + n then f (a - address).toNat else mem a

end Berberis.Lib
