import Berberis.Lib.Gf2
import Berberis.Lib.Lanes

/-!
# AES Rounds

Half a round of AES is an instruction: the key and the substitution and permutation of bytes, or
the mixing of columns, in either direction. A column is mixed by a matrix over GF(2^8) whose rows
are one row rotated.

## Theorems

* `aes_inverse`: The instructions of the two directions undo each other.
-/

namespace Berberis.Arm64.Aes

open Lib

def kSbox : List (BitVec 8) :=
  [0x63, 0x7c, 0x77, 0x7b, 0xf2, 0x6b, 0x6f, 0xc5, 0x30, 0x01, 0x67, 0x2b, 0xfe, 0xd7, 0xab, 0x76,
   0xca, 0x82, 0xc9, 0x7d, 0xfa, 0x59, 0x47, 0xf0, 0xad, 0xd4, 0xa2, 0xaf, 0x9c, 0xa4, 0x72, 0xc0,
   0xb7, 0xfd, 0x93, 0x26, 0x36, 0x3f, 0xf7, 0xcc, 0x34, 0xa5, 0xe5, 0xf1, 0x71, 0xd8, 0x31, 0x15,
   0x04, 0xc7, 0x23, 0xc3, 0x18, 0x96, 0x05, 0x9a, 0x07, 0x12, 0x80, 0xe2, 0xeb, 0x27, 0xb2, 0x75,
   0x09, 0x83, 0x2c, 0x1a, 0x1b, 0x6e, 0x5a, 0xa0, 0x52, 0x3b, 0xd6, 0xb3, 0x29, 0xe3, 0x2f, 0x84,
   0x53, 0xd1, 0x00, 0xed, 0x20, 0xfc, 0xb1, 0x5b, 0x6a, 0xcb, 0xbe, 0x39, 0x4a, 0x4c, 0x58, 0xcf,
   0xd0, 0xef, 0xaa, 0xfb, 0x43, 0x4d, 0x33, 0x85, 0x45, 0xf9, 0x02, 0x7f, 0x50, 0x3c, 0x9f, 0xa8,
   0x51, 0xa3, 0x40, 0x8f, 0x92, 0x9d, 0x38, 0xf5, 0xbc, 0xb6, 0xda, 0x21, 0x10, 0xff, 0xf3, 0xd2,
   0xcd, 0x0c, 0x13, 0xec, 0x5f, 0x97, 0x44, 0x17, 0xc4, 0xa7, 0x7e, 0x3d, 0x64, 0x5d, 0x19, 0x73,
   0x60, 0x81, 0x4f, 0xdc, 0x22, 0x2a, 0x90, 0x88, 0x46, 0xee, 0xb8, 0x14, 0xde, 0x5e, 0x0b, 0xdb,
   0xe0, 0x32, 0x3a, 0x0a, 0x49, 0x06, 0x24, 0x5c, 0xc2, 0xd3, 0xac, 0x62, 0x91, 0x95, 0xe4, 0x79,
   0xe7, 0xc8, 0x37, 0x6d, 0x8d, 0xd5, 0x4e, 0xa9, 0x6c, 0x56, 0xf4, 0xea, 0x65, 0x7a, 0xae, 0x08,
   0xba, 0x78, 0x25, 0x2e, 0x1c, 0xa6, 0xb4, 0xc6, 0xe8, 0xdd, 0x74, 0x1f, 0x4b, 0xbd, 0x8b, 0x8a,
   0x70, 0x3e, 0xb5, 0x66, 0x48, 0x03, 0xf6, 0x0e, 0x61, 0x35, 0x57, 0xb9, 0x86, 0xc1, 0x1d, 0x9e,
   0xe1, 0xf8, 0x98, 0x11, 0x69, 0xd9, 0x8e, 0x94, 0x9b, 0x1e, 0x87, 0xe9, 0xce, 0x55, 0x28, 0xdf,
   0x8c, 0xa1, 0x89, 0x0d, 0xbf, 0xe6, 0x42, 0x68, 0x41, 0x99, 0x2d, 0x0f, 0xb0, 0x54, 0xbb, 0x16]

def kInvSbox : List (BitVec 8) :=
  [0x52, 0x09, 0x6a, 0xd5, 0x30, 0x36, 0xa5, 0x38, 0xbf, 0x40, 0xa3, 0x9e, 0x81, 0xf3, 0xd7, 0xfb,
   0x7c, 0xe3, 0x39, 0x82, 0x9b, 0x2f, 0xff, 0x87, 0x34, 0x8e, 0x43, 0x44, 0xc4, 0xde, 0xe9, 0xcb,
   0x54, 0x7b, 0x94, 0x32, 0xa6, 0xc2, 0x23, 0x3d, 0xee, 0x4c, 0x95, 0x0b, 0x42, 0xfa, 0xc3, 0x4e,
   0x08, 0x2e, 0xa1, 0x66, 0x28, 0xd9, 0x24, 0xb2, 0x76, 0x5b, 0xa2, 0x49, 0x6d, 0x8b, 0xd1, 0x25,
   0x72, 0xf8, 0xf6, 0x64, 0x86, 0x68, 0x98, 0x16, 0xd4, 0xa4, 0x5c, 0xcc, 0x5d, 0x65, 0xb6, 0x92,
   0x6c, 0x70, 0x48, 0x50, 0xfd, 0xed, 0xb9, 0xda, 0x5e, 0x15, 0x46, 0x57, 0xa7, 0x8d, 0x9d, 0x84,
   0x90, 0xd8, 0xab, 0x00, 0x8c, 0xbc, 0xd3, 0x0a, 0xf7, 0xe4, 0x58, 0x05, 0xb8, 0xb3, 0x45, 0x06,
   0xd0, 0x2c, 0x1e, 0x8f, 0xca, 0x3f, 0x0f, 0x02, 0xc1, 0xaf, 0xbd, 0x03, 0x01, 0x13, 0x8a, 0x6b,
   0x3a, 0x91, 0x11, 0x41, 0x4f, 0x67, 0xdc, 0xea, 0x97, 0xf2, 0xcf, 0xce, 0xf0, 0xb4, 0xe6, 0x73,
   0x96, 0xac, 0x74, 0x22, 0xe7, 0xad, 0x35, 0x85, 0xe2, 0xf9, 0x37, 0xe8, 0x1c, 0x75, 0xdf, 0x6e,
   0x47, 0xf1, 0x1a, 0x71, 0x1d, 0x29, 0xc5, 0x89, 0x6f, 0xb7, 0x62, 0x0e, 0xaa, 0x18, 0xbe, 0x1b,
   0xfc, 0x56, 0x3e, 0x4b, 0xc6, 0xd2, 0x79, 0x20, 0x9a, 0xdb, 0xc0, 0xfe, 0x78, 0xcd, 0x5a, 0xf4,
   0x1f, 0xdd, 0xa8, 0x33, 0x88, 0x07, 0xc7, 0x31, 0xb1, 0x12, 0x10, 0x59, 0x27, 0x80, 0xec, 0x5f,
   0x60, 0x51, 0x7f, 0xa9, 0x19, 0xb5, 0x4a, 0x0d, 0x2d, 0xe5, 0x7a, 0x9f, 0x93, 0xc9, 0x9c, 0xef,
   0xa0, 0xe0, 0x3b, 0x4d, 0xae, 0x2a, 0xf5, 0xb0, 0xc8, 0xeb, 0xbb, 0x3c, 0x83, 0x53, 0x99, 0x61,
   0x17, 0x2b, 0x04, 0x7e, 0xba, 0x77, 0xd6, 0x26, 0xe1, 0x69, 0x14, 0x63, 0x55, 0x21, 0x0c, 0x7d]

def kShiftRows : List Nat := [0, 5, 10, 15, 4, 9, 14, 3, 8, 13, 2, 7, 12, 1, 6, 11]

def kInvShiftRows : List Nat := [0, 13, 10, 7, 4, 1, 14, 11, 8, 5, 2, 15, 12, 9, 6, 3]

def substitute (table : List (BitVec 8)) (x : BitVec 8) : BitVec 8 := table.getD x.toNat 0

def permute (table : List Nat) (i : Nat) : Nat := table.getD i 0

def xtime (x : BitVec 8) : BitVec 8 := (x <<< 1) ^^^ (if x &&& 0x80 ≠ 0 then 0x1b else 0)

def mulGf (x : BitVec 8) (coeff : Nat) : BitVec 8 :=
  let x2 := xtime x
  let x4 := xtime x2
  let x8 := xtime x4
  match coeff with
  | 1 => x
  | 2 => x2
  | 3 => x2 ^^^ x
  | 9 => x8 ^^^ x
  | 11 => x8 ^^^ x2 ^^^ x
  | 13 => x8 ^^^ x4 ^^^ x
  | 14 => x8 ^^^ x4 ^^^ x2
  | _ => 0

local instance neZeroColumn : NeZero 4 := ⟨by omega⟩

/-- Byte `r` of a mixed column. The first row of the matrix is rotated by `r`. -/
def mixColumn (row : Fin 4 → Nat) (a : Fin 4 → BitVec 8) (r : Fin 4) : BitVec 8 :=
  mulGf (a 0) (row (0 - r)) ^^^ mulGf (a 1) (row (1 - r)) ^^^ mulGf (a 2) (row (2 - r)) ^^^
    mulGf (a 3) (row (3 - r))

def mixColumns (row : Fin 4 → Nat) (x : BitVec 128) : BitVec 128 :=
  ofLanes 8 fun i => mixColumn row (fun k => lane 8 x (4 * (i / 4) + k)) (Fin.ofNat 4 i)

def kMixRow : Fin 4 → Nat := ![2, 3, 1, 1]

def kInvMixRow : Fin 4 → Nat := ![14, 11, 13, 9]

/-- What `CryptoAes` writes to `V[rd]`, which was `d`, for `V[rn]` equal to `n`. -/
def cryptoAes (opcode : Nat) (d n : BitVec 128) : BitVec 128 :=
  match opcode with
  | 0b00 =>
    let sb := fun i => substitute kSbox (lane 8 (d ^^^ n) i)
    ofLanes 8 fun i => sb (permute kShiftRows i)
  | 0b01 =>
    let isr := fun i => lane 8 (d ^^^ n) (permute kInvShiftRows i)
    ofLanes 8 fun i => substitute kInvSbox (isr i)
  | 0b10 => mixColumns kMixRow n
  | _ => mixColumns kInvMixRow n

theorem substitute_inverse (x : BitVec 8) : substitute kInvSbox (substitute kSbox x) = x ∧
    substitute kSbox (substitute kInvSbox x) = x := by
  revert x
  decide +kernel

theorem permute_inverse {i : Nat} (hi : i < 16) :
    permute kInvShiftRows i < 16 ∧ permute kShiftRows i < 16 ∧
      permute kShiftRows (permute kInvShiftRows i) = i ∧
      permute kInvShiftRows (permute kShiftRows i) = i := by
  revert i
  decide

theorem xtime_xor (x y : BitVec 8) : xtime (x ^^^ y) = xtime x ^^^ xtime y := by
  have hbit : ∀ x : BitVec 8, x &&& 0x80 ≠ 0 ↔ x.getLsbD 7 = true := by decide
  unfold xtime
  simp only [hbit, BitVec.getLsbD_xor, BitVec.shiftLeft_xor_distrib]
  generalize x <<< 1 = a, y <<< 1 = b
  have hcanc : a ^^^ b = a ^^^ 0x1b ^^^ (b ^^^ 0x1b) := by
    rw [BitVec.xor_comm b, BitVec.xor_assoc, ← BitVec.xor_assoc 0x1b, BitVec.xor_self,
      BitVec.zero_xor]
  cases x.getLsbD 7 <;> cases y.getLsbD 7
  · simp
  · simp [BitVec.xor_assoc]
  · simp [BitVec.xor_assoc, BitVec.xor_comm b]
  · simpa using hcanc

theorem mulGf_xor (x y : BitVec 8) (coeff : Nat) :
    mulGf (x ^^^ y) coeff = mulGf x coeff ^^^ mulGf y coeff := by
  unfold mulGf
  simp only [xtime_xor]
  split <;> ac_rfl

/-- One matrix undoes the other if entry `(r, j)` of their product is 1 for `r = j` and else 0,
    which has to be known for bytes with one bit only. -/
theorem mixColumn_inverse {row row' : Fin 4 → Nat}
    (h : ∀ (i : Fin 8) (r j : Fin 4), mixColumn row' (fun k => mulGf (BitVec.twoPow 8 i)
      (row (j - k))) r = if j = r then BitVec.twoPow 8 i else 0)
    (a : Fin 4 → BitVec 8) (r : Fin 4) :
    mixColumn row' (mixColumn row a) r = a r := by
  have hentry : ∀ x j, mixColumn row' (fun k => mulGf x (row (j - k))) r =
      if j = r then x else 0 := by
    intro x j
    refine Additive.eq_of_basis (f := fun x => mixColumn row' (fun k => mulGf x (row (j - k))) r)
      (g := fun x => if j = r then x else 0) (fun x y => ?_) (fun x y => ?_) (h · r j) x
    · simp only [mixColumn, mulGf_xor]
      ac_rfl
    · split <;> simp
  have hsum : mixColumn row' (mixColumn row a) r =
      mixColumn row' (fun k => mulGf (a 0) (row (0 - k))) r ^^^
      mixColumn row' (fun k => mulGf (a 1) (row (1 - k))) r ^^^
      mixColumn row' (fun k => mulGf (a 2) (row (2 - k))) r ^^^
      mixColumn row' (fun k => mulGf (a 3) (row (3 - k))) r := by
    simp only [mixColumn, mulGf_xor]
    ac_rfl
  rw [hsum, hentry, hentry, hentry, hentry]
  fin_cases r <;> simp

theorem mixColumns_inverse {row row' : Fin 4 → Nat}
    (h : ∀ a r, mixColumn row' (mixColumn row a) r = a r) (x : BitVec 128) :
    mixColumns row' (mixColumns row x) = x := by
  have hlane : ∀ (row : Fin 4 → Nat) (x : BitVec 128) (i : Nat), i < 16 →
      lane 8 (mixColumns row x) i =
      mixColumn row (fun k => lane 8 x (4 * (i / 4) + k)) (Fin.ofNat 4 i) :=
    fun row x i hi => lane_ofLanes _ (by omega)
  refine eq_of_lane_eq (w := 8) (n := 16) (by omega) rfl fun i hi => ?_
  have hcol : (fun k : Fin 4 => lane 8 (mixColumns row x) (4 * (i / 4) + k)) =
      mixColumn row fun k => lane 8 x (4 * (i / 4) + k) := by
    funext k
    rw [hlane row x _ (by omega), show (4 * (i / 4) + (k : Nat)) / 4 = i / 4 by omega]
    congr 1
    exact Fin.ext (show (4 * (i / 4) + (k : Nat)) % 4 = k by omega)
  rw [hlane row' _ i hi, hcol, h]
  exact congrArg (lane 8 x) (Nat.div_add_mod i 4)

/-- The two directions undo each other, and so do the S-boxes and the row shifts. -/
theorem aes_inverse (v k d : BitVec 128) :
    cryptoAes 0b11 d (cryptoAes 0b10 d v) = v ∧ cryptoAes 0b10 d (cryptoAes 0b11 d v) = v ∧
      cryptoAes 0b01 (cryptoAes 0b00 v k) 0 = v ^^^ k ∧
      cryptoAes 0b00 (cryptoAes 0b01 v k) 0 = v ^^^ k ∧
      (∀ x, substitute kInvSbox (substitute kSbox x) = x ∧
        substitute kSbox (substitute kInvSbox x) = x) ∧
      ∀ i : Fin 16, permute kShiftRows (permute kInvShiftRows i) = i ∧
        permute kInvShiftRows (permute kShiftRows i) = i := by
  have hlane : ∀ (f : Nat → BitVec 8) (i : Nat), i < 16 → lane 8 (ofLanes 8 f ^^^ 0) i = f i := by
    intro f i hi
    rw [BitVec.ofNat_eq_ofNat, BitVec.xor_zero]
    exact lane_ofLanes f (by omega)
  refine ⟨mixColumns_inverse (mixColumn_inverse (by decide +kernel)) v,
    mixColumns_inverse (mixColumn_inverse (by decide +kernel)) v,
    eq_of_lane_eq (w := 8) (n := 16) (by omega) rfl fun i hi => ?_,
    eq_of_lane_eq (w := 8) (n := 16) (by omega) rfl fun i hi => ?_,
    substitute_inverse, fun i => (permute_inverse i.isLt).2.2⟩
  · obtain ⟨hinv, -, hrows, -⟩ := permute_inverse hi
    simp only [cryptoAes]
    rw [lane_ofLanes _ (by omega), hlane _ _ hinv, hrows, (substitute_inverse _).1]
  · obtain ⟨-, hperm, -, hrows⟩ := permute_inverse hi
    simp only [cryptoAes]
    rw [lane_ofLanes _ (by omega), hlane _ _ hperm, hrows, (substitute_inverse _).2]

end Berberis.Arm64.Aes
