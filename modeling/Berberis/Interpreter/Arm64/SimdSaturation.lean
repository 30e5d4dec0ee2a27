import Berberis.Lib.BitRange
import Berberis.Lib.Lanes

/-!
# Saturating SIMD Arithmetic of the Arm64 Interpreter

Lanes are copied to words of 64 bits, and a result is clamped there before it is copied
back. For lanes of 64 bits the sum itself may not fit in the word. The scalar forms notice
it, since they add unsigned words and look at the result. The vector forms add the lanes as
they are: UQADD does not look for a carry, and a signed sum that overflows is undefined.

## Theorems

* `saturating_exact_iff`: Additions and subtractions are exact but for vectors of such sums.
* `sqrdmlah_twoStages`: Multiplication and accumulation, which saturates twice.
-/

namespace Berberis.Arm64.Simd

open Lib BitRange Function BitVec

/-- What is left of an integer in a signed type of `w` bits. -/
def wrap (w : Nat) (x : Int) : Int := (x + 2 ^ (w - 1)) % 2 ^ w - 2 ^ (w - 1)

def toUint64 (x : Int) : Nat := (x % 2 ^ 64).toNat

def esizeOf (size : Fin 4) : Nat := 2 ^ size.val

def elementMask (esize : Nat) : Nat := if 8 ≤ esize then 2 ^ 64 - 1 else 2 ^ (8 * esize) - 1

def signExtendElem (x bits : Nat) : Int := wrap 64 (x * 2 ^ (64 - bits)) / 2 ^ (64 - bits)

def satClampSigned (value min max : Int) : Int :=
  if max < value then max else if value < min then min else value

def numElements (q : Bool) (size : Fin 4) : Nat := (if q then 16 else 8) / esizeOf size

def smax (bits : Nat) : Int := 2 ^ (bits - 1) - 1

def smin (bits : Nat) : Int := -2 ^ (bits - 1)

def element (esize : Nat) (src : BitVec 128) (i : Nat) : Nat := (lane (8 * esize) src i).toNat

def advSimdThreeSameElementWise (op : Nat → Nat → Nat → Nat) (srcN srcM : BitVec 128)
    (esize numElements : Nat) : BitVec 128 :=
  writeLanes (8 * esize) (fun i =>
    BitVec.ofNat _ (op (element esize srcN i) (element esize srcM i) esize &&&
      elementMask esize)) numElements

def advSimdThreeSameElementWiseSigned (op : Int → Int → Int) (srcN srcM : BitVec 128)
    (esize numElements : Nat) : BitVec 128 :=
  let bits := 8 * esize
  writeLanes bits (fun i =>
    let sr := op (signExtendElem (element esize srcN i) bits)
      (signExtendElem (element esize srcM i) bits)
    BitVec.ofNat _ (toUint64 sr &&& elementMask esize)) numElements

/-! ### Additions and subtractions -/

inductive SaturatingOp where
  | kSqadd | kUqadd | kSqsub | kUqsub
  deriving DecidableEq

def SaturatingOp.isSigned (op : SaturatingOp) : Bool := op = .kSqadd || op = .kSqsub

def SaturatingOp.isSub (op : SaturatingOp) : Bool := op = .kSqsub || op = .kUqsub

/-- The tests on a sum, which are the same in both forms. -/
def clampSum (smax smin a b sum : Int) : Int :=
  if 0 < b ∧ sum < a then smax
  else if b < 0 ∧ a < sum then smin
  else if smax < sum then smax
  else if sum < smin then smin
  else sum

def clampDiff (smax smin a b diff : Int) : Int :=
  if 0 < b ∧ a < diff then smin
  else if b < 0 ∧ diff < a then smax
  else if smax < diff then smax
  else if diff < smin then smin
  else diff

def FitsInt64 (x : Int) : Prop := smin 64 ≤ x ∧ x ≤ smax 64

instance (x : Int) : Decidable (FitsInt64 x) := inferInstanceAs (Decidable (_ ∧ _))

/-- A lane of the vector form. The sum of two `int64_t` that overflows is undefined, and
    then the lane is whatever `overflow` says. -/
def sqaddVector (overflow : Int → Int → Int) (smax smin a b : Int) : Int :=
  if FitsInt64 (a + b) then clampSum smax smin a b (a + b) else overflow a b

def sqsubVector (overflow : Int → Int → Int) (smax smin a b : Int) : Int :=
  if FitsInt64 (a - b) then clampDiff smax smin a b (a - b) else overflow a b

/-- The scalar form adds unsigned words, so that the sum wraps around. -/
def sqaddScalar (smax smin a b : Int) : Int := clampSum smax smin a b (wrap 64 (a + b))

def sqsubScalar (smax smin a b : Int) : Int := clampDiff smax smin a b (wrap 64 (a - b))

def uqaddVector (a b esize : Nat) : Nat :=
  let sum := (a + b) % 2 ^ 64
  -- For 64 bits no sum is above the mask.
  let mask := if 8 ≤ esize then 2 ^ 64 - 1 else 2 ^ (esize * 8) - 1
  if mask < sum then mask else sum

def uqaddScalar (mask a b : Nat) : Nat :=
  let sum := (a + b) % 2 ^ 64
  if mask < sum ∨ sum < a then mask else sum

def uqsub (a b : Nat) : Nat := if b < a then a - b else 0

def advSimdThreeSame (overflow : Int → Int → Int) (op : SaturatingOp) (q : Bool) (size : Fin 4)
    (rd rn rm : Fin 32) (v : Fin 32 → BitVec 128) : Fin 32 → BitVec 128 :=
  let esize := esizeOf size
  let bits := 8 * esize
  let n := numElements q size
  Function.update v rd <|
    match op with
    | .kSqadd => advSimdThreeSameElementWiseSigned (sqaddVector overflow (smax bits) (smin bits))
        (v rn) (v rm) esize n
    | .kUqadd => advSimdThreeSameElementWise uqaddVector (v rn) (v rm) esize n
    | .kSqsub => advSimdThreeSameElementWiseSigned (sqsubVector overflow (smax bits) (smin bits))
        (v rn) (v rm) esize n
    | .kUqsub => advSimdThreeSameElementWise (fun a b _ => uqsub a b) (v rn) (v rm) esize n

def advSimdScalarThreeSame (op : SaturatingOp) (size : Fin 4) (rd rn rm : Fin 32)
    (v : Fin 32 → BitVec 128) : Fin 32 → BitVec 128 :=
  let bits := 8 * esizeOf size
  let mask := if bits = 64 then 2 ^ 64 - 1 else 2 ^ bits - 1
  let a := (v rn).toNat % 2 ^ 64 &&& mask
  let b := (v rm).toNat % 2 ^ 64 &&& mask
  let sa := signExtendElem a bits
  let sb := signExtendElem b bits
  Function.update v rd <| BitVec.ofNat 128 <|
    match op with
    | .kSqadd => toUint64 (sqaddScalar (smax bits) (smin bits) sa sb) &&& mask
    | .kUqadd => uqaddScalar mask a b
    | .kSqsub => toUint64 (sqsubScalar (smax bits) (smin bits) sa sb) &&& mask
    | .kUqsub => uqsub a b

/-! ### Words and lanes -/

/-- The widths of lanes. -/
def IsWidth (bits : Nat) : Prop := bits = 8 ∨ bits = 16 ∨ bits = 32 ∨ bits = 64

theorem isWidth (size : Fin 4) : IsWidth (8 * esizeOf size) := by
  unfold IsWidth
  revert size
  decide

variable {bits : Nat}

theorem toInt_bounds (x : BitVec bits) : smin bits ≤ x.toInt ∧ x.toInt ≤ smax bits :=
  ⟨le_toInt x, Int.le_sub_one_of_lt toInt_lt⟩

theorem scalarMask_eq : (if bits = 64 then 2 ^ 64 - 1 else 2 ^ bits - 1) = 2 ^ bits - 1 := by
  split
  · next h => rw [h]
  · rfl

/-- Whatever stands above the element is shifted out. -/
theorem signExtendElem_eq (h : IsWidth bits) {y : Nat} {x : BitVec bits}
    (hy : y % 2 ^ bits = x.toNat) : signExtendElem y bits = x.toInt := by
  unfold signExtendElem wrap
  rw [toInt_eq_toNat_cond, ← hy]
  rcases h with rfl | rfl | rfl | rfl <;> norm_num <;> split <;> omega

theorem signExtendElem_toNat (h : IsWidth bits) (x : BitVec bits) :
    signExtendElem x.toNat bits = x.toInt :=
  signExtendElem_eq h (Nat.mod_eq_of_lt x.isLt)

theorem toInt_ofNat_toUint64 (h : IsWidth bits) {r : Int} (hlo : smin bits ≤ r)
    (hhi : r ≤ smax bits) : (BitVec.ofNat bits (toUint64 r)).toInt = r := by
  unfold smin at hlo
  unfold smax at hhi
  rw [toInt_eq_toNat_cond, toNat_ofNat]
  unfold toUint64
  rcases h with rfl | rfl | rfl | rfl <;> norm_num at hlo hhi ⊢ <;> split <;> omega

/-! ### What the operations compute -/

def saturate (isSigned : Bool) (bits : Nat) (x : Int) : Int :=
  if isSigned then max (smin bits) (min (smax bits) x) else max 0 (min (2 ^ bits - 1) x)

def SaturatingOp.exact (op : SaturatingOp) (x y : BitVec bits) : Int :=
  let a := valueOf op.isSigned x
  let b := valueOf op.isSigned y
  saturate op.isSigned bits (if op.isSub then a - b else a + b)

/-- The sum or difference of two lanes is outside of the 64 bits in which the vector form
    computes it. -/
def SaturatingOp.LeavesWord (op : SaturatingOp) (x y : BitVec bits) : Prop :=
  match op with
  | .kSqadd => ¬ FitsInt64 (x.toInt + y.toInt)
  | .kUqadd => 2 ^ 64 ≤ x.toNat + y.toNat
  | .kSqsub => ¬ FitsInt64 (x.toInt - y.toInt)
  | .kUqsub => False

/-- The word that is put in the lane, for the operations of one of the forms. -/
def SaturatingOp.word (op : SaturatingOp) (sqadd sqsub : Int → Int → Int → Int → Int)
    (uqadd : Nat → Nat → Nat) (x y : BitVec bits) : Nat :=
  match op with
  | .kSqadd => toUint64 (sqadd (smax bits) (smin bits) x.toInt y.toInt)
  | .kUqadd => uqadd x.toNat y.toNat
  | .kSqsub => toUint64 (sqsub (smax bits) (smin bits) x.toInt y.toInt)
  | .kUqsub => uqsub x.toNat y.toNat

theorem sqaddScalar_eq (h : IsWidth bits) (x y : BitVec bits) :
    sqaddScalar (smax bits) (smin bits) x.toInt y.toInt =
      saturate true bits (x.toInt + y.toInt) := by
  have hx := toInt_bounds x
  have hy := toInt_bounds y
  unfold smax smin at hx hy
  unfold sqaddScalar clampSum saturate wrap smax smin
  rcases h with rfl | rfl | rfl | rfl <;> norm_num at hx hy ⊢ <;> split_ifs <;> omega

theorem sqsubScalar_eq (h : IsWidth bits) (x y : BitVec bits) :
    sqsubScalar (smax bits) (smin bits) x.toInt y.toInt =
      saturate true bits (x.toInt - y.toInt) := by
  have hx := toInt_bounds x
  have hy := toInt_bounds y
  unfold smax smin at hx hy
  unfold sqsubScalar clampDiff saturate wrap smax smin
  rcases h with rfl | rfl | rfl | rfl <;> norm_num at hx hy ⊢ <;> split_ifs <;> omega

theorem wrap_of_fits {x : Int} (h : FitsInt64 x) : wrap 64 x = x := by
  unfold FitsInt64 smin smax at h
  unfold wrap
  omega

theorem saturate_bounds (h : IsWidth bits) (x : Int) :
    smin bits ≤ saturate true bits x ∧ saturate true bits x ≤ smax bits := by
  have hle : smin bits ≤ smax bits := by
    unfold smin smax
    rcases h with rfl | rfl | rfl | rfl <;> norm_num
  rw [saturate, if_pos rfl]
  omega

theorem valueOf_uqaddVector (size : Fin 4) (x y : BitVec (8 * esizeOf size)) :
    valueOf false
        (BitVec.ofNat (8 * esizeOf size) (uqaddVector x.toNat y.toNat (esizeOf size))) =
      SaturatingOp.kUqadd.exact x y ↔ ¬ SaturatingOp.kUqadd.LeavesWord x y := by
  have hx := x.isLt
  have hy := y.isLt
  change ((BitVec.ofNat (8 * esizeOf size)
      (uqaddVector x.toNat y.toNat (esizeOf size))).toNat : Int) =
    max 0 (min (2 ^ (8 * esizeOf size) - 1) ((x.toNat : Int) + y.toNat)) ↔
      ¬ 2 ^ 64 ≤ x.toNat + y.toNat
  unfold uqaddVector
  generalize x.toNat = a at *
  generalize y.toNat = b at *
  clear x y
  fin_cases size <;> norm_num [esizeOf] at hx hy ⊢ <;> split <;> omega

theorem valueOf_uqaddScalar (h : IsWidth bits) (x y : BitVec bits) :
    valueOf false (BitVec.ofNat bits (uqaddScalar (2 ^ bits - 1) x.toNat y.toNat)) =
      SaturatingOp.kUqadd.exact x y := by
  have hx := x.isLt
  have hy := y.isLt
  change ((BitVec.ofNat bits (uqaddScalar (2 ^ bits - 1) x.toNat y.toNat)).toNat : Int) =
    max 0 (min (2 ^ bits - 1) ((x.toNat : Int) + y.toNat))
  unfold uqaddScalar
  rcases h with rfl | rfl | rfl | rfl <;> norm_num at hx hy ⊢ <;> split <;> omega

theorem valueOf_uqsub (h : IsWidth bits) (x y : BitVec bits) :
    valueOf false (BitVec.ofNat bits (uqsub x.toNat y.toNat)) =
      SaturatingOp.kUqsub.exact x y := by
  have hx := x.isLt
  change ((BitVec.ofNat bits (uqsub x.toNat y.toNat)).toNat : Int) =
    max 0 (min (2 ^ bits - 1) ((x.toNat : Int) - y.toNat))
  unfold uqsub
  rcases h with rfl | rfl | rfl | rfl <;> norm_num at hx ⊢ <;> split <;> omega

theorem toInt_of_eq_saturate (h : IsWidth bits) {r x : Int} (hr : r = saturate true bits x) :
    (BitVec.ofNat bits (toUint64 r)).toInt = saturate true bits x := by
  have hb := saturate_bounds h x
  rw [← hr] at hb ⊢
  exact toInt_ofNat_toUint64 h hb.1 hb.2

/-- A number that is outside of 64 bits is clamped to one end, and so not to zero. -/
theorem saturate_ne_zero (h : IsWidth bits) {x : Int} (hx : ¬ FitsInt64 x) :
    saturate true bits x ≠ 0 := by
  unfold FitsInt64 at hx
  unfold saturate smin smax at *
  rcases h with rfl | rfl | rfl | rfl <;> norm_num at * <;> omega

theorem valueOf_scalarWord (h : IsWidth bits) (op : SaturatingOp) (x y : BitVec bits) :
    valueOf op.isSigned (BitVec.ofNat bits
        (op.word sqaddScalar sqsubScalar (uqaddScalar (2 ^ bits - 1)) x y)) = op.exact x y := by
  cases op with
  | kSqadd => exact toInt_of_eq_saturate h (sqaddScalar_eq h x y)
  | kUqadd => exact valueOf_uqaddScalar h x y
  | kSqsub => exact toInt_of_eq_saturate h (sqsubScalar_eq h x y)
  | kUqsub => exact valueOf_uqsub h x y

/-- Whatever an overflow does: to be exact for each of these the sum has to fit. -/
theorem valueOf_overflow (h : IsWidth bits) {x r : Int} (hr : r = saturate true bits x) :
    (∀ overflow : Int, (BitVec.ofNat bits (toUint64 (if FitsInt64 x then r else overflow))).toInt =
        saturate true bits x) ↔ FitsInt64 x := by
  by_cases hx : FitsInt64 x
  · refine iff_of_true (fun overflow => ?_) hx
    rw [if_pos hx]
    exact toInt_of_eq_saturate h hr
  · refine iff_of_false (fun hall => ?_) hx
    have hzero := hall 0
    rw [if_neg hx] at hzero
    exact saturate_ne_zero h hx (hzero.symm.trans (by simp [toUint64]))

theorem sqaddVector_eq (overflow : Int → Int → Int) (h : IsWidth bits) (x y : BitVec bits) :
    sqaddVector overflow (smax bits) (smin bits) x.toInt y.toInt =
      if FitsInt64 (x.toInt + y.toInt) then saturate true bits (x.toInt + y.toInt)
      else overflow x.toInt y.toInt := by
  rw [← sqaddScalar_eq h, sqaddVector, sqaddScalar]
  split
  · next hfits => rw [wrap_of_fits hfits]
  · rfl

theorem sqsubVector_eq (overflow : Int → Int → Int) (h : IsWidth bits) (x y : BitVec bits) :
    sqsubVector overflow (smax bits) (smin bits) x.toInt y.toInt =
      if FitsInt64 (x.toInt - y.toInt) then saturate true bits (x.toInt - y.toInt)
      else overflow x.toInt y.toInt := by
  rw [← sqsubScalar_eq h, sqsubVector, sqsubScalar]
  split
  · next hfits => rw [wrap_of_fits hfits]
  · rfl

def vectorWord (overflow : Int → Int → Int) (op : SaturatingOp) (size : Fin 4)
    (x y : BitVec (8 * esizeOf size)) : Nat :=
  op.word (sqaddVector overflow) (sqsubVector overflow)
    (fun a b => uqaddVector a b (esizeOf size)) x y

theorem valueOf_vectorWord (op : SaturatingOp) (size : Fin 4) (x y : BitVec (8 * esizeOf size)) :
    (∀ overflow, valueOf op.isSigned
        (BitVec.ofNat (8 * esizeOf size) (vectorWord overflow op size x y)) = op.exact x y) ↔
      ¬ op.LeavesWord x y := by
  have hw := isWidth size
  cases op with
  | kSqadd =>
    refine Iff.trans ?_ ((valueOf_overflow hw rfl).trans not_not.symm)
    simp only [vectorWord, SaturatingOp.word, sqaddVector_eq _ hw]
    exact ⟨fun h o => h fun _ _ => o, fun h o => h (o x.toInt y.toInt)⟩
  | kUqadd => exact forall_const _ |>.trans (valueOf_uqaddVector size x y)
  | kSqsub =>
    refine Iff.trans ?_ ((valueOf_overflow hw rfl).trans not_not.symm)
    simp only [vectorWord, SaturatingOp.word, sqsubVector_eq _ hw]
    exact ⟨fun h o => h fun _ _ => o, fun h o => h (o x.toInt y.toInt)⟩
  | kUqsub => exact iff_of_true (fun _ => valueOf_uqsub hw x y) not_false

theorem elementMask_esizeOf (size : Fin 4) :
    elementMask (esizeOf size) = 2 ^ (8 * esizeOf size) - 1 := by
  revert size
  decide

theorem mul_numElements (q : Bool) (size : Fin 4) :
    8 * esizeOf size * numElements q size = if q then 128 else 64 := by
  revert q size
  decide

theorem writeLanes_lt (size : Fin 4) {f : Nat → BitVec (8 * esizeOf size)} :
    (writeLanes (8 * esizeOf size) f (numElements false size)).toNat < 2 ^ 64 := by
  have hw : 0 < 8 * esizeOf size := Nat.mul_pos (by decide) (Nat.two_pow_pos _)
  refine (lt_two_pow_iff _).mpr fun b hb => getLsbD_writeLanes hw ?_
  rw [mul_numElements]
  exact hb

theorem mul_numElements_le (q : Bool) (size : Fin 4) :
    8 * esizeOf size * numElements q size ≤ 128 := by
  rw [mul_numElements]
  split <;> decide

theorem numElements_pos (q : Bool) (size : Fin 4) : 0 < numElements q size := by
  revert q size
  decide

theorem ofNat_and_mask (n : Nat) :
    BitVec.ofNat bits (n &&& (2 ^ bits - 1)) = BitVec.ofNat bits n := by
  refine eq_of_toNat_eq ?_
  rw [toNat_ofNat, toNat_ofNat, Nat.and_two_pow_sub_one_eq_mod, Nat.mod_mod]

section

variable (overflow : Int → Int → Int) (op : SaturatingOp) (q : Bool) (size : Fin 4)
  (rd rn rm : Fin 32) (v : Fin 32 → BitVec 128)

theorem lane_advSimdThreeSame (i : Fin (numElements q size)) :
    lane (8 * esizeOf size) (advSimdThreeSame overflow op q size rd rn rm v rd) i =
      BitVec.ofNat _ (vectorWord overflow op size (lane (8 * esizeOf size) (v rn) i)
        (lane _ (v rm) i)) := by
  cases op <;>
    simp only [advSimdThreeSame, advSimdThreeSameElementWise, advSimdThreeSameElementWiseSigned,
      update_self, lane_writeLanes (mul_numElements_le q size) i.isLt, elementMask_esizeOf,
      ofNat_and_mask, element, signExtendElem_toNat (isWidth size), vectorWord, SaturatingOp.word]

theorem upper_advSimdThreeSame :
    (advSimdThreeSame overflow op false size rd rn rm v rd).toNat < 2 ^ 64 := by
  cases op <;> simp only [advSimdThreeSame, update_self] <;> exact writeLanes_lt size

theorem toNat_lane_zero (w : Nat) (r : BitVec 128) : (lane w r 0).toNat = r.toNat % 2 ^ w := by
  simp [lane]

theorem low_mod (h : IsWidth bits) (r : BitVec 128) :
    r.toNat % 2 ^ 64 % 2 ^ bits = (lane bits r 0).toNat := by
  have hle : bits ≤ 64 := by
    unfold IsWidth at h
    omega
  rw [toNat_lane_zero, Nat.mod_mod_of_dvd _ (Nat.pow_dvd_pow 2 hle)]

theorem ofNat_eq_setWidth (n : Nat) :
    BitVec.ofNat 128 (n % 2 ^ bits) = (BitVec.ofNat bits n).setWidth 128 := by
  refine eq_of_toNat_eq ?_
  rw [toNat_setWidth, toNat_ofNat, toNat_ofNat]

theorem word_mod (x y : BitVec bits) :
    uqaddScalar (2 ^ bits - 1) x.toNat y.toNat % 2 ^ bits =
        uqaddScalar (2 ^ bits - 1) x.toNat y.toNat ∧
      uqsub x.toNat y.toNat % 2 ^ bits = uqsub x.toNat y.toNat := by
  refine ⟨Nat.mod_eq_of_lt ?_, Nat.mod_eq_of_lt ?_⟩
  · dsimp only [uqaddScalar]
    split <;> omega
  · unfold uqsub
    split <;> omega

theorem advSimdScalarThreeSame_eq : advSimdScalarThreeSame op size rd rn rm v rd =
      (BitVec.ofNat (8 * esizeOf size)
        (op.word sqaddScalar sqsubScalar (uqaddScalar (2 ^ (8 * esizeOf size) - 1))
          (lane (8 * esizeOf size) (v rn) 0) (lane _ (v rm) 0))).setWidth 128 := by
  have hw := isWidth size
  have hlow : ∀ r : Fin 32, (v r).toNat % 2 ^ 64 &&& (2 ^ (8 * esizeOf size) - 1) =
      (lane (8 * esizeOf size) (v r) 0).toNat := by
    intro r
    rw [Nat.and_two_pow_sub_one_eq_mod, low_mod hw]
  have hmod := word_mod (lane (8 * esizeOf size) (v rn) 0) (lane _ (v rm) 0)
  rw [← ofNat_eq_setWidth]
  cases op <;>
    simp only [advSimdScalarThreeSame, update_self, scalarMask_eq, hlow,
      signExtendElem_toNat hw, SaturatingOp.word, Nat.and_two_pow_sub_one_eq_mod, hmod]

theorem valueOf_injective (isSigned : Bool) : Function.Injective (@valueOf bits isSigned) := by
  intro x y h
  cases isSigned with
  | false => exact eq_of_toNat_eq (Int.ofNat.inj h)
  | true => exact eq_of_toInt_eq h

/-- Each lane of the vector form is the exact sum or difference, clamped, exactly if that
    sum fits in 64 bits; the scalar form is so in any case. -/
theorem saturating_exact_iff (op : SaturatingOp) (q : Bool) (size : Fin 4) (rd rn rm : Fin 32)
    (v : Fin 32 → BitVec 128) :
    let bits := 8 * esizeOf size
    let vector (overflow : Int → Int → Int) := advSimdThreeSame overflow op q size rd rn rm v rd
    let scalar := advSimdScalarThreeSame op size rd rn rm v rd
    (∀ i : Fin (numElements q size),
        (∀ overflow, valueOf op.isSigned (lane bits (vector overflow) i) =
          op.exact (lane bits (v rn) i) (lane bits (v rm) i)) ↔
        ¬ op.LeavesWord (lane bits (v rn) i) (lane bits (v rm) i)) ∧
      (q = true ∨ ∀ overflow, (vector overflow).toNat < 2 ^ 64) ∧
      valueOf op.isSigned (lane bits scalar 0) =
        op.exact (lane bits (v rn) 0) (lane bits (v rm) 0) ∧
      scalar.toNat < 2 ^ bits ∧
      ((∀ overflow, scalar = (lane bits (vector overflow) 0).setWidth 128) ↔
        ¬ op.LeavesWord (lane bits (v rn) 0) (lane bits (v rm) 0)) := by
  intro bits vector scalar
  have hlane : ∀ i : Fin (numElements q size),
      (∀ overflow, valueOf op.isSigned (lane bits (vector overflow) i) =
        op.exact (lane bits (v rn) i) (lane bits (v rm) i)) ↔
      ¬ op.LeavesWord (lane bits (v rn) i) (lane bits (v rm) i) := by
    intro i
    simp only [vector, bits, lane_advSimdThreeSame]
    exact valueOf_vectorWord op size _ _
  have hle : bits ≤ 128 := by
    have := isWidth size
    unfold IsWidth at this
    omega
  -- The scalar form is one word in an empty register.
  obtain ⟨word, hscalar, hword⟩ : ∃ word : BitVec bits, scalar = word.setWidth 128 ∧
      valueOf op.isSigned word = op.exact (lane bits (v rn) 0) (lane bits (v rm) 0) :=
    ⟨_, advSimdScalarThreeSame_eq op size rd rn rm v, valueOf_scalarWord (isWidth size) op _ _⟩
  have hzero : lane bits scalar 0 = word := by
    refine eq_of_toNat_eq ?_
    rw [toNat_lane_zero, hscalar, toNat_setWidth_of_le hle, Nat.mod_eq_of_lt word.isLt]
  refine ⟨hlane, ?_, hzero ▸ hword, ?_, ?_⟩
  · cases q with
    | false => exact Or.inr fun overflow => upper_advSimdThreeSame overflow op size rd rn rm v
    | true => exact Or.inl rfl
  · rw [hscalar, toNat_setWidth_of_le hle]
    exact word.isLt
  · rw [← hlane ⟨0, numElements_pos q size⟩, ← hword, hscalar]
    refine forall_congr' fun overflow => ⟨fun h => ?_, fun h => ?_⟩
    · have hnat := congrArg BitVec.toNat h
      rw [toNat_setWidth_of_le hle, toNat_setWidth_of_le hle] at hnat
      rw [eq_of_toNat_eq hnat]
    · rw [valueOf_injective op.isSigned h]

theorem uqadd_losesCarry :
    lane 64 (advSimdThreeSame (fun _ _ => 0) .kUqadd true 3 0 1 2
      (fun r => if r = 1 then 2 ^ 64 - 1 else 1) 0) 0 = 0 ∧
    SaturatingOp.kUqadd.exact (2 ^ 64 - 1 : BitVec 64) 1 = 2 ^ 64 - 1 := by
  decide +kernel

end

/-! ### Multiplication and accumulation -/

local instance neZeroSizes : NeZero 4 := ⟨by omega⟩

inductive RdmSize where
  | kH | kS

def RdmSize.size : RdmSize → Fin 4
  | .kH => 1
  | .kS => 2

def clearUpperIfNotQ (value : BitVec 128) (q : Bool) : BitVec 128 :=
  if q then value else (value.setWidth 64).setWidth 128

/-- One lane of SQRDMLAH, or of SQRDMLSH if `isSub`. -/
def sqrdmlah (isSub : Bool) (bits : Nat) (a b acc : Int) : Int :=
  let product := wrap 128 (2 * a * b + 2 ^ (bits - 1))
  let addend := satClampSigned (wrap 64 (product / 2 ^ bits)) (smin bits) (smax bits)
  let out := wrap 64 (if isSub then acc - addend else acc + addend)
  satClampSigned out (smin bits) (smax bits)

def sqrdmlahVec (isSub q : Bool) (size : Fin 4) (rd rn rm : Fin 32) (v : Fin 32 → BitVec 128) :
    Fin 32 → BitVec 128 :=
  let esize := esizeOf size
  let bits := 8 * esize
  let get (r : Fin 32) (i : Nat) := signExtendElem (element esize (v r) i) bits
  let result := writeLanes bits (fun i =>
    BitVec.ofNat _ (toUint64 (sqrdmlah isSub bits (get rn i) (get rm i) (get rd i))))
    (numElements q size)
  Function.update v rd (clearUpperIfNotQ result q)

def sqrdmlahScalar (isSub : Bool) (size : Fin 4) (rd rn rm : Fin 32) (v : Fin 32 → BitVec 128) :
    Fin 32 → BitVec 128 :=
  let bits := 8 * esizeOf size
  let get (r : Fin 32) := signExtendElem ((v r).toNat % 2 ^ 64) bits
  let res := sqrdmlah isSub bits (get rn) (get rm) (get rd)
  Function.update v rd (BitVec.ofNat 128 (toUint64 res &&& (2 ^ bits - 1)))

/-- The rounded half of the doubled product is saturated, and then the sum. -/
def twoStageRdm (isSub : Bool) (bits : Nat) (x y acc : Int) : Int :=
  let addend := saturate true bits ((2 * x * y + 2 ^ (bits - 1)) / 2 ^ bits)
  saturate true bits (if isSub then acc - addend else acc + addend)

/-- The accumulation on the exact integer, saturated once. -/
def onceRdm (isSub : Bool) (bits : Nat) (x y acc : Int) : Int :=
  let product := if isSub then -(2 * x * y) else 2 * x * y
  saturate true bits ((acc * 2 ^ bits + product + 2 ^ (bits - 1)) / 2 ^ bits)

theorem mul_bounds {m x y : Int} (hm : 0 < m) (hx : -m ≤ x) (hx' : x ≤ m - 1) (hy : -m ≤ y)
    (hy' : y ≤ m - 1) :
    -(m * (m - 1)) ≤ x * y ∧ (x = -m ∧ y = -m ∨ x * y ≤ m * (m - 1)) := by
  by_cases hx₀ : x = -m
  · subst hx₀
    refine ⟨by nlinarith, ?_⟩
    by_cases hy₀ : y = -m
    · exact Or.inl ⟨rfl, hy₀⟩
    · have : -m + 1 ≤ y := by omega
      exact Or.inr (by nlinarith)
  · have : -m + 1 ≤ x := by omega
    exact ⟨by nlinarith, Or.inr (by nlinarith)⟩

theorem mul_of_smin {x y : Int} (h : x = smin bits ∧ y = smin bits) :
    x * y = 2 ^ (bits - 1) * 2 ^ (bits - 1) := by
  rw [h.1, h.2, smin, neg_mul_neg]

section

variable {x y acc : BitVec bits} {high : Int}
  (hhigh : high = (2 * (x.toInt * y.toInt) + 2 ^ (bits - 1)) / 2 ^ bits)

include hhigh

/-- The rounded half of the product fits, unless both factors are the least number. -/
theorem high_cases (h : bits = 16 ∨ bits = 32) :
    smin bits ≤ high ∧
      (x.toInt = smin bits ∧ y.toInt = smin bits ∧ high = smax bits + 1 ∨
        ¬ (x.toInt = smin bits ∧ y.toInt = smin bits) ∧ high ≤ smax bits) := by
  have hx := toInt_bounds x
  have hy := toInt_bounds y
  obtain ⟨hlo, hhi⟩ := mul_bounds (Int.pow_pos two_pos) hx.1 hx.2 hy.1 hy.2
  have hmin := @mul_of_smin bits x.toInt y.toInt
  unfold smin smax at *
  -- With its bounds and its value at the corner the product is like any other number.
  generalize x.toInt * y.toInt = p at *
  rcases h with rfl | rfl <;> norm_num at * <;> omega

theorem sqrdmlah_eq (isSub : Bool) (h : bits = 16 ∨ bits = 32) :
    sqrdmlah isSub bits x.toInt y.toInt acc.toInt = saturate true bits
        (if isSub then acc.toInt - min (smax bits) high else acc.toInt + min (smax bits) high) := by
  have hacc := toInt_bounds acc
  have hcas := high_cases hhigh h
  -- Neither the product nor the addend is cut by its type.
  have hprod : wrap 128 (2 * x.toInt * y.toInt + 2 ^ (bits - 1)) / 2 ^ bits = high := by
    rw [mul_assoc]
    unfold wrap smin smax at *
    generalize x.toInt * y.toInt = p at *
    rcases h with rfl | rfl <;> norm_num at * <;> omega
  have hadd : satClampSigned (wrap 64 high) (smin bits) (smax bits) = min (smax bits) high := by
    clear hprod hhigh
    unfold satClampSigned wrap smin smax at *
    rcases h with rfl | rfl <;> norm_num at * <;> split_ifs <;> omega
  dsimp only [sqrdmlah]
  rw [hprod, hadd]
  clear hprod hhigh hadd
  unfold satClampSigned saturate wrap smin smax at *
  rcases h with rfl | rfl <;> cases isSub <;> norm_num at * <;> split_ifs <;> omega

theorem toInt_sqrdmlah (isSub : Bool) (h : bits = 16 ∨ bits = 32) :
    (BitVec.ofNat bits (toUint64 (sqrdmlah isSub bits x.toInt y.toInt acc.toInt))).toInt =
      twoStageRdm isSub bits x.toInt y.toInt acc.toInt := by
  have hw : IsWidth bits := by
    unfold IsWidth
    omega
  have hle := (high_cases hhigh h).1
  have hmin : smin bits ≤ smax bits := (toInt_bounds x).1.trans (toInt_bounds x).2
  have haddend : saturate true bits high = min (smax bits) high := by
    rw [saturate, if_pos rfl, max_eq_right (le_min hmin hle)]
  dsimp only [twoStageRdm]
  rw [mul_assoc, ← hhigh, haddend]
  exact toInt_of_eq_saturate hw (sqrdmlah_eq hhigh isSub h)

end

theorem clearUpperIfNotQ_writeLanes (q : Bool) (size : Fin 4)
    (f : Nat → BitVec (8 * esizeOf size)) :
    clearUpperIfNotQ (writeLanes _ f (numElements q size)) q =
      writeLanes _ f (numElements q size) := by
  cases q with
  | false =>
    refine eq_of_toNat_eq ?_
    rw [clearUpperIfNotQ, if_neg Bool.false_ne_true, toNat_setWidth, toNat_setWidth,
      Nat.mod_eq_of_lt (writeLanes_lt size), Nat.mod_eq_of_lt (BitVec.isLt _)]
  | true => rfl

/-- Each lane, and the scalar form, is the sum or difference with the rounded product,
    where both are saturated. -/
theorem sqrdmlah_twoStages (isSub q : Bool) (size : RdmSize) (rd rn rm : Fin 32)
    (v : Fin 32 → BitVec 128) :
    let bits := 8 * esizeOf size.size
    let vector := sqrdmlahVec isSub q size.size rd rn rm v rd
    let scalar := sqrdmlahScalar isSub size.size rd rn rm v rd
    let source (r : Fin 32) (i : Nat) := (lane bits (v r) i).toInt
    (∀ i : Fin (numElements q size.size), (lane bits vector i).toInt =
        twoStageRdm isSub bits (source rn i) (source rm i) (source rd i)) ∧
      (lane bits scalar 0).toInt =
        twoStageRdm isSub bits (source rn 0) (source rm 0) (source rd 0) := by
  intro bits vector scalar source
  have hbits : bits = 16 ∨ bits = 32 := by
    cases size <;> decide
  have hw := isWidth size.size
  constructor
  · intro i
    have hlane : lane bits vector i = BitVec.ofNat bits
        (toUint64 (sqrdmlah isSub bits (source rn i) (source rm i) (source rd i))) := by
      simp [vector, sqrdmlahVec, clearUpperIfNotQ_writeLanes, bits, element, source,
        lane_writeLanes (mul_numElements_le q size.size) i.isLt, signExtendElem_toNat hw]
    rw [hlane]
    exact toInt_sqrdmlah rfl isSub hbits
  · have hlane : lane bits scalar 0 = BitVec.ofNat bits
        (toUint64 (sqrdmlah isSub bits (source rn 0) (source rm 0) (source rd 0))) := by
      refine eq_of_toNat_eq ?_
      simp only [scalar, sqrdmlahScalar, update_self, toNat_lane_zero, bits, source,
        signExtendElem_eq hw (low_mod hw _), toNat_ofNat, Nat.and_two_pow_sub_one_eq_mod]
      rw [Nat.mod_mod_of_dvd _ (Nat.pow_dvd_pow 2 (by rcases hbits with h | h <;> omega)),
        Nat.mod_mod]
    rw [hlane]
    exact toInt_sqrdmlah rfl isSub hbits

theorem sqrdmlah_saturatesTwice : (lane 16 (sqrdmlahVec false true 1 0 1 1
      (fun r => if r = 0 then 0xFFFF else 0x8000) 0) 0).toInt = 32766 ∧
    onceRdm false 16 (-32768) (-32768) (-1) = 32767 := by
  decide +kernel

end Berberis.Arm64.Simd
