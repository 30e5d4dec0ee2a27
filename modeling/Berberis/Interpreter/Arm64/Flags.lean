import Berberis.Lib.AddWithCarry

/-!
# Integer Flags of the Arm64 Interpreter

The additions and subtractions compute on 64 bits and mask the result for the forms of
32 bits. Most of them have their flags from a function that looks at the signs of the
operands and the result, those with a carry from formulas of their own.

## Theorems

* `flags_exact`: The flags, what conditions say after a comparison, and chains.
-/

namespace Berberis.Arm64

open Lib BitVec

inductive ShiftType where
  | kLsl | kLsr | kAsr | kRor

inductive Condition where
  | kEq | kNe | kCs | kCc | kMi | kPl | kVs | kVc | kHi | kLs | kGe | kLt | kGt | kLe | kAl | kNv

def width (is64bit : Bool) : Nat := if is64bit then 64 else 32

def low (is64bit : Bool) (v : BitVec 64) : BitVec (width is64bit) := v.setWidth _

def operand (is64bit : Bool) (v : BitVec 64) : BitVec 64 := if is64bit then v else v &&& 0xFFFFFFFF

def topBit (is64bit : Bool) : Nat := if is64bit then 63 else 31

def updateFlags (operand1 operand2 result : BitVec 64) (isSub is64bit : Bool) : Nzcv :=
  let a := (low is64bit operand1).toInt
  let b := (low is64bit operand2).toInt
  let r := (low is64bit result).toInt
  { n := result.getLsbD (topBit is64bit)
    z := operand is64bit result == 0
    c := if isSub then decide ((low is64bit operand2).toNat ≤ (low is64bit operand1).toNat)
      else decide ((low is64bit result).toNat < (low is64bit operand1).toNat)
    v := if isSub then decide ((0 ≤ a ∧ b < 0 ∧ r < 0) ∨ (a < 0 ∧ 0 ≤ b ∧ 0 ≤ r))
      else decide ((0 ≤ a ∧ 0 ≤ b ∧ r < 0) ∨ (a < 0 ∧ b < 0 ∧ 0 ≤ r)) }

def addSub (isSub setFlags is64bit : Bool) (operand1 operand2 : BitVec 64) (flags : Nzcv) :
    BitVec 64 × Nzcv :=
  let result := operand is64bit (if isSub then operand1 - operand2 else operand1 + operand2)
  (result, if setFlags then updateFlags operand1 operand2 result isSub is64bit else flags)

def addSubImm (isSub setFlags is64bit : Bool) (src : BitVec 64) (imm : BitVec 32) :
    Nzcv → BitVec 64 × Nzcv :=
  addSub isSub setFlags is64bit (operand is64bit src) (imm.setWidth 64)

def applyShift (value : BitVec 64) (shiftType : ShiftType) (shiftAmount : Nat) (is64bit : Bool) :
    BitVec 64 :=
  let value := operand is64bit value
  if shiftAmount = 0 then value else
    operand is64bit <|
      match shiftType with
      | .kLsl => value <<< shiftAmount
      | .kLsr => value >>> shiftAmount
      | .kAsr =>
        if is64bit then value.sshiftRight shiftAmount
        else ((value.setWidth 32).sshiftRight shiftAmount).setWidth 64
      | .kRor =>
        if is64bit then value >>> shiftAmount ||| value <<< (64 - shiftAmount)
        else ((value.setWidth 32) >>> shiftAmount |||
          (value.setWidth 32) <<< (32 - shiftAmount)).setWidth 64

def addSubShiftedReg (isSub setFlags is64bit : Bool) (src1 src2 : BitVec 64)
    (shiftType : ShiftType) (shiftAmount : Nat) : Nzcv → BitVec 64 × Nzcv :=
  addSub isSub setFlags is64bit (operand is64bit src1)
    (applyShift src2 shiftType shiftAmount is64bit)

def extendReg (value : BitVec 64) (extendType : BitVec 3) (shiftAmount : Nat) : BitVec 64 :=
  let extended : BitVec 64 :=
    match extendType with
    | 0b000 => value &&& 0xFF
    | 0b001 => value &&& 0xFFFF
    | 0b010 => value &&& 0xFFFFFFFF
    | 0b100 => (value.setWidth 8).signExtend 64
    | 0b101 => (value.setWidth 16).signExtend 64
    | 0b110 => (value.setWidth 32).signExtend 64
    | _ => value
  extended <<< shiftAmount

def addSubExtendedReg (isSub setFlags is64bit : Bool) (src1 src2 : BitVec 64)
    (extendType : BitVec 3) (shiftAmount : Nat) : Nzcv → BitVec 64 × Nzcv :=
  addSub isSub setFlags is64bit (operand is64bit src1)
    (operand is64bit (extendReg src2 extendType shiftAmount))

def addSubWithCarry (src1 src2 : BitVec 64) (is64bit isSub setFlags : Bool) (flags : Nzcv) :
    BitVec 64 × Nzcv :=
  let op1 := operand is64bit src1
  let op2 := if isSub then operand is64bit (~~~operand is64bit src2) else operand is64bit src2
  let carry : BitVec 64 := if flags.c then 1 else 0
  let result := operand is64bit (op1 + op2 + carry)
  (result, if setFlags then
    { n := result.getLsbD (topBit is64bit)
      z := result == 0
      c := if is64bit then decide (2 ^ 64 - 1 < op1.toNat + op2.toNat + carry.toNat)
        else decide ((0xFFFFFFFF : BitVec 64).toNat < (op1 + op2 + carry).toNat)
      v := (op1 ^^^ result) &&& (op2 ^^^ result) &&& (1#64 <<< topBit is64bit) != 0 }
  else flags)

def evaluateCondition (cond : Condition) (flags : Nzcv) : Bool :=
  match cond with
  | .kEq => flags.z
  | .kNe => !flags.z
  | .kCs => flags.c
  | .kCc => !flags.c
  | .kMi => flags.n
  | .kPl => !flags.n
  | .kVs => flags.v
  | .kVc => !flags.v
  | .kHi => flags.c && !flags.z
  | .kLs => !flags.c || flags.z
  | .kGe => flags.n == flags.v
  | .kLt => flags.n != flags.v
  | .kGt => !flags.z && flags.n == flags.v
  | .kLe => flags.z || flags.n != flags.v
  | .kAl | .kNv => true

def conditionalCompare (isNeg is64bit : Bool) (rn rm : BitVec 64) (cond : Condition)
    (nzcv : BitVec 4) (flags : Nzcv) : Nzcv :=
  if evaluateCondition cond flags then
    (addSub (!isNeg) true is64bit (operand is64bit rn) (operand is64bit rm) flags).2
  else ⟨nzcv.getLsbD 3, nzcv.getLsbD 2, nzcv.getLsbD 1, nzcv.getLsbD 0⟩

def chainFrom (isSub is64bit : Bool) : List (BitVec 64 × BitVec 64) → Nzcv → List (BitVec 64) × Nzcv
  | [], flags => ([], flags)
  | (a, b) :: words, flags =>
    let r := addSubWithCarry a b is64bit isSub true flags
    let rest := chainFrom isSub is64bit words r.2
    (r.1 :: rest.1, rest.2)

/-- `ADDS` or `SUBS` on the lowest words, and `ADCS` or `SBCS` on the others. -/
def chain (isSub is64bit : Bool) (a b : BitVec 64) (words : List (BitVec 64 × BitVec 64))
    (flags : Nzcv) : List (BitVec 64) × Nzcv :=
  let r := addSubShiftedReg isSub true is64bit a b .kLsl 0 flags
  let rest := chainFrom isSub is64bit words r.2
  (r.1 :: rest.1, rest.2)

/-- What the architecture defines, on words of the width, with the second one
    inverted for a subtraction. -/
def armAdd (isSub : Bool) {w : Nat} (x y : BitVec w) (carry : Bool) : BitVec 64 × Nzcv :=
  let r := addWithCarry x (if isSub then ~~~y else y) carry
  (r.1.setWidth 64, r.2)

def Condition.compares {w : Nat} (x y : BitVec w) : Condition → Option Bool
  | .kEq => some (decide (x = y))
  | .kNe => some (decide (x ≠ y))
  | .kCs => some (decide (y.toNat ≤ x.toNat))
  | .kCc => some (decide (x.toNat < y.toNat))
  | .kHi => some (decide (y.toNat < x.toNat))
  | .kLs => some (decide (x.toNat ≤ y.toNat))
  | .kGe => some (decide (y.toInt ≤ x.toInt))
  | .kLt => some (decide (x.toInt < y.toInt))
  | .kGt => some (decide (y.toInt < x.toInt))
  | .kLe => some (decide (x.toInt ≤ y.toInt))
  | .kMi | .kPl | .kVs | .kVc | .kAl | .kNv => none

/-! ### Widths -/

variable (is64bit : Bool)

theorem width_pos : 0 < width is64bit := by
  cases is64bit <;> decide

theorem width_le : width is64bit ≤ 64 := by
  cases is64bit <;> decide

theorem operand_eq (v : BitVec 64) : operand is64bit v = (low is64bit v).setWidth 64 := by
  cases is64bit with
  | false => exact and_lowMask v (n := 32) (by omega)
  | true => exact ((setWidth_eq _).trans (setWidth_eq v)).symm

variable (x : BitVec (width is64bit)) (isSub : Bool) (a b : BitVec 64)

@[simp]
theorem low_setWidth : low is64bit (x.setWidth 64) = x := by
  unfold low
  rw [setWidth_setWidth_of_le _ (width_le is64bit), setWidth_eq]

@[simp]
theorem low_operand (v : BitVec 64) : low is64bit (operand is64bit v) = low is64bit v := by
  rw [operand_eq, low_setWidth]

theorem getLsbD_topBit : (x.setWidth 64).getLsbD (topBit is64bit) = x.msb := by
  rw [getLsbD_setWidth, msb_eq_getLsbD_last]
  cases is64bit <;> exact Bool.true_and _

theorem setWidth_beq_zero : (x.setWidth 64 == 0) = (x == 0#_) := by
  rw [Bool.eq_iff_iff, beq_iff_eq, beq_iff_eq]
  constructor
  · intro h
    rw [← low_setWidth is64bit x, h]
    exact setWidth_zero _ _
  · intro h
    rw [h]
    exact setWidth_zero _ _

theorem low_sub : low is64bit (a - b) = low is64bit a - low is64bit b := by
  unfold low
  rw [sub_eq_add_neg, setWidth_add _ _ (width_le is64bit),
    setWidth_neg_of_le (width_le is64bit), ← sub_eq_add_neg]

theorem low_add : low is64bit (a + b) = low is64bit a + low is64bit b :=
  setWidth_add _ _ (width_le is64bit)

/-! ### Flags -/

variable {w : Nat}

theorem addWithCarry_false (x y : BitVec w) : (addWithCarry x y false).1 = x + y := by
  simp [addWithCarry]

theorem c_addWithCarry_false (hw : 0 < w) (x y : BitVec w) :
    decide ((addWithCarry x y false).1.toNat < x.toNat) = (addWithCarry x y false).2.c := by
  have hsum := toNat_addWithCarry hw x y false
  cases hc : (addWithCarry x y false).2.c with
  | false =>
    rw [hc, Bool.toNat_false] at hsum
    exact decide_eq_false (by omega)
  | true =>
    rw [hc, Bool.toNat_true, Bool.toNat_false] at hsum
    exact decide_eq_true (by omega)

theorem overflow_signs (a b r : BitVec w) :
    decide ((0 ≤ a.toInt ∧ 0 ≤ b.toInt ∧ r.toInt < 0) ∨ (a.toInt < 0 ∧ b.toInt < 0 ∧ 0 ≤ r.toInt)) =
        (a.msb == b.msb && r.msb != a.msb) ∧
      decide ((0 ≤ a.toInt ∧ b.toInt < 0 ∧ r.toInt < 0) ∨
        (a.toInt < 0 ∧ 0 ≤ b.toInt ∧ 0 ≤ r.toInt)) =
        (a.msb == !b.msb && r.msb != a.msb) := by
  have hneg : ∀ x : BitVec w, x.toInt < 0 ↔ x.msb = true := fun x => by
    rw [msb_eq_toInt, decide_eq_true_eq]
  simp only [← Int.not_lt, hneg]
  cases a.msb <;> cases b.msb <;> cases r.msb <;> exact ⟨rfl, rfl⟩

theorem addSub_eq (flags : Nzcv) :
    addSub isSub true is64bit a b flags = armAdd isSub (low is64bit a) (low is64bit b) isSub := by
  have hw := width_pos is64bit
  have hres : operand is64bit (if isSub then a - b else a + b) =
      (armAdd isSub (low is64bit a) (low is64bit b) isSub).1 := by
    rw [operand_eq]
    refine congrArg (BitVec.setWidth 64) ?_
    cases isSub with
    | false => exact (low_add is64bit a b).trans (addWithCarry_false _ _).symm
    | true => exact (low_sub is64bit a b).trans (addWithCarry_not _ _).symm
  refine Prod.ext hres ?_
  simp only [addSub, if_true, hres]
  unfold updateFlags armAdd
  rw [operand_eq]
  simp only [getLsbD_topBit, low_setWidth, setWidth_beq_zero, (overflow_signs _ _ _).1,
    (overflow_signs _ _ _).2]
  generalize low is64bit a = x
  generalize low is64bit b = y
  cases isSub with
  | false =>
    exact congrArg₂ (Nzcv.mk _ _) (c_addWithCarry_false hw x y) (v_addWithCarry hw x y false).symm
  | true =>
    have hv := v_addWithCarry hw x (~~~y) true
    rw [msb_not, decide_eq_true hw, Bool.true_and] at hv
    exact congrArg₂ (Nzcv.mk _ _) (c_addWithCarry_not x y).symm hv.symm

theorem setWidth_ofBool (carry : Bool) :
    low is64bit (if carry then 1 else 0) = (BitVec.ofBool carry).setWidth (width is64bit) := by
  cases is64bit <;> cases carry <;> rfl

theorem overflow_xor (x y r : BitVec (width is64bit)) :
    ((x.setWidth 64 ^^^ r.setWidth 64) &&& (y.setWidth 64 ^^^ r.setWidth 64) &&&
        (1#64 <<< topBit is64bit) != 0) =
      ((x.msb ^^ r.msb) && (y.msb ^^ r.msb)) := by
  rw [← twoPow_eq, and_twoPow]
  simp only [getLsbD_and, getLsbD_xor, getLsbD_topBit]
  cases (x.msb ^^ r.msb) && (y.msb ^^ r.msb) <;> cases is64bit <;> decide

theorem carry_sum (x y : BitVec (width is64bit)) (carry : Bool) :
    (if is64bit then decide (2 ^ 64 - 1 < (x.setWidth 64).toNat + (y.setWidth 64).toNat +
        (if carry then 1 else 0 : BitVec 64).toNat) else decide ((0xFFFFFFFF : BitVec 64).toNat <
        (x.setWidth 64 + y.setWidth 64 + if carry then 1 else 0).toNat)) =
      (addWithCarry x y carry).2.c := by
  have hx := x.isLt
  have hy := y.isLt
  have hbit : (if carry then 1 else 0 : BitVec 64).toNat = carry.toNat := by
    cases carry <;> rfl
  have hc := Bool.toNat_le carry
  simp only [toNat_add, toNat_setWidth, hbit, addWithCarry]
  cases is64bit with
  | false =>
    rw [if_neg (by decide), decide_eq_decide]
    simp only [width, Bool.false_eq_true, if_false] at *
    rw [show (0xFFFFFFFF : BitVec 64).toNat = 2 ^ 32 - 1 from rfl]
    omega
  | true =>
    rw [if_pos rfl, decide_eq_decide]
    simp only [width, if_true] at *
    omega

theorem addSubWithCarry_eq (flags : Nzcv) : addSubWithCarry a b is64bit isSub true flags =
      armAdd isSub (low is64bit a) (low is64bit b) flags.c := by
  have hw := width_pos is64bit
  unfold addSubWithCarry armAdd
  have hop2 : (if isSub then operand is64bit (~~~operand is64bit b) else operand is64bit b) =
      (if isSub then ~~~low is64bit b else low is64bit b).setWidth 64 := by
    cases isSub with
    | false => exact operand_eq is64bit b
    | true =>
      rw [if_pos rfl, if_pos rfl, operand_eq]
      refine congrArg (BitVec.setWidth 64) ?_
      exact (setWidth_not (width_le is64bit)).trans (congrArg (~~~ ·) (low_operand is64bit b))
  rw [hop2, operand_eq is64bit a]
  generalize low is64bit a = x
  generalize (if isSub then ~~~low is64bit b else low is64bit b) = y
  have hres : operand is64bit (x.setWidth 64 + y.setWidth 64 + if flags.c then 1 else 0) =
      (addWithCarry x y flags.c).1.setWidth 64 := by
    rw [operand_eq, low_add, low_add, low_setWidth, low_setWidth, setWidth_ofBool]
    rfl
  refine Prod.ext hres ?_
  simp only [if_true, hres, getLsbD_topBit, setWidth_beq_zero, overflow_xor, carry_sum]
  refine congrArg (Nzcv.mk _ _ _) (Eq.trans ?_ (v_addWithCarry hw x y flags.c).symm)
  cases x.msb <;> cases y.msb <;> cases (addWithCarry x y flags.c).1.msb <;> rfl

/-! ### Comparisons and long numbers -/

theorem evaluateCondition_compare (hw : 0 < w) (x y : BitVec w) (cond : Condition) :
    ∀ b ∈ cond.compares x y, evaluateCondition cond (armAdd true x y true).2 = b := by
  have hz : (armAdd true x y true).2.z = decide (x = y) := z_addWithCarry_not x y
  have hc : (armAdd true x y true).2.c = decide (y.toNat ≤ x.toNat) := c_addWithCarry_not x y
  have hlt : ((armAdd true x y true).2.n != (armAdd true x y true).2.v) =
      decide (x.toInt < y.toInt) :=
    lt_addWithCarry_not x y hw
  have hge : ((armAdd true x y true).2.n == (armAdd true x y true).2.v) =
      !decide (x.toInt < y.toInt) := by
    rw [← hlt, bne, Bool.not_not]
  have hnat := toNat_inj (x := x) (y := y)
  have hint := toInt_inj (x := x) (y := y)
  intro b hb
  cases cond <;> cases hb <;> rw [Bool.eq_iff_iff]
  case kGt | kLe =>
    simp only [evaluateCondition, hz, hlt, hge, ← hint, Bool.and_eq_true, Bool.or_eq_true,
      Bool.not_eq_true', decide_eq_true_eq, decide_eq_false_iff_not]
    omega
  all_goals
    simp only [evaluateCondition, hz, hc, hlt, hge, ← hnat, ne_eq, Bool.and_eq_true,
      Bool.or_eq_true,
      Bool.not_eq_true', decide_eq_true_eq, decide_eq_false_iff_not] <;> omega

theorem chainFrom_value (words : List (BitVec 64 × BitVec 64)) (flags : Nzcv) :
    wordsValue ((chainFrom isSub is64bit words flags).1.map (low is64bit)) +
        (chainFrom isSub is64bit words flags).2.c.toNat * 2 ^ (width is64bit * words.length) +
        (if isSub then wordsValue (words.map fun w => low is64bit w.2) + 1 else 0) =
      wordsValue (words.map fun w => low is64bit w.1) + flags.c.toNat +
        (if isSub then 2 ^ (width is64bit * words.length)
          else wordsValue (words.map fun w => low is64bit w.2)) := by
  induction words generalizing flags with
  | nil => cases isSub <;> simp [chainFrom, wordsValue]
  | cons word words ih =>
    have hw := width_pos is64bit
    simp only [chainFrom, addSubWithCarry_eq, armAdd, List.map_cons, low_setWidth, wordsValue,
      List.foldr_cons, List.length_cons, Nat.mul_succ, Nat.pow_add]
    have hsum := toNat_addWithCarry hw (low is64bit word.1)
      (if isSub then ~~~low is64bit word.2 else low is64bit word.2) flags.c
    have hrest := congrArg (2 ^ width is64bit * ·)
      (ih (addWithCarry (low is64bit word.1)
        (if isSub then ~~~low is64bit word.2 else low is64bit word.2) flags.c).2)
    have hnot : (~~~low is64bit word.2).toNat + (low is64bit word.2).toNat + 1 =
        2 ^ width is64bit := by
      rw [toNat_not]
      omega
    simp only [wordsValue] at hrest
    -- The carry between the words is the same on both sides.
    rw [Nat.mul_comm _ (2 ^ width is64bit)] at hsum
    rw [Nat.mul_comm (2 ^ (width is64bit * words.length)), Nat.mul_left_comm]
    cases isSub with
    | false =>
      simp only [Bool.false_eq_true, if_false, Nat.mul_add] at *
      omega
    | true =>
      simp only [if_true, Nat.mul_add] at *
      omega

/-- All instructions set the flags as the architecture says. So after a comparison the
    conditions say how the operands compare, and a chain of instructions computes the sum
    or difference of long numbers. -/
theorem flags_exact (is64bit isSub : Bool) (flags : Nzcv) :
    (∀ src imm, addSubImm isSub true is64bit src imm flags =
        armAdd isSub (low is64bit src) (low is64bit (imm.setWidth 64)) isSub) ∧
      (∀ src1 src2 shiftType shiftAmount,
        addSubShiftedReg isSub true is64bit src1 src2 shiftType shiftAmount flags =
          armAdd isSub (low is64bit src1)
            (low is64bit (applyShift src2 shiftType shiftAmount is64bit)) isSub) ∧
      (∀ src1 src2 extendType shiftAmount,
        addSubExtendedReg isSub true is64bit src1 src2 extendType shiftAmount flags =
          armAdd isSub (low is64bit src1) (low is64bit (extendReg src2 extendType shiftAmount))
            isSub) ∧ (∀ src1 src2, addSubWithCarry src1 src2 is64bit isSub true flags =
        armAdd isSub (low is64bit src1) (low is64bit src2) flags.c) ∧
      (∀ rn rm cond nzcv, evaluateCondition cond flags = true →
        conditionalCompare (!isSub) is64bit rn rm cond nzcv flags =
          (armAdd isSub (low is64bit rn) (low is64bit rm) isSub).2) ∧
      (∀ (x y : BitVec (width is64bit)) (cond : Condition), ∀ b ∈ cond.compares x y,
        evaluateCondition cond (armAdd true x y true).2 = b) ∧ ∀ a b words,
        let r := chain isSub is64bit a b words flags
        let values := fun f : BitVec 64 × BitVec 64 → BitVec 64 =>
          wordsValue (((a, b) :: words).map fun w => low is64bit (f w))
        let modulus := 2 ^ (width is64bit * (words.length + 1))
        wordsValue (r.1.map (low is64bit)) + r.2.c.toNat * modulus +
            (if isSub then values Prod.snd else 0) =
          values Prod.fst + if isSub then modulus else values Prod.snd := by
  have hw := width_pos is64bit
  have hfirst : ∀ a b, addSubShiftedReg isSub true is64bit a b .kLsl 0 flags =
      addSubWithCarry a b is64bit isSub true { flags with c := isSub } := by
    intro a b
    rw [addSubWithCarry_eq, addSubShiftedReg, addSub_eq, low_operand]
    exact congrArg (armAdd isSub (low is64bit a) · isSub) (low_operand is64bit b)
  refine ⟨fun src imm => ?_, fun src1 src2 _ _ => ?_, fun src1 src2 _ _ => ?_,
    fun src1 src2 => addSubWithCarry_eq is64bit isSub src1 src2 flags, fun rn rm cond nzcv h => ?_,
    evaluateCondition_compare hw, fun a b words => ?_⟩
  · rw [addSubImm, addSub_eq, low_operand]
  · rw [addSubShiftedReg, addSub_eq, low_operand]
  · rw [addSubExtendedReg, addSub_eq, low_operand, low_operand]
  · rw [conditionalCompare, if_pos h, Bool.not_not, addSub_eq, low_operand, low_operand]
  · have hchain := chainFrom_value is64bit isSub ((a, b) :: words) { flags with c := isSub }
    have hsame : chain isSub is64bit a b words flags =
        chainFrom isSub is64bit ((a, b) :: words) { flags with c := isSub } := by
      rw [chain, hfirst, chainFrom]
    intro r values modulus
    rw [show r = _ from hsame]
    simp only [List.length_cons] at hchain
    cases isSub with
    | false => simpa [values, modulus] using hchain
    | true =>
      simp only [if_true, Bool.toNat_true] at hchain
      simp only [values, modulus, if_true]
      omega

end Berberis.Arm64
