import Berberis.Interpreter.Riscv64.VectorArithmetic

/-!
# Widening, Narrowing and Extending Vector Operations

Drivers of vector operations whose operands and results differ in width. A wide
group has twice the registers of a narrow one, so the loop that writes one group
reads another one at a different pace. Where the manual permits that the groups
overlap, a register is read before it is overwritten.

## Theorems

* `run_correct_iff`: An operation with legal registers is done right, unless it is
  a narrowing one with a narrow source right after the destination, which is rejected.
-/

namespace Berberis.Riscv64.Vector

open Lib List BitVec Option

/-- A narrow register group, a wide one or a narrow element. -/
inductive WideArg (e : ElementType) where
  | vec (startNo : Nat)
  | wideVec (startNo : Nat)
  | scalar (value : BitVec e.bits)
  deriving DecidableEq

/-- An argument of an intrinsic. -/
inductive WideSimdArg (e : ElementType) where
  | simd (r : BitVec 128)
  | wideSimd (r : BitVec 128)
  | scalar (value : BitVec e.bits)

/-- An element that an operation gets. -/
inductive Operand (e w : ElementType) where
  | narrow (value : BitVec e.bits)
  | wide (value : BitVec w.bits)
  deriving DecidableEq

variable {e w : ElementType}

namespace WideArg

def vecNo : WideArg e → Option Nat
  | vec startNo => some startNo
  | _ => none

def wideVecNo : WideArg e → Option Nat
  | wideVec startNo => some startNo
  | _ => none

end WideArg

def operandElement (w : ElementType) (i : Nat) : WideSimdArg e → Operand e w
  | .simd r => .narrow (lane e.bits r i)
  | .wideSimd r => .wide (lane w.bits r i)
  | .scalar value => .narrow value

def vMovTopHalfToBottom (src : BitVec 128) : BitVec 128 := (src.extractLsb' 64 64).setWidth 128

def vMergeBottomHalfToTop (bottom top : BitVec 128) : BitVec 128 :=
  top.setWidth 64 ++ bottom.setWidth 64

def getLowVectorArgument (index : Nat) (v : Nat → BitVec 128) :
    WideArg e → Option (WideSimdArg e)
  | .vec startNo => (getV v (startNo + index)).map .simd
  | .wideVec startNo => (getV v (startNo + 2 * index)).map .wideSimd
  | .scalar value => some (.scalar value)

def getHighVectorArgument (index : Nat) (v : Nat → BitVec 128) :
    WideArg e → Option (WideSimdArg e)
  | .vec startNo => (getV v (startNo + index)).map fun r => .simd (vMovTopHalfToBottom r)
  | .wideVec startNo => (getV v (startNo + 2 * index + 1)).map .wideSimd
  | .scalar value => some (.scalar value)

/-! ### Drivers -/

section Drivers

variable (vta : TailProcessing) (vma : Option InactiveProcessing) (extraCsrs : List CsrName)

def widenRegister (intrinsic : List (BitVec 64) → List (Operand e w) → BitVec w.bits)
    (getArgument : (Nat → BitVec 128) → WideArg e → Option (WideSimdArg e)) (dst : Nat)
    (args : List (WideArg e)) (vstart vl : Nat) (mask : BitVec 128) (k : Nat) (s : State) :
    Option (BitVec 128) := do
  let result ← getV s.v (dst + k)
  let params ← args.mapM (getArgument s.v)
  return vectorMasking w vta vma result
    (ofLanes w.bits fun i => intrinsic (extraCsrs.map s.getCsr) (params.map (operandElement w i)))
    result vstart vl k mask

def opVectorWiden (destRegistersInvolved registersInvolved : Nat)
    (intrinsic : List (BitVec 64) → List (Operand e w) → BitVec w.bits) (dst : Nat)
    (args : List (WideArg e)) (s : State) : Option State :=
  if destRegistersInvolved ≠ registersInvolved ∧
      (!isAligned (orValuesOnlyForType WideArg.wideVecNo args ||| dst) destRegistersInvolved ||
        !isAligned (orValuesOnlyForType WideArg.vecNo args) registersInvolved) then some s.undefined
  else if args.any fun arg => arg.vecNo = some dst then some s.undefined
  else
    let vstart := s.vstart.toNat
    let vl := s.vl.toNat
    let s := s.setVstart 0
    if vl ≤ vstart then some s
    else
      let mask := s.v 0
      forRange (fun index s =>
        (writeRegister (widenRegister vta vma extraCsrs intrinsic (getLowVectorArgument index) dst
          args vstart vl mask) dst (2 * index) s).bind fun s =>
        if destRegistersInvolved > 1 then
          writeRegister (widenRegister vta vma extraCsrs intrinsic (getHighVectorArgument index) dst
            args vstart vl mask) dst (2 * index + 1) s
        else some s) 0 registersInvolved s

/-- A narrowing intrinsic fills the lower half of its result only. -/
def narrowProcessing (e w : ElementType) (lambda : List (Operand e w) → BitVec e.bits)
    (uninitialized : BitVec 128) (params : List (WideSimdArg e)) : BitVec 128 :=
  ofLanes e.bits fun i =>
    if i < w.elementsCount then lambda (params.map (operandElement w i))
    else lane e.bits uninitialized i

def opVectorNarrow (registersInvolved wideSrcRegistersInvolved : Nat)
    (intrinsic : List (BitVec 64) → List (Operand e w) → BitVec e.bits)
    (uninitialized : BitVec 128) (dst : Nat) (args : List (WideArg e)) (s : State) :
    Option State :=
  if wideSrcRegistersInvolved ≠ registersInvolved ∧
      (!isAligned (orValuesOnlyForType WideArg.wideVecNo args) wideSrcRegistersInvolved ||
        !isAligned (orValuesOnlyForType WideArg.vecNo args ||| dst) registersInvolved) then
      some s.undefined
  else if wideSrcRegistersInvolved ≠ registersInvolved ∧
      args.any fun arg => arg.vecNo = some (dst + registersInvolved) then some s.undefined
  else
    let vstart := s.vstart.toNat
    let vl := s.vl.toNat
    let s := s.setVstart 0
    if vl ≤ vstart then some s
    else
      let mask := s.v 0
      forRange (writeRegister (fun index s => do
        let origResult ← getV s.v (dst + index)
        let params ← args.mapM (getLowVectorArgument index s.v)
        let low := narrowProcessing e w (intrinsic (extraCsrs.map s.getCsr)) uninitialized params
        if wideSrcRegistersInvolved > 1 then
          let params ← args.mapM (getHighVectorArgument index s.v)
          let high := narrowProcessing e w (intrinsic (extraCsrs.map s.getCsr)) uninitialized params
          return vectorMasking e vta vma origResult (vMergeBottomHalfToTop low high) origResult
            vstart vl index mask
        else
          return vectorMasking e vta vma origResult low origResult vstart vl index mask) dst)
        0 registersInvolved s

/-- How many registers the source of an extension has. -/
def sourceRegistersInvolved (factor destRegistersInvolved : Nat) : Nat :=
  if destRegistersInvolved / factor = 0 then 1 else destRegistersInvolved / factor

def extendRegister (factor : Nat) (intrinsic : BitVec e.bits → BitVec w.bits) (dst src : Nat)
    (vstart vl : Nat) (mask : BitVec 128) (dstIndex : Nat) (s : State) : Option (BitVec 128) := do
  let srcIndex := dstIndex / factor
  let srcElem := dstIndex % factor
  let result ← getV s.v (dst + dstIndex)
  let source ← getV s.v (src + srcIndex)
  let arg := source >>> (128 / factor * srcElem)
  return vectorMasking w vta vma result (ofLanes w.bits fun i => intrinsic (lane e.bits arg i))
    result vstart vl dstIndex mask

def opVectorVXUnary0 (factor : Nat) (destRegistersInvolved : Nat)
    (intrinsic : BitVec e.bits → BitVec w.bits) (dst src : Nat) (s : State) : Option State :=
  if !isAligned dst destRegistersInvolved ||
      !isAligned src (sourceRegistersInvolved factor destRegistersInvolved) then
    some s.undefined
  else
    let vstart := s.vstart.toNat
    let vl := s.vl.toNat
    if vl ≤ vstart then some (s.setVstart 0)
    else
      let mask := s.v 0
      (forRange (writeRegister (extendRegister vta vma factor intrinsic dst src vstart vl mask) dst)
        0 destRegistersInvolved s).map (State.setVstart · 0)

end Drivers

/-! ### Halves of registers -/

theorem elementsCount_of_bits {factor : Nat} (hw : w.bits = factor * e.bits) :
    e.elementsCount = factor * w.elementsCount := by
  have he := e.bits_mul_elementsCount
  have hbits := w.bits_mul_elementsCount
  rw [hw, ← he, Nat.mul_comm factor, Nat.mul_assoc] at hbits
  exact (Nat.eq_of_mul_eq_mul_left e.bits_pos hbits).symm

theorem bits_mul_half (hw : w.bits = 2 * e.bits) : e.bits * w.elementsCount = 64 := by
  have hbits := w.bits_mul_elementsCount
  rw [hw, Nat.mul_assoc] at hbits
  omega

variable {i : Nat} {vlmul : VectorRegisterGroupMultiplier}

section

variable (hw : w.bits = 2 * e.bits)
include hw

theorem half_bit_lt {b : Nat} (hi : i < w.elementsCount) (hb : b < e.bits) :
    e.bits * i + b < 64 := by
  have hmul := Nat.mul_le_mul_left e.bits (Nat.succ_le_of_lt hi)
  rw [bits_mul_half hw, Nat.mul_succ] at hmul
  omega

theorem lane_vMovTopHalfToBottom (r : BitVec 128) (hi : i < w.elementsCount) :
    lane e.bits (vMovTopHalfToBottom r) i = lane e.bits r (w.elementsCount + i) := by
  refine lane_congr fun b hb => ?_
  have hlt := half_bit_lt hw hi hb
  unfold vMovTopHalfToBottom
  rw [getLsbD_setWidth, getLsbD_extractLsb', Nat.mul_add, bits_mul_half hw,
    decide_eq_true hlt, decide_eq_true (show e.bits * i + b < 128 by omega), Bool.true_and,
    Bool.true_and, Nat.add_assoc]

theorem lane_vMergeBottomHalfToTop_low (bottom top : BitVec 128) (hi : i < w.elementsCount) :
    lane e.bits (vMergeBottomHalfToTop bottom top) i = lane e.bits bottom i := by
  refine lane_congr fun b hb => ?_
  have hlt := half_bit_lt hw hi hb
  unfold vMergeBottomHalfToTop
  rw [getLsbD_append, if_pos hlt, getLsbD_setWidth, decide_eq_true hlt, Bool.true_and]

theorem lane_vMergeBottomHalfToTop_high (bottom top : BitVec 128) (hi : i < w.elementsCount) :
    lane e.bits (vMergeBottomHalfToTop bottom top) (w.elementsCount + i) = lane e.bits top i := by
  refine lane_congr fun b hb => ?_
  have hlt := half_bit_lt hw hi hb
  unfold vMergeBottomHalfToTop
  rw [Nat.mul_add, bits_mul_half hw, Nat.add_assoc, getLsbD_append, if_neg (by omega),
    Nat.add_sub_cancel_left, getLsbD_setWidth, decide_eq_true hlt, Bool.true_and]

end

/-! ### Arguments -/

def WideArg.operand (w : ElementType) (v : Nat → BitVec 128) (n : Nat) : WideArg e → Operand e w
  | .vec startNo => .narrow (element e v startNo n)
  | .wideVec startNo => .wide (element w v startNo n)
  | .scalar value => .narrow value

/-- The argument for half `k` of a group, before anything is overwritten. -/
def WideArg.half (k : Nat) (v : Nat → BitVec 128) : WideArg e → WideSimdArg e
  | .vec startNo =>
    if k % 2 = 0 then .simd (v (startNo + k / 2))
    else .simd (vMovTopHalfToBottom (v (startNo + k / 2)))
  | .wideVec startNo => .wideSimd (v (startNo + k))
  | .scalar value => .scalar value

/-- Where the source has two functions for the halves of arguments. -/
def getHalfArgument (k : Nat) : (Nat → BitVec 128) → WideArg e → Option (WideSimdArg e) :=
  if k % 2 = 0 then getLowVectorArgument (k / 2) else getHighVectorArgument (k / 2)

theorem getHalfArgument_even (index : Nat) :
    getHalfArgument (e := e) (2 * index) = getLowVectorArgument index := by
  unfold getHalfArgument
  rw [if_pos (by omega), show 2 * index / 2 = index by omega]

theorem getHalfArgument_odd (index : Nat) :
    getHalfArgument (e := e) (2 * index + 1) = getHighVectorArgument index := by
  unfold getHalfArgument
  rw [if_neg (by omega), show (2 * index + 1) / 2 = index by omega]

theorem getHalfArgument_eq {v v' : Nat → BitVec 128} {k : Nat} (arg : WideArg e)
    (hvec : ∀ r, arg.vecNo = some r → r + k / 2 < 32 ∧ v' (r + k / 2) = v (r + k / 2))
    (hwide : ∀ r, arg.wideVecNo = some r → r + k < 32 ∧ v' (r + k) = v (r + k)) :
    getHalfArgument k v' arg = some (arg.half k v) := by
  unfold getHalfArgument
  cases arg with
  | vec startNo =>
    rcases hvec startNo rfl with ⟨hlt, heq⟩
    split_ifs with hk <;>
      simp [getLowVectorArgument, getHighVectorArgument, getV_of_lt hlt, heq, WideArg.half, hk]
  | wideVec startNo =>
    rcases hwide startNo rfl with ⟨hlt, heq⟩
    split_ifs with hk
    · have hidx : startNo + 2 * (k / 2) = startNo + k := by omega
      simp [getLowVectorArgument, hidx, getV_of_lt hlt, heq, WideArg.half]
    · have hidx : startNo + 2 * (k / 2) + 1 = startNo + k := by omega
      simp [getHighVectorArgument, hidx, getV_of_lt hlt, heq, WideArg.half]
  | scalar value =>
    split_ifs <;> rfl

theorem operandElement_half (hw : w.bits = 2 * e.bits) (v : Nat → BitVec 128) (k : Nat)
    (hi : i < w.elementsCount) (arg : WideArg e) :
    operandElement w i (arg.half k v) = arg.operand w v (w.elementsCount * k + i) := by
  have hcount := elementsCount_of_bits hw
  cases arg with
  | vec startNo =>
    unfold WideArg.half WideArg.operand
    dsimp only
    split_ifs with hk
    · have hn : w.elementsCount * k + i = e.elementsCount * (k / 2) + i := by
        rw [hcount, Nat.mul_comm 2, Nat.mul_assoc, show 2 * (k / 2) = k by omega]
      rw [hn, element_add e v startNo _ (by omega)]
      rfl
    · have hn : w.elementsCount * k + i = e.elementsCount * (k / 2) + (w.elementsCount + i) := by
        rw [hcount, Nat.mul_comm 2, Nat.mul_assoc, ← Nat.add_assoc, ← Nat.mul_succ,
          show Nat.succ (2 * (k / 2)) = k by omega]
      rw [hn, element_add e v startNo _ (by omega)]
      exact congrArg _ (lane_vMovTopHalfToBottom hw _ hi)
  | wideVec startNo => exact congrArg _ (element_add w v startNo k hi).symm
  | scalar value => rfl

/-! ### Legal registers -/

def VectorRegisterGroupMultiplier.atLeastOne : VectorRegisterGroupMultiplier → Bool
  | kEigthOfRegister => false
  | kQuarterOfRegister => false
  | kHalfOfRegister => false
  | _ => true

def Apart (a n b m : Nat) : Prop := a + n ≤ b ∨ b + m ≤ a

instance (a n b m : Nat) : Decidable (Apart a n b m) := inferInstanceAs (Decidable (_ ∨ _))

theorem wideRegisters_cases (h : vlmul ≠ .k8registers) :
    (vlmul.atLeastOne = true ∧ numRegistersInvolvedForWideOperand vlmul =
        2 * numberOfRegistersInvolved vlmul) ∨
      (vlmul.atLeastOne = false ∧ numRegistersInvolvedForWideOperand vlmul = 1 ∧
        numberOfRegistersInvolved vlmul = 1) := by
  cases vlmul <;> simp_all [VectorRegisterGroupMultiplier.atLeastOne,
    numRegistersInvolvedForWideOperand, numberOfRegistersInvolved]

theorem groupSize_wideOperand (vlmul : VectorRegisterGroupMultiplier) :
    GroupSize (numRegistersInvolvedForWideOperand vlmul) := by
  cases vlmul <;> simp [GroupSize, numRegistersInvolvedForWideOperand]

section Legal

variable (vlmul : VectorRegisterGroupMultiplier) (dst : Nat)

/-- An argument of a widening operation: a narrow group overlaps the destination at most
    in its highest-numbered part. -/
structure WidenLegal (arg : WideArg e) : Prop where
  vec : ∀ r ∈ arg.vecNo, r < 32 ∧ isAligned r (numberOfRegistersInvolved vlmul) = true ∧
    (Apart dst (numRegistersInvolvedForWideOperand vlmul) r (numberOfRegistersInvolved vlmul) ∨
      vlmul.atLeastOne = true ∧ r + numberOfRegistersInvolved vlmul =
        dst + numRegistersInvolvedForWideOperand vlmul)
  wideVec : ∀ r ∈ arg.wideVecNo,
    r < 32 ∧ isAligned r (numRegistersInvolvedForWideOperand vlmul) = true

/-- An argument of a narrowing operation: the destination overlaps a wide group at most
    in its lowest-numbered part. -/
structure NarrowLegal (arg : WideArg e) : Prop where
  vec : ∀ r ∈ arg.vecNo, r < 32 ∧ isAligned r (numberOfRegistersInvolved vlmul) = true
  wideVec : ∀ r ∈ arg.wideVecNo,
    r < 32 ∧ isAligned r (numRegistersInvolvedForWideOperand vlmul) = true ∧
      (Apart dst (numberOfRegistersInvolved vlmul) r (numRegistersInvolvedForWideOperand vlmul) ∨
        r = dst)

end Legal

/-! ### Widening -/

section Widen

variable {vta : TailProcessing} {vma : Option InactiveProcessing} {extraCsrs : List CsrName}
  {vlmul : VectorRegisterGroupMultiplier} {dst : Nat} {args : List (WideArg e)} {s : State}

theorem widen_loop_eq (intrinsic : List (BitVec 64) → List (Operand e w) → BitVec w.bits)
    (vstart vl : Nat) (mask : BitVec 128) {destRegs regs : Nat}
    (hregs : destRegs = 2 * regs ∨ destRegs = 1 ∧ regs = 1) (s : State) : forRange (fun index s =>
        (writeRegister (widenRegister vta vma extraCsrs intrinsic (getLowVectorArgument index) dst
          args vstart vl mask) dst (2 * index) s).bind fun s => if destRegs > 1 then
          writeRegister (widenRegister vta vma extraCsrs intrinsic (getHighVectorArgument index) dst
            args vstart vl mask) dst (2 * index + 1) s else some s) 0 regs s =
      forRange (writeRegister (fun k => widenRegister vta vma extraCsrs intrinsic
        (getHalfArgument k) dst args vstart vl mask k) dst) 0 destRegs s := by
  rcases hregs with hregs | ⟨rfl, rfl⟩
  · rcases Nat.eq_zero_or_pos regs with rfl | hpos
    · rw [hregs]
      rfl
    · have hpairs := forRange_pairs (writeRegister (fun k => widenRegister vta vma extraCsrs
        intrinsic (getHalfArgument k) dst args vstart vl mask k) dst) 0 regs s
      rw [hregs, ← hpairs]
      have hgt : 2 * regs > 1 := by omega
      simp only [hgt, if_true]
      congr 1
      funext index s
      unfold writeRegister
      simp [getHalfArgument_even, getHalfArgument_odd]
  · simp only [forRange_succ, forRange_zero, gt_iff_lt, Nat.lt_irrefl, if_false, bind_fun_some]
    rfl

theorem WidenLegal.getHalfArgument {arg : WideArg e} (h : WidenLegal vlmul dst arg)
    (hvm : vlmul ≠ .k8registers)
    (hdst : dst < 32 ∧ isAligned dst (numRegistersInvolvedForWideOperand vlmul) = true)
    {v new : Nat → BitVec 128} {k : Nat} (hk : k < numRegistersInvolvedForWideOperand vlmul) :
    getHalfArgument k (overwritten v dst k new) arg = some (arg.half k v) := by
  have hcas := wideRegisters_cases hvm
  refine getHalfArgument_eq arg (fun r hr => ?_) (fun r hr => ?_)
  · rcases h.vec r hr with ⟨hlt, halign, hoverl⟩
    have hle := add_le_of_isAligned (groupSize_numberOfRegistersInvolved vlmul) hlt halign
    unfold Apart at hoverl
    refine ⟨by omega, overwritten_of_not ?_⟩
    -- In the highest-numbered part register `n + k / 2` is read when `k < 2 * n` are written.
    omega
  · rcases h.wideVec r hr with ⟨hlt, halign⟩
    have hle := add_le_of_isAligned (groupSize_wideOperand vlmul) hlt halign
    refine ⟨by omega, overwritten_of_not ?_⟩
    rcases eq_or_disjoint_of_isAligned (groupSize_wideOperand vlmul) hdst.2 halign with
      heq | hle | hle <;> omega

theorem WidenLegal.vecNo_ne {arg : WideArg e} (h : WidenLegal vlmul dst arg)
    (hvm : vlmul ≠ .k8registers) : arg.vecNo ≠ some dst := by
  intro hdst
  have hcas := wideRegisters_cases hvm
  have hpos := (groupSize_numberOfRegistersInvolved vlmul).pos
  rcases h.vec dst hdst with ⟨-, -, hapart | ⟨hone, heq⟩⟩
  · unfold Apart at hapart
    omega
  · rw [hone] at hcas
    simp only [Bool.true_eq_false, false_and, or_false, true_and] at hcas
    omega

theorem opVectorWiden_outcome (hw : w.bits = 2 * e.bits) (hvm : vlmul ≠ .k8registers)
    (intrinsic : List (BitVec 64) → List (Operand e w) → BitVec w.bits)
    (hdst : dst < 32 ∧ isAligned dst (numRegistersInvolvedForWideOperand vlmul) = true)
    (hargs : ∀ arg ∈ args, WidenLegal vlmul dst arg) (hexc : s.exceptionRaised = false) :
    ∃ v', opVectorWiden vta vma extraCsrs (numRegistersInvolvedForWideOperand vlmul)
        (numberOfRegistersInvolved vlmul) intrinsic dst args s =
          some { s with v := v', vstart := 0 } ∧
      Outcome w vta vma (numRegistersInvolvedForWideOperand vlmul) dst
        (fun n => intrinsic (extraCsrs.map s.getCsr) (args.map (WideArg.operand w s.v n)))
        (element w s.v dst) s v' := by
  have hdr := groupSize_wideOperand vlmul
  have hregs := groupSize_numberOfRegistersInvolved vlmul
  have hwa : isAligned (orValuesOnlyForType WideArg.wideVecNo args ||| dst)
      (numRegistersInvolvedForWideOperand vlmul) = true := by
    rw [isAligned_or hdr, hdst.2, Bool.and_true]
    exact isAligned_orValuesOnlyForType hdr fun arg harg r hr =>
      ((hargs arg harg).wideVec r hr).2
  have halign :=
      isAligned_orValuesOnlyForType hregs fun arg harg r hr => ((hargs arg harg).vec r hr).2.1
  have hany : (args.any fun arg => arg.vecNo = some dst) = false := by
    simp only [List.any_eq_false, decide_eq_true_eq]
    exact fun arg harg => (hargs arg harg).vecNo_ne hvm
  have hloop := wideRegisters_cases hvm
  unfold opVectorWiden
  simp only [hwa, halign, hany, Bool.not_true, Bool.or_self, Bool.false_eq_true,
    and_false, if_false, State.setVstart_zero hexc]
  refine Outcome.of_exit fun h => ?_
  rw [widen_loop_eq _ _ _ _ (by omega)]
  refine GroupAfter.of_loop
    (fun k => ofLanes w.bits fun i => intrinsic (extraCsrs.map s.getCsr)
      ((args.map (WideArg.half k s.v)).map (operandElement w i)))
    (fun i => s.v (dst + i)) rfl hdr (add_le_of_isAligned hdr hdst.1 hdst.2) h
    (fun k hk new => ?_) (fun n _ _ _ _ => ?_) (fun n _ => rfl)
  · have hpar : args.mapM (getHalfArgument k (overwritten s.v dst k new)) =
        some (args.map (WideArg.half k s.v)) :=
      mapM_eq_some fun arg harg => (hargs arg harg).getHalfArgument hvm hdst hk
    simp only [widenRegister, getV_overwritten hdr hdst.2 hdst hk, hpar, bind_eq_bind, bind_some]
    rfl
  · have hmod := Nat.mod_lt n w.elementsCount_pos
    rw [ElementType.lane_ofLanes _ hmod, List.map_map]
    refine congrArg _ (List.map_congr_left fun arg _ => ?_)
    rw [Function.comp_apply, operandElement_half hw s.v _ hmod arg, Nat.div_add_mod]

end Widen

/-! ### Narrowing -/

section Narrow

variable {vta : TailProcessing} {vma : Option InactiveProcessing} {extraCsrs : List CsrName}
  {vlmul : VectorRegisterGroupMultiplier} {dst : Nat} {args : List (WideArg e)} {s : State}

/-- The registers that are read for half `k` are not overwritten while those before the
    register of half `k` are. -/
theorem NarrowLegal.getHalfArgument {arg : WideArg e} (h : NarrowLegal vlmul dst arg)
    (hvm : vlmul ≠ .k8registers)
    (hdst : dst < 32 ∧ isAligned dst (numberOfRegistersInvolved vlmul) = true)
    {v new : Nat → BitVec 128} {k : Nat} (hk : k < numRegistersInvolvedForWideOperand vlmul) :
    Vector.getHalfArgument k (overwritten v dst (k / 2) new) arg = some (arg.half k v) := by
  have hcas := wideRegisters_cases hvm
  have hregs := groupSize_numberOfRegistersInvolved vlmul
  refine getHalfArgument_eq arg (fun r hr => ?_) (fun r hr => ?_)
  · rcases h.vec r hr with ⟨hlt, halign⟩
    have hle := add_le_of_isAligned hregs hlt halign
    refine ⟨by omega, overwritten_of_not ?_⟩
    rcases eq_or_disjoint_of_isAligned hregs hdst.2 halign with heq | hle | hle <;> omega
  · rcases h.wideVec r hr with ⟨hlt, halign, hoverl⟩
    have hle := add_le_of_isAligned (groupSize_wideOperand vlmul) hlt halign
    unfold Apart at hoverl
    refine ⟨by omega, overwritten_of_not ?_⟩
    omega

theorem lane_narrowProcessing (hw : w.bits = 2 * e.bits)
    (lambda : List (Operand e w) → BitVec e.bits) (uninitialized : BitVec 128) (k : Nat)
    (args : List (WideArg e)) (v : Nat → BitVec 128) {i : Nat} (hi : i < w.elementsCount) :
    lane e.bits (narrowProcessing e w lambda uninitialized (args.map (WideArg.half k v))) i =
      lambda (args.map (WideArg.operand w v (w.elementsCount * k + i))) := by
  have hcount := elementsCount_of_bits hw
  unfold narrowProcessing
  rw [ElementType.lane_ofLanes _ (by omega), if_pos hi, List.map_map]
  refine congrArg _ (List.map_congr_left fun arg _ => ?_)
  exact operandElement_half hw v k hi arg

/-- Element `n` of the result, as the intrinsic leaves it: with a fractional LMUL the upper
    half of the register is not filled. -/
def narrowResult (w : ElementType) (vlmul : VectorRegisterGroupMultiplier)
    (lambda : List (Operand e w) → BitVec e.bits) (uninitialized : BitVec 128)
    (args : List (WideArg e)) (v : Nat → BitVec 128) (n : Nat) : BitVec e.bits :=
  if vlmul.atLeastOne = true ∨ n < w.elementsCount then
    lambda (args.map (WideArg.operand w v n))
  else lane e.bits uninitialized n

def narrowRegister (w : ElementType) (vlmul : VectorRegisterGroupMultiplier)
    (lambda : List (Operand e w) → BitVec e.bits) (uninitialized : BitVec 128)
    (args : List (WideArg e)) (v : Nat → BitVec 128) (i : Nat) : BitVec 128 :=
  let half := fun k => narrowProcessing e w lambda uninitialized (args.map (WideArg.half k v))
  if vlmul.atLeastOne = true then vMergeBottomHalfToTop (half (2 * i)) (half (2 * i + 1))
  else half (2 * i)

theorem lane_narrowRegister (hw : w.bits = 2 * e.bits) (hvm : vlmul ≠ .k8registers)
    (lambda : List (Operand e w) → BitVec e.bits) (uninitialized : BitVec 128)
    (args : List (WideArg e)) (v : Nat → BitVec 128) {n : Nat}
    (hn : n < numberOfRegistersInvolved vlmul * e.elementsCount) :
    lane e.bits (narrowRegister w vlmul lambda uninitialized args v (n / e.elementsCount))
        (n % e.elementsCount) =
      narrowResult w vlmul lambda uninitialized args v n := by
  have hcount := elementsCount_of_bits hw
  have hmod := Nat.mod_lt n e.elementsCount_pos
  have hdiv : w.elementsCount * (2 * (n / e.elementsCount)) + n % e.elementsCount = n := by
    rw [← Nat.mul_assoc, Nat.mul_comm w.elementsCount, ← hcount, Nat.div_add_mod]
  unfold narrowRegister narrowResult
  rcases wideRegisters_cases hvm with ⟨hone, -⟩ | ⟨hone, -, hregs⟩
  · rw [if_pos hone, if_pos (Or.inl hone)]
    by_cases hlow : n % e.elementsCount < w.elementsCount
    · rw [lane_vMergeBottomHalfToTop_low hw _ _ hlow, lane_narrowProcessing hw _ _ _ _ _ hlow, hdiv]
    · obtain ⟨i, hi⟩ := Nat.exists_eq_add_of_le (Nat.le_of_not_lt hlow)
      rw [hi] at hmod hdiv ⊢
      rw [lane_vMergeBottomHalfToTop_high hw _ _ (by omega),
        lane_narrowProcessing hw _ _ _ _ _ (by omega), Nat.mul_succ, Nat.add_assoc, hdiv]
  · rw [hregs, Nat.one_mul] at hn
    rw [Nat.mod_eq_of_lt hn, Nat.div_eq_of_lt hn]
    simp only [hone, Bool.false_eq_true, if_false, false_or, Nat.mul_zero]
    by_cases hlow : n < w.elementsCount
    · rw [if_pos hlow, lane_narrowProcessing hw _ _ _ _ _ hlow, Nat.mul_zero, Nat.zero_add]
    · unfold narrowProcessing
      rw [ElementType.lane_ofLanes _ hn, if_neg hlow, if_neg hlow]

theorem opVectorNarrow_outcome (hw : w.bits = 2 * e.bits) (hvm : vlmul ≠ .k8registers)
    (intrinsic : List (BitVec 64) → List (Operand e w) → BitVec e.bits) (uninitialized : BitVec 128)
    (hdst : dst < 32 ∧ isAligned dst (numberOfRegistersInvolved vlmul) = true)
    (hargs : ∀ arg ∈ args, NarrowLegal vlmul dst arg) (hnext : vlmul.atLeastOne = true →
      ∀ arg ∈ args, arg.vecNo ≠ some (dst + numberOfRegistersInvolved vlmul))
    (hexc : s.exceptionRaised = false) :
    ∃ v', opVectorNarrow vta vma extraCsrs (numberOfRegistersInvolved vlmul)
        (numRegistersInvolvedForWideOperand vlmul) intrinsic uninitialized dst args s =
          some { s with v := v', vstart := 0 } ∧
      Outcome e vta vma (numberOfRegistersInvolved vlmul) dst
        (narrowResult w vlmul (intrinsic (extraCsrs.map s.getCsr)) uninitialized args s.v)
        (element e s.v dst) s v' := by
  have hwid := groupSize_wideOperand vlmul
  have hregs := groupSize_numberOfRegistersInvolved vlmul
  have hwa := isAligned_orValuesOnlyForType hwid fun arg harg r hr =>
      ((hargs arg harg).wideVec r hr).2.1
  have halign : isAligned (orValuesOnlyForType WideArg.vecNo args ||| dst)
      (numberOfRegistersInvolved vlmul) = true := by
    rw [isAligned_or hregs, hdst.2, Bool.and_true]
    exact isAligned_orValuesOnlyForType hregs fun arg harg r hr => ((hargs arg harg).vec r hr).2
  have hcas := wideRegisters_cases hvm
  have hany : ¬ (numRegistersInvolvedForWideOperand vlmul ≠ numberOfRegistersInvolved vlmul ∧
      (args.any fun arg => arg.vecNo = some (dst + numberOfRegistersInvolved vlmul)) = true) := by
    rintro ⟨hne, hany⟩
    simp only [List.any_eq_true, decide_eq_true_eq] at hany
    rcases hany with ⟨arg, harg, hst⟩
    rcases hcas with ⟨hone, -⟩ | ⟨-, hone, hone'⟩
    · exact hnext hone arg harg hst
    · exact hne (hone.trans hone'.symm)
  unfold opVectorNarrow
  simp only [hwa, halign, if_neg hany, Bool.not_true, Bool.or_self, Bool.false_eq_true,
    and_false, if_false, State.setVstart_zero hexc]
  refine Outcome.of_exit fun h => ?_
  refine GroupAfter.of_loop
    (narrowRegister w vlmul (intrinsic (extraCsrs.map s.getCsr)) uninitialized args s.v)
    (fun i => s.v (dst + i)) rfl hregs (add_le_of_isAligned hregs hdst.1 hdst.2) h
    (fun i hi new => ?_)
    (fun n hn _ _ _ => lane_narrowRegister hw hvm _ uninitialized args s.v hn) (fun n _ => rfl)
  have hhalf : ∀ k, k / 2 = i → k < numRegistersInvolvedForWideOperand vlmul →
      args.mapM (getHalfArgument k (overwritten s.v dst i new)) =
        some (args.map (WideArg.half k s.v)) := by
    rintro k rfl hk
    exact mapM_eq_some fun arg harg => (hargs arg harg).getHalfArgument hvm hdst hk
  have hlow := hhalf (2 * i) (by omega) (by omega)
  rw [getHalfArgument_even] at hlow
  unfold narrowRegister
  simp only [getV_overwritten hregs hdst.2 hdst hi, hlow, bind_eq_bind, bind_some]
  rcases hcas with ⟨hone, hwide⟩ | ⟨hone, hwide, -⟩
  · have hhigh := hhalf (2 * i + 1) (by omega) (by omega)
    rw [getHalfArgument_odd] at hhigh
    have hgt : numRegistersInvolvedForWideOperand vlmul > 1 := by omega
    simp only [if_pos hgt, if_pos hone, hhigh, bind_some]
    rfl
  · have hgt : ¬ numRegistersInvolvedForWideOperand vlmul > 1 := by omega
    simp only [if_neg hgt, hone, Bool.false_eq_true, if_false]
    rfl

/-- A narrow source that follows the destination is rejected, though the check is meant for
    wide sources. -/
theorem opVectorNarrow_rejects (hvm : vlmul ≠ .k8registers) (hone : vlmul.atLeastOne = true)
    {intrinsic : List (BitVec 64) → List (Operand e w) → BitVec e.bits}
    {uninitialized : BitVec 128} {arg : WideArg e} (harg : arg ∈ args)
    (hnext : arg.vecNo = some (dst + numberOfRegistersInvolved vlmul)) :
    opVectorNarrow vta vma extraCsrs (numberOfRegistersInvolved vlmul)
      (numRegistersInvolvedForWideOperand vlmul) intrinsic uninitialized dst args s =
        some s.undefined := by
  have hne : numRegistersInvolvedForWideOperand vlmul ≠ numberOfRegistersInvolved vlmul := by
    have hpos := (groupSize_numberOfRegistersInvolved vlmul).pos
    rcases wideRegisters_cases hvm with ⟨-, hwide⟩ | ⟨hzero, -⟩
    · omega
    · rw [hone] at hzero
      exact absurd hzero (by decide)
  have hany : (args.any fun arg => arg.vecNo = some (dst + numberOfRegistersInvolved vlmul)) =
      true := by
    simp only [List.any_eq_true, decide_eq_true_eq]
    exact ⟨arg, harg, hnext⟩
  unfold opVectorNarrow
  rw [if_pos (show _ ∧ _ from ⟨hne, hany⟩), ite_self]

end Narrow

/-! ### Extending -/

section Extend

variable {vta : TailProcessing} {vma : Option InactiveProcessing} {factor regs dst src : Nat}
  {s : State}

/-- The source of an extension overlaps the destination at most in its highest-numbered part. -/
structure ExtendLegal (factor regs dst src : Nat) : Prop where
  dstAligned : dst < 32 ∧ isAligned dst regs = true
  srcAligned : src < 32 ∧ isAligned src (sourceRegistersInvolved factor regs) = true
  overlap : Apart dst regs src (sourceRegistersInvolved factor regs) ∨
    factor ≤ regs ∧ src + sourceRegistersInvolved factor regs = dst + regs

theorem groupSize_sourceRegistersInvolved (hfact : factor = 2 ∨ factor = 4 ∨ factor = 8)
    (hregs : GroupSize regs) : GroupSize (sourceRegistersInvolved factor regs) := by
  rcases hfact with rfl | rfl | rfl <;> rcases hregs with rfl | rfl | rfl | rfl <;>
    simp [sourceRegistersInvolved, GroupSize]

theorem ExtendLegal.getV (h : ExtendLegal factor regs dst src)
    (hfact : factor = 2 ∨ factor = 4 ∨ factor = 8) (hregs : GroupSize regs)
    {v new : Nat → BitVec 128} {i : Nat} (hi : i < regs) :
    getV (overwritten v dst i new) (src + i / factor) = some (v (src + i / factor)) := by
  have hle := add_le_of_isAligned (groupSize_sourceRegistersInvolved hfact hregs)
    h.srcAligned.1 h.srcAligned.2
  have hoverl := h.overlap
  -- A register of the source is read for `factor` registers of the destination.
  have hsource : i / factor < sourceRegistersInvolved factor regs ∧
      (factor ≤ regs → i + sourceRegistersInvolved factor regs ≤ regs + i / factor) := by
    rcases hfact with rfl | rfl | rfl <;> rcases hregs with rfl | rfl | rfl | rfl <;>
      simp only [sourceRegistersInvolved] <;> norm_num <;> omega
  unfold Apart at hoverl
  generalize i / factor = q at hsource ⊢
  rw [getV_of_lt (by omega), overwritten_of_not (by omega)]

theorem lane_part (hw : w.bits = factor * e.bits) (r : BitVec 128) (part i : Nat) :
    lane e.bits (r >>> (128 / factor * part)) i = lane e.bits r (w.elementsCount * part + i) := by
  have hfact : 0 < factor := by
    rcases Nat.eq_zero_or_pos factor with rfl | hpos
    · have hbits := w.bits_pos
      omega
    · exact hpos
  have hpart : 128 / factor = e.bits * w.elementsCount := by
    rw [← w.bits_mul_elementsCount, hw, Nat.mul_assoc, Nat.mul_div_cancel_left _ hfact]
  refine lane_congr fun b _ => ?_
  rw [getLsbD_ushiftRight, hpart, Nat.mul_add, Nat.mul_assoc, Nat.add_assoc]

theorem opVectorVXUnary0_outcome (hw : w.bits = factor * e.bits)
    (hfact : factor = 2 ∨ factor = 4 ∨ factor = 8) (hregs : GroupSize regs)
    (intrinsic : BitVec e.bits → BitVec w.bits) (hleg : ExtendLegal factor regs dst src)
    (hexc : s.exceptionRaised = false) :
    ∃ v', opVectorVXUnary0 vta vma factor regs intrinsic dst src s =
        some { s with v := v', vstart := 0 } ∧
      Outcome w vta vma regs dst (fun n => intrinsic (element e s.v src n))
        (element w s.v dst) s v' := by
  have hdst := hleg.dstAligned
  have hcount := elementsCount_of_bits hw
  unfold opVectorVXUnary0
  simp only [hdst.2, hleg.srcAligned.2, Bool.not_true, Bool.or_self, Bool.false_eq_true,
    if_false, State.setVstart_zero hexc]
  refine Outcome.of_exit fun h => ?_
  have hloop : ∃ v', forRange (writeRegister (extendRegister vta vma factor intrinsic dst src
        s.vstart.toNat s.vl.toNat (s.v 0)) dst) 0 regs s = some { s with v := v' } ∧
      GroupAfter w vta vma regs dst (fun n => intrinsic (element e s.v src n))
        (element w s.v dst) s v' := by
    refine GroupAfter.of_loop
      (fun i => ofLanes w.bits fun j => intrinsic (lane e.bits
        (s.v (src + i / factor) >>> (128 / factor * (i % factor))) j))
      (fun i => s.v (dst + i)) rfl hregs (add_le_of_isAligned hregs hdst.1 hdst.2) h
      (fun i hi new => ?_) (fun n _ _ _ _ => ?_) (fun n _ => rfl)
    · simp only [extendRegister, getV_overwritten hregs hdst.2 hdst hi,
        hleg.getV hfact hregs hi, bind_eq_bind, bind_some]
      rfl
    · have hmod := Nat.mod_lt n w.elementsCount_pos
      have hn := Nat.div_add_mod n w.elementsCount
      rw [ElementType.lane_ofLanes _ hmod, lane_part hw]
      generalize n / w.elementsCount = index at hn ⊢
      generalize n % w.elementsCount = i at hn hmod ⊢
      have hlt : w.elementsCount * (index % factor) + i < e.elementsCount := by
        have hpart := Nat.mul_le_mul_left w.elementsCount
          (Nat.succ_le_of_lt (Nat.mod_lt index (show 0 < factor by omega)))
        rw [Nat.mul_succ, Nat.mul_comm _ factor, ← hcount] at hpart
        omega
      have hsource : e.elementsCount * (index / factor) +
          (w.elementsCount * (index % factor) + i) = n := by
        rw [hcount, ← Nat.add_assoc, Nat.mul_comm factor, Nat.mul_assoc, ← Nat.mul_add,
          Nat.div_add_mod, hn]
      rw [← hsource, element_add e s.v src _ hlt]
  rcases hloop with ⟨v', hrun, haft⟩
  refine ⟨v', ?_, haft⟩
  rw [hrun, map_some]
  exact congrArg some (State.setVstart_zero hexc)

end Extend

/-! ### Operations -/

/-- An operation and the driver that runs it. -/
inductive MixedWidthOperation (e : ElementType) where
  | widen (w : ElementType) (hw : w.bits = 2 * e.bits) (extraCsrs : List CsrName)
      (intrinsic : List (BitVec 64) → List (Operand e w) → BitVec w.bits) (args : List (WideArg e))
  | narrow (w : ElementType) (hw : w.bits = 2 * e.bits) (extraCsrs : List CsrName)
      (intrinsic : List (BitVec 64) → List (Operand e w) → BitVec e.bits)
      (uninitialized : BitVec 128) (args : List (WideArg e))
  | extend (source : ElementType) (factor : Nat) (hfactor : factor = 2 ∨ factor = 4 ∨ factor = 8)
      (hw : e.bits = factor * source.bits) (intrinsic : BitVec source.bits → BitVec e.bits)
      (src : Nat)

def IsActive (vma : Option InactiveProcessing) (s : State) (n : Nat) : Prop :=
  s.vstart.toNat ≤ n ∧ n < s.vl.toNat ∧ (vma ≠ none → (s.v 0).getLsbD n = true)

namespace MixedWidthOperation

/-- The callers of the drivers for wide operands reject LMUL 8. -/
def run (vlmul : VectorRegisterGroupMultiplier) (vta : TailProcessing)
    (vma : Option InactiveProcessing) (dst : Nat) :
    MixedWidthOperation e → State → Option State
  | widen _ _ extraCsrs intrinsic args, s =>
    if vlmul ≠ .k8registers then
      opVectorWiden vta vma extraCsrs (numRegistersInvolvedForWideOperand vlmul)
        (numberOfRegistersInvolved vlmul) intrinsic dst args s
    else some s.undefined
  | narrow _ _ extraCsrs intrinsic uninitialized args, s =>
    if vlmul ≠ .k8registers then
      opVectorNarrow vta vma extraCsrs (numberOfRegistersInvolved vlmul)
        (numRegistersInvolvedForWideOperand vlmul) intrinsic uninitialized dst args s
    else some s.undefined
  | extend _ factor _ _ intrinsic src, s =>
    opVectorVXUnary0 vta vma factor (numberOfRegistersInvolved vlmul) intrinsic dst src s

/-- The registers are not reserved, and the wide operand has an LMUL of at most 8. -/
def Legal (vlmul : VectorRegisterGroupMultiplier) (dst : Nat) : MixedWidthOperation e → Prop
  | widen _ _ _ _ args =>
    vlmul ≠ .k8registers ∧
      (dst < 32 ∧ isAligned dst (numRegistersInvolvedForWideOperand vlmul) = true) ∧
      ∀ arg ∈ args, WidenLegal vlmul dst arg
  | narrow _ _ _ _ _ args =>
    vlmul ≠ .k8registers ∧
      (dst < 32 ∧ isAligned dst (numberOfRegistersInvolved vlmul) = true) ∧
      ∀ arg ∈ args, NarrowLegal vlmul dst arg
  | extend _ factor _ _ _ src => ExtendLegal factor (numberOfRegistersInvolved vlmul) dst src

def ActiveElements (vlmul : VectorRegisterGroupMultiplier) (vma : Option InactiveProcessing)
    (dst : Nat) (s s' : State) : MixedWidthOperation e → Prop
  | widen w _ extraCsrs intrinsic args =>
    ∀ n < getVlmax e vlmul, IsActive vma s n → element w s'.v dst n =
      intrinsic (extraCsrs.map s.getCsr) (args.map (WideArg.operand w s.v n))
  | narrow w _ extraCsrs intrinsic _ args =>
    ∀ n < getVlmax e vlmul, IsActive vma s n → element e s'.v dst n =
      intrinsic (extraCsrs.map s.getCsr) (args.map (WideArg.operand w s.v n))
  | extend source _ _ _ intrinsic src =>
    ∀ n < getVlmax e vlmul, IsActive vma s n → element e s'.v dst n =
      intrinsic (element source s.v src n)

/-- A narrow source that follows the destination of a narrowing operation. -/
def SourceFollows (vlmul : VectorRegisterGroupMultiplier) (dst : Nat) :
    MixedWidthOperation e → Prop
  | narrow _ _ _ _ _ args =>
    vlmul.atLeastOne = true ∧
      ∃ arg ∈ args, arg.vecNo = some (dst + numberOfRegistersInvolved vlmul)
  | _ => False

end MixedWidthOperation

theorem Outcome.active {vta : TailProcessing} {vma : Option InactiveProcessing} {regs dst : Nat}
    {result inactive : Nat → BitVec e.bits} {s : State} {v' : Nat → BitVec 128}
    (h : Outcome e vta vma regs dst result inactive s v') {n : Nat}
    (hn : n < regs * e.elementsCount) (hact : IsActive vma s n) :
    element e v' dst n = result n := by
  rcases hact with ⟨hst, hend, hmask⟩
  rw [(h.group (by omega)).elements n hn]
  unfold elementAfter bodyElement
  rw [if_neg (by omega), if_pos hend]
  match vma with
  | none => rfl
  | some .kAgnostic => exact if_pos (hmask nofun)
  | some .kUndisturbed => exact if_pos (hmask nofun)

theorem getVlmax_le_wide (hw : w.bits = 2 * e.bits) (hvm : vlmul ≠ .k8registers) :
    getVlmax e vlmul ≤ numRegistersInvolvedForWideOperand vlmul * w.elementsCount := by
  have hcount := elementsCount_of_bits hw
  cases vlmul <;> simp only [getVlmax, numRegistersInvolvedForWideOperand] <;> first
    | omega
    | exact absurd rfl hvm

theorem lt_half_of_lt_vlmax (hw : w.bits = 2 * e.bits) {n : Nat} (hn : n < getVlmax e vlmul) :
    vlmul.atLeastOne = true ∨ n < w.elementsCount := by
  have hcount := elementsCount_of_bits hw
  cases vlmul <;> simp only [getVlmax, VectorRegisterGroupMultiplier.atLeastOne, true_or] at * <;>
    omega

open MixedWidthOperation in
/-- An operation whose registers are legal raises no exception and computes its active
    elements from the elements before, exactly if it is not a narrowing operation with a
    narrow source that follows the destination. -/
theorem run_correct_iff (op : MixedWidthOperation e) (vlmul : VectorRegisterGroupMultiplier)
    (vta : TailProcessing) (vma : Option InactiveProcessing) (dst : Nat) (s : State)
    (hlegal : op.Legal vlmul dst) (hexc : s.exceptionRaised = false) :
    (∃ s', op.run vlmul vta vma dst s = some s' ∧ s'.exceptionRaised = false ∧
      op.ActiveElements vlmul vma dst s s') ↔ ¬ op.SourceFollows vlmul dst := by
  cases op with
  | widen w hw extraCsrs intrinsic args =>
    rcases hlegal with ⟨hvlmul, hdst, hargs⟩
    refine iff_of_true ?_ not_false
    rcases (opVectorWiden_outcome hw hvlmul intrinsic hdst hargs hexc :
      ∃ v', opVectorWiden vta vma extraCsrs _ _ intrinsic dst args s = _ ∧ _) with
      ⟨v', hrun, houtcome⟩
    refine ⟨_, (if_pos hvlmul).trans hrun, hexc, fun n hn hactive => ?_⟩
    exact houtcome.active (Nat.lt_of_lt_of_le hn (getVlmax_le_wide hw hvlmul)) hactive
  | narrow w hw extraCsrs intrinsic uninitialized args =>
    rcases hlegal with ⟨hvlmul, hdst, hargs⟩
    constructor
    · rintro ⟨s', hrun, hexc', -⟩ ⟨hone, arg, harg, hnext⟩
      have hrun' : some s.undefined = some s' :=
        (opVectorNarrow_rejects hvlmul hone harg hnext).symm.trans
          ((if_pos hvlmul).symm.trans hrun)
      rw [← Option.some.inj hrun'] at hexc'
      exact Bool.noConfusion hexc'
    · intro hfollows
      rcases (opVectorNarrow_outcome hw hvlmul intrinsic uninitialized hdst hargs
        (fun hone arg harg hnext => hfollows ⟨hone, arg, harg, hnext⟩) hexc :
        ∃ v', opVectorNarrow vta vma extraCsrs _ _ intrinsic uninitialized dst args s = _ ∧ _) with
        ⟨v', hrun, houtcome⟩
      refine ⟨_, (if_pos hvlmul).trans hrun, hexc, fun n hn hactive => ?_⟩
      rw [houtcome.active (Nat.lt_of_lt_of_le hn (getVlmax_le e vlmul)) hactive]
      unfold narrowResult
      rw [if_pos (lt_half_of_lt_vlmax hw hn)]
  | extend source factor hfactor hw intrinsic src =>
    refine iff_of_true ?_ not_false
    rcases (opVectorVXUnary0_outcome hw hfactor (groupSize_numberOfRegistersInvolved vlmul)
      intrinsic hlegal hexc :
      ∃ v', opVectorVXUnary0 vta vma factor _ intrinsic dst src s = _ ∧ _) with
      ⟨v', hrun, houtcome⟩
    refine ⟨_, hrun, hexc, fun n hn hactive => ?_⟩
    exact houtcome.active (Nat.lt_of_lt_of_le hn (getVlmax_le e vlmul)) hactive

def vnsrl (src2 : Nat) : MixedWidthOperation .e8 :=
  .narrow .e16 rfl [] (fun _ operands =>
    match operands with
    | [.wide value, .narrow shift] => (value >>> (shift.toNat % 16)).setWidth 8
    | _ => 0) 0 [.wideVec 4, .vec src2]

theorem vnsrl_legal {src2 : Nat} (h : src2 < 32) : (vnsrl src2).Legal .k1register 0 := by
  refine ⟨by decide, by decide, fun arg harg => ?_⟩
  simp only [mem_cons, not_mem_nil, or_false] at harg
  rcases harg with rfl | rfl
  · refine ⟨nofun, fun r hr => ?_⟩
    cases hr
    decide
  · refine ⟨fun r hr => ?_, nofun⟩
    cases hr
    exact ⟨h, by simp [isAligned, numberOfRegistersInvolved, Nat.mod_one]⟩

/-- `vnsrl.wv v0, v4, v1` with LMUL 1 is legal, and raises an exception. -/
theorem run_correct_iff_vnsrl_next : (vnsrl 1).Legal .k1register 0 ∧
    ((vnsrl 1).run .k1register .kAgnostic none 0 vaddState).map State.exceptionRaised = some true :=
  ⟨vnsrl_legal (by decide), rfl⟩

/-- `vnsrl.wv v0, v4, v2` is done. -/
theorem run_correct_iff_vnsrl :
    ∃ s', (vnsrl 2).run .k1register .kAgnostic none 0 vaddState = some s' ∧
      s'.exceptionRaised = false ∧
      (vnsrl 2).ActiveElements .k1register none 0 vaddState s' := by
  refine (run_correct_iff (vnsrl 2) .k1register .kAgnostic none 0 vaddState
    (vnsrl_legal (by decide)) rfl).2 ?_
  rintro ⟨-, arg, harg, hnext⟩
  simp only [mem_cons, not_mem_nil, or_false] at harg
  rcases harg with rfl | rfl
  · exact absurd hnext (by decide)
  · exact absurd hnext (by decide)

end Berberis.Riscv64.Vector
