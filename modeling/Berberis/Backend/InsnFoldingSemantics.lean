import Berberis.Backend.InsnFolding
import Berberis.Lib.BitMemory

/-!
# What Foldable Instructions Do

A state has the registers, the bytes around the guest context and everything
else. Arithmetic instructions set the flags as the processor does, where a flag
that it leaves undefined is `none`. Other instructions do anything to the
registers that they define and to everything else, and to the bytes around the
guest context that are not only for puts: that is the parameter `OtherInsns`.
-/

namespace Berberis.Backend.InsnFolding

open Lib

/-! ### Flags -/

/-- The flags that arithmetic instructions set, where known. -/
structure Flags where
  carry : Option Bool
  parity : Option Bool
  adjust : Option Bool
  zero : Option Bool
  sign : Option Bool
  overflow : Option Bool
  deriving DecidableEq

section

variable {w : Nat}

def evenParity (r : BitVec w) : Bool :=
  (List.range 8).foldl (fun even i => even ^^ r.getLsbD i) true

def logicFlags (r : BitVec w) : Flags :=
  ⟨some false, some (evenParity r), none, some (r == 0#w), some r.msb, some false⟩

def addFlags (a b : BitVec w) : Flags :=
  let r := a + b
  ⟨some (r.ult a), some (evenParity r), some ((a ^^^ b ^^^ r).getLsbD 4), some (r == 0#w),
    some r.msb, some (a.msb == b.msb && a.msb != r.msb)⟩

def subFlags (a b : BitVec w) : Flags :=
  let r := a - b
  ⟨some (a.ult b), some (evenParity r), some ((a ^^^ b ^^^ r).getLsbD 4), some (r == 0#w),
    some r.msb, some (a.msb != b.msb && a.msb != r.msb)⟩

def ArithmeticOp.result (a b : BitVec w) : ArithmeticOp → BitVec w
  | .add => a + b
  | .sub => a - b
  | .and => a &&& b
  | .or => a ||| b
  | .xor => a ^^^ b
  | .cmp | .test | .bt => a

def ArithmeticOp.newFlags (a b : BitVec w) (bit : Bool) (old : Flags) : ArithmeticOp → Flags
  | .add => addFlags a b
  | .sub | .cmp => subFlags a b
  | .and | .test => logicFlags (a &&& b)
  | .or => logicFlags (a ||| b)
  | .xor => logicFlags (a ^^^ b)
  | .bt => ⟨some bit, none, none, old.zero, none, none⟩

end

/-! ### States -/

/-- What is in a register: the bits, or the flags if it is for flags. -/
structure RegValue where
  bits : BitVec 128
  flags : Flags
  deriving DecidableEq

/-- Registers, the bytes from the start of the guest context in both directions,
    and everything else. -/
structure State (W : Type) where
  regs : MachineReg → RegValue
  cpu : Int → BitVec 8
  world : W

/-- What the other instructions do, and which bytes of the guest context they leave. -/
structure OtherInsns (W : Type) where
  eval : MachineOpcode → List MachineRegKind → List RegValue → (Int → BitVec 8) → W →
    (Nat → RegValue) × (Int → BitVec 8) × W
  isGuest : Int → Prop
  keeps : ∀ opcode kinds vs cpu world a, isGuest a →
    (eval opcode kinds vs cpu world).2.1 a = cpu a

def assignFrom (vs : Nat → RegValue) :
    Nat → List MachineReg → (MachineReg → RegValue) → MachineReg → RegValue
  | _, [], regs => regs
  | i, r :: rs, regs => assignFrom vs (i + 1) rs (Function.update regs r (vs i))

theorem assignFrom_of_notMem (vs : Nat → RegValue) {r : MachineReg} (i : Nat)
    {rs : List MachineReg} (h : r ∉ rs) (regs : MachineReg → RegValue) :
    assignFrom vs i rs regs r = regs r := by
  induction rs generalizing i regs with
  | nil => rfl
  | cons r' rs ih =>
    rw [List.mem_cons, not_or] at h
    rw [assignFrom, ih (i + 1) h.2, Function.update_of_ne h.1]

/-- The register after a load. A 16-bit load leaves the upper bits. -/
def loaded (cpu : Int → BitVec 8) (type : MovType) (disp : Nat) (old : BitVec 128) : BitVec 128 :=
  match type with
  | .movw => (old &&& ~~~0xffff#128) ||| (readWord cpu disp 16).setWidth 128
  | .movq | .movsd => (readWord cpu disp 64).setWidth 128
  | .movdqa => readWord cpu disp 128

def putBits {W : Type} (insn : MachineInsn) (s : State W) : BitVec 128 :=
  match insn.opcode with
  | .movqMemBaseDispImm _ imm => BitVec.ofNat 128 imm
  | _ => (s.regs (insn.regAt 1)).bits

/-! ### Execution -/

section

variable {W : Type} (layout : ContextLayout) (others : OtherInsns W)

def setBits (regs : MachineReg → RegValue) (r : MachineReg) (bits : BitVec 128) :
    MachineReg → RegValue :=
  Function.update regs r { regs r with bits := bits }

def execMachine (insn : MachineInsn) (s : State W) : State W :=
  if layout.isCPUStateGet insn then
    let dst := insn.regAt 0
    { s with regs := setBits s.regs dst (loaded s.cpu insn.movType insn.disp (s.regs dst).bits) }
  else if layout.isCPUStatePut insn then
    let bits := putBits insn s
    { s with
      cpu := writeBytes s.cpu insn.disp insn.movType.size
        fun i => (bits >>> (8 * i)).setWidth 8 }
  else
    match insn.opcode with
    | .pseudoCopy _ =>
      { s with regs := Function.update s.regs (insn.regAt 0) (s.regs (insn.regAt 1)) }
    | .movqRegImm imm =>
      { s with regs := setBits s.regs (insn.regAt 0) ((BitVec.ofNat 64 imm).setWidth 128) }
    | opcode =>
      let r := others.eval opcode (insn.operands.map (·.1)) (insn.inputs.map s.regs) s.cpu s.world
      { regs := assignFrom r.1 0 insn.defs s.regs, cpu := r.2.1, world := r.2.2 }

def Operand.value (s : State W) (w : Nat) : Operand → BitVec w
  | .reg r => (s.regs r).bits.setWidth w
  | .imm v => v.signExtend w
  | .mem disp => readWord s.cpu disp w

/-- The bit that a bit test looks at. In memory an offset from a register is
    signed and goes beyond the operand. -/
def testedBit (s : State W) (w : Nat) : Operand → Operand → Bool
  | .mem disp, .reg r => bitAt s.cpu (8 * disp + ((s.regs r).bits.setWidth w).toInt)
  | dst, src => (dst.value s w).getLsbD ((src.value s w).toNat % w)

/-- The first operand afterwards, if it is a register and written. -/
def writeBack (op : ArithmeticOp) (dst : Operand) (bits : BitVec 128)
    (regs : MachineReg → RegValue) :
    MachineReg → RegValue :=
  match dst with
  | .reg r => if op.writes then setBits regs r bits else regs
  | _ => regs

def execArithmetic (op : ArithmeticOp) (size : OperandSize) (dst src : Operand)
    (flags : MachineReg) (s : State W) : State W :=
  let a := dst.value s size.bits
  let b := src.value s size.bits
  let regs := writeBack op dst ((op.result a b).setWidth 128) s.regs
  let newFlags := op.newFlags a b (testedBit s size.bits dst src) (s.regs flags).flags
  { s with regs := Function.update regs flags { regs flags with flags := newFlags } }

def exec (insn : Insn) (s : State W) : State W :=
  match insn with
  | .machine insn _ => execMachine layout others insn s
  | .movlRegImm dst imm => { s with regs := setBits s.regs dst (imm.setWidth 128) }
  | .arithmetic op size dst src flags => execArithmetic op size dst src flags s

def run (insns : List Insn) (s : State W) : State W :=
  insns.foldl (fun s insn => exec layout others insn s) s

end

/-! ### When two instructions do the same -/

section

variable {W : Type} {layout : ContextLayout} {others : OtherInsns W}

def ArithmeticOp.Agrees {w : Nat} (a b a' b' : BitVec w) (bit bit' : Bool) : ArithmeticOp → Prop
  | .add | .sub | .xor => b = b'
  | .and => a &&& b = a &&& b'
  | .or => a ||| b = a ||| b'
  | .cmp => subFlags a b = subFlags a' b'
  | .test => logicFlags (a &&& b) = logicFlags (a' &&& b')
  | .bt => bit = bit'

/-- An instruction has the same outcome as that in place of it. -/
def FoldAgrees (s : State W) : Insn → Insn → Prop
  | .arithmetic op size dst src _, .arithmetic _ _ dst' src' _ =>
    op.Agrees (dst.value s size.bits) (src.value s size.bits) (dst'.value s size.bits)
      (src'.value s size.bits) (testedBit s size.bits dst src) (testedBit s size.bits dst' src')
  | _, _ => True

/-- An instruction may be replaced by another one with other operands, where a
    register that is written stays. -/
inductive Replaces : Insn → Insn → Prop
  | keep (insn : Insn) : Replaces insn insn
  | source (op : ArithmeticOp) (size : OperandSize) (r : MachineReg) (src src' : Operand)
      (flags : MachineReg) :
      Replaces (.arithmetic op size (.reg r) src flags) (.arithmetic op size (.reg r) src' flags)
  | read (op : ArithmeticOp) (size : OperandSize) (dst dst' src src' : Operand)
      (flags : MachineReg) (h : op.writes = false) :
      Replaces (.arithmetic op size dst src flags) (.arithmetic op size dst' src' flags)

theorem FoldAgrees.refl (s : State W) (insn : Insn) : FoldAgrees s insn insn := by
  cases insn with
  | machine | movlRegImm => trivial
  | arithmetic op => cases op <;> rfl

variable {w : Nat} {op : ArithmeticOp} {bit bit' : Bool}

theorem setWidth_injective (hw : w ≤ 128) {x y : BitVec w} (h : x.setWidth 128 = y.setWidth 128) :
    x = y := by
  have hback := congrArg (BitVec.setWidth w) h
  rwa [BitVec.setWidth_setWidth_of_le _ hw, BitVec.setWidth_setWidth_of_le _ hw,
    BitVec.setWidth_eq, BitVec.setWidth_eq] at hback

theorem OperandSize.bits_le (size : OperandSize) : size.bits ≤ 64 := by
  cases size <;> decide

theorem flags_execArithmetic (op : ArithmeticOp) (size : OperandSize) (dst src : Operand)
    (flags : MachineReg) (s : State W) :
    ((execArithmetic op size dst src flags s).regs flags).flags =
      op.newFlags (dst.value s size.bits) (src.value s size.bits)
        (testedBit s size.bits dst src) (s.regs flags).flags := by
  unfold execArithmetic
  simp

theorem bits_execArithmetic (h : op.writes = true) (size : OperandSize) (r : MachineReg)
    (src : Operand) (flags : MachineReg) (s : State W) :
    ((execArithmetic op size (.reg r) src flags s).regs r).bits =
      (op.result (Operand.value s size.bits (.reg r)) (src.value s size.bits)).setWidth 128 := by
  unfold execArithmetic writeBack setBits
  simp only [h, if_true]
  by_cases hr : r = flags
  · subst hr
    simp
  · rw [Function.update_of_ne hr, Function.update_self]

theorem ArithmeticOp.result_injective (h : op.writes = true) {a b a' b' : BitVec w}
    (heq : op.result a b = op.result a b') : op.Agrees a b a' b' bit bit' := by
  cases op with
  | add => exact add_right_inj a |>.mp heq
  | sub => exact sub_right_inj.mp heq
  | and | or => exact heq
  | xor => exact BitVec.xor_right_inj _ |>.mp heq
  | cmp | test | bt => cases h

theorem ArithmeticOp.result_congr (h : op.writes = true) {a b a' b' : BitVec w}
    (hagr : op.Agrees a b a' b' bit bit') (old : Flags) :
    op.result a b = op.result a b' ∧ op.newFlags a b bit old = op.newFlags a b' bit' old := by
  cases op with
  | add | sub | xor =>
    cases hagr
    exact ⟨rfl, rfl⟩
  | and | or => exact ⟨hagr, congrArg logicFlags hagr⟩
  | cmp | test | bt => cases h

theorem ArithmeticOp.agrees_iff_newFlags (h : op.writes = false) {a b a' b' : BitVec w}
    (old : Flags) :
    op.Agrees a b a' b' bit bit' ↔ op.newFlags a b bit old = op.newFlags a' b' bit' old := by
  cases op with
  | cmp | test => exact Iff.rfl
  | bt => simp [Agrees, newFlags, Flags.mk.injEq]
  | add | sub | and | or | xor => cases h

theorem writeBack_of_read (h : op.writes = false) (dst : Operand) (bits : BitVec 128)
    (regs : MachineReg → RegValue) : writeBack op dst bits regs = regs := by
  unfold writeBack
  rw [h]
  cases dst <;> rfl

theorem execArithmetic_eq_iff_of_read (h : op.writes = false) (size : OperandSize)
    (dst dst' src src' : Operand) (flags : MachineReg) (s : State W) :
    execArithmetic op size dst src flags s = execArithmetic op size dst' src' flags s ↔
      FoldAgrees s (.arithmetic op size dst src flags) (.arithmetic op size dst' src' flags) := by
  simp only [FoldAgrees]
  rw [ArithmeticOp.agrees_iff_newFlags h (s.regs flags).flags, ← flags_execArithmetic,
    ← flags_execArithmetic]
  constructor
  · intro heq
    rw [heq]
  · intro heq
    rw [flags_execArithmetic, flags_execArithmetic] at heq
    unfold execArithmetic
    simp [writeBack_of_read h, heq]

theorem exec_eq_iff {insn insn' : Insn} (h : Replaces insn insn') (s : State W) :
    exec layout others insn s = exec layout others insn' s ↔ FoldAgrees s insn insn' := by
  cases h with
  | keep => exact ⟨fun _ => FoldAgrees.refl s insn, fun _ => rfl⟩
  | read op size dst dst' src src' flags h =>
    exact execArithmetic_eq_iff_of_read h size dst dst' src src' flags s
  | source op size r src src' flags =>
    cases h : op.writes with
    | false => exact execArithmetic_eq_iff_of_read h size _ _ src src' flags s
    | true =>
      constructor
      · intro heq
        have hbits := congrArg (fun s : State W => (s.regs r).bits) heq
        simp only [exec, bits_execArithmetic h] at hbits
        exact ArithmeticOp.result_injective h
          (setWidth_injective (size.bits_le.trans (by decide)) hbits)
      · intro hagr
        have hcongr := ArithmeticOp.result_congr h hagr (s.regs flags).flags
        simp [exec, execArithmetic, hcongr.1, hcongr.2]

end

/-! ### What instructions leave -/

def Insn.Defines (insn : Insn) (r : MachineReg) : Prop :=
  ∃ operand ∈ insn.operands, operand.isDef = true ∧ operand.reg = r

section

variable {W : Type} {layout : ContextLayout} {others : OtherInsns W}

theorem machine_regAt (insn : MachineInsn) (flags : Option MachineReg) (i : Nat) :
    (Insn.machine insn flags).regAt i = insn.regAt i := by
  unfold Insn.regAt MachineInsn.regAt Insn.operands
  rw [List.getElem?_map, Option.map_map]
  rfl

theorem defines_machine_iff (insn : MachineInsn) (flags : Option MachineReg) (r : MachineReg) :
    (Insn.machine insn flags).Defines r ↔ r ∈ insn.defs := by
  unfold Insn.Defines Insn.operands MachineInsn.defs
  simp only [List.mem_map, List.mem_filter]
  constructor
  · rintro ⟨_, ⟨operand, hmem, rfl⟩, hdef, rfl⟩
    exact ⟨operand, ⟨hmem, hdef⟩, rfl⟩
  · rintro ⟨operand, ⟨hmem, hdef⟩, rfl⟩
    exact ⟨_, ⟨operand, hmem, rfl⟩, hdef, rfl⟩

variable {insn : MachineInsn} {r : MachineReg}

theorem defs_of_movqRegImm {imm : Nat} (h : insn.opcode = .movqRegImm imm) :
    insn.defs = [insn.regAt 0] := by
  have hacc : insn.opcode.accesses? = some [.def_] := by
    rw [h]
    rfl
  have haccess := MachineInsn.access_operands hacc
  unfold MachineInsn.defs MachineInsn.regAt
  rcases hops : insn.operands with _ | ⟨x, _ | ⟨y, rest⟩⟩
  · simp [hops] at haccess
  · simp only [hops, List.map_cons, List.map_nil, List.cons.injEq, and_true] at haccess
    simp only [List.filter, MachineRegKind.isDef, haccess]
    rfl
  · simp [hops] at haccess

theorem defs_of_pseudoCopy {size : Nat} (h : insn.opcode = .pseudoCopy size) :
    insn.defs = [insn.regAt 0] :=
  MachineInsn.defs_eq_singleton (by rw [h]; rfl)

theorem setBits_of_ne {regs : MachineReg → RegValue} {r' : MachineReg} (h : r' ≠ r)
    (bits : BitVec 128) : setBits regs r bits r' = regs r' :=
  Function.update_of_ne h _ _

theorem setBits_self (regs : MachineReg → RegValue) (r : MachineReg) (bits : BitVec 128) :
    (setBits regs r bits r).bits = bits := by
  unfold setBits
  rw [Function.update_self]

theorem execMachine_of_get (h : layout.isCPUStateGet insn = true) (s : State W) :
    execMachine layout others insn s = { s with
        regs := setBits s.regs (insn.regAt 0)
          (loaded s.cpu insn.movType insn.disp (s.regs (insn.regAt 0)).bits) } :=
  if_pos h

theorem execMachine_of_pseudoCopy {size : Nat} (h : insn.opcode = .pseudoCopy size) (s : State W) :
    execMachine layout others insn s =
      { s with regs := Function.update s.regs (insn.regAt 0) (s.regs (insn.regAt 1)) } := by
  simp [execMachine, ContextLayout.isCPUStateGet, ContextLayout.isCPUStatePut, h]

theorem execMachine_of_movqRegImm {imm : Nat} (h : insn.opcode = .movqRegImm imm) (s : State W) :
    execMachine layout others insn s =
      { s with regs := setBits s.regs (insn.regAt 0) ((BitVec.ofNat 64 imm).setWidth 128) } := by
  simp [execMachine, ContextLayout.isCPUStateGet, ContextLayout.isCPUStatePut, h]

theorem execMachine_regs (h : r ∉ insn.defs) (s : State W) :
    (execMachine layout others insn s).regs r = s.regs r := by
  unfold execMachine
  split
  · next hget =>
      rw [ContextLayout.defs_of_get hget, List.mem_singleton] at h
      exact setBits_of_ne h _
  · split
    · rfl
    · split
      · next hop =>
          rw [defs_of_pseudoCopy hop, List.mem_singleton] at h
          exact Function.update_of_ne h _ _
      · next hop =>
          rw [defs_of_movqRegImm hop, List.mem_singleton] at h
          exact setBits_of_ne h _
      · exact assignFrom_of_notMem _ 0 h _

theorem exec_regs {insn : Insn} (h : ¬insn.Defines r) (s : State W) :
    (exec layout others insn s).regs r = s.regs r := by
  cases insn with
  | machine insn flags =>
    rw [defines_machine_iff] at h
    exact execMachine_regs h s
  | movlRegImm dst imm =>
    refine setBits_of_ne (fun hr => h ?_) _
    exact ⟨_, List.mem_singleton_self _, rfl, hr.symm⟩
  | arithmetic op size dst src flags =>
    have hfl : r ≠ flags := by
      rintro rfl
      exact h ⟨⟨r, false, true, true⟩, by simp [Insn.operands], rfl, rfl⟩
    simp only [exec, execArithmetic, Function.update_of_ne hfl]
    unfold writeBack
    cases dst with
    | reg r' =>
      split
      · next hwrit =>
          refine setBits_of_ne (fun hr => h ?_) _
          exact ⟨⟨r', true, op.writes, false⟩, by simp [Insn.operands, Operand.regOperands],
            hwrit, hr.symm⟩
      · rfl
    | imm | mem => rfl

theorem exec_cpu {insn : Insn} (h : insn.isCPUStatePut layout = false) (s : State W) {a : Int}
    (ha : others.isGuest a) : (exec layout others insn s).cpu a = s.cpu a := by
  cases insn with
  | machine insn flags =>
    unfold exec execMachine
    dsimp only
    split
    · rfl
    · split
      · next hput =>
          rw [Insn.isCPUStatePut, hput] at h
          cases h
      · split
        · rfl
        · rfl
        · exact others.keeps _ _ _ _ _ a ha
  | movlRegImm | arithmetic => rfl

theorem setWidth_loaded (cpu : Int → BitVec 8) {type : MovType} (h : type ≠ .movw) (disp : Nat)
    (old : BitVec 128) {w : Nat} (hw : w ≤ 64) :
    (loaded cpu type disp old).setWidth w = readWord cpu disp w := by
  cases type with
  | movq | movsd =>
    rw [loaded, BitVec.setWidth_setWidth_of_le _ (by omega), setWidth_readWord _ _ hw]
  | movdqa => exact setWidth_readWord _ _ (by omega)
  | movw => exact absurd rfl h

end

end Berberis.Backend.InsnFolding
