import Berberis.Backend.MachineIR

/-!
# Operands and Their Values

What passes have to preserve that only exchange register operands: the values
that instructions read and those that registers hold. What an instruction does
with the values that it reads is the parameter `Meaning`, the same for all
instructions with one opcode. It does not see the names of the registers.
-/

namespace Berberis.Backend.OperandSemantics

/-- What an opcode leaves in its early clobbers before it reads, and in the registers that it
    defines. Operands are told apart by their index. A copy has the whole value of its source. -/
structure Meaning (σ V : Type) where
  clobber : MachineOpcode → σ → Nat → V
  exec : MachineOpcode → σ → List V → σ × (Nat → V)
  copy : ∀ size s v i, (exec (.pseudoCopy size) s [v]).2 i = v

/-- The registers and everything else. -/
structure State (σ V : Type) where
  hidden : σ
  regs : MachineReg → V

abbrev Operand := MachineRegKind × MachineReg

def isEarlyClobber (operand : Operand) : Bool := operand.1.access == .defEarlyClobber

section

variable {σ V : Type}

def writeOperands (chosen : Operand → Bool) (values : Nat → V) :
    Nat → List Operand → (MachineReg → V) → MachineReg → V
  | _, [], regs => regs
  | i, operand :: operands, regs =>
    writeOperands chosen values (i + 1) operands
      (if chosen operand then Function.update regs operand.2 (values i) else regs)

variable (M : Meaning σ V)

def clobbered (insn : MachineInsn) (s : State σ V) : MachineReg → V :=
  writeOperands isEarlyClobber (M.clobber insn.opcode s.hidden) 0 insn.operands s.regs

def reads (insn : MachineInsn) (s : State σ V) : List V := insn.inputs.map (clobbered M insn s)

def step (insn : MachineInsn) (s : State σ V) : State σ V :=
  let r := M.exec insn.opcode s.hidden (reads M insn s)
  ⟨r.1, writeOperands (·.1.isDef) r.2 0 insn.operands (clobbered M insn s)⟩

def run (insns : List InsnNode) (s : State σ V) : State σ V :=
  insns.foldl (fun s n => step M n.insn s) s

def readsOf : List InsnNode → State σ V → List (List V)
  | [], _ => []
  | n :: insns, s => reads M n.insn s :: readsOf insns (step M n.insn s)

/-! ### Registers that are not written -/

variable {M}

variable {r : MachineReg} {insn : MachineInsn} {s : State σ V}

theorem writeOperands_of_notMem {chosen : Operand → Bool} {values : Nat → V}
    (operands : List Operand) (h : ∀ operand ∈ operands, chosen operand = true → operand.2 ≠ r)
    (i : Nat) (regs : MachineReg → V) : writeOperands chosen values i operands regs r = regs r := by
  induction operands generalizing i regs with
  | nil => rfl
  | cons operand operands ih =>
    rw [writeOperands, ih fun o ho => h o (List.mem_cons_of_mem operand ho)]
    split_ifs with hchos
    · exact Function.update_of_ne (h operand List.mem_cons_self hchos).symm _ _
    · rfl

theorem isDef_of_isEarlyClobber {operand : Operand} (h : isEarlyClobber operand = true) :
    operand.1.isDef = true := by
  unfold MachineRegKind.isDef
  rw [beq_iff_eq.mp h]

theorem clobbered_of_notMem
    (h : ∀ operand ∈ insn.operands, isEarlyClobber operand = true → operand.2 ≠ r) :
    clobbered M insn s r = s.regs r :=
  writeOperands_of_notMem insn.operands h 0 s.regs

theorem step_regs (h : ∀ operand ∈ insn.operands, operand.1.isDef = true → operand.2 ≠ r) :
    (step M insn s).regs r = s.regs r := by
  unfold step
  dsimp only
  rw [writeOperands_of_notMem insn.operands h]
  exact clobbered_of_notMem fun operand hmem hearly =>
    h operand hmem (isDef_of_isEarlyClobber hearly)

/-! ### Instructions with the same outcome -/

/-- Operands of the same kinds that are the same registers where defined. -/
def SameOperands (operands operands' : List Operand) : Prop :=
  List.Forall₂ (fun o o' => o'.1 = o.1 ∧ (o.1.isDef = true → o'.2 = o.2)) operands operands'

theorem writeOperands_congr {chosen : Operand → Bool} {values : Nat → V}
    {operands operands' : List Operand} (h : SameOperands operands operands')
    (hchos : ∀ o, chosen o = true → o.1.isDef = true)
    (hkind : ∀ o o' : Operand, o'.1 = o.1 → chosen o' = chosen o) (i : Nat)
    (regs : MachineReg → V) :
    writeOperands chosen values i operands' regs = writeOperands chosen values i operands regs := by
  induction h generalizing i regs with
  | nil => rfl
  | @cons o o' operands operands' ho _ ih =>
    rw [writeOperands, writeOperands, ih, hkind o o' ho.1]
    by_cases hc : chosen o = true
    · rw [if_pos hc, if_pos hc, ho.2 (hchos o hc)]
    · rw [if_neg hc, if_neg hc]

theorem clobbered_congr {insn' : MachineInsn} (hop : insn'.opcode = insn.opcode)
    (h : SameOperands insn.operands insn'.operands) (s : State σ V) :
    clobbered M insn' s = clobbered M insn s := by
  unfold clobbered
  rw [hop]
  refine writeOperands_congr h (fun o => isDef_of_isEarlyClobber) (fun o o' hkind => ?_) 0 s.regs
  unfold isEarlyClobber
  rw [hkind]

theorem map_inputs_congr {operands operands' : List Operand} {f : MachineReg → V}
    (h : List.Forall₂ (fun o o' => o'.1 = o.1 ∧ (o.1.isInput = true → f o'.2 = f o.2))
      operands operands') :
    ((operands'.filter (·.1.isInput)).map (·.2)).map f =
      ((operands.filter (·.1.isInput)).map (·.2)).map f := by
  induction h with
  | nil => rfl
  | @cons o o' operands operands' ho _ ih =>
    rw [List.filter_cons, List.filter_cons, ho.1]
    by_cases hinp : o.1.isInput = true
    · rw [if_pos hinp, if_pos hinp]
      simp only [List.map_cons, ho.2 hinp, ih]
    · rw [if_neg hinp, if_neg hinp]
      exact ih

theorem step_of_sameOperands {insn' : MachineInsn} (hop : insn'.opcode = insn.opcode)
    (h : SameOperands insn.operands insn'.operands) (hreads : reads M insn' s = reads M insn s) :
    step M insn' s = step M insn s := by
  unfold step
  rw [hop, hreads, clobbered_congr hop h]
  exact congrArg _ (writeOperands_congr h (fun _ hdef => hdef) (fun _ _ hkind => by rw [hkind]) 0 _)

end

end Berberis.Backend.OperandSemantics
