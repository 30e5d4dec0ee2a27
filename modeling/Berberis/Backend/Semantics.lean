import Berberis.Backend.MachineIRCheck
import Berberis.Lib.PartialMemory

/-!
# What Machine IR Does

The meaning that the optimization passes have to preserve. A state has the
registers, the bytes of the guest context, and everything else. A register is
its bytes, the lowest first; a byte is `none` when nothing is known about it,
as the upper bits that a 16-bit load leaves, or when the register does not
have it. Instructions other than moves and guest context accesses do anything
to their operands and to everything else: that is the parameter `Machine`,
which only has to make no less of inputs that more is known of.
-/

namespace Berberis.Backend

open Lib Option

/-- The bytes of a register. -/
abbrev Value := Nat → Option UInt8

def Value.unknown : Value := fun _ => none

def immValue (imm : Nat) : Value :=
  fun i => if i < 8 then some (UInt8.ofNat (imm / 256 ^ i)) else none

/-- What a load leaves in its register. A scalar load into a vector register
    clears the upper half. -/
def loadValue (cpu : Nat → Option UInt8) (type : MovType) (disp : Nat) : Value :=
  fun i => if i < type.size then cpu (disp + i)
    else if type = .movsd ∧ i < MovType.movdqa.size then some 0 else none

/-- What instructions do to registers and to everything that is not the guest context. -/
structure Machine (W : Type) [Preorder W] where
  eval : MachineOpcode → List MachineRegKind → List Value → W → List Value × W
  mono : ∀ opcode kinds vs vs' w w', List.Forall₂ Below vs vs' → w ≤ w' →
    List.Forall₂ Below (eval opcode kinds vs w).1 (eval opcode kinds vs' w').1 ∧
      (eval opcode kinds vs w).2 ≤ (eval opcode kinds vs' w').2

def Machine.inert : Machine Unit :=
  ⟨fun _ _ _ w => ([], w), fun _ _ _ _ _ _ _ h => ⟨.nil, h⟩⟩

structure MachineState (W E : Type) where
  regs : MachineReg → Value
  cpu : Nat → Option UInt8
  world : W
  log : List E

def assign (regs : MachineReg → Value) : List MachineReg → List Value → MachineReg → Value
  | [], _ => regs
  | r :: rs, vs => assign (Function.update regs r (vs.headD .unknown)) rs vs.tail

/-- What is seen of the execution of a node with its inputs and outputs. -/
abbrev Observe (E : Type) := InsnNode → List Value → List Value → Option E

section

variable {W E : Type} [Preorder W] (layout : ContextLayout) (m : Machine W)
  (observe : Observe E)

def putValue (insn : MachineInsn) (regs : MachineReg → Value) : Value :=
  match insn.opcode with
  | .movqMemBaseDispImm _ imm => immValue imm
  | _ => regs (insn.regAt 1)

/-- The values of the registers that an instruction defines, and what it leaves
    of everything else, if it does not access the guest context. -/
def plainEffect (insn : MachineInsn) (vs : List Value) (world : W) : List Value × W :=
  match insn.opcode with
  | .pseudoBranch _ | .pseudoCondBranch _ _ _ | .pseudoJump _ _ | .pseudoIndirectJump =>
    ([], world)
  | .pseudoCopy _ => (vs, world)
  | .movqRegImm imm => ([immValue imm], world)
  | _ => m.eval insn.opcode (insn.operands.map (·.1)) vs world

/-- The same of any instruction, with what it leaves of the guest context. -/
def effect (insn : MachineInsn) (regs : MachineReg → Value) (cpu : Nat → Option UInt8)
    (world : W) : List Value × (Nat → Option UInt8) × W :=
  if layout.isCPUStateGet insn then ([loadValue cpu insn.movType insn.disp], cpu, world)
  else if layout.isCPUStatePut insn then
    ([], store cpu insn.disp insn.movType.size (putValue insn regs), world)
  else
    let r := plainEffect m insn (insn.inputs.map regs) world
    (r.1, cpu, r.2)

def exec (n : InsnNode) (s : MachineState W E) : MachineState W E :=
  let r := effect layout m n.insn s.regs s.cpu s.world
  { regs := assign s.regs n.insn.defs r.1
    cpu := r.2.1
    world := r.2.2
    log := s.log ++ (observe n (n.insn.inputs.map s.regs) r.1).toList }

/-! ### Control -/

/-- The outcomes of the conditional branches to come, and which instructions that can fault will. -/
structure Oracle where
  branches : List Bool
  faults : List Bool

/-- Where an instruction leads. One that faults has no effect. -/
inductive Control where
  | next
  | jump (b : Nat)
  | fault (b : Nat)
  | exit
  deriving DecidableEq

def recoveryOf (insn : MachineInsn) : Option Nat :=
  if layout.isCPUStateGet insn || layout.isCPUStatePut insn then none else insn.recoveryBb

/-- `none` when there is no outcome for a conditional branch. -/
def control (insn : MachineInsn) (o : Oracle) : Option (Control × Oracle) :=
  match insn.opcode with
  | .pseudoBranch thenBb => some (.jump thenBb, o)
  | .pseudoCondBranch _ thenBb elseBb =>
    match o.branches with
    | [] => none
    | taken :: branches =>
      some (.jump (if taken then thenBb else elseBb), { o with branches := branches })
  | .pseudoJump _ _ | .pseudoIndirectJump => some (.exit, o)
  | _ =>
    match recoveryOf layout insn, o.faults with
    | some b, true :: faults => some (.fault b, { o with faults := faults })
    | some _, false :: faults => some (.next, { o with faults := faults })
    | _, _ => some (.next, o)

/-- How a block ends. -/
inductive Outcome (W E : Type) where
  | goto (b : Nat) (s : MachineState W E)
  | exit (s : MachineState W E)

/-- Execute instructions up to the first one that leads elsewhere. -/
def runInsns : List InsnNode → Oracle → MachineState W E → Option (Outcome W E × Oracle)
  | [], _, _ => none
  | n :: rest, o, s =>
    match control layout n.insn o with
    | none => none
    | some (.next, o') => runInsns rest o' (exec layout m observe n s)
    | some (.jump b, o') => some (.goto b (exec layout m observe n s), o')
    | some (.fault b, o') => some (.goto b s, o')
    | some (.exit, o') => some (.exit (exec layout m observe n s), o')

/-- Execute blocks, at most as many as told, up to an exit: the block of the
    exit, and the final state. -/
def runBlocks (ir : MachineIR) :
    Nat → Nat → Oracle → MachineState W E → Option (Nat × MachineState W E)
  | 0, _, _, _ => none
  | fuel + 1, b, o, s =>
    match runInsns layout m observe (ir.bb b).insnList o s with
    | some (.goto b' s', o') => runBlocks ir fuel b' o' s'
    | some (.exit s', _) => some (b, s')
    | none => none

/-! ### Simulations -/

/-- Two blocks end in the same way, in related states. -/
inductive OutcomeRel (R : Nat → MachineState W E → MachineState W E → Prop)
    (Q : MachineState W E → MachineState W E → Prop) : Outcome W E → Outcome W E → Prop
  | goto (b : Nat) (s s' : MachineState W E) (h : R b s s') :
      OutcomeRel R Q (.goto b s) (.goto b s')
  | exit (s s' : MachineState W E) (h : Q s s') : OutcomeRel R Q (.exit s) (.exit s')

variable {layout m observe}

variable {o : Oracle} {insn : MachineInsn}

/-- When each block of one graph simulates the block of another one, so do
    executions of the graphs. -/
theorem runBlocks_simulates {ir ir' : MachineIR}
    (R : Oracle → Nat → MachineState W E → MachineState W E → Prop)
    (Q : Nat → MachineState W E → MachineState W E → Prop) (hblock : ∀ o b s s' out o', R o b s s' →
      runInsns layout m observe (ir.bb b).insnList o s = some (out, o') →
      ∃ out', runInsns layout m observe (ir'.bb b).insnList o s' = some (out', o') ∧
        OutcomeRel (R o') (Q b) out out') {fuel b c : Nat} {s s' t : MachineState W E}
    (h : R o b s s') (hrun : runBlocks layout m observe ir fuel b o s = some (c, t)) :
    ∃ t', runBlocks layout m observe ir' fuel b o s' = some (c, t') ∧ Q c t t' := by
  induction fuel generalizing b o s s' with
  | zero => cases hrun
  | succ fuel ih =>
    rw [runBlocks] at hrun ⊢
    cases hout : runInsns layout m observe (ir.bb b).insnList o s with
    | none =>
      rw [hout] at hrun
      cases hrun
    | some r =>
      rcases r with ⟨out, o'⟩
      rcases hblock o b s s' out o' h hout with ⟨out', hout', hrel⟩
      rw [hout] at hrun
      rw [hout']
      cases hrel with
      | goto d u u' hu => exact ih hu hrun
      | exit u u' hu =>
        rcases Prod.mk.inj (some.inj hrun) with ⟨rfl, rfl⟩
        exact ⟨u', rfl, hu⟩

/-! ### Where instructions lead -/

section

variable {o' : Oracle} {c : Control} (h : control layout insn o = some (c, o'))
include h

theorem control_cases : (c = .next ∧ insn.isControlTransfer = false) ∨
      (∃ d ∈ MachineIR.targets insn.opcode, c = .jump d) ∨
      (∃ d, recoveryOf layout insn = some d ∧ c = .fault d ∧ o.faults ≠ []) ∨
      (c = .exit ∧ insn.isControlTransfer = true) := by
  unfold control at h
  unfold MachineInsn.isControlTransfer
  cases hop : insn.opcode with
  | pseudoBranch thenBb =>
    simp only [hop] at h
    cases h
    exact Or.inr (Or.inl ⟨thenBb, List.mem_singleton_self _, rfl⟩)
  | pseudoCondBranch cond thenBb elseBb =>
    simp only [hop] at h
    cases hbranch : o.branches with
    | nil => simp only [hbranch, reduceCtorEq] at h
    | cons taken branches =>
      simp only [hbranch] at h
      cases h
      refine Or.inr (Or.inl ⟨_, ?_, rfl⟩)
      cases taken
      · exact List.mem_cons_of_mem _ (List.mem_singleton_self _)
      · exact List.mem_cons_self
  | pseudoJump | pseudoIndirectJump =>
    simp only [hop] at h
    cases h
    exact Or.inr (Or.inr (Or.inr ⟨rfl, rfl⟩))
  | _ =>
    simp only [hop] at h
    split at h
    · rename_i b faults hrec hfaults
      cases h
      exact Or.inr (Or.inr (Or.inl ⟨b, hrec, rfl,
        by simp only [hfaults, ne_eq, reduceCtorEq, not_false_eq_true]⟩))
    · cases h
      exact Or.inl ⟨rfl, rfl⟩
    · cases h
      exact Or.inl ⟨rfl, rfl⟩

theorem control_faults_nil (hf : o.faults = []) : o'.faults = [] := by
  unfold control at h
  rw [hf] at h
  split at h <;> try split at h
  all_goals
    simp only [some.injEq, Prod.mk.injEq, reduceCtorEq] at *
    try rw [← h.2]
    try exact hf

end

theorem control_of_put (h : layout.isCPUStatePut insn = true) (o : Oracle) :
    control layout insn o = some (.next, o) := by
  have hrec : recoveryOf layout insn = none := by
    unfold recoveryOf
    rw [h, Bool.or_true]
    rfl
  unfold control
  rw [hrec]
  rcases (ContextLayout.of_isCPUStatePut h).1 with hop | ⟨imm, hop⟩
  · rw [hop]
  · rw [hop]

/-! ### Effects -/

theorem effect_of_get (h : layout.isCPUStateGet insn = true) (regs : MachineReg → Value)
    (cpu : Nat → Option UInt8) (world : W) : effect layout m insn regs cpu world =
      ([loadValue cpu insn.movType insn.disp], cpu, world) :=
  if_pos h

theorem effect_of_put (h : layout.isCPUStatePut insn = true) (regs : MachineReg → Value)
    (cpu : Nat → Option UInt8) (world : W) : effect layout m insn regs cpu world =
      ([], store cpu insn.disp insn.movType.size (putValue insn regs), world) := by
  have hget : ¬ layout.isCPUStateGet insn = true := by
    intro hget
    rw [ContextLayout.not_isCPUStatePut_of_get hget] at h
    cases h
  unfold effect
  rw [if_neg hget, if_pos h]

theorem effect_of_plain (hget : layout.isCPUStateGet insn = false)
    (hput : layout.isCPUStatePut insn = false) (regs : MachineReg → Value)
    (cpu : Nat → Option UInt8) (world : W) : effect layout m insn regs cpu world =
      ((plainEffect m insn (insn.inputs.map regs) world).1, cpu,
        (plainEffect m insn (insn.inputs.map regs) world).2) := by
  unfold effect
  rw [hget, hput]
  rfl

end

end Berberis.Backend
