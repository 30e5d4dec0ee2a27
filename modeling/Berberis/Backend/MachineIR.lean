import Mathlib

/-!
# Machine IR

The intermediate representation of the optimizing translator: basic blocks of
x86-64 instructions over virtual registers, joined by edges.
-/

namespace Berberis.Backend

open List

/-! ### Registers -/

/-- A virtual register from 1024 on, a hard register from 1 on, and 0 for no register. -/
structure MachineReg where
  reg : Int
  deriving DecidableEq

def kFirstVRegNumber : Int := 1024

def kInvalidMachineReg : MachineReg := ⟨0⟩

def kCPUStatePointer : MachineReg := ⟨11⟩

def MachineReg.isVReg (r : MachineReg) : Bool := kFirstVRegNumber ≤ r.reg

def MachineReg.createVRegFromIndex (index : Nat) : MachineReg := ⟨kFirstVRegNumber + index⟩

inductive StandardAccess where
  | use
  | def_
  | useDef
  | defEarlyClobber
  deriving DecidableEq

/-- How an instruction accesses an operand, and the size of its class. -/
structure MachineRegKind where
  regSize : Nat
  access : StandardAccess
  deriving DecidableEq

def MachineRegKind.isDef (k : MachineRegKind) : Bool :=
  match k.access with
  | .use => false
  | .def_ | .useDef | .defEarlyClobber => true

def MachineRegKind.isUse (k : MachineRegKind) : Bool :=
  match k.access with
  | .def_ => false
  | .use | .useDef | .defEarlyClobber => true

/-- The register must hold a valid value; an early clobber is not an input. -/
def MachineRegKind.isInput (k : MachineRegKind) : Bool :=
  match k.access with
  | .use | .useDef => true
  | .def_ | .defEarlyClobber => false

/-! ### Instructions -/

/-- The moves between a register and the guest context. -/
inductive MovType where
  | movq
  | movdqa
  | movw
  | movsd
  deriving DecidableEq

def MovType.size : MovType → Nat
  | .movq => 8
  | .movdqa => 16
  | .movw => 2
  | .movsd => 8

inductive JumpKind where
  | jumpWithPendingSignalsCheck
  | jumpWithoutPendingSignalsCheck
  | exitGeneratedCode
  | syscall
  deriving DecidableEq

/-- What an instruction is, without its registers. -/
inductive MachineOpcode where
  | pseudoBranch (thenBb : Nat)
  | pseudoCondBranch (cond thenBb elseBb : Nat)
  | pseudoJump (target : Nat) (kind : JumpKind)
  | pseudoIndirectJump
  | pseudoCopy (size : Nat)
  | movqRegImm (imm : Nat)
  | movRegMemBaseDisp (type : MovType) (disp : Nat)
  | movMemBaseDispReg (type : MovType) (disp : Nat)
  | movqMemBaseDispImm (disp imm : Nat)
  | cmpbMemBaseDispImm (disp imm : Nat)
  | callImm
  | other (code : Nat)
  deriving DecidableEq

/-- How an opcode accesses its register operands, where the opcode fixes that. -/
def MachineOpcode.accesses? : MachineOpcode → Option (List StandardAccess)
  | .pseudoBranch _ | .pseudoJump _ _ => some []
  | .pseudoCondBranch _ _ _ | .pseudoIndirectJump | .movqMemBaseDispImm _ _ => some [.use]
  | .movqRegImm _ => some [.def_]
  | .pseudoCopy _ | .movRegMemBaseDisp _ _ => some [.def_, .use]
  | .movMemBaseDispReg _ _ => some [.use, .use]
  | .cmpbMemBaseDispImm _ _ => some [.use, .def_]
  | .callImm | .other _ => none

def MachineOpcode.isControlTransfer : MachineOpcode → Bool
  | .pseudoBranch _ | .pseudoCondBranch _ _ _ | .pseudoIndirectJump | .pseudoJump _ _ => true
  | _ => false

/-- An instruction: its register operands, accessed as the opcode says, and the
    block to recover at when it faults. -/
structure MachineInsn where
  opcode : MachineOpcode
  operands : List (MachineRegKind × MachineReg)
  recoveryBb : Option Nat
  shaped : opcode.accesses?.getD (operands.map (·.1.access)) = operands.map (·.1.access)
  deriving DecidableEq

namespace MachineInsn

def regAt (insn : MachineInsn) (i : Nat) : MachineReg :=
  (insn.operands[i]?.map (·.2)).getD kInvalidMachineReg

def isControlTransfer (insn : MachineInsn) : Bool := insn.opcode.isControlTransfer

/-- The registers that an instruction defines, in operand order. -/
def defs (insn : MachineInsn) : List MachineReg :=
  (insn.operands.filter (·.1.isDef)).map (·.2)

/-- The registers that an instruction reads, in operand order. -/
def inputs (insn : MachineInsn) : List MachineReg :=
  (insn.operands.filter (·.1.isInput)).map (·.2)

variable {insn : MachineInsn}

theorem access_operands {accesses : List StandardAccess}
    (h : insn.opcode.accesses? = some accesses) : insn.operands.map (·.1.access) = accesses := by
  rw [← insn.shaped, h, Option.getD_some]

theorem defs_eq_nil {accesses : List StandardAccess} (h : insn.opcode.accesses? = some accesses)
    (huse : ∀ a ∈ accesses, a = .use) : insn.defs = [] := by
  unfold defs
  rw [map_eq_nil_iff, filter_eq_nil_iff]
  intro operand hmem
  have hacc : operand.1.access = .use := by
    refine huse _ ?_
    rw [← access_operands h]
    exact mem_map_of_mem hmem
  simp [MachineRegKind.isDef, hacc]

theorem defs_eq_singleton (h : insn.opcode.accesses? = some [.def_, .use]) :
    insn.defs = [insn.regAt 0] := by
  have hacc := access_operands h
  unfold defs regAt
  rcases hops : insn.operands with _ | ⟨x, _ | ⟨y, _ | ⟨z, rest⟩⟩⟩
  · simp [hops] at hacc
  · simp [hops] at hacc
  · simp only [hops, map_cons, map_nil, List.cons.injEq, and_true] at hacc
    simp only [List.filter, MachineRegKind.isDef, hacc.1, hacc.2]
    rfl
  · simp [hops] at hacc

end MachineInsn

def kEqual : Nat := 4

def copyRegSize (size : Nat) : Nat := if 8 < size then 16 else if 4 < size then 8 else 4

def newPseudoBranch (thenBb : Nat) : MachineInsn := ⟨.pseudoBranch thenBb, [], none, rfl⟩

def newPseudoCondBranch (cond thenBb elseBb flagsSize : Nat) (eflags : MachineReg) : MachineInsn :=
  ⟨.pseudoCondBranch cond thenBb elseBb, [(⟨flagsSize, .use⟩, eflags)], none, rfl⟩

def newPseudoJump (target : Nat) (kind : JumpKind) : MachineInsn :=
  ⟨.pseudoJump target kind, [], none, rfl⟩

def newPseudoCopy (dst src : MachineReg) (size : Nat) : MachineInsn :=
  ⟨.pseudoCopy size, [(⟨copyRegSize size, .def_⟩, dst), (⟨copyRegSize size, .use⟩, src)], none, rfl⟩

def newMovqRegImm (dst : MachineReg) (imm : Nat) : MachineInsn :=
  ⟨.movqRegImm imm, [(⟨8, .def_⟩, dst)], none, rfl⟩

/-! ### Guest context accesses -/

/-- Where things are in the guest context. -/
structure ContextLayout where
  size : Nat
  reservationValueOffset : Nat
  reservationSize : Nat
  isSimdOffset : Nat → Bool

/-- Within the guest context and not in the reservation value, which is read
    and written partially. -/
def ContextLayout.isOptimizable (layout : ContextLayout) (disp : Nat) : Bool :=
  !(layout.size ≤ disp) &&
    !(layout.reservationValueOffset ≤ disp &&
      disp < layout.reservationValueOffset + layout.reservationSize)

def ContextLayout.isCPUStateGet (layout : ContextLayout) (insn : MachineInsn) : Bool :=
  match insn.opcode with
  | .movRegMemBaseDisp _ disp =>
    layout.isOptimizable disp && insn.regAt 1 == kCPUStatePointer
  | _ => false

def ContextLayout.isCPUStatePut (layout : ContextLayout) (insn : MachineInsn) : Bool :=
  match insn.opcode with
  | .movMemBaseDispReg _ disp | .movqMemBaseDispImm disp _ =>
    layout.isOptimizable disp && insn.regAt 0 == kCPUStatePointer
  | _ => false

def MachineInsn.disp (insn : MachineInsn) : Nat :=
  match insn.opcode with
  | .movRegMemBaseDisp _ disp | .movMemBaseDispReg _ disp | .movqMemBaseDispImm disp _ |
      .cmpbMemBaseDispImm disp _ => disp
  | _ => 0

def MachineInsn.movType (insn : MachineInsn) : MovType :=
  match insn.opcode with
  | .movRegMemBaseDisp type _ | .movMemBaseDispReg type _ => type
  | _ => .movq

variable {layout : ContextLayout} {insn : MachineInsn}

theorem ContextLayout.of_isCPUStateGet (h : layout.isCPUStateGet insn = true) :
    insn.opcode = .movRegMemBaseDisp insn.movType insn.disp ∧
      layout.isOptimizable insn.disp = true := by
  unfold isCPUStateGet at h
  unfold MachineInsn.movType MachineInsn.disp
  cases hop : insn.opcode with
  | movRegMemBaseDisp type disp =>
    rw [hop] at h
    exact ⟨rfl, (Bool.and_eq_true_iff.mp h).1⟩
  | _ =>
    rw [hop] at h
    cases h

theorem ContextLayout.of_isCPUStatePut (h : layout.isCPUStatePut insn = true) :
    (insn.opcode = .movMemBaseDispReg insn.movType insn.disp ∨
      ∃ imm, insn.opcode = .movqMemBaseDispImm insn.disp imm) ∧
      layout.isOptimizable insn.disp = true := by
  unfold isCPUStatePut at h
  unfold MachineInsn.movType MachineInsn.disp
  cases hop : insn.opcode with
  | movMemBaseDispReg type disp =>
    rw [hop] at h
    exact ⟨Or.inl rfl, (Bool.and_eq_true_iff.mp h).1⟩
  | movqMemBaseDispImm disp imm =>
    rw [hop] at h
    exact ⟨Or.inr ⟨imm, rfl⟩, (Bool.and_eq_true_iff.mp h).1⟩
  | _ =>
    rw [hop] at h
    cases h

theorem ContextLayout.not_isCPUStatePut_of_get (h : layout.isCPUStateGet insn = true) :
    layout.isCPUStatePut insn = false := by
  unfold isCPUStatePut
  rw [(of_isCPUStateGet h).1]

theorem ContextLayout.defs_of_get (h : layout.isCPUStateGet insn = true) :
    insn.defs = [insn.regAt 0] :=
  MachineInsn.defs_eq_singleton (by rw [(of_isCPUStateGet h).1]; rfl)

theorem ContextLayout.defs_of_put (h : layout.isCPUStatePut insn = true) : insn.defs = [] := by
  rcases (of_isCPUStatePut h).1 with hop | ⟨imm, hop⟩
  · exact MachineInsn.defs_eq_nil (by rw [hop]; rfl) (by decide)
  · exact MachineInsn.defs_eq_nil (by rw [hop]; rfl) (by decide)

theorem ContextLayout.lt_size {disp : Nat} (h : layout.isOptimizable disp = true) :
    disp < layout.size := by
  unfold isOptimizable at h
  simp only [Bool.and_eq_true, Bool.not_eq_true', decide_eq_false_iff_not] at h
  omega

/-! ### The graph -/

/-- A node of an instruction list. -/
structure InsnNode where
  pos : Nat
  insn : MachineInsn
  deriving DecidableEq

structure MachineEdge where
  src : Nat
  dst : Nat
  deriving DecidableEq

structure MachineBasicBlock where
  insnList : List InsnNode
  inEdges : List Nat
  outEdges : List Nat
  liveIn : List MachineReg
  liveOut : List MachineReg
  isRecovery : Bool
  deriving DecidableEq

def MachineBasicBlock.empty : MachineBasicBlock := ⟨[], [], [], [], [], false⟩

inductive BasicBlockOrder where
  | unordered
  | reversePostOrder
  deriving DecidableEq

/-- Blocks and edges by number, the list of blocks, and how many blocks,
    edges, nodes and virtual registers have been made. -/
structure MachineIR where
  bb : Nat → MachineBasicBlock
  edge : Nat → MachineEdge
  bbList : List Nat
  bbOrder : BasicBlockOrder
  numBb : Nat
  numEdge : Nat
  numNode : Nat
  numVReg : Nat

namespace MachineIR

def setBb (ir : MachineIR) (b : Nat) (block : MachineBasicBlock) : MachineIR :=
  { ir with bb := Function.update ir.bb b block }

def setInsnList (ir : MachineIR) (b : Nat) (insns : List InsnNode) : MachineIR :=
  ir.setBb b { ir.bb b with insnList := insns }

def newBasicBlock (ir : MachineIR) : MachineIR × Nat :=
  ({ ir with bb := Function.update ir.bb ir.numBb .empty, numBb := ir.numBb + 1 }, ir.numBb)

def allocVReg (ir : MachineIR) : MachineIR × MachineReg :=
  ({ ir with numVReg := ir.numVReg + 1 }, .createVRegFromIndex ir.numVReg)

def pushBack (ir : MachineIR) (b : Nat) (insn : MachineInsn) : MachineIR :=
  { ir.setInsnList b ((ir.bb b).insnList ++ [⟨ir.numNode, insn⟩]) with
    numNode := ir.numNode + 1 }

def addEdge (ir : MachineIR) (src dst : Nat) : MachineIR :=
  let ir := { ir with
    edge := Function.update ir.edge ir.numEdge ⟨src, dst⟩
    bbOrder := .unordered
    numEdge := ir.numEdge + 1 }
  let ir := ir.setBb src { ir.bb src with outEdges := (ir.bb src).outEdges ++ [ir.numEdge - 1] }
  ir.setBb dst { ir.bb dst with inEdges := (ir.bb dst).inEdges ++ [ir.numEdge - 1] }

def setOutEdges (ir : MachineIR) (b : Nat) (edges : List Nat) : MachineIR :=
  ir.setBb b { ir.bb b with outEdges := edges }

def relinkOutEdges (ir : MachineIR) (b newBb : Nat) : MachineIR :=
  let outEdges := (ir.bb b).outEdges
  let ir := { ir with
    edge := fun e => if e ∈ outEdges then { ir.edge e with src := newBb } else ir.edge e }
  (ir.setOutEdges newBb outEdges).setOutEdges b []

/-- Move the instructions from a node on into a new block, which gets the out
    edges too, and branch to it. -/
def splitBasicBlock (ir : MachineIR) (b pos : Nat) : MachineIR × Nat :=
  let insns := (ir.bb b).insnList
  let (ir, newBb) := ir.newBasicBlock
  let ir := ir.setInsnList newBb (insns.dropWhile (·.pos ≠ pos))
  let ir := ir.setInsnList b (insns.takeWhile (·.pos ≠ pos))
  let ir := ir.pushBack b (newPseudoBranch newBb)
  let ir := ir.relinkOutEdges b newBb
  let ir := ir.addEdge b newBb
  ({ ir with bbList := ir.bbList ++ [newBb] }, newBb)

/-! ### What building does to instruction lists -/

variable (ir : MachineIR) (f : MachineBasicBlock → β) (b c : Nat) (insn : MachineInsn)
  (insns : List InsnNode)

theorem setBb_bb (block : MachineBasicBlock) :
    (ir.setBb b block).bb c = if c = b then block else ir.bb c :=
  Function.update_apply _ _ _ _

variable {β : Type}

theorem setBb_field (ir : MachineIR) (b c : Nat)
    (block : MachineBasicBlock) (h : f block = f (ir.bb b)) :
    f ((ir.setBb b block).bb c) = f (ir.bb c) := by
  rw [setBb_bb]
  split_ifs with hc
  · rw [h, hc]
  · rfl

@[simp]
theorem setInsnList_insnList :
    ((ir.setInsnList b insns).bb c).insnList = if c = b then insns else (ir.bb c).insnList := by
  unfold setInsnList
  rw [setBb_bb]
  split_ifs <;> rfl

@[simp]
theorem setInsnList_isRecovery :
    ((ir.setInsnList b insns).bb c).isRecovery = (ir.bb c).isRecovery :=
  setBb_field MachineBasicBlock.isRecovery ir b c _ rfl

@[simp]
theorem pushBack_insnList : ((ir.pushBack b insn).bb c).insnList =
      if c = b then (ir.bb b).insnList ++ [⟨ir.numNode, insn⟩] else (ir.bb c).insnList :=
  setInsnList_insnList ir b c _

@[simp]
theorem pushBack_isRecovery : ((ir.pushBack b insn).bb c).isRecovery = (ir.bb c).isRecovery :=
  setInsnList_isRecovery ir b c _

theorem addEdge_field (ir : MachineIR) (src dst c : Nat)
    (hin : ∀ block edges, f { block with inEdges := edges } = f block)
    (hout : ∀ block edges, f { block with outEdges := edges } = f block) :
    f ((ir.addEdge src dst).bb c) = f (ir.bb c) := by
  unfold addEdge
  rw [setBb_field f _ dst c _ (hin _ _), setBb_field f _ src c _ (hout _ _)]

@[simp]
theorem addEdge_insnList (src dst c : Nat) :
    ((ir.addEdge src dst).bb c).insnList = (ir.bb c).insnList :=
  addEdge_field MachineBasicBlock.insnList ir src dst c (fun _ _ => rfl) (fun _ _ => rfl)

@[simp]
theorem addEdge_isRecovery (src dst c : Nat) :
    ((ir.addEdge src dst).bb c).isRecovery = (ir.bb c).isRecovery :=
  addEdge_field MachineBasicBlock.isRecovery ir src dst c (fun _ _ => rfl) (fun _ _ => rfl)

@[simp]
theorem newBasicBlock_bb (c : Nat) :
    ir.newBasicBlock.1.bb c = if c = ir.numBb then .empty else ir.bb c :=
  Function.update_apply _ _ _ _

theorem relinkOutEdges_field (ir : MachineIR) (b newBb c : Nat)
    (hout : ∀ block edges, f { block with outEdges := edges } = f block) :
    f ((ir.relinkOutEdges b newBb).bb c) = f (ir.bb c) := by
  unfold relinkOutEdges setOutEdges
  rw [setBb_field f _ b c _ (hout _ _), setBb_field f _ newBb c _ (hout _ _)]

theorem splitBasicBlock_insnList (b pos c : Nat) (hb : b < ir.numBb) :
    ((ir.splitBasicBlock b pos).1.bb c).insnList =
      if c = b then (ir.bb b).insnList.takeWhile (·.pos ≠ pos) ++
        [⟨ir.numNode, newPseudoBranch ir.numBb⟩]
      else if c = ir.numBb then (ir.bb b).insnList.dropWhile (·.pos ≠ pos)
      else (ir.bb c).insnList := by
  have hne : b ≠ ir.numBb := Nat.ne_of_lt hb
  unfold splitBasicBlock
  rw [addEdge_insnList, relinkOutEdges_field MachineBasicBlock.insnList _ b _ c (fun _ _ => rfl)]
  simp only [pushBack_insnList, setInsnList_insnList, newBasicBlock_bb]
  by_cases hcb : c = b
  · simp only [hcb, if_true]
    rfl
  · by_cases hcn : c = ir.numBb
    · simp only [hcn, if_neg hne.symm]
      exact if_pos rfl
    · simp only [if_neg hcb, if_neg hcn]
      exact if_neg hcn

theorem splitBasicBlock_isRecovery (b pos c : Nat) :
    ((ir.splitBasicBlock b pos).1.bb c).isRecovery =
      if c = ir.numBb then false else (ir.bb c).isRecovery := by
  unfold splitBasicBlock
  rw [addEdge_isRecovery,
    relinkOutEdges_field MachineBasicBlock.isRecovery _ b _ c (fun _ _ => rfl)]
  simp only [pushBack_isRecovery, setInsnList_isRecovery, newBasicBlock_bb]
  split_ifs <;> rfl

theorem map_modify_eq_self {α : Type} (f : α → β) (g : α → α) (i : Nat) (xs : List α)
    (h : ∀ x, f (g x) = f x) : (xs.modify i g).map f = xs.map f := by
  induction xs generalizing i with
  | nil =>
    rw [modify_nil]
  | cons x xs ih =>
    cases i with
    | zero =>
      rw [modify_zero_cons, map_cons, map_cons, h]
    | succ i =>
      rw [modify_succ_cons, map_cons, map_cons, ih]

def nodes (ir : MachineIR) (b : Nat) : List Nat := (ir.bb b).insnList.map (·.pos)

theorem nodes_ne_nil_iff (b : Nat) : ir.nodes b ≠ [] ↔ (ir.bb b).insnList ≠ [] :=
  not_congr map_eq_nil_iff

@[simp]
theorem pushBack_nodes : (ir.pushBack b insn).nodes c =
      if c = b then ir.nodes b ++ [ir.numNode] else ir.nodes c := by
  unfold nodes
  rw [pushBack_insnList]
  split_ifs
  · rw [map_append, map_singleton]
  · rfl

@[simp]
theorem addEdge_nodes (src dst c : Nat) : (ir.addEdge src dst).nodes c = ir.nodes c := by
  unfold nodes
  rw [addEdge_insnList]

@[simp]
theorem newBasicBlock_nodes (c : Nat) :
    ir.newBasicBlock.1.nodes c = if c = ir.numBb then [] else ir.nodes c := by
  unfold nodes
  rw [newBasicBlock_bb]
  split_ifs <;> rfl

theorem splitBasicBlock_nodes (b pos c : Nat) (hb : b < ir.numBb) :
    (ir.splitBasicBlock b pos).1.nodes c =
      if c = b then (ir.nodes b).takeWhile (· ≠ pos) ++ [ir.numNode]
      else if c = ir.numBb then (ir.nodes b).dropWhile (· ≠ pos)
      else ir.nodes c := by
  unfold nodes
  rw [splitBasicBlock_insnList ir b pos c hb, takeWhile_map, dropWhile_map]
  split_ifs
  · rw [map_append, map_singleton]
    rfl
  · rfl
  · rfl

def shape (ir : MachineIR) (b : Nat) : List (Nat × MachineOpcode) :=
  (ir.bb b).insnList.map fun n => (n.pos, n.insn.opcode)

theorem nodes_eq_shape (b : Nat) : ir.nodes b = (ir.shape b).map (·.1) := by
  unfold nodes shape
  rw [map_map]
  rfl

def succs (ir : MachineIR) (b : Nat) : List Nat := (ir.bb b).outEdges.map fun e => (ir.edge e).dst

def preds (ir : MachineIR) (b : Nat) : List Nat := (ir.bb b).inEdges.map fun e => (ir.edge e).src

end MachineIR

end Berberis.Backend
