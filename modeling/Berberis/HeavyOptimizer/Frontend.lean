import Berberis.Backend.MachineIR
import Berberis.Lib.Run
import Berberis.Lib.SortedMap

/-!
# The Frontend of the Optimizing Translator

The frontend is fed guest instructions one after another and generates IR for
each. It remembers in `branchTargets` where the IR for each guest address
begins, and which addresses are jumped to. When the region is complete, jumps
to addresses inside the region become branches: `ResolveJumps` splits blocks
so that each target begins a block. The frontends of both guest architectures
share this code.
-/

namespace Berberis.HeavyOptimizer

open Backend

/-- An iterator into an instruction list. -/
inductive InsnIt where
  | node (pos : Nat)
  | end_
  deriving DecidableEq

structure MachineInsnPosition where
  bb : Option Nat
  it : Option InsnIt
  deriving DecidableEq

/-- The flags register and its size, and the test for pending signals. -/
structure FrontendConfig where
  flagsSize : Nat
  flags : MachineReg
  pendingSignalsStatusOffset : Nat
  pendingSignalsPresent : Nat

structure Frontend where
  ir : MachineIR
  bb : Nat
  pc : Nat
  isUncondBranch : Bool
  branchTargets : Lib.SortedMap Nat MachineInsnPosition

namespace Frontend

def insnList (fs : Frontend) : List InsnNode := (fs.ir.bb fs.bb).insnList

/-- The last instruction of the current block is a control transfer. -/
def isClosed (fs : Frontend) : Bool :=
  match fs.insnList.getLast? with
  | none => false
  | some n => n.insn.isControlTransfer

def gen (fs : Frontend) (insn : MachineInsn) : Frontend :=
  { fs with ir := fs.ir.pushBack fs.bb insn }

def startBasicBlock (fs : Frontend) (b : Nat) : Option Frontend :=
  if (fs.ir.bb b).insnList = [] then
    some { fs with ir := { fs.ir with bbList := fs.ir.bbList ++ [b] }, bb := b }
  else none

def getMachineInsnPosition (fs : Frontend) : MachineInsnPosition :=
  ⟨some fs.bb, fs.insnList.getLast?.map fun n => .node n.pos⟩

def genJump (fs : Frontend) (target : Nat) : Frontend :=
  -- Remember that this address was taken, unless it is known already.
  let branchTargets := match fs.branchTargets.get? target with
    | none => fs.branchTargets.insert target ⟨none, none⟩
    | some _ => fs.branchTargets
  let kind := if target ≤ fs.pc then JumpKind.jumpWithPendingSignalsCheck
    else JumpKind.jumpWithoutPendingSignalsCheck
  { fs with branchTargets := branchTargets }.gen (newPseudoJump target kind)

def exitGeneratedCode (fs : Frontend) (target : Nat) : Frontend :=
  fs.gen (newPseudoJump target .exitGeneratedCode)

def startInsn (fs : Frontend) : Option Frontend := do
  let fs ←
    if fs.isUncondBranch then
      let (ir, b) := fs.ir.newBasicBlock
      { fs with ir := ir }.startBasicBlock b
    else some fs
  return { fs with
    isUncondBranch := false
    branchTargets := fs.branchTargets.insert fs.pc fs.getMachineInsnPosition }

/-- The region begins with a block of its own that nothing branches to. -/
def startRegion (pc : Nat) : Frontend :=
  let ir : MachineIR :=
    { bb := fun _ => .empty
      edge := fun _ => ⟨0, 0⟩
      bbList := []
      bbOrder := .unordered
      numBb := 0
      numEdge := 0
      numNode := 0
      numVReg := 0 }
  let (ir, entry) := ir.newBasicBlock
  let (ir, cont) := ir.newBasicBlock
  let ir := ir.addEdge entry cont
  let ir := { ir with bbList := [entry] }
  let ir := ir.pushBack entry (newPseudoBranch cont)
  let ir := { ir with bbList := ir.bbList ++ [cont] }
  { ir := ir, bb := cont, pc := pc, isUncondBranch := false, branchTargets := .empty }

/-- What a guest instruction may do with the builder. -/
inductive Action where
  | startInsn
  | gen (insn : MachineInsn)
  | genJump (target : Nat)
  | newBasicBlock
  | startBasicBlock (b : Nat)
  | addEdge (src dst : Nat)
  | setRecoveryPoint (b : Nat)
  | setUncondBranch
  | incrementInsnAddr (size : Nat)

def isLinkable : JumpKind → Bool
  | .jumpWithPendingSignalsCheck | .jumpWithoutPendingSignalsCheck => true
  | .exitGeneratedCode | .syscall => false

/-- The address that an instruction jumps to, if the jump may be linked. -/
def jumpTarget (insn : MachineInsn) : Option Nat :=
  match insn.opcode with
  | .pseudoJump target kind => if isLinkable kind then some target else none
  | _ => none

def setRecoveryPointAtLastInsn (fs : Frontend) (b : Nat) : Frontend :=
  let ir := fs.ir.setInsnList fs.bb (fs.insnList.modify (fs.insnList.length - 1) fun n =>
    { n with insn := { n.insn with recoveryBb := some b } })
  { fs with ir := ir.setBb b { ir.bb b with isRecovery := true } }

/-- One action. Linkable jumps are generated by `genJump` only. -/
def act (fs : Frontend) : Action → Option Frontend
  | .startInsn => if fs.isClosed = fs.isUncondBranch then fs.startInsn else none
  | .gen insn => if jumpTarget insn = none then some (fs.gen insn) else none
  | .genJump target => some (fs.genJump target)
  | .newBasicBlock => some { fs with ir := fs.ir.newBasicBlock.1 }
  | .startBasicBlock b =>
    if fs.isClosed ∧ b < fs.ir.numBb then fs.startBasicBlock b else none
  | .addEdge src dst => some { fs with ir := fs.ir.addEdge src dst }
  | .setRecoveryPoint b => some (fs.setRecoveryPointAtLastInsn b)
  | .setUncondBranch => some { fs with isUncondBranch := true }
  | .incrementInsnAddr size => some { fs with pc := fs.pc + size }

/-! ### The end of the region -/

def nextIt (pos : Nat) : List InsnNode → InsnIt
  | [] => .end_
  | n :: rest =>
    if n.pos = pos then match rest with
      | [] => .end_
      | m :: _ => .node m.pos
    else nextIt pos rest

/-- Move a saved position on to the first instruction of its address. -/
def advance (ir : MachineIR) (p : MachineInsnPosition) : MachineInsnPosition :=
  match p.bb with
  | none => p
  | some b =>
    match p.it with
    | some (.node pos) => { p with it := some (nextIt pos (ir.bb b).insnList) }
    | some .end_ => p
    | none => { p with it := (ir.bb b).insnList.head?.map fun n => .node n.pos }

/-- The end of the region: close the current block and move the saved
    positions on. `none` when a `CHECK` fails. -/
def finalize (fs : Frontend) (stopPc : Nat) : Option Frontend :=
  let fs := if fs.isClosed then fs else fs.genJump stopPc
  let ok := fs.branchTargets.toList.all fun x =>
    match x.2 with
    | ⟨some b, none⟩ => (fs.ir.bb b).insnList ≠ []
    | _ => true
  if ok then some { fs with branchTargets := fs.branchTargets.mapVals (advance fs.ir) } else none

/-! ### Resolution of jumps -/

/-- From an address on, entries that name the old block name the new one, up
    to the first entry that does not. -/
def updateBranchTargetsAfterSplit (fs : Frontend) (addr oldBb newBb : Nat) : Frontend :=
  { fs with
    branchTargets := fs.branchTargets.updateWhile addr (fun p => p.bb = some oldBb) fun p =>
      { p with bb := some newBb } }

def overwriteLast (insns : List InsnNode) (insn : MachineInsn) : List InsnNode :=
  insns.modify (insns.length - 1) fun n => { n with insn := insn }

/-- Turn the jump at the end of a block into a branch. Backward jumps test for
    pending signals first. -/
def replaceJumpWithBranch (cfg : FrontendConfig) (fs : Frontend) (b targetBb target : Nat)
    (kind : JumpKind) : Option Frontend :=
  match kind with
  | .jumpWithoutPendingSignalsCheck =>
    let ir := fs.ir.setInsnList b
      (overwriteLast (fs.ir.bb b).insnList (newPseudoBranch targetBb))
    some { fs with ir := ir.addEdge b targetBb }
  | .jumpWithPendingSignalsCheck => do
      let (ir, exitBb) := fs.ir.newBasicBlock
      let cmpb : MachineInsn :=
        ⟨.cmpbMemBaseDispImm cfg.pendingSignalsStatusOffset cfg.pendingSignalsPresent,
          [(⟨8, .use⟩, kCPUStatePointer), (⟨cfg.flagsSize, .def_⟩, cfg.flags)], none, rfl⟩
      let ir := ir.setInsnList b (overwriteLast (ir.bb b).insnList cmpb)
      let ir := ir.pushBack b (newPseudoCondBranch kEqual exitBb targetBb cfg.flagsSize cfg.flags)
      let fs ← { fs with ir := ir }.startBasicBlock exitBb
      let fs := fs.exitGeneratedCode target
      return { fs with ir := (fs.ir.addEdge b exitBb).addEdge b targetBb }
  | _ => none

end Frontend

/-- The loop of `ResolveJumps`: the frontend and the blocks still to be looked at. -/
structure Resolver where
  fs : Frontend
  worklist : List Nat

namespace Resolver

/-- Make an address begin a block, and tell which block it begins. -/
def targetBlock (fs : Frontend) (target c pos : Nat) : Option (Frontend × Option Nat) :=
  if (fs.ir.bb c).insnList.head?.map (·.pos) = some pos then some (fs, none)
  else if pos ∈ (fs.ir.bb c).insnList.map (·.pos) then
    let (ir, newBb) := fs.ir.splitBasicBlock c pos
    some ({ fs with ir := ir }.updateBranchTargetsAfterSplit target c newBb, some newBb)
  -- An iterator of another list must not be spliced.
  else none

def step (cfg : FrontendConfig) (st : Resolver) (_ : Unit) : Option Resolver :=
  match st.worklist with
  | [] => none
  | b :: rest =>
    if (st.fs.ir.bb b).isRecovery then some { st with worklist := rest }
    else do
      let last ← (st.fs.ir.bb b).insnList.getLast?
      match last.insn.opcode with
      | .pseudoJump target kind =>
        if Frontend.isLinkable kind then
          let pos ← st.fs.branchTargets.get? target
          match pos with
          -- Not in the region.
          | ⟨none, _⟩ => return { st with worklist := rest }
          | ⟨some c, some (.node p)⟩ =>
            let (fs, newBb) ← targetBlock st.fs target c p
            -- The jump may itself have been moved to the new block.
            let from_ := if b = c then newBb.getD b else b
            let fs ← fs.replaceJumpWithBranch cfg from_ (newBb.getD c) target kind
            return ⟨fs, rest ++ newBb.toList⟩
          | ⟨some _, _⟩ => none
        else return { st with worklist := rest }
      | _ => return { st with worklist := rest }

end Resolver

end Berberis.HeavyOptimizer
