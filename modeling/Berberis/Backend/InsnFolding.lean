import Berberis.Backend.MachineIR

/-!
# Folding of Guest Context Reads

An arithmetic instruction whose operand was loaded from the guest context can
read the guest context itself. `foldInsns` goes through a block and replaces
such instructions. It knows the latest definition of each virtual register, looks
through copies, and gives up when the guest context was written in between, or
when the value that was loaded has other uses.
-/

namespace Berberis.Backend.InsnFolding

/-! ### Instructions -/

inductive OperandSize where
  | l
  | q
  deriving DecidableEq

def OperandSize.bits : OperandSize → Nat
  | .l => 32
  | .q => 64

inductive ArithmeticOp where
  | add
  | sub
  | and
  | or
  | xor
  | cmp
  | test
  | bt
  deriving DecidableEq

def ArithmeticOp.writes : ArithmeticOp → Bool
  | .add | .sub | .and | .or | .xor => true
  | .cmp | .test | .bt => false

inductive Operand where
  | reg (r : MachineReg)
  | imm (value : BitVec 32)
  | mem (disp : Nat)
  deriving DecidableEq

/-- An instruction, where one that is not arithmetic comes with its flags operand. -/
inductive Insn where
  | machine (insn : MachineInsn) (flags : Option MachineReg)
  | movlRegImm (dst : MachineReg) (imm : BitVec 32)
  | arithmetic (op : ArithmeticOp) (size : OperandSize) (dst src : Operand) (flags : MachineReg)
  deriving DecidableEq

structure RegOperand where
  reg : MachineReg
  isUse : Bool
  isDef : Bool
  isFlags : Bool

def isUse (kind : MachineRegKind) : Bool :=
  match kind.access with
  | .use | .useDef | .defEarlyClobber => true
  | .def_ => false

def Operand.regOperands (isDef : Bool) : Operand → List RegOperand
  | .reg r => [⟨r, true, isDef, false⟩]
  | .imm _ => []
  | .mem _ => [⟨kCPUStatePointer, true, false, false⟩]

def Insn.operands : Insn → List RegOperand
  | .machine insn flags =>
    insn.operands.map fun operand =>
      ⟨operand.2, isUse operand.1, operand.1.isDef, decide (flags = some operand.2)⟩
  | .movlRegImm dst _ => [⟨dst, false, true, false⟩]
  | .arithmetic op _ dst src flags =>
    dst.regOperands op.writes ++ src.regOperands false ++ [⟨flags, false, true, true⟩]

def Insn.regAt (insn : Insn) (i : Nat) : MachineReg :=
  (insn.operands[i]?.map (·.reg)).getD kInvalidMachineReg

def Insn.isCPUStateGet (layout : ContextLayout) : Insn → Bool
  | .machine insn _ => layout.isCPUStateGet insn
  | _ => false

def Insn.isCPUStatePut (layout : ContextLayout) : Insn → Bool
  | .machine insn _ => layout.isCPUStatePut insn
  | _ => false

def Insn.isPseudoCopy : Insn → Bool
  | .machine insn _ =>
    match insn.opcode with
    | .pseudoCopy _ => true
    | _ => false
  | _ => false

def Insn.disp : Insn → Nat
  | .machine insn _ => insn.disp
  | _ => 0

/-! ### Definitions of registers -/

/-- An instruction that defines a register, its index, and the position of the
    register among its operands. -/
structure Def where
  insn : Insn
  index : Nat
  regPos : Nat

structure DefMap where
  defMap : MachineReg → Option Def
  flagsReg : MachineReg
  index : Nat
  lastContextWriteInsn : Nat

namespace DefMap

def initial : DefMap := ⟨fun _ => none, kInvalidMachineReg, 0, 0⟩

def get (m : DefMap) (reg : MachineReg) : Option Def :=
  if reg.isVReg then m.defMap reg else none

def getBefore (m : DefMap) (reg : MachineReg) (useIndex : Nat) : Option Def :=
  match m.get reg with
  | some d => if useIndex ≤ d.index then none else some d
  | none => none

/-- `none` when the check fails that the read is not the write. -/
def isContextReadActive (m : DefMap) (contextReadPos : Nat) : Option Bool :=
  if m.lastContextWriteInsn = 0 then some true
  else if m.lastContextWriteInsn = contextReadPos then none
  else some (decide (m.lastContextWriteInsn < contextReadPos))

def set (m : DefMap) (reg : MachineReg) (insn : Insn) (regPos : Nat) : DefMap :=
  if reg.isVReg then
    { m with defMap := Function.update m.defMap reg (some ⟨insn, m.index, regPos⟩) }
  else m

/-- One operand. `none` when the check fails that there is one flags register. -/
def mapDefReg (m : DefMap) (insn : Insn) (operand : RegOperand) (op : Nat) : Option DefMap :=
  let flagsReg := if operand.isFlags ∧ m.flagsReg = kInvalidMachineReg then operand.reg
    else m.flagsReg
  if operand.isFlags ∧ operand.reg ≠ flagsReg then none
  else
    let m := { m with flagsReg := flagsReg }
    some (if operand.isDef then m.set operand.reg insn op else m)

def mapOperands (insn : Insn) : List RegOperand → Nat → DefMap → Option DefMap
  | [], _, m => some m
  | operand :: rest, op, m =>
    match m.mapDefReg insn operand op with
    | some m' => mapOperands insn rest (op + 1) m'
    | none => none

def mapDefRegs (layout : ContextLayout) (m : DefMap) (insn : Insn) : Option DefMap :=
  let m := if insn.isCPUStatePut layout then { m with lastContextWriteInsn := m.index } else m
  mapOperands insn insn.operands 0 m

def processInsn (layout : ContextLayout) (m : DefMap) (insn : Insn) : Option DefMap :=
  (m.mapDefRegs layout insn).map fun m => { m with index := m.index + 1 }

theorem index_of_getBefore {m : DefMap} {reg : MachineReg} {useIndex : Nat} {d : Def}
    (h : m.getBefore reg useIndex = some d) : m.get reg = some d ∧ d.index < useIndex := by
  unfold getBefore at h
  split at h
  · next d' hget =>
      split at h
      · cases h
      · cases h
        exact ⟨hget, by omega⟩
  · cases h

def skipPseudoCopies (m : DefMap) (d : Def) : Option Def :=
  if d.insn.isPseudoCopy then
    match _h : m.getBefore (d.insn.regAt 1) d.index with
    | some d' => skipPseudoCopies m d'
    | none => none
  else some d
termination_by d.index
decreasing_by exact (index_of_getBefore ‹_›).2

/-- What a copy keeps is the same for the definition behind all copies. -/
theorem skipPseudoCopies_eq {β : Type} {m : DefMap} (value : MachineReg → β)
    (hcop : ∀ {r d d'}, m.get r = some d → d.insn.isPseudoCopy = true →
      m.getBefore (d.insn.regAt 1) d.index = some d' → value r = value (d.insn.regAt 1))
    {r : MachineReg} {d g : Def} (hd : m.get r = some d) (h : m.skipPseudoCopies d = some g) :
    ∃ r', m.get r' = some g ∧ value r = value r' ∧ g.index ≤ d.index := by
  induction hn : d.index using Nat.strong_induction_on generalizing r d with
  | _ n ih =>
    rw [skipPseudoCopies] at h
    split at h
    · next hcopy =>
        split at h
        · next d' hbef =>
            rcases index_of_getBefore hbef with ⟨hget', hlt⟩
            rcases ih d'.index (by omega) hget' h rfl with ⟨r', hr', heq, hle⟩
            exact ⟨r', hr', (hcop hd hcopy hbef).trans heq, by omega⟩
        · cases h
    · cases h
      exact ⟨r, hd, rfl, hn.le⟩

def findNonPseudoCopyDef (m : DefMap) (srcReg : MachineReg) : Option Def :=
  (m.get srcReg).bind m.skipPseudoCopies

end DefMap

/-! ### Uses of values of the guest context -/

structure ContextAccessInfo where
  regToOffset : MachineReg → Option Nat
  contextReadUsage : Nat → Nat

namespace ContextAccessInfo

def getOffset (info : ContextAccessInfo) (reg : MachineReg) : Option Nat :=
  if reg.isVReg then info.regToOffset reg else none

def handleRegisterUse (info : ContextAccessInfo) (insn : Insn) (reg : MachineReg) :
    ContextAccessInfo :=
  match info.getOffset reg with
  | some offset =>
    if insn.isPseudoCopy then info
    else { info with
      contextReadUsage :=
        Function.update info.contextReadUsage offset (info.contextReadUsage offset + 1) }
  | none => info

def handleRegisterDef (layout : ContextLayout) (info : ContextAccessInfo) (insn : Insn)
    (reg : MachineReg) : ContextAccessInfo :=
  let offset := if insn.isCPUStateGet layout then some insn.disp
    else if insn.isPseudoCopy then info.getOffset (insn.regAt 1)
    else none
  if reg.isVReg then { info with regToOffset := Function.update info.regToOffset reg offset }
  else info

/-- Uses come before definitions, as an instruction may do both. -/
def processInsn (layout : ContextLayout) (info : ContextAccessInfo) (insn : Insn) :
    ContextAccessInfo :=
  insn.operands.foldl
    (fun info operand =>
      if operand.reg.isVReg then
        let info := if operand.isUse then info.handleRegisterUse insn operand.reg else info
        if operand.isDef then info.handleRegisterDef layout insn operand.reg else info
      else info)
    info

def initial (layout : ContextLayout) (insnList : List Insn) : ContextAccessInfo :=
  insnList.foldl (processInsn layout) ⟨fun _ => none, fun _ => 0⟩

end ContextAccessInfo

/-! ### Folding -/

def getImmValueIfPossible (m : DefMap) (reg : MachineReg) : Option (BitVec 64) :=
  match m.findNonPseudoCopyDef reg with
  | some d =>
    match d.insn with
    | .machine insn _ =>
      match insn.opcode with
      | .movqRegImm imm => some (BitVec.ofNat 64 imm)
      | _ => none
    -- A 32-bit move clears the upper half.
    | .movlRegImm _ imm => some (imm.setWidth 64)
    | .arithmetic _ _ _ _ _ => none
  | none => none

/-- The immediate in place of the second register of a comparison or a test. -/
def tryFoldImmediateInput (m : DefMap) (insn : Insn) : Option Insn :=
  match insn with
  | .arithmetic op size (.reg src0) (.reg src1) flags =>
    match getImmValueIfPossible m src1 with
    | some imm =>
      let imm32 := imm.setWidth 32
      match size with
      | .l => some (.arithmetic op .l (.reg src0) (.imm imm32) flags)
      | .q =>
        -- The processor extends the sign of a 32-bit immediate.
        if imm32.signExtend 64 = imm then
          some (.arithmetic op .q (.reg src0) (.imm imm32) flags)
        else none
    | none => none
  | _ => none

/-- `none` when a check of the position fails or the opcode is not expected. -/
def newArithmeticInsnWithFoldedContextRead (insn : Insn) (disp memRegPos : Nat) : Option Insn :=
  match insn with
  | .arithmetic op size (.reg r0) (.reg r1) flags =>
    match op with
    | .add | .sub | .and | .or | .xor =>
      if memRegPos = 1 then some (.arithmetic op size (.reg r0) (.mem disp) flags) else none
    | .cmp =>
      if memRegPos = 0 then some (.arithmetic .cmp size (.mem disp) (.reg r1) flags)
      else if memRegPos = 1 then some (.arithmetic .cmp size (.reg r0) (.mem disp) flags)
      else none
    | .test =>
      -- There is no test of a register with memory, but the operands can be swapped.
      if memRegPos = 0 then some (.arithmetic .test size (.mem disp) (.reg r1) flags)
      else if memRegPos = 1 then some (.arithmetic .test size (.mem disp) (.reg r0) flags)
      else none
    | .bt =>
      if memRegPos = 0 then some (.arithmetic .bt size (.mem disp) (.reg r1) flags) else none
  | .arithmetic op size (.reg _) (.imm imm) flags =>
    if op.writes then none
    else if memRegPos = 0 then some (.arithmetic op size (.mem disp) (.imm imm) flags)
    else none
  | _ => none

/-- `none` when a check fails, and `some none` when nothing can be folded. -/
def tryFoldContextRead (layout : ContextLayout) (m : DefMap) (info : ContextAccessInfo)
    (insn : Insn) (memRegPos : Nat) : Option (Option Insn) :=
  match m.findNonPseudoCopyDef (insn.regAt memRegPos) with
  | none => some none
  | some d =>
    if d.insn.isCPUStateGet layout then
      match m.isContextReadActive d.index with
      | none => none
      | some false => some none
      | some true =>
        if 1 < info.contextReadUsage d.insn.disp then some none
        else (newArithmeticInsnWithFoldedContextRead insn d.insn.disp memRegPos).map some
    else some none

def tryFoldImmediateAndContextReadInputs (layout : ContextLayout) (m : DefMap)
    (info : ContextAccessInfo) (insn : Insn) : Option (Option Insn) :=
  let immediateFolded := tryFoldImmediateInput m insn
  match tryFoldContextRead layout m info (immediateFolded.getD insn) 0 with
  | none => none
  | some (some folded) => some (some folded)
  | some none =>
    match immediateFolded with
    | some folded => some (some folded)
    | none => tryFoldContextRead layout m info insn 1

def tryFoldInsn (layout : ContextLayout) (m : DefMap) (info : ContextAccessInfo) (insn : Insn) :
    Option (Option Insn) :=
  match insn with
  | .arithmetic .add _ (.reg _) (.reg _) _ | .arithmetic .xor _ (.reg _) (.reg _) _
  | .arithmetic .or _ (.reg _) (.reg _) _ | .arithmetic .sub _ (.reg _) (.reg _) _
  | .arithmetic .and _ (.reg _) (.reg _) _ => tryFoldContextRead layout m info insn 1
  | .arithmetic .cmp _ (.reg _) (.reg _) _ | .arithmetic .test _ (.reg _) (.reg _) _ =>
    tryFoldImmediateAndContextReadInputs layout m info insn
  | .arithmetic .bt _ (.reg _) (.imm _) _ | .arithmetic .bt _ (.reg _) (.reg _) _
  | .arithmetic .test _ (.reg _) (.imm _) _ | .arithmetic .cmp _ (.reg _) (.imm _) _ =>
    tryFoldContextRead layout m info insn 0
  | _ => some none

def foldFrom (layout : ContextLayout) (info : ContextAccessInfo) :
    DefMap → List Insn → Option (List Insn)
  | _, [] => some []
  | m, insn :: rest =>
    match tryFoldInsn layout m info insn with
    | none => none
    | some folded =>
      match m.processInsn layout (folded.getD insn) with
      | none => none
      | some m' => (foldFrom layout info m' rest).map (folded.getD insn :: ·)

/-- The instructions of a block after the pass, or `none` when a check fails. -/
def foldInsns (layout : ContextLayout) (insnList : List Insn) : Option (List Insn) :=
  foldFrom layout (ContextAccessInfo.initial layout insnList) DefMap.initial insnList

end Berberis.Backend.InsnFolding
