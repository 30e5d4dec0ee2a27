import Berberis.Backend.MachineIR
import Berberis.Backend.RegAlloc

/-!
# Building Lifetimes

Lifetimes are built in one pass over the blocks. An instruction has two ticks,
one at which it reads its inputs and one at which it writes its outputs. A use
extends the last live range of its register, which begins anew in each block,
and after a gap a write begins a range of its own.
-/

namespace Berberis.RegAlloc

open Backend

def MachineRegClass.getIntersection (c other : MachineRegClass) : Option MachineRegClass :=
  let mask := c.regMask &&& other.regMask
  if mask = c.regMask then some c
  else if mask = other.regMask then some other
  else none

def noRegClass : MachineRegClass := ⟨0, []⟩

abbrev OperandClasses := MachineOpcode → Nat → MachineRegClass

/-- A use, with the register and how it is accessed. -/
structure VRegAccess where
  kind : MachineRegKind
  reg : MachineReg
  use : VRegUse
  deriving DecidableEq

def VRegAccess.isDefOnly (a : VRegAccess) : Bool := a.kind.isDef && !a.kind.isUse

/-! ### Live ranges -/

def VRegLiveRange.appendUse (r : VRegLiveRange) (u : VRegUse) : VRegLiveRange :=
  { r with
    useList := r.useList ++ [u]
    end_ := if r.end_ < u.end_ then u.end_ else r.end_ }

def VRegLiveRange.setBegin (r : VRegLiveRange) (b : Int) : VRegLiveRange :=
  { r with begin_ := b, end_ := b }

def VRegLiveRange.setEnd (r : VRegLiveRange) (e : Int) : VRegLiveRange := { r with end_ := e }

def emptyRange (b : Int) : VRegLiveRange := ⟨b, b, []⟩

def modifyLast (f : VRegLiveRange → VRegLiveRange) (rs : List VRegLiveRange) :
    List VRegLiveRange :=
  rs.dropLast ++ (rs.getLast?.map f).toList

def lastLiveRangeBegin (rs : List VRegLiveRange) : Int := (rs.getLast?.map (·.begin_)).getD 0

def lastLiveRangeEnd (rs : List VRegLiveRange) : Int := (rs.getLast?.map (·.end_)).getD 0

def lastUseList (rs : List VRegLiveRange) : List VRegUse := (rs.getLast?.map (·.useList)).getD []

/-- A register gets a range in the current block, if it has none. -/
def rangesInBlock (bbTick b : Int) : Option (List VRegLiveRange) → List VRegLiveRange
  | none => [emptyRange b]
  | some rs => if lastLiveRangeBegin rs < bbTick then rs ++ [emptyRange b] else rs

/-- A write after a gap begins a range. If nothing has used the last range,
    it is of a live-in register that gets overwritten, and is moved. -/
def appendUseToRanges (rs : List VRegLiveRange) (a : VRegAccess) : List VRegLiveRange :=
  let rs :=
    if a.isDefOnly && lastLiveRangeEnd rs < a.use.begin_ then
      if lastUseList rs = [] then modifyLast (·.setBegin a.use.begin_) rs
      else rs ++ [emptyRange a.use.begin_]
    else rs
  modifyLast (·.appendUse a.use) rs

/-! ### The analysis -/

/-- The lifetimes in the order of the list, the ticks now and at the beginning
    of the block, and the lifetimes of registers. -/
structure VRegLifetimeAnalysis where
  heap : Nat → VRegLifetime
  numNodes : Nat
  tick : Int
  bbTick : Int
  vregLifetimes : MachineReg → Option Nat

namespace VRegLifetimeAnalysis

def init : VRegLifetimeAnalysis where
  heap _ := ⟨[], noRegClass, 0, none, 0, none⟩
  numNodes := 0
  tick := 0
  bbTick := 0
  vregLifetimes _ := none

def setNode (st : VRegLifetimeAnalysis) (n : Nat) (lifetime : VRegLifetime) :
    VRegLifetimeAnalysis :=
  { st with heap := Function.update st.heap n lifetime }

/-- The lifetime of a register, with a range in the current block. -/
def getVRegLifetime (st : VRegLifetimeAnalysis) (r : MachineReg) (b : Int) :
    VRegLifetimeAnalysis × Nat :=
  match st.vregLifetimes r with
  | some n =>
    let lifetime := st.heap n
    (st.setNode n
      { lifetime with rangeList := rangesInBlock st.bbTick b (some lifetime.rangeList) }, n)
  | none =>
    let st' := st.setNode st.numNodes
      ⟨rangesInBlock st.bbTick b none, noRegClass, 0, none, 0, none⟩
    ({ st' with
        numNodes := st.numNodes + 1
        vregLifetimes := Function.update st.vregLifetimes r (some st.numNodes) }, st.numNodes)

/-- The class of a lifetime after one more use, unless a check fails. -/
def narrowClass (c : MachineRegClass) (u : VRegUse) : Option MachineRegClass :=
  if c = noRegClass then some u.regClass else c.getIntersection u.regClass

def appendUse (st : VRegLifetimeAnalysis) (a : VRegAccess) : Option VRegLifetimeAnalysis := do
  let (st, n) := st.getVRegLifetime a.reg a.use.begin_
  let lifetime := st.heap n
  let regClass ← narrowClass lifetime.regClass a.use
  return st.setNode n
    { lifetime with
      rangeList := appendUseToRanges lifetime.rangeList a
      regClass := regClass
      spillWeight := lifetime.spillWeight + 1 }

/-- Connect two lifetimes; the one that begins first comes first. -/
def setMoveHint (st : VRegLifetimeAnalysis) (x other : Nat) : Option VRegLifetimeAnalysis := do
  let (heap, hint) ← AllocState.findMoveHint (st.numNodes + 1) st.heap x
  let (heap, otherHint) ← AllocState.findMoveHint (st.numNodes + 1) heap other
  let st := { st with heap := heap }
  if (heap hint).begin_ > (heap otherHint).begin_ then
    return st.setNode hint { heap hint with moveHint := some otherHint }
  else if otherHint ≠ hint then
    return st.setNode otherHint { heap otherHint with moveHint := some hint }
  else return st

def trySetMoveHint (st : VRegLifetimeAnalysis) (insn : MachineInsn) :
    Option VRegLifetimeAnalysis :=
  match insn.opcode with
  | .pseudoCopy _ =>
    let dst := insn.regAt 0
    let src := insn.regAt 1
    if !dst.isVReg || !src.isVReg then some st
    else do
      -- Lifetimes must exist.
      let x ← st.vregLifetimes dst
      let other ← st.vregLifetimes src
      st.setMoveHint x other
  | _ => some st

section

variable (classes : OperandClasses)

/-- The accesses of an instruction to virtual registers that are used, or that are only defined. -/
def accesses (n : InsnNode) (used : Bool) (b : Int) (e : MachineRegKind → Int) :
    List VRegAccess :=
  ((n.insn.operands.zipIdx).filter fun o => o.1.2.isVReg && o.1.1.isUse == used).map fun o =>
    ⟨o.1.1, o.1.2, ⟨n.pos, o.2, b, e o.1.1, classes n.insn.opcode o.2⟩⟩

/-- First operands that are used, until inputs are read or, if they are defined
    too, until outputs are written. -/
def usedAccesses (n : InsnNode) (tick : Int) : List VRegAccess :=
  accesses classes n true tick fun k => tick + (if k.isDef then 2 else 1)

def definedAccesses (n : InsnNode) (tick : Int) : List VRegAccess :=
  accesses classes n false (tick + 1) fun _ => tick + 2

def addInsn (st : VRegLifetimeAnalysis) (n : InsnNode) : Option VRegLifetimeAnalysis := do
  let st ← (usedAccesses classes n st.tick).foldlM appendUse st
  let st ← (definedAccesses classes n st.tick).foldlM appendUse st
  let st ← st.trySetMoveHint n.insn
  return { st with tick := st.tick + 2 }

def setLiveIn (st : VRegLifetimeAnalysis) (r : MachineReg) : Option VRegLifetimeAnalysis :=
  if st.tick = st.bbTick then some (st.getVRegLifetime r st.tick).1 else none

def setLiveOut (st : VRegLifetimeAnalysis) (r : MachineReg) : Option VRegLifetimeAnalysis :=
  (st.vregLifetimes r).map fun n =>
    st.setNode n
      { st.heap n with rangeList := modifyLast (·.setEnd st.tick) (st.heap n).rangeList }

def endBasicBlock (st : VRegLifetimeAnalysis) : VRegLifetimeAnalysis :=
  { st with bbTick := st.tick }

def addBasicBlock (st : VRegLifetimeAnalysis) (bb : MachineBasicBlock) :
    Option VRegLifetimeAnalysis := do
  let st ← bb.liveIn.foldlM setLiveIn st
  let st ← bb.insnList.foldlM (addInsn classes) st
  let st ← bb.liveOut.foldlM setLiveOut st
  return st.endBasicBlock

end

def lifetimes (st : VRegLifetimeAnalysis) : List VRegLifetime :=
  (List.range st.numNodes).map st.heap

end VRegLifetimeAnalysis

def collectLifetimes (classes : OperandClasses) (bbs : List MachineBasicBlock) :
    Option VRegLifetimeAnalysis :=
  bbs.foldlM (VRegLifetimeAnalysis.addBasicBlock classes) .init

end Berberis.RegAlloc
