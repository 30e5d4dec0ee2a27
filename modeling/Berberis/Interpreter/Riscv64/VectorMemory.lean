import Berberis.Lib.FirstFailure
import Berberis.Lib.ForExit
import Berberis.Lib.WordMemory
import Berberis.Interpreter.Riscv64.VectorState

/-!
# Vector Loads and Stores

The vector loads and stores of the interpreter. The dispatch takes the operands
from the instruction and from `vtype` and selects one of two drivers, or raises
an illegal instruction exception. Each driver goes through the registers of a
group, the elements of a register and the fields of a segment, in this order, so
that memory is accessed in the order of the elements.
-/

namespace Berberis.Riscv64.Vector

open Lib

/-! ### Accesses -/

def ElementType.bytes (e : ElementType) : Nat := e.bits / 8

/-- The operands of the drivers: `group` is `dst` of a load and `data` of a store. -/
structure SegmentAccess where
  group : Nat
  src : BitVec 64
  elementType : ElementType
  segmentSize : Nat
  numRegistersInGroup : Nat
  getElementOffset : Nat → Option (BitVec 64)

def SegmentAccess.elementAddr (a : SegmentAccess) (field elementIndex : Nat) :
    Option (BitVec 64) :=
  (a.getElementOffset elementIndex).map fun offset =>
    a.src + BitVec.ofNat 64 (field * a.elementType.bytes) + offset

namespace State

variable (faults : BitVec 64 → Nat → Bool) (s : State)

def faultyLoad (addr : BitVec 64) (e : ElementType) : Option (BitVec e.bits) × State :=
  (if faults addr e.bytes then none else some (loadWord s.mem addr e.bits),
    { s with accesses := (addr, e.bytes) :: s.accesses })

/-- Whether the access faults, and memory with the value if it does not. -/
def faultyStore (addr : BitVec 64) (e : ElementType) (value : BitVec e.bits) : Bool × State :=
  let s := { s with accesses := (addr, e.bytes) :: s.accesses }
  if faults addr e.bytes then (true, s)
  else (false, { s with mem := storeWord s.mem addr value })

def setVl (arg : Nat) : State :=
  if s.exceptionRaised then s else { s with vl := BitVec.ofNat 8 arg }

def getRegOrZero (reg : Nat) : BitVec 64 := if reg = 0 then 0 else s.x reg

/-- Goes to the next instruction, unless there was an exception. -/
def finalizeInsn (insnLen : Nat) : State :=
  if s.exceptionRaised then s else { s with insnAddr := s.insnAddr + BitVec.ofNat 64 insnLen }

end State

/-! ### Stores -/

inductive VSUmOpOpcode where
  | kVseXX
  | kVsX
  | kVsm
  /-- Other values of the field. -/
  | reserved
  deriving DecidableEq

section Store

variable (faults : BitVec 64 → Nat → Bool) (a : SegmentAccess)

def storeField (withinGroupId withinRegisterId field : Nat) (s : State) : Option (Exit × State) :=
  let elementIndex := a.elementType.elementsCount * withinGroupId + withinRegisterId
  (a.elementAddr field elementIndex).bind fun addr =>
    (getV s.v (a.group + withinGroupId + field * a.numRegistersInGroup)).bind fun r =>
      match s.faultyStore faults addr a.elementType
          (lane a.elementType.bits r withinRegisterId) with
      | (true, s) => some (.ret, s.setVstart (BitVec.ofNat 64 elementIndex))
      | (false, s) => some (.next, s)

def storeElement (vl : Nat) (useMasking : Bool) (registerMask : BitVec 16)
    (withinGroupId withinRegisterId : Nat) (s : State) : Option (Exit × State) :=
  if vl ≤ a.elementType.elementsCount * withinGroupId + withinRegisterId then some (.brk, s)
  else if useMasking && !registerMask.getLsbD withinRegisterId then some (.next, s)
  else forExit (storeField faults a withinGroupId withinRegisterId) 0 a.segmentSize s

/-- A round of the loop over the registers of a group. Only the first one starts at `vstart`. -/
def storeRegisters (vl : Nat) (useMasking : Bool) (mask : BitVec 128) (withinGroupId : Nat) :
    Nat × State → Option (Exit × (Nat × State))
  | (vstart, s) =>
    let elementsCount := a.elementType.elementsCount
    if vl ≤ withinGroupId * elementsCount then some (.brk, (vstart, s))
    else
      let registerMask := maskForRegisterInSequence a.elementType mask withinGroupId
      (forExit (storeElement faults a vl useMasking registerMask withinGroupId)
        (vstart % elementsCount) (elementsCount - vstart % elementsCount) s).map
          fun (x, s) => (x, (0, s))

def storeVl (opcode : VSUmOpOpcode) (s : State) : Nat :=
  match opcode with
  | .kVsm => (s.vl.toNat + 7) / 8
  | _ => s.vl.toNat

def opVectorStore (opcode : VSUmOpOpcode) (useMasking : Bool) (s : State) : Option State :=
  if !isAligned a.group a.numRegistersInGroup then some s.undefined
  else if 32 < a.group + a.numRegistersInGroup * a.segmentSize then some s.undefined
  else
    let vstart := s.vstart.toNat
    let vl := storeVl opcode s
    let s := s.setVstart 0
    if vl ≤ vstart then some s
    else
      let first := vstart / a.elementType.elementsCount
      (forExit (storeRegisters faults a vl useMasking (s.v 0)) first
        (a.numRegistersInGroup - first) (vstart, s)).map fun (_, (_, s)) => s

end Store

/-! ### Loads -/

inductive VLUmOpOpcode where
  | kVleXX
  | kVlXreXX
  | kVleXXff
  | kVlm
  /-- Other values of the field. -/
  | reserved
  deriving DecidableEq

/-- The variables of a load that change. -/
structure LoadLocals where
  vstart : Nat
  vl : Nat
  result : Nat → BitVec 128
  state : State

def fullMaskForRegister : ElementType → BitVec 16
  | .e8 => 0xffff
  | .e16 => 0xff
  | .e32 => 0xf
  | .e64 => 0x3

section Load

variable (faults : BitVec 64 → Nat → Bool) (a : SegmentAccess) (opcode : VLUmOpOpcode)
  (vta : TailProcessing) (vma : Option InactiveProcessing)

/-- What a fault does. A load that only faults at the first element changes `vl` for the others. -/
def loadFault (elementIndex : Nat) (s : State) : State :=
  match opcode with
  | .kVleXXff =>
    if elementIndex = 0 then { s with exceptionRaised := true } else s.setVl elementIndex
  | _ => State.setVstart { s with exceptionRaised := true } (BitVec.ofNat 64 elementIndex)

/-- After a fault the element is the first one that is no longer in the body. -/
def loadField (withinGroupId withinRegisterId field : Nat) (l : LoadLocals) :
    Option (Exit × LoadLocals) :=
  let e := a.elementType
  let elementIndex := e.elementsCount * withinGroupId + withinRegisterId
  (a.elementAddr field elementIndex).map fun addr =>
    match l.state.faultyLoad faults addr e with
    | (none, s) => (.brk, { l with vl := elementIndex, state := loadFault opcode elementIndex s })
    | (some value, s) =>
      let r := setLane e.bits (l.result field) withinRegisterId value
      (.next, { l with result := Function.update l.result field r, state := s })

def loadElement (registerMask : BitVec 16) (withinGroupId withinRegisterId : Nat)
    (l : LoadLocals) : Option (Exit × LoadLocals) :=
  if l.vl ≤ a.elementType.elementsCount * withinGroupId + withinRegisterId then some (.brk, l)
  else if vma.isSome && !registerMask.getLsbD withinRegisterId then some (.next, l)
  else forExit (loadField faults a opcode withinGroupId withinRegisterId) 0 a.segmentSize l

/-- Whether `result[]` starts with the registers, for elements that will not be overwritten. -/
def fillsResult (registerMask : BitVec 16) (withinGroupId vstart vl : Nat) : Prop :=
  let e := a.elementType
  vstart ≠ 0 ∨ (vl < (withinGroupId + 1) * e.elementsCount ∧ vta = .kUndisturbed) ∨
    (vma = some .kUndisturbed ∧ registerMask ≠ fullMaskForRegister e)

instance (registerMask : BitVec 16) (withinGroupId vstart vl : Nat) :
    Decidable (fillsResult a vta vma registerMask withinGroupId vstart vl) := by
  unfold fillsResult
  infer_instance

def tailMask (withinGroupId vl : Nat) : BitVec 128 :=
  let e := a.elementType
  makeBitmaskFromVl e
    (if vl ≤ withinGroupId * e.elementsCount then 0 else vl - withinGroupId * e.elementsCount)

/-- The elements that are set to ones because they are inactive. -/
def inactiveMask (registerMask : BitVec 16) (withinGroupId vstart vl : Nat) : BitVec 128 :=
  let e := a.elementType
  let simdMask := bitMaskToSimdMask e registerMask
  let vstartMask := makeBitmaskFromVl e (vstart % e.elementsCount)
  let inactive := if vstart ≠ 0 then vstartMask &&& ~~~simdMask else ~~~simdMask
  match vta with
  | .kAgnostic => inactive
  | .kUndisturbed =>
    if vl < (withinGroupId + 1) * e.elementsCount then inactive &&& ~~~tailMask a withinGroupId vl
    else inactive

/-- A register of the result with the inactive elements and the tail set to ones
    where they are agnostic. -/
def setAgnostic (registerMask : BitVec 16) (withinGroupId vstart vl : Nat) (r : BitVec 128) :
    BitVec 128 :=
  let e := a.elementType
  let r :=
    if vma = some .kAgnostic ∧ registerMask ≠ fullMaskForRegister e then
      r ||| inactiveMask a vta registerMask withinGroupId vstart vl
    else r
  if vta = .kAgnostic ∧ vl < (withinGroupId + 1) * e.elementsCount then
    r ||| tailMask a withinGroupId vl
  else r

def SegmentAccess.register (withinGroupId field : Nat) : Nat :=
  a.group + withinGroupId + field * a.numRegistersInGroup

def loadRegisters (mask : BitVec 128) (withinGroupId : Nat) (l : LoadLocals) :
    Option (Exit × LoadLocals) :=
  let elementsCount := a.elementType.elementsCount
  if vta = .kUndisturbed ∧ l.vl ≤ withinGroupId * elementsCount then some (.brk, l)
  else
    let registerMask := maskForRegisterInSequence a.elementType mask withinGroupId
    let filled :=
      if fillsResult a vta vma registerMask withinGroupId l.vstart l.vl then
        forRange (fun field result => (getV l.state.v (a.register withinGroupId field)).map
          (Function.update result field)) 0 a.segmentSize l.result
      else some l.result
    filled.bind fun result =>
      (forExit (loadElement faults a opcode vma registerMask withinGroupId)
        (l.vstart % elementsCount) (elementsCount - l.vstart % elementsCount)
        { l with result := result }).bind fun (_, l) =>
          let result := fun field =>
            setAgnostic a vta vma registerMask withinGroupId l.vstart l.vl (l.result field)
          (forRange (fun field s => s.setV (a.register withinGroupId field) (result field))
            0 a.segmentSize l.state).map fun s =>
              (.next, { l with vstart := 0, result := result, state := s })

def loadVl (s : State) : Nat :=
  match opcode with
  | .kVlm => (s.vl.toNat + 7) / 8
  | _ => s.vl.toNat

def opVectorLoad (uninitialized : Nat → BitVec 128) (s : State) : Option State :=
  if !isAligned a.group a.numRegistersInGroup then some s.undefined
  else if 32 < a.group + a.numRegistersInGroup * a.segmentSize then some s.undefined
  else
    let vstart := s.vstart.toNat
    let vl := loadVl opcode s
    let s := s.setVstart 0
    if vl ≤ vstart then some s
    else
      let vstart := if vta = .kAgnostic then min vstart vl else vstart
      let first := vstart / a.elementType.elementsCount
      (forExit (loadRegisters faults a opcode vta vma (s.v 0)) first
        (a.numRegistersInGroup - first) ⟨vstart, vl, uninitialized, s⟩).map fun (_, l) => l.state

end Load

/-! ### Dispatch -/

/-- The arguments that all loads and stores have. -/
structure MemoryArgs where
  width : ElementType
  vm : Bool
  nf : Fin 8
  /-- `dst` of a load, `data` of a store. -/
  group : Fin 32
  src : Fin 32
  deriving DecidableEq

def MemoryArgs.segmentSize (args : MemoryArgs) : Nat := args.nf.val + 1

inductive MemoryInsn where
  | loadIndexed (args : MemoryArgs) (idx : Fin 32)
  | loadStride (args : MemoryArgs) (std : Fin 32)
  | loadUnitStride (args : MemoryArgs) (opcode : VLUmOpOpcode)
  | storeIndexed (args : MemoryArgs) (idx : Fin 32)
  | storeStride (args : MemoryArgs) (std : Fin 32)
  | storeUnitStride (args : MemoryArgs) (opcode : VSUmOpOpcode)
  deriving DecidableEq

def MemoryInsn.args : MemoryInsn → MemoryArgs
  | loadIndexed args _ => args
  | loadStride args _ => args
  | loadUnitStride args _ => args
  | storeIndexed args _ => args
  | storeStride args _ => args
  | storeUnitStride args _ => args

/-- The element width as the fields of instructions and of `vtype` have it. -/
def ElementType.code : ElementType → Nat
  | .e8 => 0b000
  | .e16 => 0b001
  | .e32 => 0b010
  | .e64 => 0b011

def ElementType.ofVsew (vsew : BitVec 3) : Option ElementType :=
  match vsew.toNat with
  | 0b000 => some .e8
  | 0b001 => some .e16
  | 0b010 => some .e32
  | 0b011 => some .e64
  | _ => none

def VectorRegisterGroupMultiplier.ofVlmul (vlmul : BitVec 3) :
    Option VectorRegisterGroupMultiplier :=
  match vlmul.toNat with
  | 0b000 => some .k1register
  | 0b001 => some .k2registers
  | 0b010 => some .k4registers
  | 0b011 => some .k8registers
  | 0b101 => some .kEigthOfRegister
  | 0b110 => some .kQuarterOfRegister
  | 0b111 => some .kHalfOfRegister
  | _ => none

/-- A driver with its operands. -/
inductive Selected where
  | load (opcode : VLUmOpOpcode) (vta : TailProcessing) (vma : Option InactiveProcessing)
      (a : SegmentAccess)
  | store (opcode : VSUmOpOpcode) (useMasking : Bool) (a : SegmentAccess)

/-- The access of an indexed load or store. The index registers are copied before the access. Their
    type and number come from the instruction, those of the data from `vtype`. -/
def selectIndexed (args : MemoryArgs) (idx : Nat) (indexRegistersInvolved : Nat) (s : State) :
    Option SegmentAccess :=
  (ElementType.ofVsew (s.vtype.extractLsb' 3 3)).bind fun dataElementType =>
    (VectorRegisterGroupMultiplier.ofVlmul (s.vtype.extractLsb' 0 3)).bind fun vlmul =>
      if !isAligned idx indexRegistersInvolved then none
      else
        let count := args.width.elementsCount
        some
          { group := args.group
            src := s.getRegOrZero args.src
            elementType := dataElementType
            segmentSize := args.segmentSize
            numRegistersInGroup := numberOfRegistersInvolved vlmul
            getElementOffset := fun index =>
              if index < count * indexRegistersInvolved then
                (getV s.v (idx + index / count)).map fun r =>
                  (lane args.width.bits r (index % count)).setWidth 64
              else none }

def selectStride (args : MemoryArgs) (std : Nat) (registersInvolved : Nat) (s : State) :
    SegmentAccess where
  group := args.group
  src := s.getRegOrZero args.src
  elementType := args.width
  segmentSize := args.segmentSize
  numRegistersInGroup := registersInvolved
  getElementOffset index := some (s.getRegOrZero std * BitVec.ofNat 64 index)

def selectUnitStride (args : MemoryArgs) (registersInvolved : Nat) (s : State) : SegmentAccess where
  group := args.group
  src := s.getRegOrZero args.src
  elementType := args.width
  segmentSize := args.segmentSize
  numRegistersInGroup := registersInvolved
  getElementOffset index := some (BitVec.ofNat 64 (args.segmentSize * args.width.bytes * index))

def selectMask (args : MemoryArgs) (s : State) : SegmentAccess where
  group := args.group
  src := s.getRegOrZero args.src
  elementType := .e8
  segmentSize := 1
  numRegistersInGroup := 1
  getElementOffset index := some (BitVec.ofNat 64 index)

def vemul (width : ElementType) (vtype : BitVec 64) : Int :=
  (vtype.extractLsb' 0 3).toInt - (vtype.extractLsb' 3 3).toNat + width.code

/-- The number of registers that EMUL of the width in the instruction gives. There
    is none if the instruction is illegal. -/
def selectRegistersInvolved (args : MemoryArgs) (vtype : BitVec 64) : Option Nat :=
  let vemul := vemul args.width vtype
  if vemul < -3 ∨ 3 < vemul then none
  else if 0 < vemul ∧ 8 < args.segmentSize * 2 ^ vemul.toNat then none
  else
    (VectorRegisterGroupMultiplier.ofVlmul (BitVec.ofInt 3 vemul)).bind fun vlmul =>
      if 8 < args.segmentSize * numberOfRegistersInvolved vlmul then none
      else some (numberOfRegistersInvolved vlmul)

def vmaOf (args : MemoryArgs) (vtype : BitVec 64) : Option InactiveProcessing :=
  if args.vm then none
  else if vtype >>> 7 ≠ 0 then some .kAgnostic
  else some .kUndisturbed

def vtaOf (vtype : BitVec 64) : TailProcessing :=
  if vtype.getLsbD 6 then .kAgnostic else .kUndisturbed

def select (insn : MemoryInsn) (s : State) : Option Selected :=
  (selectRegistersInvolved insn.args s.vtype).bind fun registersInvolved =>
    let vma := vmaOf insn.args s.vtype
    let vta := vtaOf s.vtype
    match insn with
    | .loadIndexed args idx =>
      (selectIndexed args idx registersInvolved s).map (Selected.load .kVleXX vta vma)
    | .loadStride args std =>
      some (.load .kVleXX vta vma (selectStride args std registersInvolved s))
    | .loadUnitStride args opcode =>
      match opcode with
      | .kVleXX | .kVleXXff =>
        some (.load opcode vta vma (selectUnitStride args registersInvolved s))
      | .kVlm =>
        if vma = none ∧ args.nf = 0 then some (.load .kVlm .kAgnostic vma (selectMask args s))
        else none
      | _ => none
    | .storeIndexed args idx =>
      (selectIndexed args idx registersInvolved s).map (Selected.store .kVseXX vma.isSome)
    | .storeStride args std =>
      some (.store .kVseXX vma.isSome (selectStride args std registersInvolved s))
    | .storeUnitStride args opcode =>
      match opcode with
      | .kVseXX => some (.store .kVseXX vma.isSome (selectUnitStride args registersInvolved s))
      | .kVsm =>
        if vma = none ∧ args.nf = 0 then some (.store .kVsm false (selectMask args s))
        else none
      | _ => none

def Selected.run (faults : BitVec 64 → Nat → Bool) (uninitialized : Nat → BitVec 128)
    (s : State) : Selected → Option State
  | .load opcode vta vma a => opVectorLoad faults a opcode vta vma uninitialized s
  | .store opcode useMasking a => opVectorStore faults a opcode useMasking s

/-- The registers of a whole register load or store are a group of their own. -/
def wholeRegistersLegal (args : MemoryArgs) : Bool :=
  args.segmentSize &&& args.nf.val == 0 && args.group.val &&& args.nf.val == 0

/-- Whole register loads are not made by the drivers and ignore `vtype`. -/
def opVectorWholeLoad (args : MemoryArgs) (s : State) : Option State :=
  if !wholeRegistersLegal args then some s.undefined
  else
    forRange (fun index s =>
      let addr := s.getRegOrZero args.src + BitVec.ofNat 64 (16 * index)
      State.setV { s with accesses := (addr, 16) :: s.accesses } (args.group + index)
        (loadWord s.mem addr 128)) 0 args.segmentSize s

def opVectorWholeStore (args : MemoryArgs) (s : State) : Option State :=
  if args.width ≠ .e8 ∨ !wholeRegistersLegal args then some s.undefined
  else
    forRange (fun index s =>
      let addr := s.getRegOrZero args.src + BitVec.ofNat 64 (16 * index)
      (getV s.v (args.group + index)).map fun r =>
        { s with mem := storeWord s.mem addr r, accesses := (addr, 16) :: s.accesses })
      0 args.segmentSize s

def opVectorMemory (faults : BitVec 64 → Nat → Bool) (uninitialized : Nat → BitVec 128)
    (insn : MemoryInsn) (s : State) : Option State :=
  match insn with
  | .loadUnitStride args .kVlXreXX => opVectorWholeLoad args s
  | .storeUnitStride args .kVsX => opVectorWholeStore args s
  | insn =>
    if s.vtype.msb then some s.undefined
    else
      match select insn s with
      | none => some s.undefined
      | some selected => selected.run faults uninitialized s

def execute (faults : BitVec 64 → Nat → Bool) (uninitialized : Nat → BitVec 128)
    (insn : MemoryInsn) (s : State) : Option State :=
  (opVectorMemory faults uninitialized insn s).map fun s => s.finalizeInsn 4

end Berberis.Riscv64.Vector
