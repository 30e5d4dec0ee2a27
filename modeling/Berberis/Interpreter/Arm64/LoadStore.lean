import Berberis.Lib.EarlyExit

/-!
# Loads and Stores of the Arm64 Interpreter

The interpreter executes an instruction on the thread's state. It reads and
writes guest memory through two functions that tell whether the access has
faulted. After a fault a flag is set, and the setters of the registers do nothing
while it is set; some functions write registers without them.
-/

namespace Berberis.Arm64

structure CPUState where
  x : Fin 31 → BitVec 64
  sp : BitVec 64
  flags : BitVec 16
  v : Fin 32 → BitVec 128
  insnAddr : BitVec 64

structure Access where
  isStore : Bool
  addr : BitVec 64
  dataBytes : Nat
  deriving DecidableEq

inductive Event where
  | access (access : Access) (isFault : Bool)
  | undefinedInsn (addr : BitVec 64)
  deriving DecidableEq

def Event.isFault : Event → Bool
  | .access _ isFault => isFault
  | .undefinedInsn _ => false

structure State where
  cpu : CPUState
  memory : BitVec 64 → BitVec 8
  branchTaken : Bool
  exceptionRaised : Bool
  events : List Event

def ofBytes (byte : Nat → BitVec 8) : Nat → BitVec 64
  | 0 => 0
  | n + 1 => ofBytes byte n ||| (byte n).setWidth 64 <<< (8 * n)

def byteOf {w : Nat} (value : BitVec w) (i : Nat) : BitVec 8 := (value >>> (8 * i)).setWidth 8

namespace State

def log (s : State) (event : Event) : State := { s with events := s.events ++ [event] }

def readMemory (s : State) (addr : BitVec 64) (dataBytes : Nat) : BitVec 64 :=
  ofBytes (fun i => s.memory (addr + BitVec.ofNat 64 i)) dataBytes

def writeMemory (s : State) (addr : BitVec 64) (dataBytes : Nat) (value : BitVec 64) : State :=
  { s with
    memory := fun a =>
      if (a - addr).toNat < dataBytes then byteOf value (a - addr).toNat else s.memory a }

def handleMemoryFault (s : State) : State := { s with exceptionRaised := true }

def undefined (s : State) : State :=
  { s.log (.undefinedInsn s.cpu.insnAddr) with exceptionRaised := true }

def writeX (s : State) (reg : Fin 31) (value : BitVec 64) : State :=
  { s with cpu := { s.cpu with x := Function.update s.cpu.x reg value } }

def writeSp (s : State) (value : BitVec 64) : State :=
  { s with cpu := { s.cpu with sp := value } }

def writeV (s : State) (reg : Fin 32) (value : BitVec 128) : State :=
  { s with cpu := { s.cpu with v := Function.update s.cpu.v reg value } }

def setReg (s : State) (reg : Fin 31) (value : BitVec 64) : State :=
  if s.exceptionRaised then s else s.writeX reg value

def setSp (s : State) (value : BitVec 64) : State :=
  if s.exceptionRaised then s else s.writeSp value

def getRegOrZero (s : State) (reg : Fin 32) : BitVec 64 :=
  if h : reg.val < 31 then s.cpu.x ⟨reg, h⟩ else 0

def getRegOrSp (s : State) (reg : Fin 32) : BitVec 64 :=
  if h : reg.val < 31 then s.cpu.x ⟨reg, h⟩ else s.cpu.sp

def setRegOrIgnore (s : State) (reg : Fin 32) (value : BitVec 64) : State :=
  if h : reg.val < 31 then s.setReg ⟨reg, h⟩ value else s

def setRegOrSp (s : State) (reg : Fin 32) (value : BitVec 64) : State :=
  if h : reg.val < 31 then s.setReg ⟨reg, h⟩ value else s.setSp value

/-- A register is written unless it is register 31, whatever the flag is. -/
def writeXOrIgnore (s : State) (reg : Fin 32) (value : BitVec 64) : State :=
  if h : reg.val < 31 then s.writeX ⟨reg, h⟩ value else s

/-- A base register is written back. Only the setter of the stack pointer looks at the flag. -/
def writeXOrSetSp (s : State) (reg : Fin 32) (value : BitVec 64) : State :=
  if h : reg.val < 31 then s.writeX ⟨reg, h⟩ value else s.setSp value

def writeXOrSp (s : State) (reg : Fin 32) (value : BitVec 64) : State :=
  if h : reg.val < 31 then s.writeX ⟨reg, h⟩ value else s.writeSp value

end State

inductive LoadStoreSize where
  | k8bit
  | k16bit
  | k32bit
  | k64bit
  deriving DecidableEq

def LoadStoreSize.dataBytes : LoadStoreSize → Nat
  | .k8bit => 1
  | .k16bit => 2
  | .k32bit => 4
  | .k64bit => 8

inductive SimdLoadStoreSize where
  | k8bit
  | k16bit
  | k32bit
  | k64bit
  | k128bit
  deriving DecidableEq

structure LoadStoreImmArgs where
  rt : Fin 32
  rn : Fin 32
  offset : Int
  size : LoadStoreSize
  isStore : Bool
  isSigned : Bool
  is64bitTarget : Bool

structure LoadStorePairArgs where
  rt1 : Fin 32
  rt2 : Fin 32
  rn : Fin 32
  offset : Int
  size : LoadStoreSize
  isStore : Bool
  isPreindex : Bool
  isPostindex : Bool
  isSigned : Bool

structure LoadStoreRegArgs where
  rt : Fin 32
  rn : Fin 32
  rm : Fin 32
  extendType : Nat
  shiftAmount : Nat
  size : LoadStoreSize
  isStore : Bool
  isSigned : Bool
  is64bitTarget : Bool

structure SimdLoadStoreImmArgs where
  rt : Fin 32
  rn : Fin 32
  offset : Int
  size : SimdLoadStoreSize
  isStore : Bool

structure SimdLoadStorePairArgs where
  rt1 : Fin 32
  rt2 : Fin 32
  rn : Fin 32
  offset : Int
  size : SimdLoadStoreSize
  isStore : Bool
  isPreindex : Bool
  isPostindex : Bool

structure SimdLoadStoreRegArgs where
  rt : Fin 32
  rn : Fin 32
  rm : Fin 32
  extendType : Nat
  shiftAmount : Nat
  size : SimdLoadStoreSize
  isStore : Bool

/-- The decoder gives one to four registers. -/
structure AdvSimdMultiStructArgs where
  rt : Fin 32
  rn : Fin 32
  numRegs : Nat
  size : Fin 4
  q : Bool
  isStore : Bool
  postindex : Bool
  rm : Fin 32
  isInterleaved : Bool
  numRegs_le : numRegs ≤ 4

inductive AdvSimdSingleStructOp where
  | kLd1r
  | kLd2r
  | kLd3r
  | kLd4r
  | kLd1
  | kLd2
  | kLd3
  | kLd4
  | kSt1
  | kSt2
  | kSt3
  | kSt4
  deriving DecidableEq

def AdvSimdSingleStructOp.isStore : AdvSimdSingleStructOp → Bool
  | .kSt1 | .kSt2 | .kSt3 | .kSt4 => true
  | _ => false

/-- The decoder gives one to four registers, and a lane that they have. -/
structure AdvSimdSingleStructArgs where
  op : AdvSimdSingleStructOp
  rt : Fin 32
  rn : Fin 32
  rm : Fin 32
  size : Fin 4
  index : Nat
  numRegs : Nat
  q : Bool
  postindex : Bool
  isReplicate : Bool
  numRegs_le : numRegs ≤ 4
  index_le : (index + 1) * 2 ^ size.val ≤ 16

inductive MteLoadStoreOpcode where
  | kStg
  | kLdg
  | kStzg
  | kSt2g
  | kStz2g
  | kLdgm
  | kStgm
  | kStzgm
  deriving DecidableEq

structure MteLoadStoreArgs where
  opcode : MteLoadStoreOpcode
  rn : Fin 32
  rt : Fin 32
  imm : Int
  op2 : Fin 4

def applyTbi (addr : BitVec 64) : BitVec 64 := addr &&& 0x00FFFFFFFFFFFFFF

def addImm (base : BitVec 64) (offset : Int) : BitVec 64 := base + BitVec.ofInt 64 offset

def applyOffsetExtend (regVal : BitVec 64) (extendType : Nat) : BitVec 64 :=
  match extendType with
  | 0b010 => regVal &&& 0xFFFFFFFF
  | 0b110 => (regVal.setWidth 32).signExtend 64
  | _ => regVal

def vreg (rt : Fin 32) (r : Nat) : Fin 32 := ⟨(rt + r) % 32, Nat.mod_lt _ (by omega)⟩

/-- Bytes of a vector are replaced by the lowest ones of a number. -/
def setBytes (value : BitVec 128) (offset size : Nat) (elem : BitVec 64) : BitVec 128 :=
  let mask := (BitVec.allOnes 128 >>> (128 - 8 * size)) <<< (8 * offset)
  value &&& ~~~mask ||| (elem.setWidth 128 <<< (8 * offset)) &&& mask

def getBytes (value : BitVec 128) (offset size : Nat) : BitVec 64 :=
  ofBytes (fun i => byteOf value (offset + i)) size

section Interpreter

variable (faults : Access → Bool)

def faultyLoad (s : State) (addr : BitVec 64) (dataBytes : Nat) :
    Option (BitVec 64) × State :=
  let access : Access := ⟨false, addr, dataBytes⟩
  if faults access then (none, s.log (.access access true))
  else (some (s.readMemory addr dataBytes), s.log (.access access false))

def faultyStore (s : State) (addr : BitVec 64) (dataBytes : Nat) (value : BitVec 64) :
    Bool × State :=
  let access : Access := ⟨true, addr, dataBytes⟩
  if faults access then (true, s.log (.access access true))
  else (false, (s.writeMemory addr dataBytes value).log (.access access false))

def extendLoaded (size : LoadStoreSize) (isSigned is64bitTarget : Bool) (value : BitVec 64) :
    BitVec 64 :=
  match size with
  | .k8bit =>
    if isSigned then
      if is64bitTarget then (value.setWidth 8).signExtend 64
      else ((value.setWidth 8).signExtend 32).setWidth 64
    else (value.setWidth 8).setWidth 64
  | .k16bit =>
    if isSigned then
      if is64bitTarget then (value.setWidth 16).signExtend 64
      else ((value.setWidth 16).signExtend 32).setWidth 64
    else (value.setWidth 16).setWidth 64
  | .k32bit =>
    if isSigned ∧ is64bitTarget then (value.setWidth 32).signExtend 64
    else (value.setWidth 32).setWidth 64
  | .k64bit => value

def load (s : State) (size : LoadStoreSize) (isSigned is64bitTarget : Bool) (base : BitVec 64)
    (offset : Int) : BitVec 64 × State :=
  match faultyLoad faults s (applyTbi (addImm base offset)) size.dataBytes with
  | (none, s) => (0, s.handleMemoryFault)
  | (some value, s) => (extendLoaded size isSigned is64bitTarget value, s)

def store (s : State) (size : LoadStoreSize) (base : BitVec 64) (offset : Int)
    (data : BitVec 64) : State :=
  match faultyStore faults s (applyTbi (addImm base offset)) size.dataBytes data with
  | (true, s) => s.handleMemoryFault
  | (false, s) => s

def loadPair (s : State) (size : LoadStoreSize) (base : BitVec 64) (offset : Int)
    (rt1 rt2 : Fin 32) (scale : Nat) (isSigned : Bool) : State :=
  let ptr1 := applyTbi (addImm base offset)
  let ptr2 := applyTbi (addImm base offset + BitVec.ofNat 64 scale)
  let dataBytes := if size = .k64bit then 8 else 4
  match faultyLoad faults s ptr1 dataBytes with
  | (none, s) => s.handleMemoryFault
  | (some value1, s) =>
    match faultyLoad faults s ptr2 dataBytes with
    | (none, s) => s.handleMemoryFault
    | (some value2, s) =>
      let v1 := if isSigned then (value1.setWidth 32).signExtend 64 else value1
      let v2 := if isSigned then (value2.setWidth 32).signExtend 64 else value2
      (s.writeXOrIgnore rt1 v1).writeXOrIgnore rt2 v2

def storePair (s : State) (size : LoadStoreSize) (base : BitVec 64) (offset : Int)
    (data1 data2 : BitVec 64) (scale : Nat) : State :=
  let ptr1 := applyTbi (addImm base offset)
  let ptr2 := applyTbi (addImm base offset + BitVec.ofNat 64 scale)
  let dataBytes := if size = .k64bit then 8 else 4
  match faultyStore faults s ptr1 dataBytes data1 with
  | (true, s) => s.handleMemoryFault
  | (false, s) =>
    match faultyStore faults s ptr2 dataBytes data2 with
    | (true, s) => s.handleMemoryFault
    | (false, s) => s

def loadReg (s : State) (size : LoadStoreSize) (isSigned is64bitTarget : Bool)
    (base offsetReg : BitVec 64) (extendType shiftAmount : Nat) : BitVec 64 × State :=
  let off := applyOffsetExtend offsetReg extendType <<< shiftAmount
  load faults s size isSigned is64bitTarget (base + off) 0

def storeReg (s : State) (size : LoadStoreSize) (base offsetReg : BitVec 64)
    (extendType shiftAmount : Nat) (data : BitVec 64) : State :=
  let off := applyOffsetExtend offsetReg extendType <<< shiftAmount
  store faults s size (base + off) 0 data

def SimdLoadStoreSize.bytes : SimdLoadStoreSize → Nat
  | .k8bit => 1
  | .k16bit => 2
  | .k32bit => 4
  | .k64bit => 8
  | .k128bit => 0

def ofHalves (lo hi : BitVec 64) : BitVec 128 := lo.setWidth 128 ||| hi.setWidth 128 <<< 64

def simdLoadFromMemory (s : State) (hostAddr : BitVec 64) (rt : Fin 32)
    (size : SimdLoadStoreSize) : State :=
  if size = .k128bit then
    match faultyLoad faults s hostAddr 8 with
    | (none, s) => s.handleMemoryFault
    | (some lo, s) =>
      match faultyLoad faults s (hostAddr + 8) 8 with
      | (none, s) => s.handleMemoryFault
      | (some hi, s) => s.writeV rt (ofHalves lo hi)
  else
    match faultyLoad faults s hostAddr size.bytes with
    | (none, s) => s.handleMemoryFault
    | (some value, s) => s.writeV rt (value.setWidth 128)

def simdStoreToMemory (s : State) (hostAddr : BitVec 64) (rt : Fin 32)
    (size : SimdLoadStoreSize) : State :=
  let loVal := (s.cpu.v rt).setWidth 64
  let hiVal := (s.cpu.v rt >>> 64).setWidth 64
  if size = .k128bit then
    match faultyStore faults s hostAddr 8 loVal with
    | (true, s) => s.handleMemoryFault
    | (false, s) =>
      match faultyStore faults s (hostAddr + 8) 8 hiVal with
      | (true, s) => s.handleMemoryFault
      | (false, s) => s
  else
    match faultyStore faults s hostAddr size.bytes loVal with
    | (true, s) => s.handleMemoryFault
    | (false, s) => s

def simdAccess (s : State) (hostAddr : BitVec 64) (rt : Fin 32) (size : SimdLoadStoreSize)
    (isStore : Bool) : State :=
  if isStore then simdStoreToMemory faults s hostAddr rt size
  else simdLoadFromMemory faults s hostAddr rt size

def loadStoreImm (s : State) (args : LoadStoreImmArgs) : State :=
  let base := s.getRegOrSp args.rn
  if args.isStore then store faults s args.size base args.offset (s.getRegOrZero args.rt)
  else
    let (result, s) := load faults s args.size args.isSigned args.is64bitTarget base args.offset
    s.setRegOrIgnore args.rt result

def loadStoreImmPreIndex (s : State) (args : LoadStoreImmArgs) : State :=
  let base := s.getRegOrSp args.rn
  let newBase := addImm base args.offset
  let s :=
    if args.isStore then store faults s args.size newBase 0 (s.getRegOrZero args.rt)
    else
      let (result, s) := load faults s args.size args.isSigned args.is64bitTarget newBase 0
      s.setRegOrIgnore args.rt result
  s.setRegOrSp args.rn newBase

def loadStoreImmPostIndex (s : State) (args : LoadStoreImmArgs) : State :=
  let base := s.getRegOrSp args.rn
  let s :=
    if args.isStore then store faults s args.size base 0 (s.getRegOrZero args.rt)
    else
      let (result, s) := load faults s args.size args.isSigned args.is64bitTarget base 0
      s.setRegOrIgnore args.rt result
  s.setRegOrSp args.rn (addImm base args.offset)

def writeBack (s : State) (isPreindex isPostindex : Bool) (rn : Fin 32)
    (addr base : BitVec 64) (offset : Int) : State :=
  if isPreindex then s.setRegOrSp rn addr
  else if isPostindex then s.setRegOrSp rn (addImm base offset)
  else s

def loadStorePair (s : State) (args : LoadStorePairArgs) : State :=
  let base := s.getRegOrSp args.rn
  let addr :=
    if args.isPreindex then addImm base args.offset
    else if !args.isPostindex ∧ args.offset ≠ 0 then addImm base args.offset
    else base
  let scale := if args.size = .k64bit then 8 else 4
  let s :=
    if args.isStore then
      storePair faults s args.size addr 0 (s.getRegOrZero args.rt1) (s.getRegOrZero args.rt2) scale
    else loadPair faults s args.size addr 0 args.rt1 args.rt2 scale args.isSigned
  writeBack s args.isPreindex args.isPostindex args.rn addr base args.offset

def loadStoreReg (s : State) (args : LoadStoreRegArgs) : State :=
  let base := s.getRegOrSp args.rn
  let offsetReg := s.getRegOrZero args.rm
  if args.isStore then
    storeReg faults s args.size base offsetReg args.extendType args.shiftAmount
      (s.getRegOrZero args.rt)
  else
    let (result, s) :=
      loadReg faults s args.size args.isSigned args.is64bitTarget base offsetReg args.extendType
        args.shiftAmount
    s.setRegOrIgnore args.rt result

/-- The interpreter's function for the three forms with an immediate. -/
def simdLoadStoreAt (s : State) (args : SimdLoadStoreImmArgs) (base : BitVec 64) (offset : Int) :
    State :=
  simdAccess faults s (applyTbi (addImm base offset)) args.rt args.size args.isStore

def simdLoadStoreImm (s : State) (args : SimdLoadStoreImmArgs) : State :=
  simdLoadStoreAt faults s args (s.getRegOrSp args.rn) args.offset

def simdLoadStoreImmPreIndex (s : State) (args : SimdLoadStoreImmArgs) : State :=
  let base := s.getRegOrSp args.rn
  let newBase := addImm base args.offset
  let s := simdLoadStoreAt faults s args newBase 0
  s.setRegOrSp args.rn newBase

def simdLoadStoreImmPostIndex (s : State) (args : SimdLoadStoreImmArgs) : State :=
  let base := s.getRegOrSp args.rn
  let s := simdLoadStoreAt faults s args base 0
  s.setRegOrSp args.rn (addImm base args.offset)

def SimdLoadStoreSize.elementSize? : SimdLoadStoreSize → Option Nat
  | .k32bit => some 4
  | .k64bit => some 8
  | .k128bit => some 16
  | _ => none

/-- The interpreter's function for pairs. The second access is made whatever came of the first. -/
def simdLoadStorePairAt (s : State) (args : SimdLoadStorePairArgs) (base : BitVec 64) : State :=
  match args.size.elementSize? with
  | none => s.undefined
  | some elementSize =>
    let addr1 := applyTbi base
    let addr2 := applyTbi (base + BitVec.ofNat 64 elementSize)
    let s := simdAccess faults s addr1 args.rt1 args.size args.isStore
    simdAccess faults s addr2 args.rt2 args.size args.isStore

def simdLoadStorePair (s : State) (args : SimdLoadStorePairArgs) : State :=
  let base := s.getRegOrSp args.rn
  let addr := if args.isPreindex ∨ !args.isPostindex then addImm base args.offset else base
  let s := simdLoadStorePairAt faults s args addr
  writeBack s args.isPreindex args.isPostindex args.rn addr base args.offset

def simdLoadStoreReg (s : State) (args : SimdLoadStoreRegArgs) : State :=
  let base := s.getRegOrSp args.rn
  let offsetReg := s.getRegOrZero args.rm
  let off := applyOffsetExtend offsetReg args.extendType <<< args.shiftAmount
  simdAccess faults s (applyTbi (base + off)) args.rt args.size args.isStore

def storeVector (rt : Fin 32) (baseAddr : BitVec 64) (vecBytes r : Nat) (s : State) :
    State × Bool :=
  let val := s.cpu.v (vreg rt r)
  let ptr := applyTbi (baseAddr + BitVec.ofNat 64 (r * vecBytes))
  match faultyStore faults s ptr 8 (val.setWidth 64) with
  | (true, s) => (s.handleMemoryFault, false)
  | (false, s) =>
    if vecBytes > 8 then
      match faultyStore faults s (ptr + 8) 8 ((val >>> 64).setWidth 64) with
      | (true, s) => (s.handleMemoryFault, false)
      | (false, s) => (s, true)
    else (s, true)

def loadVector (rt : Fin 32) (baseAddr : BitVec 64) (vecBytes r : Nat) (s : State) :
    State × Bool :=
  let ptr := applyTbi (baseAddr + BitVec.ofNat 64 (r * vecBytes))
  match faultyLoad faults s ptr 8 with
  | (none, s) => (s.handleMemoryFault, false)
  | (some lo, s) =>
    if vecBytes > 8 then
      match faultyLoad faults s (ptr + 8) 8 with
      | (none, s) => (s.handleMemoryFault, false)
      | (some hi, s) => (s.writeV (vreg rt r) (ofHalves lo hi), true)
    else (s.writeV (vreg rt r) (lo.setWidth 128), true)

def copyBytes (buf : Nat → BitVec 8) (offset size : Nat) (byte : Nat → BitVec 8) :
    Nat → BitVec 8 :=
  fun i => if offset ≤ i ∧ i < offset + size then byte (i - offset) else buf i

def interleave (v : Fin 32 → BitVec 128) (rt : Fin 32) (numRegs elemsPerVec esize : Nat) :
    Nat → BitVec 8 :=
  (List.range elemsPerVec).foldl
    (fun buf e =>
      (List.range numRegs).foldl
        (fun buf r =>
          copyBytes buf ((e * numRegs + r) * esize) esize
            (fun j => byteOf (v (vreg rt r)) (e * esize + j)))
        buf)
    (fun _ => 0)

/-- The register whose elements stand at every so many places. -/
def deinterleave (buf : Nat → BitVec 8) (numRegs elemsPerVec esize r : Nat) : BitVec 128 :=
  (List.range elemsPerVec).foldl
    (fun val e =>
      setBytes val (e * esize) esize
        (ofBytes (fun j => buf ((e * numRegs + r) * esize + j)) esize))
    0

def storeChunk (buf : Nat → BitVec 8) (baseAddr : BitVec 64) (i : Nat) (s : State) :
    State × Bool :=
  let chunk := ofBytes (fun j => buf (8 * i + j)) 8
  match faultyStore faults s (applyTbi baseAddr + BitVec.ofNat 64 (8 * i)) 8 chunk with
  | (true, s) => (s.handleMemoryFault, false)
  | (false, s) => (s, true)

def loadChunk (baseAddr : BitVec 64) (i : Nat) (s : State × (Nat → BitVec 8)) :
    (State × (Nat → BitVec 8)) × Bool :=
  match faultyLoad faults s.1 (applyTbi baseAddr + BitVec.ofNat 64 (8 * i)) 8 with
  | (none, s') => ((s'.handleMemoryFault, s.2), false)
  | (some value, s') => ((s', copyBytes s.2 (8 * i) 8 (byteOf value)), true)

def postIndex (s : State) (postindex : Bool) (rn rm : Fin 32) (baseAddr : BitVec 64)
    (totalBytes : Nat) : State :=
  if postindex then
    let postOffset :=
      if h : rm.val < 31 then s.cpu.x ⟨rm, h⟩ else BitVec.ofNat 64 totalBytes
    s.writeXOrSetSp rn (baseAddr + postOffset)
  else s

def advSimdMultiStruct (s : State) (args : AdvSimdMultiStructArgs) : State :=
  let vecBytes := if args.q then 16 else 8
  let baseAddr := s.getRegOrSp args.rn
  let totalBytes := args.numRegs * vecBytes
  let finish (s : State) := postIndex s args.postindex args.rn args.rm baseAddr totalBytes
  if !args.isInterleaved then
    let round :=
      if args.isStore then storeVector faults args.rt baseAddr vecBytes
      else loadVector faults args.rt baseAddr vecBytes
    match Lib.EarlyExit.loop round 0 args.numRegs s with
    | (s, false) => s
    | (s, true) => finish s
  else
    let esize := 2 ^ args.size.val
    if esize > vecBytes then s.undefined
    else
      let elemsPerVec := vecBytes / esize
      if args.isStore then
        let buf := interleave s.cpu.v args.rt args.numRegs elemsPerVec esize
        match Lib.EarlyExit.loop (storeChunk faults buf baseAddr) 0 (totalBytes / 8) s with
        | (s, false) => s
        | (s, true) => finish s
      else
        match Lib.EarlyExit.loop (loadChunk faults baseAddr) 0 (totalBytes / 8)
            (s, fun _ => 0) with
        | ((s, _), false) => s
        | ((s, buf), true) =>
          finish ((List.range args.numRegs).foldl
            (fun s r =>
              s.writeV (vreg args.rt r) (deinterleave buf args.numRegs elemsPerVec esize r))
            s)

def replicate (value : BitVec 64) (esize vecBytes : Nat) : BitVec 128 :=
  (List.range (vecBytes / esize)).foldl (fun val lane => setBytes val (lane * esize) esize value) 0

/-- One round of the loop that loads an element and replicates it. -/
def loadReplicated (rt : Fin 32) (baseAddr : BitVec 64) (esize vecBytes r : Nat) (s : State) :
    State × Bool :=
  let addr := baseAddr + BitVec.ofNat 64 (r * esize)
  match faultyLoad faults s (applyTbi addr) esize with
  | (none, s) => (s.handleMemoryFault, false)
  | (some value, s) => (s.writeV (vreg rt r) (replicate value esize vecBytes), true)

def loadLane (rt : Fin 32) (baseAddr : BitVec 64) (esize index r : Nat) (s : State) :
    State × Bool :=
  let addr := baseAddr + BitVec.ofNat 64 (r * esize)
  match faultyLoad faults s (applyTbi addr) esize with
  | (none, s) => (s.handleMemoryFault, false)
  | (some value, s) =>
    (s.writeV (vreg rt r) (setBytes (s.cpu.v (vreg rt r)) (index * esize) esize value), true)

def storeLane (rt : Fin 32) (baseAddr : BitVec 64) (esize index r : Nat) (s : State) :
    State × Bool :=
  let addr := baseAddr + BitVec.ofNat 64 (r * esize)
  let elem := getBytes (s.cpu.v (vreg rt r)) (index * esize) esize
  match faultyStore faults s (applyTbi addr) esize elem with
  | (true, s) => (s.handleMemoryFault, false)
  | (false, s) => (s, true)

def advSimdSingleStruct (s : State) (args : AdvSimdSingleStructArgs) : State :=
  let baseAddr := s.getRegOrSp args.rn
  let esize := 2 ^ args.size.val
  let vecBytes := if args.q then 16 else 8
  let round :=
    if args.isReplicate then loadReplicated faults args.rt baseAddr esize vecBytes
    else if args.op.isStore then storeLane faults args.rt baseAddr esize args.index
    else loadLane faults args.rt baseAddr esize args.index
  match Lib.EarlyExit.loop round 0 args.numRegs s with
  | (s, false) => s
  | (s, true) => postIndex s args.postindex args.rn args.rm baseAddr (args.numRegs * esize)

def storeZero (aligned : BitVec 64) (i : Nat) (s : State) : State × Bool :=
  match faultyStore faults s (applyTbi (aligned + BitVec.ofNat 64 (8 * i))) 8 0 with
  | (true, s) => (s.handleMemoryFault, false)
  | (false, s) => (s, true)

local instance neZeroOp2 : NeZero 4 := ⟨by omega⟩

def mteLoadStore (s : State) (args : MteLoadStoreArgs) : State :=
  let base := s.getRegOrSp args.rn
  let accessAddr := if args.op2 = 0b01 then base else addImm base args.imm
  let newBase := addImm base args.imm
  let (s, goesOn) :=
    match args.opcode with
    | .kStg | .kSt2g | .kStgm | .kStzgm => (s, true)
    | .kLdg => (s.writeXOrIgnore args.rt (s.getRegOrZero args.rt &&& ~~~0x0F00000000000000), true)
    | .kLdgm => (s.writeXOrIgnore args.rt 0, true)
    | .kStzg => Lib.EarlyExit.loop (storeZero faults (accessAddr &&& ~~~0x0F)) 0 2 s
    | .kStz2g => Lib.EarlyExit.loop (storeZero faults (accessAddr &&& ~~~0x1F)) 0 4 s
  if goesOn ∧ (args.op2 = 0b01 ∨ args.op2 = 0b11) then s.writeXOrSp args.rn newBase else s

end Interpreter

/-- The decoded loads and stores. -/
inductive LoadStoreInsn where
  | loadStoreImm (args : LoadStoreImmArgs)
  | loadStoreImmPreIndex (args : LoadStoreImmArgs)
  | loadStoreImmPostIndex (args : LoadStoreImmArgs)
  | loadStorePair (args : LoadStorePairArgs)
  | loadStoreReg (args : LoadStoreRegArgs)
  | simdLoadStoreImm (args : SimdLoadStoreImmArgs)
  | simdLoadStoreImmPreIndex (args : SimdLoadStoreImmArgs)
  | simdLoadStoreImmPostIndex (args : SimdLoadStoreImmArgs)
  | simdLoadStorePair (args : SimdLoadStorePairArgs)
  | simdLoadStoreReg (args : SimdLoadStoreRegArgs)
  | advSimdMultiStruct (args : AdvSimdMultiStructArgs)
  | advSimdSingleStruct (args : AdvSimdSingleStructArgs)
  | mteLoadStore (args : MteLoadStoreArgs)

def execute (faults : Access → Bool) (s : State) : LoadStoreInsn → State
  | .loadStoreImm args => loadStoreImm faults s args
  | .loadStoreImmPreIndex args => loadStoreImmPreIndex faults s args
  | .loadStoreImmPostIndex args => loadStoreImmPostIndex faults s args
  | .loadStorePair args => loadStorePair faults s args
  | .loadStoreReg args => loadStoreReg faults s args
  | .simdLoadStoreImm args => simdLoadStoreImm faults s args
  | .simdLoadStoreImmPreIndex args => simdLoadStoreImmPreIndex faults s args
  | .simdLoadStoreImmPostIndex args => simdLoadStoreImmPostIndex faults s args
  | .simdLoadStorePair args => simdLoadStorePair faults s args
  | .simdLoadStoreReg args => simdLoadStoreReg faults s args
  | .advSimdMultiStruct args => advSimdMultiStruct faults s args
  | .advSimdSingleStruct args => advSimdSingleStruct faults s args
  | .mteLoadStore args => mteLoadStore faults s args

def finalizeInsn (s : State) (insnLen : BitVec 64) : State :=
  if !s.branchTaken ∧ !s.exceptionRaised then
    { s with cpu := { s.cpu with insnAddr := s.cpu.insnAddr + insnLen } }
  else s

/-- An instruction is executed by an interpreter that was just made. -/
def interpretInsn (faults : Access → Bool) (cpu : CPUState) (memory : BitVec 64 → BitVec 8)
    (insn : LoadStoreInsn) : State :=
  finalizeInsn (execute faults ⟨cpu, memory, false, false, []⟩ insn) 4

end Berberis.Arm64
