import Mathlib

/-!
# What the Decoder Reports

The decoder calls one of its consumer's functions with the fields of the
instruction it has decoded. Here such a call is a value.
-/

namespace Berberis.Riscv64

/-- The enumerations of opcodes. -/
inductive OpcodeType where
  | amo
  | branch
  | csr
  | csrImm
  | fma
  | fence
  | op
  | op32
  | opSingleInput
  | opFpGpRegisterTargetNoRounding
  | opFpGpRegisterTargetSingleInputNoRounding
  | opFpNoRounding
  | opFp
  | opFpSingleInput
  | opFpSingleInputNoRounding
  | opImm
  | opImm32
  | shiftImm
  | shiftImm32
  | bitmanipImm
  | bitmanipImm32
  | system
  | vLUmOp
  | vOpFVf
  | vOpFVv
  | vOpIVi
  | vOpIVv
  | vOpIVx
  | vOpMVv
  | vOpMVx
  | vSUmOp
  deriving DecidableEq

structure Opcode where
  type : OpcodeType
  bits : Nat
  deriving DecidableEq

namespace Opcode

def kAdd : Opcode := ⟨.op, 0b0000000000⟩

def kSub : Opcode := ⟨.op, 0b0100000000⟩

def kXor : Opcode := ⟨.op, 0b0000000100⟩

def kOr : Opcode := ⟨.op, 0b0000000110⟩

def kAnd : Opcode := ⟨.op, 0b0000000111⟩

def kAddw : Opcode := ⟨.op32, 0b0000000000⟩

def kSubw : Opcode := ⟨.op32, 0b0100000000⟩

def kZexth : Opcode := ⟨.opSingleInput, 0b0000100100⟩

def kZextb : Opcode := ⟨.opSingleInput, 0b0000100101⟩

def kZextw : Opcode := ⟨.opSingleInput, 0b0000100110⟩

def kSextb : Opcode := ⟨.opSingleInput, 0b0000100111⟩

def kSexth : Opcode := ⟨.opSingleInput, 0b0000101000⟩

def kFSgnj : Opcode := ⟨.opFpNoRounding, 0b00000⟩

def kFmv : Opcode := ⟨.opFpSingleInputNoRounding, 0⟩

def kAddi : Opcode := ⟨.opImm, 0b000⟩

def kAndi : Opcode := ⟨.opImm, 0b111⟩

def kAddiw : Opcode := ⟨.opImm32, 0b000⟩

def kSlli : Opcode := ⟨.shiftImm, 0b000000001⟩

def kSrli : Opcode := ⟨.shiftImm, 0b000000101⟩

def kSrai : Opcode := ⟨.shiftImm, 0b010000101⟩

def kEbreak : Opcode := ⟨.system, 0b0000000000010000000000000⟩

end Opcode

/-- The enumerations of operand types, with their values. -/
inductive OperandType where
  | fcvt (bits : Nat)
  | float (bits : Nat)
  | memoryData (bits : Nat)
  | load (bits : Nat)
  deriving DecidableEq

namespace OperandType

def kFloat : OperandType := .float 0b00

def kDouble : OperandType := .float 0b01

def kHalf : OperandType := .float 0b10

def kQuad : OperandType := .float 0b11

def k8bit : OperandType := .memoryData 0b000

def k16bit : OperandType := .memoryData 0b001

def k32bit : OperandType := .memoryData 0b010

def k64bit : OperandType := .memoryData 0b011

def kLoad32bitSigned : OperandType := .load 0b010

def kLoad64bit : OperandType := .load 0b011

def bits : OperandType → Nat
  | .fcvt bits => bits
  | .float bits => bits
  | .memoryData bits => bits
  | .load bits => bits

end OperandType

structure AmoArgs where
  opcode : Opcode
  operandType : OperandType
  dst : Nat
  src1 : Nat
  src2 : Nat
  rl : Bool
  aq : Bool
  deriving DecidableEq

structure BranchArgs where
  opcode : Opcode
  src1 : Nat
  src2 : Nat
  offset : Int
  deriving DecidableEq

structure CsrArgs where
  opcode : Opcode
  dst : Nat
  src : Nat
  csr : Nat
  deriving DecidableEq

structure CsrImmArgs where
  opcode : Opcode
  dst : Nat
  imm : Nat
  csr : Nat
  deriving DecidableEq

/-- The conversions' arguments: between floats, to integers and from integers. -/
structure FcvtArgs where
  dstType : OperandType
  srcType : OperandType
  dst : Nat
  src : Nat
  rm : Nat
  deriving DecidableEq

structure FenceArgs where
  opcode : Opcode
  dst : Nat
  src : Nat
  sw : Bool
  sr : Bool
  so : Bool
  si : Bool
  pw : Bool
  pr : Bool
  po : Bool
  pi : Bool
  deriving DecidableEq

structure FenceIArgs where
  dst : Nat
  src : Nat
  imm : Int
  deriving DecidableEq

structure FmaArgs where
  opcode : Opcode
  operandType : OperandType
  dst : Nat
  src1 : Nat
  src2 : Nat
  src3 : Nat
  rm : Nat
  deriving DecidableEq

structure JumpAndLinkArgs where
  dst : Nat
  offset : Int
  insnLen : Nat
  deriving DecidableEq

structure JumpAndLinkRegisterArgs where
  dst : Nat
  base : Nat
  offset : Int
  insnLen : Nat
  deriving DecidableEq

structure OpArgs where
  opcode : Opcode
  dst : Nat
  src1 : Nat
  src2 : Nat
  deriving DecidableEq

structure OpSingleInputArgs where
  opcode : Opcode
  dst : Nat
  src : Nat
  deriving DecidableEq

structure OpFpArgs where
  opcode : Opcode
  operandType : OperandType
  dst : Nat
  src1 : Nat
  src2 : Nat
  rm : Nat
  deriving DecidableEq

/-- Two operands and no rounding mode, with either kind of target. -/
structure OpFpNoRoundingArgs where
  opcode : Opcode
  operandType : OperandType
  dst : Nat
  src1 : Nat
  src2 : Nat
  deriving DecidableEq

structure OpFpSingleInputArgs where
  opcode : Opcode
  operandType : OperandType
  dst : Nat
  src : Nat
  rm : Nat
  deriving DecidableEq

/-- One operand and no rounding mode, with either kind of target. -/
structure OpFpSingleInputNoRoundingArgs where
  opcode : Opcode
  operandType : OperandType
  dst : Nat
  src : Nat
  deriving DecidableEq

/-- Moves of floats from and to the other registers. -/
structure FmvArgs where
  operandType : OperandType
  dst : Nat
  src : Nat
  deriving DecidableEq

structure OpImmArgs where
  opcode : Opcode
  dst : Nat
  src : Nat
  imm : Int
  deriving DecidableEq

structure ShiftImmArgs where
  opcode : Opcode
  dst : Nat
  src : Nat
  imm : Nat
  deriving DecidableEq

structure BitmanipImmArgs where
  opcode : Opcode
  dst : Nat
  src : Nat
  shamt : Nat
  deriving DecidableEq

structure LoadArgs where
  operandType : OperandType
  dst : Nat
  src : Nat
  offset : Int
  deriving DecidableEq

structure StoreArgs where
  operandType : OperandType
  src : Nat
  offset : Int
  data : Nat
  deriving DecidableEq

structure SystemArgs where
  opcode : Opcode
  deriving DecidableEq

structure UpperImmArgs where
  dst : Nat
  imm : Int
  deriving DecidableEq

structure VLoadIndexedArgs where
  width : OperandType
  vm : Bool
  ordered : Bool
  nf : Nat
  dst : Nat
  src : Nat
  idx : Nat
  deriving DecidableEq

structure VLoadStrideArgs where
  width : OperandType
  vm : Bool
  ordered : Bool
  nf : Nat
  dst : Nat
  src : Nat
  std : Nat
  deriving DecidableEq

structure VLoadUnitStrideArgs where
  opcode : Opcode
  width : OperandType
  vm : Bool
  nf : Nat
  dst : Nat
  src : Nat
  deriving DecidableEq

structure VStoreIndexedArgs where
  width : OperandType
  vm : Bool
  ordered : Bool
  nf : Nat
  src : Nat
  idx : Nat
  data : Nat
  deriving DecidableEq

structure VStoreStrideArgs where
  width : OperandType
  vm : Bool
  ordered : Bool
  nf : Nat
  src : Nat
  std : Nat
  data : Nat
  deriving DecidableEq

structure VStoreUnitStrideArgs where
  opcode : Opcode
  width : OperandType
  vm : Bool
  nf : Nat
  src : Nat
  data : Nat
  deriving DecidableEq

/-- The arguments of vector arithmetic. Its opcode says what the second operand
    is: a register, an immediate or a further opcode. -/
structure VOpArgs where
  opcode : Opcode
  vm : Bool
  dst : Nat
  src1 : Nat
  src2 : Nat
  deriving DecidableEq

structure VsetivliArgs where
  dst : Nat
  avl : Nat
  vtype : Nat
  deriving DecidableEq

structure VsetvliArgs where
  dst : Nat
  src : Nat
  vtype : Nat
  deriving DecidableEq

structure VsetvlArgs where
  dst : Nat
  src1 : Nat
  src2 : Nat
  deriving DecidableEq

/-- The consumer's functions. -/
inductive Callback where
  | amo (args : AmoArgs)
  | auipc (args : UpperImmArgs)
  | compareAndBranch (args : BranchArgs)
  | csr (args : CsrArgs)
  | csrImm (args : CsrImmArgs)
  | fcvt (args : FcvtArgs)
  | fence (args : FenceArgs)
  | fenceI (args : FenceIArgs)
  | fma (args : FmaArgs)
  | fmvFloatToInteger (args : FmvArgs)
  | fmvIntegerToFloat (args : FmvArgs)
  | jumpAndLink (args : JumpAndLinkArgs)
  | jumpAndLinkRegister (args : JumpAndLinkRegisterArgs)
  | load (args : LoadArgs)
  | lui (args : UpperImmArgs)
  | nop
  | op (args : OpArgs)
  | opFp (args : OpFpArgs)
  | opFpGpRegisterTargetNoRounding (args : OpFpNoRoundingArgs)
  | opFpGpRegisterTargetSingleInputNoRounding (args : OpFpSingleInputNoRoundingArgs)
  | opFpNoRounding (args : OpFpNoRoundingArgs)
  | opFpSingleInput (args : OpFpSingleInputArgs)
  | opFpSingleInputNoRounding (args : OpFpSingleInputNoRoundingArgs)
  | opImm (args : OpImmArgs)
  | opImmShift (args : ShiftImmArgs)
  | opImmBitmanip (args : BitmanipImmArgs)
  | opSingleInput (args : OpSingleInputArgs)
  | opVector (args : VOpArgs)
  | opVectorLoadIndexed (args : VLoadIndexedArgs)
  | opVectorLoadStride (args : VLoadStrideArgs)
  | opVectorLoadUnitStride (args : VLoadUnitStrideArgs)
  | opVectorStoreIndexed (args : VStoreIndexedArgs)
  | opVectorStoreStride (args : VStoreStrideArgs)
  | opVectorStoreUnitStride (args : VStoreUnitStrideArgs)
  | store (args : StoreArgs)
  | system (args : SystemArgs)
  | undefined
  | vsetivli (args : VsetivliArgs)
  | vsetvl (args : VsetvlArgs)
  | vsetvli (args : VsetvliArgs)
  deriving DecidableEq

end Berberis.Riscv64
