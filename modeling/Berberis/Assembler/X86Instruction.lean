import Mathlib

/-!
# Instructions of the x86-64 Assembler

An instruction is emitted from its opcode bytes and its arguments. The bytes are
the legacy prefixes, a REX or VEX prefix, the opcode, the ModRM and SIB bytes with
the displacement, and the immediates. The lower three bits of a register's number
stand in the ModRM and SIB bytes, the fourth one in the prefix.
-/

namespace Berberis.X86

/-- One of the sixteen registers, or none. -/
abbrev Register := Option (Fin 16)

namespace Register

/-- The number that the source has for a register. -/
def num : Register → BitVec 8
  | none => 0x80
  | some reg => BitVec.ofNat 8 reg

def noRegister : Register := none

def rsp : Register := some 4

def rbp : Register := some 5

def r12 : Register := some 12

def r13 : Register := some 13

end Register

inductive ScaleFactor where
  | kTimesOne
  | kTimesTwo
  | kTimesFour
  | kTimesEight
  deriving DecidableEq

def ScaleFactor.value : ScaleFactor → BitVec 32
  | .kTimesOne => 0
  | .kTimesTwo => 1
  | .kTimesFour => 2
  | .kTimesEight => 3

structure Operand where
  base : Register
  index : Register
  scale : ScaleFactor
  disp : BitVec 32
  deriving DecidableEq

/-- The types of register arguments. Registers of most sizes need no special rule. -/
inductive RegisterKind where
  | register8Bit
  | sizeAgnosticRegister
  | register64Bit
  deriving DecidableEq

structure RegisterArgument where
  kind : RegisterKind
  reg : Fin 16
  deriving DecidableEq

namespace RegisterArgument

def num (argument : RegisterArgument) : BitVec 8 := Register.num (some argument.reg)

end RegisterArgument

/-- The types of memory arguments: only one of 64 bits needs a special rule. -/
structure MemoryArgument where
  is64Bit : Bool
  operand : Operand
  deriving DecidableEq

inductive ImmediateSize where
  | int8
  | int16
  | int32
  | int64
  deriving DecidableEq

def ImmediateSize.bytes : ImmediateSize → Nat
  | .int8 => 1
  | .int16 => 2
  | .int32 => 4
  | .int64 => 8

inductive Argument where
  | register (argument : RegisterArgument)
  | memory (argument : MemoryArgument)
  | condition (code : BitVec 8)
  | immediate (size : ImmediateSize) (value : BitVec 64)
  deriving DecidableEq

namespace Argument

def register? : Argument → Option RegisterArgument
  | .register argument => some argument
  | _ => none

def memory? : Argument → Option MemoryArgument
  | .memory argument => some argument
  | _ => none

def condition? : Argument → Option (BitVec 8)
  | .condition code => some code
  | _ => none

def immediate? : Argument → Option (ImmediateSize × BitVec 64)
  | .immediate size value => some (size, value)
  | _ => none

end Argument

def emitBytes {w : Nat} (value : BitVec w) (count : Nat) : List (BitVec 8) :=
  (List.range count).map fun i => (value >>> (8 * i)).setWidth 8

def emit8 (value : BitVec 32) : List (BitVec 8) := emitBytes value 1

def emit16 (value : BitVec 32) : List (BitVec 8) := emitBytes value 2

def emit32 (value : BitVec 32) : List (BitVec 8) := emitBytes value 4

section Rex

/-- The bits of the REX prefix for a register that has its fourth bit at the given place. -/
def rexRegister (baseRex : BitVec 8) (argument : RegisterArgument) : BitVec 8 :=
  if argument.num &&& 0b1000 ≠ 0 then
    if argument.kind = .register64Bit then 0b01001000 ||| baseRex else 0b01000000 ||| baseRex
  else if argument.kind = .register8Bit ∧ argument.num > 3 then 0b01000000
  else if argument.kind = .register64Bit then 0b01001000
  else 0

def rexOperand (operand : Operand) : BitVec 8 :=
  let rex := (operand.base.num &&& 0b1000) >>> 3 ||| (operand.index.num &&& 0b1000) >>> 2
  if rex ≠ 0 then 0b01000000 ||| rex else 0

def rexMemory (argument : MemoryArgument) : BitVec 8 :=
  if argument.is64Bit then 0b01001000 ||| rexOperand argument.operand
  else rexOperand argument.operand

def emitRex (registers : List RegisterArgument) (operands : List MemoryArgument) :
    List (BitVec 8) :=
  let rex :=
    match registers, operands with
    | [register0, register1], _ => rexRegister 0b0100 register0 ||| rexRegister 0b0001 register1
    | [register], [memory] => rexRegister 0b0100 register ||| rexMemory memory
    | [register], _ => rexRegister 0b0001 register
    | _, [memory] => rexMemory memory
    | _, _ => 0
  if rex ≠ 0 then [rex] else []

end Rex

def emitVex (byte1 byte2 byte3 : BitVec 8) (regIsOpcodeExtension : Bool)
    (registers : List RegisterArgument) (operands : List MemoryArgument) : List (BitVec 8) :=
  let num (i : Nat) : BitVec 32 := ((registers[i]?).elim 0 RegisterArgument.num).setWidth 32
  let vvvvParameter := 2 - regIsOpcodeExtension.toNat - operands.length
  let vvvv : BitVec 32 := if registers.length > vvvvParameter then num vvvvParameter else 0
  let vex2 : BitVec 32 := byte2.setWidth 32 ||| 0b11100000
  let vex2 : BitVec 32 :=
    match operands with
    | [memory] =>
      let vex2 := vex2 ^^^ ((memory.operand.base.num &&& 0b1000).setWidth 32 <<< 2)
      let vex2 := vex2 ^^^ ((memory.operand.index.num &&& 0b1000).setWidth 32 <<< 3)
      if !regIsOpcodeExtension then vex2 ^^^ ((num 0 &&& 0b1000) <<< 4) else vex2
    | _ =>
      if registers.length > 0 then
        if regIsOpcodeExtension then vex2 ^^^ ((num 0 &&& 0b1000) <<< 2)
        else vex2 ^^^ ((num 0 &&& 0b1000) <<< 4) ^^^ ((num 1 &&& 0b1000) <<< 2)
      else vex2
  if byte1 = 0xc4 ∧ vex2 &&& 0b01111111 = 0b01100001 ∧ byte3 &&& 0b10000000 = 0 then
    emit16 ((0xc5#32 ||| ((vex2 &&& 0b10000000) <<< 8) ||| (byte3.setWidth 32 <<< 8) |||
      0b0111100000000000#32) ^^^ (vvvv <<< 11))
  else
    byte1 ::
      emit16 ((vex2 ||| (byte3.setWidth 32 <<< 8) ||| 0b0111100000000000#32) ^^^ (vvvv <<< 11))

section OperandOp

def isInRangeInt8 (x : BitVec 32) : Bool := (x.setWidth 8).signExtend 32 = x

/-- The bytes with the base, by the function that emits them, and the displacement. -/
def emitBaseIndexDispOperand (emitBase : BitVec 32 → List (BitVec 8))
    (baseModrmAndSib : BitVec 32) (addr : Operand) : List (BitVec 8) :=
  if addr.disp = 0 ∧ addr.base ≠ Register.rbp ∧ addr.base ≠ Register.r13 then
    emitBase baseModrmAndSib
  else if isInRangeInt8 addr.disp then emitBase (baseModrmAndSib ||| 0x40) ++ emit8 addr.disp
  else emitBase (baseModrmAndSib ||| 0x80) ++ emit32 addr.disp

def emitIndexDispOperand (reg : BitVec 32) (addr : Operand) : List (BitVec 8) :=
  emit16 (0x0504#32 ||| (addr.scale.value <<< 14) |||
    ((addr.index.num &&& 7).setWidth 32 <<< 11) |||
      reg) ++
    emit32 addr.disp

/-- The ModRM byte with a register or an opcode extension, and the SIB byte and the
    displacement where they are needed. -/
def emitOperandOp (number : BitVec 32) (addr : Operand) : Option (List (BitVec 8)) :=
  if number > 7 then none
  else
    let reg := number <<< 3
    if addr.index = Register.rsp then none
    else
      some
        (if addr.base ≠ Register.rsp ∧ addr.base ≠ Register.r12 ∧
            addr.index = Register.noRegister then
          if addr.base ≠ Register.noRegister then
            emitBaseIndexDispOperand emit8 ((addr.base.num &&& 7).setWidth 32 ||| reg) addr
          else emit16 (0x2504#32 ||| reg) ++ emit32 addr.disp
        else if addr.index = Register.noRegister then
          emitBaseIndexDispOperand emit16
            (0x2004#32 ||| ((addr.base.num &&& 7).setWidth 32 <<< 8) ||| reg) addr
        else if addr.base = Register.noRegister then emitIndexDispOperand reg addr
        else
          emitBaseIndexDispOperand emit16
            (0x04#32 ||| (addr.scale.value <<< 14) |||
              ((addr.index.num &&& 7).setWidth 32 <<< 11) |||
              ((addr.base.num &&& 7).setWidth 32 <<< 8) ||| reg)
            addr)

end OperandOp

def emitRegisterInOpcode (opcode : BitVec 8) (argument : RegisterArgument) : List (BitVec 8) :=
  [opcode ||| (argument.num &&& 0b111)]

def emitModRM (argument1 argument2 : RegisterArgument) : List (BitVec 8) :=
  [0xc0#8 ||| ((argument1.num &&& 0b111) <<< 3) ||| (argument2.num &&& 0b111)]

def emitModRMExtension (opcodeExtension : BitVec 8) (argument : RegisterArgument) :
    Option (List (BitVec 8)) :=
  if opcodeExtension > 0b111 then none
  else some [0xc0#8 ||| (opcodeExtension <<< 3) ||| (argument.num &&& 0b111)]

def emitImmediates (immediates : List (ImmediateSize × BitVec 64)) : List (BitVec 8) :=
  immediates.flatMap fun immediate => emitBytes immediate.2 immediate.1.bytes

def isLegacyPrefix (code : BitVec 8) : Bool :=
  code = 0x66 || code = 0xf2 || code = 0xf3 || code = 0xf0

/-- What is known of an instruction when it is compiled. -/
structure Form where
  legacyPrefixes : List (BitVec 8)
  /-- The opcode bytes after the legacy prefixes. -/
  opcodes : List (BitVec 8)
  registers : List RegisterArgument
  operands : List MemoryArgument
  conditions : List (BitVec 8)
  immediates : List (ImmediateSize × BitVec 64)

namespace Form

def ofArguments (opcodes : List (BitVec 8)) (arguments : List Argument) : Form :=
  { legacyPrefixes := opcodes.takeWhile isLegacyPrefix
    opcodes := opcodes.dropWhile isLegacyPrefix
    registers := arguments.filterMap Argument.register?
    operands := arguments.filterMap Argument.memory?
    conditions := arguments.filterMap Argument.condition?
    immediates := arguments.filterMap Argument.immediate? }

variable (form : Form)

def kVexOrXop : Bool :=
  3 ≤ form.opcodes.length ∧ (form.opcodes[0]? = some 0xc4 ∨ form.opcodes[0]? = some 0x8f)

/-- The subtraction does not wrap around, as the main opcode follows three bytes. -/
def regIsOpcodeExtension : Bool :=
  form.registers.length + form.operands.length > 0 ∧
    form.registers.length + form.operands.length <
      2 + form.kVexOrXop.toNat * (form.opcodes.length - 4)

def kOpcodeExtensionsCount : Nat :=
  if form.kVexOrXop then 3
  else if form.opcodes[0]? = some 0x0f then
    if form.opcodes[1]? = some 0x38 ∨ form.opcodes[1]? = some 0x3a then 2 else 1
  else 0

/-- The static assertions, and that the bytes that are read are there. -/
structure Supported : Prop where
  operands : form.operands.length ≤ 1
  conditions : form.conditions.length ≤ if form.kVexOrXop then 0 else 1
  arguments : form.registers.length + form.operands.length ≤ if form.kVexOrXop then 4 else 2
  opcode : form.kOpcodeExtensionsCount < form.opcodes.length
  extension : form.regIsOpcodeExtension → form.opcodes.length = form.kOpcodeExtensionsCount + 2
  last : form.opcodes.length ≤ form.kOpcodeExtensionsCount + 2
  immediates : form.registers.length + form.operands.length = 4 → form.immediates.length ≤ 1

def opcode (i : Nat) : BitVec 8 := form.opcodes.getD i 0

def emitPrefix : List (BitVec 8) :=
  if form.kVexOrXop then
    emitVex (form.opcode 0) (form.opcode 1) (form.opcode 2) form.regIsOpcodeExtension
      form.registers form.operands
  else
    emitRex form.registers form.operands ++ form.opcodes.take form.kOpcodeExtensionsCount

def emitOpcode : Option (List (BitVec 8)) :=
  match form.conditions with
  | conditionCode :: _ =>
    if conditionCode &&& 0xf0 ≠ 0 then none
    else some [form.opcode form.kOpcodeExtensionsCount ||| conditionCode]
  | [] => some [form.opcode form.kOpcodeExtensionsCount]

def emitOperands : Option (List (BitVec 8)) :=
  let extension := form.opcode (form.kOpcodeExtensionsCount + 1)
  if form.regIsOpcodeExtension then
    match form.operands, form.registers with
    | memory :: _, _ => emitOperandOp (extension.setWidth 32) memory.operand
    | [], register :: _ => emitModRMExtension extension register
    | [], [] => some []
  else
    match form.registers, form.operands with
    | register :: _, memory :: _ =>
      emitOperandOp ((register.num &&& 0b111).setWidth 32) memory.operand
    | register0 :: register1 :: _, [] => some (emitModRM register0 register1)
    | _, _ => some []

/-- What comes after the operand: a last opcode byte, and the immediates or the byte
    with a fourth register. -/
def emitLast : List (BitVec 8) :=
  let lastOpcode :=
    if !form.regIsOpcodeExtension ∧ form.opcodes.length > form.kOpcodeExtensionsCount + 1 then
      [form.opcode (form.kOpcodeExtensionsCount + 1)]
    else []
  if form.registers.length + form.operands.length = 4 then
    let num := (form.registers.getLast?).elim 0 RegisterArgument.num
    match form.immediates with
    | (_, value) :: _ => lastOpcode ++ [num <<< 4 ||| value.setWidth 8]
    | [] => lastOpcode ++ [num <<< 4]
  else lastOpcode ++ emitImmediates form.immediates

/-- All bytes of the instruction, unless a check fails. -/
def emitInstruction : Option (List (BitVec 8)) := do
  let first := form.legacyPrefixes ++ form.emitPrefix
  match form.registers, form.operands with
  | [register], [] =>
    if form.opcodes.length = form.kOpcodeExtensionsCount + 1 then
      -- The register's number is in the opcode.
      return first ++ emitRegisterInOpcode (form.opcode form.kOpcodeExtensionsCount) register ++
        emitImmediates form.immediates
    else
      return first ++ (← form.emitOpcode) ++ (← form.emitOperands) ++ form.emitLast
  | _, _ => return first ++ (← form.emitOpcode) ++ (← form.emitOperands) ++ form.emitLast

end Form

end Berberis.X86
