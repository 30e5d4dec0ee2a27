import Berberis.Decoder.Riscv64.DecodeCompressed

/-!
# The Decoder

The functions that decode the instructions of 32 bits, and the decoder. All but
one of the functions make a single call. The function for vector arithmetic has
no case for an instruction that would set the vector type from registers and has
other bits set: it returns without a call.

## Theorems

* `length_decodeBaseInstruction`: The number of calls.
* `decode_calls_once`: Which instructions are reported with one call.
-/

namespace Berberis.Riscv64

inductive BaseOpcode where
  | kLoad
  | kLoadFp
  | kCustom0
  | kMiscMem
  | kOpImm
  | kAuipc
  | kOpImm32
  | kStore
  | kStoreFp
  | kCustom1
  | kAmo
  | kOp
  | kLui
  | kOp32
  | kMAdd
  | kMSub
  | kNmSub
  | kNmAdd
  | kOpFp
  | vOpV
  | kCustom2
  | kBranch
  | kJalr
  | kJal
  | kSystem
  | kCustom3
  deriving DecidableEq

def BaseOpcode.ofBits? : Nat → Option BaseOpcode
  | 0b00000 => some .kLoad
  | 0b00001 => some .kLoadFp
  | 0b00010 => some .kCustom0
  | 0b00011 => some .kMiscMem
  | 0b00100 => some .kOpImm
  | 0b00101 => some .kAuipc
  | 0b00110 => some .kOpImm32
  | 0b01000 => some .kStore
  | 0b01001 => some .kStoreFp
  | 0b01010 => some .kCustom1
  | 0b01011 => some .kAmo
  | 0b01100 => some .kOp
  | 0b01101 => some .kLui
  | 0b01110 => some .kOp32
  | 0b10000 => some .kMAdd
  | 0b10001 => some .kMSub
  | 0b10010 => some .kNmSub
  | 0b10011 => some .kNmAdd
  | 0b10100 => some .kOpFp
  | 0b10101 => some .vOpV
  | 0b10110 => some .kCustom2
  | 0b11000 => some .kBranch
  | 0b11001 => some .kJalr
  | 0b11011 => some .kJal
  | 0b11100 => some .kSystem
  | 0b11110 => some .kCustom3
  | _ => none

/-- What the width of a load or store of the floating-point opcodes stands for. -/
inductive LoadStoreWidth where
  | vector (eew : OperandType)
  | scalar (size : OperandType)
  deriving DecidableEq

def kLoadStoreWidthToOperandType : Nat → LoadStoreWidth
  | 0 => .vector .k8bit
  | 1 => .scalar .kHalf
  | 2 => .scalar .kFloat
  | 3 => .scalar .kDouble
  | 4 => .scalar .kQuad
  | 5 => .vector .k16bit
  | 6 => .vector .k32bit
  | _ => .vector .k64bit

section Decode

variable (code : BitVec 32)

def decodeMiscMem : List Callback :=
  match getBits 12 3 code with
  | 0b000 =>
    [.fence
      { opcode := ⟨.fence, getBits 28 4 code⟩
        dst := getBits 7 5 code
        src := getBits 15 5 code
        sw := getBit 20 code
        sr := getBit 21 code
        so := getBit 22 code
        si := getBit 23 code
        pw := getBit 24 code
        pr := getBit 25 code
        po := getBit 26 code
        pi := getBit 27 code }]
  | 0b001 =>
    [.fenceI
      { dst := getBits 7 5 code
        src := getBits 15 5 code
        imm := signExtend 12 (getBits 20 12 code) }]
  | _ => [.undefined]

def decodeSingleInputOp (opcode : Opcode) : List Callback :=
  let src1 := getBits 15 5 code
  let src2 := getBits 20 5 code
  if src2 ≠ 0 then [.undefined]
  else [.opSingleInput { opcode := opcode, dst := getBits 7 5 code, src := src1 }]

/-- The template for operations of two registers, with the type of its opcode. -/
def decodeOp (opcodeType : OpcodeType) : List Callback :=
  let lowOpcode := getBits 12 3 code
  let highOpcode := getBits 25 7 code
  let opcodeBits := lowOpcode ||| (highOpcode <<< 3)
  let singleInputOpcode : Opcode := ⟨.opSingleInput, opcodeBits⟩
  if singleInputOpcode = .kZexth then decodeSingleInputOp code singleInputOpcode
  else
    [.op
      { opcode := ⟨opcodeType, opcodeBits⟩
        dst := getBits 7 5 code
        src1 := getBits 15 5 code
        src2 := getBits 20 5 code }]

def decodeAmo : List Callback :=
  let lowOpcode := getBits 12 3 code
  let highOpcode := getBits 27 5 code
  -- The second operand of a load is not used, and has to be zero.
  if highOpcode = 0b00010 ∧ getBits 20 5 code ≠ 0 then [.undefined]
  else
    [.amo
      { opcode := ⟨.amo, highOpcode⟩
        operandType := .memoryData lowOpcode
        dst := getBits 7 5 code
        src1 := getBits 15 5 code
        src2 := getBits 20 5 code
        rl := getBit 25 code
        aq := getBit 26 code }]

def decodeFma : List Callback :=
  [.fma
    { opcode := ⟨.fma, getBits 2 2 code⟩
      operandType := .float (getBits 25 2 code)
      dst := getBits 7 5 code
      src1 := getBits 15 5 code
      src2 := getBits 20 5 code
      src3 := getBits 27 5 code
      rm := getBits 12 3 code }]

def upperImmArgs : UpperImmArgs :=
  { dst := getBits 7 5 code, imm := signExtend 32 (getBits 12 20 code <<< 12) }

def decodeLui : List Callback := [.lui (upperImmArgs code)]

def decodeAuipc : List Callback := [.auipc (upperImmArgs code)]

def decodeVectorLoad (eew : OperandType) : List Callback :=
  if getBits 28 1 code = 1 then [.undefined]
  else
    match getBits 26 2 code with
    | 0b00 =>
      [.opVectorLoadUnitStride
        { opcode := ⟨.vLUmOp, getBits 20 5 code⟩
          width := eew
          vm := getBit 25 code
          nf := getBits 29 3 code
          dst := getBits 7 5 code
          src := getBits 15 5 code }]
    | 0b10 =>
      [.opVectorLoadStride
        { width := eew
          vm := getBit 25 code
          ordered := getBit 27 code
          nf := getBits 29 3 code
          dst := getBits 7 5 code
          src := getBits 15 5 code
          std := getBits 20 5 code }]
    | _ =>
      -- Both other values of the two bits.
      [.opVectorLoadIndexed
        { width := eew
          vm := getBit 25 code
          ordered := getBit 27 code
          nf := getBits 29 3 code
          dst := getBits 7 5 code
          src := getBits 15 5 code
          idx := getBits 20 5 code }]

def decodeScalarLoad (operandType : OperandType) : List Callback :=
  [.load
    { operandType := operandType
      dst := getBits 7 5 code
      src := getBits 15 5 code
      offset := signExtend 12 (getBits 20 12 code) }]

/-- The template for loads, with the type of floating-point operands. -/
def decodeLoadFp : List Callback :=
  match kLoadStoreWidthToOperandType (getBits 12 3 code) with
  | .vector eew => decodeVectorLoad code eew
  | .scalar size => decodeScalarLoad code size

def decodeLoad : List Callback := decodeScalarLoad code (.load (getBits 12 3 code))

def decodeVectorStore (eew : OperandType) : List Callback :=
  if getBits 28 1 code = 1 then [.undefined]
  else
    match getBits 26 2 code with
    | 0b00 =>
      [.opVectorStoreUnitStride
        { opcode := ⟨.vSUmOp, getBits 20 5 code⟩
          width := eew
          vm := getBit 25 code
          nf := getBits 29 3 code
          src := getBits 15 5 code
          data := getBits 7 5 code }]
    | 0b10 =>
      [.opVectorStoreStride
        { width := eew
          vm := getBit 25 code
          ordered := getBit 27 code
          nf := getBits 29 3 code
          src := getBits 15 5 code
          std := getBits 20 5 code
          data := getBits 7 5 code }]
    | _ =>
      [.opVectorStoreIndexed
        { width := eew
          vm := getBit 25 code
          ordered := getBit 27 code
          nf := getBits 29 3 code
          src := getBits 15 5 code
          idx := getBits 20 5 code
          data := getBits 7 5 code }]

def decodeScalarStore (operandType : OperandType) : List Callback :=
  let lowImm := getBits 7 5 code
  let highImm := getBits 25 7 code
  [.store
    { operandType := operandType
      src := getBits 15 5 code
      offset := signExtend 12 (lowImm ||| (highImm <<< 5))
      data := getBits 20 5 code }]

/-- The template for stores, with the type of floating-point operands. -/
def decodeStoreFp : List Callback :=
  match kLoadStoreWidthToOperandType (getBits 12 3 code) with
  | .vector eew => decodeVectorStore code eew
  | .scalar size => decodeScalarStore code size

def decodeStore : List Callback := decodeScalarStore code (.memoryData (getBits 12 3 code))

/-- The opcodes with a shift amount, of both widths: their values are compared,
    whatever the opcode's type is. -/
def hasShamt (opcodeBits : Nat) : Bool :=
  [0b011000101, 0b010010001, 0b010010101, 0b011010001, 0b001010001, 0b0110000101,
    0b0000100001].contains opcodeBits

/-- The template for operations with an immediate, with the types of its opcodes,
    the bits of the type of the shifts, and the size of the shift's field. -/
def decodeOpImm (opOpcodeType shiftOpcodeType bitmanipOpcodeType : OpcodeType)
    (shiftOpcodeBits shiftFieldSize : Nat) : List Callback :=
  let lowOpcode := getBits 12 3 code
  if lowOpcode ≠ 0b001 ∧ lowOpcode ≠ 0b101 then
    [.opImm
      { opcode := ⟨opOpcodeType, lowOpcode⟩
        dst := getBits 7 5 code
        src := getBits 15 5 code
        imm := signExtend 12 (getBits 20 12 code) }]
  else
    let highOpcode := getBits (20 + shiftFieldSize) (12 - shiftFieldSize) code
    let opcodeBits := lowOpcode ||| (highOpcode <<< 3)
    if getBits 31 1 code + getBits (20 + shiftFieldSize) (10 - shiftFieldSize) code = 0 then
      [.opImmShift
        { opcode := ⟨shiftOpcodeType, opcodeBits % 2 ^ shiftOpcodeBits⟩
          dst := getBits 7 5 code
          src := getBits 15 5 code
          imm := getBits 20 shiftFieldSize code }]
    else
      let withShamt := hasShamt opcodeBits
      [.opImmBitmanip
        { opcode :=
            ⟨bitmanipOpcodeType,
              if withShamt then opcodeBits else lowOpcode ||| (getBits 20 12 code <<< 3)⟩
          dst := getBits 7 5 code
          src := getBits 15 5 code
          shamt := if withShamt then getBits 20 shiftFieldSize code else 0 }]

def decodeBranch : List Callback :=
  let lowImm := getBits 8 4 code
  let midImm := getBits 25 6 code
  let bit11Imm := getBits 7 1 code
  let bit12Imm := getBits 31 1 code
  let offset := lowImm ||| (midImm <<< 4) ||| (bit11Imm <<< 10) ||| (bit12Imm <<< 11)
  [.compareAndBranch
    { opcode := ⟨.branch, getBits 12 3 code⟩
      src1 := getBits 15 5 code
      src2 := getBits 20 5 code
      offset := signExtend 13 (offset * 2) }]

def decodeJumpAndLink : List Callback :=
  let lowImm := getBits 21 10 code
  let midImm := getBits 12 8 code
  let bit11Imm := getBits 20 1 code
  let bit20Imm := getBits 31 1 code
  let offset := lowImm ||| (bit11Imm <<< 10) ||| (midImm <<< 11) ||| (bit20Imm <<< 19)
  [.jumpAndLink
    { dst := getBits 7 5 code, offset := signExtend 21 (offset * 2), insnLen := 4 }]

def decodeOpFp : List Callback :=
  let operandType := getBits 25 2 code
  let opcodeBits := getBits 27 2 code
  let rd := getBits 7 5 code
  let rs1 := getBits 15 5 code
  let rs2 := getBits 20 5 code
  let rm := getBits 12 3 code
  match getBits 29 3 code with
  | 0b000 =>
    [.opFp
      { opcode := ⟨.opFp, opcodeBits⟩
        operandType := .float operandType
        dst := rd
        src1 := rs1
        src2 := rs2
        rm := rm }]
  | 0b001 =>
    let noRoundingOpcode : Opcode := ⟨.opFpNoRounding, (opcodeBits <<< 3) + rm⟩
    if noRoundingOpcode = .kFSgnj ∧ rs1 = rs2 then
      [.opFpSingleInputNoRounding
        { opcode := .kFmv, operandType := .float operandType, dst := rd, src := rs1 }]
    else
      [.opFpNoRounding
        { opcode := noRoundingOpcode
          operandType := .float operandType
          dst := rd
          src1 := rs1
          src2 := rs2 }]
  | 0b010 =>
    if opcodeBits = 0 then
      -- There is no conversion to the same type, and there are four types.
      if operandType = rs2 then [.undefined]
      else if rs2 > 0b11 then [.undefined]
      else
        [.fcvt
          { dstType := .float operandType
            srcType := .float rs2
            dst := rd
            src := rs1
            rm := rm }]
    else
      [.opFpSingleInput
        { opcode := ⟨.opFpSingleInput, (opcodeBits <<< 5) + rs2⟩
          operandType := .float operandType
          dst := rd
          src := rs1
          rm := rm }]
  | 0b101 =>
    [.opFpGpRegisterTargetNoRounding
      { opcode := ⟨.opFpGpRegisterTargetNoRounding, (opcodeBits <<< 3) + rm⟩
        operandType := .float operandType
        dst := rd
        src1 := rs1
        src2 := rs2 }]
  | 0b110 =>
    match opcodeBits with
    | 0b00 =>
      [.fcvt
        { dstType := .fcvt rs2
          srcType := .float operandType
          dst := rd
          src := rs1
          rm := rm }]
    | 0b10 =>
      [.fcvt
        { dstType := .float operandType
          srcType := .fcvt rs2
          dst := rd
          src := rs1
          rm := rm }]
    | _ => [.undefined]
  | 0b111 =>
    let opcode := (opcodeBits <<< 8) + (rs2 <<< 3) + rm
    match rm with
    | 0b001 =>
      [.opFpGpRegisterTargetSingleInputNoRounding
        { opcode := ⟨.opFpGpRegisterTargetSingleInputNoRounding, opcode⟩
          operandType := .float operandType
          dst := rd
          src := rs1 }]
    | 0b000 =>
      if opcodeBits = 0b00 then
        [.fmvFloatToInteger { operandType := .float operandType, dst := rd, src := rs1 }]
      else if opcodeBits = 0b10 then
        [.fmvIntegerToFloat { operandType := .float operandType, dst := rd, src := rs1 }]
      else [.undefined]
    | _ => [.undefined]
  | _ => [.undefined]

def decodeOpV : List Callback :=
  let args (opcodeType : OpcodeType) : VOpArgs :=
    { opcode := ⟨opcodeType, getBits 26 6 code⟩
      vm := getBit 25 code
      dst := getBits 7 5 code
      -- The fields are in the other order in vector instructions.
      src1 := getBits 20 5 code
      src2 := getBits 15 5 code }
  match getBits 12 3 code with
  | 0b000 => [.opVector (args .vOpIVv)]
  | 0b001 => [.opVector (args .vOpFVv)]
  | 0b010 => [.opVector (args .vOpMVv)]
  | 0b011 => [.opVector (args .vOpIVi)]
  | 0b100 => [.opVector (args .vOpIVx)]
  | 0b101 => [.opVector (args .vOpFVf)]
  | 0b110 => [.opVector (args .vOpMVx)]
  | _ =>
    if getBits 31 1 code = 0 then
      [.vsetvli
        { dst := getBits 7 5 code, src := getBits 15 5 code, vtype := getBits 20 11 code }]
    else if getBits 30 1 code = 1 then
      [.vsetivli
        { dst := getBits 7 5 code, avl := getBits 15 5 code, vtype := getBits 20 10 code }]
    else if getBits 25 6 code = 0 then
      [.vsetvl
        { dst := getBits 7 5 code, src1 := getBits 15 5 code, src2 := getBits 20 5 code }]
    else
      -- The source has no other branch.
      []

def decodeSystem : List Callback :=
  let lowOpcode := getBits 12 2 code
  if lowOpcode = 0b00 then [.system { opcode := ⟨.system, getBits 7 25 code⟩ }]
  else if getBit 14 code then
    [.csrImm
      { opcode := ⟨.csrImm, lowOpcode⟩
        dst := getBits 7 5 code
        imm := getBits 15 5 code
        csr := getBits 20 12 code }]
  else
    [.csr
      { opcode := ⟨.csr, lowOpcode⟩
        dst := getBits 7 5 code
        src := getBits 15 5 code
        csr := getBits 20 12 code }]

def decodeJumpAndLinkRegister : List Callback :=
  if getBits 12 3 code ≠ 0b000 then [.undefined]
  else
    [.jumpAndLinkRegister
      { dst := getBits 7 5 code
        base := getBits 15 5 code
        offset := ((BitVec.ofNat 16 (getBits 20 12 code) <<< 4).sshiftRight 4).toInt
        insnLen := 4 }]

def decodeBaseInstruction : List Callback :=
  match BaseOpcode.ofBits? (getBits 2 5 code) with
  | some .kLoad => decodeLoad code
  | some .kLoadFp => decodeLoadFp code
  | some .kMiscMem => decodeMiscMem code
  | some .kOpImm => decodeOpImm code .opImm .shiftImm .bitmanipImm 8 6
  | some .kAuipc => decodeAuipc code
  | some .kOpImm32 => decodeOpImm code .opImm32 .shiftImm32 .bitmanipImm32 16 5
  | some .kStore => decodeStore code
  | some .kStoreFp => decodeStoreFp code
  | some .kAmo => decodeAmo code
  | some .kOp => decodeOp code .op
  | some .kLui => decodeLui code
  | some .kOp32 => decodeOp code .op32
  | some .kMAdd => decodeFma code
  | some .kMSub => decodeFma code
  | some .kNmSub => decodeFma code
  | some .kNmAdd => decodeFma code
  | some .kOpFp => decodeOpFp code
  | some .vOpV => decodeOpV code
  | some .kBranch => decodeBranch code
  | some .kJalr => decodeJumpAndLinkRegister code
  | some .kJal => decodeJumpAndLink code
  | some .kSystem => decodeSystem code
  | _ => [.undefined]

end Decode

def getInsnSize (code : BitVec 16) : Nat := if code &&& 0b11 ≠ 0b11 then 2 else 4

/-- The calls for the instruction that begins with the first half-word, and the
    length that is returned. -/
def decode (first second : BitVec 16) : List Callback × Nat :=
  if getInsnSize first = 2 then (decodeCompressedInstruction (first.setWidth 32), 2)
  else (decodeBaseInstruction (second ++ first), 4)

section Calls

variable (code : BitVec 32)

/-- An instruction that would set the vector type from a register, if it had no other bits set. -/
def IsReservedVsetvl : Prop :=
  getBits 2 5 code = 0b10101 ∧ getBits 12 3 code = 0b111 ∧ getBits 31 1 code = 1 ∧
    getBits 30 1 code = 0 ∧ getBits 25 6 code ≠ 0

instance : Decidable (IsReservedVsetvl code) :=
  inferInstanceAs (Decidable (_ ∧ _ ∧ _ ∧ _ ∧ _))

theorem getBits_lt {start size : Nat} (hsize : size ≤ 32) : getBits start size code < 2 ^ size := by
  unfold getBits
  rw [BitVec.toNat_ushiftRight, Nat.shiftRight_eq_div_pow, Nat.div_lt_iff_lt_mul
    (Nat.two_pow_pos _), ← Nat.pow_add, Nat.add_sub_cancel' hsize]
  exact BitVec.isLt _

theorem BaseOpcode.ofBits?_eq_vOpV {bits : Nat} (h : BaseOpcode.ofBits? bits = some .vOpV) :
    bits = 0b10101 := by
  unfold BaseOpcode.ofBits? at h
  split at h
  all_goals first | rfl | cases h

theorem length_decodeMiscMem : (decodeMiscMem code).length = 1 := by
  unfold decodeMiscMem
  split <;> rfl

theorem length_decodeOp (opcodeType : OpcodeType) : (decodeOp code opcodeType).length = 1 := by
  unfold decodeOp decodeSingleInputOp
  dsimp only
  split
  · split <;> rfl
  · rfl

theorem length_decodeAmo : (decodeAmo code).length = 1 := by
  unfold decodeAmo
  dsimp only
  split <;> rfl

theorem length_decodeLoadFp : (decodeLoadFp code).length = 1 := by
  unfold decodeLoadFp decodeVectorLoad decodeScalarLoad
  split
  · split
    · rfl
    · split <;> rfl
  · rfl

theorem length_decodeStoreFp : (decodeStoreFp code).length = 1 := by
  unfold decodeStoreFp decodeVectorStore decodeScalarStore
  split
  · split
    · rfl
    · split <;> rfl
  · rfl

theorem length_decodeOpImm (opType shiftType bitmanipType : OpcodeType) (opcodeBits size : Nat) :
    (decodeOpImm code opType shiftType bitmanipType opcodeBits size).length = 1 := by
  unfold decodeOpImm
  dsimp only
  split
  · rfl
  · split <;> rfl

theorem length_decodeOpFp : (decodeOpFp code).length = 1 := by
  unfold decodeOpFp
  dsimp only
  split
  · rfl
  · split <;> rfl
  · -- Conversions between floats.
    split
    · split
      · rfl
      · split <;> rfl
    · rfl
  · rfl
  · split <;> rfl
  · split
    · rfl
    · split
      · rfl
      · split <;> rfl
    · rfl
  · rfl

theorem length_decodeOpV : (decodeOpV code).length =
      if getBits 12 3 code = 0b111 ∧ getBits 31 1 code = 1 ∧ getBits 30 1 code = 0 ∧
          getBits 25 6 code ≠ 0 then 0
      else 1 := by
  have hwidth : getBits 12 3 code < 2 ^ 3 := getBits_lt code (by omega)
  have h31 : getBits 31 1 code < 2 ^ 1 := getBits_lt code (by omega)
  have h30 : getBits 30 1 code < 2 ^ 1 := getBits_lt code (by omega)
  unfold decodeOpV
  by_cases hsev : getBits 12 3 code = 7
  · simp only [hsev, true_and]
    by_cases hvsetvli : getBits 31 1 code = 0
    · simp [hvsetvli]
    by_cases hvset : getBits 30 1 code = 1
    · simp [hvsetvli, hvset]
    by_cases hvsetvl : getBits 25 6 code = 0
    · simp [hvsetvli, hvset, hvsetvl]
    · have hone : getBits 31 1 code = 1 := by omega
      have hzero : getBits 30 1 code = 0 := by omega
      simp [hone, hzero, hvsetvl]
  · generalize getBits 12 3 code = width at hwidth hsev
    have hlt : width < 7 := by omega
    interval_cases width <;> rfl

theorem length_decodeSystem : (decodeSystem code).length = 1 := by
  unfold decodeSystem
  dsimp only
  split
  · rfl
  · split <;> rfl

theorem length_decodeJumpAndLinkRegister : (decodeJumpAndLinkRegister code).length = 1 := by
  unfold decodeJumpAndLinkRegister
  split <;> rfl

theorem length_decodeBaseInstruction :
    (decodeBaseInstruction code).length = if IsReservedVsetvl code then 0 else 1 := by
  unfold decodeBaseInstruction
  by_cases hvect : BaseOpcode.ofBits? (getBits 2 5 code) = some .vOpV
  · have hbits := BaseOpcode.ofBits?_eq_vOpV hvect
    rw [hvect]
    rw [length_decodeOpV]
    simp only [IsReservedVsetvl, hbits, true_and]
  · have hne : ¬IsReservedVsetvl code := by
      rintro ⟨hbits, -⟩
      rw [hbits] at hvect
      exact hvect rfl
    rw [if_neg hne]
    rcases hop : BaseOpcode.ofBits? (getBits 2 5 code) with _ | opcode
    · rfl
    · cases opcode with
      | kLoadFp => exact length_decodeLoadFp code
      | kMiscMem => exact length_decodeMiscMem code
      | kOpImm | kOpImm32 => exact length_decodeOpImm code _ _ _ _ _
      | kStoreFp => exact length_decodeStoreFp code
      | kAmo => exact length_decodeAmo code
      | kOp | kOp32 => exact length_decodeOp code _
      | kOpFp => exact length_decodeOpFp code
      | vOpV => exact absurd hop hvect
      | kJalr => exact length_decodeJumpAndLinkRegister code
      | kSystem => exact length_decodeSystem code
      | _ => rfl

end Calls

/-- The length is that of the instruction. It is reported with one call, except
    for the compressed additions that do nothing, which are reported twice, and
    for the reserved vector instructions, which are not reported. -/
theorem decode_calls_once (first second : BitVec 16) :
    (decode first second).2 = (if first &&& 0b11 ≠ 0b11 then 2 else 4) ∧
    ((decode first second).1.length = 1 ↔ (first &&& 0b11 ≠ 0b11 → ¬IsNopAddi (first.setWidth 32)) ∧
      (first &&& 0b11 = 0b11 → ¬IsReservedVsetvl (second ++ first))) := by
  unfold decode getInsnSize
  by_cases hsize : first &&& 0b11 = 0b11
  · simp only [hsize, ne_eq, not_true_eq_false, if_false, false_implies, true_and, true_implies,
      Nat.reduceEqDiff, length_decodeBaseInstruction]
    split <;> simp [*]
  · simp only [hsize, ne_eq, not_false_eq_true, if_true, false_implies, and_true, true_implies,
      length_decodeCompressedInstruction, true_and]
    split <;> simp [*]

/-- Two calls for one instruction, and none for another. -/
theorem decode_calls_twice :
    decode 0x0001 0x0000 = ([.nop, .opImm { opcode := .kAddi, dst := 0, src := 0, imm := 0 }], 2) ∧
    decode 0x7057 0x8200 = ([], 4) := by
  decide

end Berberis.Riscv64
