import Berberis.Decoder.Riscv64.Args

/-!
# Compressed Instructions

The functions that decode the instructions of 16 bits. Each is the list of the
calls that it makes.

All but one make a single call. The function for the addition of an immediate
reports that nothing is to be done if the register or the immediate is zero, and
then goes on and reports the addition too.
-/

namespace Berberis.Riscv64

/-- The field of an instruction, as the source shifts it out. -/
def getBits (start size : Nat) (code : BitVec 32) : Nat :=
  ((code <<< (32 - start - size)) >>> (32 - size)).toNat

def getBit (start : Nat) (code : BitVec 32) : Bool := getBits start 1 code != 0

def signExtend (size val : Nat) : Int := (BitVec.ofNat size val).toInt

inductive CompressedOpcode where
  | kAddi4spn
  | kFld
  | kLw
  | kLd
  | kFsd
  | kSw
  | kSd
  | kAddi
  | kAddiw
  | kLi
  | kLuiAddi16sp
  | kMiscAlu
  | kJ
  | kBeqz
  | kBnez
  | kSlli
  | kFldsp
  | kLwsp
  | kLdsp
  | kJrJalrMvAdd
  | kFsdsp
  | kSwsp
  | kSdsp
  deriving DecidableEq

def CompressedOpcode.ofBits? : Nat → Option CompressedOpcode
  | 0b00000 => some .kAddi4spn
  | 0b00100 => some .kFld
  | 0b01000 => some .kLw
  | 0b01100 => some .kLd
  | 0b10100 => some .kFsd
  | 0b11000 => some .kSw
  | 0b11100 => some .kSd
  | 0b00001 => some .kAddi
  | 0b00101 => some .kAddiw
  | 0b01001 => some .kLi
  | 0b01101 => some .kLuiAddi16sp
  | 0b10001 => some .kMiscAlu
  | 0b10101 => some .kJ
  | 0b11001 => some .kBeqz
  | 0b11101 => some .kBnez
  | 0b00010 => some .kSlli
  | 0b00110 => some .kFldsp
  | 0b01010 => some .kLwsp
  | 0b01110 => some .kLdsp
  | 0b10010 => some .kJrJalrMvAdd
  | 0b10110 => some .kFsdsp
  | 0b11010 => some .kSwsp
  | 0b11110 => some .kSdsp
  | _ => none

section Decode

variable (code : BitVec 32)

def decodeCompressedLi : List Callback :=
  let lowImm := getBits 2 5 code
  let highImm := getBits 12 1 code
  let rd := getBits 7 5 code
  let imm := signExtend 6 ((highImm <<< 5) + lowImm)
  [.opImm { opcode := .kAddi, dst := rd, src := 0, imm := imm }]

def zcOpcode? : Nat → Option Opcode
  | 0b11111010 => some .kZexth
  | 0b11111000 => some .kZextb
  | 0b11111100 => some .kZextw
  | 0b11111001 => some .kSextb
  | 0b11111011 => some .kSexth
  | _ => none

def decodeCompressedMiscAlu : List Callback :=
  let r := getBits 7 3 code + 8
  let lowImm := getBits 2 5 code
  let highImm := getBits 12 1 code
  let imm := (highImm <<< 5) + lowImm
  let zcHighOpcodeBits := getBits 10 3 code
  match zcOpcode? (lowImm ||| (zcHighOpcodeBits <<< 5)) with
  | some opcode => [.opSingleInput { opcode := opcode, dst := r, src := r }]
  | none =>
    let rs2 := getBits 2 3 code + 8
    match getBits 10 2 code with
    | 0b00 => [.opImmShift { opcode := .kSrli, dst := r, src := r, imm := imm }]
    | 0b01 => [.opImmShift { opcode := .kSrai, dst := r, src := r, imm := imm }]
    | 0b10 => [.opImm { opcode := .kAndi, dst := r, src := r, imm := signExtend 6 imm }]
    | _ =>
      if getBits 12 1 code = 0 then
        match getBits 5 2 code with
        | 0b00 => [.op { opcode := .kSub, dst := r, src1 := r, src2 := rs2 }]
        | 0b01 => [.op { opcode := .kXor, dst := r, src1 := r, src2 := rs2 }]
        | 0b10 => [.op { opcode := .kOr, dst := r, src1 := r, src2 := rs2 }]
        | _ => [.op { opcode := .kAnd, dst := r, src1 := r, src2 := rs2 }]
      else
        match getBits 5 2 code with
        | 0b00 => [.op { opcode := .kSubw, dst := r, src1 := r, src2 := rs2 }]
        | 0b01 => [.op { opcode := .kAddw, dst := r, src1 := r, src2 := rs2 }]
        | _ => [.undefined]

def storespK32bit : List Nat :=
  [0x00, 0x10, 0x20, 0x30, 0x01, 0x11, 0x21, 0x31, 0x02, 0x12, 0x22, 0x32, 0x03,
    0x13, 0x23, 0x33, 0x04, 0x14, 0x24, 0x34, 0x05, 0x15, 0x25, 0x35, 0x06, 0x16,
    0x26, 0x36, 0x07, 0x17, 0x27, 0x37, 0x08, 0x18, 0x28, 0x38, 0x09, 0x19, 0x29,
    0x39, 0x0a, 0x1a, 0x2a, 0x3a, 0x0b, 0x1b, 0x2b, 0x3b, 0x0c, 0x1c, 0x2c, 0x3c,
    0x0d, 0x1d, 0x2d, 0x3d, 0x0e, 0x1e, 0x2e, 0x3e, 0x0f, 0x1f, 0x2f, 0x3f]

def storespK64bit : List Nat :=
  [0x00, 0x10, 0x20, 0x30, 0x40, 0x50, 0x60, 0x70, 0x02, 0x12, 0x22, 0x32, 0x42,
    0x52, 0x62, 0x72, 0x04, 0x14, 0x24, 0x34, 0x44, 0x54, 0x64, 0x74, 0x06, 0x16,
    0x26, 0x36, 0x46, 0x56, 0x66, 0x76, 0x08, 0x18, 0x28, 0x38, 0x48, 0x58, 0x68,
    0x78, 0x0a, 0x1a, 0x2a, 0x3a, 0x4a, 0x5a, 0x6a, 0x7a, 0x0c, 0x1c, 0x2c, 0x3c,
    0x4c, 0x5c, 0x6c, 0x7c, 0x0e, 0x1e, 0x2e, 0x3e, 0x4e, 0x5e, 0x6e, 0x7e]

def decodeCompressedStoresp (operandType : OperandType) : List Callback :=
  let rawImm := getBits 7 6 code
  let rs2 := getBits 2 5 code
  let table := if operandType.bits &&& 1 = 0 then storespK32bit else storespK64bit
  let imm := table.getD rawImm 0 <<< 2
  [.store { operandType := operandType, src := 2, offset := imm, data := rs2 }]

def kAddi16spLow : List Nat :=
  [0x00, 0x08, 0x20, 0x28, 0x40, 0x48, 0x60, 0x68,
    0x10, 0x18, 0x30, 0x38, 0x50, 0x58, 0x70, 0x78,
    0x04, 0x0c, 0x24, 0x2c, 0x44, 0x4c, 0x64, 0x6c,
    0x14, 0x1c, 0x34, 0x3c, 0x54, 0x5c, 0x74, 0x7c]

def decodeCompressedLuiAddi16sp : List Callback :=
  let lowImm := getBits 2 5 code
  let highImm := getBits 12 1 code
  let rd := getBits 7 5 code
  if rd ≠ 2 then
    let imm := signExtend 18 ((highImm <<< 17) + (lowImm <<< 12))
    [.lui { dst := rd, imm := imm }]
  else
    let imm := signExtend 10 ((highImm <<< 9) + (kAddi16spLow.getD lowImm 0 <<< 2))
    [.opImm { opcode := .kAddi, dst := 2, src := 2, imm := imm }]

inductive LoadStore where
  | kLoad
  | kStore
  deriving DecidableEq

def kLwLow : List Nat := [0x0, 0x40, 0x04, 0x44]

def decodeCompressedLoadStore (loadStore : LoadStore) (operandType : OperandType) :
    List Callback :=
  let lowImm := getBits 5 2 code
  let highImm := getBits 10 3 code
  let imm :=
    if operandType.bits &&& 1 = 0 then kLwLow.getD lowImm 0 ||| highImm <<< 3
    else lowImm <<< 6 ||| highImm <<< 3
  let rd := getBits 2 3 code
  let rs := getBits 7 3 code
  match loadStore with
  | .kStore => [.store { operandType := operandType, src := 8 + rs, offset := imm, data := 8 + rd }]
  | .kLoad => [.load { operandType := operandType, dst := 8 + rd, src := 8 + rs, offset := imm }]

def loadspK32bitLow : List Nat :=
  [0x00, 0x10, 0x20, 0x30, 0x01, 0x11, 0x21, 0x31,
    0x02, 0x12, 0x22, 0x32, 0x03, 0x13, 0x23, 0x33,
    0x04, 0x14, 0x24, 0x34, 0x05, 0x15, 0x25, 0x35,
    0x06, 0x16, 0x26, 0x36, 0x07, 0x17, 0x27, 0x37]

def loadspK64bitLow : List Nat :=
  [0x00, 0x10, 0x20, 0x30, 0x40, 0x50, 0x60, 0x70,
    0x02, 0x12, 0x22, 0x32, 0x42, 0x52, 0x62, 0x72,
    0x04, 0x14, 0x24, 0x34, 0x44, 0x54, 0x64, 0x74,
    0x06, 0x16, 0x26, 0x36, 0x46, 0x56, 0x66, 0x76]

def decodeCompressedLoadsp (operandType : OperandType) : List Callback :=
  let lowImm := getBits 2 5 code
  let highImm := getBits 12 1 code
  let rd := getBits 7 5 code
  let table := if operandType.bits &&& 1 = 0 then loadspK32bitLow else loadspK64bitLow
  let imm := (highImm <<< 5) + (table.getD lowImm 0 <<< 2)
  [.load { operandType := operandType, dst := rd, src := 2, offset := imm }]

def decodeCompressedAddi : List Callback :=
  let lowImm := getBits 2 5 code
  let highImm := getBits 12 1 code
  let imm := signExtend 6 (highImm <<< 5 ||| lowImm)
  let r := getBits 7 5 code
  -- The source does not return here.
  (if r = 0 ∨ imm = 0 then [.nop] else []) ++
    [.opImm { opcode := .kAddi, dst := r, src := r, imm := imm }]

def decodeCompressedAddiw : List Callback :=
  let lowImm := getBits 2 5 code
  let highImm := getBits 12 1 code
  let imm := signExtend 6 (highImm <<< 5 ||| lowImm)
  let r := getBits 7 5 code
  [.opImm { opcode := .kAddiw, dst := r, src := r, imm := imm }]

def kBHigh : List Nat := [0x0, 0x8, 0x10, 0x18, 0x100, 0x108, 0x110, 0x118]

def kBLow : List Nat :=
  [0x00, 0x20, 0x02, 0x22, 0x04, 0x24, 0x06, 0x26, 0x40, 0x60, 0x42,
    0x62, 0x44, 0x64, 0x46, 0x66, 0x80, 0xa0, 0x82, 0xa2, 0x84, 0xa4,
    0x86, 0xa6, 0xc0, 0xe0, 0xc2, 0xe2, 0xc4, 0xe4, 0xc6, 0xe6]

def decodeCompressedBeqzBnez : List Callback :=
  let lowImm := getBits 2 5 code
  let highImm := getBits 10 3 code
  let rs := getBits 7 3 code
  [.compareAndBranch
    { opcode := ⟨.branch, getBits 13 1 code⟩
      src1 := 8 + rs
      src2 := 0
      offset := signExtend 9 (kBHigh.getD highImm 0 + kBLow.getD lowImm 0) }]

def kJHigh : List Nat :=
  [0x0, 0x400, 0x100, 0x500, 0x200, 0x600, 0x300, 0x700, 0x10, 0x410, 0x110,
    0x510, 0x210, 0x610, 0x310, 0x710, 0xf800, 0xfc00, 0xf900, 0xfd00, 0xfa00, 0xfe00,
    0xfb00, 0xff00, 0xf810, 0xfc10, 0xf910, 0xfd10, 0xfa10, 0xfe10, 0xfb10, 0xff10]

def kJLow : List Nat :=
  [0x0, 0x20, 0x2, 0x22, 0x4, 0x24, 0x6, 0x26, 0x8, 0x28, 0xa, 0x2a, 0xc,
    0x2c, 0xe, 0x2e, 0x80, 0xa0, 0x82, 0xa2, 0x84, 0xa4, 0x86, 0xa6, 0x88, 0xa8,
    0x8a, 0xaa, 0x8c, 0xac, 0x8e, 0xae, 0x40, 0x60, 0x42, 0x62, 0x44, 0x64, 0x46,
    0x66, 0x48, 0x68, 0x4a, 0x6a, 0x4c, 0x6c, 0x4e, 0x6e, 0xc0, 0xe0, 0xc2, 0xe2,
    0xc4, 0xe4, 0xc6, 0xe6, 0xc8, 0xe8, 0xca, 0xea, 0xcc, 0xec, 0xce, 0xee]

def decodeCompressedJ : List Callback :=
  let high := (BitVec.ofNat 16 (kJHigh.getD (getBits 8 5 code) 0)).signExtend 32
  let low := BitVec.ofNat 32 (kJLow.getD (getBits 2 6 code) 0)
  [.jumpAndLink { dst := 0, offset := (high ||| low).toInt, insnLen := 2 }]

def kAddi4spnHigh : List Nat :=
  [0x0, 0x40, 0x80, 0xc0, 0x4, 0x44, 0x84, 0xc4, 0x8, 0x48, 0x88, 0xc8, 0xc, 0x4c, 0x8c, 0xcc]

def kAddi4spnLow : List Nat :=
  [0x0, 0x2, 0x1, 0x3, 0x10, 0x12, 0x11, 0x13, 0x20, 0x22, 0x21, 0x23, 0x30, 0x32, 0x31, 0x33]

def decodeCompressedAddi4spn : List Callback :=
  let imm :=
    (kAddi4spnHigh.getD (getBits 9 4 code) 0 ||| kAddi4spnLow.getD (getBits 5 4 code) 0) <<< 2
  -- This includes the dedicated undefined instruction 0x0000.
  if imm = 0 then [.undefined]
  else [.opImm { opcode := .kAddi, dst := 8 + getBits 2 3 code, src := 2, imm := imm }]

def decodeCompressedJrJalrMvAdd : List Callback :=
  let r := getBits 7 5 code
  let rs2 := getBits 2 5 code
  if getBit 12 code then
    if r = 0 ∧ rs2 = 0 then [.system { opcode := .kEbreak }]
    else if rs2 = 0 then
      [.jumpAndLinkRegister { dst := 1, base := r, offset := 0, insnLen := 2 }]
    else [.op { opcode := .kAdd, dst := r, src1 := r, src2 := rs2 }]
  else
    if rs2 = 0 then [.jumpAndLinkRegister { dst := 0, base := r, offset := 0, insnLen := 2 }]
    else [.op { opcode := .kAdd, dst := r, src1 := 0, src2 := rs2 }]

def decodeCompressedSlli : List Callback :=
  let r := getBits 7 5 code
  let lowImm := getBits 2 5 code
  let highImm := getBits 12 1 code
  let imm := (highImm <<< 5) + lowImm
  [.opImmShift { opcode := .kSlli, dst := r, src := r, imm := imm }]

def compressedOpcodeBits : Nat := (getBits 13 3 code <<< 2) ||| getBits 0 2 code

def decodeCompressedInstruction : List Callback :=
  match CompressedOpcode.ofBits? (compressedOpcodeBits code) with
  | some .kAddi4spn => decodeCompressedAddi4spn code
  | some .kFld => decodeCompressedLoadStore code .kLoad .kDouble
  | some .kLw => decodeCompressedLoadStore code .kLoad .kLoad32bitSigned
  | some .kLd => decodeCompressedLoadStore code .kLoad .kLoad64bit
  | some .kFsd => decodeCompressedLoadStore code .kStore .kDouble
  | some .kSw => decodeCompressedLoadStore code .kStore .k32bit
  | some .kSd => decodeCompressedLoadStore code .kStore .k64bit
  | some .kAddi => decodeCompressedAddi code
  | some .kAddiw => decodeCompressedAddiw code
  | some .kLi => decodeCompressedLi code
  | some .kLuiAddi16sp => decodeCompressedLuiAddi16sp code
  | some .kMiscAlu => decodeCompressedMiscAlu code
  | some .kJ => decodeCompressedJ code
  | some .kBeqz => decodeCompressedBeqzBnez code
  | some .kBnez => decodeCompressedBeqzBnez code
  | some .kSlli => decodeCompressedSlli code
  | some .kFldsp => decodeCompressedLoadsp code .kDouble
  | some .kLwsp => decodeCompressedLoadsp code .kLoad32bitSigned
  | some .kLdsp => decodeCompressedLoadsp code .kLoad64bit
  | some .kJrJalrMvAdd => decodeCompressedJrJalrMvAdd code
  | some .kFsdsp => decodeCompressedStoresp code .kDouble
  | some .kSwsp => decodeCompressedStoresp code .k32bit
  | some .kSdsp => decodeCompressedStoresp code .k64bit
  | none => [.undefined]

end Decode

section Calls

variable (code : BitVec 32)

/-- An addition of an immediate that does nothing: to the zero register, or of zero. -/
def IsNopAddi : Prop :=
  compressedOpcodeBits code = 0b00001 ∧
    (getBits 7 5 code = 0 ∨ signExtend 6 (getBits 12 1 code <<< 5 ||| getBits 2 5 code) = 0)

instance : Decidable (IsNopAddi code) := inferInstanceAs (Decidable (_ ∧ _))

theorem CompressedOpcode.ofBits?_eq_kAddi {bits : Nat}
    (h : CompressedOpcode.ofBits? bits = some .kAddi) : bits = 0b00001 := by
  unfold CompressedOpcode.ofBits? at h
  split at h
  all_goals first | rfl | cases h

theorem length_decodeCompressedMiscAlu : (decodeCompressedMiscAlu code).length = 1 := by
  unfold decodeCompressedMiscAlu
  dsimp only
  split
  · rfl
  · split
    · rfl
    · rfl
    · rfl
    · split
      · split <;> rfl
      · split <;> rfl

theorem length_decodeCompressedLuiAddi16sp : (decodeCompressedLuiAddi16sp code).length = 1 := by
  unfold decodeCompressedLuiAddi16sp
  dsimp only
  split <;> rfl

theorem length_decodeCompressedLoadStore (loadStore : LoadStore) (operandType : OperandType) :
    (decodeCompressedLoadStore code loadStore operandType).length = 1 := by
  cases loadStore <;> rfl

theorem length_decodeCompressedAddi : (decodeCompressedAddi code).length =
      if getBits 7 5 code = 0 ∨
          signExtend 6 (getBits 12 1 code <<< 5 ||| getBits 2 5 code) = 0 then 2
      else 1 := by
  unfold decodeCompressedAddi
  dsimp only
  split <;> rfl

theorem length_decodeCompressedAddi4spn : (decodeCompressedAddi4spn code).length = 1 := by
  unfold decodeCompressedAddi4spn
  dsimp only
  split <;> rfl

theorem length_decodeCompressedJrJalrMvAdd : (decodeCompressedJrJalrMvAdd code).length = 1 := by
  unfold decodeCompressedJrJalrMvAdd
  dsimp only
  split
  · split
    · rfl
    · split <;> rfl
  · split <;> rfl

theorem length_decodeCompressedInstruction :
    (decodeCompressedInstruction code).length = if IsNopAddi code then 2 else 1 := by
  unfold decodeCompressedInstruction
  rcases hop : CompressedOpcode.ofBits? (compressedOpcodeBits code) with _ | opcode
  · -- No opcode of this enumeration, hence none of the additions.
    have hne : ¬IsNopAddi code := by
      rintro ⟨hbits, -⟩
      rw [hbits] at hop
      cases hop
    rw [if_neg hne]
    rfl
  by_cases haddi : opcode = .kAddi
  · subst haddi
    have hbits := CompressedOpcode.ofBits?_eq_kAddi hop
    rw [length_decodeCompressedAddi]
    simp only [IsNopAddi, hbits, true_and]
  · have hne : ¬IsNopAddi code := by
      rintro ⟨hbits, -⟩
      rw [hbits] at hop
      exact haddi (Option.some.inj hop).symm
    rw [if_neg hne]
    cases opcode with
    | kAddi4spn => exact length_decodeCompressedAddi4spn code
    | kFld | kLw | kLd | kFsd | kSw | kSd => exact length_decodeCompressedLoadStore code _ _
    | kAddi => exact absurd rfl haddi
    | kLuiAddi16sp => exact length_decodeCompressedLuiAddi16sp code
    | kMiscAlu => exact length_decodeCompressedMiscAlu code
    | kJrJalrMvAdd => exact length_decodeCompressedJrJalrMvAdd code
    | _ => rfl

end Calls

end Berberis.Riscv64
