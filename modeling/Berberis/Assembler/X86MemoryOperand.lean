import Berberis.Lib.BitRange
import Berberis.Assembler.X86Instruction

/-!
# Memory Operands of x86-64 Instructions

The rules by which a processor finds the operands in the bytes of an instruction,
and that it finds those that the assembler was given.

## Theorems

* `decode_rex`, `decodePrefix_emitVex`: The registers' fourth bits are found.
* `decodeInstruction_emitInstruction`: The instruction is found, and its bytes end
  where the assembler has ended them.
-/

namespace Berberis.X86

open List Register

local instance neZeroRegisters : NeZero 16 := ⟨by omega⟩

section Decoder

/-- The fields of a VEX prefix that are not about registers of the operand. -/
structure VexFields where
  opcodeMap : Nat
  vvvv : Nat
  /-- The vector length and the implied prefix. -/
  lpp : Nat
  deriving DecidableEq

/-- What a REX or VEX prefix tells, or the lack of one. -/
structure Extension where
  vex : Option VexFields
  /-- There is a REX prefix. -/
  rex : Bool
  w : Bool
  r : Bool
  x : Bool
  b : Bool
  deriving DecidableEq

def decodePrefix : List (BitVec 8) → Option (Extension × List (BitVec 8))
  | [] => none
  | byte :: stream =>
    if byte = 0xc5 then
      match stream with
      | byte1 :: stream =>
        some (⟨some ⟨1, 15 - byte1.toNat / 8 % 16, byte1.toNat % 8⟩, false, false,
          !byte1.getLsbD 7, false, false⟩, stream)
      | _ => none
    else if byte = 0xc4 then
      match stream with
      | byte1 :: byte2 :: stream =>
        some (⟨some ⟨byte1.toNat % 32, 15 - byte2.toNat / 8 % 16, byte2.toNat % 8⟩,
          false, byte2.getLsbD 7, !byte1.getLsbD 7, !byte1.getLsbD 6, !byte1.getLsbD 5⟩, stream)
      | _ => none
    else if byte.toNat / 16 = 4 then
      some (⟨none, true, byte.getLsbD 3, byte.getLsbD 2, byte.getLsbD 1, byte.getLsbD 0⟩, stream)
    else some (⟨none, false, false, false, false, false⟩, byte :: stream)

/-- The opcode is one byte after a VEX prefix. Without one, it may be preceded by one
    or two others. -/
def decodeOpcode (isVex : Bool) (stream : List (BitVec 8)) :
    Option (List (BitVec 8) × List (BitVec 8)) :=
  let count :=
    if isVex then 1
    else if stream[0]? = some 0x0f then
      if stream[1]? = some 0x38 ∨ stream[1]? = some 0x3a then 3 else 2
    else 1
  if stream.length < count then none else some (stream.take count, stream.drop count)

def decodeDisp32 : List (BitVec 8) → Option (BitVec 32 × List (BitVec 8))
  | byte0 :: byte1 :: byte2 :: byte3 :: stream =>
    some (byte0.setWidth 32 ||| byte1.setWidth 32 <<< 8 ||| byte2.setWidth 32 <<< 16 |||
      byte3.setWidth 32 <<< 24, stream)
  | _ => none

def decodeDisp (mod : Nat) (stream : List (BitVec 8)) : Option (BitVec 32 × List (BitVec 8)) :=
  match mod, stream with
  | 0, stream => some (0, stream)
  | 1, byte :: stream => some (byte.signExtend 32, stream)
  | 1, [] => none
  | _, stream => decodeDisp32 stream

def register (high : Bool) (low : Nat) : Fin 16 := Fin.ofNat 16 (low % 8 + 8 * high.toNat)

def scaleFactor (bits : Nat) : ScaleFactor :=
  match bits with
  | 0 => .kTimesOne
  | 1 => .kTimesTwo
  | 2 => .kTimesFour
  | _ => .kTimesEight

/-- An address that is not relative to the instruction: an index has a scale. -/
structure Address where
  base : Register
  index : Option (Fin 16 × ScaleFactor)
  disp : BitVec 32
  deriving DecidableEq

/-- The register and the address of a ModRM byte. There is no address if the byte is
    for a register, and none of this kind if it is relative to the instruction. -/
def decodeModRM (ext : Extension) :
    List (BitVec 8) → Option (Fin 16 × Address × List (BitVec 8))
  | [] => none
  | modrm :: stream =>
    let mod := modrm.toNat / 64
    let reg := register ext.r (modrm.toNat / 8)
    let rm := modrm.toNat % 8
    if mod = 3 then none
    else if rm = 4 then
      match stream with
      | [] => none
      | sib :: stream =>
        let index := register ext.x (sib.toNat / 8)
        let index :=
          if index = 4 then none else some (index, scaleFactor (sib.toNat / 64))
        if mod = 0 ∧ sib.toNat % 8 = 5 then
          (decodeDisp32 stream).map fun p => (reg, ⟨none, index, p.1⟩, p.2)
        else
          (decodeDisp mod stream).map fun p =>
            (reg, ⟨some (register ext.b sib.toNat), index, p.1⟩, p.2)
    else if mod = 0 ∧ rm = 5 then none
    else
      (decodeDisp mod stream).map fun p =>
        (reg, ⟨some (register ext.b rm), none, p.1⟩, p.2)

/-- The parts of an instruction with an operand in memory. -/
structure Instruction where
  legacyPrefixes : List (BitVec 8)
  vex : Option VexFields
  rex : Bool
  /-- The operands have 64 bits. -/
  w : Bool
  opcode : List (BitVec 8)
  reg : Fin 16
  address : Address
  /-- The immediates. -/
  last : List (BitVec 8)
  deriving DecidableEq

/-- A register of eight bits: the lowest byte of a register, or the second one. -/
inductive ByteRegister where
  | low (reg : Fin 16)
  | second (reg : Fin 16)
  deriving DecidableEq

/-- What the register of an instruction on bytes is. Without a prefix, four numbers
    are those of second bytes. -/
def Instruction.byteRegister (instruction : Instruction) : ByteRegister :=
  if !instruction.rex ∧ 4 ≤ instruction.reg.val ∧ instruction.reg.val < 8 then
    .second (instruction.reg - 4)
  else .low instruction.reg

/-- How many bytes follow the operand is known from the opcode. -/
def decodeInstruction (lastSize : Nat) (stream : List (BitVec 8)) :
    Option (Instruction × List (BitVec 8)) := do
  let legacyPrefixes := stream.takeWhile isLegacyPrefix
  let (ext, stream) ← decodePrefix (stream.dropWhile isLegacyPrefix)
  let (opcode, stream) ← decodeOpcode ext.vex.isSome stream
  let (reg, address, stream) ← decodeModRM ext stream
  if stream.length < lastSize then none
  else
    some (⟨legacyPrefixes, ext.vex, ext.rex, ext.w, opcode, reg, address, stream.take lastSize⟩,
      stream.drop lastSize)

end Decoder

section Bytes

theorem emit16_shiftLeft_or (sib modrm : BitVec 32) (h : modrm.toNat < 256) :
    emit16 (sib <<< 8 ||| modrm) = [modrm.setWidth 8, sib.setWidth 8] := by
  have hhigh := (Lib.BitRange.lt_two_pow_iff modrm (n := 8)).mp h
  unfold emit16 emitBytes
  simp only [range_succ, range_zero, nil_append, map_cons, map_nil,
    cons_append, List.cons.injEq, and_true]
  constructor
  · refine BitVec.eq_of_getLsbD_eq fun i hi => ?_
    simp
  · refine BitVec.eq_of_getLsbD_eq fun i hi => ?_
    have hbit := hhigh (8 + i) (by omega)
    simp only [BitVec.getLsbD_setWidth, hi, decide_true, Bool.true_and, BitVec.getLsbD_ushiftRight,
      BitVec.getLsbD_or, BitVec.getLsbD_shiftLeft, hbit, Bool.or_false, Nat.add_sub_cancel_left]
    simp
    omega

theorem or_modrm_last (m s i b r d : BitVec 32) :
    m ||| s ||| i ||| b ||| r ||| d = s ||| i ||| b ||| (m ||| r ||| d) := by
  ac_rfl

theorem or_modrm_last' (m s i b r : BitVec 32) :
    b ||| m ||| s ||| i ||| r = s ||| i ||| b ||| (m ||| r) := by
  ac_rfl

theorem or_rotate (a b c d : BitVec 32) : a ||| b ||| c ||| d = b ||| c ||| d ||| a := by
  ac_rfl

theorem or_rotate' (a b c : BitVec 32) : a ||| b ||| c = b ||| c ||| a := by
  ac_rfl

theorem decodeDisp32_emit32 (disp : BitVec 32) (stream : List (BitVec 8)) :
    decodeDisp32 (emit32 disp ++ stream) = some (disp, stream) := by
  unfold emit32 emitBytes decodeDisp32
  simp only [range_succ, range_zero, nil_append, map_cons, map_nil,
    cons_append, Option.some.injEq, Prod.mk.injEq, and_true]
  refine BitVec.eq_of_getLsbD_eq fun i hi => ?_
  interval_cases i <;> simp

end Bytes

def Register.high : Register → Bool
  | none => false
  | some reg => 8 ≤ reg.val

/-- The address that an operand stands for. Without an index the scale means nothing. -/
def Operand.address (operand : Operand) : Address :=
  ⟨operand.base, operand.index.map fun index => (index, operand.scale), operand.disp⟩

section Operands

theorem register_congr {high : Bool} {low : Nat} (low' : Nat) (h : low % 8 = low' % 8) :
    register high low = register high low' := by
  unfold register
  rw [h]

theorem register_high : ∀ reg : Fin 16, register (high (some reg)) reg = reg := by
  decide

theorem base_mod_eight_ne : ∀ base : Fin 16,
    some base ≠ rbp ∧ some base ≠ r13 → base.val % 8 ≠ 5 := by
  decide

theorem modrm_fields : ∀ (mod : Fin 3) (number : Fin 8) (base : Fin 16),
    let byte := (((num (some base) &&& 7).setWidth 32 |||
      BitVec.ofNat 32 number <<< 3 ||| BitVec.ofNat 32 (64 * mod)) >>> 0).setWidth 8
    byte.toNat / 64 = mod ∧ byte.toNat / 8 % 8 = number ∧ byte.toNat % 8 = base % 8 := by
  decide +kernel

theorem modrm_sib_fields : ∀ (mod : Fin 3) (number : Fin 8),
    let byte := (0x04#32 ||| BitVec.ofNat 32 number <<< 3 ||| BitVec.ofNat 32 (64 * mod)).setWidth 8
    byte.toNat / 64 = mod ∧ byte.toNat / 8 % 8 = number ∧ byte.toNat % 8 = 4 := by
  decide +kernel

theorem sib_fields : ∀ (scale : Fin 4) (index base : Fin 16),
    let byte := (BitVec.ofNat 32 scale <<< 6 ||| (num (some index) &&& 7).setWidth 32 <<< 3 |||
      (num (some base) &&& 7).setWidth 32).setWidth 8
    byte.toNat / 64 = scale ∧ byte.toNat / 8 % 8 = index % 8 ∧ byte.toNat % 8 = base % 8 := by
  decide +kernel

theorem decodeModRM_emitBaseIndexDispOperand {ext : Extension}
    {emitBase : BitVec 32 → List (BitVec 8)} {x : BitVec 32} {addr : Operand}
    (result : BitVec 32 × List (BitVec 8) → Fin 16 × Address × List (BitVec 8))
    (hbase : ∀ mod : Fin 3, (mod = 0 → addr.base ≠ rbp ∧ addr.base ≠ r13) → ∀ stream,
        decodeModRM ext (emitBase (x ||| BitVec.ofNat 32 (64 * mod)) ++ stream) =
          (decodeDisp mod stream).map result) (stream : List (BitVec 8)) :
    decodeModRM ext (emitBaseIndexDispOperand emitBase x addr ++ stream) =
      some (result (addr.disp, stream)) := by
  unfold emitBaseIndexDispOperand
  split
  · next h =>
      have hzero := hbase 0 (fun _ => h.2) stream
      simp only [Fin.val_zero, Nat.mul_zero, BitVec.or_zero] at hzero
      rw [hzero, h.1]
      rfl
  · split
    · next hrng =>
        rw [append_assoc]
        refine (hbase 1 (fun h => absurd h (by decide)) _).trans ?_
        have hdisp : (addr.disp.setWidth 8).signExtend 32 = addr.disp := by
          simpa [isInRangeInt8] using hrng
        simp [emit8, emitBytes, decodeDisp, hdisp]
    · rw [append_assoc]
      refine (hbase 2 (fun h => absurd h (by decide)) _).trans ?_
      simp [decodeDisp, decodeDisp32_emit32]

def sibBits (scale : Fin 4) (index base : Fin 16) : BitVec 32 :=
  BitVec.ofNat 32 scale <<< 6 ||| (Register.num (some index) &&& 7).setWidth 32 <<< 3 |||
    (Register.num (some base) &&& 7).setWidth 32

theorem decodeModRM_sib (ext : Extension) (mod : Fin 3) (number : Fin 8) (scale : Fin 4)
    (index base : Fin 16) (stream : List (BitVec 8)) : decodeModRM ext
        (emit16 (sibBits scale index base <<< 8 |||
          (0x04#32 ||| BitVec.ofNat 32 number <<< 3 ||| BitVec.ofNat 32 (64 * mod))) ++ stream) =
      let index' := register ext.x index
      let index' := if index' = 4 then none else some (index', scaleFactor scale)
      if mod = 0 ∧ base.val % 8 = 5 then
        (decodeDisp32 stream).map fun p => (register ext.r number, ⟨none, index', p.1⟩, p.2)
      else
        (decodeDisp mod stream).map fun p =>
          (register ext.r number, ⟨some (register ext.b base), index', p.1⟩, p.2) := by
  obtain ⟨hmod, hnum, hrm⟩ := modrm_sib_fields mod number
  obtain ⟨hscale, hidx, hbase⟩ := sib_fields scale index base
  have hsmall : ∀ (mod : Fin 3) (number : Fin 8),
      (0x04#32 ||| BitVec.ofNat 32 number <<< 3 ||| BitVec.ofNat 32 (64 * mod)).toNat < 256 := by
    decide +kernel
  rw [emit16_shiftLeft_or _ _ (hsmall mod number)]
  simp only [cons_append, nil_append]
  unfold decodeModRM sibBits
  dsimp only at hmod hnum hrm hscale hidx hbase ⊢
  rw [hmod, hrm, hscale, hbase, register_congr number (by rw [hnum]; omega),
    register_congr index hidx, register_congr base hbase]
  have hmod3 : ¬mod.val = 3 := by omega
  simp [hmod3]

def ScaleFactor.bits : ScaleFactor → Fin 4
  | .kTimesOne => 0
  | .kTimesTwo => 1
  | .kTimesFour => 2
  | .kTimesEight => 3

variable (scale : ScaleFactor)

theorem ScaleFactor.value_eq : scale.value = BitVec.ofNat 32 scale.bits := by
  cases scale <;> rfl

theorem scaleFactor_bits : scaleFactor scale.bits = scale := by
  cases scale <;> rfl

theorem sibBits_shiftLeft (scale : Fin 4) (index base : Fin 16) (modrm : BitVec 32) :
    sibBits scale index base <<< 8 ||| modrm =
      BitVec.ofNat 32 scale <<< 14 ||| (num (some index) &&& 7).setWidth 32 <<< 11 |||
        (num (some base) &&& 7).setWidth 32 <<< 8 ||| modrm := by
  unfold sibBits
  rw [BitVec.shiftLeft_or_distrib, BitVec.shiftLeft_or_distrib, ← BitVec.shiftLeft_add,
    ← BitVec.shiftLeft_add]

section Cases

variable {ext : Extension} {number : Fin 8} {scale : ScaleFactor} {disp : BitVec 32}

theorem decodeModRM_base {base : Fin 16} (hne : base.val % 8 ≠ 4)
    (hb : ext.b = high (some base)) (stream : List (BitVec 8)) : decodeModRM ext
        (emitBaseIndexDispOperand emit8
          ((num (some base) &&& 7).setWidth 32 ||| BitVec.ofNat 32 number <<< 3)
          ⟨some base, none, scale, disp⟩ ++ stream) =
      some (register ext.r number, ⟨some base, none, disp⟩, stream) := by
  refine decodeModRM_emitBaseIndexDispOperand
    (fun p => (register ext.r number, ⟨some base, none, p.1⟩, p.2)) ?_ stream
  intro mod hspec stream
  obtain ⟨hmod, hnum, hrm⟩ := modrm_fields mod number base
  simp only [emit8, emitBytes, range_succ, range_zero, nil_append, map_cons,
    map_nil, cons_append, Nat.mul_zero]
  unfold decodeModRM
  dsimp only at hmod hnum hrm ⊢
  rw [hmod, hrm, register_congr number (by rw [hnum]; omega)]
  have hmod3 : ¬mod.val = 3 := by omega
  have hzero : ¬(mod.val = 0 ∧ base.val % 8 = 5) := by
    rintro ⟨hmod, hbase⟩
    exact base_mod_eight_ne base (hspec (Fin.ext hmod)) hbase
  have hreg : register ext.b (base.val % 8) = base := by
    rw [hb, register_congr base.val (by omega)]
    exact register_high base
  simp only [hmod3, if_false, hne, hzero, hreg]

variable (scaleBits : Fin 4)

theorem decodeModRM_baseIndex (index base : Fin 16) (indexReg : Register)
    {index' : Option (Fin 16 × ScaleFactor)} (hb : ext.b = high (some base)) (hidx : index' =
      if register ext.x index = 4 then none else some (register ext.x index, scaleFactor scaleBits))
    (stream : List (BitVec 8)) : decodeModRM ext (emitBaseIndexDispOperand emit16
          (0x04#32 ||| BitVec.ofNat 32 scaleBits <<< 14 |||
            (num (some index) &&& 7).setWidth 32 <<< 11 |||
            (num (some base) &&& 7).setWidth 32 <<< 8 ||| BitVec.ofNat 32 number <<< 3)
          ⟨some base, indexReg, scale, disp⟩ ++ stream) =
      some (register ext.r number, ⟨some base, index', disp⟩, stream) := by
  refine decodeModRM_emitBaseIndexDispOperand
    (fun p => (register ext.r number, ⟨some base, index', p.1⟩, p.2)) ?_ stream
  intro mod hspec stream
  have hzero : ¬(mod = 0 ∧ base.val % 8 = 5) := by
    rintro ⟨hmod, hbase⟩
    exact base_mod_eight_ne base (hspec hmod) hbase
  have hreg : register ext.b base = base := by
    rw [hb]
    exact register_high base
  have hsib := decodeModRM_sib ext mod number scaleBits index base stream
  rw [sibBits_shiftLeft] at hsib
  rw [if_neg hzero, ← hidx, hreg] at hsib
  rw [← hsib, or_modrm_last]

theorem decodeModRM_noBase (index : Fin 16)
    {index' : Option (Fin 16 × ScaleFactor)} (hidx : index' =
      if register ext.x index = 4 then none else some (register ext.x index, scaleFactor scaleBits))
    (stream : List (BitVec 8)) : decodeModRM ext
        (emit16 (0x0504#32 ||| BitVec.ofNat 32 scaleBits <<< 14 |||
          (num (some index) &&& 7).setWidth 32 <<< 11 ||| BitVec.ofNat 32 number <<< 3) ++
          emit32 disp ++ stream) =
      some (register ext.r number, ⟨none, index', disp⟩, stream) := by
  have hsib := decodeModRM_sib ext 0 number scaleBits index 5 (emit32 disp ++ stream)
  rw [sibBits_shiftLeft] at hsib
  rw [if_pos ⟨rfl, rfl⟩, ← hidx, decodeDisp32_emit32] at hsib
  rw [append_assoc]
  refine Eq.trans ?_ hsib
  have hbyt : 0x0504#32 = (num (some 5) &&& 7).setWidth 32 <<< 8 ||| 0x04#32 := by
    decide
  rw [hbyt, or_modrm_last', Fin.val_zero, Nat.mul_zero, BitVec.or_zero]

end Cases

theorem decodeModRM_emitOperandOp (ext : Extension) (number : Fin 8) (addr : Operand)
    (hidx : addr.index ≠ rsp) (hx : ext.x = addr.index.high) (hb : ext.b = addr.base.high) :
    ∃ bytes, emitOperandOp (BitVec.ofNat 32 number) addr = some bytes ∧ ∀ stream,
      decodeModRM ext (bytes ++ stream) = some (register ext.r number, addr.address, stream) := by
  have hnum : ∀ number : Fin 8, ¬BitVec.ofNat 32 number.val > 7 := by decide
  unfold emitOperandOp
  simp only [hnum number, if_false, hidx]
  refine ⟨_, rfl, fun stream => ?_⟩
  obtain ⟨base, index, scale, disp⟩ := addr
  have hno : (none : Register) = noRegister := rfl
  cases index with
  | none =>
    -- The index field is that of rsp, which is no index.
    have hnone : none = if register ext.x 4 = 4 then none
        else some (register ext.x 4, scaleFactor 0) := by
      rw [show ext.x = false from hx]
      rfl
    cases base with
    | none =>
      exact decodeModRM_noBase 0 4 hnone stream
    | some base =>
      by_cases hspec : base = 4 ∨ base = 12
      · have hbyt : 0x2004#32 = 0x04#32 ||| BitVec.ofNat 32 (0 : Fin 4) <<< 14 |||
            (num (some 4) &&& 7).setWidth 32 <<< 11 := by
          decide
        have hsib : ¬(some base ≠ rsp ∧ some base ≠ r12 ∧ (none : Register) = noRegister) := by
          rcases hspec with rfl | rfl <;> decide
        rw [if_neg hsib, if_pos hno, hbyt]
        exact decodeModRM_baseIndex 0 4 base none hb hnone stream
      · have hrm : base.val % 8 ≠ 4 := by omega
        have hne : some base ≠ rsp ∧ some base ≠ r12 := by
          simp only [rsp, r12, ne_eq, Option.some.injEq]
          omega
        rw [if_pos ⟨hne.1, hne.2, rfl⟩, if_pos (by simp [noRegister])]
        exact decodeModRM_base hrm hb stream
  | some index =>
    have hreg : register ext.x index = index := by
      rw [hx]
      exact register_high index
    have hne : index ≠ 4 := fun heq => hidx (by rw [heq]; rfl)
    have hsome : some (index, scale) = if register ext.x index = 4 then none
        else some (register ext.x index, scaleFactor scale.bits) := by
      rw [hreg, if_neg hne, scaleFactor_bits]
    cases base with
    | none =>
      unfold emitIndexDispOperand
      rw [ScaleFactor.value_eq]
      exact decodeModRM_noBase scale.bits index hsome stream
    | some base =>
      rw [if_neg (by simp [noRegister]), ScaleFactor.value_eq]
      exact decodeModRM_baseIndex scale.bits index base (some index) hb hsome stream

end Operands

section Prefixes

theorem Register.num_and_eight (reg : Register) :
    reg.num &&& 0b1000 = if reg.high then 0b1000 else 0 := by
  cases reg with
  | none => decide
  | some reg =>
    revert reg
    decide

def rexBits (b x : Bool) : BitVec 8 :=
  if b || x then 0b01000000 ||| (if b then 0b1 else 0) ||| if x then 0b10 else 0 else 0

theorem rexOperand_eq (operand : Operand) :
    rexOperand operand = rexBits operand.base.high operand.index.high := by
  unfold rexOperand
  rw [num_and_eight, num_and_eight]
  cases operand.base.high <;> cases operand.index.high <;> decide

/-- A prefix is emitted if one of its bits is set, and the bits are those of the arguments. -/
def IsRex (rex : BitVec 8) (w r x b : Bool) : Prop :=
  if rex ≠ 0 then
    rex.toNat / 16 = 4 ∧ isLegacyPrefix rex = false ∧ rex.getLsbD 3 = w ∧ rex.getLsbD 2 = r ∧
      rex.getLsbD 1 = x ∧ rex.getLsbD 0 = b
  else w = false ∧ r = false ∧ x = false ∧ b = false

instance (rex : BitVec 8) (w r x b : Bool) : Decidable (IsRex rex w r x b) := by
  unfold IsRex
  infer_instance

variable (byte2 byte3 : BitVec 8) (regIsOpcodeExtension : Bool) (registers : List RegisterArgument)
  (memory : MemoryArgument)

theorem isRex_rexMemory : IsRex (rexMemory memory) memory.is64Bit false memory.operand.index.high
      memory.operand.base.high := by
  unfold rexMemory
  rw [rexOperand_eq]
  cases memory.is64Bit <;> cases memory.operand.index.high <;> cases memory.operand.base.high <;>
    decide

theorem isRex_register_memory (argument : RegisterArgument) (memory : MemoryArgument) :
    IsRex (rexRegister 0b0100 argument ||| rexMemory memory)
      (argument.kind = .register64Bit || memory.is64Bit) (high (some argument.reg))
      memory.operand.index.high memory.operand.base.high := by
  unfold rexMemory
  rw [rexOperand_eq]
  obtain ⟨kind, reg⟩ := argument
  generalize memory.operand.index.high = x
  generalize memory.operand.base.high = b
  generalize memory.is64Bit = w
  cases kind <;> revert reg w x b <;> decide

/-- An opcode as it stands in an instruction without a VEX prefix. -/
def IsOpcode : List (BitVec 8) → Prop
  | [byte] =>
    byte ≠ 0x0f ∧ byte ≠ 0xc4 ∧ byte ≠ 0xc5 ∧ byte.toNat / 16 ≠ 4 ∧ isLegacyPrefix byte = false
  | [byte0, byte1] => byte0 = 0x0f ∧ byte1 ≠ 0x38 ∧ byte1 ≠ 0x3a
  | [byte0, byte1, _] => byte0 = 0x0f ∧ (byte1 = 0x38 ∨ byte1 = 0x3a)
  | _ => False

instance : (opcode : List (BitVec 8)) → Decidable (IsOpcode opcode)
  | [] => inferInstanceAs (Decidable False)
  | [_] => inferInstanceAs (Decidable (_ ∧ _))
  | [_, _] => inferInstanceAs (Decidable (_ ∧ _))
  | [_, _, _] => inferInstanceAs (Decidable (_ ∧ _))
  | _ :: _ :: _ :: _ :: _ => inferInstanceAs (Decidable False)

variable {opcode : List (BitVec 8)}

section

variable (h : IsOpcode opcode) (stream : List (BitVec 8))
include h

theorem decodeOpcode_of_isOpcode :
    decodeOpcode false (opcode ++ stream) = some (opcode, stream) := by
  unfold decodeOpcode
  match opcode, h with
  | [byte], h =>
    have hne : ¬(([byte] ++ stream)[0]? = some 0x0f) := by
      simpa using h.1
    rw [if_neg hne]
    simp
  | [byte0, byte1], h =>
    obtain ⟨rfl, hne⟩ := h
    have hmap : ¬(([0x0f, byte1] ++ stream)[1]? = some 0x38 ∨
        ([0x0f, byte1] ++ stream)[1]? = some 0x3a) := by
      simpa using hne
    have hfst : ([0x0f, byte1] ++ stream)[0]? = some 0x0f := rfl
    rw [if_pos hfst, if_neg hmap]
    simp
  | [byte0, byte1, byte2], h =>
    obtain ⟨rfl, hmap⟩ := h
    have hmap : ([0x0f, byte1, byte2] ++ stream)[1]? = some 0x38 ∨
        ([0x0f, byte1, byte2] ++ stream)[1]? = some 0x3a := by
      simpa using hmap
    have hfst : ([0x0f, byte1, byte2] ++ stream)[0]? = some 0x0f := rfl
    rw [if_pos hfst, if_pos hmap]
    simp

theorem isOpcode_head :
    ∀ byte ∈ (opcode ++ stream).head?, isLegacyPrefix byte = false := by
  match opcode, h with
  | [byte], h =>
    rintro _ ⟨⟩
    exact h.2.2.2.2
  | [byte0, byte1], h =>
    rintro _ ⟨⟩
    rw [h.1]
    rfl
  | [byte0, byte1, byte2], h =>
    rintro _ ⟨⟩
    rw [h.1]
    rfl

theorem decodePrefix_of_isOpcode : decodePrefix (opcode ++ stream) =
      some (⟨none, false, false, false, false, false⟩, opcode ++ stream) := by
  match opcode, h with
  | [byte], h =>
    obtain ⟨-, hc4, hc5, hrex, -⟩ := h
    simp only [cons_append, nil_append, decodePrefix]
    rw [if_neg hc5, if_neg hc4, if_neg hrex]
  | [byte0, byte1], h =>
    obtain ⟨rfl, -⟩ := h
    simp [decodePrefix]
  | [byte0, byte1, byte2], h =>
    obtain ⟨rfl, -⟩ := h
    simp [decodePrefix]

end

theorem decode_rex {rex : BitVec 8} {w r x b : Bool} (bytes : List (BitVec 8))
    (h : IsRex rex w r x b) (hbyt : bytes = if rex ≠ 0 then [rex] else [])
    (hop : IsOpcode opcode) (stream : List (BitVec 8)) :
    (∀ byte ∈ (bytes ++ (opcode ++ stream)).head?, isLegacyPrefix byte = false) ∧
      decodePrefix (bytes ++ (opcode ++ stream)) =
        some (⟨none, bytes ≠ [], w, r, x, b⟩, opcode ++ stream) := by
  unfold IsRex at h
  by_cases hne : rex ≠ 0
  · rw [if_pos hne] at h hbyt
    obtain ⟨hrex, hleg, rfl, rfl, rfl, rfl⟩ := h
    obtain rfl := hbyt
    have hc4 : rex ≠ 0xc4 := by
      rintro rfl
      simp at hrex
    have hc5 : rex ≠ 0xc5 := by
      rintro rfl
      simp at hrex
    constructor
    · rintro _ ⟨⟩
      exact hleg
    · simp only [cons_append, nil_append, decodePrefix]
      rw [if_neg hc5, if_neg hc4, if_pos hrex]
      simp
  · rw [if_neg hne] at h hbyt
    obtain ⟨rfl, rfl, rfl, rfl⟩ := h
    obtain rfl := hbyt
    exact ⟨isOpcode_head hop stream, decodePrefix_of_isOpcode hop stream⟩

theorem emit16_xor (hi lo v : BitVec 32) (h : lo.toNat < 256) :
    emit16 ((hi <<< 8 ||| lo) ^^^ (v <<< 8)) = [lo.setWidth 8, (hi ^^^ v).setWidth 8] := by
  have hhigh := (Lib.BitRange.lt_two_pow_iff lo (n := 8)).mp h
  rw [← emit16_shiftLeft_or _ _ h]
  congr 1
  refine BitVec.eq_of_getLsbD_eq fun i hi' => ?_
  simp only [BitVec.getLsbD_xor, BitVec.getLsbD_or, BitVec.getLsbD_shiftLeft, hi', decide_true,
    Bool.true_and]
  by_cases hlt : i < 8
  · simp [hlt]
  · simp [hlt, hhigh i (by omega)]

def vexByte1 (byte2 : BitVec 8) (r x b : Bool) : BitVec 32 :=
  (byte2.setWidth 32 ||| 0b11100000) ^^^ ((if b then 0b1000#32 else 0) <<< 2) ^^^
    ((if x then 0b1000#32 else 0) <<< 3) ^^^ ((if r then 0b1000#32 else 0) <<< 4)

theorem vexByte1_fields : ∀ (byte2 : BitVec 8) (r x b : Bool),
    let byte := vexByte1 byte2 r x b
    byte.toNat < 256 ∧ byte.toNat % 32 = byte2.toNat % 32 ∧ byte.getLsbD 7 = !r ∧
      byte.getLsbD 6 = !x ∧ byte.getLsbD 5 = !b := by
  decide +kernel

theorem vexByte2_fields : ∀ (byte3 : BitVec 8) (vvvv : Fin 16),
    let byte := (byte3.setWidth 32 ||| 0b01111000#32) ^^^ (BitVec.ofNat 32 vvvv <<< 3)
    byte.toNat < 256 ∧ 15 - byte.toNat / 8 % 16 = vvvv ∧ byte.toNat % 8 = byte3.toNat % 8 ∧
      byte.getLsbD 7 = byte3.getLsbD 7 := by
  decide +kernel

theorem vexShort_fields : ∀ (byte3 : BitVec 8) (r : Bool) (vvvv : Fin 16),
    byte3 &&& 0b10000000 = 0 →
      let byte := ((if r then 0 else 0b10000000#32) ||| byte3.setWidth 32 ||| 0b01111000#32) ^^^
        (BitVec.ofNat 32 vvvv <<< 3)
      byte.toNat < 256 ∧ 15 - byte.toNat / 8 % 16 = vvvv ∧ byte.toNat % 8 = byte3.toNat % 8 ∧
        byte.getLsbD 7 = !r ∧ byte3.getLsbD 7 = false := by
  decide +kernel

theorem vexByte1_short : ∀ (byte2 : BitVec 8) (r x b : Bool),
    vexByte1 byte2 r x b &&& 0b01111111 = 0b01100001 →
      x = false ∧ b = false ∧ byte2.toNat % 32 = 1 := by
  decide +kernel

theorem vexByte1_and : ∀ (byte2 : BitVec 8) (r x b : Bool),
    vexByte1 byte2 r x b &&& 0b10000000 = if r then 0 else 0b10000000#32 := by
  decide +kernel

/-- The register in the inverted field, and the fourth bit of the other one. -/
def vexVvvv (regIsOpcodeExtension : Bool) (registers : List RegisterArgument) : Fin 16 :=
  (registers[2 - regIsOpcodeExtension.toNat - 1]?).elim 0 RegisterArgument.reg

def vexR (regIsOpcodeExtension : Bool) (registers : List RegisterArgument) : Bool :=
  !regIsOpcodeExtension && (registers[0]?).elim false fun argument =>
    Register.high (some argument.reg)

theorem emitVex_eq : emitVex 0xc4 byte2 byte3 regIsOpcodeExtension registers [memory] =
      let vex2 := vexByte1 byte2 (vexR regIsOpcodeExtension registers) memory.operand.index.high
        memory.operand.base.high
      let vvvv := BitVec.ofNat 32 (vexVvvv regIsOpcodeExtension registers)
      if vex2 &&& 0b01111111 = 0b01100001 ∧ byte3 &&& 0b10000000 = 0 then
        emit16 ((0xc5#32 ||| ((vex2 &&& 0b10000000) <<< 8) ||| (byte3.setWidth 32 <<< 8) |||
          0b0111100000000000#32) ^^^ (vvvv <<< 11))
      else
        0xc4 :: emit16 ((vex2 ||| (byte3.setWidth 32 <<< 8) ||| 0b0111100000000000#32) ^^^
            (vvvv <<< 11)) := by
  have hhigh : ∀ reg : Register,
      (reg.num &&& 0b1000).setWidth 32 = if reg.high then 0b1000 else 0#32 := by
    intro reg
    rw [num_and_eight]
    cases reg.high <;> rfl
  have hnum : ∀ argument : Option RegisterArgument,
      (argument.elim 0 RegisterArgument.num).setWidth 32 =
        BitVec.ofNat 32 (argument.elim 0 RegisterArgument.reg).val := by
    intro argument
    cases argument with
    | none => rfl
    | some argument =>
      obtain ⟨kind, reg⟩ := argument
      revert reg
      simp only [Option.elim_some, RegisterArgument.num]
      decide
  have hfst : ∀ argument : Option RegisterArgument,
      ((argument.elim 0 RegisterArgument.num).setWidth 32 &&& 0b1000) =
        if argument.elim false (fun argument => high (some argument.reg)) then 0b1000
        else 0#32 := by
    intro argument
    cases argument with
    | none => rfl
    | some argument =>
      have heq := hhigh (some argument.reg)
      exact heq
  unfold emitVex vexByte1 vexR vexVvvv
  dsimp only [length_singleton]
  have hvvvv : ∀ i, (if registers.length > i then
      ((registers[i]?).elim 0 RegisterArgument.num).setWidth 32 else 0) =
        BitVec.ofNat 32 ((registers[i]?).elim 0 RegisterArgument.reg).val := by
    intro i
    split
    · exact hnum _
    · rw [getElem?_eq_none (by omega)]
      rfl
  rw [hhigh, hhigh, hfst, hvvvv]
  cases regIsOpcodeExtension <;> simp

theorem decodePrefix_emitVex (stream : List (BitVec 8)) :
    decodePrefix (emitVex 0xc4 byte2 byte3 regIsOpcodeExtension registers [memory] ++ stream) =
      some (⟨some ⟨byte2.toNat % 32, vexVvvv regIsOpcodeExtension registers, byte3.toNat % 8⟩,
        false, byte3.getLsbD 7, vexR regIsOpcodeExtension registers, memory.operand.index.high,
        memory.operand.base.high⟩, stream) := by
  rw [emitVex_eq]
  dsimp only
  generalize vexVvvv regIsOpcodeExtension registers = vvvv
  generalize vexR regIsOpcodeExtension registers = r
  generalize memory.operand.index.high = x
  generalize memory.operand.base.high = b
  have hshift : BitVec.ofNat 32 vvvv.val <<< 11 = (BitVec.ofNat 32 vvvv.val <<< 3) <<< 8 := by
    rw [← BitVec.shiftLeft_add]
  split
  · next h =>
      obtain ⟨rfl, rfl, hmap⟩ := vexByte1_short byte2 r x b h.1
      obtain ⟨hlt, hvvvv, hlpp, hr, hw⟩ := vexShort_fields byte3 r vvvv h.2
      have hbyt : 0xc5#32 ||| (if r then 0 else 0b10000000#32) <<< 8 ||| byte3.setWidth 32 <<< 8 |||
          0b0111100000000000#32 =
            ((if r then 0 else 0b10000000#32) ||| byte3.setWidth 32 ||| 0b01111000#32) <<< 8 |||
              0xc5#32 := by
        rw [BitVec.shiftLeft_or_distrib, BitVec.shiftLeft_or_distrib,
          show 0b01111000#32 <<< 8 = 0b0111100000000000#32 from rfl]
        exact or_rotate _ _ _ _
      rw [vexByte1_and, hbyt, hshift, emit16_xor _ _ _ (by decide)]
      simp only [cons_append, nil_append, decodePrefix]
      rw [if_pos (by decide)]
      simp only [BitVec.toNat_setWidth, Nat.mod_eq_of_lt hlt, hvvvv, hlpp, hmap, hw,
        BitVec.getLsbD_setWidth, hr, Nat.reduceLT, decide_true, Bool.true_and, Bool.not_not]
  · obtain ⟨hlt1, hmap, hr, hx, hb⟩ := vexByte1_fields byte2 r x b
    obtain ⟨hlt2, hvvvv, hlpp, hw⟩ := vexByte2_fields byte3 vvvv
    have hbyt : vexByte1 byte2 r x b ||| byte3.setWidth 32 <<< 8 ||| 0b0111100000000000#32 =
        (byte3.setWidth 32 ||| 0b01111000#32) <<< 8 ||| vexByte1 byte2 r x b := by
      rw [BitVec.shiftLeft_or_distrib, show 0b01111000#32 <<< 8 = 0b0111100000000000#32 from rfl]
      exact or_rotate' _ _ _
    rw [hbyt, hshift, emit16_xor _ _ _ hlt1]
    simp only [cons_append, nil_append, decodePrefix]
    rw [if_neg (by decide), if_pos trivial]
    simp only [BitVec.toNat_setWidth, Nat.mod_eq_of_lt hlt1, Nat.mod_eq_of_lt hlt2, hvvvv, hlpp,
      hmap, hw, BitVec.getLsbD_setWidth, hr, hx, hb, Nat.reduceLT, decide_true, Bool.true_and,
      Bool.not_not]

end Prefixes

namespace Form

variable (form : Form)

def legacyOpcode : List (BitVec 8) :=
  form.opcodes.take form.kOpcodeExtensionsCount ++
    [form.opcode form.kOpcodeExtensionsCount ||| form.conditions.headD 0]

/-- The instruction is one that can be compiled, its opcode is one of the processor's,
    and the checks of opcodes and conditions do not fail. -/
structure Encodable : Prop where
  supported : form.Supported
  opcode : form.kVexOrXop = false → IsOpcode form.legacyOpcode
  vex : form.kVexOrXop → form.opcode 0 = 0xc4
  conditions : ∀ code ∈ form.conditions, code &&& 0xf0 = 0
  extension : form.regIsOpcodeExtension →
    (form.opcode (form.kOpcodeExtensionsCount + 1)).toNat < 8

def lastSize : Nat :=
  (if !form.regIsOpcodeExtension ∧ form.opcodes.length > form.kOpcodeExtensionsCount + 1 then 1
    else 0) +
    if form.registers.length + form.operands.length = 4 then 1
    else (form.immediates.map fun immediate => immediate.1.bytes).sum

def instruction (memory : MemoryArgument) : Instruction :=
  { legacyPrefixes := form.legacyPrefixes
    vex :=
      if form.kVexOrXop then
        some ⟨(form.opcode 1).toNat % 32, vexVvvv form.regIsOpcodeExtension form.registers,
          (form.opcode 2).toNat % 8⟩
      else none
    rex := !form.kVexOrXop && emitRex form.registers form.operands ≠ []
    w :=
      if form.kVexOrXop then (form.opcode 2).getLsbD 7
      else
        memory.is64Bit || form.registers.any fun argument => argument.kind = .register64Bit
    opcode := if form.kVexOrXop then [form.opcode 3] else form.legacyOpcode
    reg :=
      if form.regIsOpcodeExtension then
        Fin.ofNat 16 (form.opcode (form.kOpcodeExtensionsCount + 1)).toNat
      else (form.registers.head?).elim 0 RegisterArgument.reg
    address := memory.operand.address
    last := form.emitLast }

theorem length_emitLast : form.emitLast.length = form.lastSize := by
  have himm : ∀ immediates : List (ImmediateSize × BitVec 64), (emitImmediates immediates).length =
        (immediates.map fun immediate => immediate.1.bytes).sum := by
    simp [emitImmediates, emitBytes, length_flatMap]
  unfold emitLast lastSize
  dsimp only
  split
  · split <;> split <;> simp
  · split <;> simp [himm, Nat.add_comm]

variable {form} {memory : MemoryArgument}

theorem emitOpcode_eq (h : form.Encodable) : form.emitOpcode =
      some [form.opcode form.kOpcodeExtensionsCount ||| form.conditions.headD 0] := by
  unfold emitOpcode
  cases hcond : form.conditions with
  | nil => simp
  | cons code rest =>
    have hcode := h.conditions code (by rw [hcond]; exact mem_cons_self)
    simp only [ne_eq, hcode, not_true_eq_false, if_false, headD_cons]

theorem emitOperands_eq (h : form.Encodable) (hmem : form.operands = [memory]) :
    ∃ number : Fin 8, form.emitOperands = emitOperandOp (BitVec.ofNat 32 number) memory.operand ∧
      register (vexR form.regIsOpcodeExtension form.registers) number =
        (form.instruction memory).reg := by
  unfold emitOperands instruction
  rw [hmem]
  by_cases hext : form.regIsOpcodeExtension
  · have hlt := h.extension hext
    generalize form.opcode (form.kOpcodeExtensionsCount + 1) = extension at hlt ⊢
    refine ⟨⟨extension.toNat, hlt⟩, ?_, ?_⟩
    · rw [if_pos hext]
      rw [BitVec.ofNat_toNat]
    · rw [if_pos hext, hext]
      simp [vexR, register, Nat.mod_eq_of_lt hlt]
  · -- There is a register, else the field would be an opcode extension.
    obtain ⟨argument, rest, hregs⟩ : ∃ argument rest, form.registers = argument :: rest := by
      refine exists_cons_of_ne_nil fun hnil => hext ?_
      simp [regIsOpcodeExtension, hnil, hmem]
      omega
    rw [if_neg hext, if_neg hext, hregs]
    obtain ⟨kind, reg⟩ := argument
    have hnum : ∀ reg : Fin 16, ((num (some reg) &&& 0b111).setWidth 32) =
        BitVec.ofNat 32 (reg.val % 8) := by
      decide
    refine ⟨⟨reg.val % 8, by omega⟩, ?_, ?_⟩
    · dsimp only [RegisterArgument.num]
      rw [hnum]
    · simp only [Bool.not_eq_true] at hext
      simp only [vexR, hext, Bool.not_false, Bool.true_and, getElem?_cons_zero,
        Option.elim_some, head?_cons]
      rw [register_congr reg.val (by omega)]
      exact register_high reg

theorem emitInstruction_eq (h : form.Encodable) (hmem : form.operands = [memory])
    {operand : List (BitVec 8)} (hop : form.emitOperands = some operand) :
    form.emitInstruction = some (form.legacyPrefixes ++ form.emitPrefix ++
        [form.opcode form.kOpcodeExtensionsCount ||| form.conditions.headD 0] ++ operand ++
        form.emitLast) := by
  unfold emitInstruction
  rw [hmem, emitOpcode_eq h, hop]
  split
  · next heq => cases heq
  · rfl

end Form

theorem decodeInstruction_of_parts {legacyPrefixes opcode last rest stream₁ stream₂ stream :
    List (BitVec 8)} {ext : Extension} {reg : Fin 16} {address : Address}
    (hleg : ∀ byte ∈ legacyPrefixes, isLegacyPrefix byte)
    (hrest : ∀ byte ∈ rest.head?, isLegacyPrefix byte = false)
    (hpre : decodePrefix rest = some (ext, stream₁))
    (hop : decodeOpcode ext.vex.isSome stream₁ = some (opcode, stream₂))
    (hmodrm : decodeModRM ext stream₂ = some (reg, address, last ++ stream)) :
    decodeInstruction last.length (legacyPrefixes ++ rest) =
      some (⟨legacyPrefixes, ext.vex, ext.rex, ext.w, opcode, reg, address, last⟩, stream) := by
  have htake : rest.takeWhile isLegacyPrefix = [] ∧ rest.dropWhile isLegacyPrefix = rest := by
    cases rest with
    | nil => simp
    | cons byte rest =>
      have hbyte := hrest byte rfl
      simp [hbyte]
  unfold decodeInstruction
  rw [takeWhile_append_of_pos hleg, dropWhile_append_of_pos hleg, htake.1, htake.2, hpre]
  simp [hop, hmodrm]

section Instructions

variable {form : Form} {memory : MemoryArgument}

/-- What the prefixes of an instruction tell. -/
def Form.extension (form : Form) (memory : MemoryArgument) : Extension :=
  let instruction := form.instruction memory
  ⟨instruction.vex, instruction.rex, instruction.w,
    vexR form.regIsOpcodeExtension form.registers, memory.operand.index.high,
    memory.operand.base.high⟩

theorem decode_legacyPrefix (h : form.Encodable) (hmem : form.operands = [memory])
    (hvex : form.kVexOrXop = false) (stream : List (BitVec 8)) :
    let bytes := form.emitPrefix ++
      ([form.opcode form.kOpcodeExtensionsCount ||| form.conditions.headD 0] ++ stream)
    (∀ byte ∈ bytes.head?, isLegacyPrefix byte = false) ∧
      decodePrefix bytes = some (form.extension memory, form.legacyOpcode ++ stream) := by
  have hbyt : form.emitPrefix ++
      ([form.opcode form.kOpcodeExtensionsCount ||| form.conditions.headD 0] ++ stream) =
        emitRex form.registers form.operands ++ (form.legacyOpcode ++ stream) := by
    simp [Form.emitPrefix, hvex, Form.legacyOpcode]
  have hcount := h.supported.arguments
  rw [hmem, hvex] at hcount
  rw [hbyt, hmem]
  unfold Form.extension Form.instruction
  simp only [hvex, Bool.false_eq_true, if_false, hmem]
  rcases hregs : form.registers with _ | ⟨argument, _ | ⟨argument', rest⟩⟩
  · have hdec := decode_rex (emitRex [] [memory]) (isRex_rexMemory memory) rfl
      (h.opcode hvex) stream
    simpa [vexR] using hdec
  · have hext : form.regIsOpcodeExtension = false := by
      simp [Form.regIsOpcodeExtension, hregs, hmem, hvex]
    have hdec := decode_rex (emitRex [argument] [memory])
      (isRex_register_memory argument memory) rfl (h.opcode hvex) stream
    simpa [vexR, hext, Bool.or_comm] using hdec
  · rw [hregs] at hcount
    simp at hcount

theorem decodePrefix_head {bytes stream : List (BitVec 8)} {ext : Extension}
    (h : decodePrefix bytes = some (ext, stream)) (hvex : ext.vex.isSome) :
    ∀ byte ∈ bytes.head?, byte = 0xc5 ∨ byte = 0xc4 := by
  cases bytes with
  | nil => cases h
  | cons byte bytes =>
    rintro _ ⟨⟩
    by_contra hbyte
    rw [not_or] at hbyte
    simp only [decodePrefix] at h
    rw [if_neg hbyte.1, if_neg hbyte.2] at h
    split at h
    all_goals
      obtain ⟨rfl, -⟩ := Prod.mk.inj (Option.some.inj h)
      cases hvex

theorem decode_vexPrefix (h : form.Encodable) (hmem : form.operands = [memory])
    (hvex : form.kVexOrXop) (stream : List (BitVec 8)) :
    let bytes := form.emitPrefix ++ stream
    (∀ byte ∈ bytes.head?, isLegacyPrefix byte = false) ∧
      decodePrefix bytes = some (form.extension memory, stream) := by
  unfold Form.emitPrefix Form.extension Form.instruction
  simp only [hvex, if_true, hmem, h.vex hvex]
  have hdec := decodePrefix_emitVex (form.opcode 1) (form.opcode 2) form.regIsOpcodeExtension
    form.registers memory stream
  refine ⟨fun byte hbyte => ?_, hdec⟩
  rcases decodePrefix_head hdec rfl byte hbyte with rfl | rfl <;> rfl

theorem rexRegister_byte (reg : Fin 16) (hlo : 4 ≤ reg.val) (other : BitVec 8) :
    rexRegister 0b0100 ⟨.register8Bit, reg⟩ ||| other ≠ 0 := by
  have hbit : ∀ reg : Fin 16, 4 ≤ reg.val →
      (rexRegister 0b0100 ⟨.register8Bit, reg⟩).getLsbD 6 = true := by
    decide
  intro hzero
  have hbit' := congrArg (BitVec.getLsbD · 6) hzero
  rw [BitVec.getLsbD_or, hbit reg hlo, Bool.true_or] at hbit'
  cases hbit'

theorem byteRegister_instruction (hmem : form.operands = [memory])
    (hvex : form.kVexOrXop = false) {reg : Fin 16}
    (hregs : form.registers = [⟨.register8Bit, reg⟩]) :
    (form.instruction memory).byteRegister = .low reg := by
  have hext : form.regIsOpcodeExtension = false := by
    simp [Form.regIsOpcodeExtension, hregs, hmem, hvex]
  have hreg : (form.instruction memory).reg = reg := by
    simp [Form.instruction, hext, hregs]
  unfold Instruction.byteRegister
  rw [hreg, if_neg]
  rintro ⟨hrex, hlo, -⟩
  have hemit : emitRex [⟨.register8Bit, reg⟩] [memory] =
      [rexRegister 0b0100 ⟨.register8Bit, reg⟩ ||| rexMemory memory] :=
    if_pos (rexRegister_byte reg hlo (rexMemory memory))
  simp [Form.instruction, hvex, hregs, hmem, hemit] at hrex

/-- An instruction with an operand in memory is emitted, and all its parts are found in its bytes,
    whatever comes after them. A register of eight bits is not taken for another one. -/
theorem decodeInstruction_emitInstruction (opcodes : List (BitVec 8)) (arguments : List Argument)
    (memory : MemoryArgument) (h : (Form.ofArguments opcodes arguments).Encodable)
    (hmemory : (Form.ofArguments opcodes arguments).operands = [memory])
    (hindex : memory.operand.index ≠ Register.rsp) :
    ∃ bytes, (Form.ofArguments opcodes arguments).emitInstruction = some bytes ∧ ∀ stream,
      decodeInstruction (Form.ofArguments opcodes arguments).lastSize (bytes ++ stream) =
          some ((Form.ofArguments opcodes arguments).instruction memory, stream) ∧
        ∀ reg, (Form.ofArguments opcodes arguments).kVexOrXop = false →
          (Form.ofArguments opcodes arguments).registers = [⟨.register8Bit, reg⟩] →
            ((Form.ofArguments opcodes arguments).instruction memory).byteRegister = .low reg := by
  have hlegacy : ∀ byte ∈ (Form.ofArguments opcodes arguments).legacyPrefixes,
      isLegacyPrefix byte := all_eq_true.mp all_takeWhile
  generalize Form.ofArguments opcodes arguments = form at h hmemory hlegacy ⊢
  obtain ⟨number, hoperands, hreg⟩ := Form.emitOperands_eq h hmemory
  obtain ⟨operand, hoperand, hmodrm⟩ :=
    decodeModRM_emitOperandOp (form.extension memory) number memory.operand hindex rfl rfl
  rw [hoperand] at hoperands
  refine ⟨_, Form.emitInstruction_eq h hmemory hoperands, fun stream =>
    ⟨?_, fun reg hvex hregisters => byteRegister_instruction hmemory hvex hregisters⟩⟩
  rw [← Form.length_emitLast]
  simp only [append_assoc]
  have hmodrm' := hmodrm (form.emitLast ++ stream)
  rw [show register (form.extension memory).r number = _ from hreg] at hmodrm'
  cases hvex : form.kVexOrXop with
  | false =>
    obtain ⟨hhead, hpre⟩ :=
      decode_legacyPrefix h hmemory hvex (operand ++ (form.emitLast ++ stream))
    have hnone : (form.extension memory).vex.isSome = false := by
      simp [Form.extension, Form.instruction, hvex]
    have hopcode := decodeOpcode_of_isOpcode (h.opcode hvex) (operand ++ (form.emitLast ++ stream))
    rw [← hnone] at hopcode
    rw [decodeInstruction_of_parts hlegacy hhead hpre hopcode hmodrm']
    simp [Form.extension, Form.instruction, hvex]
  | true =>
    have hconditions : form.conditions = [] := by
      have hcount := h.supported.conditions
      rw [hvex] at hcount
      exact length_eq_zero_iff.mp (Nat.le_zero.mp hcount)
    obtain ⟨hhead, hpre⟩ := decode_vexPrefix h hmemory hvex
      ([form.opcode 3] ++ (operand ++ (form.emitLast ++ stream)))
    have hsome : (form.extension memory).vex.isSome = true := by
      simp [Form.extension, Form.instruction, hvex]
    have hopcode : decodeOpcode (form.extension memory).vex.isSome
        ([form.opcode 3] ++ (operand ++ (form.emitLast ++ stream))) =
          some ([form.opcode 3], operand ++ (form.emitLast ++ stream)) := by
      rw [hsome]
      simp [decodeOpcode]
    have hbyte : form.opcode form.kOpcodeExtensionsCount ||| form.conditions.headD 0 =
        form.opcode 3 := by
      simp [hconditions, Form.kOpcodeExtensionsCount, hvex]
    rw [hbyte, decodeInstruction_of_parts hlegacy hhead hpre hopcode hmodrm']
    simp [Form.extension, Form.instruction, hvex]

/-- A store of 64 bits with a base, an index and a short displacement. -/
theorem decodeInstruction_movq : ∃ bytes, (Form.ofArguments [0x89] [.register ⟨.register64Bit, 9⟩,
          .memory ⟨true, ⟨some 12, some 13, .kTimesEight, 0xfffffff8⟩⟩]).emitInstruction =
          some bytes ∧ ∀ stream, decodeInstruction 0 (bytes ++ stream) =
          some (⟨[], none, true, true, [0x89], 9,
            ⟨some 12, some (13, .kTimesEight), 0xfffffff8⟩, []⟩,
            stream) := by
  obtain ⟨bytes, hbytes, hdecode⟩ := decodeInstruction_emitInstruction [0x89]
    [.register ⟨.register64Bit, 9⟩, .memory ⟨true, ⟨some 12, some 13, .kTimesEight, 0xfffffff8⟩⟩]
    ⟨true, ⟨some 12, some 13, .kTimesEight, 0xfffffff8⟩⟩
    ⟨⟨by decide, by decide, by decide, by decide, by decide, by decide, by decide⟩, by decide,
      by decide, by decide, by decide⟩ rfl (by decide)
  exact ⟨bytes, hbytes, fun stream => (hdecode stream).1⟩

end Instructions

end Berberis.X86
