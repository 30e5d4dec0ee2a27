import Berberis.Lib.BitRange
import Berberis.Decoder.Riscv64.Decoder

/-!
# Immediates of the RISC-V Assembler

An immediate is kept as the bits that it has in an instruction. A maker takes an
integer of any type, tests whether it can be represented, and scatters its bits.
The conversions gather them again. The decoder gathers them on its own.

## Theorems

* `decodes_makeRaw`: The decoder finds it.
* `immediates_roundTrip`: All of this for the makers.
-/

namespace Berberis.Riscv

open Lib.BitRange Riscv64 List BitVec

inductive ImmediateClass where
  | bImmediate
  | csrImmediate
  | iImmediate
  | jImmediate
  | pImmediate
  | shift32Immediate
  | shift64Immediate
  | sImmediate
  | uImmediate
  deriving DecidableEq

/-- The integer types for which there are makers. -/
inductive IntType where
  | int8
  | uint8
  | int16
  | uint16
  | int32
  | uint32
  | int64
  | uint64
  deriving DecidableEq

namespace IntType

def width : IntType → Nat
  | .int8 | .uint8 => 8
  | .int16 | .uint16 => 16
  | .int32 | .uint32 => 32
  | .int64 | .uint64 => 64

def isSigned : IntType → Bool
  | .int8 | .int16 | .int32 | .int64 => true
  | .uint8 | .uint16 | .uint32 | .uint64 => false

def value (type : IntType) (x : BitVec type.width) : Int := valueOf type.isSigned x

def toInt32 (type : IntType) (x : BitVec type.width) : BitVec 32 :=
  if type.isSigned then x.signExtend 32 else x.setWidth 32

end IntType

def kMask : ImmediateClass → BitVec 32
  | .bImmediate => 0xfe000f80
  | .csrImmediate => 0x000f8000
  | .iImmediate => 0xfff00000
  | .jImmediate => 0xfffff000
  | .pImmediate => 0xfe000000
  | .shift32Immediate => 0x01f00000
  | .shift64Immediate => 0x03f00000
  | .sImmediate => 0xfe000f80
  | .uImmediate => 0xfffff000

/-- The test for signed immediates: the masked bits are all clear or, for a signed
    type, all set but the lowest ones. The second comparison is one of 64 bits. -/
def accetableMasked (kUnsigned64bitInputMask lowBits : BitVec 64) (isSigned : Bool) {w : Nat}
    (value : BitVec w) : Bool :=
  let kInputMask := kUnsigned64bitInputMask.setWidth w
  if !isSigned then value &&& kInputMask = 0
  else
    value &&& kInputMask = 0 ∨
      (value &&& kInputMask).signExtend 64 = kInputMask.signExtend 64 &&& ~~~lowBits

/-- The test for unsigned immediates. A negative number is a large one. -/
def accetableBelow (bound : Nat) {w : Nat} (value : BitVec w) : Bool := value.toNat < bound

def accetableValue (immediate : ImmediateClass) (isSigned : Bool) {w : Nat} (value : BitVec w) :
    Bool :=
  match immediate with
  | .bImmediate => accetableMasked 0xfffffffffffff001 0x1 isSigned value
  | .csrImmediate => accetableBelow 32 value
  | .iImmediate => accetableMasked 0xfffffffffffff800 0x0 isSigned value
  | .jImmediate => accetableMasked 0xfffffffffff00001 0x1 isSigned value
  | .pImmediate => accetableMasked 0xfffffffffffff81f 0x1f isSigned value
  | .shift32Immediate => accetableBelow 32 value
  | .shift64Immediate => accetableBelow 64 value
  | .sImmediate => accetableMasked 0xfffffffffffff800 0x0 isSigned value
  | .uImmediate => accetableMasked 0xffffffff80000fff 0xfff isSigned value

/-- The bits of an integer that was converted to 32 bits are put at their places. -/
def makeRaw (immediate : ImmediateClass) (value : BitVec 32) : BitVec 32 :=
  match immediate with
  | .bImmediate =>
    (value &&& 0x80000000) ||| (value &&& 0x00000800).sshiftRight 4 |||
      (value &&& 0x0000001f) <<< 7 ||| (value &&& 0x000007e0) <<< 20
  | .csrImmediate => value <<< 15
  | .iImmediate => value <<< 20
  | .jImmediate =>
    (value &&& 0x800ff000) ||| (value &&& 0x00000800) <<< 9 ||| (value &&& 0x000007fe) <<< 20
  | .pImmediate => value <<< 20
  | .shift32Immediate => value <<< 20
  | .shift64Immediate => value <<< 20
  | .sImmediate => (value &&& 0xffffffe0) <<< 20 ||| (value &&& 0x0000001f) <<< 7
  | .uImmediate => value

def makeImmediate (immediate : ImmediateClass) (type : IntType) (value : BitVec type.width) :
    Option (BitVec 32) :=
  if !accetableValue immediate type.isSigned value then none
  else some (makeRaw immediate (type.toInt32 value))

/-- A conversion operator of a class, with the type to which it converts. -/
structure Conversion where
  type : IntType
  convert : BitVec 32 → BitVec type.width

def shiftConversion (shift : Nat) (type : IntType) : Conversion :=
  ⟨type, fun value => (value.sshiftRight shift).signExtend type.width⟩

def unsignedConversions (shift : Nat) : List Conversion :=
  [.int8, .uint8, .int16, .uint16, .int32, .uint32, .int64, .uint64].map (shiftConversion shift)

def bImmediateToInt16 (value : BitVec 32) : BitVec 16 :=
  ((value.sshiftRight 7 &&& 0x001e) ||| (value.sshiftRight 20 &&& 0xf7e0) |||
    (value <<< 4 &&& 0x0800)).setWidth 16

def bImmediateToInt32 (value : BitVec 32) : BitVec 32 :=
  (value.sshiftRight 7 &&& 0x0000001e) ||| (value.sshiftRight 20 &&& 0xfffff7e0) |||
    (value <<< 4 &&& 0x00000800)

def bImmediateToInt64 (value : BitVec 32) : BitVec 64 :=
  (value.sshiftRight 7 &&& 0x0000001e).signExtend 64 |||
    ((value.sshiftRight 20).signExtend 64 &&& 0xfffffffffffff7e0) |||
    (value <<< 4 &&& 0x00000800).signExtend 64

def jImmediateToInt32 (value : BitVec 32) : BitVec 32 :=
  (value.sshiftRight 20 &&& 0xfff007fe) ||| (value.sshiftRight 9 &&& 0x00000800) |||
    (value &&& 0x000ff000)

def jImmediateToInt64 (value : BitVec 32) : BitVec 64 :=
  ((value.sshiftRight 20).signExtend 64 &&& 0xfffffffffff007fe) |||
    (value.sshiftRight 9 &&& 0x00000800).signExtend 64 ||| (value &&& 0x000ff000).signExtend 64

def sConversion (type : IntType) : Conversion :=
  ⟨type, fun value =>
    ((value.sshiftRight 7 &&& 0x0000001f) ||| value.sshiftRight 20).signExtend type.width⟩

def conversions : ImmediateClass → List Conversion
  | .bImmediate =>
    [⟨.int16, bImmediateToInt16⟩, ⟨.int32, bImmediateToInt32⟩, ⟨.int64, bImmediateToInt64⟩]
  | .csrImmediate => unsignedConversions 15
  | .iImmediate => [.int16, .int32, .int64].map (shiftConversion 20)
  | .jImmediate => [⟨.int32, jImmediateToInt32⟩, ⟨.int64, jImmediateToInt64⟩]
  | .pImmediate => [.int16, .int32, .int64].map (shiftConversion 20)
  | .shift32Immediate => unsignedConversions 20
  | .shift64Immediate => unsignedConversions 20
  | .sImmediate => [.int16, .int32, .int64].map sConversion
  | .uImmediate => [.int32, .int64].map (shiftConversion 0)

def iImmediateOfS (value : BitVec 32) : BitVec 32 :=
  (value &&& 0xfe000000) ||| (value &&& 0x00000f80) <<< 13

def sImmediateOfI (value : BitVec 32) : BitVec 32 :=
  (value &&& 0xfe000000) ||| (value &&& 0x01f00000).sshiftRight 13

/-- The numbers that can be represented: multiples of a power of two in a range of
    signed or of unsigned numbers. -/
def Representable : ImmediateClass → Int → Prop
  | .bImmediate, v => 2 ∣ v ∧ -2 ^ 12 ≤ v ∧ v < 2 ^ 12
  | .csrImmediate, v => 0 ≤ v ∧ v < 2 ^ 5
  | .iImmediate, v => -2 ^ 11 ≤ v ∧ v < 2 ^ 11
  | .jImmediate, v => 2 ∣ v ∧ -2 ^ 20 ≤ v ∧ v < 2 ^ 20
  | .pImmediate, v => 2 ^ 5 ∣ v ∧ -2 ^ 11 ≤ v ∧ v < 2 ^ 11
  | .shift32Immediate, v => 0 ≤ v ∧ v < 2 ^ 5
  | .shift64Immediate, v => 0 ≤ v ∧ v < 2 ^ 6
  | .sImmediate, v => -2 ^ 11 ≤ v ∧ v < 2 ^ 11
  | .uImmediate, v => 2 ^ 12 ∣ v ∧ -2 ^ 31 ≤ v ∧ v < 2 ^ 31

/-- What the decoder finds in an instruction that has an immediate of the class.
    The immediate for a prefetch is the upper part of another one. -/
def Decodes : ImmediateClass → BitVec 32 → Int → Prop
  | .bImmediate, code, v => ∃ args, decodeBranch code = [.compareAndBranch args] ∧ args.offset = v
  | .csrImmediate, code, v => ∀ args, .csrImm args ∈ decodeSystem code → args.imm = v
  | .iImmediate, code, v =>
    (∃ args, decodeLoad code = [.load args] ∧ args.offset = v) ∧
      ∀ args, .load args ∈ decodeLoadFp code → args.offset = v
  | .jImmediate, code, v => ∃ args, decodeJumpAndLink code = [.jumpAndLink args] ∧ args.offset = v
  | .pImmediate, code, v =>
    ∀ args, .opImm args ∈ decodeOpImm code .opImm .shiftImm .bitmanipImm 8 6 →
      args.imm = v + getBits 20 5 code
  | .shift32Immediate, code, v =>
    ∀ args, .opImmShift args ∈ decodeOpImm code .opImm32 .shiftImm32 .bitmanipImm32 16 5 →
      args.imm = v
  | .shift64Immediate, code, v =>
    ∀ args, .opImmShift args ∈ decodeOpImm code .opImm .shiftImm .bitmanipImm 8 6 →
      args.imm = v
  | .sImmediate, code, v =>
    (∃ args, decodeStore code = [.store args] ∧ args.offset = v) ∧
      ∀ args, .store args ∈ decodeStoreFp code → args.offset = v
  | .uImmediate, code, v => ∃ args, decodeLui code = [.lui args] ∧ args.imm = v

section Acceptable

theorem accetableMasked_iff {mask low : BitVec 64} {a n : Nat} (h : IsRangeMask mask low a n)
    {isSigned : Bool} {w : Nat} (hw : w ≤ 64) (hpos : 0 < w) (x : BitVec w) :
    accetableMasked mask low isSigned x ↔
      2 ^ a ∣ valueOf isSigned x ∧ -2 ^ n ≤ valueOf isSigned x ∧ valueOf isSigned x < 2 ^ n := by
  have hcast : (2 : Int) ^ n = ((2 ^ n : Nat) : Int) := by push_cast; rfl
  unfold accetableMasked valueOf
  cases isSigned with
  | false =>
    simp only [Bool.not_false, if_true, decide_eq_true_eq, Bool.false_eq_true, if_false]
    rw [and_mask_eq_zero_iff hw h, ← two_pow_dvd_toNat_iff, ← lt_two_pow_iff, hcast]
    have hdvd : (2 : Int) ^ a ∣ (x.toNat : Int) ↔ 2 ^ a ∣ x.toNat := by
      rw [← Int.natCast_dvd_natCast]
      rfl
    omega
  | true =>
    simp only [Bool.not_true, Bool.false_eq_true, if_false, decide_eq_true_eq, if_true]
    rw [two_pow_dvd_toInt_iff, and_mask_eq_zero_iff hw h]
    by_cases hn : n < w
    · rw [and_mask_eq_ones_iff hw hn h, toInt_range_iff x hn, ← and_or_left]
      refine and_congr_right fun _ => ?_
      rw [msb_eq_getLsbD_last]
      constructor
      · rintro (hbits | hbits) i hi hlt
        · rw [hbits i hi, hbits (w - 1) (by omega)]
        · rw [hbits i hi hlt, hbits (w - 1) (by omega) (by omega)]
      · intro hbits
        cases hmsb : x.getLsbD (w - 1) with
        | false =>
          refine Or.inl fun i hi => ?_
          by_cases hlt : i < w
          · rw [hbits i hi hlt, hmsb]
          · exact x.getLsbD_of_ge i (by omega)
        | true => exact Or.inr fun i hi hlt => by rw [hbits i hi hlt, hmsb]
    · -- The type has no bits above the range.
      have hrng : -2 ^ n ≤ x.toInt ∧ x.toInt < 2 ^ n := by
        have hpow : 2 ^ w ≤ 2 ^ n := Nat.pow_le_pow_right (by omega) (by omega)
        rw [hcast, toInt_eq_toNat_cond]
        split <;> omega
      rw [and_iff_left hrng]
      constructor
      · rintro (⟨hlow, -⟩ | heq)
        · exact hlow
        · exact (bits_of_and_mask_eq_ones hw h heq).1
      · exact fun hlow => Or.inl ⟨hlow, fun i hi => x.getLsbD_of_ge i (by omega)⟩

theorem accetableBelow_iff {bound : Nat} {isSigned : Bool} {w : Nat} (hbound : bound * 2 ≤ 2 ^ w)
    (x : BitVec w) :
    accetableBelow bound x ↔ 0 ≤ valueOf isSigned x ∧ valueOf isSigned x < bound := by
  unfold accetableBelow valueOf
  rw [decide_eq_true_eq, toInt_eq_toNat_cond]
  cases isSigned with
  | false =>
    omega
  | true =>
    split <;> omega

theorem IntType.width_pos (type : IntType) : 0 < type.width := by
  cases type <;> decide

theorem IntType.width_le (type : IntType) : type.width ≤ 64 := by
  cases type <;> decide

theorem IntType.le_width (type : IntType) : 8 ≤ type.width := by
  cases type <;> decide

theorem accetableValue_iff (immediate : ImmediateClass) (type : IntType) (x : BitVec type.width) :
    accetableValue immediate type.isSigned x ↔ Representable immediate (type.value x) := by
  have hbel : ∀ bound ≤ 64, accetableBelow bound x ↔ 0 ≤ type.value x ∧ type.value x < bound := by
    intro bound hbound
    refine accetableBelow_iff ?_ x
    have hpow : 2 ^ 8 ≤ 2 ^ type.width := Nat.pow_le_pow_right (by omega) type.le_width
    omega
  have hmask : ∀ {mask low a n}, IsRangeMask mask low a n →
      (accetableMasked mask low type.isSigned x ↔
        2 ^ a ∣ type.value x ∧ -2 ^ n ≤ type.value x ∧ type.value x < 2 ^ n) :=
    fun h => accetableMasked_iff h type.width_le type.width_pos x
  unfold accetableValue Representable
  cases immediate with
  | bImmediate | jImmediate => exact hmask (a := 1) ⟨by omega, by decide, by decide⟩
  | csrImmediate | shift32Immediate => exact hbel 32 (by omega)
  | iImmediate | sImmediate =>
    simpa using hmask (a := 0) (n := 11) ⟨by omega, by decide, by decide⟩
  | pImmediate | uImmediate => exact hmask ⟨by omega, by decide, by decide⟩
  | shift64Immediate => exact hbel 64 (by omega)

end Acceptable

section Bits

variable {x : BitVec 32}

theorem getLsbD_of_range {n : Nat} (hn : n < 32) (hlo : -2 ^ n ≤ x.toInt) (hhi : x.toInt < 2 ^ n) :
    ∀ i, n ≤ i → i < 32 → x.getLsbD i = x.getLsbD 31 := by
  intro i hi hlt
  rw [(toInt_range_iff x hn).mp ⟨hlo, hhi⟩ i hi hlt, msb_eq_getLsbD_last]

theorem bImmediateToInt32_makeRaw (h : Representable .bImmediate x.toInt) :
    bImmediateToInt32 (makeRaw .bImmediate x) = x := by
  obtain ⟨hdvd, hlo, hhi⟩ := h
  have hlow := (two_pow_dvd_toInt_iff x (a := 1)).mp hdvd 0 (by omega)
  have hhigh := getLsbD_of_range (by omega) hlo hhi
  unfold bImmediateToInt32 makeRaw
  refine eq_of_getLsbD_eq fun i hi => ?_
  interval_cases i <;>
    simp_all [getElem_sshiftRight, msb_eq_getLsbD_last]

theorem bImmediateToInt16_eq (value : BitVec 32) :
    bImmediateToInt16 value = (bImmediateToInt32 value).setWidth 16 := by
  unfold bImmediateToInt16 bImmediateToInt32
  simp only [setWidth_or, setWidth_and]
  rfl

theorem bImmediateToInt64_eq (value : BitVec 32) :
    bImmediateToInt64 value = (bImmediateToInt32 value).signExtend 64 := by
  unfold bImmediateToInt64 bImmediateToInt32
  simp only [signExtend_or, signExtend_and]
  rfl

theorem jImmediateToInt32_makeRaw (h : Representable .jImmediate x.toInt) :
    jImmediateToInt32 (makeRaw .jImmediate x) = x := by
  obtain ⟨hdvd, hlo, hhi⟩ := h
  have hlow := (two_pow_dvd_toInt_iff x (a := 1)).mp hdvd 0 (by omega)
  have hhigh := getLsbD_of_range (by omega) hlo hhi
  unfold jImmediateToInt32 makeRaw
  refine eq_of_getLsbD_eq fun i hi => ?_
  interval_cases i <;>
    simp_all [getElem_sshiftRight, msb_eq_getLsbD_last]

theorem jImmediateToInt64_eq (value : BitVec 32) :
    jImmediateToInt64 value = (jImmediateToInt32 value).signExtend 64 := by
  unfold jImmediateToInt64 jImmediateToInt32
  simp only [signExtend_or, signExtend_and]
  rfl

theorem iImmediateOfS_makeRaw (x : BitVec 32) :
    iImmediateOfS (makeRaw .sImmediate x) = makeRaw .iImmediate x := by
  unfold iImmediateOfS makeRaw
  refine eq_of_getLsbD_eq fun i hi => ?_
  interval_cases i <;> simp

theorem sImmediateOfI_makeRaw (x : BitVec 32) :
    sImmediateOfI (makeRaw .iImmediate x) = makeRaw .sImmediate x := by
  unfold sImmediateOfI makeRaw
  refine eq_of_getLsbD_eq fun i hi => ?_
  interval_cases i <;> simp [getElem_sshiftRight, msb_eq_getLsbD_last]

theorem sConversion_eq (x : BitVec 32) : ((makeRaw .sImmediate x).sshiftRight 7 &&& 0x0000001f) |||
        (makeRaw .sImmediate x).sshiftRight 20 =
      (makeRaw .iImmediate x).sshiftRight 20 := by
  unfold makeRaw
  refine eq_of_getLsbD_eq fun i hi => ?_
  interval_cases i <;> simp [getElem_sshiftRight, msb_eq_getLsbD_last]

theorem getLsbD_of_lt {n : Nat} (hlo : 0 ≤ x.toInt) (hhi : x.toInt < 2 ^ n) :
    ∀ i, n ≤ i → x.getLsbD i = false := by
  rw [← lt_two_pow_iff]
  have hcast : (2 : Int) ^ n = ((2 ^ n : Nat) : Int) := by push_cast; rfl
  rw [toInt_eq_toNat_cond] at hlo hhi
  split at hhi <;> omega

theorem makeRaw_and_kMask (immediate : ImmediateClass) (h : Representable immediate x.toInt) :
    makeRaw immediate x &&& kMask immediate = makeRaw immediate x := by
  unfold makeRaw kMask
  refine eq_of_getLsbD_eq fun i hi => ?_
  cases immediate with
  | bImmediate =>
    interval_cases i <;> simp_all [getElem_sshiftRight]
  | csrImmediate =>
    have hhigh := getLsbD_of_lt h.1 h.2 (i - 15)
    interval_cases i <;> simp_all
  | iImmediate | jImmediate | sImmediate => interval_cases i <;> simp
  | pImmediate =>
    have hlow := (two_pow_dvd_toInt_iff x (a := 5)).mp h.1 (i - 20)
    interval_cases i <;> simp_all
  | shift32Immediate | shift64Immediate =>
    have hhigh := getLsbD_of_lt h.1 h.2 (i - 20)
    interval_cases i <;> simp_all
  | uImmediate =>
    have hlow := (two_pow_dvd_toInt_iff x (a := 12)).mp h.1 i
    interval_cases i <;> simp_all

end Bits

section Conversions

def IntType.Holds (type : IntType) (v : Int) : Prop :=
  if type.isSigned then -2 ^ (type.width - 1) ≤ v ∧ v < 2 ^ (type.width - 1)
  else 0 ≤ v ∧ v < 2 ^ type.width

variable {type : IntType}

theorem IntType.holds_of_signed {n : Nat} {v : Int} (hsign : type.isSigned)
    (hn : n < type.width) (hlo : -2 ^ n ≤ v) (hhi : v < 2 ^ n) : type.Holds v := by
  have hpow : (2 : Int) ^ n ≤ 2 ^ (type.width - 1) := pow_le_pow_right₀ (by omega) (by omega)
  unfold IntType.Holds
  rw [if_pos hsign]
  omega

theorem IntType.holds_of_unsigned {n : Nat} {v : Int} (hn : n < type.width) (hlo : 0 ≤ v)
    (hhi : v < 2 ^ n) : type.Holds v := by
  have hpow : (2 : Int) ^ n ≤ 2 ^ (type.width - 1) := pow_le_pow_right₀ (by omega) (by omega)
  have hpow' : (2 : Int) ^ n ≤ 2 ^ type.width := pow_le_pow_right₀ (by omega) (by omega)
  unfold IntType.Holds
  split <;> omega

theorem IntType.value_signExtend (type : IntType) {x : BitVec 32} (h : type.Holds x.toInt) :
    type.value (x.signExtend type.width) = x.toInt := by
  unfold IntType.Holds at h
  unfold IntType.value valueOf
  by_cases hsign : type.isSigned
  · simp only [hsign, if_true] at h ⊢
    rw [toInt_signExtend]
    have hlo := le_toInt x
    have hhi := toInt_lt (x := x)
    refine Int.bmod_eq_of_le ?_ ?_
    all_goals
      cases type <;> simp [IntType.width, IntType.isSigned] at h hsign ⊢ <;> omega
  · simp only [hsign, Bool.false_eq_true, if_false] at h ⊢
    have hmsb : x.msb = false := by
      rw [msb_eq_toInt]
      simpa using h.1
    rw [signExtend_eq_setWidth_of_msb_false hmsb, toNat_setWidth, toInt_eq_toNat_of_msb hmsb]
    rw [toInt_eq_toNat_of_msb hmsb] at h
    have hlt : x.toNat < 2 ^ type.width := by exact_mod_cast h.2
    rw [Nat.mod_eq_of_lt hlt]

theorem IntType.toInt_toInt32 (type : IntType) (x : BitVec type.width)
    (hlo : -2 ^ 31 ≤ type.value x) (hhi : type.value x < 2 ^ 31) :
    (type.toInt32 x).toInt = type.value x := by
  unfold IntType.toInt32
  unfold IntType.value valueOf at *
  by_cases hsign : type.isSigned
  · simp only [hsign, if_true] at *
    have hlo' := le_toInt x
    have hhi' := toInt_lt (x := x)
    rw [toInt_signExtend]
    refine Int.bmod_eq_of_le ?_ ?_
    all_goals
      cases type <;> simp [IntType.width] at * <;> omega
  · simp only [hsign, Bool.false_eq_true, if_false] at *
    rw [toInt_setWidth]
    exact Int.bmod_eq_of_le (by omega) (by omega)

variable {x : BitVec 32}

theorem shiftConversion_shiftLeft {k : Nat} (hk : k < 32) (hlo : -2 ^ (32 - 1 - k) ≤ x.toInt)
    (hhi : x.toInt < 2 ^ (32 - 1 - k)) (h : type.Holds x.toInt) :
    type.value ((shiftConversion k type).convert (x <<< k)) = x.toInt := by
  unfold shiftConversion
  dsimp only
  rw [shiftLeft_sshiftRight x hk hlo hhi]
  exact type.value_signExtend h

theorem unsignedConversions_shiftLeft {k : Nat} (hk : k ≤ 20) (hlo : 0 ≤ x.toInt)
    (hhi : x.toInt < 2 ^ 6) :
    ∀ conv ∈ unsignedConversions k, conv.type.value (conv.convert (x <<< k)) = x.toInt := by
  intro conv hconv
  obtain ⟨type, -, rfl⟩ := mem_map.mp hconv
  have hpow : (2 : Int) ^ 6 ≤ 2 ^ (32 - 1 - k) := pow_le_pow_right₀ (by omega) (by omega)
  refine shiftConversion_shiftLeft (by omega) (by omega) (by omega) ?_
  exact IntType.holds_of_unsigned (n := 6) (Nat.lt_of_lt_of_le (by omega) type.le_width) hlo hhi

theorem signedConversions_shiftLeft (hlo : -2 ^ 11 ≤ x.toInt) (hhi : x.toInt < 2 ^ 11) :
    ∀ type ∈ [IntType.int16, .int32, .int64],
      type.value (((x <<< 20).sshiftRight 20).signExtend type.width) = x.toInt := by
  intro type htype
  rw [shiftLeft_sshiftRight x (by omega) hlo hhi]
  refine type.value_signExtend (IntType.holds_of_signed (n := 11) ?_ ?_ hlo hhi)
  all_goals
    revert type
    decide

theorem conversions_makeRaw (immediate : ImmediateClass) (h : Representable immediate x.toInt) :
    ∀ conv ∈ conversions immediate,
      conv.type.value (conv.convert (makeRaw immediate x)) = x.toInt := by
  intro conv hconv
  cases immediate with
  | bImmediate =>
    have hback := bImmediateToInt32_makeRaw h
    obtain ⟨-, hlo, hhi⟩ := h
    simp only [conversions, mem_cons, not_mem_nil, or_false] at hconv
    rcases hconv with rfl | rfl | rfl
    · dsimp only
      rw [bImmediateToInt16_eq, hback, ← signExtend_eq_setWidth_of_le x (by omega)]
      exact IntType.int16.value_signExtend (IntType.holds_of_signed rfl (by decide) hlo hhi)
    · dsimp only
      rw [hback]
      rfl
    · dsimp only
      rw [bImmediateToInt64_eq, hback]
      exact IntType.int64.value_signExtend (IntType.holds_of_signed rfl (by decide) hlo hhi)
  | csrImmediate | shift32Immediate =>
    exact unsignedConversions_shiftLeft (by omega) h.1 (h.2.trans (by omega)) conv hconv
  | iImmediate =>
    obtain ⟨type, htype, rfl⟩ := mem_map.mp hconv
    exact signedConversions_shiftLeft h.1 h.2 type htype
  | jImmediate =>
    have hback := jImmediateToInt32_makeRaw h
    obtain ⟨-, hlo, hhi⟩ := h
    simp only [conversions, mem_cons, not_mem_nil, or_false] at hconv
    rcases hconv with rfl | rfl
    · dsimp only
      rw [hback]
      rfl
    · dsimp only
      rw [jImmediateToInt64_eq, hback]
      exact IntType.int64.value_signExtend (IntType.holds_of_signed rfl (by decide) hlo hhi)
  | pImmediate =>
    obtain ⟨type, htype, rfl⟩ := mem_map.mp hconv
    exact signedConversions_shiftLeft h.2.1 h.2.2 type htype
  | shift64Immediate =>
    exact unsignedConversions_shiftLeft (by omega) h.1 h.2 conv hconv
  | sImmediate =>
    obtain ⟨type, htype, rfl⟩ := mem_map.mp hconv
    unfold sConversion
    dsimp only
    rw [sConversion_eq]
    exact signedConversions_shiftLeft h.1 h.2 type htype
  | uImmediate =>
    obtain ⟨type, htype, rfl⟩ := mem_map.mp hconv
    have hholds : type.Holds x.toInt := by
      refine IntType.holds_of_signed (n := 31) ?_ ?_ h.2.1 h.2.2
      all_goals
        clear hconv
        revert type
        decide
    have hback := shiftConversion_shiftLeft (k := 0) (by omega) h.2.1 h.2.2 hholds
    rwa [shiftLeft_zero] at hback

end Conversions

section Decoder

variable {size : Nat}

theorem testBit_getBits {start : Nat} (h : start + size ≤ 32) (code : BitVec 32) (i : Nat) :
    (getBits start size code).testBit i = (decide (i < size) && code.getLsbD (start + i)) := by
  unfold getBits
  rw [testBit_toNat, getLsbD_ushiftRight, getLsbD_shiftLeft]
  by_cases hi : i < size
  · have hsub : 32 - size + i - (32 - start - size) = start + i := by omega
    have hlt : 32 - size + i < 32 := by omega
    have hge : ¬32 - size + i < 32 - start - size := by omega
    simp [hi, hsub, hlt, hge]
  · have hge : ¬32 - size + i < 32 := by omega
    simp [hi, hge]

theorem signExtend_eq_toInt {x : BitVec 32} {val : Nat} (hsize : size < 32)
    (hlo : -2 ^ size ≤ x.toInt) (hhi : x.toInt < 2 ^ size)
    (hbits : ∀ i < size + 1, val.testBit i = x.getLsbD i) :
    Riscv64.signExtend (size + 1) val = x.toInt := by
  unfold Riscv64.signExtend
  have heq : BitVec.ofNat (size + 1) val = x.signExtend (size + 1) := by
    refine eq_of_getLsbD_eq fun i hi => ?_
    have hi' : i < 32 := by omega
    rw [getLsbD_ofNat, getLsbD_signExtend, if_pos hi', hbits i hi]
  rw [heq, toInt_signExtend, Nat.min_eq_left (by omega)]
  have hpow : ((2 ^ (size + 1) : Nat) : Int) = 2 * 2 ^ size := by
    push_cast
    ring
  exact Int.bmod_eq_of_le (by omega) (by omega)

variable {x code : BitVec 32}

theorem getElem_of_and_eq {mask raw : BitVec 32} (h : code &&& mask = raw) (i : Nat) (hi : i < 32)
    (hmask : mask[i] = true) : code[i] = raw[i] := by
  simp [← h, hmask]

theorem getBits_eq_toInt {start : Nat} (h : start + size ≤ 32) (hlo : 0 ≤ x.toInt)
    (hhi : x.toInt < 2 ^ size) (hbits : ∀ i < size, code.getLsbD (start + i) = x.getLsbD i) :
    (getBits start size code : Int) = x.toInt := by
  have hmsb : x.msb = false := by
    rw [msb_eq_toInt]
    simpa using hlo
  rw [toInt_eq_toNat_of_msb hmsb, Nat.cast_inj]
  refine Nat.eq_of_testBit_eq fun i => ?_
  rw [testBit_getBits h, testBit_toNat]
  by_cases hi : i < size
  · simp [hi, hbits i hi]
  · simp [hi, getLsbD_of_lt hlo hhi i (by omega)]

theorem load_offset (h : Representable .iImmediate x.toInt)
    (hcode : code &&& kMask .iImmediate = makeRaw .iImmediate x) :
    Riscv64.signExtend 12 (getBits 20 12 code) = x.toInt := by
  have hbits := getElem_of_and_eq hcode
  refine signExtend_eq_toInt (by omega) h.1 h.2 fun i hi => ?_
  interval_cases i <;> simp [testBit_getBits, -Nat.testBit_zero] <;> rw [hbits _ _ rfl] <;>
    simp [makeRaw]

theorem store_offset (h : Representable .sImmediate x.toInt)
    (hcode : code &&& kMask .sImmediate = makeRaw .sImmediate x) :
    Riscv64.signExtend 12 (getBits 7 5 code ||| (getBits 25 7 code <<< 5)) = x.toInt := by
  have hbits := getElem_of_and_eq hcode
  refine signExtend_eq_toInt (by omega) h.1 h.2 fun i hi => ?_
  interval_cases i <;> simp [testBit_getBits, -Nat.testBit_zero] <;> rw [hbits _ _ rfl] <;>
    simp [makeRaw]

theorem branch_offset (h : Representable .bImmediate x.toInt)
    (hcode : code &&& kMask .bImmediate = makeRaw .bImmediate x) : Riscv64.signExtend 13
        ((getBits 8 4 code ||| (getBits 25 6 code <<< 4) ||| (getBits 7 1 code <<< 10) |||
          (getBits 31 1 code <<< 11)) * 2) = x.toInt := by
  obtain ⟨hdvd, hlo, hhi⟩ := h
  have hlow := (two_pow_dvd_toInt_iff x (a := 1)).mp hdvd 0 (by omega)
  have hhigh := getLsbD_of_range (by omega) hlo hhi 12 (by omega) (by omega)
  have hbits := getElem_of_and_eq hcode
  refine signExtend_eq_toInt (by omega) hlo hhi fun i hi => ?_
  rw [← pow_one 2, ← Nat.shiftLeft_eq]
  simp only [Nat.zero_lt_succ, getLsbD_eq_getElem, Nat.reduceLT] at hlow hhigh
  interval_cases i <;> simp [testBit_getBits, -Nat.testBit_zero, hlow, hhigh] <;>
    rw [hbits _ _ rfl] <;>
    simp [makeRaw, getElem_sshiftRight, msb_eq_getLsbD_last, hlow]

theorem jump_offset (h : Representable .jImmediate x.toInt)
    (hcode : code &&& kMask .jImmediate = makeRaw .jImmediate x) : Riscv64.signExtend 21
        ((getBits 21 10 code ||| (getBits 20 1 code <<< 10) ||| (getBits 12 8 code <<< 11) |||
          (getBits 31 1 code <<< 19)) * 2) = x.toInt := by
  obtain ⟨hdvd, hlo, hhi⟩ := h
  have hlow := (two_pow_dvd_toInt_iff x (a := 1)).mp hdvd 0 (by omega)
  have hhigh := getLsbD_of_range (by omega) hlo hhi 20 (by omega) (by omega)
  have hbits := getElem_of_and_eq hcode
  refine signExtend_eq_toInt (by omega) hlo hhi fun i hi => ?_
  rw [← pow_one 2, ← Nat.shiftLeft_eq]
  simp only [Nat.zero_lt_succ, getLsbD_eq_getElem, Nat.reduceLT] at hlow hhigh
  interval_cases i <;> simp [testBit_getBits, -Nat.testBit_zero, hlow, hhigh] <;>
    rw [hbits _ _ rfl] <;> simp [makeRaw]

theorem lui_imm (h : Representable .uImmediate x.toInt)
    (hcode : code &&& kMask .uImmediate = makeRaw .uImmediate x) :
    Riscv64.signExtend 32 (getBits 12 20 code <<< 12) = x.toInt := by
  obtain ⟨hdvd, hlo, hhi⟩ := h
  have hbits := getElem_of_and_eq hcode
  refine signExtend_eq_toInt (by omega) hlo hhi fun i hi => ?_
  rw [Nat.testBit_shiftLeft, testBit_getBits (by omega)]
  by_cases hlow : i < 12
  · simp [hlow, (two_pow_dvd_toInt_iff x (a := 12)).mp hdvd i hlow]
  · have hge : 12 ≤ i := by omega
    have hmask : ∀ j < 32, 12 ≤ j → (kMask .uImmediate).getLsbD j = true := by decide
    have hbit := hbits i hi (hmask i hi hge)
    have hadd : 12 + (i - 12) = i := by omega
    have hlt : i - 12 < 20 := by omega
    simp only [hge, decide_true, Bool.true_and, hlt, hadd]
    exact hbit

theorem prefetch_offset (h : Representable .pImmediate x.toInt)
    (hcode : code &&& kMask .pImmediate = makeRaw .pImmediate x) :
    Riscv64.signExtend 12 (getBits 20 12 code) = x.toInt + getBits 20 5 code := by
  obtain ⟨hdvd, hlo, hhi⟩ := h
  have hbits := getElem_of_and_eq hcode
  have hrest : getBits 20 5 code < 2 ^ 5 := getBits_lt code (by omega)
  have hlow := (two_pow_dvd_toInt_iff x (a := 5)).mp hdvd
  have hrestB : ∀ i < 32, (BitVec.ofNat 32 (getBits 20 5 code)).getLsbD i =
      (decide (i < 5) && code.getLsbD (20 + i)) := by
    intro i hi
    rw [getLsbD_ofNat, testBit_getBits (by omega)]
    simp [hi]
  have hrestInt : (BitVec.ofNat 32 (getBits 20 5 code)).toInt = getBits 20 5 code := by
    rw [toInt_eq_toNat_cond, toNat_ofNat, Nat.mod_eq_of_lt (by omega), if_pos (by omega)]
  -- The two parts have no bits in common, so they are added.
  have hor : x + BitVec.ofNat 32 (getBits 20 5 code) =
      x ||| BitVec.ofNat 32 (getBits 20 5 code) := by
    refine add_eq_or_of_and_eq_zero _ _ (eq_of_getLsbD_eq fun i hi => ?_)
    rw [getLsbD_and, hrestB i hi]
    by_cases hi' : i < 5
    · simp [hlow i hi']
    · simp [hi']
  have hsum : (x + BitVec.ofNat 32 (getBits 20 5 code)).toInt = x.toInt + getBits 20 5 code := by
    rw [toInt_add, hrestInt]
    exact Int.bmod_eq_of_le (by omega) (by omega)
  rw [← hsum]
  refine signExtend_eq_toInt (by omega) (by omega) (by omega) fun i hi => ?_
  rw [hor, testBit_getBits (by omega), getLsbD_or, hrestB i (by omega)]
  by_cases hi' : i < 5
  · have hi₁ : i < 12 := by omega
    simp [hi', hi₁, hlow i hi']
  · interval_cases i <;> simp <;> rw [hbits _ _ rfl] <;> simp [makeRaw]

theorem mem_decodeLoadFp {args : LoadArgs} (h : .load args ∈ decodeLoadFp code) :
    args.offset = Riscv64.signExtend 12 (getBits 20 12 code) := by
  unfold decodeLoadFp at h
  split at h
  · unfold decodeVectorLoad at h
    split at h
    · simp at h
    · split at h <;> simp at h
  · unfold decodeScalarLoad at h
    cases mem_singleton.mp h
    rfl

theorem mem_decodeStoreFp {args : StoreArgs} (h : .store args ∈ decodeStoreFp code) :
    args.offset = Riscv64.signExtend 12 (getBits 7 5 code ||| (getBits 25 7 code <<< 5)) := by
  unfold decodeStoreFp at h
  split at h
  · unfold decodeVectorStore at h
    split at h
    · simp at h
    · split at h <;> simp at h
  · unfold decodeScalarStore at h
    cases mem_singleton.mp h
    rfl

theorem mem_decodeOpImm {args : OpImmArgs} {opType shift bitmanip : OpcodeType} {bits : Nat}
    (h : .opImm args ∈ decodeOpImm code opType shift bitmanip bits size) :
    args.imm = Riscv64.signExtend 12 (getBits 20 12 code) := by
  unfold decodeOpImm at h
  dsimp only at h
  split at h
  · cases mem_singleton.mp h
    rfl
  · split at h <;> simp at h

theorem mem_decodeOpImm_shift {args : ShiftImmArgs} {opType shift bitmanip : OpcodeType}
    {bits : Nat} (h : .opImmShift args ∈ decodeOpImm code opType shift bitmanip bits size) :
    args.imm = getBits 20 size code := by
  unfold decodeOpImm at h
  dsimp only at h
  split at h
  · simp at h
  · split at h
    · cases mem_singleton.mp h
      rfl
    · simp at h

theorem mem_decodeSystem {args : CsrImmArgs} (h : .csrImm args ∈ decodeSystem code) :
    args.imm = getBits 15 5 code := by
  unfold decodeSystem at h
  dsimp only at h
  split at h
  · simp at h
  · split at h
    · cases mem_singleton.mp h
      rfl
    · simp at h

theorem decodes_makeRaw (immediate : ImmediateClass) (h : Representable immediate x.toInt)
    (hcode : code &&& kMask immediate = makeRaw immediate x) : Decodes immediate code x.toInt := by
  have hbits := getElem_of_and_eq hcode
  cases immediate with
  | bImmediate => exact ⟨_, rfl, branch_offset h hcode⟩
  | csrImmediate =>
    intro args hargs
    rw [mem_decodeSystem hargs]
    refine getBits_eq_toInt (by omega) h.1 h.2 fun i hi => ?_
    interval_cases i <;> simp <;> rw [hbits _ _ rfl] <;> simp [makeRaw]
  | iImmediate =>
    refine ⟨⟨_, rfl, load_offset h hcode⟩, fun args hargs => ?_⟩
    rw [mem_decodeLoadFp hargs]
    exact load_offset h hcode
  | jImmediate => exact ⟨_, rfl, jump_offset h hcode⟩
  | pImmediate =>
    intro args hargs
    rw [mem_decodeOpImm hargs]
    exact prefetch_offset h hcode
  | shift32Immediate | shift64Immediate =>
    intro args hargs
    rw [mem_decodeOpImm_shift hargs]
    refine getBits_eq_toInt (by omega) h.1 h.2 fun i hi => ?_
    interval_cases i <;> simp <;> rw [hbits _ _ rfl] <;> simp [makeRaw]
  | sImmediate =>
    refine ⟨⟨_, rfl, store_offset h hcode⟩, fun args hargs => ?_⟩
    rw [mem_decodeStoreFp hargs]
    exact store_offset h hcode
  | uImmediate =>
    have himm := lui_imm h hcode
    simp only [Decodes, decodeLui, upperImmArgs, himm]
    exact ⟨_, rfl, rfl⟩

end Decoder

theorem representable_range {immediate : ImmediateClass} {v : Int}
    (h : Representable immediate v) : -2 ^ 31 ≤ v ∧ v < 2 ^ 31 := by
  cases immediate <;> simp [Representable] at h ⊢ <;> omega

/-- A maker returns a value exactly if the number can be represented. Then the value
    has no bits outside its mask, the conversions give the number back, and the
    decoder finds it in any instruction that has the value's bits. -/
theorem immediates_roundTrip (immediate : ImmediateClass) (type : IntType) (x : BitVec type.width) :
    ((makeImmediate immediate type x).isSome ↔ Representable immediate (type.value x)) ∧
      ∀ value, makeImmediate immediate type x = some value → value &&& kMask immediate = value ∧
        (∀ conv ∈ conversions immediate, conv.type.value (conv.convert value) = type.value x) ∧
        ∀ code, code &&& kMask immediate = value → Decodes immediate code (type.value x) := by
  have haccept := accetableValue_iff immediate type x
  unfold makeImmediate
  by_cases hrep : Representable immediate (type.value x)
  · rw [haccept.mpr hrep]
    refine ⟨iff_of_true rfl hrep, ?_⟩
    rintro value heq
    obtain rfl := Option.some.inj heq
    obtain ⟨hlo, hhi⟩ := representable_range hrep
    have hvalue := type.toInt_toInt32 x hlo hhi
    rw [← hvalue] at hrep ⊢
    exact ⟨makeRaw_and_kMask immediate hrep, conversions_makeRaw immediate hrep,
      fun code => decodes_makeRaw immediate hrep⟩
  · have hreject : accetableValue immediate type.isSigned x = false := by
      rw [← Bool.not_eq_true, haccept]
      exact hrep
    rw [hreject]
    exact ⟨iff_of_false (by simp) hrep, fun value heq => by simp at heq⟩

theorem makeImmediate_iImmediateOfS (type : IntType) (x : BitVec type.width) :
    (makeImmediate .sImmediate type x).map iImmediateOfS = makeImmediate .iImmediate type x ∧
      (makeImmediate .iImmediate type x).map sImmediateOfI = makeImmediate .sImmediate type x := by
  unfold makeImmediate accetableValue
  dsimp only
  split
  · exact ⟨rfl, rfl⟩
  · simp [iImmediateOfS_makeRaw, sImmediateOfI_makeRaw]

end Berberis.Riscv
