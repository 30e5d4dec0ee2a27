import Berberis.Lib.Gf2

/-!
# CRC32 by Multiplication without Carries

The interpreter shifts the data through the register bit by bit. The code that the lite
translator emits for x86-64 multiplies by a power of the variable and reduces the product
with two more multiplications. Both are additive in the accumulator and in the data, so
that they are the same if they agree where one bit is set.

## Theorems

* `crc32_exact`: The code computes the CRC, and so do the instructions for its bytes.
-/

namespace Berberis.LiteTranslator

open Lib BitVec

inductive Crc32Op where
  | kCrc32b | kCrc32h | kCrc32w | kCrc32x

/-! ### The interpreter -/

def crc32Bit (c : BitVec 32) : BitVec 32 := (c >>> 1) ^^^ if c.getLsbD 0 then 0xEDB88320 else 0

def crc32Bits : Nat → BitVec 32 → BitVec 32
  | 0, c => c
  | n + 1, c => crc32Bits n (crc32Bit c)

def crc32Byte (c : BitVec 32) (byte : BitVec 8) : BitVec 32 := crc32Bits 8 (c ^^^ byte.setWidth 32)

def Crc32Op.nbytes : Crc32Op → Nat
  | .kCrc32b => 1
  | .kCrc32h => 2
  | .kCrc32w => 4
  | .kCrc32x => 8

def crc32Bytes (src2 : BitVec 64) : Nat → BitVec 32 → BitVec 32
  | 0, crc => crc
  | n + 1, crc => crc32Byte (crc32Bytes src2 n crc) ((src2 >>> (n * 8)).setWidth 8)

def crc32 (op : Crc32Op) (src1 src2 : BitVec 64) : BitVec 64 :=
  (crc32Bytes src2 op.nbytes (src1.setWidth 32)).setWidth 64

/-! ### The emitted code -/

def movl (r : BitVec 64) : BitVec 64 := (r.setWidth 32).setWidth 64

def movdToSimd (r : BitVec 64) : BitVec 128 := (r.setWidth 32).setWidth 128

def movdFromSimd (x : BitVec 128) : BitVec 64 := (x.setWidth 32).setWidth 64

def movqFromSimd (x : BitVec 128) : BitVec 64 := x.setWidth 64

def pclmullqlqdq (x : BitVec 128) (xk : BitVec 64) : BitVec 128 := clmul (x.setWidth 64) xk

/-- The product in `xt`, from which the last instructions take the remainder. -/
def emitFold (op : Crc32Op) (src1 src2 : BitVec 64) : BitVec 128 :=
  let short (rt kc : BitVec 64) : BitVec 128 := pclmullqlqdq (movdToSimd (movl (rt ^^^ src1))) kc
  match op with
  | .kCrc32x =>
    let rt := movl src1 ^^^ src2
    let xt := movdToSimd rt
    let xh := movdToSimd (rt >>> 32)
    pclmullqlqdq xt 0x163CD6124 ^^^ pclmullqlqdq xh 0x1DB710640
  | .kCrc32h => short (movl src2 &&& 0xFFFF) 0x000010000
  | .kCrc32b => short (movl src2 &&& 0xFF) 0x001000000
  | .kCrc32w => short (movl src2) 0x1DB710640

def emitBarrett (xt : BitVec 128) : BitVec 64 :=
  let rt := movqFromSimd xt
  let rs := movdFromSimd (pclmullqlqdq (movdToSimd rt) 0x1F7011641)
  let rs := movqFromSimd (pclmullqlqdq (movdToSimd rs) 0x1DB710641)
  movl ((rt ^^^ rs) >>> 32)

def emitCrc32 (op : Crc32Op) (src1 src2 : BitVec 64) : BitVec 64 :=
  emitBarrett (emitFold op src1 src2)

/-! ### Additivity -/

theorem crc32Bit_additive : Additive crc32Bit := by
  intro x y
  have hpoly : ∀ a b : Bool, (if a ^^ b then (0xEDB88320 : BitVec 32) else 0) =
      (if a then 0xEDB88320 else 0) ^^^ if b then 0xEDB88320 else 0 := by decide
  unfold crc32Bit
  rw [ushiftRight_xor_distrib, getLsbD_xor, hpoly]
  ac_rfl

theorem crc32Bits_additive (n : Nat) : Additive (crc32Bits n) := by
  intro x y
  induction n generalizing x y with
  | zero => rfl
  | succ n ih => rw [crc32Bits, crc32Bit_additive, ih, crc32Bits, crc32Bits]

theorem crc32Bytes_xor (n : Nat) (c c' : BitVec 32) (d d' : BitVec 64) :
    crc32Bytes (d ^^^ d') n (c ^^^ c') = crc32Bytes d n c ^^^ crc32Bytes d' n c' := by
  induction n with
  | zero => rfl
  | succ n ih =>
    simp only [crc32Bytes, crc32Byte, ih, ushiftRight_xor_distrib, setWidth_xor,
      ← crc32Bits_additive 8 _ _]
    congr 1
    ac_rfl

variable (op : Crc32Op) (a a' d d' src1 src2 : BitVec 64)

theorem crc32_xor : crc32 op (a ^^^ a') (d ^^^ d') = crc32 op a d ^^^ crc32 op a' d' := by
  unfold crc32
  rw [setWidth_xor, crc32Bytes_xor, setWidth_xor]

theorem pclmullqlqdq_xor (x y : BitVec 128) (k : BitVec 64) :
    pclmullqlqdq (x ^^^ y) k = pclmullqlqdq x k ^^^ pclmullqlqdq y k := by
  rw [pclmullqlqdq, setWidth_xor]
  exact clmul_additive k _ _

theorem emitBarrett_additive : Additive emitBarrett := by
  intro x y
  simp only [emitBarrett, movl, movdToSimd, movdFromSimd, movqFromSimd, setWidth_xor,
    pclmullqlqdq_xor, ushiftRight_xor_distrib]
  ac_rfl

theorem and_xor (x y mask : BitVec 64) : (x ^^^ y) &&& mask = (x &&& mask) ^^^ (y &&& mask) := by
  refine eq_of_getLsbD_eq fun i _ => ?_
  rw [getLsbD_and, getLsbD_xor, getLsbD_xor, getLsbD_and, getLsbD_and, Bool.and_xor_distrib_right]

theorem emitFold_xor :
    emitFold op (a ^^^ a') (d ^^^ d') = emitFold op a d ^^^ emitFold op a' d' := by
  cases op <;>
    simp only [emitFold, movl, movdToSimd, setWidth_xor, pclmullqlqdq_xor,
      ushiftRight_xor_distrib, and_xor] <;> ac_rfl

theorem emitCrc32_xor :
    emitCrc32 op (a ^^^ a') (d ^^^ d') = emitCrc32 op a d ^^^ emitCrc32 op a' d' := by
  unfold emitCrc32
  rw [emitFold_xor, emitBarrett_additive]

theorem emitCrc32_eq : emitCrc32 op src1 src2 = crc32 op src1 src2 := by
  refine JointlyAdditive.eq_of_basis (emitCrc32_xor op) (crc32_xor op) ?_ ?_ src1 src2
  -- One bit of the accumulator, and one bit of the data.
  · cases op <;> decide +kernel
  · cases op <;> decide +kernel

theorem crc32_byte (acc : BitVec 64) (byte : BitVec 8) :
    crc32 .kCrc32b acc (byte.setWidth 64) = (crc32Byte (acc.setWidth 32) byte).setWidth 64 := by
  simp [crc32, Crc32Op.nbytes, crc32Bytes]

/-- The instruction for one byte, applied to the lowest `n` bytes of the data in turn. -/
def crc32Chain (src2 : BitVec 64) : Nat → BitVec 64 → BitVec 64
  | 0, acc => acc
  | n + 1, acc =>
    crc32 .kCrc32b (crc32Chain src2 n acc) (((src2 >>> (n * 8)).setWidth 8).setWidth 64)

theorem setWidth_crc32Chain (src2 : BitVec 64) (n : Nat) (acc : BitVec 64) :
    (crc32Chain src2 n acc).setWidth 32 = crc32Bytes src2 n (acc.setWidth 32) := by
  induction n with
  | zero => rfl
  | succ n ih =>
    rw [crc32Chain, crc32_byte, ih, setWidth_setWidth_of_le _ (by decide), setWidth_eq, crc32Bytes]

theorem crc32Chain_succ (src2 : BitVec 64) (n : Nat) (acc : BitVec 64) :
    crc32Chain src2 (n + 1) acc = (crc32Bytes src2 (n + 1) (acc.setWidth 32)).setWidth 64 := by
  rw [crc32Chain, crc32_byte, setWidth_crc32Chain, crc32Bytes]

/-- The emitted code computes the CRC of the interpreter, which is also what the instruction
    for one byte makes of the bytes of the data in turn. -/
theorem crc32_exact (op : Crc32Op) (src1 src2 : BitVec 64) :
    emitCrc32 op src1 src2 = crc32 op src1 src2 ∧
      crc32Chain src2 op.nbytes src1 = crc32 op src1 src2 := by
  refine ⟨emitCrc32_eq op src1 src2, ?_⟩
  cases op <;> exact crc32Chain_succ src2 _ src1

end Berberis.LiteTranslator
