import Berberis.Lib.ForLoop
import Berberis.Interpreter.Riscv64.VectorMasking

/-!
# State of the Vector Interpreter

The part of the guest CPU that vector instructions see, and the accesses that the
drivers of vector instructions make. There are 32 vector registers; the source
indexes them as an array, so an access outside of it is undefined behaviour and
gives no state here.
-/

namespace Berberis.Riscv64.Vector

open Lib

/-- The extra CSRs that intrinsics get. -/
inductive CsrName where
  | kFrm
  | kVxrm
  | kVxsat
  deriving DecidableEq

structure State where
  x : Nat → BitVec 64
  f : Nat → BitVec 64
  v : Nat → BitVec 128
  frm : BitVec 8
  vstart : BitVec 8
  vcsr : BitVec 8
  vl : BitVec 8
  vtype : BitVec 64
  insnAddr : BitVec 64
  mem : BitVec 64 → BitVec 8
  /-- The accesses so far, latest first: their addresses and sizes. -/
  accesses : List (BitVec 64 × Nat)
  exceptionRaised : Bool

namespace State

variable (s : State)

def getCsr : CsrName → BitVec 64
  | .kFrm => s.frm.setWidth 64
  | .kVxrm => (s.vcsr &&& 0b11#8).setWidth 64
  | .kVxsat => (s.vcsr >>> 2).setWidth 64

def setVstart (arg : BitVec 64) : State :=
  if s.exceptionRaised then s else { s with vstart := arg.setWidth 8 &&& 0b01111111#8 }

def undefined : State := { s with exceptionRaised := true }

def setV (n : Nat) (r : BitVec 128) : Option State :=
  if n < 32 then some { s with v := Function.update s.v n r } else none

variable {s}

theorem setVstart_zero (h : s.exceptionRaised = false) :
    s.setVstart 0 = { s with vstart := 0 } := by
  simp [setVstart, h]

theorem setV_of_lt {n : Nat} (h : n < 32) (r : BitVec 128) :
    s.setV n r = some { s with v := Function.update s.v n r } := if_pos h

end State

def getV (v : Nat → BitVec 128) (n : Nat) : Option (BitVec 128) :=
  if n < 32 then some (v n) else none

variable {v new : Nat → BitVec 128} {n a dst : Nat}

theorem getV_of_lt (h : n < 32) : getV v n = some (v n) := if_pos h

/-! ### Register groups -/

inductive VectorRegisterGroupMultiplier where
  | k1register
  | k2registers
  | k4registers
  | k8registers
  | kEigthOfRegister
  | kQuarterOfRegister
  | kHalfOfRegister
  deriving DecidableEq

open VectorRegisterGroupMultiplier

def numberOfRegistersInvolved : VectorRegisterGroupMultiplier → Nat
  | k2registers => 2
  | k4registers => 4
  | k8registers => 8
  | _ => 1

def numRegistersInvolvedForWideOperand : VectorRegisterGroupMultiplier → Nat
  | k1register => 2
  | k2registers => 4
  | k4registers => 8
  | _ => 1

def getVlmax (e : ElementType) : VectorRegisterGroupMultiplier → Nat
  | k1register => e.elementsCount
  | k2registers => 2 * e.elementsCount
  | k4registers => 4 * e.elementsCount
  | k8registers => 8 * e.elementsCount
  | kEigthOfRegister => e.elementsCount / 8
  | kQuarterOfRegister => e.elementsCount / 4
  | kHalfOfRegister => e.elementsCount / 2

theorem getVlmax_le (e : ElementType) (vlmul : VectorRegisterGroupMultiplier) :
    getVlmax e vlmul ≤ numberOfRegistersInvolved vlmul * e.elementsCount := by
  cases vlmul <;> simp only [getVlmax, numberOfRegistersInvolved] <;> omega

/-- All of the numbers are multiples, as the bits of all of them tell at once. -/
def isAligned (n alignment : Nat) : Bool := n % alignment = 0

def GroupSize (n : Nat) : Prop := n = 1 ∨ n = 2 ∨ n = 4 ∨ n = 8

theorem groupSize_numberOfRegistersInvolved (vlmul : VectorRegisterGroupMultiplier) :
    GroupSize (numberOfRegistersInvolved vlmul) := by
  cases vlmul <;> simp [GroupSize, numberOfRegistersInvolved]

theorem GroupSize.le (h : GroupSize n) : n ≤ 8 := by
  unfold GroupSize at h
  omega

theorem GroupSize.pos (h : GroupSize n) : 0 < n := by
  unfold GroupSize at h
  omega

theorem GroupSize.eq_two_pow (h : GroupSize n) : ∃ k ≤ 3, n = 2 ^ k := by
  rcases h with rfl | rfl | rfl | rfl
  · exact ⟨0, by omega, rfl⟩
  · exact ⟨1, by omega, rfl⟩
  · exact ⟨2, by omega, rfl⟩
  · exact ⟨3, by omega, rfl⟩

theorem isAligned_or {b : Nat} (h : GroupSize n) :
    isAligned (a ||| b) n = (isAligned a n && isAligned b n) := by
  rcases h.eq_two_pow with ⟨k, -, rfl⟩
  unfold isAligned
  rw [Nat.or_mod_two_pow, Bool.eq_iff_iff]
  simp [Nat.or_eq_zero_iff]

theorem isAligned_zero (n : Nat) : isAligned 0 n = true := by
  simp [isAligned]

/-- The register numbers of the arguments of one type, all in one number. -/
def orValuesOnlyForType {α : Type} (startNo : α → Option Nat) (args : List α) : Nat :=
  args.foldr (fun arg n => (startNo arg).getD 0 ||| n) 0

theorem isAligned_orValuesOnlyForType {α : Type} {args : List α} {startNo : α → Option Nat}
    (hn : GroupSize n) (h : ∀ arg ∈ args, ∀ r, startNo arg = some r → isAligned r n = true) :
    isAligned (orValuesOnlyForType startNo args) n = true := by
  induction args with
  | nil => exact isAligned_zero n
  | cons arg args ih =>
    have hrest := ih fun a ha => h a (List.mem_cons_of_mem arg ha)
    have harg := h arg (List.mem_cons_self ..)
    unfold orValuesOnlyForType at hrest ⊢
    rw [List.foldr_cons, isAligned_or hn, hrest, Bool.and_true]
    cases hst : startNo arg with
    | none => exact isAligned_zero n
    | some r => exact harg r hst

theorem add_le_of_isAligned (h : GroupSize n) (ha : a < 32) (halign : isAligned a n = true) :
    a + n ≤ 32 := by
  simp only [isAligned, decide_eq_true_eq] at halign
  rcases h with rfl | rfl | rfl | rfl <;> omega

theorem eq_or_disjoint_of_isAligned {b : Nat} (h : GroupSize n) (ha : isAligned a n = true)
    (hb : isAligned b n = true) : a = b ∨ a + n ≤ b ∨ b + n ≤ a := by
  simp only [isAligned, decide_eq_true_eq] at ha hb
  rcases h with rfl | rfl | rfl | rfl <;> omega

def element (e : ElementType) (v : Nat → BitVec 128) (base n : Nat) : BitVec e.bits :=
  lane e.bits (v (base + n / e.elementsCount)) (n % e.elementsCount)

theorem element_add (e : ElementType) (v : Nat → BitVec 128) (base index : Nat) {i : Nat}
    (hi : i < e.elementsCount) :
    element e v base (e.elementsCount * index + i) = lane e.bits (v (base + index)) i := by
  unfold element
  rw [Nat.mul_add_div e.elementsCount_pos, Nat.div_eq_of_lt hi, Nat.add_zero, Nat.mul_add_mod,
    Nat.mod_eq_of_lt hi]

/-! ### Loops over a group -/

def overwritten (v : Nat → BitVec 128) (dst k : Nat) (new : Nat → BitVec 128) :
    Nat → BitVec 128 :=
  fun r => if dst ≤ r ∧ r < dst + k then new (r - dst) else v r

theorem overwritten_of_not {k r : Nat} (h : r < dst ∨ dst + k ≤ r) :
    overwritten v dst k new r = v r := by
  unfold overwritten
  rw [if_neg (by omega)]

theorem overwritten_add {k i : Nat} (h : i < k) : overwritten v dst k new (dst + i) = new i := by
  unfold overwritten
  rw [if_pos (by omega), Nat.add_sub_cancel_left]

theorem update_overwritten (v new : Nat → BitVec 128) (dst k : Nat) :
    Function.update (overwritten v dst k new) (dst + k) (new k) =
      overwritten v dst (k + 1) new := by
  funext r
  by_cases hr : r = dst + k
  · rw [hr, Function.update_self, overwritten_add (Nat.lt_succ_self k)]
  · rw [Function.update_of_ne hr]
    unfold overwritten
    by_cases hmem : dst ≤ r ∧ r < dst + k
    · rw [if_pos hmem, if_pos (by omega)]
    · rw [if_neg hmem, if_neg (by omega)]

def writeRegister (compute : Nat → State → Option (BitVec 128)) (dst i : Nat) (s : State) :
    Option State :=
  (compute i s).bind (s.setV (dst + i))

/-- A loop that writes a group, whose body computes the same whether or not the
    registers before are overwritten. -/
theorem forRange_writeGroup {compute : Nat → State → Option (BitVec 128)} {start count : Nat}
    {s : State} (hdst : dst + (start + count) ≤ 32) (hnew : ∀ i < start, new i = s.v (dst + i))
    (hbody : ∀ i, start ≤ i → i < start + count →
      compute i { s with v := overwritten s.v dst i new } = some (new i)) :
    forRange (writeRegister compute dst) start count s =
      some { s with v := overwritten s.v dst (start + count) new } := by
  have hst : overwritten s.v dst start new = s.v := by
    funext r
    unfold overwritten
    split_ifs with h
    · rw [hnew _ (by omega), Nat.add_sub_cancel' h.1]
    · rfl
  have hloop : ∃ s', forRange (writeRegister compute dst) start count s = some s' ∧
      s' = { s with v := overwritten s.v dst (start + count) new } := by
    refine forRange_induct (fun i t => t = { s with v := overwritten s.v dst i new }) ?_ ?_
    · rw [hst]
    · rintro i t hle hlt rfl
      refine ⟨_, ?_, rfl⟩
      unfold writeRegister
      rw [hbody i hle hlt, Option.bind_some, State.setV_of_lt (by omega)]
      simp only [update_overwritten]
  rcases hloop with ⟨s', hs', rfl⟩
  exact hs'

end Berberis.Riscv64.Vector
