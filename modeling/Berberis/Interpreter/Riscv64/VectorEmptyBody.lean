import Berberis.Interpreter.Riscv64.VectorDrivers
import Berberis.Interpreter.Riscv64.VectorMemoryMoves

/-!
# Vector Instructions without Elements

If `vstart` is not less than `vl` there are no elements to process, and a vector
instruction is to leave everything as it is but `vstart`. Most drivers return
early. What the others do:

* Comparisons to a mask set the bits of the tail.
* Operations with a carry raise an exception.
* `vslide1up` still writes element 0 if `vl` is 0, and `vslide1down` the element
  before `vl`, which is far outside the register file if `vl` is 0.

An exception is also raised for instructions that are legal but rejected: reductions
whose destination is not aligned, though it is a single register, narrowing operations
with a narrow source right after the destination, some loads and stores, and the
opcodes without a case.

## Theorems

* `run_untouched_iff`: Exactly the passive instructions do nothing.
-/

namespace Berberis.Riscv64.Vector

open Lib List BitVec Option

/-- Nothing changes but `vstart`: there is no exception, and memory is not accessed. -/
structure Untouched (s s' : State) : Prop where
  exceptionRaised : s'.exceptionRaised = false
  accesses : s'.accesses = s.accesses
  mem : s'.mem = s.mem
  v : ∀ r < 32, s'.v r = s.v r
  x : s'.x = s.x
  f : s'.f = s.f
  vl : s'.vl = s.vl
  vtype : s'.vtype = s.vtype

def GroupAt (regs r : Nat) : Prop := r < 32 ∧ isAligned r regs = true

instance (regs r : Nat) : Decidable (GroupAt regs r) := inferInstanceAs (Decidable (_ ∧ _))

def Inactive (vma : Option InactiveProcessing) (s : State) (n : Nat) : Prop :=
  vma ≠ none ∧ (s.v 0).getLsbD n = false

instance (vma : Option InactiveProcessing) (s : State) (n : Nat) : Decidable (Inactive vma s n) :=
  inferInstanceAs (Decidable (_ ∧ _))

/-! ### Legal operations -/

namespace VectorOperation

variable {e : ElementType}

/-- The operands are not reserved by the manual. Some operations need `vstart` to be 0. -/
def Legal (vlmul : VectorRegisterGroupMultiplier) (s : State) : VectorOperation e → Prop
  | sameWidth dst op => ∀ r ∈ dst :: op.sources, GroupAt (numberOfRegistersInvolved vlmul) r
  | merge dst op => ∀ r ∈ dst :: op.sources, GroupAt (numberOfRegistersInvolved vlmul) r
  | mixedWidth dst op => op.Legal vlmul dst
  | gathervv _ dst src1 src2 =>
    (∀ r ∈ [dst, src1, src2], GroupAt (numberOfRegistersInvolved vlmul) r) ∧
      dst ≠ src1 ∧ dst ≠ src2
  | gatherx _ dst src1 _ =>
    (∀ r ∈ [dst, src1], GroupAt (numberOfRegistersInvolved vlmul) r) ∧ dst ≠ src1
  | viotam dst src1 =>
    s.vstart = 0 ∧ GroupAt (numberOfRegistersInvolved vlmul) dst ∧ src1 < 32 ∧
      Apart dst (numberOfRegistersInvolved vlmul) src1 1
  | vidv dst => GroupAt (numberOfRegistersInvolved vlmul) dst
  | vmvsx dst _ => dst < 32
  | mm _ dst src1 src2 => dst < 32 ∧ src1 < 32 ∧ src2 < 32
  | vmUnary0 _ dst src1 => s.vstart = 0 ∧ dst < 32 ∧ src1 < 32 ∧ dst ≠ src1
  | toMask _ _ dst args =>
    dst < 32 ∧ ∀ r ∈ args.filterMap Arg.startNo, GroupAt (numberOfRegistersInvolved vlmul) r
  | vs _ _ _ dst _ src1 src2 =>
    s.vstart = 0 ∧ dst < 32 ∧ GroupAt (numberOfRegistersInvolved vlmul) src1 ∧ src2 < 32
  | vxm _ _ dst src1 _ => ∀ r ∈ [dst, src1], GroupAt (numberOfRegistersInvolved vlmul) r
  | vvm _ _ dst src1 src2 => ∀ r ∈ [dst, src1, src2], GroupAt (numberOfRegistersInvolved vlmul) r
  | slideup dst src _ =>
    (∀ r ∈ [dst, src], GroupAt (numberOfRegistersInvolved vlmul) r) ∧ dst ≠ src
  | slide1up dst src _ =>
    (∀ r ∈ [dst, src], GroupAt (numberOfRegistersInvolved vlmul) r) ∧ dst ≠ src
  | slidedown dst src _ => ∀ r ∈ [dst, src], GroupAt (numberOfRegistersInvolved vlmul) r
  | slide1down dst src _ => ∀ r ∈ [dst, src], GroupAt (numberOfRegistersInvolved vlmul) r
  | unimplemented => True

def Passive (vlmul : VectorRegisterGroupMultiplier) (vma : Option InactiveProcessing) (s : State) :
    VectorOperation e → Prop
  | mixedWidth dst op => ¬ op.SourceFollows vlmul dst
  | toMask _ _ dst _ => ∀ b, s.vl.toNat ≤ b → b < 128 → (s.v dst).getLsbD b = true
  | vs _ _ _ dst _ _ _ => isAligned dst (numberOfRegistersInvolved vlmul) = true
  | vxm _ _ _ _ _ => False
  | vvm _ _ _ _ _ => False
  | slide1up dst _ xval =>
    s.vstart ≠ 0 ∨ Inactive vma s 0 ∨ lane e.bits (s.v dst) 0 = xval
  | slide1down dst _ xval =>
    -- The bit for element `vl - 1` is bit 31 of the mask if `vl` is 0.
    if s.vl = 0 then
      (e = .e32 ∨ e = .e64) ∧ vma = some .kUndisturbed ∧ (s.v 0).getLsbD 31 = false
    else Inactive vma s (s.vl.toNat - 1) ∨ element e s.v dst (s.vl.toNat - 1) = xval
  | unimplemented => False
  | _ => True

end VectorOperation

namespace VectorInsn

def Legal (t : VType) (s : State) : VectorInsn → Prop
  | memory insn => LegalAccess insn t
  | arithmetic _ op => ∃ op', op t.vsew = some op' ∧ op'.Legal t.vlmul s

def Passive (t : VType) (s : State) : VectorInsn → Prop
  | memory insn => Accepted insn t
  | arithmetic vm op =>
    ∃ op', op t.vsew = some op' ∧ op'.Passive t.vlmul (if vm then none else some t.vma) s

end VectorInsn

/-! ### Results of drivers -/

section Results

variable {s : State} {result : Option State}

theorem untouched_iff {v' : Nat → BitVec 128} (hexc : s.exceptionRaised = false)
    (h : result = some { s with v := v', vstart := 0 }) :
    (∃ s', result = some s' ∧ Untouched s s') ↔ ∀ r < 32, v' r = s.v r := by
  rw [h]
  constructor
  · rintro ⟨s', hs', hunt⟩
    rw [← Option.some.inj hs'] at hunt
    exact hunt.v
  · intro hv
    exact ⟨_, rfl, hexc, rfl, rfl, hv, rfl, rfl, rfl, rfl⟩

theorem untouched_of_eq (hexc : s.exceptionRaised = false)
    (h : result = some { s with vstart := 0 }) : ∃ s', result = some s' ∧ Untouched s s' :=
  (untouched_iff hexc h).2 fun _ _ => rfl

theorem not_untouched_of_raised {t : State} (h : result = some t)
    (ht : t.exceptionRaised = true) : ¬ ∃ s', result = some s' ∧ Untouched s s' := by
  rintro ⟨s', hs', hunt⟩
  rw [h, Option.some.injEq] at hs'
  rw [hs', hunt.exceptionRaised] at ht
  cases ht

theorem not_untouched_of_none (h : result = none) : ¬ ∃ s', result = some s' ∧ Untouched s s' := by
  rintro ⟨s', hs', -⟩
  rw [h] at hs'
  cases hs'

theorem forall_update_eq_iff {v : Nat → BitVec 128} {n : Nat} {r : BitVec 128} (hn : n < 32) :
    (∀ i < 32, Function.update v n r i = v i) ↔ r = v n := by
  constructor
  · intro h
    have hsame := h n hn
    rwa [Function.update_self] at hsame
  · rintro rfl i -
    rw [Function.update_eq_self]

end Results

/-! ### Early exits -/

section Exits

variable {e : ElementType} {vlmul : VectorRegisterGroupMultiplier} {vta : TailProcessing}
  {vma : Option InactiveProcessing} {regs dst src src1 src2 : Nat} {s : State}

theorem isAligned_or_of_groupAt (hregs : GroupSize regs) (hdst : GroupAt regs dst)
    (hsrc : GroupAt regs src) : isAligned (dst ||| src) regs = true := by
  rw [isAligned_or hregs, hdst.2, hsrc.2]
  rfl

theorem not_overlap_of_ne (hregs : GroupSize regs) (hdst : GroupAt regs dst)
    (hsrc : GroupAt regs src) (hne : dst ≠ src) : ¬ (dst < src + regs ∧ src < dst + regs) := by
  rcases eq_or_disjoint_of_isAligned hregs hdst.2 hsrc.2 with heq | hlt | hlt
  · exact absurd heq hne
  · omega
  · omega

variable (hexc : s.exceptionRaised = false) (hempty : s.vl.toNat ≤ s.vstart.toNat)

include hexc hempty

theorem opVectorGather_of_empty (uninitialized : BitVec 128)
    (getElementIndex : Nat → Option (BitVec e.bits))
    (hdst : GroupAt (numberOfRegistersInvolved vlmul) dst)
    (hsrc : GroupAt (numberOfRegistersInvolved vlmul) src1) (hne : dst ≠ src1) :
    opVectorGather e vlmul vta vma uninitialized dst src1 getElementIndex s =
      some { s with vstart := 0 } := by
  have hregs := groupSize_numberOfRegistersInvolved vlmul
  unfold opVectorGather
  simp only [isAligned_or_of_groupAt hregs hdst hsrc, not_overlap_of_ne hregs hdst hsrc hne, hempty,
    State.setVstart_zero hexc, Bool.not_true, Bool.false_eq_true, if_false, if_true]

theorem opVectorVidv_of_empty (hdst : GroupAt regs dst) :
    opVectorVidv e vta vma regs dst s = some { s with vstart := 0 } := by
  unfold opVectorVidv
  simp only [hdst.2, hempty, State.setVstart_zero hexc, Bool.not_true, Bool.false_eq_true, if_false,
    if_true]

theorem opVectorVmvsx_of_empty (element : BitVec e.bits) :
    opVectorVmvsx e vta dst element s = some { s with vstart := 0 } := by
  have hbody : ¬ (s.vstart = 0 ∧ s.vl ≠ 0) := by
    rintro ⟨hst, hvl⟩
    rw [hst] at hempty
    exact hvl (eq_of_toNat_eq (Nat.le_zero.1 hempty))
  unfold opVectorVmvsx
  simp only [hbody, if_false, map_some, State.setVstart_zero hexc]

theorem opVectormm_of_empty (intrinsic : BitVec 128 → BitVec 128 → BitVec 128) :
    opVectormm intrinsic dst src1 src2 s = some { s with vstart := 0 } := by
  unfold opVectormm
  simp only [hempty, State.setVstart_zero hexc, if_true]

theorem opVectorslideup_of_empty (hregs : GroupSize regs) (hdst : GroupAt regs dst)
    (hsrc : GroupAt regs src) (hne : dst ≠ src) (offset : BitVec 64) :
    opVectorslideup e vta vma regs dst src offset s = some { s with vstart := 0 } := by
  unfold opVectorslideup
  simp only [isAligned_or_of_groupAt hregs hdst hsrc, not_overlap_of_ne hregs hdst hsrc hne, hempty,
    State.setVstart_zero hexc, Bool.not_true, Bool.false_eq_true, if_false, if_true]

theorem opVectorslidedown_of_empty (hdst : GroupAt (numberOfRegistersInvolved vlmul) dst)
    (hsrc : GroupAt (numberOfRegistersInvolved vlmul) src) (offset : BitVec 64) :
    opVectorslidedown e vlmul vta vma dst src offset s = some { s with vstart := 0 } := by
  have hregs := groupSize_numberOfRegistersInvolved vlmul
  unfold opVectorslidedown
  simp only [isAligned_or_of_groupAt hregs hdst hsrc, hempty, State.setVstart_zero hexc,
    Bool.not_true, Bool.false_eq_true, if_false, if_true]

theorem opVectorGathervv_of_empty (uninitialized : BitVec 128)
    (hdst : GroupAt (numberOfRegistersInvolved vlmul) dst)
    (hsrc1 : GroupAt (numberOfRegistersInvolved vlmul) src1)
    (hsrc2 : GroupAt (numberOfRegistersInvolved vlmul) src2) (hne : dst ≠ src1) :
    opVectorGathervv e vlmul vta vma uninitialized dst src1 src2 s =
      some { s with vstart := 0 } := by
  unfold opVectorGathervv
  rw [hsrc2.2, Bool.not_true, if_neg nofun]
  exact opVectorGather_of_empty hexc hempty uninitialized _ hdst hsrc1 hne

omit hexc in
theorem eq_of_vstart_eq (hst : s.vstart = 0) : s.vl = 0 ∧ s = { s with vstart := 0 } := by
  rw [hst] at hempty
  refine ⟨eq_of_toNat_eq (Nat.le_zero.1 hempty), ?_⟩
  rw [← hst]

omit hexc in
theorem opVectorViotam_of_empty (hst : s.vstart = 0) :
    opVectorViotam e vta vma regs dst src1 s = some { s with vstart := 0 } := by
  obtain ⟨hvl, hs⟩ := eq_of_vstart_eq hempty hst
  unfold opVectorViotam
  rw [if_neg (not_not.2 hst), if_pos hvl, ← hs]

omit hexc in
theorem opVectorVMUnary0_of_empty (hst : s.vstart = 0) (intrinsic : BitVec 128 → BitVec 128) :
    opVectorVMUnary0 vma intrinsic dst src1 s = some { s with vstart := 0 } := by
  obtain ⟨hvl, hs⟩ := eq_of_vstart_eq hempty hst
  unfold opVectorVMUnary0
  rw [if_neg (not_not.2 hst), if_pos hvl, ← hs]

variable (vta vma) in
theorem opVectorvs_of_empty {w : ElementType} (hregs : GroupSize regs) (hsrc : GroupAt regs src1)
    (hst : s.vstart = 0) (extraCsrs : List CsrName)
    (intrinsic : List (BitVec 64) → BitVec w.bits → SimdArg e → BitVec w.bits)
    (defaultElement : BitVec e.bits) (dst src2 : Nat) :
    opVectorvs e vta vma extraCsrs intrinsic regs dst defaultElement src1 src2 s =
      if isAligned dst regs then some { s with vstart := 0 } else some s.undefined := by
  obtain ⟨hvl, -⟩ := eq_of_vstart_eq hempty hst
  unfold opVectorvs
  rw [isAligned_or hregs, hsrc.2, Bool.and_true, if_neg (not_not.2 hst), State.setVstart_zero hexc]
  cases isAligned dst regs with
  | true => exact if_pos (congrArg BitVec.toNat hvl)
  | false => rfl

variable (vma) in
theorem opVectorToMask_of_empty (hregs : GroupSize regs) (hdst : dst < 32) {args : List (Arg e)}
    (hargs : ∀ r ∈ args.filterMap Arg.startNo, GroupAt regs r) (extraCsrs : List CsrName)
    (intrinsic : List (BitVec 64) → List (BitVec e.bits) → Bool) :
    opVectorToMask e vma extraCsrs intrinsic regs dst args s = some { s with
        v := Function.update s.v dst (s.v dst ||| maskFrom s.vl.toNat), vstart := 0 } := by
  have halign := isAligned_orValuesOnlyForType hregs fun arg harg r hr =>
      (hargs r (mem_filterMap.2 ⟨arg, harg, hr⟩)).2
  unfold opVectorToMask
  simp only [halign, getV_of_lt hdst, hempty, State.setVstart_zero hexc, Bool.not_true,
    Bool.false_eq_true, if_false, if_true, bind_some, State.setV_of_lt hdst]

variable (vta vma) in
theorem opVectorCarry_of_empty (hregs : GroupSize regs) (args : List (Arg e))
    (hargs : ∀ r ∈ dst :: args.filterMap Arg.startNo, GroupAt regs r) (extraCsrs : List CsrName)
    (intrinsic : List (BitVec 64) → List (BitVec e.bits) → BitVec e.bits → BitVec e.bits) :
    opVectorCarry e vta vma extraCsrs intrinsic regs dst args s =
      some { s with vstart := 0, exceptionRaised := true } := by
  have halign : isAligned (orValuesOnlyForType Arg.startNo args ||| dst) regs = true := by
    rw [isAligned_or hregs, (hargs dst (mem_cons_self ..)).2, Bool.and_true]
    exact isAligned_orValuesOnlyForType hregs fun arg harg r hr =>
      (hargs r (mem_cons_of_mem dst (mem_filterMap.2 ⟨arg, harg, hr⟩))).2
  unfold opVectorCarry
  simp only [halign, hempty, State.setVstart_zero hexc, Bool.not_true, Bool.false_eq_true, if_false,
    if_true]
  rfl

variable (vta vma) in
theorem opVectorslide1up_of_empty (hregs : GroupSize regs) (hdst : GroupAt regs dst)
    (hsrc : GroupAt regs src) (hne : dst ≠ src) (xval : BitVec e.bits) :
    opVectorslide1up e vta vma regs dst src xval s =
      if s.vstart ≠ 0 ∨ Inactive vma s 0 then some { s with vstart := 0 }
      else some { s with
        v := Function.update s.v dst (setLane e.bits (s.v dst) 0 xval), vstart := 0 } := by
  have hst : 0 < s.vstart.toNat ↔ s.vstart ≠ 0 := by
    rw [Nat.pos_iff_ne_zero, ne_eq, ne_eq, ← toNat_inj]
    rfl
  have hinact : (vma.isSome && !(s.v 0).getLsbD 0) = true ↔ Inactive vma s 0 := by
    unfold Inactive
    rw [Bool.and_eq_true, Bool.not_eq_true', isSome_iff_ne_none]
  unfold opVectorslide1up
  rw [opVectorslideup_of_empty hexc hempty hregs hdst hsrc hne, bind_some]
  simp only [hexc, hst, hinact, Bool.false_eq_true, if_false, getV_of_lt hdst.1,
    State.setV_of_lt hdst.1, bind_some]
  by_cases hbef : s.vstart ≠ 0
  · rw [if_pos hbef, if_pos (Or.inl hbef)]
  · rw [if_neg hbef]
    exact if_congr (or_iff_right hbef).symm rfl rfl

end Exits

/-! ### The last element -/

section LastElem

variable {e : ElementType} {vlmul : VectorRegisterGroupMultiplier} {vta : TailProcessing}
  {vma : Option InactiveProcessing} {dst src : Nat} {s : State}

theorem lastElem_of_ne (h : s.vl ≠ 0) : lastElem s = s.vl.toNat - 1 := by
  have hpos : s.vl.toNat ≠ 0 := fun hzero => h (eq_of_toNat_eq hzero)
  unfold lastElem
  rw [toNat_sub, toNat_setWidth]
  have hone : (1 : BitVec 64).toNat = 1 := rfl
  omega

theorem lastElem_of_eq (h : s.vl = 0) : lastElem s = 2 ^ 64 - 1 := by
  unfold lastElem
  rw [h]
  rfl

theorem le_lastElem_div (e : ElementType) (h : s.vl = 0) : 32 ≤ lastElem s / e.elementsCount := by
  rw [lastElem_of_eq h]
  cases e <;> decide

theorem getMaskForRegister_of_lt (mask : BitVec 128) {k : Nat} (hk : k < 8) :
    getMaskForRegister e mask k = some (maskForRegisterInSequence e mask k) := by
  cases e with
  | e8 => exact if_pos hk
  | e16 => exact if_pos (by omega)
  | e32 | e64 => rfl

theorem maskBit_last (h : s.vl ≠ 0) (hvl : s.vl.toNat ≤ 8 * e.elementsCount) :
    lastElem s / e.elementsCount < 8 ∧
      (maskForRegisterInSequence e (s.v 0) (lastElem s / e.elementsCount)).getLsbD
        (lastElem s % e.elementsCount) = (s.v 0).getLsbD (s.vl.toNat - 1) := by
  have hpos : s.vl.toNat ≠ 0 := fun hzero => h (eq_of_toNat_eq hzero)
  have hlt : lastElem s / e.elementsCount < 8 := by
    rw [lastElem_of_ne h]
    exact Nat.div_lt_of_lt_mul (by rw [Nat.mul_comm]; omega)
  refine ⟨hlt, ?_⟩
  rw [getLsbD_maskForRegisterInSequence e _ hlt (Nat.mod_lt _ e.elementsCount_pos),
    Nat.div_add_mod, lastElem_of_ne h]

theorem lastElemValue_of_ne (h : s.vl ≠ 0) (hvl : s.vl.toNat ≤ 8 * e.elementsCount)
    (xval : BitVec e.bits) : lastElemValue e vma dst xval s =
      if Inactive vma s (s.vl.toNat - 1) then if vma = some .kAgnostic then
          (getV s.v (dst + lastElem s / e.elementsCount)).map fun original =>
            some (lane e.bits original (lastElem s % e.elementsCount)) else some none
      else some (some xval) := by
  obtain ⟨hlt, hbit⟩ := maskBit_last h hvl
  unfold lastElemValue
  match vma with
  | none => rfl
  | some policy =>
    dsimp only
    rw [getMaskForRegister_of_lt _ hlt, bind_some, hbit]
    by_cases hact : (s.v 0).getLsbD (s.vl.toNat - 1) = true
    · have hnot : ¬ Inactive (some policy) s (s.vl.toNat - 1) := fun hinact =>
        Bool.noConfusion (hact.symm.trans hinact.2)
      rw [if_pos hact, if_neg hnot]
    · have hinact : Inactive (some policy) s (s.vl.toNat - 1) :=
        ⟨nofun, Bool.eq_false_iff.2 hact⟩
      rw [if_neg hact, if_pos hinact]
      cases policy <;> rfl

/-- If `vl` is 0, the index of the register is far too large for the parts of the mask, or
    it selects bit 31. -/
theorem getMaskForRegister_of_eq (e : ElementType) (mask : BitVec 128) (h : s.vl = 0) :
    (getMaskForRegister e mask (lastElem s / e.elementsCount)).map
        (BitVec.getLsbD · (lastElem s % e.elementsCount)) =
      if e = .e8 ∨ e = .e16 then none else some (mask.getLsbD 31) := by
  rw [lastElem_of_eq h]
  cases e with
  | e8 | e16 => rfl
  | e32 | e64 =>
    simp [getMaskForRegister, maskForRegisterInSequence, ElementType.elementsCount,
      ElementType.bits]

theorem lastElemValue_of_eq (h : s.vl = 0) (xval : BitVec e.bits) : lastElemValue e vma dst xval s =
      if vma = none then some (some xval) else if e = .e8 ∨ e = .e16 then none
      else if (s.v 0).getLsbD 31 then some (some xval)
      else if vma = some .kUndisturbed then some none
      else none := by
  have hle := le_lastElem_div e h
  have hnone : getV s.v (dst + lastElem s / e.elementsCount) = none := if_neg (by omega)
  have hmask := getMaskForRegister_of_eq e (s.v 0) h
  unfold lastElemValue
  match vma with
  | none => rfl
  | some policy =>
    dsimp only
    rw [if_neg nofun, hnone]
    by_cases he : e = .e8 ∨ e = .e16
    · rw [if_pos he, map_eq_none_iff] at hmask
      rw [if_pos he, hmask, bind_none]
    · rw [if_neg he, map_eq_some_iff] at hmask
      obtain ⟨bits, hbits, hbit⟩ := hmask
      rw [if_neg he, hbits, bind_some, hbit]
      cases policy <;> rfl

theorem register_lt_of_le_vlmax (hdst : GroupAt (numberOfRegistersInvolved vlmul) dst)
    (h : s.vl ≠ 0) (hvl : s.vl.toNat ≤ getVlmax e vlmul) :
    dst + (s.vl.toNat - 1) / e.elementsCount < 32 := by
  have hpos : s.vl.toNat ≠ 0 := fun hzero => h (eq_of_toNat_eq hzero)
  have hmax := hvl.trans (getVlmax_le e vlmul)
  have hdiv : (s.vl.toNat - 1) / e.elementsCount < numberOfRegistersInvolved vlmul :=
    Nat.div_lt_of_lt_mul (by rw [Nat.mul_comm]; omega)
  have hle := add_le_of_isAligned (groupSize_numberOfRegistersInvolved vlmul) hdst.1 hdst.2
  omega

variable (hexc : s.exceptionRaised = false) (hempty : s.vl.toNat ≤ s.vstart.toNat)
  (hdst : GroupAt (numberOfRegistersInvolved vlmul) dst)
  (hsrc : GroupAt (numberOfRegistersInvolved vlmul) src)

include hexc hempty hdst hsrc

variable (vta vma) in
theorem opVectorslide1down_of_ne (h : s.vl ≠ 0) (hvl : s.vl.toNat ≤ getVlmax e vlmul)
    (xval : BitVec e.bits) : opVectorslide1down e vlmul vta vma dst src xval s = some
      { s with
        v :=
          if Inactive vma s (s.vl.toNat - 1) then s.v
          else Function.update s.v (dst + (s.vl.toNat - 1) / e.elementsCount)
            (setLane e.bits (s.v (dst + (s.vl.toNat - 1) / e.elementsCount))
              ((s.vl.toNat - 1) % e.elementsCount) xval)
        vstart := 0 } := by
  have hregs := groupSize_numberOfRegistersInvolved vlmul
  have hmax := hvl.trans (getVlmax_le e vlmul)
  have height : s.vl.toNat ≤ 8 * e.elementsCount :=
    hmax.trans (Nat.mul_le_mul_right _ hregs.le)
  have hreg := register_lt_of_le_vlmax hdst h hvl
  have hmod := Nat.mod_lt (s.vl.toNat - 1) e.elementsCount_pos
  unfold opVectorslide1down
  rw [lastElemValue_of_ne h height, opVectorslidedown_of_empty hexc hempty hdst hsrc,
    lastElem_of_ne h, getV_of_lt hreg]
  by_cases hinact : Inactive vma s (s.vl.toNat - 1)
  · rw [if_pos hinact, if_pos hinact]
    by_cases hagn : vma = some .kAgnostic
    · -- The element is restored, though nothing has changed it.
      rw [if_pos hagn]
      simp [hexc, getV_of_lt hreg, State.setV_of_lt hreg, (setLane_eq_self_iff hmod).2 rfl]
    · rw [if_neg hagn]
      simp [hexc]
  · rw [if_neg hinact, if_neg hinact]
    simp [hexc, getV_of_lt hreg, State.setV_of_lt hreg]

variable (vta vma) in
theorem opVectorslide1down_of_eq (h : s.vl = 0) (xval : BitVec e.bits) :
    opVectorslide1down e vlmul vta vma dst src xval s =
      if (e = .e32 ∨ e = .e64) ∧ vma = some .kUndisturbed ∧ (s.v 0).getLsbD 31 = false then
        some { s with vstart := 0 }
      else none := by
  have hle := le_lastElem_div e h
  have hnone : ∀ v : Nat → BitVec 128, getV v (dst + lastElem s / e.elementsCount) = none :=
    fun v => if_neg (by omega)
  have hwide : ¬ (e = .e8 ∨ e = .e16) ↔ e = .e32 ∨ e = .e64 := by cases e <;> simp
  unfold opVectorslide1down
  rw [lastElemValue_of_eq h, opVectorslidedown_of_empty hexc hempty hdst hsrc]
  simp only [← hwide]
  by_cases hmask : vma = none
  · rw [if_pos hmask, if_neg (by simp [hmask])]
    simp [hexc, hnone]
  · rw [if_neg hmask]
    by_cases he : e = .e8 ∨ e = .e16
    · rw [if_pos he, if_neg fun hcond => hcond.1 he, bind_none]
    · rw [if_neg he]
      by_cases hact : (s.v 0).getLsbD 31 = true
      · rw [if_pos hact, if_neg (by simp [hact])]
        simp [hexc, hnone]
      · rw [if_neg hact]
        by_cases hund : vma = some .kUndisturbed
        · rw [if_pos hund, if_pos ⟨he, hund, Bool.eq_false_iff.2 hact⟩]
          simp [hexc]
        · rw [if_neg hund, if_neg fun hcond : _ ∧ _ ∧ _ => hund hcond.2.1, bind_none]

end LastElem

/-! ### Operations and instructions -/

theorem SameWidthOperation.untouched {e : ElementType} (op : SameWidthOperation e)
    (vlmul : VectorRegisterGroupMultiplier) (vta : TailProcessing)
    (vma : Option InactiveProcessing) {dst : Nat} {s : State}
    (h : ∀ r ∈ dst :: op.sources, GroupAt (numberOfRegistersInvolved vlmul) r)
    (hexc : s.exceptionRaised = false) (hempty : s.vl.toNat ≤ s.vstart.toNat) :
    ∃ s', op.run (numberOfRegistersInvolved vlmul) vta vma dst s = some s' ∧ Untouched s s' := by
  obtain ⟨v', hrun, houtc⟩ := op.run_outcome vlmul vta vma (h dst (mem_cons_self ..))
    (fun r hr => h r (mem_cons_of_mem dst hr)) hexc
  exact (untouched_iff hexc hrun).2 fun r _ => congrFun (houtc.empty hempty) r

theorem MixedWidthOperation.untouched_iff {e : ElementType} (op : MixedWidthOperation e)
    (vlmul : VectorRegisterGroupMultiplier) (vta : TailProcessing)
    (vma : Option InactiveProcessing) {dst : Nat} {s : State} (hleg : op.Legal vlmul dst)
    (hexc : s.exceptionRaised = false) (hempty : s.vl.toNat ≤ s.vstart.toNat) :
    (∃ s', op.run vlmul vta vma dst s = some s' ∧ Untouched s s') ↔
      ¬ op.SourceFollows vlmul dst := by
  have hout : ∀ {w : ElementType} {regs : Nat} {result inactive : Nat → BitVec w.bits}
      {run : Option State}, (∃ v', run = some { s with v := v', vstart := 0 } ∧
        Outcome w vta vma regs dst result inactive s v') →
      ∃ s', run = some s' ∧ Untouched s s' := by
    rintro w regs result inactive run ⟨v', hrun, houtc⟩
    exact (Vector.untouched_iff hexc hrun).2 fun r _ => congrFun (houtc.empty hempty) r
  cases op with
  | widen w hw extraCsrs intrinsic args =>
    obtain ⟨hvm, hdst, hargs⟩ := hleg
    refine iff_of_true ?_ not_false
    rw [run, if_pos hvm]
    exact hout (opVectorWiden_outcome hw hvm intrinsic hdst hargs hexc)
  | narrow w hw extraCsrs intrinsic uninitialized args =>
    obtain ⟨hvm, hdst, hargs⟩ := hleg
    rw [run, if_pos hvm]
    by_cases hfol : SourceFollows vlmul dst
        (.narrow w hw extraCsrs intrinsic uninitialized args)
    · obtain ⟨hone, arg, harg, hnext⟩ := id hfol
      exact iff_of_false
        (not_untouched_of_raised (opVectorNarrow_rejects hvm hone harg hnext) rfl)
        (not_not.2 hfol)
    · exact iff_of_true (hout (opVectorNarrow_outcome hw hvm intrinsic uninitialized hdst hargs
        (fun hone arg harg hnext => hfol ⟨hone, arg, harg, hnext⟩) hexc)) hfol
  | extend source factor hfact hw intrinsic src =>
    exact iff_of_true (hout (opVectorVXUnary0_outcome hw hfact
      (groupSize_numberOfRegistersInvolved vlmul) intrinsic hleg hexc)) not_false

theorem or_maskFrom_eq_iff (r : BitVec 128) (n : Nat) :
    r ||| maskFrom n = r ↔ ∀ b, n ≤ b → b < 128 → r.getLsbD b = true := by
  constructor
  · intro h b hn hb
    rw [← h, getLsbD_or, getLsbD_maskFrom n hb, decide_eq_true hn, Bool.or_true]
  · intro h
    refine eq_of_getLsbD_eq fun b hb => ?_
    rw [getLsbD_or, getLsbD_maskFrom n hb]
    by_cases hn : n ≤ b
    · rw [h b hn hb, Bool.true_or]
    · rw [decide_eq_false hn, Bool.or_false]

theorem VectorOperation.untouched_iff {e : ElementType} (op : VectorOperation e)
    (vlmul : VectorRegisterGroupMultiplier) (vta : TailProcessing)
    (vma : Option InactiveProcessing) {s : State} (hleg : op.Legal vlmul s)
    (hvl : s.vl.toNat ≤ getVlmax e vlmul) (hexc : s.exceptionRaised = false)
    (hempty : s.vl.toNat ≤ s.vstart.toNat) :
    (∃ s', op.run vlmul vta vma s = some s' ∧ Untouched s s') ↔ op.Passive vlmul vma s := by
  have hregs := groupSize_numberOfRegistersInvolved vlmul
  cases op with
  | sameWidth dst op =>
    exact iff_of_true (op.untouched vlmul vta vma hleg hexc hempty) trivial
  | merge dst op =>
    exact iff_of_true (op.untouched vlmul vta _ hleg hexc hempty) trivial
  | mixedWidth dst op => exact op.untouched_iff vlmul vta vma hleg hexc hempty
  | gathervv uninitialized dst src1 src2 =>
    obtain ⟨hgroups, hne, -⟩ := hleg
    exact iff_of_true (untouched_of_eq hexc (opVectorGathervv_of_empty hexc hempty uninitialized
      (hgroups dst (by simp)) (hgroups src1 (by simp)) (hgroups src2 (by simp)) hne)) trivial
  | gatherx uninitialized dst src1 index =>
    obtain ⟨hgroups, hne⟩ := hleg
    exact iff_of_true (untouched_of_eq hexc (opVectorGather_of_empty hexc hempty uninitialized _
      (hgroups dst (by simp)) (hgroups src1 (by simp)) hne)) trivial
  | viotam dst src1 =>
    exact iff_of_true (untouched_of_eq hexc (opVectorViotam_of_empty hempty hleg.1)) trivial
  | vidv dst =>
    exact iff_of_true (untouched_of_eq hexc (opVectorVidv_of_empty hexc hempty hleg)) trivial
  | vmvsx dst element =>
    exact iff_of_true (untouched_of_eq hexc (opVectorVmvsx_of_empty hexc hempty element)) trivial
  | mm intrinsic dst src1 src2 =>
    exact iff_of_true (untouched_of_eq hexc (opVectormm_of_empty hexc hempty intrinsic)) trivial
  | vmUnary0 intrinsic dst src1 =>
    exact iff_of_true (untouched_of_eq hexc (opVectorVMUnary0_of_empty hempty hleg.1
      intrinsic)) trivial
  | toMask extraCsrs intrinsic dst args =>
    have hrun := opVectorToMask_of_empty vma hexc hempty hregs hleg.1 hleg.2 extraCsrs intrinsic
    exact ((Vector.untouched_iff hexc hrun).trans (forall_update_eq_iff hleg.1)).trans
      (or_maskFrom_eq_iff (s.v dst) s.vl.toNat)
  | vs w extraCsrs intrinsic dst defaultElement src1 src2 =>
    obtain ⟨hst, hdst, hsrc, -⟩ := hleg
    have hrun := opVectorvs_of_empty vta vma hexc hempty hregs hsrc hst extraCsrs intrinsic
      defaultElement dst src2
    by_cases halign : isAligned dst (numberOfRegistersInvolved vlmul) = true
    · rw [if_pos halign] at hrun
      exact iff_of_true (untouched_of_eq hexc hrun) halign
    · rw [if_neg halign] at hrun
      exact iff_of_false (not_untouched_of_raised hrun rfl) halign
  | vxm extraCsrs intrinsic dst src1 arg2 =>
    have hrun := opVectorCarry_of_empty vta vma hexc hempty hregs [.vec src1, .scalar arg2] hleg
      extraCsrs intrinsic
    exact iff_of_false (not_untouched_of_raised hrun rfl) not_false
  | vvm extraCsrs intrinsic dst src1 src2 =>
    have hrun := opVectorCarry_of_empty vta vma hexc hempty hregs [.vec src1, .vec src2] hleg
      extraCsrs intrinsic
    exact iff_of_false (not_untouched_of_raised hrun rfl) not_false
  | slideup dst src offset =>
    obtain ⟨hgroups, hne⟩ := hleg
    exact iff_of_true (untouched_of_eq hexc (opVectorslideup_of_empty hexc hempty hregs
      (hgroups dst (by simp)) (hgroups src (by simp)) hne offset)) trivial
  | slide1up dst src xval =>
    obtain ⟨hgroups, hne⟩ := hleg
    have hdst := hgroups dst (by simp)
    have hrun := opVectorslide1up_of_empty vta vma hexc hempty hregs hdst (hgroups src (by simp))
      hne xval
    refine Iff.trans ?_ or_assoc
    by_cases hskip : s.vstart ≠ 0 ∨ Inactive vma s 0
    · rw [if_pos hskip] at hrun
      exact iff_of_true (untouched_of_eq hexc hrun) (Or.inl hskip)
    · rw [if_neg hskip] at hrun
      rw [or_iff_right hskip, ← setLane_eq_self_iff e.elementsCount_pos]
      exact (Vector.untouched_iff hexc hrun).trans (forall_update_eq_iff hdst.1)
  | slidedown dst src offset =>
    exact iff_of_true (untouched_of_eq hexc (opVectorslidedown_of_empty hexc hempty
      (hleg dst (by simp)) (hleg src (by simp)) offset)) trivial
  | slide1down dst src xval =>
    have hdst := hleg dst (by simp)
    have hsrc := hleg src (by simp)
    by_cases hvlz : s.vl = 0
    · have hrun := opVectorslide1down_of_eq vta vma hexc hempty hdst hsrc hvlz xval
      rw [Passive, if_pos hvlz]
      by_cases hcond : (e = .e32 ∨ e = .e64) ∧ vma = some .kUndisturbed ∧ (s.v 0).getLsbD 31 = false
      · rw [if_pos hcond] at hrun
        exact iff_of_true (untouched_of_eq hexc hrun) hcond
      · rw [if_neg hcond] at hrun
        exact iff_of_false (not_untouched_of_none hrun) hcond
    · have hrun := opVectorslide1down_of_ne vta vma hexc hempty hdst hsrc hvlz hvl xval
      rw [Passive, if_neg hvlz]
      by_cases hinact : Inactive vma s (s.vl.toNat - 1)
      · rw [if_pos hinact] at hrun
        exact iff_of_true (untouched_of_eq hexc hrun) (Or.inl hinact)
      · have hreg := register_lt_of_le_vlmax hdst hvlz hvl
        have hmod := Nat.mod_lt (s.vl.toNat - 1) e.elementsCount_pos
        rw [if_neg hinact] at hrun
        rw [or_iff_right hinact]
        exact ((Vector.untouched_iff hexc hrun).trans (forall_update_eq_iff hreg)).trans
          (setLane_eq_self_iff hmod)
  | unimplemented => exact iff_of_false (not_untouched_of_raised rfl rfl) not_false

theorem maskPolicy_encode (t : VType) (vm : Bool) :
    maskPolicy vm t.encode = if vm then none else some t.vma := by
  unfold maskPolicy VType.encode
  rw [if_congr (VType.bits_fields ..).2.2.2.2 rfl rfl]
  cases t.vma <;> rfl

theorem opVector_eq {t : VType} {s : State} (hvt : s.vtype = t.encode) {vm : Bool}
    {op : (e : ElementType) → Option (VectorOperation e)} {op' : VectorOperation t.vsew}
    (hop : op t.vsew = some op') :
    opVector vm op s = op'.run t.vlmul t.vta (if vm then none else some t.vma) s := by
  unfold opVector
  simp [hvt, t.msb_encode, t.ofVsew_encode, t.ofVlmul_encode, t.vtaOf_encode,
    maskPolicy_encode, hop]

/-- A legal instruction without elements does nothing exactly if it is passive. -/
theorem run_untouched_iff (insn : VectorInsn) (t : VType) (s : State) (hlegal : insn.Legal t s)
    (hvtype : s.vtype = t.encode) (hvl : s.vl.toNat ≤ getVlmax t.vsew t.vlmul)
    (hexc : s.exceptionRaised = false) (hempty : s.vl.toNat ≤ s.vstart.toNat)
    (faults : BitVec 64 → Nat → Bool) (uninitialized : Nat → BitVec 128) :
    (∃ s', insn.run faults uninitialized s = some s' ∧ Untouched s s') ↔ insn.Passive t s := by
  cases insn with
  | memory insn =>
    unfold VectorInsn.run VectorInsn.Passive
    dsimp only
    by_cases haccepted : Accepted insn t
    · have h := LegalAccess.handled hlegal haccepted
      have hevl : insn.evl s ≤ s.vstart.toNat := by
        unfold MemoryInsn.evl
        split <;> omega
      refine iff_of_true (untouched_of_eq hexc ?_) haccepted
      rw [opVectorMemory_of_handled h hvtype]
      exact run_of_evl_le h hexc hevl faults uninitialized
    · refine iff_of_false (not_untouched_of_raised (t := s.undefined) ?_ rfl) haccepted
      rw [opVectorMemory_eq (LegalAccess.opcode hlegal) hvtype, select_eq_none hvtype haccepted]
  | arithmetic vm op =>
    obtain ⟨op', hop, hlegal'⟩ := hlegal
    have hrun := op'.untouched_iff t.vlmul t.vta (if vm then none else some t.vma) hlegal' hvl hexc
      hempty
    unfold VectorInsn.run VectorInsn.Passive
    dsimp only
    rw [opVector_eq hvtype hop, hrun]
    constructor
    · intro hpassive
      exact ⟨op', hop, hpassive⟩
    · rintro ⟨op'', hop'', hpassive⟩
      rw [hop, Option.some.injEq] at hop''
      rwa [hop'']

def emptyState : State := { byteState with vl := 0 }

def vmseq : VectorInsn :=
  .arithmetic true fun _ => some (.toMask [] (fun _ args => args[0]? = args[1]?) 1 [.vec 2, .vec 3])

/-- It sets all bits of the tail. -/
theorem run_untouched_iff_vmseq :
    vmseq.Legal byteRegisters emptyState ∧ emptyState.vtype = byteRegisters.encode ∧
      emptyState.vl.toNat ≤ getVlmax byteRegisters.vsew byteRegisters.vlmul ∧
      emptyState.exceptionRaised = false ∧ emptyState.vl.toNat ≤ emptyState.vstart.toNat ∧
      (vmseq.run (fun _ _ => false) (fun _ => 0) emptyState).map
        (fun s => (s.v 1, emptyState.v 1)) =
        some (BitVec.allOnes 128, 0) :=
  ⟨⟨_, rfl, by decide, by decide⟩, rfl, by decide, rfl, by decide, by decide⟩

def vadd : VectorInsn :=
  .arithmetic true fun _ => some (.sameWidth 1 (.sameWidth [] (fun _ args => args.sum)
    [.vec 2, .vec 3]))

theorem run_untouched_iff_vadd : vadd.Passive byteRegisters emptyState ∧
      ∃ s', vadd.run (fun _ _ => false) (fun _ => 0) emptyState = some s' ∧
        Untouched emptyState s' := by
  have hpassive : vadd.Passive byteRegisters emptyState := ⟨_, rfl, trivial⟩
  have hlegal : vadd.Legal byteRegisters emptyState := by
    refine ⟨_, rfl, ?_⟩
    unfold VectorOperation.Legal
    decide
  exact ⟨hpassive, (run_untouched_iff vadd byteRegisters emptyState hlegal rfl (by decide) rfl
    (by decide) _ _).2 hpassive⟩

end Berberis.Riscv64.Vector
