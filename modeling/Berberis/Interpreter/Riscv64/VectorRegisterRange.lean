import Berberis.Interpreter.Riscv64.VectorEmptyBody

/-!
# Vector Instructions Stay in the Register File

The indices that the drivers use come from register numbers, from `vl` and from
slide offsets. An index that is out of range gives no state. For most drivers the
check that groups are aligned is enough, as an aligned group that starts in the
register file also ends in it. It is not for these:

* `vslidedown` reads the registers from the offset on, whether or not it needs
  them, and always one more than the group has.
* `vslide1down` reads the register of element `vl - 1` before the check, and
  there is no such element if `vl` is 0.
* `vrgather.vv` reads an index for all elements of a register, but copies only as
  many as a group has, which are less if LMUL is a fraction.
* `viota.m` has no check at all.

## Theorems

* `run_eq_none_iff`: No other instructions leave the register file or an array.
-/

namespace Berberis.Riscv64.Vector

open Lib List Option VectorRegisterGroupMultiplier

/-! ### When an access fails -/

variable {n : Nat} {α β : Type} {vtype : BitVec 64}

theorem getV_eq_none_iff {v : Nat → BitVec 128} : getV v n = none ↔ 32 ≤ n := by
  unfold getV
  split_ifs with h
  · exact iff_of_false nofun (by omega)
  · exact iff_of_true rfl (by omega)

theorem ite_ne_none {p : Prop} [Decidable p] {a b : Option α} (ha : p → a ≠ none)
    (hb : ¬ p → b ≠ none) : (if p then a else b) ≠ none := by
  split_ifs with h
  · exact ha h
  · exact hb h

theorem unless_ne_none {b : Bool} {a : α} {o : Option α} (h : b = true → o ≠ none) :
    (if (!b) = true then some a else o) ≠ none :=
  ite_ne_none nofun fun hb => h (by rwa [Bool.not_eq_true, Bool.not_eq_false'] at hb)

theorem bind_ne_none {o : Option α} {f : α → Option β} (ho : o ≠ none) (hf : ∀ a, f a ≠ none) :
    o.bind f ≠ none := by
  cases o with
  | none => exact absurd rfl ho
  | some a => exact hf a

theorem mapM_ne_none {f : α → Option β} {l : List α} (h : ∀ a ∈ l, f a ≠ none) :
    l.mapM f ≠ none := by
  induction l with
  | nil => exact nofun
  | cons a l ih =>
    rw [mapM_cons]
    refine bind_ne_none (h a (mem_cons_self ..)) fun b => ?_
    exact bind_ne_none (ih fun c hc => h c (mem_cons_of_mem a hc)) fun _ => nofun

theorem getV_ne_none {v : Nat → BitVec 128} (h : n < 32) : getV v n ≠ none := by
  rw [getV_of_lt h]
  exact nofun

theorem getV_bind_ne_none {v : Nat → BitVec 128} {f : BitVec 128 → Option β} (h : n < 32)
    (hf : ∀ r, f r ≠ none) : (getV v n).bind f ≠ none :=
  bind_ne_none (getV_ne_none h) hf

theorem setV_ne_none {s : State} {r : BitVec 128} (h : n < 32) : s.setV n r ≠ none := by
  rw [State.setV_of_lt h]
  exact nofun

theorem map_ne_none {o : Option α} {f : α → β} (h : o ≠ none) : o.map f ≠ none :=
  fun hnone => h (map_eq_none_iff.1 hnone)

theorem forRange_writeRegister_ne_none {compute : Nat → State → Option (BitVec 128)}
    {dst start count : Nat} {s : State} (hdst : dst + (start + count) ≤ 32)
    (h : ∀ i s, start ≤ i → i < start + count → compute i s ≠ none) :
    forRange (writeRegister compute dst) start count s ≠ none := by
  refine forRange_ne_none fun i s hle hlt => ?_
  exact bind_ne_none (h i s hle hlt) fun r => setV_ne_none (by omega)

/-! ### Drivers that stay in range -/

section InRange

variable {e w : ElementType} {vlmul : VectorRegisterGroupMultiplier} {vta : TailProcessing}
  {vma : Option InactiveProcessing} {regs dst src src1 src2 : Nat} {s : State}

variable {i : Nat}

section

variable (hregs : GroupSize regs)
include hregs

theorem add_lt_of_isAligned (hdst : dst < 32) (halign : isAligned dst regs = true) (hi : i < regs) :
    dst + i < 32 := by
  have hle := add_le_of_isAligned hregs hdst halign
  omega

theorem getD_add_le_of_isAligned {dstMask : Option Nat} (hle : dst + regs ≤ 32)
    (hmask : ∀ r ∈ dstMask, r < 32) (halign : isAligned (dstMask.getD 0) regs = true) :
    dstMask.getD dst + regs ≤ 32 := by
  cases dstMask with
  | none => exact hle
  | some r => exact add_le_of_isAligned hregs (hmask r rfl) halign

theorem isAligned_of_or (h : isAligned (dst ||| src) regs = true) :
    isAligned dst regs = true ∧ isAligned src regs = true := by
  rwa [isAligned_or hregs, Bool.and_eq_true] at h

theorem isAligned_of_orValuesOnlyForType {α : Type} {args : List α} {startNo : α → Option Nat}
    (h : isAligned (orValuesOnlyForType startNo args) regs = true) :
    ∀ arg ∈ args, ∀ r, startNo arg = some r → isAligned r regs = true := by
  induction args with
  | nil => exact nofun
  | cons arg args ih =>
    obtain ⟨hfst, hrest⟩ := isAligned_of_or hregs h
    intro arg' harg' r hr
    rcases mem_cons.1 harg' with rfl | hmem
    · rwa [hr, getD_some] at hfst
    · exact ih hrest arg' hmem r hr

theorem getVectorArgument_ne_none {arg : Arg e}
    (harg : ∀ r, arg.startNo = some r → r < 32 ∧ isAligned r regs = true) (hi : i < regs)
    {vstart vl : Nat} {mask : BitVec 128} {v : Nat → BitVec 128} :
    getVectorArgument vma vstart vl i mask v arg ≠ none := by
  cases arg with
  | vec startNo | vecDefault _ startNo =>
    obtain ⟨hlt, halign⟩ := harg startNo rfl
    exact map_ne_none (getV_ne_none (add_lt_of_isAligned hregs hlt halign hi))
  | scalar value => exact nofun

theorem mapM_getVectorArgument_ne_none {args : List (Arg e)}
    (hargs : ∀ r ∈ args.filterMap Arg.startNo, r < 32)
    (halign : isAligned (orValuesOnlyForType Arg.startNo args) regs = true) (hi : i < regs)
    {vstart vl : Nat} {mask : BitVec 128} {v : Nat → BitVec 128} :
    args.mapM (getVectorArgument vma vstart vl i mask v) ≠ none := by
  refine mapM_ne_none fun arg harg => getVectorArgument_ne_none hregs (fun r hr => ?_) hi
  exact ⟨hargs r (mem_filterMap.2 ⟨arg, harg, hr⟩),
    isAligned_of_orValuesOnlyForType hregs halign arg harg r hr⟩

end

variable (vta vma s)

section

variable (hregs : GroupSize regs)
include hregs

theorem opVectorSameWidth_ne_none (extraCsrs : List CsrName)
    (intrinsic : List (BitVec 64) → List (BitVec e.bits) → BitVec e.bits) (args : List (Arg e))
    (hdst : dst < 32) (hargs : ∀ r ∈ args.filterMap Arg.startNo, r < 32) :
    opVectorSameWidth regs vta vma extraCsrs intrinsic dst args s ≠ none := by
  refine unless_ne_none fun halign => ite_ne_none nofun fun _ => ?_
  obtain ⟨haa, hda⟩ := isAligned_of_or hregs halign
  have hle := add_le_of_isAligned hregs hdst hda
  refine forRange_writeRegister_ne_none (by omega) fun i s _ hi => ?_
  refine getV_bind_ne_none (by omega) fun _ => ?_
  exact bind_ne_none (mapM_getVectorArgument_ne_none hregs hargs haa (by omega))
    fun _ => nofun

theorem opVectorv_ne_none (extraCsrs : List CsrName)
    (intrinsic : List (BitVec 64) → BitVec e.bits → BitVec e.bits) (dstMask : Option Nat)
    (hdst : dst < 32) (hsrc : src < 32) (hmask : ∀ r ∈ dstMask, r < 32) :
    opVectorv regs vta vma extraCsrs intrinsic dst src dstMask s ≠ none := by
  refine unless_ne_none fun halign => ite_ne_none nofun fun _ => ?_
  obtain ⟨halign, hma⟩ := isAligned_of_or hregs halign
  obtain ⟨hda, hsa⟩ := isAligned_of_or hregs halign
  have hle := add_le_of_isAligned hregs hdst hda
  have hsrcLe := add_le_of_isAligned hregs hsrc hsa
  have hmaskLe := getD_add_le_of_isAligned hregs hle hmask hma
  refine forRange_writeRegister_ne_none (by omega) fun i s _ hi => ?_
  refine getV_bind_ne_none (by omega) fun _ => ?_
  refine getV_bind_ne_none (by omega) fun _ => ?_
  exact getV_bind_ne_none (by omega) fun _ => nofun

theorem opVectorx_ne_none (intrinsic : BitVec e.bits → BitVec e.bits)
    (arg2 : BitVec e.bits) (dstMask : Option Nat) (hdst : dst < 32)
    (hmask : ∀ r ∈ dstMask, r < 32) :
    opVectorx regs vta vma intrinsic dst arg2 dstMask s ≠ none := by
  refine unless_ne_none fun halign => ite_ne_none nofun fun _ => ?_
  obtain ⟨hda, hma⟩ := isAligned_of_or hregs halign
  have hle := add_le_of_isAligned hregs hdst hda
  have hmaskLe := getD_add_le_of_isAligned hregs hle hmask hma
  refine forRange_writeRegister_ne_none (by omega) fun i s _ hi => ?_
  refine getV_bind_ne_none (by omega) fun _ => ?_
  exact getV_bind_ne_none (by omega) fun _ => nofun

theorem SameWidthOperation.run_ne_none (op : SameWidthOperation e)
    (h : ∀ r ∈ dst :: op.sources, r < 32) : op.run regs vta vma dst s ≠ none := by
  have hdst := h dst (mem_cons_self ..)
  have hsrc : ∀ r ∈ op.sources, r < 32 := fun r hr => h r (mem_cons_of_mem dst hr)
  cases op with
  | sameWidth extraCsrs intrinsic args =>
    exact opVectorSameWidth_ne_none vta vma s hregs extraCsrs intrinsic args hdst hsrc
  | v extraCsrs intrinsic src dstMask =>
    exact opVectorv_ne_none vta vma s hregs extraCsrs intrinsic dstMask hdst
      (hsrc src (mem_cons_self ..))
      fun r hr => hsrc r (mem_cons_of_mem src (mem_toList.2 hr))
  | x intrinsic arg2 dstMask =>
    exact opVectorx_ne_none vta vma s hregs intrinsic arg2 dstMask hdst
      fun r hr => hsrc r (mem_toList.2 hr)

end

end InRange

/-! ### Operations of different widths -/

section MixedWidth

variable {e w : ElementType} {vlmul : VectorRegisterGroupMultiplier} {dst : Nat}
  {args : List (WideArg e)}

theorem isAligned_one (n : Nat) : isAligned n 1 = true := by
  simp [isAligned, Nat.mod_one]

/-- The register groups of the arguments are within the register file. -/
structure WideArgsAligned (vlmul : VectorRegisterGroupMultiplier) (args : List (WideArg e)) :
    Prop where
  vec : ∀ arg ∈ args, ∀ r ∈ arg.vecNo, r + numberOfRegistersInvolved vlmul ≤ 32
  wideVec : ∀ arg ∈ args, ∀ r ∈ arg.wideVecNo, r + numRegistersInvolvedForWideOperand vlmul ≤ 32

theorem aligned_of_check (hvm : vlmul ≠ .k8registers) {wide narrow : Nat}
    (h : ¬ (numRegistersInvolvedForWideOperand vlmul ≠ numberOfRegistersInvolved vlmul ∧
      (!isAligned wide (numRegistersInvolvedForWideOperand vlmul) ||
        !isAligned narrow (numberOfRegistersInvolved vlmul)) = true)) :
    isAligned wide (numRegistersInvolvedForWideOperand vlmul) = true ∧
      isAligned narrow (numberOfRegistersInvolved vlmul) = true := by
  have hpos := (groupSize_numberOfRegistersInvolved vlmul).pos
  rcases wideRegisters_cases hvm with ⟨-, hwide⟩ | ⟨-, hone, hone'⟩
  · have hne : numRegistersInvolvedForWideOperand vlmul ≠ numberOfRegistersInvolved vlmul := by
      omega
    rw [not_and, Bool.not_eq_true, Bool.or_eq_false_iff, Bool.not_eq_false', Bool.not_eq_false']
      at h
    exact h hne
  · rw [hone, hone']
    exact ⟨isAligned_one wide, isAligned_one narrow⟩

theorem wideArgsAligned
    (hreg : ∀ arg ∈ args, ∀ r, arg.vecNo = some r ∨ arg.wideVecNo = some r → r < 32)
    (hwide : isAligned (orValuesOnlyForType WideArg.wideVecNo args)
      (numRegistersInvolvedForWideOperand vlmul) = true)
    (hvec : isAligned (orValuesOnlyForType WideArg.vecNo args)
      (numberOfRegistersInvolved vlmul) = true) : WideArgsAligned vlmul args where
  vec arg harg r hr := by
    have hregs := groupSize_numberOfRegistersInvolved vlmul
    exact add_le_of_isAligned hregs (hreg arg harg r (Or.inl hr))
      (isAligned_of_orValuesOnlyForType hregs hvec arg harg r hr)
  wideVec arg harg r hr := by
    have hregs := groupSize_wideOperand vlmul
    exact add_le_of_isAligned hregs (hreg arg harg r (Or.inr hr))
      (isAligned_of_orValuesOnlyForType hregs hwide arg harg r hr)

theorem mapM_getHalfArgument_ne_none (hvm : vlmul ≠ .k8registers)
    (h : WideArgsAligned vlmul args) (v : Nat → BitVec 128) {k : Nat}
    (hk : k < numRegistersInvolvedForWideOperand vlmul) :
    args.mapM (getHalfArgument k v) ≠ none := by
  refine mapM_ne_none fun arg harg => ?_
  rw [getHalfArgument_eq arg (v := v) (fun r hr => ⟨?_, rfl⟩) fun r hr => ⟨?_, rfl⟩]
  · exact nofun
  · have hle := h.vec arg harg r hr
    have hsiz := wideRegisters_cases hvm
    omega
  · have hle := h.wideVec arg harg r hr
    omega

variable (vta : TailProcessing) (vma : Option InactiveProcessing) (s : State)

theorem opVectorWiden_ne_none (hvm : vlmul ≠ .k8registers) (extraCsrs : List CsrName)
    (intrinsic : List (BitVec 64) → List (Operand e w) → BitVec w.bits) (hdst : dst < 32)
    (hreg : ∀ arg ∈ args, ∀ r, arg.vecNo = some r ∨ arg.wideVecNo = some r → r < 32) :
    opVectorWiden vta vma extraCsrs (numRegistersInvolvedForWideOperand vlmul)
      (numberOfRegistersInvolved vlmul) intrinsic dst args s ≠ none := by
  refine ite_ne_none nofun fun hcheck => ite_ne_none nofun fun _ => ite_ne_none nofun fun _ => ?_
  obtain ⟨hwa, hva⟩ := aligned_of_check hvm hcheck
  obtain ⟨hwa, hda⟩ := isAligned_of_or (groupSize_wideOperand vlmul) hwa
  have hargs := wideArgsAligned hreg hwa hva
  have hle := add_le_of_isAligned (groupSize_wideOperand vlmul) hdst hda
  have hsiz := wideRegisters_cases hvm
  refine forRange_ne_none fun index s _ hidx => ?_
  refine bind_ne_none ?_ fun s => ite_ne_none (fun htwo => ?_) nofun
  · refine bind_ne_none ?_ fun _ => setV_ne_none (by omega)
    refine getV_bind_ne_none (by omega) fun _ => ?_
    rw [← getHalfArgument_even]
    exact bind_ne_none (mapM_getHalfArgument_ne_none hvm hargs s.v (by omega)) fun _ => nofun
  · refine bind_ne_none ?_ fun _ => setV_ne_none (by omega)
    refine getV_bind_ne_none (by omega) fun _ => ?_
    rw [← getHalfArgument_odd]
    exact bind_ne_none (mapM_getHalfArgument_ne_none hvm hargs s.v (by omega)) fun _ => nofun

theorem opVectorNarrow_ne_none (hvm : vlmul ≠ .k8registers) (extraCsrs : List CsrName)
    (intrinsic : List (BitVec 64) → List (Operand e w) → BitVec e.bits)
    (uninitialized : BitVec 128) (hdst : dst < 32)
    (hreg : ∀ arg ∈ args, ∀ r, arg.vecNo = some r ∨ arg.wideVecNo = some r → r < 32) :
    opVectorNarrow vta vma extraCsrs (numberOfRegistersInvolved vlmul)
      (numRegistersInvolvedForWideOperand vlmul) intrinsic uninitialized dst args s ≠ none := by
  have hregs := groupSize_numberOfRegistersInvolved vlmul
  refine ite_ne_none nofun fun hcheck => ite_ne_none nofun fun _ => ite_ne_none nofun fun _ => ?_
  obtain ⟨hwa, hva⟩ := aligned_of_check hvm hcheck
  obtain ⟨hva, hda⟩ := isAligned_of_or hregs hva
  have hargs := wideArgsAligned hreg hwa hva
  have hle := add_le_of_isAligned hregs hdst hda
  have hsiz := wideRegisters_cases hvm
  refine forRange_writeRegister_ne_none (by omega) fun index s _ hidx => ?_
  refine getV_bind_ne_none (by omega) fun _ => ?_
  rw [← getHalfArgument_even]
  refine bind_ne_none (mapM_getHalfArgument_ne_none hvm hargs s.v (by omega)) fun _ => ?_
  refine ite_ne_none (fun htwo => ?_) nofun
  rw [← getHalfArgument_odd]
  exact bind_ne_none (mapM_getHalfArgument_ne_none hvm hargs s.v (by omega)) fun _ => nofun

theorem opVectorVXUnary0_ne_none {regs factor src : Nat} (hregs : GroupSize regs)
    (hfact : factor = 2 ∨ factor = 4 ∨ factor = 8) (intrinsic : BitVec e.bits → BitVec w.bits)
    (hdst : dst < 32) (hsrc : src < 32) :
    opVectorVXUnary0 vta vma factor regs intrinsic dst src s ≠ none := by
  refine ite_ne_none nofun fun halign => ite_ne_none nofun fun _ => ?_
  rw [Bool.not_eq_true, Bool.or_eq_false_iff, Bool.not_eq_false', Bool.not_eq_false'] at halign
  have hle := add_le_of_isAligned hregs hdst halign.1
  have hsrcLe := add_le_of_isAligned (groupSize_sourceRegistersInvolved hfact hregs) hsrc halign.2
  refine map_ne_none (forRange_writeRegister_ne_none (by omega) fun i s _ hi => ?_)
  have hdiv : i / factor < sourceRegistersInvolved factor regs := by
    unfold sourceRegistersInvolved
    rcases hfact with rfl | rfl | rfl <;> rcases hregs with rfl | rfl | rfl | rfl <;>
      split <;> omega
  refine getV_bind_ne_none (by omega) fun _ => ?_
  exact getV_bind_ne_none (by omega) fun _ => nofun

def MixedWidthOperation.sources : MixedWidthOperation e → List Nat
  | widen _ _ _ _ args =>
    args.filterMap WideArg.vecNo ++ args.filterMap WideArg.wideVecNo
  | narrow _ _ _ _ _ args =>
    args.filterMap WideArg.vecNo ++ args.filterMap WideArg.wideVecNo
  | extend _ _ _ _ _ src => [src]

theorem MixedWidthOperation.run_ne_none (op : MixedWidthOperation e)
    (h : ∀ r ∈ dst :: op.sources, r < 32) : op.run vlmul vta vma dst s ≠ none := by
  have hdst := h dst (mem_cons_self ..)
  have hsrc : ∀ r ∈ op.sources, r < 32 := fun r hr => h r (mem_cons_of_mem dst hr)
  have hargs : ∀ args : List (WideArg e),
      (∀ r ∈ args.filterMap WideArg.vecNo ++ args.filterMap WideArg.wideVecNo, r < 32) →
      ∀ arg ∈ args, ∀ r, arg.vecNo = some r ∨ arg.wideVecNo = some r → r < 32 := by
    intro args hall arg harg r hr
    refine hall r (mem_append.2 ?_)
    rcases hr with hr | hr
    · exact Or.inl (mem_filterMap.2 ⟨arg, harg, hr⟩)
    · exact Or.inr (mem_filterMap.2 ⟨arg, harg, hr⟩)
  cases op with
  | widen w hw extraCsrs intrinsic args =>
    rw [run]
    split_ifs with hvm
    · exact opVectorWiden_ne_none vta vma s hvm extraCsrs intrinsic hdst (hargs args hsrc)
    · exact some_ne_none _
  | narrow w hw extraCsrs intrinsic uninitialized args =>
    rw [run]
    split_ifs with hvm
    · exact opVectorNarrow_ne_none vta vma s hvm extraCsrs intrinsic uninitialized hdst
        (hargs args hsrc)
    · exact some_ne_none _
  | extend source factor hfact hw intrinsic src =>
    exact opVectorVXUnary0_ne_none vta vma s (groupSize_numberOfRegistersInvolved vlmul) hfact
      intrinsic hdst (hsrc src (mem_singleton_self src))

end MixedWidth

/-! ### Other drivers that stay in range -/

section Others

variable {e w : ElementType} {vlmul : VectorRegisterGroupMultiplier} {regs dst src src1 src2 : Nat}
  (vta : TailProcessing) (vma : Option InactiveProcessing) (s : State)

theorem opVectorVidv_ne_none (hregs : GroupSize regs) (hdst : dst < 32) :
    opVectorVidv e vta vma regs dst s ≠ none := by
  refine unless_ne_none fun halign => ite_ne_none nofun fun _ => ?_
  have hle := add_le_of_isAligned hregs hdst halign
  exact forRange_writeRegister_ne_none (by omega) fun i s _ hi =>
    map_ne_none (getV_ne_none (by omega))

theorem opVectorVmvsx_ne_none (element : BitVec e.bits) (hdst : dst < 32) :
    opVectorVmvsx e vta dst element s ≠ none := by
  refine map_ne_none (ite_ne_none (fun _ => ?_) nofun)
  exact getV_bind_ne_none hdst fun _ => setV_ne_none hdst

theorem opVectormm_ne_none (intrinsic : BitVec 128 → BitVec 128 → BitVec 128) (hdst : dst < 32)
    (hsrc1 : src1 < 32) (hsrc2 : src2 < 32) : opVectormm intrinsic dst src1 src2 s ≠ none := by
  refine ite_ne_none nofun fun _ => ?_
  refine getV_bind_ne_none hsrc1 fun _ => getV_bind_ne_none hsrc2 fun _ => ?_
  refine ite_ne_none (fun _ => ?_) fun _ => setV_ne_none hdst
  exact bind_ne_none (map_ne_none (getV_ne_none hdst)) fun _ => setV_ne_none hdst

theorem opVectorVMUnary0_ne_none (intrinsic : BitVec 128 → BitVec 128) (hdst : dst < 32)
    (hsrc1 : src1 < 32) : opVectorVMUnary0 vma intrinsic dst src1 s ≠ none := by
  refine ite_ne_none nofun fun _ => ite_ne_none nofun fun _ => ?_
  refine getV_bind_ne_none hsrc1 fun _ => ?_
  match vma with
  | none => exact setV_ne_none hdst
  | some .kUndisturbed =>
    exact bind_ne_none (map_ne_none (getV_ne_none hdst)) fun _ => setV_ne_none hdst
  | some .kAgnostic => exact setV_ne_none hdst

section

variable (hregs : GroupSize regs) (extraCsrs : List CsrName)
include hregs

theorem opVectorToMask_ne_none
    (intrinsic : List (BitVec 64) → List (BitVec e.bits) → Bool) (args : List (Arg e))
    (hdst : dst < 32) (hargs : ∀ r ∈ args.filterMap Arg.startNo, r < 32) :
    opVectorToMask e vma extraCsrs intrinsic regs dst args s ≠ none := by
  refine unless_ne_none fun halign => ?_
  refine getV_bind_ne_none hdst fun _ => bind_ne_none ?_ fun _ => setV_ne_none hdst
  refine ite_ne_none nofun fun _ => map_ne_none (forRange_ne_none fun i _ _ hi => ?_)
  exact map_ne_none (map_ne_none (mapM_getVectorArgument_ne_none hregs hargs halign (by omega)))

theorem opVectorvs_ne_none
    (intrinsic : List (BitVec 64) → BitVec w.bits → SimdArg e → BitVec w.bits)
    (defaultElement : BitVec e.bits) (hdst : dst < 32) (hsrc1 : src1 < 32) (hsrc2 : src2 < 32) :
    opVectorvs e vta vma extraCsrs intrinsic regs dst defaultElement src1 src2 s ≠ none := by
  refine unless_ne_none fun halign => ite_ne_none nofun fun _ => ite_ne_none nofun fun _ => ?_
  obtain ⟨-, hsa⟩ := isAligned_of_or hregs halign
  refine getV_bind_ne_none hsrc2 fun _ => bind_ne_none ?_ fun _ =>
    getV_bind_ne_none hdst fun _ => setV_ne_none hdst
  refine forRange_ne_none fun i _ _ hi => map_ne_none ?_
  refine getVectorArgument_ne_none hregs (fun r hr => ?_) (by omega)
  cases hr
  exact ⟨hsrc1, hsa⟩

theorem opVectorCarry_ne_none
    (intrinsic : List (BitVec 64) → List (BitVec e.bits) → BitVec e.bits → BitVec e.bits)
    (args : List (Arg e)) (hdst : dst < 32) (hargs : ∀ r ∈ args.filterMap Arg.startNo, r < 32) :
    opVectorCarry e vta vma extraCsrs intrinsic regs dst args s ≠ none := by
  refine unless_ne_none fun halign => ite_ne_none nofun fun _ => ?_
  obtain ⟨haa, hda⟩ := isAligned_of_or hregs halign
  have hle := add_le_of_isAligned hregs hdst hda
  refine forRange_writeRegister_ne_none (by omega) fun i s _ hi => ?_
  refine bind_ne_none (mapM_getVectorArgument_ne_none hregs hargs haa (by omega)) fun _ => ?_
  exact getV_bind_ne_none (by omega) fun _ => nofun

end

theorem slideArg_ne_none {disp : Int} (h : disp < 32 - src) : slideArg src disp s ≠ none := by
  refine ite_ne_none nofun fun hneg => getV_ne_none ?_
  omega

theorem opVectorslideup_ne_none (hregs : GroupSize regs) (hdst : dst < 32) (hsrc : src < 32)
    (offset : BitVec 64) (hvl : s.vl.toNat ≤ regs * e.elementsCount) :
    opVectorslideup e vta vma regs dst src offset s ≠ none := by
  refine unless_ne_none fun halign => ite_ne_none nofun fun _ => ite_ne_none nofun fun _ => ?_
  obtain ⟨hda, hsa⟩ := isAligned_of_or hregs halign
  have hle := add_le_of_isAligned hregs hdst hda
  have hsrcLe := add_le_of_isAligned hregs hsrc hsa
  have hfst : min (max s.vstart.toNat offset.toNat) s.vl.toNat / e.elementsCount ≤ regs :=
    Nat.div_le_of_le_mul ((Nat.min_le_right ..).trans (by rwa [Nat.mul_comm]))
  dsimp only
  generalize min (max s.vstart.toNat offset.toNat) s.vl.toNat / e.elementsCount = first at hfst
  have hskip := Nat.zero_le (offset.toNat / e.elementsCount)
  refine forRange_writeRegister_ne_none (by omega) fun i s _ hi => ?_
  refine getV_bind_ne_none (by omega) fun _ => ?_
  refine bind_ne_none (slideArg_ne_none s (by omega)) fun _ => ?_
  exact bind_ne_none (slideArg_ne_none s (by omega)) fun _ => nofun

theorem opVectorslide1up_ne_none (hregs : GroupSize regs) (hdst : dst < 32) (hsrc : src < 32)
    (xval : BitVec e.bits) (hvl : s.vl.toNat ≤ regs * e.elementsCount) :
    opVectorslide1up e vta vma regs dst src xval s ≠ none := by
  refine bind_ne_none (opVectorslideup_ne_none vta vma s hregs hdst hsrc 1 hvl) fun s => ?_
  refine ite_ne_none nofun fun _ => ite_ne_none nofun fun _ => ite_ne_none nofun fun _ => ?_
  exact getV_bind_ne_none hdst fun _ => setV_ne_none hdst

end Others

/-! ### Drivers that leave the register file or an array -/

namespace VectorOperation

variable {e : ElementType}

def OutOfRange (vlmul : VectorRegisterGroupMultiplier) (vma : Option InactiveProcessing)
    (s : State) : VectorOperation e → Prop
  | gathervv _ dst src1 _ =>
    vlmul.atLeastOne = false ∧ dst ≠ src1 ∧ s.vstart.toNat < s.vl.toNat
  | viotam dst _ => s.vstart = 0 ∧ s.vl ≠ 0 ∧ 32 < dst + numberOfRegistersInvolved vlmul
  | slidedown dst src offset =>
    isAligned dst (numberOfRegistersInvolved vlmul) = true ∧
      isAligned src (numberOfRegistersInvolved vlmul) = true ∧ s.vstart.toNat < s.vl.toNat ∧
      31 < src + numberOfRegistersInvolved vlmul + offset.toNat / e.elementsCount
  | slide1down dst src _ =>
    if s.vl = 0 then
      -- The number of the element wraps around, and selects bit 31 of the mask at best.
      (vma ≠ none ∧ (e = .e8 ∨ e = .e16)) ∨
        (vma = some .kAgnostic ∧ (s.v 0).getLsbD 31 = false) ∨
        isAligned dst (numberOfRegistersInvolved vlmul) = true ∧
          isAligned src (numberOfRegistersInvolved vlmul) = true ∧
          (vma = none ∨ (s.v 0).getLsbD 31 = true)
    else
      (vma = some .kAgnostic ∧ (s.v 0).getLsbD (s.vl.toNat - 1) = false ∧
          31 < dst + (s.vl.toNat - 1) / e.elementsCount) ∨
        isAligned dst (numberOfRegistersInvolved vlmul) = true ∧
          isAligned src (numberOfRegistersInvolved vlmul) = true ∧
          s.vstart.toNat < s.vl.toNat ∧ 31 < src + numberOfRegistersInvolved vlmul
  | _ => False

end VectorOperation

section OutOfRange

variable {e : ElementType} {vlmul : VectorRegisterGroupMultiplier} {regs dst src src1 src2 : Nat}
  (vta : TailProcessing) (vma : Option InactiveProcessing) (s : State)

theorem opVectorViotam_eq_none_iff (hregs : GroupSize regs) (hsrc1 : src1 < 32) :
    opVectorViotam e vta vma regs dst src1 s = none ↔
      s.vstart = 0 ∧ s.vl ≠ 0 ∧ 32 < dst + regs := by
  have hpos := hregs.pos
  have hround : ∀ (vl : Nat) (mask : BitVec 128) (i : Nat) (l : BitVec 128 × Nat × State),
      viotamRegister e vta vma dst vl mask i l = none ↔ 32 ≤ dst + i := by
    rintro vl mask i ⟨arg1, counter, s⟩
    unfold viotamRegister
    by_cases hlt : dst + i < 32
    · simp only [getV_of_lt hlt, State.setV_of_lt hlt, bind_eq_bind, bind_some]
      exact iff_of_false nofun (by omega)
    · simp only [getV_eq_none_iff.2 (Nat.le_of_not_lt hlt), bind_eq_bind, bind_none]
      exact iff_of_true trivial (by omega)
  unfold opVectorViotam
  by_cases hst : s.vstart ≠ 0
  · rw [if_pos hst]
    exact iff_of_false nofun fun h => hst h.1
  · rw [if_neg hst]
    by_cases hvl : s.vl = 0
    · rw [if_pos hvl]
      exact iff_of_false nofun fun h => h.2.1 hvl
    · rw [if_neg hvl, getV_of_lt hsrc1, bind_some, map_eq_none_iff,
        forRange_eq_none_iff (fun i => 32 ≤ dst + i) fun i l _ _ => hround _ _ i l]
      constructor
      · rintro ⟨i, -, hi, hle⟩
        exact ⟨not_not.1 hst, hvl, by omega⟩
      · rintro ⟨-, -, hlt⟩
        exact ⟨regs - 1, by omega, by omega, by omega⟩

theorem opVectorslidedown_eq_none_iff (hdst : dst < 32) (offset : BitVec 64) :
    opVectorslidedown e vlmul vta vma dst src offset s = none ↔
      isAligned dst (numberOfRegistersInvolved vlmul) = true ∧
        isAligned src (numberOfRegistersInvolved vlmul) = true ∧ s.vstart.toNat < s.vl.toNat ∧
        31 < src + numberOfRegistersInvolved vlmul + offset.toNat / e.elementsCount := by
  have hregs := groupSize_numberOfRegistersInvolved vlmul
  have hpos := hregs.pos
  unfold opVectorslidedown
  dsimp only
  rw [isAligned_or hregs]
  generalize numberOfRegistersInvolved vlmul = regs at hregs hpos ⊢
  cases hda : isAligned dst regs with
  | false => exact iff_of_false nofun nofun
  | true =>
    cases hsa : isAligned src regs with
    | false => exact iff_of_false nofun nofun
    | true =>
      have hle := add_le_of_isAligned hregs hdst hda
      rw [Bool.and_self, Bool.not_true, if_neg nofun]
      split_ifs with hemp
      · exact iff_of_false nofun fun h => absurd h.2.2.1 (Nat.not_lt.2 hemp)
      · rw [forRange_eq_none_iff (fun i => 32 ≤ src + (i + offset.toNat / e.elementsCount) + 1) ?_]
        · constructor
          · rintro ⟨i, -, hi, hout⟩
            exact ⟨rfl, rfl, by omega, by omega⟩
          · rintro ⟨-, -, -, hout⟩
            exact ⟨regs - 1, by omega, by omega, by omega⟩
        · intro i s _ hi
          unfold writeRegister slidedownRegister
          rw [getV_of_lt (by omega : dst + i < 32)]
          by_cases hlt : src + (i + offset.toNat / e.elementsCount) + 1 < 32
          · simp only [getV_of_lt hlt, getV_of_lt (Nat.lt_of_succ_lt hlt),
              State.setV_of_lt (by omega : dst + i < 32), bind_eq_bind, bind_some]
            exact iff_of_false nofun (by omega)
          · simp only [getV_eq_none_iff.2 (Nat.le_of_not_lt hlt), bind_eq_bind,
              bind_none, bind_fun_none]
            exact iff_of_true trivial (by omega)

theorem copied_ne_none (hregs : GroupSize regs) (hsrc : src < 32)
    (halign : isAligned src regs = true) {size n : Nat} (hsize : size ≤ regs * e.elementsCount)
    (hn : n < size) (v : Nat → BitVec 128) : copied e v src size n ≠ none := by
  have hle := add_le_of_isAligned hregs hsrc halign
  have hdiv : n / e.elementsCount < regs :=
    Nat.div_lt_of_lt_mul (by rw [Nat.mul_comm]; omega)
  unfold copied
  rw [if_pos hn]
  exact map_ne_none (getV_ne_none (by omega))

theorem gatherElements_eq_none_iff {getElementIndex values : Nat → Option (BitVec e.bits)}
    (hvals : ∀ k < getVlmax e vlmul, values k ≠ none) (uninitialized : BitVec 128)
    (vstart index : Nat) :
    gatherElements e vlmul getElementIndex values uninitialized vstart index = none ↔
      ∃ i, vstart % e.elementsCount ≤ i ∧ i < e.elementsCount ∧
        getElementIndex (index * e.elementsCount + i) = none := by
  have hmod := Nat.mod_lt vstart e.elementsCount_pos
  unfold gatherElements
  rw [forRange_eq_none_iff (fun i => getElementIndex (index * e.elementsCount + i) = none) ?_]
  · rw [Nat.add_sub_cancel' hmod.le]
  · intro i r _ _
    cases getElementIndex (index * e.elementsCount + i) with
    | none => exact iff_of_true rfl rfl
    | some k =>
      refine iff_of_false (map_ne_none (ite_ne_none (fun hk => ?_) nofun)) nofun
      exact hvals k.toNat hk

variable (xval : BitVec e.bits) (uninitialized : BitVec 128)

theorem opVectorGather_ne_none (hdst : dst < 32) (hsrc1 : src1 < 32)
    {getElementIndex : Nat → Option (BitVec e.bits)}
    (hidx : ∀ n < numberOfRegistersInvolved vlmul * e.elementsCount, getElementIndex n ≠ none)
    (hvl : s.vl.toNat ≤ getVlmax e vlmul) :
    opVectorGather e vlmul vta vma uninitialized dst src1 getElementIndex s ≠ none := by
  have hregs := groupSize_numberOfRegistersInvolved vlmul
  refine unless_ne_none fun halign => ite_ne_none nofun fun _ => ite_ne_none nofun fun hbody => ?_
  obtain ⟨hda, hsa⟩ := isAligned_of_or hregs halign
  have hle := add_le_of_isAligned hregs hdst hda
  have hmax := getVlmax_le e vlmul
  have hfst : s.vstart.toNat / e.elementsCount ≤ numberOfRegistersInvolved vlmul :=
    Nat.div_le_of_le_mul (by rw [Nat.mul_comm]; omega)
  generalize s.vstart.toNat / e.elementsCount = first at hfst ⊢
  refine map_ne_none (forRange_ne_none fun i l _ hi => ?_)
  obtain ⟨vstart, t⟩ := l
  refine getV_bind_ne_none (by omega) fun _ => bind_ne_none ?_ fun _ =>
    bind_ne_none (setV_ne_none (by omega)) fun _ => nofun
  intro hnone
  obtain ⟨j, -, hj, hnone⟩ := (gatherElements_eq_none_iff
    (fun k hk => copied_ne_none hregs hsrc1 hsa hmax hk _) _ _ _).1 hnone
  have hmul := Nat.mul_le_mul_right e.elementsCount
    (show i + 1 ≤ numberOfRegistersInvolved vlmul by omega)
  rw [Nat.succ_mul] at hmul
  exact hidx _ (by omega) hnone

theorem opVectorGathervv_eq_none_iff (hdst : dst < 32)
    (hsrc1 : src1 < 32) (hsrc2 : src2 < 32) (hvl : s.vl.toNat ≤ getVlmax e vlmul) :
    opVectorGathervv e vlmul vta vma uninitialized dst src1 src2 s = none ↔
      vlmul.atLeastOne = false ∧ dst ≠ src1 ∧ s.vstart.toNat < s.vl.toNat := by
  have hregs := groupSize_numberOfRegistersInvolved vlmul
  unfold opVectorGathervv
  cases hone : vlmul.atLeastOne with
  | true =>
    have hmax : getVlmax e vlmul = numberOfRegistersInvolved vlmul * e.elementsCount := by
      cases vlmul <;> simp_all [getVlmax, numberOfRegistersInvolved, atLeastOne]
    refine iff_of_false (ite_ne_none (fun _ => some_ne_none _) fun halign => ?_)
      fun h => Bool.noConfusion h.1
    rw [Bool.not_eq_true, Bool.not_eq_false'] at halign
    exact opVectorGather_ne_none vta vma s uninitialized hdst hsrc1
      (fun n hn => copied_ne_none hregs hsrc2 halign hmax.le (hmax ▸ hn) s.v) hvl
  | false =>
    have hsingle : numberOfRegistersInvolved vlmul = 1 ∧ getVlmax e vlmul < e.elementsCount := by
      have hpos := e.elementsCount_pos
      cases vlmul <;> simp_all [getVlmax, numberOfRegistersInvolved, atLeastOne] <;> omega
    obtain ⟨hregs1, hmax⟩ := hsingle
    unfold opVectorGather
    dsimp only
    rw [hregs1, isAligned_one, isAligned_one, Bool.not_true, if_neg Bool.false_ne_true,
      if_neg Bool.false_ne_true]
    by_cases hsame : dst = src1
    · rw [if_pos (by omega)]
      exact iff_of_false (some_ne_none _) fun h => h.2.1 hsame
    · rw [if_neg (by omega)]
      by_cases hemp : s.vl.toNat ≤ s.vstart.toNat
      · rw [if_pos hemp]
        exact iff_of_false (some_ne_none _) fun h => absurd h.2.2 (Nat.not_lt.2 hemp)
      · -- The index of the last element of the register is not there.
        have hlast : gatherElements e vlmul (copied e s.v src2 (getVlmax e vlmul))
            (copied e (s.setVstart 0).v src1 (getVlmax e vlmul)) uninitialized s.vstart.toNat 0 =
              none := by
          refine (gatherElements_eq_none_iff (fun k hk => ?_) _ _ _).2
            ⟨e.elementsCount - 1, ?_, ?_, ?_⟩
          · exact copied_ne_none (Or.inl rfl) hsrc1 (isAligned_one src1) (by omega) hk _
          · rw [Nat.mod_eq_of_lt (by omega)]
            omega
          · omega
          · unfold copied
            rw [if_neg (by omega)]
        rw [if_neg hemp, Nat.div_eq_of_lt (by omega), forRange_succ]
        refine iff_of_true ?_ ⟨rfl, hsame, by omega⟩
        unfold gatherRegister
        simp only [getV_of_lt (show dst + 0 < 32 by omega), hlast, bind_eq_bind,
          bind_some, bind_none, map_none]

theorem opVectorslide1down_eq_none_iff_or :
    opVectorslide1down e vlmul vta vma dst src xval s = none ↔
      lastElemValue e vma dst xval s = none ∨ opVectorslidedown e vlmul vta vma dst src 1 s = none ∨
        (∃ value, lastElemValue e vma dst xval s = some (some value)) ∧
          (∃ s', opVectorslidedown e vlmul vta vma dst src 1 s = some s' ∧
            s'.exceptionRaised = false) ∧ 32 ≤ dst + lastElem s / e.elementsCount := by
  unfold opVectorslide1down
  cases lastElemValue e vma dst xval s with
  | none => exact iff_of_true rfl (Or.inl rfl)
  | some value =>
    cases opVectorslidedown e vlmul vta vma dst src 1 s with
    | none => exact iff_of_true rfl (Or.inr (Or.inl rfl))
    | some s' =>
      rw [bind_some, bind_some]
      cases hrais : s'.exceptionRaised with
      | true => simp [hrais]
      | false =>
        rw [if_neg nofun]
        cases value with
        | none => simp
        | some value =>
          by_cases hlt : dst + lastElem s / e.elementsCount < 32
          · simp [getV_of_lt hlt, State.setV_of_lt hlt, hlt]
          · simp [getV_eq_none_iff.2 (Nat.le_of_not_lt hlt), hrais, Nat.le_of_not_lt hlt]

theorem aligned_of_opVectorslidedown {offset : BitVec 64} {s' : State}
    (h : opVectorslidedown e vlmul vta vma dst src offset s = some s')
    (hrais : s'.exceptionRaised = false) :
    isAligned dst (numberOfRegistersInvolved vlmul) = true ∧
      isAligned src (numberOfRegistersInvolved vlmul) = true := by
  unfold opVectorslidedown at h
  by_cases halign : (!isAligned (dst ||| src) (numberOfRegistersInvolved vlmul)) = true
  · rw [if_pos halign, some.injEq] at h
    rw [← h] at hrais
    cases hrais
  · rw [Bool.not_eq_true, Bool.not_eq_false'] at halign
    exact isAligned_of_or (groupSize_numberOfRegistersInvolved vlmul) halign

/-- The slide reads a register after the group, and the register of an inactive last element
    is read whether or not the groups are aligned. -/
theorem opVectorslide1down_eq_none_iff_of_ne (hdst : dst < 32)
    (h : s.vl ≠ 0) (hvl : s.vl.toNat ≤ getVlmax e vlmul) :
    opVectorslide1down e vlmul vta vma dst src xval s = none ↔
      (VectorOperation.slide1down dst src xval).OutOfRange vlmul vma s := by
  rw [VectorOperation.OutOfRange, if_neg h]
  have hregs := groupSize_numberOfRegistersInvolved vlmul
  have height : s.vl.toNat ≤ 8 * e.elementsCount :=
    (hvl.trans (getVlmax_le e vlmul)).trans (Nat.mul_le_mul_right _ hregs.le)
  have hoff : (1 : BitVec 64).toNat / e.elementsCount = 0 := by cases e <;> rfl
  rw [opVectorslide1down_eq_none_iff_or, opVectorslidedown_eq_none_iff vta vma s hdst 1, hoff,
    Nat.add_zero, lastElem_of_ne h]
  -- After the slide the register is one of the group.
  have haft : ¬ ((∃ value, lastElemValue e vma dst xval s = some (some value)) ∧
      (∃ s', opVectorslidedown e vlmul vta vma dst src 1 s = some s' ∧
        s'.exceptionRaised = false) ∧ 32 ≤ dst + (s.vl.toNat - 1) / e.elementsCount) := by
    rintro ⟨-, ⟨s', hs', hrais⟩, hle⟩
    have halign := aligned_of_opVectorslidedown vta vma s hs' hrais
    have hlt := register_lt_of_le_vlmax ⟨hdst, halign.1⟩ h hvl
    omega
  have hbef : lastElemValue e vma dst xval s = none ↔ vma = some .kAgnostic ∧
      (s.v 0).getLsbD (s.vl.toNat - 1) = false ∧ 31 < dst + (s.vl.toNat - 1) / e.elementsCount := by
    rw [lastElemValue_of_ne h height, lastElem_of_ne h]
    by_cases hinact : Inactive vma s (s.vl.toNat - 1)
    · rw [if_pos hinact]
      by_cases hagn : vma = some .kAgnostic
      · rw [if_pos hagn, map_eq_none_iff, getV_eq_none_iff]
        exact ⟨fun hle => ⟨hagn, hinact.2, hle⟩, fun hout => hout.2.2⟩
      · rw [if_neg hagn]
        exact iff_of_false nofun fun hout => hagn hout.1
    · rw [if_neg hinact]
      refine iff_of_false nofun ?_
      rintro ⟨hagn, hbit, -⟩
      exact hinact ⟨by rw [hagn]; exact nofun, hbit⟩
  rw [or_iff_left haft, hbef]

theorem opVectorslide1down_eq_none_iff_of_eq (hdst : dst < 32)
    (hexc : s.exceptionRaised = false) (h : s.vl = 0) :
    opVectorslide1down e vlmul vta vma dst src xval s = none ↔
      (VectorOperation.slide1down dst src xval).OutOfRange vlmul vma s := by
  rw [VectorOperation.OutOfRange, if_pos h]
  have hle := le_lastElem_div e h
  have hemp : s.vl.toNat ≤ s.vstart.toNat := by
    rw [h]
    exact Nat.zero_le _
  -- The slide itself does nothing, but raises an exception if the groups are not aligned.
  have hslide : (∃ s', opVectorslidedown e vlmul vta vma dst src 1 s = some s' ∧
      s'.exceptionRaised = false) ↔ isAligned dst (numberOfRegistersInvolved vlmul) = true ∧
        isAligned src (numberOfRegistersInvolved vlmul) = true := by
    constructor
    · rintro ⟨s', hs', hrais⟩
      exact aligned_of_opVectorslidedown vta vma s hs' hrais
    · rintro ⟨hda, hsa⟩
      unfold opVectorslidedown
      simp only [isAligned_or (groupSize_numberOfRegistersInvolved vlmul), hda, hsa,
        hemp, Bool.and_self, Bool.not_true, Bool.false_eq_true, if_false, if_true]
      exact ⟨_, rfl, by rw [State.setVstart_zero hexc]; exact hexc⟩
  rw [opVectorslide1down_eq_none_iff_or, opVectorslidedown_eq_none_iff vta vma s hdst 1, hslide,
    lastElemValue_of_eq h]
  have hlt : ¬ s.vstart.toNat < s.vl.toNat := Nat.not_lt.2 hemp
  have hout : 32 ≤ dst + lastElem s / e.elementsCount := hle.trans (Nat.le_add_left _ dst)
  simp only [hlt, hout, false_and, and_false, false_or, and_true]
  generalize (s.v 0).getLsbD 31 = bit
  by_cases he : e = .e8 ∨ e = .e16
  · rcases vma with _ | _ <;> simp [he]
  · rcases vma with _ | _ | _ <;> cases bit <;> simp [he]

end OutOfRange

/-! ### Loads and stores -/

def vlmaxOf (vtype : BitVec 64) : Nat :=
  let exponent := 4 + (vtype.extractLsb' 0 3).toInt - (vtype.extractLsb' 3 3).toNat
  if exponent < 0 then 0 else 2 ^ exponent.toNat

theorem vlmaxOf_eq {e : ElementType} {vlmul : VectorRegisterGroupMultiplier}
    (he : ElementType.ofVsew (vtype.extractLsb' 3 3) = some e)
    (hvm : ofVlmul (vtype.extractLsb' 0 3) = some vlmul) :
    vlmaxOf vtype = getVlmax e vlmul := by
  have hall : ∀ vsew lmul : BitVec 3, ∀ e ∈ ElementType.ofVsew vsew, ∀ vlmul ∈ ofVlmul lmul,
      (if 4 + lmul.toInt - (vsew.toNat : Int) < 0 then 0
        else 2 ^ (4 + lmul.toInt - (vsew.toNat : Int)).toNat) = getVlmax e vlmul := by
    decide
  exact hall _ _ e he vlmul hvm

theorem vlmaxOf_le {width : ElementType} (hlow : -3 ≤ vemul width vtype)
    (hupp : vemul width vtype ≤ 3) :
    vlmaxOf vtype ≤ width.elementsCount * registersFor (vemul width vtype) := by
  have hexp : 4 + (vtype.extractLsb' 0 3).toInt - (vtype.extractLsb' 3 3).toNat =
      4 + vemul width vtype - width.code := by
    unfold vemul
    omega
  unfold vlmaxOf
  rw [hexp]
  generalize vemul width vtype = m at hlow hupp ⊢
  cases width <;> interval_cases m <;> decide

theorem selectRegistersInvolved_eq_some {args : MemoryArgs}
    (h : selectRegistersInvolved args vtype = some n) :
    -3 ≤ vemul args.width vtype ∧ vemul args.width vtype ≤ 3 ∧
      n = registersFor (vemul args.width vtype) := by
  unfold selectRegistersInvolved at h
  dsimp only at h
  split_ifs at h with hrng hmany
  obtain ⟨vlmul, hvm, hrest⟩ := bind_eq_some_iff.1 h
  split_ifs at hrest with hsize
  refine ⟨by omega, by omega, ?_⟩
  obtain ⟨vlmul', hvm', hreg⟩ := ofVlmul_ofInt (m := vemul args.width vtype)
    ⟨by omega, by omega⟩
  rw [hvm, some.injEq] at hvm'
  rw [← hreg, ← hvm']
  exact (some.inj hrest).symm

/-- The operands fit a number of elements, whether or not the registers are a group. -/
structure SegmentAccess.Fits (a : SegmentAccess) (vl : Nat) : Prop where
  size : a.numRegistersInGroup ≤ 8
  elements : vl ≤ a.elementType.elementsCount * a.numRegistersInGroup
  offsets : ∀ i < vl, (a.getElementOffset i).isSome = true

section Memory

variable {a : SegmentAccess} {s : State}

variable (faults : BitVec 64 → Nat → Bool) (insn : MemoryInsn)

theorem checks_of_eq_none {α : Type} {vstart vl : Nat} {x y z : α} {o : Option α}
    (h : (if !isAligned a.group a.numRegistersInGroup then some x
      else if 32 < a.group + a.numRegistersInGroup * a.segmentSize then some y
      else if vl ≤ vstart then some z else o) = none) :
    isAligned a.group a.numRegistersInGroup = true ∧
      a.group + a.numRegistersInGroup * a.segmentSize ≤ 32 ∧ vstart < vl := by
  split_ifs at h with halign hreg hst
  exact ⟨by simpa using halign, Nat.le_of_not_lt hreg, Nat.lt_of_not_le hst⟩

theorem opVectorStore_ne_none {opcode : VSUmOpOpcode}
    (useMasking : Bool) (h : a.Fits (storeVl opcode s)) (hexc : s.exceptionRaised = false) :
    opVectorStore faults a opcode useMasking s ≠ none := by
  intro hnone
  obtain ⟨halign, hreg, hst⟩ := checks_of_eq_none hnone
  rw [opVectorStore_eq ⟨halign, hreg, h.size, h.elements, h.offsets⟩ hexc hst] at hnone
  cases hnone

theorem opVectorLoad_ne_none {opcode : VLUmOpOpcode}
    (vta : TailProcessing) (vma : Option InactiveProcessing) (h : a.Fits (loadVl opcode s))
    (hexc : s.exceptionRaised = false) (uninitialized : Nat → BitVec 128) :
    opVectorLoad faults a opcode vta vma uninitialized s ≠ none := by
  intro hnone
  obtain ⟨halign, hreg, hst⟩ := checks_of_eq_none hnone
  obtain ⟨s', hs', -⟩ := opVectorLoad_outcome
    ⟨halign, hreg, h.size, h.elements, h.offsets⟩ hexc hst uninitialized
  cases hnone.symm.trans hs'

variable {args : MemoryArgs}

theorem fits_selectIndexed {idx n : Nat} (hidx : idx < 32)
    (hn : selectRegistersInvolved args s.vtype = some n)
    (ha : selectIndexed args idx n s = some a) (hvl : s.vl.toNat ≤ vlmaxOf s.vtype) :
    a.Fits s.vl.toNat := by
  obtain ⟨hlow, hupp, rfl⟩ := selectRegistersInvolved_eq_some hn
  have hmax := hvl.trans (vlmaxOf_le hlow hupp)
  obtain ⟨e, he, ha⟩ := bind_eq_some_iff.1 ha
  obtain ⟨vlmul, hvm, ha⟩ := bind_eq_some_iff.1 ha
  split_ifs at ha with halign
  rw [Bool.not_eq_true, Bool.not_eq_false'] at halign
  have hle := add_le_of_isAligned (groupSize_registersFor hupp) hidx halign
  rw [← some.inj ha]
  refine ⟨(groupSize_numberOfRegistersInvolved vlmul).le, ?_, fun i hi => ?_⟩
  · rw [vlmaxOf_eq he hvm] at hvl
    exact hvl.trans ((getVlmax_le e vlmul).trans_eq (Nat.mul_comm ..))
  · have hlt := hi.trans_le hmax
    have hdiv := (Nat.div_lt_iff_lt_mul args.width.elementsCount_pos).2
      (hlt.trans_eq (Nat.mul_comm ..))
    dsimp only
    rw [if_pos hlt, getV_of_lt (by omega), map_some, isSome_some]

theorem fits_of_registersFor {n : Nat} (hn : selectRegistersInvolved args s.vtype = some n)
    (hvl : s.vl.toNat ≤ vlmaxOf s.vtype) (htype : a.elementType = args.width)
    (hreg : a.numRegistersInGroup = n)
    (hoffs : ∀ i, (a.getElementOffset i).isSome = true) : a.Fits s.vl.toNat := by
  obtain ⟨hlow, hupp, rfl⟩ := selectRegistersInvolved_eq_some hn
  refine ⟨?_, ?_, fun i _ => hoffs i⟩
  · rw [hreg]
    exact (groupSize_registersFor hupp).le
  · rw [htype, hreg]
    exact hvl.trans (vlmaxOf_le hlow hupp)

theorem vlmaxOf_le_128 (vtype : BitVec 64) : vlmaxOf vtype ≤ 128 := by
  unfold vlmaxOf
  generalize vtype.extractLsb' 3 3 = vsew
  generalize vtype.extractLsb' 0 3 = lmul
  revert vsew lmul
  decide

theorem fits_selectMask (args : MemoryArgs) (hvl : s.vl.toNat ≤ vlmaxOf s.vtype) :
    (selectMask args s).Fits ((s.vl.toNat + 7) / 8) := by
  have hmax := vlmaxOf_le_128 s.vtype
  have hcount : ElementType.e8.elementsCount * 1 = 16 := rfl
  refine ⟨Nat.le_of_ble_eq_true rfl, ?_, fun _ _ => rfl⟩
  unfold selectMask
  dsimp only
  omega

theorem select_run_ne_none {insn : MemoryInsn} {selected : Selected}
    (h : select insn s = some selected) (hvl : s.vl.toNat ≤ vlmaxOf s.vtype)
    (hexc : s.exceptionRaised = false) (faults : BitVec 64 → Nat → Bool)
    (uninitialized : Nat → BitVec 128) : selected.run faults uninitialized s ≠ none := by
  obtain ⟨n, hn, h⟩ := bind_eq_some_iff.1 h
  cases insn with
  | loadIndexed args idx =>
    obtain ⟨a, ha, rfl⟩ := map_eq_some_iff.1 h
    exact opVectorLoad_ne_none faults _ _ (fits_selectIndexed idx.isLt hn ha hvl) hexc uninitialized
  | loadStride args std =>
    rw [← some.inj h]
    exact opVectorLoad_ne_none faults _ _ (fits_of_registersFor hn hvl rfl rfl fun _ => rfl) hexc
      uninitialized
  | loadUnitStride args opcode =>
    cases opcode with
    | kVlm =>
      dsimp only at h
      split_ifs at h with hmask
      rw [← some.inj h]
      exact opVectorLoad_ne_none faults _ _ (fits_selectMask args hvl) hexc uninitialized
    | kVlXreXX | reserved => cases h
    | _ =>
      rw [← some.inj h]
      exact opVectorLoad_ne_none faults _ _ (fits_of_registersFor hn hvl rfl rfl fun _ => rfl)
        hexc uninitialized
  | storeIndexed args idx =>
    obtain ⟨a, ha, rfl⟩ := map_eq_some_iff.1 h
    exact opVectorStore_ne_none faults _ (fits_selectIndexed idx.isLt hn ha hvl) hexc
  | storeStride args std =>
    rw [← some.inj h]
    exact opVectorStore_ne_none faults _ (fits_of_registersFor hn hvl rfl rfl fun _ => rfl) hexc
  | storeUnitStride args opcode =>
    cases opcode with
    | kVsm =>
      dsimp only at h
      split_ifs at h with hmask
      rw [← some.inj h]
      exact opVectorStore_ne_none faults _ (fits_selectMask args hvl) hexc
    | kVseXX =>
      rw [← some.inj h]
      exact opVectorStore_ne_none faults _ (fits_of_registersFor hn hvl rfl rfl fun _ => rfl) hexc
    | kVsX | reserved => cases h

theorem wholeRegisters_lt (h : wholeRegistersLegal args = true) {i : Nat}
    (hi : i < args.segmentSize) : args.group.val + i < 32 := by
  have hall : ∀ (nf : Fin 8) (group : Fin 32),
      ((nf.val + 1) &&& nf.val == 0 && group.val &&& nf.val == 0) = true →
        group.val + nf.val < 32 := by
    decide
  have hlt := hall args.nf args.group h
  unfold MemoryArgs.segmentSize at hi
  omega

section

variable (hvl : s.vl.toNat ≤ vlmaxOf s.vtype) (hexc : s.exceptionRaised = false)
  (faults : BitVec 64 → Nat → Bool) (uninitialized : Nat → BitVec 128)
include hvl hexc

theorem dispatch_ne_none : (if s.vtype.msb then some s.undefined
      else match select insn s with
        | none => some s.undefined
        | some selected => selected.run faults uninitialized s) ≠ none := by
  refine ite_ne_none (fun _ => some_ne_none _) fun _ => ?_
  cases hsel : select insn s with
  | none => exact some_ne_none _
  | some selected => exact select_run_ne_none hsel hvl hexc faults uninitialized

theorem opVectorMemory_ne_none : opVectorMemory faults uninitialized insn s ≠ none := by
  have hdisp := dispatch_ne_none insn hvl hexc faults uninitialized
  cases insn with
  | loadUnitStride args opcode =>
    cases opcode with
    | kVlXreXX =>
      refine ite_ne_none (fun _ => some_ne_none _) fun hleg => forRange_ne_none fun i s _ hi => ?_
      rw [Bool.not_eq_true, Bool.not_eq_false'] at hleg
      exact setV_ne_none (wholeRegisters_lt hleg (by omega))
    | _ => exact hdisp
  | storeUnitStride args opcode =>
    cases opcode with
    | kVsX =>
      refine ite_ne_none (fun _ => some_ne_none _) fun hleg => forRange_ne_none fun i s _ hi => ?_
      rw [not_or, Bool.not_eq_true, Bool.not_eq_false'] at hleg
      exact map_ne_none (getV_ne_none (wholeRegisters_lt hleg.2 (by omega)))
    | _ => exact hdisp
  | _ => exact hdisp

end

end Memory

/-! ### Instructions -/

namespace VectorOperation

variable {e : ElementType}

def registers : VectorOperation e → List Nat
  | sameWidth dst op => dst :: op.sources
  | merge dst op => dst :: op.sources
  | mixedWidth dst op => dst :: op.sources
  | gathervv _ dst src1 src2 => [dst, src1, src2]
  | gatherx _ dst src1 _ => [dst, src1]
  | viotam dst src1 => [dst, src1]
  | vidv dst => [dst]
  | vmvsx dst _ => [dst]
  | mm _ dst src1 src2 => [dst, src1, src2]
  | vmUnary0 _ dst src1 => [dst, src1]
  | toMask _ _ dst args => dst :: args.filterMap Arg.startNo
  | vs _ _ _ dst _ src1 src2 => [dst, src1, src2]
  | vxm _ _ dst src1 _ => [dst, src1]
  | vvm _ _ dst src1 src2 => [dst, src1, src2]
  | slideup dst src _ => [dst, src]
  | slide1up dst src _ => [dst, src]
  | slidedown dst src _ => [dst, src]
  | slide1down dst src _ => [dst, src]
  | unimplemented => []

theorem run_eq_none_iff_outOfRange (op : VectorOperation e) (vlmul : VectorRegisterGroupMultiplier)
    (vta : TailProcessing) (vma : Option InactiveProcessing) {s : State}
    (h : ∀ r ∈ op.registers, r < 32) (hvl : s.vl.toNat ≤ getVlmax e vlmul)
    (hexc : s.exceptionRaised = false) :
    op.run vlmul vta vma s = none ↔ op.OutOfRange vlmul vma s := by
  have hregs := groupSize_numberOfRegistersInvolved vlmul
  have hmax := hvl.trans (getVlmax_le e vlmul)
  have hnth : ∀ k r, op.registers[k]? = some r → r < 32 := fun _ r hr => h r (mem_of_getElem? hr)
  cases op with
  | sameWidth dst op => exact iff_of_false (op.run_ne_none vta vma s hregs h) id
  | merge dst op => exact iff_of_false (op.run_ne_none vta _ s hregs h) id
  | mixedWidth dst op => exact iff_of_false (op.run_ne_none vta vma s h) id
  | gathervv uninitialized dst src1 src2 =>
    exact opVectorGathervv_eq_none_iff vta vma s uninitialized (hnth 0 _ rfl)
      (hnth 1 _ rfl) (hnth 2 _ rfl) hvl
  | gatherx uninitialized dst src1 index =>
    exact iff_of_false (opVectorGather_ne_none vta vma s uninitialized
      (hnth 0 _ rfl) (hnth 1 _ rfl) (fun _ _ => nofun) hvl) id
  | viotam dst src1 =>
    exact opVectorViotam_eq_none_iff vta vma s hregs (hnth 1 _ rfl)
  | vidv dst =>
    exact iff_of_false (opVectorVidv_ne_none vta vma s hregs (hnth 0 _ rfl)) id
  | vmvsx dst element =>
    exact iff_of_false (opVectorVmvsx_ne_none vta s element (hnth 0 _ rfl)) id
  | mm intrinsic dst src1 src2 =>
    exact iff_of_false (opVectormm_ne_none s intrinsic (hnth 0 _ rfl)
      (hnth 1 _ rfl) (hnth 2 _ rfl)) id
  | vmUnary0 intrinsic dst src1 =>
    exact iff_of_false (opVectorVMUnary0_ne_none vma s intrinsic (hnth 0 _ rfl) (hnth 1 _ rfl)) id
  | toMask extraCsrs intrinsic dst args =>
    exact iff_of_false (opVectorToMask_ne_none vma s hregs extraCsrs intrinsic args
      (h dst (mem_cons_self ..)) fun r hr => h r (mem_cons_of_mem dst hr)) id
  | vs w extraCsrs intrinsic dst defaultElement src1 src2 =>
    exact iff_of_false (opVectorvs_ne_none vta vma s hregs extraCsrs intrinsic defaultElement
      (hnth 0 _ rfl) (hnth 1 _ rfl)
      (hnth 2 _ rfl)) id
  | vxm extraCsrs intrinsic dst | vvm extraCsrs intrinsic dst =>
    exact iff_of_false (opVectorCarry_ne_none vta vma s hregs extraCsrs intrinsic _
      (h dst (mem_cons_self ..)) fun r hr => h r (mem_cons_of_mem dst hr)) id
  | slideup dst src offset =>
    exact iff_of_false (opVectorslideup_ne_none vta vma s hregs (hnth 0 _ rfl)
      (hnth 1 _ rfl) offset hmax) id
  | slide1up dst src xval =>
    exact iff_of_false (opVectorslide1up_ne_none vta vma s hregs (hnth 0 _ rfl)
      (hnth 1 _ rfl) xval hmax) id
  | slidedown dst src offset =>
    exact opVectorslidedown_eq_none_iff vta vma s (hnth 0 _ rfl) offset
  | slide1down dst src xval =>
    have hdst := hnth 0 _ rfl
    by_cases hzero : s.vl = 0
    · exact opVectorslide1down_eq_none_iff_of_eq vta vma s xval hdst hexc hzero
    · exact opVectorslide1down_eq_none_iff_of_ne vta vma s xval hdst hzero hvl
  | unimplemented => exact iff_of_false nofun id

end VectorOperation

namespace VectorInsn

/-- The register numbers are those of fields of five bits. Those of loads and stores are by
    their type. -/
def Encodable : VectorInsn → Prop
  | memory _ => True
  | arithmetic _ op => ∀ e, ∀ op' ∈ op e, ∀ r ∈ op'.registers, r < 32

def OutOfRange (s : State) : VectorInsn → Prop
  | memory _ => False
  | arithmetic vm op =>
    s.vtype.msb = false ∧
      ∃ e vlmul op', ElementType.ofVsew (s.vtype.extractLsb' 3 3) = some e ∧
        VectorRegisterGroupMultiplier.ofVlmul (s.vtype.extractLsb' 0 3) = some vlmul ∧
        op e = some op' ∧ op'.OutOfRange vlmul (maskPolicy vm s.vtype) s

end VectorInsn

/-- Only the instructions that `OutOfRange` has use an index that is out of range. -/
theorem run_eq_none_iff (insn : VectorInsn) (s : State) (h : insn.Encodable)
    (hvl : s.vl.toNat ≤ vlmaxOf s.vtype) (hexc : s.exceptionRaised = false)
    (faults : BitVec 64 → Nat → Bool) (uninitialized : Nat → BitVec 128) :
    insn.run faults uninitialized s = none ↔ insn.OutOfRange s := by
  cases insn with
  | memory insn =>
    exact iff_of_false (opVectorMemory_ne_none insn hvl hexc faults uninitialized) id
  | arithmetic vm op =>
    unfold VectorInsn.run VectorInsn.OutOfRange opVector
    dsimp only
    cases hmsb : s.vtype.msb with
    | true => exact iff_of_false nofun fun h => nomatch h.1
    | false =>
      rw [if_neg nofun]
      cases he : ElementType.ofVsew (s.vtype.extractLsb' 3 3) with
      | none => exact iff_of_false nofun fun ⟨_, _, _, _, he', _⟩ => nomatch he'
      | some e =>
        cases hvlmul : ofVlmul (s.vtype.extractLsb' 0 3) with
        | none => exact iff_of_false nofun fun ⟨_, _, _, _, _, hvlmul', _⟩ => nomatch hvlmul'
        | some vlmul =>
          cases hop : op e with
          | none =>
            refine iff_of_false (by simp [hop]) ?_
            rintro ⟨-, e', vlmul', op', he', -, hop', -⟩
            cases he'
            rw [hop] at hop'
            cases hop'
          | some op' =>
            rw [vlmaxOf_eq he hvlmul] at hvl
            have hrun := op'.run_eq_none_iff_outOfRange vlmul (vtaOf s.vtype)
              (maskPolicy vm s.vtype) (h e op' hop) hvl hexc
            simp only [hop]
            rw [hrun]
            constructor
            · intro hout
              exact ⟨trivial, e, vlmul, op', rfl, rfl, hop, hout⟩
            · rintro ⟨-, e', vlmul', op'', he', hvlmul', hop'', hout⟩
              cases he'
              cases hvlmul'
              rw [hop, some.injEq] at hop''
              rwa [hop'']

def vslidedown : VectorInsn := .arithmetic true fun _ => some (.slidedown 0 31 0)

/-- It reads the register after the last one. -/
theorem run_eq_none_iff_vslidedown :
    vslidedown.Encodable ∧ byteState.vl.toNat ≤ vlmaxOf byteState.vtype ∧
      byteState.exceptionRaised = false ∧
      vslidedown.run (fun _ _ => false) (fun _ => 0) byteState = none := by
  refine ⟨fun e op' hop' r hr => ?_, by decide, rfl, rfl⟩
  cases hop'
  simp only [VectorOperation.registers, mem_cons, not_mem_nil, or_false] at hr
  omega

theorem run_eq_none_iff_vadd : vadd.Encodable ∧ ¬ vadd.OutOfRange byteState ∧
    vadd.run (fun _ _ => false) (fun _ => 0) byteState ≠ none := by
  have hencodable : vadd.Encodable := by
    intro e op' hop' r hr
    cases hop'
    simp only [VectorOperation.registers, SameWidthOperation.sources, filterMap_cons,
      Arg.startNo, filterMap_nil, mem_cons, not_mem_nil, or_false] at hr
    omega
  have hrange : ¬ vadd.OutOfRange byteState := by
    rintro ⟨-, e, vlmul, op', -, -, hop', hout⟩
    cases hop'
    exact hout
  exact ⟨hencodable, hrange, fun hnone => hrange
    ((run_eq_none_iff vadd byteState hencodable (by decide) rfl _ _).1 hnone)⟩

end Berberis.Riscv64.Vector
