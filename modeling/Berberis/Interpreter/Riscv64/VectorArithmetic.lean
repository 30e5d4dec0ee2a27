import Berberis.Interpreter.Riscv64.VectorState

/-!
# Same-Width Vector Arithmetic

Drivers of vector operations whose operands have the width of the result. A driver
checks that the register groups are aligned, resets `vstart`, and unless there is
nothing to do computes the registers of the destination group one by one, each
with an intrinsic that applies the operation to all lanes.

## Theorems

* `opVector_elements`: The elements afterwards follow the partition into prestart,
  body and tail, and nothing else changes but `vstart`.
-/

namespace Berberis.Riscv64.Vector

open Lib List Option

variable {e : ElementType}

/-- A register group, maybe with a default element, or an element. -/
inductive Arg (e : ElementType) where
  | vec (startNo : Nat)
  | vecDefault (defaultElement : BitVec e.bits) (startNo : Nat)
  | scalar (value : BitVec e.bits)
  deriving DecidableEq

/-- An argument of an intrinsic. -/
inductive SimdArg (e : ElementType) where
  | simd (r : BitVec 128)
  | scalar (value : BitVec e.bits)

def vectorElement (i : Nat) : SimdArg e → BitVec e.bits
  | .simd r => lane e.bits r i
  | .scalar value => value

def vectorProcessing (lambda : List (BitVec e.bits) → BitVec e.bits) (params : List (SimdArg e)) :
    BitVec 128 :=
  ofLanes e.bits fun i => lambda (params.map (vectorElement i))

def Arg.startNo : Arg e → Option Nat
  | .vec startNo => some startNo
  | .vecDefault _ startNo => some startNo
  | .scalar _ => none

def getVectorArgument (vma : Option InactiveProcessing) (vstart vl index : Nat)
    (mask : BitVec 128) (v : Nat → BitVec 128) : Arg e → Option (SimdArg e)
  | .vec startNo => (getV v (startNo + index)).map .simd
  | .vecDefault defaultElement startNo =>
    (getV v (startNo + index)).map fun r =>
      .simd (defaultMasking e defaultElement vma r vstart vl index mask)
  | .scalar value => some (.scalar value)

/-! ### Drivers -/

section Drivers

variable (registersInvolved : Nat) (vta : TailProcessing) (vma : Option InactiveProcessing)
  (extraCsrs : List CsrName)

def opVectorSameWidth (intrinsic : List (BitVec 64) → List (BitVec e.bits) → BitVec e.bits)
    (dst : Nat) (args : List (Arg e)) (s : State) : Option State :=
  if !isAligned (orValuesOnlyForType Arg.startNo args ||| dst) registersInvolved then
    some s.undefined
  else
    let vstart := s.vstart.toNat
    let vl := s.vl.toNat
    let s := s.setVstart 0
    if vl ≤ vstart then some s
    else
      let mask := s.v 0
      forRange (writeRegister (fun index s => do
        let result ← getV s.v (dst + index)
        let params ← args.mapM (getVectorArgument vma vstart vl index mask s.v)
        return vectorMasking e vta vma result
          (vectorProcessing (intrinsic (extraCsrs.map s.getCsr)) params) result vstart vl index
          mask) dst) 0 registersInvolved s

def opVectorv (intrinsic : List (BitVec 64) → BitVec e.bits → BitVec e.bits) (dst src : Nat)
    (dstMask : Option Nat) (s : State) : Option State :=
  if !isAligned (dst ||| src ||| dstMask.getD 0) registersInvolved then some s.undefined
  else
    let vstart := s.vstart.toNat
    let vl := s.vl.toNat
    let s := s.setVstart 0
    if vl ≤ vstart then some s
    else
      let mask := s.v 0
      forRange (writeRegister (fun index s => do
        let result ← getV s.v (dst + index)
        let resultMask ← getV s.v (dstMask.getD dst + index)
        let arg ← getV s.v (src + index)
        return vectorMasking e vta vma result
          (ofLanes e.bits fun i => intrinsic (extraCsrs.map s.getCsr) (lane e.bits arg i))
          resultMask vstart vl index mask) dst) 0 registersInvolved s

def opVectorx (intrinsic : BitVec e.bits → BitVec e.bits) (dst : Nat) (arg2 : BitVec e.bits)
    (dstMask : Option Nat) (s : State) : Option State :=
  if !isAligned (dst ||| dstMask.getD 0) registersInvolved then some s.undefined
  else
    let vstart := s.vstart.toNat
    let vl := s.vl.toNat
    let s := s.setVstart 0
    if vl ≤ vstart then some s
    else
      let mask := s.v 0
      forRange (writeRegister (fun index s => do
        let result ← getV s.v (dst + index)
        let resultMask ← getV s.v (dstMask.getD dst + index)
        return vectorMasking e vta vma result (ofLanes e.bits fun _ => intrinsic arg2) resultMask
          vstart vl index mask) dst) 0 registersInvolved s

end Drivers

/-! ### The elements afterwards -/

theorem mapM_eq_some {α β : Type} {f : α → Option β} {g : α → β} {l : List α}
    (h : ∀ a ∈ l, f a = some (g a)) : l.mapM f = some (l.map g) := by
  induction l with
  | nil => rfl
  | cons a l ih =>
    rw [mapM_cons, h a (mem_cons_self ..), ih fun b hb => h b (mem_cons_of_mem a hb)]
    rfl

variable {vta : TailProcessing} {vma : Option InactiveProcessing} {mask : BitVec 128}
    {vstart vl n dst regs : Nat} {new : Nat → BitVec 128} {s : State} {dstMask : Option Nat}

/-- What an inactive element is replaced by matters only if it is inactive, and the
    result only if it is active. -/
theorem elementAfter_congr {w : Nat} {old result result' inactive : BitVec w}
    (h : vstart ≤ n → n < vl → (vma ≠ none → mask.getLsbD n = true) → result = result') :
    elementAfter vta vma mask vstart vl n old result inactive =
      elementAfter vta vma mask vstart vl n old result' inactive := by
  unfold elementAfter
  split_ifs with hst hend
  · rfl
  · unfold bodyElement
    match vma with
    | none => exact h (by omega) hend (fun h => absurd rfl h)
    | some .kAgnostic =>
      split_ifs with hact
      · exact h (by omega) hend (fun _ => hact)
      · rfl
    | some .kUndisturbed =>
      split_ifs with hact
      · exact h (by omega) hend (fun _ => hact)
      · rfl
  · rfl

theorem element_overwritten {v result inactive : Nat → BitVec 128} (hregs : regs ≤ 8)
    (h : vstart ≤ vl) (hvl : vl < 2 ^ 31) (hnew : ∀ i < regs, new i =
      vectorMasking e vta vma (v (dst + i)) (result i) (inactive i) vstart vl i mask)
    (hn : n < regs * e.elementsCount) : element e (overwritten v dst regs new) dst n =
      elementAfter vta vma mask vstart vl n (element e v dst n)
        (lane e.bits (result (n / e.elementsCount)) (n % e.elementsCount))
        (lane e.bits (inactive (n / e.elementsCount)) (n % e.elementsCount)) := by
  have hdiv : n / e.elementsCount < regs := Nat.div_lt_of_lt_mul (by rwa [Nat.mul_comm])
  have hmod : n % e.elementsCount < e.elementsCount := Nat.mod_lt n e.elementsCount_pos
  unfold element
  rw [overwritten_add hdiv, hnew _ hdiv,
    lane_vectorMasking e vta vma _ _ _ _ h hvl (by omega) hmod, Nat.div_add_mod]

theorem getV_overwritten {v : Nat → BitVec 128} {src i : Nat} (hregs : GroupSize regs)
    (hdst : isAligned dst regs = true) (hsrc : src < 32 ∧ isAligned src regs = true)
    (hi : i < regs) : getV (overwritten v dst i new) (src + i) = some (v (src + i)) := by
  have hle := add_le_of_isAligned hregs hsrc.1 hsrc.2
  rw [getV_of_lt (by omega), overwritten_of_not]
  rcases eq_or_disjoint_of_isAligned hregs hdst hsrc.2 with heq | hlt | hlt <;> omega

def Arg.element (v : Nat → BitVec 128) (n : Nat) : Arg e → BitVec e.bits
  | .vec startNo => Vector.element e v startNo n
  | .vecDefault _ startNo => Vector.element e v startNo n
  | .scalar value => value

/-- An argument of an intrinsic before anything is overwritten. -/
def Arg.param (vma : Option InactiveProcessing) (vstart vl index : Nat) (mask : BitVec 128)
    (v : Nat → BitVec 128) : Arg e → SimdArg e
  | .vec startNo => .simd (v (startNo + index))
  | .vecDefault defaultElement startNo =>
    .simd (defaultMasking e defaultElement vma (v (startNo + index)) vstart vl index mask)
  | .scalar value => .scalar value

theorem getVectorArgument_overwritten {i : Nat} {v : Nat → BitVec 128} {arg : Arg e}
    (hregs : GroupSize regs) (hdst : isAligned dst regs = true)
    (harg : ∀ r, arg.startNo = some r → r < 32 ∧ isAligned r regs = true) (hi : i < regs) :
    getVectorArgument vma vstart vl i mask (overwritten v dst i new) arg =
      some (arg.param vma vstart vl i mask v) := by
  cases arg with
  | vec startNo | vecDefault _ startNo =>
    simp [getVectorArgument, getV_overwritten hregs hdst (harg startNo rfl) hi, Arg.param]
  | scalar value => rfl

theorem vectorElement_param {v : Nat → BitVec 128} (arg : Arg e) (hvl : vl < 2 ^ 31)
    (hn : n < 8 * e.elementsCount) (hst : vstart ≤ n) (hend : n < vl)
    (hact : vma ≠ none → mask.getLsbD n = true) :
    vectorElement (n % e.elementsCount) (arg.param vma vstart vl (n / e.elementsCount) mask v) =
      arg.element v n := by
  have hdiv : n / e.elementsCount < 8 := Nat.div_lt_of_lt_mul (by rwa [Nat.mul_comm])
  have hmod : n % e.elementsCount < e.elementsCount := Nat.mod_lt n e.elementsCount_pos
  cases arg with
  | vec | scalar => rfl
  | vecDefault defaultElement startNo =>
    unfold vectorElement Arg.param Arg.element Vector.element
    dsimp only
    rw [lane_defaultMasking defaultElement vma _ mask hvl hdiv hmod] <;> rwa [Nat.div_add_mod]

/-! ### Operations -/

/-- An operation and the driver that runs it. -/
inductive SameWidthOperation (e : ElementType) where
  | sameWidth (extraCsrs : List CsrName)
      (intrinsic : List (BitVec 64) → List (BitVec e.bits) → BitVec e.bits) (args : List (Arg e))
  | v (extraCsrs : List CsrName) (intrinsic : List (BitVec 64) → BitVec e.bits → BitVec e.bits)
      (src : Nat) (dstMask : Option Nat)
  | x (intrinsic : BitVec e.bits → BitVec e.bits) (arg2 : BitVec e.bits) (dstMask : Option Nat)

namespace SameWidthOperation

def run (registersInvolved : Nat) (vta : TailProcessing) (vma : Option InactiveProcessing)
    (dst : Nat) : SameWidthOperation e → State → Option State
  | sameWidth extraCsrs intrinsic args =>
    opVectorSameWidth registersInvolved vta vma extraCsrs intrinsic dst args
  | v extraCsrs intrinsic src dstMask =>
    opVectorv registersInvolved vta vma extraCsrs intrinsic dst src dstMask
  | x intrinsic arg2 dstMask => opVectorx registersInvolved vta vma intrinsic dst arg2 dstMask

def sources : SameWidthOperation e → List Nat
  | sameWidth _ _ args => args.filterMap Arg.startNo
  | v _ _ src dstMask => src :: dstMask.toList
  | x _ _ dstMask => dstMask.toList

def result (s : State) (n : Nat) : SameWidthOperation e → BitVec e.bits
  | sameWidth extraCsrs intrinsic args =>
    intrinsic (extraCsrs.map s.getCsr) (args.map (Arg.element s.v n))
  | v extraCsrs intrinsic src _ => intrinsic (extraCsrs.map s.getCsr) (element e s.v src n)
  | x intrinsic arg2 _ => intrinsic arg2

def inactiveGroup (dst : Nat) : SameWidthOperation e → Nat
  | sameWidth _ _ _ => dst
  | v _ _ _ dstMask => dstMask.getD dst
  | x _ _ dstMask => dstMask.getD dst

end SameWidthOperation

/-- The registers that a driver leaves: elements by the partition, and nothing else changed. -/
structure GroupAfter (e : ElementType) (vta : TailProcessing) (vma : Option InactiveProcessing)
    (regs dst : Nat) (result inactive : Nat → BitVec e.bits) (s : State)
    (v' : Nat → BitVec 128) : Prop where
  elements : ∀ n < regs * e.elementsCount, element e v' dst n =
    elementAfter vta vma (s.v 0) s.vstart.toNat s.vl.toNat n (element e s.v dst n) (result n)
      (inactive n)
  others : ∀ r, r < dst ∨ dst + regs ≤ r → v' r = s.v r

/-- What a driver leaves: no change if there are no elements to process. -/
structure Outcome (e : ElementType) (vta : TailProcessing) (vma : Option InactiveProcessing)
    (regs dst : Nat) (result inactive : Nat → BitVec e.bits) (s : State)
    (v' : Nat → BitVec 128) : Prop where
  empty : s.vl.toNat ≤ s.vstart.toNat → v' = s.v
  group : s.vstart.toNat < s.vl.toNat → GroupAfter e vta vma regs dst result inactive s v'

theorem Outcome.of_exit {result inactive : Nat → BitVec e.bits} {loop : Option State}
    (hloop : s.vstart.toNat < s.vl.toNat → ∃ v', loop = some { s with v := v', vstart := 0 } ∧
        GroupAfter e vta vma regs dst result inactive s v') :
    ∃ v', (if s.vl.toNat ≤ s.vstart.toNat then some { s with vstart := 0 } else loop) =
        some { s with v := v', vstart := 0 } ∧
      Outcome e vta vma regs dst result inactive s v' := by
  by_cases hemp : s.vl.toNat ≤ s.vstart.toNat
  · rw [if_pos hemp]
    exact ⟨s.v, rfl, fun _ => rfl, fun h => absurd hemp (Nat.not_le.2 h)⟩
  · rw [if_neg hemp]
    rcases hloop (Nat.lt_of_not_le hemp) with ⟨v', hrun, haft⟩
    exact ⟨v', hrun, fun h => absurd h hemp, fun _ => haft⟩

/-- A driver's loop leaves that, if its body computes the registers from those that are
    not overwritten yet. -/
theorem GroupAfter.of_loop {compute : Nat → State → Option (BitVec 128)}
    (result inactive : Nat → BitVec 128) {resultElement inactiveElement : Nat → BitVec e.bits}
    {t : State} (hv : t.v = s.v) (hregs : GroupSize regs) (hdst : dst + regs ≤ 32)
    (h : s.vstart.toNat < s.vl.toNat)
    (hbody : ∀ i < regs, ∀ new, compute i { t with v := overwritten s.v dst i new } =
      some (vectorMasking e vta vma (s.v (dst + i)) (result i) (inactive i) s.vstart.toNat
        s.vl.toNat i (s.v 0)))
    (hres : ∀ n < regs * e.elementsCount, s.vstart.toNat ≤ n → n < s.vl.toNat →
      (vma ≠ none → (s.v 0).getLsbD n = true) →
      lane e.bits (result (n / e.elementsCount)) (n % e.elementsCount) = resultElement n)
    (hinact : ∀ n < regs * e.elementsCount,
      lane e.bits (inactive (n / e.elementsCount)) (n % e.elementsCount) = inactiveElement n) :
    ∃ v', forRange (writeRegister compute dst) 0 regs t = some { t with v := v' } ∧
      GroupAfter e vta vma regs dst resultElement inactiveElement s v' := by
  have hvl : s.vl.toNat < 2 ^ 31 := Nat.lt_trans s.vl.isLt (by decide)
  let new := fun i => vectorMasking e vta vma (s.v (dst + i)) (result i) (inactive i)
    s.vstart.toNat s.vl.toNat i (s.v 0)
  have hloop : forRange (writeRegister compute dst) 0 regs t =
      some { t with v := overwritten t.v dst (0 + regs) new } := by
    refine forRange_writeGroup (by omega) (by omega) fun i _ hi => ?_
    rw [hv]
    exact hbody i (by omega) new
  rw [Nat.zero_add, hv] at hloop
  refine ⟨_, hloop, fun n hn => ?_, fun r hr => overwritten_of_not hr⟩
  rw [element_overwritten hregs.le (by omega) hvl (fun i _ => rfl) hn, hinact n hn]
  exact elementAfter_congr (hres n hn)

theorem opVectorSameWidth_outcome {extraCsrs : List CsrName}
    {intrinsic : List (BitVec 64) → List (BitVec e.bits) → BitVec e.bits} {args : List (Arg e)}
    (hregs : GroupSize regs) (hdst : dst < 32 ∧ isAligned dst regs = true)
    (hargs : ∀ arg ∈ args, ∀ r, arg.startNo = some r → r < 32 ∧ isAligned r regs = true)
    (hexc : s.exceptionRaised = false) :
    ∃ v', opVectorSameWidth regs vta vma extraCsrs intrinsic dst args s =
        some { s with v := v', vstart := 0 } ∧
      Outcome e vta vma regs dst
        (fun n => intrinsic (extraCsrs.map s.getCsr) (args.map (Arg.element s.v n)))
        (element e s.v dst) s v' := by
  have halign : isAligned (orValuesOnlyForType Arg.startNo args ||| dst) regs = true := by
    rw [isAligned_or hregs, hdst.2, Bool.and_true]
    exact isAligned_orValuesOnlyForType hregs fun arg harg r hr => (hargs arg harg r hr).2
  have hvl : s.vl.toNat < 2 ^ 31 := Nat.lt_trans s.vl.isLt (by decide)
  unfold opVectorSameWidth
  simp only [halign, Bool.not_true, Bool.false_eq_true, if_false, State.setVstart_zero hexc]
  refine Outcome.of_exit fun h => ?_
  refine GroupAfter.of_loop
    (fun i => vectorProcessing (intrinsic (extraCsrs.map s.getCsr))
      (args.map (Arg.param vma s.vstart.toNat s.vl.toNat i (s.v 0) s.v)))
    (fun i => s.v (dst + i)) rfl hregs (add_le_of_isAligned hregs hdst.1 hdst.2) h
    (fun i hi new => ?_) (fun n hn hst hend hact => ?_) (fun n _ => rfl)
  · have hpar : args.mapM (getVectorArgument vma s.vstart.toNat s.vl.toNat i (s.v 0)
        (overwritten s.v dst i new)) =
          some (args.map (Arg.param vma s.vstart.toNat s.vl.toNat i (s.v 0) s.v)) :=
      mapM_eq_some fun arg harg =>
        getVectorArgument_overwritten hregs hdst.2 (hargs arg harg) hi
    simp only [getV_overwritten hregs hdst.2 hdst hi, hpar, bind_eq_bind, bind_some]
    rfl
  · unfold vectorProcessing
    rw [ElementType.lane_ofLanes _ (Nat.mod_lt n e.elementsCount_pos), List.map_map]
    refine congrArg _ (List.map_congr_left fun arg _ => ?_)
    exact vectorElement_param arg hvl (Nat.lt_of_lt_of_le hn (Nat.mul_le_mul_right _ hregs.le))
      hst hend hact

theorem getD_aligned (hdst : dst < 32 ∧ isAligned dst regs = true)
    (h : ∀ r ∈ dstMask, r < 32 ∧ isAligned r regs = true) :
    dstMask.getD dst < 32 ∧ isAligned (dstMask.getD dst) regs = true := by
  cases dstMask with
  | none => exact hdst
  | some r => exact h r rfl

theorem isAligned_getD (h : ∀ r ∈ dstMask, r < 32 ∧ isAligned r regs = true) :
    isAligned (dstMask.getD 0) regs = true := by
  cases dstMask with
  | none => exact isAligned_zero regs
  | some r => exact (h r rfl).2

theorem opVectorv_outcome {extraCsrs : List CsrName}
    {intrinsic : List (BitVec 64) → BitVec e.bits → BitVec e.bits} {src : Nat}
    (hregs : GroupSize regs) (hdst : dst < 32 ∧ isAligned dst regs = true)
    (hsrc : src < 32 ∧ isAligned src regs = true)
    (hmask : ∀ r ∈ dstMask, r < 32 ∧ isAligned r regs = true) (hexc : s.exceptionRaised = false) :
    ∃ v', opVectorv regs vta vma extraCsrs intrinsic dst src dstMask s =
        some { s with v := v', vstart := 0 } ∧
      Outcome e vta vma regs dst
        (fun n => intrinsic (extraCsrs.map s.getCsr) (element e s.v src n))
        (element e s.v (dstMask.getD dst)) s v' := by
  have halign : isAligned (dst ||| src ||| dstMask.getD 0) regs = true := by
    rw [isAligned_or hregs, isAligned_or hregs, hdst.2, hsrc.2, isAligned_getD hmask]
    rfl
  unfold opVectorv
  simp only [halign, Bool.not_true, Bool.false_eq_true, if_false, State.setVstart_zero hexc]
  refine Outcome.of_exit fun h => ?_
  refine GroupAfter.of_loop
    (fun i => ofLanes e.bits fun j =>
      intrinsic (extraCsrs.map s.getCsr) (lane e.bits (s.v (src + i)) j))
    (fun i => s.v (dstMask.getD dst + i)) rfl hregs (add_le_of_isAligned hregs hdst.1 hdst.2) h
    (fun i hi new => ?_) (fun n _ _ _ _ => ?_) (fun n _ => rfl)
  · simp only [getV_overwritten hregs hdst.2 hdst hi, getV_overwritten hregs hdst.2 hsrc hi,
      getV_overwritten hregs hdst.2 (getD_aligned hdst hmask) hi, bind_eq_bind,
      bind_some]
    rfl
  · rw [ElementType.lane_ofLanes _ (Nat.mod_lt n e.elementsCount_pos)]
    rfl

theorem opVectorx_outcome {intrinsic : BitVec e.bits → BitVec e.bits} {arg2 : BitVec e.bits}
    (hregs : GroupSize regs) (hdst : dst < 32 ∧ isAligned dst regs = true)
    (hmask : ∀ r ∈ dstMask, r < 32 ∧ isAligned r regs = true) (hexc : s.exceptionRaised = false) :
    ∃ v', opVectorx regs vta vma intrinsic dst arg2 dstMask s =
        some { s with v := v', vstart := 0 } ∧
      Outcome e vta vma regs dst (fun _ => intrinsic arg2)
        (element e s.v (dstMask.getD dst)) s v' := by
  have halign : isAligned (dst ||| dstMask.getD 0) regs = true := by
    rw [isAligned_or hregs, hdst.2, isAligned_getD hmask]
    rfl
  unfold opVectorx
  simp only [halign, Bool.not_true, Bool.false_eq_true, if_false, State.setVstart_zero hexc]
  refine Outcome.of_exit fun h => ?_
  refine GroupAfter.of_loop (fun _ => ofLanes e.bits fun _ => intrinsic arg2)
    (fun i => s.v (dstMask.getD dst + i)) rfl hregs (add_le_of_isAligned hregs hdst.1 hdst.2) h
    (fun i hi new => ?_) (fun n _ _ _ _ => ?_) (fun n _ => rfl)
  · simp only [getV_overwritten hregs hdst.2 hdst hi,
      getV_overwritten hregs hdst.2 (getD_aligned hdst hmask) hi, bind_eq_bind,
      bind_some]
    rfl
  · exact ElementType.lane_ofLanes _ (Nat.mod_lt n e.elementsCount_pos)

theorem SameWidthOperation.run_outcome (op : SameWidthOperation e)
    (vlmul : VectorRegisterGroupMultiplier) (vta : TailProcessing) (vma : Option InactiveProcessing)
    (hdst : dst < 32 ∧ isAligned dst (numberOfRegistersInvolved vlmul) = true)
    (hsrc : ∀ r ∈ op.sources, r < 32 ∧ isAligned r (numberOfRegistersInvolved vlmul) = true)
    (hexc : s.exceptionRaised = false) :
    ∃ v', op.run (numberOfRegistersInvolved vlmul) vta vma dst s =
        some { s with v := v', vstart := 0 } ∧
      Outcome e vta vma (numberOfRegistersInvolved vlmul) dst (fun n => op.result s n)
        (element e s.v (op.inactiveGroup dst)) s v' := by
  have hregs := groupSize_numberOfRegistersInvolved vlmul
  cases op with
  | sameWidth extraCsrs intrinsic args =>
    refine opVectorSameWidth_outcome hregs hdst (fun arg harg r hr => ?_) hexc
    exact hsrc r (mem_filterMap.2 ⟨arg, harg, hr⟩)
  | v extraCsrs intrinsic src dstMask =>
    refine opVectorv_outcome hregs hdst (hsrc src (mem_cons_self ..))
      (fun r hr => ?_) hexc
    exact hsrc r (mem_cons_of_mem src (mem_toList.2 hr))
  | x intrinsic arg2 dstMask =>
    refine opVectorx_outcome hregs hdst (fun r hr => ?_) hexc
    exact hsrc r (mem_toList.2 hr)

/-- Same-width operations follow the partition of the elements, for all register groups
    that are aligned. -/
theorem opVector_elements (op : SameWidthOperation e) (vlmul : VectorRegisterGroupMultiplier)
    (vta : TailProcessing) (vma : Option InactiveProcessing) (dst : Nat) (s : State)
    (hdst : dst < 32 ∧ isAligned dst (numberOfRegistersInvolved vlmul) = true)
    (hsources : ∀ r ∈ op.sources, r < 32 ∧ isAligned r (numberOfRegistersInvolved vlmul) = true)
    (hexc : s.exceptionRaised = false) (h : s.vstart.toNat < s.vl.toNat) :
    ∃ v', op.run (numberOfRegistersInvolved vlmul) vta vma dst s =
        some { s with v := v', vstart := 0 } ∧
      GroupAfter e vta vma (numberOfRegistersInvolved vlmul) dst (fun n => op.result s n)
        (element e s.v (op.inactiveGroup dst)) s v' := by
  rcases op.run_outcome vlmul vta vma hdst hsources hexc with ⟨v', hrun, houtcome⟩
  exact ⟨v', hrun, houtcome.group h⟩

def vaddState : State where
  x := fun _ => 0
  f := fun _ => 0
  v := fun n => BitVec.ofNat 128 (0x00030002_00010000_00030002_00010001 * n)
  frm := 0
  vstart := 1
  vcsr := 0
  vl := 9
  vtype := 0x89
  insnAddr := 0x1000
  mem := fun _ => 0
  accesses := []
  exceptionRaised := false

/-- `vadd.vv v4, v4, v6` with LMUL 2 and 16-bit elements. -/
theorem opVector_elements_vadd : ∃ v', (SameWidthOperation.sameWidth [] (fun _ args => args.sum)
        [.vec 4, .vec 6] : SameWidthOperation .e16).run 2 .kUndisturbed none 4 vaddState =
          some { vaddState with v := v', vstart := 0 } ∧
      (List.range 10).map (element .e16 v' 4) = [4, 10, 20, 30, 0, 10, 20, 30, 12, 5] := by
  rcases opVector_elements (.sameWidth [] (fun _ args => args.sum) [.vec 4, .vec 6] :
    SameWidthOperation .e16) .k2registers .kUndisturbed none 4 vaddState (by decide) (by decide)
    rfl (by decide) with ⟨v', hrun, hafter⟩
  refine ⟨v', hrun, ?_⟩
  have hmap : (List.range 10).map (element .e16 v' 4) = _ :=
    List.map_congr_left fun n hn => hafter.elements n
      (Nat.lt_trans (mem_range.1 hn) (by decide))
  rw [hmap]
  decide

end Berberis.Riscv64.Vector
