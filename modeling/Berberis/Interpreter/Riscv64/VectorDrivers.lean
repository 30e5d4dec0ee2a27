import Berberis.Interpreter.Riscv64.VectorMemory
import Berberis.Interpreter.Riscv64.VectorWiden

/-!
# The Other Vector Drivers

The drivers of vector operations that are neither element by element nor accesses
to memory: slides, gathers, reductions, comparisons to a mask, operations on masks
and operations with a carry. Each of them has its own checks, its own way out if
there are no elements to process, and sometimes work to do after that.
-/

namespace Berberis.Riscv64.Vector

open Lib

/-! ### Intrinsics -/

def countBits (src : BitVec 128) (counter i : Nat) : Nat :=
  counter + (List.range i).countP (src.getLsbD ·)

/-- The running counts, and the counter for the next register. -/
def viotam (e : ElementType) (src : BitVec 128) (counter : Nat) : BitVec 128 × Nat :=
  (ofLanes e.bits fun i => BitVec.ofNat e.bits (countBits src counter i),
    countBits src counter e.elementsCount)

def vidv (e : ElementType) (index : Nat) : BitVec 128 :=
  ofLanes e.bits fun i => BitVec.ofNat e.bits (index * e.elementsCount + i)

def vectorSlideUp (e : ElementType) (offset : Nat) (src1 src2 : BitVec 128) : BitVec 128 :=
  ofLanes e.bits fun i =>
    if i < offset then lane e.bits src1 (e.elementsCount - offset + i)
    else lane e.bits src2 (i - offset)

def vectorSlideDown (e : ElementType) (offset : Nat) (src1 src2 : BitVec 128) : BitVec 128 :=
  ofLanes e.bits fun i =>
    if i < e.elementsCount - offset then lane e.bits src1 (offset + i)
    else lane e.bits src2 (i - (e.elementsCount - offset))

def vectorZeroFill (e : ElementType) (src : BitVec 128) (first last index : Nat) : BitVec 128 :=
  vectorMasking e .kUndisturbed none src 0 src first last index 0

def getMaskVectorArgument (e : ElementType) (mask : BitVec 128) (index : Nat) : BitVec 128 :=
  bitMaskToSimdMask e (maskForRegisterInSequence e mask index)

/-- The mask bits for a register, if the mask has so many of them: 16-bit and 8-bit parts
    are taken out of it by their index. -/
def getMaskForRegister (e : ElementType) (mask : BitVec 128) (registerInSequence : Nat) :
    Option (BitVec 16) :=
  match e with
  | .e8 => if registerInSequence < 8 then some (maskForRegisterInSequence e mask registerInSequence)
      else none
  | .e16 =>
    if registerInSequence < 16 then some (maskForRegisterInSequence e mask registerInSequence)
      else none
  | _ => some (maskForRegisterInSequence e mask registerInSequence)

def copied (e : ElementType) (v : Nat → BitVec 128) (src size n : Nat) : Option (BitVec e.bits) :=
  if n < size then
    (getV v (src + n / e.elementsCount)).map fun r => lane e.bits r (n % e.elementsCount)
  else none

/-! ### Gathers and sequences -/

section Drivers

variable (e : ElementType) (vlmul : VectorRegisterGroupMultiplier) (vta : TailProcessing)
  (vma : Option InactiveProcessing)

def gatherElements (getElementIndex : Nat → Option (BitVec e.bits))
    (values : Nat → Option (BitVec e.bits)) (uninitialized : BitVec 128) (vstart index : Nat) :
    Option (BitVec 128) :=
  let first := vstart % e.elementsCount
  forRange (fun dstElementIndex r =>
    (getElementIndex (index * e.elementsCount + dstElementIndex)).bind fun srcElementIndex =>
      (if srcElementIndex.toNat < getVlmax e vlmul then values srcElementIndex.toNat
        else some 0).map (setLane e.bits r dstElementIndex))
    first (e.elementsCount - first) uninitialized

/-- A round of the loop over the registers. Only the first one starts at `vstart`. -/
def gatherRegister (getElementIndex : Nat → Option (BitVec e.bits))
    (values : Nat → Option (BitVec e.bits)) (uninitialized : BitVec 128) (dst vl : Nat)
    (mask : BitVec 128) (index : Nat) : Nat × State → Option (Nat × State)
  | (vstart, s) => do
      let result ← getV s.v (dst + index)
      let value ← gatherElements e vlmul getElementIndex values uninitialized vstart index
      let s ← s.setV (dst + index)
        (vectorMasking e vta vma result value result vstart vl index mask)
      return (0, s)

def opVectorGather (uninitialized : BitVec 128) (dst src1 : Nat)
    (getElementIndex : Nat → Option (BitVec e.bits)) (s : State) : Option State :=
  let registersInvolved := numberOfRegistersInvolved vlmul
  if !isAligned (dst ||| src1) registersInvolved then some s.undefined
  else if dst < src1 + registersInvolved ∧ src1 < dst + registersInvolved then some s.undefined
  else
    let vstart := s.vstart.toNat
    let vl := s.vl.toNat
    let mask := s.v 0
    let s := s.setVstart 0
    if vl ≤ vstart then some s
    else
      let first := vstart / e.elementsCount
      (forRange (gatherRegister e vlmul vta vma getElementIndex
        (copied e s.v src1 (getVlmax e vlmul)) uninitialized dst vl mask) first
        (registersInvolved - first) (vstart, s)).map Prod.snd

def opVectorGathervv (uninitialized : BitVec 128) (dst src1 src2 : Nat) (s : State) :
    Option State :=
  if !isAligned src2 (numberOfRegistersInvolved vlmul) then some s.undefined
  else
    opVectorGather e vlmul vta vma uninitialized dst src1 (copied e s.v src2 (getVlmax e vlmul)) s

/-- A round of the loop: the rest of the mask, the counter and the state. -/
def viotamRegister (dst vl : Nat) (mask : BitVec 128) (index : Nat) :
    BitVec 128 × Nat × State → Option (BitVec 128 × Nat × State)
  | (arg1, counter, s) => do
      let result ← getV s.v (dst + index)
      let (value, counter) := viotam e arg1 counter
      let s ← s.setV (dst + index) (vectorMasking e vta vma result value result 0 vl index mask)
      return (arg1 >>> e.elementsCount, counter, s)

def opVectorViotam (registersInvolved dst src1 : Nat) (s : State) : Option State :=
  if s.vstart ≠ 0 then some s.undefined
  else if s.vl = 0 then some s
  else
    (getV s.v src1).bind fun arg1 =>
      let mask := s.v 0
      let arg1 := if vma.isSome then arg1 &&& mask else arg1
      (forRange (viotamRegister e vta vma dst s.vl.toNat mask) 0 registersInvolved
        (arg1, 0, s)).map fun (_, _, s) => s

def opVectorVidv (registersInvolved dst : Nat) (s : State) : Option State :=
  if !isAligned dst registersInvolved then some s.undefined
  else
    let vstart := s.vstart.toNat
    let vl := s.vl.toNat
    let s := s.setVstart 0
    if vl ≤ vstart then some s
    else
      let mask := s.v 0
      forRange (writeRegister (fun index s => (getV s.v (dst + index)).map fun result =>
        vectorMasking e vta vma result (vidv e index) result vstart vl index mask) dst)
        0 registersInvolved s

/-- Element 0 is written if it is in the body. The other elements are the tail. -/
def opVectorVmvsx (dst : Nat) (element : BitVec e.bits) (s : State) : Option State :=
  let moved :=
    if s.vstart = 0 ∧ s.vl ≠ 0 then
      (getV s.v dst).bind fun r =>
        let result := match vta with
          | .kAgnostic => BitVec.allOnes 128
          | .kUndisturbed => r
        s.setV dst (setLane e.bits result 0 element)
    else some s
  moved.map (State.setVstart · 0)

/-! ### Masks -/

def opVectormm (intrinsic : BitVec 128 → BitVec 128 → BitVec 128) (dst src1 src2 : Nat)
    (s : State) : Option State :=
  let vstart := s.vstart.toNat
  let vl := s.vl.toNat
  let s := s.setVstart 0
  if vl ≤ vstart then some s
  else do
    let arg1 ← getV s.v src1
    let arg2 ← getV s.v src2
    let result ←
      if 0 < vstart then
        let startMask := maskFrom vstart
        (getV s.v dst).map fun result =>
          (result &&& ~~~startMask) ||| (intrinsic arg1 arg2 &&& startMask)
      else some (intrinsic arg1 arg2)
    s.setV dst (result ||| maskFrom vl)

def opVectorVMUnary0 (intrinsic : BitVec 128 → BitVec 128) (dst src1 : Nat) (s : State) :
    Option State :=
  if s.vstart ≠ 0 then some s.undefined
  else if s.vl = 0 then some s
  else do
    let arg1 ← getV s.v src1
    let mask := s.v 0
    let tailMask := maskFrom s.vl.toNat
    let arg1 := (if vma.isSome then arg1 &&& mask else arg1) &&& ~~~tailMask
    let result := intrinsic arg1
    let result ←
      match vma with
      | none => some result
      | some .kUndisturbed => (getV s.v dst).map fun r => (result &&& mask) ||| (r &&& ~~~mask)
      | some .kAgnostic => some (result ||| ~~~mask)
    s.setV dst (result ||| tailMask)

def collectBitmaskResult (registersInvolved : Nat)
    (intrinsic : Nat → Option (Nat → Bool)) : Option (BitVec 128) :=
  forRange (fun index bitmaskResult => (intrinsic index).map fun rawResult =>
    bitmaskResult ||| (ofBits (fun i => i < e.elementsCount && rawResult i) 128 <<<
      (index * e.elementsCount))) 0 registersInvolved 0

/-- The result with the inactive bits and those before `vstart`. -/
def maskToMask (vstart : Nat) (mask originalResult result : BitVec 128) : BitVec 128 :=
  let result := match vma with
    | none => result
    | some .kAgnostic => result ||| ~~~mask
    | some .kUndisturbed => (mask &&& result) ||| (originalResult &&& ~~~mask)
  if 0 < vstart then
    (originalResult &&& ~~~maskFrom vstart) ||| (result &&& maskFrom vstart)
  else result

def opVectorToMask (extraCsrs : List CsrName)
    (intrinsic : List (BitVec 64) → List (BitVec e.bits) → Bool) (registersInvolved dst : Nat)
    (args : List (Arg e)) (s : State) : Option State :=
  if !isAligned (orValuesOnlyForType Arg.startNo args) registersInvolved then some s.undefined
  else
    (getV s.v dst).bind fun originalResult =>
      let vstart := s.vstart.toNat
      let vl := s.vl.toNat
      let s := s.setVstart 0
      let resultBeforeVlMasking :=
        if vl ≤ vstart then some originalResult
        else
          (collectBitmaskResult e registersInvolved fun index =>
            (args.mapM (getVectorArgument none vstart vl index (s.v 0) s.v)).map fun params i =>
              intrinsic (extraCsrs.map s.getCsr) (params.map (vectorElement i))).map
            (maskToMask vma vstart (s.v 0) originalResult)
      resultBeforeVlMasking.bind fun result => s.setV dst (result ||| maskFrom vl)

/-! ### Reductions and carries -/

def opVectorvs {w : ElementType} (extraCsrs : List CsrName)
    (intrinsic : List (BitVec 64) → BitVec w.bits → SimdArg e → BitVec w.bits)
    (registersInvolved dst : Nat) (defaultElement : BitVec e.bits) (src1 src2 : Nat) (s : State) :
    Option State :=
  if !isAligned (dst ||| src1) registersInvolved then some s.undefined
  else if s.vstart ≠ 0 then some s.undefined
  else
    let vl := s.vl.toNat
    let s := s.setVstart 0
    if vl = 0 then some s
    else do
      let init ← getV s.v src2
      let init ← forRange (fun index init =>
        (getVectorArgument vma 0 vl index (s.v 0) s.v (.vecDefault defaultElement src1)).map
          (intrinsic (extraCsrs.map s.getCsr) init)) 0 registersInvolved (lane w.bits init 0)
      let result ← getV s.v dst
      let result := setLane w.bits result 0 init
      s.setV dst (vectorMaskingNoMask w vta result result 0 1)

/-- The loop of the operations with a carry. The carries are those of `v0` at the time. -/
def carryRegister (extraCsrs : List CsrName)
    (intrinsic : List (BitVec 64) → List (BitVec e.bits) → BitVec e.bits → BitVec e.bits)
    (dst : Nat) (args : List (Arg e)) (vstart vl index : Nat) (s : State) :
    Option (BitVec 128) := do
  let params ← args.mapM (getVectorArgument none vstart vl index (s.v 0) s.v)
  let arg3 := if vma = some .kUndisturbed then getMaskVectorArgument e (s.v 0) index else 0
  let result ← getV s.v (dst + index)
  return vectorMasking e vta none result
    (ofLanes e.bits fun i =>
      intrinsic (extraCsrs.map s.getCsr) (params.map (vectorElement i)) (lane e.bits arg3 i))
    result vstart vl index (s.v 0)

/-- The operations with a carry raise an exception if there are no elements. -/
def opVectorCarry (extraCsrs : List CsrName)
    (intrinsic : List (BitVec 64) → List (BitVec e.bits) → BitVec e.bits → BitVec e.bits)
    (registersInvolved dst : Nat) (args : List (Arg e)) (s : State) : Option State :=
  if !isAligned (orValuesOnlyForType Arg.startNo args ||| dst) registersInvolved then
    some s.undefined
  else
    let vstart := s.vstart.toNat
    let vl := s.vl.toNat
    let s := s.setVstart 0
    if vl ≤ vstart then some s.undefined
    else
      forRange (writeRegister (carryRegister e vta vma extraCsrs intrinsic dst args vstart vl) dst)
        0 registersInvolved s

def opVectorvxm (extraCsrs : List CsrName)
    (intrinsic : List (BitVec 64) → List (BitVec e.bits) → BitVec e.bits → BitVec e.bits)
    (registersInvolved dst src1 : Nat) (arg2 : BitVec e.bits) : State → Option State :=
  opVectorCarry e vta vma extraCsrs intrinsic registersInvolved dst [.vec src1, .scalar arg2]

def opVectorvvm (extraCsrs : List CsrName)
    (intrinsic : List (BitVec 64) → List (BitVec e.bits) → BitVec e.bits → BitVec e.bits)
    (registersInvolved dst src1 src2 : Nat) : State → Option State :=
  opVectorCarry e vta vma extraCsrs intrinsic registersInvolved dst [.vec src1, .vec src2]

/-! ### Slides -/

/-- A register of the source. There are zeros before the group. -/
def slideArg (src : Nat) (disp : Int) (s : State) : Option (BitVec 128) :=
  if disp < 0 then some 0 else getV s.v (src + disp.toNat)

def slideupRegister (dst src : Nat) (offset : Nat) (start vl : Nat) (mask : BitVec 128)
    (index : Nat) (s : State) : Option (BitVec 128) := do
  let result ← getV s.v (dst + index)
  let firstArgDisp : Int := (index : Int) - 1 - (offset / e.elementsCount : Nat)
  let arg1 ← slideArg src firstArgDisp s
  let arg2 ← slideArg src (firstArgDisp + 1) s
  return vectorMasking e vta vma result (vectorSlideUp e (offset % e.elementsCount) arg1 arg2)
    result start vl index mask

def opVectorslideup (registersInvolved dst src : Nat) (offset : BitVec 64) (s : State) :
    Option State :=
  if !isAligned (dst ||| src) registersInvolved then some s.undefined
  else if dst < src + registersInvolved ∧ src < dst + registersInvolved then some s.undefined
  else
    let vstart := s.vstart.toNat
    let vl := s.vl.toNat
    let s := s.setVstart 0
    if vl ≤ vstart then some s
    else
      let startElemIndex := min (max vstart offset.toNat) vl
      let first := startElemIndex / e.elementsCount
      forRange (writeRegister
        (slideupRegister e vta vma dst src offset.toNat startElemIndex vl (s.v 0)) dst)
        first (registersInvolved - first) s

/-- Element 0 is written after the slide, unless `vstart` was after it. -/
def opVectorslide1up (registersInvolved dst src : Nat) (xval : BitVec e.bits) (s : State) :
    Option State :=
  let vstart := s.vstart.toNat
  (opVectorslideup e vta vma registersInvolved dst src 1 s).bind fun s =>
    if s.exceptionRaised then some s
    else if 0 < vstart then some s
    else if vma.isSome && !(s.v 0).getLsbD 0 then some s
    else (getV s.v dst).bind fun result => s.setV dst (setLane e.bits result 0 xval)

def slidedownRegister (dst src offset vlmax vstart vl : Nat) (mask : BitVec 128) (index : Nat)
    (s : State) : Option (BitVec 128) := do
  let result ← getV s.v (dst + index)
  let firstArgDisp := index + offset / e.elementsCount
  let arg1 ← getV s.v (src + firstArgDisp)
  let arg2 ← getV s.v (src + firstArgDisp + 1)
  let tunnelShiftResult :=
    if vlmax ≤ offset then 0
    else
      vectorZeroFill e (vectorSlideDown e (offset % e.elementsCount) arg1 arg2) (vlmax - offset)
        vlmax index
  return vectorMasking e vta vma result tunnelShiftResult result vstart vl index mask

def opVectorslidedown (dst src : Nat) (offset : BitVec 64) (s : State) : Option State :=
  let registersInvolved := numberOfRegistersInvolved vlmul
  if !isAligned (dst ||| src) registersInvolved then some s.undefined
  else
    let vstart := s.vstart.toNat
    let vl := s.vl.toNat
    let s := s.setVstart 0
    if vl ≤ vstart then some s
    else
      forRange (writeRegister (slidedownRegister e vta vma dst src offset.toNat (getVlmax e vlmul)
        vstart vl (s.v 0)) dst) 0 registersInvolved s

def lastElem (s : State) : Nat := (s.vl.setWidth 64 - 1).toNat

/-- What element `vl - 1` is set to after the slide, if it is. An inactive one stays, so
    it is restored if the slide does not keep it. -/
def lastElemValue (dst : Nat) (xval : BitVec e.bits) (s : State) :
    Option (Option (BitVec e.bits)) :=
  let lastElemRegister := lastElem s / e.elementsCount
  let lastElemWithinRegPos := lastElem s % e.elementsCount
  match vma with
  | none => some (some xval)
  | some policy =>
    (getMaskForRegister e (s.v 0) lastElemRegister).bind fun maskBits =>
      if maskBits.getLsbD lastElemWithinRegPos then some (some xval)
      else
        match policy with
        | .kUndisturbed => some none
        | .kAgnostic => (getV s.v (dst + lastElemRegister)).map fun original =>
          some (lane e.bits original lastElemWithinRegPos)

def opVectorslide1down (dst src : Nat) (xval : BitVec e.bits) (s : State) : Option State :=
  let lastElemRegister := lastElem s / e.elementsCount
  let lastElemWithinRegPos := lastElem s % e.elementsCount
  (lastElemValue e vma dst xval s).bind fun value =>
    (opVectorslidedown e vlmul vta vma dst src 1 s).bind fun s =>
      if s.exceptionRaised then some s
      else
        match value with
        | none => some s
        | some value =>
          (getV s.v (dst + lastElemRegister)).bind fun result =>
            s.setV (dst + lastElemRegister)
              (setLane e.bits result lastElemWithinRegPos value)

end Drivers

/-! ### Instructions -/

/-- An operation with its driver and operands. -/
inductive VectorOperation (e : ElementType) where
  | sameWidth (dst : Nat) (op : SameWidthOperation e)
  /-- Inactive elements are always those of a register. -/
  | merge (dst : Nat) (op : SameWidthOperation e)
  | mixedWidth (dst : Nat) (op : MixedWidthOperation e)
  | gathervv (uninitialized : BitVec 128) (dst src1 src2 : Nat)
  | gatherx (uninitialized : BitVec 128) (dst src1 : Nat) (index : BitVec e.bits)
  | viotam (dst src1 : Nat)
  | vidv (dst : Nat)
  | vmvsx (dst : Nat) (element : BitVec e.bits)
  | mm (intrinsic : BitVec 128 → BitVec 128 → BitVec 128) (dst src1 src2 : Nat)
  | vmUnary0 (intrinsic : BitVec 128 → BitVec 128) (dst src1 : Nat)
  | toMask (extraCsrs : List CsrName)
      (intrinsic : List (BitVec 64) → List (BitVec e.bits) → Bool) (dst : Nat) (args : List (Arg e))
  | vs (w : ElementType) (extraCsrs : List CsrName)
      (intrinsic : List (BitVec 64) → BitVec w.bits → SimdArg e → BitVec w.bits) (dst : Nat)
      (defaultElement : BitVec e.bits) (src1 src2 : Nat)
  | vxm (extraCsrs : List CsrName)
      (intrinsic : List (BitVec 64) → List (BitVec e.bits) → BitVec e.bits → BitVec e.bits)
      (dst src1 : Nat) (arg2 : BitVec e.bits)
  | vvm (extraCsrs : List CsrName)
      (intrinsic : List (BitVec 64) → List (BitVec e.bits) → BitVec e.bits → BitVec e.bits)
      (dst src1 src2 : Nat)
  | slideup (dst src : Nat) (offset : BitVec 64)
  | slide1up (dst src : Nat) (xval : BitVec e.bits)
  | slidedown (dst src : Nat) (offset : BitVec 64)
  | slide1down (dst src : Nat) (xval : BitVec e.bits)
  /-- An opcode of the decoder that the interpreter has no case for: `vmadc`, `vmsbc`,
      `vcompress.vm`, `vrgatherei16`, `vfrec7.v` and `vfncvt.rod.f.f.w`. -/
  | unimplemented

namespace VectorOperation

variable {e : ElementType}

def run (vlmul : VectorRegisterGroupMultiplier) (vta : TailProcessing)
    (vma : Option InactiveProcessing) (s : State) : VectorOperation e → Option State
  | sameWidth dst op => op.run (numberOfRegistersInvolved vlmul) vta vma dst s
  | merge dst op =>
    op.run (numberOfRegistersInvolved vlmul) vta (vma.map fun _ => .kUndisturbed) dst s
  | mixedWidth dst op => op.run vlmul vta vma dst s
  | gathervv uninitialized dst src1 src2 =>
    opVectorGathervv e vlmul vta vma uninitialized dst src1 src2 s
  | gatherx uninitialized dst src1 index =>
    opVectorGather e vlmul vta vma uninitialized dst src1 (fun _ => some index) s
  | viotam dst src1 => opVectorViotam e vta vma (numberOfRegistersInvolved vlmul) dst src1 s
  | vidv dst => opVectorVidv e vta vma (numberOfRegistersInvolved vlmul) dst s
  | vmvsx dst element => opVectorVmvsx e vta dst element s
  | mm intrinsic dst src1 src2 => opVectormm intrinsic dst src1 src2 s
  | vmUnary0 intrinsic dst src1 => opVectorVMUnary0 vma intrinsic dst src1 s
  | toMask extraCsrs intrinsic dst args =>
    opVectorToMask e vma extraCsrs intrinsic (numberOfRegistersInvolved vlmul) dst args s
  | vs _ extraCsrs intrinsic dst defaultElement src1 src2 =>
    opVectorvs e vta vma extraCsrs intrinsic (numberOfRegistersInvolved vlmul) dst defaultElement
      src1 src2 s
  | vxm extraCsrs intrinsic dst src1 arg2 =>
    opVectorvxm e vta vma extraCsrs intrinsic (numberOfRegistersInvolved vlmul) dst src1 arg2 s
  | vvm extraCsrs intrinsic dst src1 src2 =>
    opVectorvvm e vta vma extraCsrs intrinsic (numberOfRegistersInvolved vlmul) dst src1 src2 s
  | slideup dst src offset =>
    opVectorslideup e vta vma (numberOfRegistersInvolved vlmul) dst src offset s
  | slide1up dst src xval =>
    opVectorslide1up e vta vma (numberOfRegistersInvolved vlmul) dst src xval s
  | slidedown dst src offset => opVectorslidedown e vlmul vta vma dst src offset s
  | slide1down dst src xval => opVectorslide1down e vlmul vta vma dst src xval s
  | unimplemented => some s.undefined

end VectorOperation

def maskPolicy (vm : Bool) (vtype : BitVec 64) : Option InactiveProcessing :=
  if vm then none
  else if vtype >>> 7 ≠ 0 then some .kAgnostic
  else some .kUndisturbed

/-- The selection by `vtype`. Element types that an opcode is not defined for have no operation. -/
def opVector (vm : Bool) (op : (e : ElementType) → Option (VectorOperation e)) (s : State) :
    Option State :=
  if s.vtype.msb then some s.undefined
  else
    match ElementType.ofVsew (s.vtype.extractLsb' 3 3),
        VectorRegisterGroupMultiplier.ofVlmul (s.vtype.extractLsb' 0 3) with
    | some e, some vlmul =>
      match op e with
      | some op => op.run vlmul (vtaOf s.vtype) (maskPolicy vm s.vtype) s
      | none => some s.undefined
    | _, _ => some s.undefined

/-- The vector instructions that go through a driver. -/
inductive VectorInsn where
  | memory (insn : MemoryInsn)
  | arithmetic (vm : Bool) (op : (e : ElementType) → Option (VectorOperation e))

/-- Which accesses fault, and what a load has in registers that it has not initialized,
    only matters for loads and stores. -/
def VectorInsn.run (faults : BitVec 64 → Nat → Bool) (uninitialized : Nat → BitVec 128)
    (s : State) : VectorInsn → Option State
  | memory insn => opVectorMemory faults uninitialized insn s
  | arithmetic vm op => opVector vm op s

end Berberis.Riscv64.Vector
