import Berberis.Interpreter.Riscv64.VectorLoadRuns

/-!
# What Vector Loads and Stores Move

The vector manual says which loads and stores are legal and what they do: a store
puts the active elements of its registers to their locations in memory, element
by element and within an element field by field, and a load is the other way
around. The interpreter does the same whenever it accepts an instruction.

## Theorems

* `select_eq`: The dispatch in terms of EMUL.
* `opVectorMemory_moves_iff`: Exactly the accepted instructions do what they should.
-/

namespace Berberis.Riscv64.Vector

open Lib SegmentAccess MemoryInsn

/-! ### The values of `vtype` -/

namespace VectorRegisterGroupMultiplier

def exponent : VectorRegisterGroupMultiplier → Int
  | k1register => 0
  | k2registers => 1
  | k4registers => 2
  | k8registers => 3
  | kEigthOfRegister => -3
  | kQuarterOfRegister => -2
  | kHalfOfRegister => -1

end VectorRegisterGroupMultiplier

/-- A legal value of `vtype`: the registers have room for an element. -/
structure VType where
  vsew : ElementType
  vlmul : VectorRegisterGroupMultiplier
  vta : TailProcessing
  vma : InactiveProcessing
  vlmax_pos : 0 < getVlmax vsew vlmul

namespace VType

def bits (vsew : ElementType) (vlmul : VectorRegisterGroupMultiplier) (vta : TailProcessing)
    (vma : InactiveProcessing) : BitVec 64 :=
  (BitVec.ofInt 3 vlmul.exponent).setWidth 64 ||| BitVec.ofNat 64 (8 * vsew.code) |||
    (if vta = .kAgnostic then 1 <<< 6 else 0) ||| (if vma = .kAgnostic then 1 <<< 7 else 0)

def encode (t : VType) : BitVec 64 := bits t.vsew t.vlmul t.vta t.vma

def emul (t : VType) (width : ElementType) : Int := t.vlmul.exponent - t.vsew.code + width.code

variable (t : VType)

theorem bits_fields (vsew : ElementType) (vlmul : VectorRegisterGroupMultiplier)
    (vta : TailProcessing) (vma : InactiveProcessing) : (bits vsew vlmul vta vma).msb = false ∧
      (bits vsew vlmul vta vma).extractLsb' 0 3 = BitVec.ofInt 3 vlmul.exponent ∧
      (bits vsew vlmul vta vma).extractLsb' 3 3 = BitVec.ofNat 3 vsew.code ∧
      (bits vsew vlmul vta vma).getLsbD 6 = decide (vta = .kAgnostic) ∧
      ((bits vsew vlmul vta vma) >>> 7 ≠ 0 ↔ vma = .kAgnostic) := by
  cases vsew <;> cases vlmul <;> cases vta <;> cases vma <;> decide

theorem msb_encode : t.encode.msb = false := (bits_fields ..).1

theorem extractLsb'_vlmul : t.encode.extractLsb' 0 3 = BitVec.ofInt 3 t.vlmul.exponent :=
  (bits_fields ..).2.1

theorem extractLsb'_vsew : t.encode.extractLsb' 3 3 = BitVec.ofNat 3 t.vsew.code :=
  (bits_fields ..).2.2.1

theorem vemul_encode (width : ElementType) : vemul width t.encode = t.emul width := by
  unfold vemul emul
  rw [t.extractLsb'_vlmul, t.extractLsb'_vsew]
  congr 2
  · cases t.vlmul <;> decide
  · cases t.vsew <;> decide

theorem vtaOf_encode : vtaOf t.encode = t.vta := by
  unfold vtaOf encode
  rw [(bits_fields ..).2.2.2.1]
  cases t.vta <;> rfl

theorem vmaOf_encode (args : MemoryArgs) :
    vmaOf args t.encode = if args.vm then none else some t.vma := by
  unfold vmaOf encode
  rw [if_congr (bits_fields ..).2.2.2.2 rfl rfl]
  cases t.vma <;> rfl

theorem ofVsew_encode : ElementType.ofVsew (t.encode.extractLsb' 3 3) = some t.vsew := by
  rw [t.extractLsb'_vsew]
  cases t.vsew <;> rfl

theorem ofVlmul_encode :
    VectorRegisterGroupMultiplier.ofVlmul (t.encode.extractLsb' 0 3) = some t.vlmul := by
  rw [t.extractLsb'_vlmul]
  cases t.vlmul <;> rfl

end VType

/-- The number of registers of a group, by EMUL as a power of two. -/
def registersFor (emul : Int) : Nat := 2 ^ emul.toNat

theorem numberOfRegistersInvolved_eq (vlmul : VectorRegisterGroupMultiplier) :
    numberOfRegistersInvolved vlmul = registersFor vlmul.exponent := by
  cases vlmul <;> rfl

theorem groupSize_registersFor {emul : Int} (h : emul ≤ 3) : GroupSize (registersFor emul) := by
  unfold registersFor GroupSize
  have hle : emul.toNat ≤ 3 := by omega
  generalize emul.toNat = k at hle
  interval_cases k <;> decide

theorem ofVlmul_ofInt {m : Int} (h : -3 ≤ m ∧ m ≤ 3) :
    ∃ vlmul, VectorRegisterGroupMultiplier.ofVlmul (BitVec.ofInt 3 m) = some vlmul ∧
      numberOfRegistersInvolved vlmul = registersFor m := by
  obtain ⟨hlow, hupp⟩ := h
  interval_cases m
  · exact ⟨.kEigthOfRegister, rfl, rfl⟩
  · exact ⟨.kQuarterOfRegister, rfl, rfl⟩
  · exact ⟨.kHalfOfRegister, rfl, rfl⟩
  · exact ⟨.k1register, rfl, rfl⟩
  · exact ⟨.k2registers, rfl, rfl⟩
  · exact ⟨.k4registers, rfl, rfl⟩
  · exact ⟨.k8registers, rfl, rfl⟩

variable (insn : MemoryInsn) (t : VType) (args : MemoryArgs)

theorem selectRegistersInvolved_eq : selectRegistersInvolved args t.encode =
      if -3 ≤ t.emul args.width ∧ t.emul args.width ≤ 3 ∧
          args.segmentSize * registersFor (t.emul args.width) ≤ 8 then
        some (registersFor (t.emul args.width))
      else none := by
  unfold selectRegistersInvolved
  rw [t.vemul_encode]
  generalize t.emul args.width = m
  by_cases hrng : m < -3 ∨ 3 < m
  · rw [if_pos hrng, if_neg (by omega)]
  · rw [if_neg hrng]
    obtain ⟨vlmul, hvm, hregs⟩ := ofVlmul_ofInt (m := m) (by omega)
    rw [hvm, Option.bind_some, hregs]
    by_cases hsize : args.segmentSize * registersFor m ≤ 8
    · rw [if_neg (fun h => absurd h.2 (Nat.not_lt.2 hsize)), if_neg (Nat.not_lt.2 hsize),
        if_pos ⟨by omega, by omega, hsize⟩]
    · rw [if_neg fun h : _ ∧ _ ∧ _ => hsize h.2.2, if_pos (Nat.lt_of_not_le hsize), ite_self]

/-! ### Legal loads and stores -/

namespace MemoryInsn

def IsMask : MemoryInsn → Prop
  | loadUnitStride _ opcode => opcode = .kVlm
  | storeUnitStride _ opcode => opcode = .kVsm
  | _ => False

instance : DecidablePred IsMask := fun insn => by
  cases insn <;> unfold IsMask <;> infer_instance

def idx : MemoryInsn → Option (Fin 32)
  | loadIndexed _ idx => some idx
  | storeIndexed _ idx => some idx
  | _ => none

variable (insn : MemoryInsn) (t : VType) (s : State)

def dataType : ElementType :=
  if insn.IsMask then .e8
  else if insn.idx.isSome then t.vsew
  else insn.args.width

def dataEmul : Int :=
  if insn.IsMask then 0
  else if insn.idx.isSome then t.vlmul.exponent
  else t.emul insn.args.width

def dataRegisters : Nat := registersFor (insn.dataEmul t)

def evl : Nat := if insn.IsMask then (s.vl.toNat + 7) / 8 else s.vl.toNat

def offset (i : Nat) : BitVec 64 :=
  match insn with
  | loadIndexed args idx => (element args.width s.v idx i).setWidth 64
  | loadStride _ std => s.getRegOrZero std * BitVec.ofNat 64 i
  | loadUnitStride args opcode =>
    if opcode = .kVlm then BitVec.ofNat 64 i
    else BitVec.ofNat 64 (args.segmentSize * args.width.bytes * i)
  | storeIndexed args idx => (element args.width s.v idx i).setWidth 64
  | storeStride _ std => s.getRegOrZero std * BitVec.ofNat 64 i
  | storeUnitStride args opcode =>
    if opcode = .kVsm then BitVec.ofNat 64 i
    else BitVec.ofNat 64 (args.segmentSize * args.width.bytes * i)

def location (p : Nat × Nat) : BitVec 64 :=
  s.getRegOrZero insn.args.src + BitVec.ofNat 64 (p.2 * (insn.dataType t).bytes) +
    insn.offset s p.1

def dataElement (v : Nat → BitVec 128) (p : Nat × Nat) : BitVec (insn.dataType t).bits :=
  element (insn.dataType t) v (insn.args.group + p.2 * insn.dataRegisters t) p.1

/-- The elements that are moved, in this order: those that are active, and of each
    of them all fields. -/
def moved : List (Nat × Nat) :=
  ((List.range' s.vstart.toNat (insn.evl s - s.vstart.toNat)).filter fun i =>
    insn.args.vm || (s.v 0).getLsbD i).flatMap fun i => fields i insn.args.segmentSize

def isStore : Bool :=
  match insn with
  | storeIndexed _ _ => true
  | storeStride _ _ => true
  | storeUnitStride _ _ => true
  | _ => false

def vta : TailProcessing := if insn.IsMask then .kAgnostic else t.vta

def vma : Option InactiveProcessing := if insn.args.vm then none else some t.vma

def toLoad : MemoryInsn :=
  match insn with
  | storeIndexed args idx => loadIndexed args idx
  | storeStride args std => loadStride args std
  | storeUnitStride args .kVsm => loadUnitStride args .kVlm
  | storeUnitStride args _ => loadUnitStride args .kVleXX
  | insn => insn

end MemoryInsn

/-- The loads and stores that the manual does not reserve. -/
structure LegalAccess (insn : MemoryInsn) (t : VType) : Prop where
  opcode : match insn with
    | .loadUnitStride _ opcode => opcode ≠ .kVlXreXX ∧ opcode ≠ .reserved
    | .storeUnitStride _ opcode => opcode ≠ .kVsX ∧ opcode ≠ .reserved
    | _ => True
  /-- Masks are bytes, and neither masked nor segments. -/
  mask : insn.IsMask → insn.args.width = .e8 ∧ insn.args.vm = true ∧ insn.args.nf = 0
  /-- EMUL of the data or of the indices, whatever the width is of. -/
  emul : ¬ insn.IsMask → -3 ≤ t.emul insn.args.width ∧ t.emul insn.args.width ≤ 3
  size : insn.args.segmentSize * insn.dataRegisters t ≤ 8
  aligned : isAligned insn.args.group (insn.dataRegisters t) = true
  registers : insn.args.group + insn.dataRegisters t * insn.args.segmentSize ≤ 32
  index : ∀ idx, insn.idx = some idx →
    isAligned idx (registersFor (t.emul insn.args.width)) = true

def Accepted (insn : MemoryInsn) (t : VType) : Prop :=
  -3 ≤ t.emul insn.args.width ∧ insn.args.segmentSize * registersFor (t.emul insn.args.width) ≤ 8

instance (insn : MemoryInsn) (t : VType) : Decidable (Accepted insn t) :=
  inferInstanceAs (Decidable (_ ∧ _))

/-- The instructions that get to the loops of the drivers. -/
structure Handled (insn : MemoryInsn) (t : VType) : Prop where
  opcode : match insn with
    | .loadUnitStride _ opcode => opcode ≠ .kVlXreXX ∧ opcode ≠ .reserved
    | .storeUnitStride _ opcode => opcode ≠ .kVsX ∧ opcode ≠ .reserved
    | _ => True
  mask : insn.IsMask → insn.args.vm = true ∧ insn.args.nf = 0
  lower : -3 ≤ t.emul insn.args.width
  upper : t.emul insn.args.width ≤ 3
  size : insn.args.segmentSize * registersFor (t.emul insn.args.width) ≤ 8
  aligned : isAligned insn.args.group (insn.dataRegisters t) = true
  registers : insn.args.group + insn.dataRegisters t * insn.args.segmentSize ≤ 32
  index : ∀ idx, insn.idx = some idx →
    isAligned idx (registersFor (t.emul insn.args.width)) = true

theorem LegalAccess.emul_le {insn : MemoryInsn} {t : VType} (h : LegalAccess insn t) :
    t.emul insn.args.width ≤ 3 := by
  by_cases hmask : insn.IsMask
  · rw [(h.mask hmask).1]
    unfold VType.emul
    have hexp : t.vlmul.exponent ≤ 3 := by cases t.vlmul <;> decide
    have hcode : (ElementType.e8.code : Int) = 0 := rfl
    omega
  · exact (h.emul hmask).2

theorem LegalAccess.handled {insn : MemoryInsn} {t : VType} (h : LegalAccess insn t)
    (hacc : Accepted insn t) : Handled insn t where
  opcode := h.opcode
  mask hmask := (h.mask hmask).2
  lower := hacc.1
  upper := h.emul_le
  size := hacc.2
  aligned := h.aligned
  registers := h.registers
  index := h.index

def NoFaults (faults : BitVec 64 → Nat → Bool) (insn : MemoryInsn) (t : VType) (s : State) : Prop :=
  ∀ p ∈ insn.moved s, faults (insn.location t s p) (insn.dataType t).bytes = false

/-- What a load or store does. -/
structure MovesElements (insn : MemoryInsn) (t : VType) (s s' : State) : Prop where
  /-- The accesses are made in their order, and there is no exception. -/
  frame : s' =
    { s with
      v := s'.v
      mem := s'.mem
      vstart := 0
      accesses := ((insn.moved s).map fun p =>
        (insn.location t s p, (insn.dataType t).bytes)).reverse ++ s.accesses }
  /-- A store writes the elements. -/
  mem : s'.mem =
    if insn.isStore then
      (insn.moved s).foldl (fun mem p =>
        storeWord mem (insn.location t s p) (insn.dataElement t s.v p)) s.mem
    else s.mem
  /-- All other bytes stay. -/
  bytes : ∀ addr, (∀ p ∈ insn.moved s, ∀ i < (insn.dataType t).bytes,
    addr ≠ insn.location t s p + BitVec.ofNat 64 i) → s'.mem addr = s.mem addr
  /-- All other registers stay. -/
  others : ∀ r : Nat, insn.isStore ∨ s.vstart.toNat ≥ insn.evl s ∨ r < insn.args.group ∨
    insn.args.group + insn.dataRegisters t * insn.args.segmentSize ≤ r → s'.v r = s.v r
  /-- The elements that a load reads, the inactive ones and the tail. -/
  elements : insn.isStore = false → s.vstart.toNat < insn.evl s →
    ∀ field < insn.args.segmentSize,
    ∀ n < (insn.dataType t).elementsCount * insn.dataRegisters t,
    insn.dataElement t s'.v (n, field) =
      elementAfter (insn.vta t) (insn.vma t) (s.v 0) s.vstart.toNat (insn.evl s) n
        (insn.dataElement t s.v (n, field))
        (loadWord s.mem (insn.location t s (n, field)) (insn.dataType t).bits)
        (insn.dataElement t s.v (n, field))

/-- A load after a store leaves the stored elements as they are. -/
def LoadsBack (faults : BitVec 64 → Nat → Bool) (uninitialized : Nat → BitVec 128)
    (insn : MemoryInsn) (t : VType) (s s' : State) : Prop :=
  (insn.moved s).Pairwise
    (fun p p' => WordsApart (insn.dataType t).bits (insn.location t s p) (insn.location t s p')) →
  ∀ vstart, NoFaults faults insn.toLoad t { s' with vstart := vstart } →
    ∃ s'', opVectorMemory faults uninitialized insn.toLoad { s' with vstart := vstart } = some s'' ∧
      ∀ p ∈ insn.moved s, insn.dataElement t s''.v p = insn.dataElement t s.v p

/-! ### The dispatch -/

namespace MemoryInsn

variable (insn : MemoryInsn) (t : VType) (s : State)

/-- The operands of the driver. There is no offset that is not in the index registers. -/
def access : SegmentAccess where
  group := insn.args.group
  src := s.getRegOrZero insn.args.src
  elementType := insn.dataType t
  segmentSize := insn.args.segmentSize
  numRegistersInGroup := insn.dataRegisters t
  getElementOffset i :=
    match insn.idx with
    | none => some (insn.offset s i)
    | some idx =>
      let count := insn.args.width.elementsCount
      if i < count * registersFor (t.emul insn.args.width) then
        (getV s.v (idx + i / count)).map fun r =>
          (lane insn.args.width.bits r (i % count)).setWidth 64
      else none

def loadOpcode : VLUmOpOpcode :=
  match insn with
  | loadUnitStride _ opcode => opcode
  | _ => .kVleXX

def storeOpcode : VSUmOpOpcode :=
  match insn with
  | storeUnitStride _ opcode => opcode
  | _ => .kVseXX

def selected : Selected :=
  if insn.isStore then .store insn.storeOpcode (insn.vma t).isSome (insn.access t s)
  else .load insn.loadOpcode (insn.vta t) (insn.vma t) (insn.access t s)

end MemoryInsn

variable {insn : MemoryInsn} {t : VType} {s : State}

theorem selectIndexed_eq {args : MemoryArgs} {idx : Nat} {n : Nat} (hvt : s.vtype = t.encode)
    (halign : isAligned idx n = true) : selectIndexed args idx n s = some
      { group := args.group
        src := s.getRegOrZero args.src
        elementType := t.vsew
        segmentSize := args.segmentSize
        numRegistersInGroup := registersFor t.vlmul.exponent
        getElementOffset := fun index =>
          if index < args.width.elementsCount * n then
            (getV s.v (idx + index / args.width.elementsCount)).map fun r =>
              (lane args.width.bits r (index % args.width.elementsCount)).setWidth 64
          else none } := by
  unfold selectIndexed
  rw [hvt, t.ofVsew_encode, t.ofVlmul_encode, Option.bind_some, Option.bind_some, halign]
  simp only [numberOfRegistersInvolved_eq]
  rfl

/-! The access of a mask load or store is not a segment. -/

theorem selectMask_eq_load (hnf : args.nf = 0) :
    selectMask args s = (loadUnitStride args .kVlm).access t s := by
  have hsize : args.segmentSize = 1 := by rw [MemoryArgs.segmentSize, hnf]; rfl
  unfold selectMask access
  simp only [MemoryInsn.args, hsize]
  rfl

theorem selectMask_eq_store (hnf : args.nf = 0) :
    selectMask args s = (storeUnitStride args .kVsm).access t s := by
  have hsize : args.segmentSize = 1 := by rw [MemoryArgs.segmentSize, hnf]; rfl
  unfold selectMask access
  simp only [MemoryInsn.args, hsize]
  rfl

/-- The dispatch selects the driver with the operands of the manual, if the number
    of registers fits. -/
theorem select_eq (h : Handled insn t) (hvt : s.vtype = t.encode) :
    select insn s = some (insn.selected t s) := by
  unfold select
  rw [hvt, selectRegistersInvolved_eq, if_pos ⟨h.lower, h.upper, h.size⟩, Option.bind_some]
  rw [show vmaOf insn.args t.encode = insn.vma t from t.vmaOf_encode insn.args, t.vtaOf_encode]
  cases insn with
  | loadIndexed _ idx | storeIndexed _ idx =>
    dsimp only
    rw [selectIndexed_eq hvt (h.index idx rfl)]
    rfl
  | loadStride | storeStride => rfl
  | loadUnitStride args opcode =>
    cases opcode with
    | kVleXX | kVleXXff => rfl
    | kVlXreXX => exact absurd rfl h.opcode.1
    | kVlm =>
      obtain ⟨hvm, hnf⟩ := h.mask rfl
      have hvma : (loadUnitStride args .kVlm).vma t = none := if_pos hvm
      dsimp only
      rw [hvma, if_pos ⟨rfl, hnf⟩, selectMask_eq_load args hnf]
      unfold selected
      rw [hvma]
      rfl
    | reserved => exact absurd rfl h.opcode.2
  | storeUnitStride args opcode =>
    cases opcode with
    | kVseXX => rfl
    | kVsX => exact absurd rfl h.opcode.1
    | kVsm =>
      obtain ⟨hvm, hnf⟩ := h.mask rfl
      have hvma : (storeUnitStride args .kVsm).vma t = none := if_pos hvm
      dsimp only
      rw [hvma, if_pos ⟨rfl, hnf⟩, selectMask_eq_store args hnf]
      unfold selected
      rw [hvma]
      rfl
    | reserved => exact absurd rfl h.opcode.2

theorem select_eq_none (hvt : s.vtype = t.encode)
    (hnot : ¬ Accepted insn t) : select insn s = none := by
  unfold select
  rw [hvt, selectRegistersInvolved_eq, if_neg fun hcond : _ ∧ _ ∧ _ =>
    hnot ⟨hcond.1, hcond.2.2⟩, Option.bind_none]

theorem opVectorMemory_eq (h : match insn with
      | .loadUnitStride _ opcode => opcode ≠ .kVlXreXX ∧ opcode ≠ .reserved
      | .storeUnitStride _ opcode => opcode ≠ .kVsX ∧ opcode ≠ .reserved
      | _ => True) (hvt : s.vtype = t.encode)
    (faults : BitVec 64 → Nat → Bool) (uninitialized : Nat → BitVec 128) :
    opVectorMemory faults uninitialized insn s =
      match select insn s with
      | none => some s.undefined
      | some selected => selected.run faults uninitialized s := by
  have hmsb : s.vtype.msb = false := by rw [hvt, t.msb_encode]
  have hrun : (if s.vtype.msb then some s.undefined
      else match select insn s with
        | none => some s.undefined
        | some selected => selected.run faults uninitialized s) =
      match select insn s with
        | none => some s.undefined
        | some selected => selected.run faults uninitialized s := by
    rw [hmsb, if_neg nofun]
  rw [← hrun]
  cases insn with
  | loadUnitStride args opcode =>
    cases opcode with
    | kVlXreXX => exact absurd rfl h.1
    | _ => rfl
  | storeUnitStride args opcode =>
    cases opcode with
    | kVsX => exact absurd rfl h.1
    | _ => rfl
  | _ => rfl

theorem opVectorMemory_of_handled (h : Handled insn t) (hvt : s.vtype = t.encode)
    (faults : BitVec 64 → Nat → Bool) (uninitialized : Nat → BitVec 128) :
    opVectorMemory faults uninitialized insn s =
      (insn.selected t s).run faults uninitialized s := by
  rw [opVectorMemory_eq h.opcode hvt, select_eq h hvt]

/-! ### The operands are in range -/

theorem getVlmax_le_emul (t : VType) (width : ElementType) (hlow : -3 ≤ t.emul width) :
    getVlmax t.vsew t.vlmul ≤ width.elementsCount * registersFor (t.emul width) := by
  revert hlow
  unfold VType.emul
  cases t.vsew <;> cases t.vlmul <;> cases width <;> decide

theorem getVlmax_le_data (t : VType) :
    getVlmax t.vsew t.vlmul ≤ t.vsew.elementsCount * registersFor t.vlmul.exponent := by
  rw [Nat.mul_comm, ← numberOfRegistersInvolved_eq]
  exact getVlmax_le t.vsew t.vlmul

section

variable (h : Handled insn t)
include h

theorem dataEmul_le : insn.dataEmul t ≤ 3 := by
  unfold dataEmul
  split_ifs with hmask
  · decide
  · cases t.vlmul <;> decide
  · exact h.upper

section

variable (hvl : s.vl.toNat ≤ getVlmax t.vsew t.vlmul)
include hvl

theorem evl_le :
    insn.evl s ≤ (insn.dataType t).elementsCount * insn.dataRegisters t := by
  unfold evl dataType dataRegisters dataEmul
  split_ifs with hmask
  · have hmax : getVlmax t.vsew t.vlmul ≤ 128 := by cases t.vsew <;> cases t.vlmul <;> decide
    have hcount : ElementType.e8.elementsCount * registersFor 0 = 16 := rfl
    omega
  · exact hvl.trans (getVlmax_le_data t)
  · exact hvl.trans (getVlmax_le_emul t _ h.lower)

theorem getElementOffset_access {i : Nat}
    (hi : i < insn.evl s) : (insn.access t s).getElementOffset i = some (insn.offset s i) := by
  have hind : ∀ (args : MemoryArgs) (idx : Fin 32), insn.args = args → insn.idx = some idx →
      (if i < args.width.elementsCount * registersFor (t.emul args.width) then
        (getV s.v (idx + i / args.width.elementsCount)).map fun r =>
          (lane args.width.bits r (i % args.width.elementsCount)).setWidth 64
      else none) = some ((element args.width s.v idx i).setWidth 64) := by
    intro args idx hargs hidx
    subst hargs
    have hmask : ¬ insn.IsMask := by
      cases insn <;> first
        | exact id
        | cases hidx
    have hlt : i < insn.args.width.elementsCount * registersFor (t.emul insn.args.width) := by
      unfold evl at hi
      rw [if_neg hmask] at hi
      exact hi.trans_le (hvl.trans (getVlmax_le_emul t _ h.lower))
    have hle := add_le_of_isAligned (groupSize_registersFor h.upper) idx.isLt
      (h.index idx hidx)
    have hdiv := (Nat.div_lt_iff_lt_mul insn.args.width.elementsCount_pos).2
      (hlt.trans_eq (Nat.mul_comm ..))
    rw [if_pos hlt, getV_of_lt (by omega)]
    rfl
  cases insn with
  | loadIndexed args idx | storeIndexed args idx => exact hind args idx rfl rfl
  | _ => rfl

theorem inRange_access : (insn.access t s).InRange (insn.evl s) where
  aligned := h.aligned
  registers := h.registers
  size := (groupSize_registersFor (dataEmul_le h)).le
  elements := evl_le h hvl
  offsets i hi := by rw [getElementOffset_access h hvl hi, Option.isSome_some]

theorem address_access {p : Nat × Nat}
    (hp : p.1 < insn.evl s) : (insn.access t s).address p = insn.location t s p := by
  unfold SegmentAccess.address location
  rw [getElementOffset_access h hvl hp, Option.getD_some]
  rfl

end

end

theorem plan_access (insn : MemoryInsn) (t : VType) (s : State) :
    (insn.access t s).plan (fun i => !(insn.vma t).isSome || (s.v 0).getLsbD i) s.vstart.toNat
      (insn.evl s) = insn.moved s := by
  have hact : ∀ i, (!(insn.vma t).isSome || (s.v 0).getLsbD i) =
      (insn.args.vm || (s.v 0).getLsbD i) := by
    intro i
    unfold vma
    cases insn.args.vm <;> rfl
  simp only [hact]
  rfl

theorem mem_moved {p : Nat × Nat} : p ∈ insn.moved s ↔ s.vstart.toNat ≤ p.1 ∧ p.1 < insn.evl s ∧
      (insn.args.vm || (s.v 0).getLsbD p.1) = true ∧ p.2 < insn.args.segmentSize :=
  mem_plan (a := ⟨0, 0, .e8, insn.args.segmentSize, 0, fun _ => none⟩)

theorem moved_of_le (h : insn.evl s ≤ s.vstart.toNat) : insn.moved s = [] := by
  unfold moved
  rw [Nat.sub_eq_zero_of_le h, List.range'_zero, List.filter_nil, List.flatMap_nil]

variable {faults : BitVec 64 → Nat → Bool}

theorem find?_moved (h : Handled insn t) (hvl : s.vl.toNat ≤ getVlmax t.vsew t.vlmul)
    (hfaults : NoFaults faults insn t s) :
    (insn.moved s).find? ((insn.access t s).fails faults) = none := by
  refine List.find?_eq_none.2 fun p hp => ?_
  unfold SegmentAccess.fails
  rw [address_access h hvl (mem_moved.1 hp).2.1]
  exact Bool.eq_false_iff.1 (hfaults p hp)

/-! ### What the drivers move -/

theorem storeVl_eq (h : insn.isStore = true) (s : State) :
    storeVl insn.storeOpcode s = insn.evl s := by
  cases insn with
  | storeUnitStride args opcode => cases opcode <;> rfl
  | storeIndexed | storeStride => rfl
  | _ => cases h

theorem loadVl_eq (h : insn.isStore = false) (s : State) :
    loadVl insn.loadOpcode s = insn.evl s := by
  cases insn with
  | loadUnitStride args opcode => cases opcode <;> rfl
  | loadIndexed | loadStride => rfl
  | _ => cases h

theorem run_of_evl_le (h : Handled insn t) (hraised : s.exceptionRaised = false)
    (hemp : insn.evl s ≤ s.vstart.toNat) (faults : BitVec 64 → Nat → Bool)
    (uninitialized : Nat → BitVec 128) :
    (insn.selected t s).run faults uninitialized s = some { s with vstart := 0 } := by
  have halign : isAligned (insn.access t s).group (insn.access t s).numRegistersInGroup = true :=
    h.aligned
  have hregs := Nat.not_lt.2 h.registers
  unfold selected
  cases hstore : insn.isStore with
  | true =>
    rw [if_pos rfl]
    unfold Selected.run opVectorStore
    dsimp only
    rw [halign, Bool.not_true, if_neg nofun, storeVl_eq hstore, if_pos hemp,
      State.setVstart_zero hraised]
    exact if_neg hregs
  | false =>
    rw [if_neg nofun]
    unfold Selected.run opVectorLoad
    dsimp only
    rw [halign, Bool.not_true, if_neg nofun, loadVl_eq hstore, if_pos hemp,
      State.setVstart_zero hraised]
    exact if_neg hregs

theorem movesElements_of_evl_le (h : insn.evl s ≤ s.vstart.toNat) :
    MovesElements insn t s { s with vstart := 0 } where
  frame := by rw [moved_of_le h]; rfl
  mem := by rw [moved_of_le h]; split_ifs <;> rfl
  bytes _ _ := rfl
  others _ _ := rfl
  elements _ hlt := absurd hlt (Nat.not_lt.2 h)

section

variable (h : Handled insn t) (hvl : s.vl.toNat ≤ getVlmax t.vsew t.vlmul)
include h hvl

theorem log_moved : (insn.access t s).log (insn.moved s) = ((insn.moved s).map fun p =>
      (insn.location t s p, (insn.dataType t).bytes)).reverse := by
  unfold SegmentAccess.log
  congr 1
  refine List.map_congr_left fun p hp => ?_
  rw [address_access h hvl (mem_moved.1 hp).2.1]
  rfl

theorem foldl_moved : (insn.moved s).foldl (fun mem p => storeWord mem ((insn.access t s).address p)
        ((insn.access t s).value s.v p)) s.mem = (insn.moved s).foldl (fun mem p =>
        storeWord mem (insn.location t s p) (insn.dataElement t s.v p)) s.mem := by
  refine List.foldl_ext _ _ _ fun mem p hp => ?_
  rw [address_access h hvl (mem_moved.1 hp).2.1]
  rfl

end

theorem bits_eq_bytes (e : ElementType) : e.bits = 8 * e.bytes := by
  cases e <;> rfl

theorem run_of_store (hstore : insn.isStore = true) (uninitialized : Nat → BitVec 128) :
    (insn.selected t s).run faults uninitialized s =
      opVectorStore faults (insn.access t s) insn.storeOpcode (insn.vma t).isSome s := by
  unfold selected
  rw [hstore, if_pos rfl]
  rfl

section

variable (h : Handled insn t) (hvl : s.vl.toNat ≤ getVlmax t.vsew t.vlmul)
    (hraised : s.exceptionRaised = false)
include h hvl hraised

theorem run_load_outcome (hstore : insn.isStore = false) (hst : s.vstart.toNat < insn.evl s)
    (uninitialized : Nat → BitVec 128) :
    ∃ s', (insn.selected t s).run faults uninitialized s = some s' ∧
      LoadOutcome faults (insn.access t s) insn.loadOpcode (insn.vta t) (insn.vma t) s s' := by
  have hrng := inRange_access h hvl
  rw [← loadVl_eq hstore s] at hrng hst
  have hsel : (insn.selected t s).run faults uninitialized s =
      opVectorLoad faults (insn.access t s) insn.loadOpcode (insn.vta t) (insn.vma t)
        uninitialized s := by
    unfold selected
    rw [hstore, if_neg nofun]
    rfl
  rw [hsel]
  exact opVectorLoad_outcome hrng hraised hst uninitialized

variable (hfaults : NoFaults faults insn t s)
include hfaults

theorem run_store_moves (hstore : insn.isStore = true) (hst : s.vstart.toNat < insn.evl s)
    (uninitialized : Nat → BitVec 128) :
    ∃ s', (insn.selected t s).run faults uninitialized s = some s' ∧ MovesElements insn t s s' := by
  have hrng := inRange_access h hvl
  have hevl := storeVl_eq hstore s
  rw [← hevl] at hrng hst
  have hrun : opVectorStore faults (insn.access t s) insn.storeOpcode (insn.vma t).isSome s = _ :=
    opVectorStore_eq hrng hraised hst
  rw [hevl, plan_access, find?_moved h hvl hfaults] at hrun
  refine ⟨_, (run_of_store hstore uninitialized).trans hrun, ?_⟩
  have hnone := find?_moved h hvl hfaults
  have hmem := foldl_moved h hvl
  refine ⟨?_, ?_, fun addr haddr => ?_, fun _ _ => rfl, fun hload => ?_⟩
  · unfold storesAfter
    rw [attempted_of_none hnone, log_moved h hvl]
  · rw [hstore, if_pos rfl, ← hmem]
    unfold storesAfter
    rw [completed_of_none hnone]
  · unfold storesAfter
    rw [completed_of_none hnone]
    rw [hmem]
    refine foldl_storeWord_of_not_mem fun p hp i hi => haddr p hp i ?_
    have := bits_eq_bytes (insn.dataType t)
    omega
  · rw [hstore] at hload
    cases hload

theorem run_load_moves (hstore : insn.isStore = false) (hst : s.vstart.toNat < insn.evl s)
    (uninitialized : Nat → BitVec 128) :
    ∃ s', (insn.selected t s).run faults uninitialized s = some s' ∧ MovesElements insn t s s' := by
  obtain ⟨s', hrun, hstate, helem, hoth⟩ :=
    run_load_outcome h hvl hraised hstore hst uninitialized
  have hnone := find?_moved h hvl hfaults
  unfold loadPlan at hstate helem
  rw [loadVl_eq hstore, plan_access] at hstate helem
  unfold loadsAfter at hstate
  rw [hnone, attempted_of_none hnone, log_moved h hvl] at hstate
  have hmem : s'.mem = s.mem := by rw [hstate]
  refine ⟨s', hrun, ⟨?_, ?_, fun addr _ => ?_, fun r hr => ?_, ?_⟩⟩
  · rw [hmem]
    exact hstate
  · rw [hstore, if_neg nofun, hmem]
  · rw [hmem]
  · rcases hr with hr | hr | hr
    · rw [hstore] at hr
      cases hr
    · omega
    · exact hoth r hr
  · intro _ _ field hfield n hn
    have helt := helem field hfield n hn
    rw [vlAfter_of_none hnone] at helt
    unfold LoadedElement at helt
    unfold elementAfter
    by_cases hprest : n < s.vstart.toNat
    · rw [if_pos hprest] at helt ⊢
      exact helt
    · rw [if_neg hprest] at helt ⊢
      by_cases hbody : n < insn.evl s
      · rw [if_pos hbody] at helt ⊢
        rw [← address_access h hvl hbody]
        exact helt
      · rw [if_neg hbody] at helt ⊢
        generalize insn.vta t = vta at helt ⊢
        cases vta with
        | kAgnostic => exact helt
        | kUndisturbed => exact helt (Or.inl (Nat.le_of_not_lt hbody))

theorem run_moves (uninitialized : Nat → BitVec 128) :
    ∃ s', (insn.selected t s).run faults uninitialized s = some s' ∧ MovesElements insn t s s' := by
  by_cases hst : s.vstart.toNat < insn.evl s
  · cases hstore : insn.isStore with
    | true => exact run_store_moves h hvl hraised hfaults hstore hst uninitialized
    | false => exact run_load_moves h hvl hraised hfaults hstore hst uninitialized
  · exact ⟨_, run_of_evl_le h hraised (Nat.le_of_not_lt hst) faults uninitialized,
      movesElements_of_evl_le (Nat.le_of_not_lt hst)⟩

end

/-! ### Loads after stores -/

theorem toLoad_args : insn.toLoad.args = insn.args := by
  cases insn with
  | storeUnitStride args opcode => cases opcode <;> rfl
  | _ => rfl

theorem isStore_toLoad (insn : MemoryInsn) : insn.toLoad.isStore = false := by
  cases insn with
  | storeUnitStride args opcode => cases opcode <;> rfl
  | _ => rfl

theorem Handled.toLoad (h : Handled insn t) : Handled insn.toLoad t := by
  cases insn with
  | storeUnitStride args opcode =>
    cases opcode with
    | kVseXX =>
      exact ⟨⟨nofun, nofun⟩, nofun, h.lower, h.upper, h.size, h.aligned, h.registers, nofun⟩
    | kVsX => exact absurd rfl h.opcode.1
    | kVsm =>
      exact ⟨⟨nofun, nofun⟩, fun _ => h.mask rfl, h.lower, h.upper, h.size, h.aligned,
        h.registers, nofun⟩
    | reserved => exact absurd rfl h.opcode.2
  | storeIndexed args idx =>
    exact ⟨trivial, nofun, h.lower, h.upper, h.size, h.aligned, h.registers, h.index⟩
  | storeStride args std =>
    exact ⟨trivial, nofun, h.lower, h.upper, h.size, h.aligned, h.registers, nofun⟩
  | _ => exact h

theorem access_toLoad (h : Handled insn t) (s : State) :
    insn.toLoad.access t s = insn.access t s := by
  cases insn with
  | storeUnitStride args opcode =>
    cases opcode with
    | kVsX => exact absurd rfl h.opcode.1
    | reserved => exact absurd rfl h.opcode.2
    | _ => rfl
  | _ => rfl

theorem evl_toLoad (h : Handled insn t) (s : State) : insn.toLoad.evl s = insn.evl s := by
  cases insn with
  | storeUnitStride args opcode =>
    cases opcode with
    | kVsX => exact absurd rfl h.opcode.1
    | reserved => exact absurd rfl h.opcode.2
    | _ => rfl
  | _ => rfl

theorem access_of_moves {s' : State} (hmov : MovesElements insn t s s')
    (hstore : insn.isStore = true)
    (vstart : BitVec 8) : insn.access t { s' with vstart := vstart } = insn.access t s := by
  have hv : s'.v = s.v := funext fun r => hmov.others r (Or.inl hstore)
  have hx : s'.x = s.x := by rw [hmov.frame]
  cases insn <;> simp only [access, offset, State.getRegOrZero, hv, hx]

theorem loadsBack_of_moves (h : Handled insn t) (hvt : s.vtype = t.encode)
    (hvl : s.vl.toNat ≤ getVlmax t.vsew t.vlmul) (hraised : s.exceptionRaised = false)
    (uninitialized : Nat → BitVec 128) {s' : State} (hmov : MovesElements insn t s s')
    (hstore : insn.isStore = true) : LoadsBack faults uninitialized insn t s s' := by
  intro hapart vstart hfaults
  have hv : s'.v = s.v := funext fun r => hmov.others r (Or.inl hstore)
  have h' := h.toLoad
  have hvt' : s'.vtype = t.encode := by rw [hmov.frame, hvt]
  have hvl' : s'.vl.toNat ≤ getVlmax t.vsew t.vlmul := by rwa [hmov.frame]
  have hrais' : s'.exceptionRaised = false := by rw [hmov.frame, hraised]
  have hrun := opVectorMemory_of_handled (s := { s' with vstart := vstart }) h' hvt' faults
    uninitialized
  by_cases hst : vstart.toNat < insn.toLoad.evl { s' with vstart := vstart }
  · -- The load goes through its elements, with the operands of the store.
    have hrng := inRange_access (s := { s' with vstart := vstart }) h' hvl'
    have hnone := find?_moved (s := { s' with vstart := vstart }) h' hvl' hfaults
    have hevl := loadVl_eq (isStore_toLoad insn) { s' with vstart := vstart }
    have hacc := (access_toLoad h { s' with vstart := vstart }).trans
      (access_of_moves hmov hstore vstart)
    rw [← hevl] at hrng hst
    obtain ⟨s'', hload, houtc⟩ :
        ∃ s'', opVectorLoad faults (insn.toLoad.access t { s' with vstart := vstart })
          insn.toLoad.loadOpcode (insn.toLoad.vta t) (insn.toLoad.vma t) uninitialized
          { s' with vstart := vstart } = some s'' ∧
          LoadOutcome faults (insn.toLoad.access t { s' with vstart := vstart })
            insn.toLoad.loadOpcode (insn.toLoad.vta t) (insn.toLoad.vma t)
            { s' with vstart := vstart } s'' :=
      opVectorLoad_outcome hrng hrais' hst uninitialized
    refine ⟨s'', ?_, fun p hp => ?_⟩
    · rw [hrun]
      unfold selected
      rw [isStore_toLoad, if_neg nofun]
      exact hload
    · have hplan := plan_access insn.toLoad t { s' with vstart := vstart }
      have helem := houtc.elements
      unfold loadPlan at helem
      rw [hevl, hplan, vlAfter_of_none hnone, hacc] at helem
      obtain ⟨-, hend, hact, hfield⟩ := mem_moved.1 hp
      have hn := Nat.lt_of_lt_of_le hend (evl_le h hvl)
      have helt := helem p.2 hfield p.1 hn
      have hevl' : insn.toLoad.evl { s' with vstart := vstart } = insn.evl s := by
        rw [evl_toLoad h]
        unfold evl
        rw [hmov.frame]
      have hold : insn.dataElement t s'.v p = insn.dataElement t s.v p := by rw [hv]
      unfold LoadedElement at helt
      split at helt
      · exact helt.trans hold
      · rw [hevl', if_pos hend] at helt
        have hloaded : (insn.access t s).loaded s'.mem (p.1, p.2) = insn.dataElement t s.v p := by
          unfold SegmentAccess.loaded
          rw [address_access h hvl hend, hmov.mem, hstore, if_pos rfl]
          refine loadWord_foldl_storeWord ?_ hapart hp
          have hbits : (insn.dataType t).bits ≤ 64 := by cases insn.dataType t <;> decide
          exact hbits.trans (by decide)
        refine helt.trans ?_
        unfold bodyElement vma
        rw [toLoad_args, hloaded]
        cases hvm : insn.args.vm with
        | true => rfl
        | false =>
          rw [hvm, Bool.false_or] at hact
          have hact' : (s'.v 0).getLsbD p.1 = true := by rwa [hv]
          cases t.vma <;> exact if_pos hact'
  · have hemp := run_of_evl_le (s := { s' with vstart := vstart }) h' hrais'
      (Nat.le_of_not_lt hst) faults uninitialized
    refine ⟨_, hrun.trans hemp, fun p _ => ?_⟩
    rw [hv]

/-- Exactly the accepted instructions do what the manual says: they move their
    elements, and a load with the operands of a store loads what was stored. -/
theorem opVectorMemory_moves_iff (hlegal : LegalAccess insn t) (hvtype : s.vtype = t.encode)
    (hvl : s.vl.toNat ≤ getVlmax t.vsew t.vlmul) (hraised : s.exceptionRaised = false)
    {faults : BitVec 64 → Nat → Bool} (hfaults : NoFaults faults insn t s)
    (uninitialized : Nat → BitVec 128) :
    (∃ s', opVectorMemory faults uninitialized insn s = some s' ∧ MovesElements insn t s s' ∧
      (insn.isStore = true → LoadsBack faults uninitialized insn t s s')) ↔ Accepted insn t := by
  rw [opVectorMemory_eq hlegal.opcode hvtype]
  constructor
  · rintro ⟨s', hrun, hmoves, -⟩
    by_contra hnot
    rw [select_eq_none hvtype hnot] at hrun
    rw [Option.some.injEq] at hrun
    -- An illegal instruction raises an exception.
    have hflag : s'.exceptionRaised = false := by rw [hmoves.frame, hraised]
    rw [← hrun] at hflag
    cases hflag
  · intro haccepted
    have h := hlegal.handled haccepted
    rw [select_eq h hvtype]
    obtain ⟨s', hrun, hmoves⟩ := run_moves h hvl hraised hfaults uninitialized
    exact ⟨s', hrun, hmoves, loadsBack_of_moves h hvtype hvl hraised uninitialized hmoves⟩

def byteRegisters : VType := ⟨.e8, .k1register, .kUndisturbed, .kUndisturbed, by decide⟩

def byteState : State where
  x _ := 0x1000
  f _ := 0
  v _ := 0
  frm := 0
  vstart := 0
  vcsr := 0
  vl := 2
  vtype := byteRegisters.encode
  insnAddr := 0
  mem _ := 0
  accesses := []
  exceptionRaised := false

local instance neZeroVector : NeZero 32 := ⟨by omega⟩

local instance neZeroNf : NeZero 8 := ⟨by omega⟩

def byteArgs : MemoryArgs := { width := .e8, vm := true, nf := 0, group := 8, src := 1 }

/-- A load of segments of two bytes with 64-bit indices in eight registers. -/
def indexedSegmentLoad : MemoryInsn :=
  .loadIndexed { byteArgs with width := .e64, nf := 1 } 16

/-- It is legal, but takes an exception. -/
theorem opVectorMemory_moves_iff_indexedSegmentLoad :
    LegalAccess indexedSegmentLoad byteRegisters ∧ byteState.vtype = byteRegisters.encode ∧
      byteState.vl.toNat ≤ getVlmax byteRegisters.vsew byteRegisters.vlmul ∧
      byteState.exceptionRaised = false ∧
      NoFaults (fun _ _ => false) indexedSegmentLoad byteRegisters byteState ∧
      opVectorMemory (fun _ _ => false) (fun _ => 0) indexedSegmentLoad byteState =
        some { byteState with exceptionRaised := true } := by
  refine ⟨⟨trivial, nofun, fun _ => by decide, by decide, by decide, by decide, fun idx hidx => ?_⟩,
    rfl, by decide, rfl, fun _ _ => rfl, rfl⟩
  cases hidx
  decide

def stridedSegmentStore : MemoryInsn :=
  .storeStride { width := .e8, vm := true, nf := 1, group := 8, src := 1 } 2

theorem opVectorMemory_moves_iff_stridedSegmentStore : Accepted stridedSegmentStore byteRegisters ∧
      ∃ s', opVectorMemory (fun _ _ => false) (fun _ => 0) stridedSegmentStore byteState =
          some s' ∧ MovesElements stridedSegmentStore byteRegisters byteState s' ∧
        (stridedSegmentStore.isStore = true → LoadsBack (fun _ _ => false) (fun _ => 0)
          stridedSegmentStore byteRegisters byteState s') := by
  have haccepted : Accepted stridedSegmentStore byteRegisters := by decide
  have hlegal : LegalAccess stridedSegmentStore byteRegisters :=
    ⟨trivial, nofun, fun _ => by decide, by decide, by decide, by decide, nofun⟩
  exact ⟨haccepted, (opVectorMemory_moves_iff hlegal rfl (by decide) rfl (fun _ _ => rfl) _).2
    haccepted⟩

end Berberis.Riscv64.Vector
