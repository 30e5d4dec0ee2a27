import Berberis.Backend.InsnFoldingCorrectness

/-!
# Folding of Constants

An instruction whose inputs are constants is followed by a move of its result, and one
whose second input is a constant gets an immediate. The folded result is computed from
the constants of 64 bits also for operands of 32 bits. That is right for all operations but
the shift to the right, which brings down bits that the operand does not have.

## Theorems

* `constantFolding_exact_iff`: When folding constants makes no difference.
* `constantFolding_shrl`: A shift of a constant that has more than 32 bits.
-/

namespace Berberis.Backend.InsnFolding

/-- The instructions with two register operands that have a form with an immediate. The
    first operand of `store` is the base of an address. -/
inductive FoldedOp where
  | and | or | xor | add | sub | shl | shr | cmp | test | mov | store
  deriving DecidableEq

def FoldedOp.isComputed : FoldedOp → Bool
  | .and | .or | .xor | .add | .sub | .shl | .shr => true
  | .cmp | .test | .mov | .store => false

inductive MovInsn where
  | movlRegImm (imm : BitVec 32)
  | movqRegImm (imm : BitVec 64)
  deriving DecidableEq

/-- The destination after the move, which clears the upper half if it has 32 bits. -/
def MovInsn.value : MovInsn → BitVec 64
  | .movlRegImm imm => imm.setWidth 64
  | .movqRegImm imm => imm

/-- What becomes of an instruction. -/
inductive Folding where
  | impossible
  | insertInsn (mov : MovInsn)
  | replaceMov (mov : MovInsn)
  /-- The same operation with an immediate, whose sign is extended. -/
  | replaceImm (imm32 : BitVec 32)
  deriving DecidableEq

def newMovInsn (size : OperandSize) (imm : BitVec 64) : MovInsn :=
  match size with
  | .l => .movlRegImm (imm.setWidth 32)
  | .q => .movqRegImm imm

/-- `none` if the opcode is not expected. -/
def newInsnFromTwoImmediatesOperation (op : FoldedOp) (size : OperandSize) (imm1 imm2 : BitVec 64) :
    Option MovInsn :=
  match op with
  | .shl => some (newMovInsn size (imm1 <<< (imm2.toNat % size.bits)))
  | .shr => some (newMovInsn size (imm1 >>> (imm2.toNat % size.bits)))
  | .and => some (newMovInsn size (imm1 &&& imm2))
  | .or => some (newMovInsn size (imm1 ||| imm2))
  | .xor => some (newMovInsn size (imm1 ^^^ imm2))
  | .add => some (newMovInsn size (imm1 + imm2))
  | .sub => some (newMovInsn size (imm1 - imm2))
  | .cmp | .test | .mov | .store => none

def newImmInsnFromRegInsn (op : FoldedOp) (size : OperandSize) (imm32 : BitVec 32) :
    Option Folding :=
  match op, size with
  | .mov, .l => some (.replaceMov (.movlRegImm imm32))
  | .mov, .q => none
  | _, _ => some (.replaceImm imm32)

def foldSecondConstant (op : FoldedOp) (size : OperandSize) (imm1 : BitVec 64) : Option Folding :=
  if op = .mov ∧ size = .q then some (.replaceMov (.movqRegImm imm1))
  else
    let imm32 := imm1.setWidth 32
    match size with
    | .l => newImmInsnFromRegInsn op size imm32
    | .q =>
      if imm32.signExtend 64 = imm1 then newImmInsnFromRegInsn op size imm32 else some .impossible

/-- `TryFoldImmediateInput`, with what is known of the two registers. -/
def tryFoldConstants (op : FoldedOp) (size : OperandSize) (imm0 imm1 : Option (BitVec 64)) :
    Option Folding :=
  match imm1 with
  | none => some .impossible
  | some imm1 =>
    match op.isComputed, imm0 with
    | true, some imm0 => (newInsnFromTwoImmediatesOperation op size imm0 imm1).map .insertInsn
    | _, _ => foldSecondConstant op size imm1

def tryFoldTwoImmediates (op : FoldedOp) (size : OperandSize) (imm1 : Option (BitVec 64))
    (imm2 : BitVec 32) : Option Folding :=
  match imm1 with
  | none => some .impossible
  | some imm1 =>
    (newInsnFromTwoImmediatesOperation op size imm1 (imm2.signExtend 64)).map .insertInsn

/-! ### What the processor does -/

/-- What an instruction writes to its destination or to memory, and the flags afterwards. -/
structure Effect where
  reg : Option (BitVec 64)
  mem : Option (BitVec 64)
  flags : Flags
  deriving DecidableEq

section

variable {w : Nat}

def FoldedOp.result (a b : BitVec w) : FoldedOp → BitVec w
  | .and => a &&& b
  | .or => a ||| b
  | .xor => a ^^^ b
  | .add => a + b
  | .sub => a - b
  | .shl => a <<< (b.toNat % w)
  | .shr => a >>> (b.toNat % w)
  | .cmp | .test => a
  | .mov | .store => b

/-- A shift by zero leaves the flags, and OF is undefined after one by more than one. -/
def shiftFlags (r : BitVec w) (count : Nat) (out overflow : Bool) (old : Flags) : Flags :=
  if count = 0 then old
  else ⟨some out, some (evenParity r), none, some (r == 0#w), some r.msb,
    if count = 1 then some overflow else none⟩

def FoldedOp.newFlags (a b : BitVec w) (old : Flags) : FoldedOp → Flags
  | .add => addFlags a b
  | .sub | .cmp => subFlags a b
  | .and | .test => logicFlags (a &&& b)
  | .or => logicFlags (a ||| b)
  | .xor => logicFlags (a ^^^ b)
  | .shl =>
    let count := b.toNat % w
    let out := a.getLsbD (w - count)
    shiftFlags (a <<< count) count out ((a <<< count).msb != out) old
  | .shr =>
    let count := b.toNat % w
    shiftFlags (a >>> count) count (a.getLsbD (count - 1)) a.msb old
  | .mov | .store => old

end

/-- An instruction whose operands are the lower parts of two values. -/
def FoldedOp.effect (op : FoldedOp) (size : OperandSize) (x y : BitVec 64) (old : Flags) : Effect :=
  let a := x.setWidth size.bits
  let b := y.setWidth size.bits
  let r := (op.result a b).setWidth 64
  { reg := if op.isComputed || op == .mov then some r else none
    mem := if op == .store then some r else none
    flags := op.newFlags a b old }

/-- The effect after folding. What is inserted comes after the instruction. -/
def Folding.effect (op : FoldedOp) (size : OperandSize) (x y : BitVec 64) (old : Flags) :
    Folding → Effect
  | .impossible => op.effect size x y old
  | .insertInsn mov => { op.effect size x y old with reg := some mov.value }
  | .replaceMov mov => ⟨some mov.value, none, old⟩
  | .replaceImm imm32 => op.effect size x (imm32.signExtend 64) old

/-- A shift to the right of 32 bits brings down only zeros from the upper half. -/
def ShiftsZeros (op : FoldedOp) (size : OperandSize) (imm1 imm2 : BitVec 64) : Prop :=
  op = .shr → size = .l → ∀ i < imm2.toNat % 32, imm1.getLsbD (32 + i) = false

/-! ### Folding two constants -/

variable (op : FoldedOp) (size : OperandSize) (x y : BitVec 64)

theorem toNat_setWidth_mod : (y.setWidth 32).toNat % 32 = y.toNat % 32 := by
  exact Nat.mod_mod_of_dvd _ ⟨2 ^ 27, rfl⟩

theorem setWidth_sub : (x - y).setWidth 32 = x.setWidth 32 - y.setWidth 32 := by
  refine BitVec.eq_of_toNat_eq ?_
  simp only [BitVec.toNat_setWidth, BitVec.toNat_sub]
  omega

theorem setWidth_shiftLeft (n : Nat) : (x <<< n).setWidth 32 = x.setWidth 32 <<< n := by
  refine BitVec.eq_of_getLsbD_eq fun i hi => ?_
  simp [hi]

theorem setWidth_ushiftRight_iff (n : Nat) (hn : n < 32) :
    (x >>> n).setWidth 32 = x.setWidth 32 >>> n ↔ ∀ i < n, x.getLsbD (32 + i) = false := by
  constructor
  · intro h i hi
    have hbit := congrArg (fun v => v.getLsbD (32 - n + i)) h
    simpa [show 32 - n + i < 32 by omega, show n + (32 - n + i) = 32 + i by omega] using hbit
  · intro h
    refine BitVec.eq_of_getLsbD_eq fun i hi => ?_
    by_cases hlow : n + i < 32
    · simp [hi, hlow]
    · have hbit := h (n + i - 32) (by omega)
      rw [show 32 + (n + i - 32) = n + i by omega] at hbit
      simp [hlow, hbit]

theorem setWidth_inj {x y : BitVec 32} : x.setWidth 64 = y.setWidth 64 ↔ x = y := by
  refine ⟨fun h => ?_, fun h => by rw [h]⟩
  have hlow := congrArg (BitVec.setWidth 32) h
  simpa using hlow

theorem twoImmediates_iff (hop : op.isComputed = true) :
    ∃ mov, newInsnFromTwoImmediatesOperation op size x y = some mov ∧
      (mov.value = (op.result (x.setWidth size.bits) (y.setWidth size.bits)).setWidth 64 ↔
        ShiftsZeros op size x y) := by
  cases size with
  | q =>
    -- Nothing is cut off.
    have hzer : ShiftsZeros op .q x y := fun _ h => nomatch h
    cases op <;> first | exact ⟨_, rfl, iff_of_true rfl hzer⟩ | cases hop
  | l =>
    have hsame : ∀ {r v : BitVec 32}, op ≠ .shr → r = v →
        (r.setWidth 64 = v.setWidth 64 ↔ ShiftsZeros op .l x y) := fun hne heq =>
      iff_of_true (setWidth_inj.mpr heq) fun h => absurd h hne
    cases op with
    | and => exact ⟨_, rfl, hsame (by decide) BitVec.setWidth_and⟩
    | or => exact ⟨_, rfl, hsame (by decide) BitVec.setWidth_or⟩
    | xor => exact ⟨_, rfl, hsame (by decide) BitVec.setWidth_xor⟩
    | add => exact ⟨_, rfl, hsame (by decide) (BitVec.setWidth_add _ _ (by omega))⟩
    | sub => exact ⟨_, rfl, hsame (by decide) (setWidth_sub x y)⟩
    | shl =>
      refine ⟨_, rfl, hsame (by decide) ?_⟩
      show (x <<< (y.toNat % 32)).setWidth 32 = x.setWidth 32 <<< ((y.setWidth 32).toNat % 32)
      rw [toNat_setWidth_mod, setWidth_shiftLeft]
    | shr =>
      refine ⟨_, rfl, setWidth_inj.trans ?_⟩
      have hiff := setWidth_ushiftRight_iff x (y.toNat % 32) (Nat.mod_lt _ (by omega))
      show (x >>> (y.toNat % 32)).setWidth 32 = x.setWidth 32 >>> ((y.setWidth 32).toNat % 32) ↔ _
      rw [toNat_setWidth_mod, hiff]
      exact ⟨fun h _ _ => h, fun h => h rfl rfl⟩
    | cmp | test | mov | store => cases hop

theorem insertInsn_iff (hop : op.isComputed = true) :
    ∃ folding, (newInsnFromTwoImmediatesOperation op size x y).map Folding.insertInsn =
      some folding ∧
      ((∀ old, folding.effect op size x y old = op.effect size x y old) ↔
        ShiftsZeros op size x y) := by
  rcases twoImmediates_iff op size x y hop with ⟨mov, hmov, hiff⟩
  refine ⟨.insertInsn mov, by rw [hmov]; rfl, Iff.trans ?_ hiff⟩
  have hreg : ∀ old, (op.effect size x y old).reg =
      some ((op.result (x.setWidth size.bits) (y.setWidth size.bits)).setWidth 64) := fun old => by
    simp [FoldedOp.effect, hop]
  constructor
  · intro h
    have hold := congrArg Effect.reg (h ⟨none, none, none, none, none, none⟩)
    rw [hreg] at hold
    exact Option.some.inj hold
  · intro h old
    show { op.effect size x y old with reg := some mov.value } = op.effect size x y old
    rw [h, ← hreg old]

/-! ### Immediates -/

theorem effect_congr {y' : BitVec 64} (h : y.setWidth size.bits = y'.setWidth size.bits)
    (old : Flags) : op.effect size x y old = op.effect size x y' old := by
  unfold FoldedOp.effect
  rw [h]

theorem setWidth_signExtend : ((y.setWidth 32).signExtend 64).setWidth 32 = y.setWidth 32 := by
  refine BitVec.eq_of_getLsbD_eq fun i hi => ?_
  rw [BitVec.getLsbD_setWidth, BitVec.getLsbD_signExtend, if_pos hi, decide_eq_true hi,
    decide_eq_true (Nat.lt_trans hi (by omega)), Bool.true_and, Bool.true_and]

theorem newImmInsn_effect (hmov : ¬(op = .mov ∧ size = .q))
    (h : ((y.setWidth 32).signExtend 64).setWidth size.bits = y.setWidth size.bits) :
    ∃ folding, newImmInsnFromRegInsn op size (y.setWidth 32) = some folding ∧
      ∀ old, folding.effect op size x y old = op.effect size x y old := by
  by_cases hop : op = .mov
  · subst hop
    cases size with
    | l => exact ⟨_, rfl, fun old => rfl⟩
    | q => exact absurd ⟨rfl, rfl⟩ hmov
  · refine ⟨.replaceImm (y.setWidth 32), ?_, effect_congr op size x _ h⟩
    cases op <;> first | rfl | exact absurd rfl hop

theorem foldSecondConstant_effect :
    ∃ folding, foldSecondConstant op size y = some folding ∧
      ∀ old, folding.effect op size x y old = op.effect size x y old := by
  unfold foldSecondConstant
  split
  · next hmov =>
    rw [hmov.1, hmov.2]
    refine ⟨_, rfl, fun old => ?_⟩
    simp [Folding.effect, FoldedOp.effect, MovInsn.value, FoldedOp.result, FoldedOp.isComputed,
      FoldedOp.newFlags, OperandSize.bits]
  · next hmov =>
    cases size with
    | l => exact newImmInsn_effect op .l x y hmov (setWidth_signExtend y)
    | q =>
      dsimp only
      split
      · next hext => exact newImmInsn_effect op .q x y hmov (by rw [hext])
      · exact ⟨_, rfl, fun _ => rfl⟩

theorem tryFoldConstants_iff {x y} {imm0 imm1 : Option (BitVec 64)}
    (h0 : ∀ v, imm0 = some v → x = v) (h1 : ∀ v, imm1 = some v → y = v) :
    ∃ folding, tryFoldConstants op size imm0 imm1 = some folding ∧
      ((∀ old, folding.effect op size x y old = op.effect size x y old) ↔
        (imm0.isSome → imm1.isSome → ShiftsZeros op size x y)) := by
  cases imm1 with
  | none => exact ⟨_, rfl, iff_of_true (fun _ => rfl) (fun _ h => nomatch h)⟩
  | some v =>
    obtain rfl := h1 v rfl
    rcases foldSecondConstant_effect op size x y with ⟨folding, hfold, hsame⟩
    unfold tryFoldConstants
    cases imm0 with
    | none => exact ⟨folding, by simpa using hfold, iff_of_true hsame (fun h => nomatch h)⟩
    | some u =>
      obtain rfl := h0 u rfl
      cases hop : op.isComputed with
      | true => simpa using insertInsn_iff op size x y hop
      | false =>
        refine ⟨folding, hfold, iff_of_true hsame fun _ _ hshr => ?_⟩
        rw [hshr] at hop
        cases hop

/-! ### Along a block -/

section

variable {W : Type} {layout : ContextLayout} {others : OtherInsns W} {m m' : DefMap} {s : State W}

theorem sound_run {insns : List Insn} (hs : m.Sound layout others s)
    (hm : insns.foldlM (DefMap.processInsn layout) m = some m') :
    m'.Sound layout others (run layout others insns s) := by
  induction insns generalizing m s with
  | nil =>
    obtain rfl := Option.some.inj hm
    exact hs
  | cons insn rest ih =>
    rcases Option.bind_eq_some_iff.mp hm with ⟨m₁, hstep, hrest⟩
    exact ih (sound_step hs hstep) hrest

/-- After any instructions of a block, an instruction with constant inputs is folded. That
    makes no difference to its destination, to memory and to the flags, unless a shift to the
    right of 32 bits brings down ones from the upper half of a constant. -/
theorem constantFolding_exact_iff (others : OtherInsns W) (done : List Insn)
    (hm : done.foldlM (DefMap.processInsn layout) DefMap.initial = some m) (s₀ : State W)
    (op : FoldedOp) (size : OperandSize) (r0 r1 : MachineReg) (imm : BitVec 32) :
    let value := fun r => ((run layout others done s₀).regs r).bits.setWidth 64
    let imm0 := getImmValueIfPossible m r0
    let imm1 := getImmValueIfPossible m r1
    (∃ folding, tryFoldConstants op size imm0 imm1 = some folding ∧
      ((∀ old, folding.effect op size (value r0) (value r1) old =
          op.effect size (value r0) (value r1) old) ↔
        (imm0.isSome → imm1.isSome → ShiftsZeros op size (value r0) (value r1)))) ∧
    (op.isComputed = true → ∃ folding, tryFoldTwoImmediates op size imm0 imm = some folding ∧
      ((∀ old, folding.effect op size (value r0) (imm.signExtend 64) old =
          op.effect size (value r0) (imm.signExtend 64) old) ↔
        (imm0.isSome → ShiftsZeros op size (value r0) (imm.signExtend 64)))) := by
  intro value imm0 imm1
  have hs : m.Sound layout others (run layout others done s₀) := sound_run (sound_initial s₀) hm
  have himm : ∀ r v, getImmValueIfPossible m r = some v → value r = v :=
    fun r v => getImmValueIfPossible_sound hs
  refine ⟨tryFoldConstants_iff op size (himm r0) (himm r1), fun hop => ?_⟩
  cases h0 : imm0 with
  | none => exact ⟨_, rfl, iff_of_true (fun _ => rfl) (fun h => nomatch h)⟩
  | some u =>
    rw [himm r0 u h0]
    rcases insertInsn_iff op size u (imm.signExtend 64) hop with ⟨folding, hfolding, hiff⟩
    exact ⟨folding, hfolding, hiff.trans (by simp)⟩

end

/-! ### Instances -/

def otherReg : MachineReg := .createVRegFromIndex 3

def constants (imm0 : Nat) (imm1 : BitVec 32) : List Insn :=
  [.machine ⟨.movqRegImm imm0, [(⟨8, .def_⟩, sampleReg)], none, rfl⟩ none,
    .movlRegImm otherReg imm1]

def constantsAfter (imm0 : Nat) (imm1 : BitVec 32) (s₀ : State Unit) (r : MachineReg) : BitVec 64 :=
  ((run sampleLayout OtherInsns.inert (constants imm0 imm1) s₀).regs r).bits.setWidth 64

/-- The folded shift has bit 32 of the constant, which is not in the register's lower half. -/
theorem constantFolding_shrl :
    ∃ m, (constants (2 ^ 32) 1).foldlM (DefMap.processInsn sampleLayout) .initial = some m ∧
      let x := constantsAfter (2 ^ 32) 1 State.zero sampleReg
      let y := constantsAfter (2 ^ 32) 1 State.zero otherReg
      ∃ folding, tryFoldConstants .shr .l (getImmValueIfPossible m sampleReg)
          (getImmValueIfPossible m otherReg) = some folding ∧ ∀ old,
        (folding.effect .shr .l x y old).reg = some 0x80000000 ∧
          (FoldedOp.effect .shr .l x y old).reg = some 0 := by
  refine ⟨_, rfl, .insertInsn (.movlRegImm 0x80000000), by decide +kernel, fun old => ⟨rfl, ?_⟩⟩
  show some _ = some _
  decide +kernel

/-- A sum of two constants is folded, whatever the registers were before. -/
theorem constantFolding_add :
    ∃ m, (constants 5 7).foldlM (DefMap.processInsn sampleLayout) .initial = some m ∧
      ∀ s₀, ∃ folding, tryFoldConstants .add .l (getImmValueIfPossible m sampleReg)
          (getImmValueIfPossible m otherReg) = some folding ∧
        let x := constantsAfter 5 7 s₀ sampleReg
        let y := constantsAfter 5 7 s₀ otherReg
        ∀ old, folding.effect .add .l x y old = FoldedOp.effect .add .l x y old := by
  refine ⟨_, rfl, fun s₀ => ?_⟩
  rcases (constantFolding_exact_iff OtherInsns.inert (constants 5 7) rfl s₀ .add .l sampleReg
    otherReg 0).1 with ⟨folding, hfolding, hiff⟩
  exact ⟨folding, hfolding, hiff.mpr fun _ _ hshr => nomatch hshr⟩

end Berberis.Backend.InsnFolding
