import Berberis.Backend.InsnFoldingCorrectness

/-!
# Removal of Writes of the Same Flags

`PseudoReadFlags` saves the flags in a register, and `PseudoWriteFlags` restores
them. The folding of instructions removes a restore when the flags were not
defined since the save whose register, or a copy of it, is restored.

## Theorems

* `defMap_reaching`: The definition that is found for a register is the one that
  wrote its value.
* `removeWriteFlags_unseen`: Where OF was saved or is clear, what follows sees the
  same flags, as long as it does not read the register that was restored again.
* `removeWriteFlags_seen`: Removals that can be seen, of a restore without OF and of
  a register that is restored twice.
-/

namespace Berberis.Backend.InsnFolding

open List Function Option DefMap Insn

/-! ### The two instructions -/

/-- An instruction object of this class has the register for the flags and the
    flags as operands. The result is whether it saves OF. -/
def Insn.readFlags? : Insn → Option Bool
  | .machine insn flags =>
    if insn.operands.map (·.1.access) = [.def_, .use] ∧ flags = some (insn.regAt 1) then
      match insn.opcode with
      | .other 0 => some false
      | .other 1 => some true
      | _ => none
    else none
  | _ => none

def Insn.isPseudoWriteFlags : Insn → Bool
  | .machine insn flags =>
    insn.opcode = .other 2 ∧ insn.operands.map (·.1.access) = [.useDef, .def_] ∧
      flags = some (insn.regAt 1)
  | _ => false

def pseudoReadFlags (withOverflow : Bool) (dst flags : MachineReg) : Insn :=
  .machine ⟨.other withOverflow.toNat, [(⟨8, .def_⟩, dst), (⟨0, .use⟩, flags)], none, rfl⟩
    (some flags)

def pseudoWriteFlags (src flags : MachineReg) : Insn :=
  .machine ⟨.other 2, [(⟨8, .useDef⟩, src), (⟨0, .def_⟩, flags)], none, rfl⟩ (some flags)

def Insn.readsFlags (insn : Insn) : Bool := insn.operands.any fun o => o.isFlags && o.isUse

def Insn.writesFlags (insn : Insn) : Bool := insn.operands.any fun o => o.isFlags && o.isDef

def Insn.inputs (insn : Insn) : List MachineReg :=
  (insn.operands.filter (·.isUse)).map (·.reg)

/-! ### Operands of the two instructions -/

theorem operands_eq_pair {insn : MachineInsn} {a b : StandardAccess}
    (h : insn.operands.map (·.1.access) = [a, b]) :
    ∃ x y, insn.operands = [x, y] ∧ x.1.access = a ∧ y.1.access = b := by
  rcases hops : insn.operands with _ | ⟨x, _ | ⟨y, _ | ⟨z, rest⟩⟩⟩
  · simp [hops] at h
  · simp [hops] at h
  · simp only [hops, map_cons, map_nil, List.cons.injEq, and_true] at h
    exact ⟨x, y, rfl, h.1, h.2⟩
  · simp [hops] at h

variable {insn : Insn} {withOverflow : Bool}

theorem Insn.operands_of_isPseudoCopy (h : insn.isPseudoCopy = true) :
    ∃ dst src b b', insn.operands = [⟨dst, false, true, b⟩, ⟨src, true, false, b'⟩] := by
  cases insn with
  | machine insn flags =>
    unfold isPseudoCopy at h
    dsimp only at h
    split at h
    · next hop =>
        have hacc := MachineInsn.access_operands
          (show insn.opcode.accesses? = some [.def_, .use] by rw [hop]; rfl)
        rcases operands_eq_pair hacc with ⟨x, y, hops, hx, hy⟩
        simp only [operands, hops, map_cons, map_nil, isUse, MachineRegKind.isDef, hx, hy]
        exact ⟨_, _, _, _, rfl⟩
    · cases h
  | movlRegImm | arithmetic => cases h

theorem Insn.operands_of_readFlags (h : insn.readFlags? = some withOverflow) :
    ∃ dst flags b, insn.operands = [⟨dst, false, true, b⟩, ⟨flags, true, false, true⟩] := by
  cases insn with
  | machine insn flags =>
    unfold readFlags? at h
    dsimp only at h
    split at h
    · next hshape =>
        rcases hshape with ⟨hacc, rfl⟩
        rcases operands_eq_pair hacc with ⟨x, y, hops, hx, hy⟩
        simp [operands, MachineInsn.regAt, hops, isUse, MachineRegKind.isDef, hx, hy]
    · cases h
  | movlRegImm | arithmetic => cases h

theorem Insn.operands_of_isPseudoWriteFlags (h : insn.isPseudoWriteFlags = true) :
    ∃ src flags b, insn.operands = [⟨src, true, true, b⟩, ⟨flags, false, true, true⟩] := by
  cases insn with
  | machine insn flags =>
    unfold isPseudoWriteFlags at h
    simp only [decide_eq_true_eq] at h
    rcases h with ⟨_, hacc, rfl⟩
    rcases operands_eq_pair hacc with ⟨x, y, hops, hx, hy⟩
    simp [operands, MachineInsn.regAt, hops, isUse, MachineRegKind.isDef, hx, hy]
  | movlRegImm | arithmetic => cases h

theorem Insn.not_isPseudoCopy_of_isPseudoWriteFlags (h : insn.isPseudoWriteFlags = true) :
    insn.isPseudoCopy = false := by
  rcases operands_of_isPseudoWriteFlags h with ⟨src, flags, b, hops⟩
  refine Bool.eq_false_iff.mpr fun hcopy => ?_
  rcases operands_of_isPseudoCopy hcopy with ⟨dst, src', b', b'', hops'⟩
  rw [hops] at hops'
  simp at hops'

theorem Insn.not_isPseudoCopy_of_readFlags (h : insn.readFlags? = some withOverflow) :
    insn.isPseudoCopy = false := by
  cases insn with
  | machine insn flags =>
    unfold readFlags? at h
    unfold isPseudoCopy
    cases hop : insn.opcode <;> simp [hop] at h ⊢
  | movlRegImm | arithmetic => rfl

theorem Insn.not_isPseudoWriteFlags_of_readFlags (h : insn.readFlags? = some withOverflow) :
    insn.isPseudoWriteFlags = false := by
  rcases operands_of_readFlags h with ⟨dst, flags, b, hops⟩
  refine Bool.eq_false_iff.mpr fun hwrite => ?_
  rcases operands_of_isPseudoWriteFlags hwrite with ⟨src, flags', b', hops'⟩
  rw [hops] at hops'
  simp at hops'

def Insn.Uses (insn : Insn) (r : MachineReg) : Prop :=
  ∃ operand ∈ insn.operands, operand.isUse = true ∧ operand.reg = r

namespace WriteFlags

/-! ### Emitted instructions -/

structure CpuFlags where
  sign : Bool
  zero : Bool
  adjust : Bool
  parity : Bool
  carry : Bool
  overflow : Bool
  deriving DecidableEq

structure AxState where
  ah : BitVec 8
  al : BitVec 8
  flags : CpuFlags
  deriving DecidableEq

inductive EmittedInsn where
  | lahf
  | setccOverflow
  | movb (imm : BitVec 8)
  | addb (imm : BitVec 8)
  | sahf
  deriving DecidableEq

def CpuFlags.lowByte (f : CpuFlags) : BitVec 8 :=
  BitVec.ofBool f.sign ++ BitVec.ofBool f.zero ++ 0#1 ++ BitVec.ofBool f.adjust ++ 0#1 ++
    BitVec.ofBool f.parity ++ 1#1 ++ BitVec.ofBool f.carry

def addbFlags (a b : BitVec 8) : CpuFlags :=
  let r := a + b
  { sign := r.msb
    zero := r == 0
    adjust := (a ^^^ b ^^^ r).getLsbD 4
    parity := evenParity r
    carry := r.ult a
    overflow := a.msb == b.msb && a.msb != r.msb }

def EmittedInsn.exec (s : AxState) : EmittedInsn → AxState
  | .lahf => { s with ah := s.flags.lowByte }
  | .setccOverflow => { s with al := (BitVec.ofBool s.flags.overflow).setWidth 8 }
  | .movb imm => { s with al := imm }
  | .addb imm => { s with al := s.al + imm, flags := addbFlags s.al imm }
  | .sahf =>
    -- OF is not in the lowest byte.
    { s with
      flags :=
        { sign := s.ah.getLsbD 7
          zero := s.ah.getLsbD 6
          adjust := s.ah.getLsbD 4
          parity := s.ah.getLsbD 2
          carry := s.ah.getLsbD 0
          overflow := s.flags.overflow } }

def runEmitted (insns : List EmittedInsn) (s : AxState) : AxState :=
  insns.foldl EmittedInsn.exec s

def emitPseudoReadFlags (withOverflow : Bool) : List EmittedInsn :=
  [.lahf, if withOverflow then .setccOverflow else .movb 0]

def emitPseudoWriteFlags : List EmittedInsn := [.addb 0x7f, .sahf]

/-- The flags that are left when those that were saved are restored. -/
def CpuFlags.saved (f : CpuFlags) (withOverflow : Bool) : CpuFlags :=
  { f with overflow := withOverflow && f.overflow }

theorem CpuFlags.getLsbD_lowByte (f : CpuFlags) :
    f.lowByte.getLsbD 7 = f.sign ∧ f.lowByte.getLsbD 6 = f.zero ∧
      f.lowByte.getLsbD 4 = f.adjust ∧ f.lowByte.getLsbD 2 = f.parity ∧
      f.lowByte.getLsbD 0 = f.carry := by
  rcases f with ⟨sf, zf, af, pf, cf, of⟩
  revert sf zf af pf cf of
  decide

theorem overflow_addbFlags (overflow : Bool) :
    (addbFlags ((BitVec.ofBool overflow).setWidth 8) 0x7f).overflow = overflow := by
  cases overflow <;> decide

theorem writeFlags_readFlags (withOverflow : Bool) (s : AxState) (old : CpuFlags) :
    (runEmitted emitPseudoWriteFlags
      { runEmitted (emitPseudoReadFlags withOverflow) s with flags := old }).flags =
      s.flags.saved withOverflow := by
  rcases s.flags.getLsbD_lowByte with ⟨hsign, hzero, hadj, hpar, hcarry⟩
  cases withOverflow with
  | true =>
    simp only [runEmitted, emitPseudoReadFlags, emitPseudoWriteFlags, EmittedInsn.exec,
      foldl_cons, foldl_nil, if_true, hsign, hzero, hadj, hpar, hcarry,
      overflow_addbFlags, CpuFlags.saved, Bool.true_and]
  | false =>
    have hclear := overflow_addbFlags false
    simp only [runEmitted, emitPseudoReadFlags, emitPseudoWriteFlags, EmittedInsn.exec,
      foldl_cons, foldl_nil, Bool.false_eq_true, if_false, hsign, hzero, hadj,
      hpar, hcarry, CpuFlags.saved, Bool.false_and]
    exact congrArg (CpuFlags.mk _ _ _ _ _) hclear

theorem CpuFlags.saved_eq_iff (f : CpuFlags) (withOverflow : Bool) :
    f.saved withOverflow = f ↔ withOverflow = true ∨ f.overflow = false := by
  rcases f with ⟨sf, zf, af, pf, cf, of⟩
  cases withOverflow <;> cases of <;> simp [CpuFlags.saved]

/-! ### The loop -/

def isWritingSameFlagsValue (m : DefMap) (writeFlagsInsn : Insn) : Bool :=
  match m.findNonPseudoCopyDef (writeFlagsInsn.regAt 0) with
  | some d =>
    d.insn.readFlags?.isSome && writeFlagsInsn.regAt 1 == d.insn.regAt 1 &&
      (m.getBefore (writeFlagsInsn.regAt 1) d.index).isSome
  | none => false

inductive FoldingType where
  | impossible
  | replaceInsn (new : Insn)
  | insertInsn (new : Insn)
  | removeInsn

section

variable (layout : ContextLayout) (others : DefMap → Insn → FoldingType)

def tryFold (m : DefMap) (insn : Insn) : FoldingType :=
  if insn.isPseudoWriteFlags then
    if isWritingSameFlagsValue m insn then .removeInsn else .impossible
  else others m insn

/-- The instructions before the iterator, and those from it on. -/
structure LoopState where
  done : List Insn
  defMap : DefMap
  todo : List Insn

def LoopState.process (st : LoopState) (insn : Insn) (todo : List Insn) : Option LoopState :=
  (st.defMap.processInsn layout insn).map (⟨st.done ++ [insn], ·, todo⟩)

/-- One turn, or `none` at the end and when a check fails. -/
def foldStep (st : LoopState) : Option LoopState :=
  match st.todo with
  | [] => none
  | insn :: todo =>
    match tryFold others st.defMap insn with
    | .impossible => st.process layout insn todo
    | .replaceInsn new => st.process layout new todo
    | .insertInsn new => st.process layout insn (new :: todo)
    | .removeInsn => some { st with todo := todo }

def Reaches (block : List Insn) (st : LoopState) : Prop :=
  Relation.ReflTransGen (fun st st' => foldStep layout others st = some st')
    ⟨[], DefMap.initial, block⟩ st

end

/-! ### Definitions that reach the iterator -/

section

variable {W : Type} {layout : ContextLayout} {others : DefMap → Insn → FoldingType}
  {insns : OtherInsns W} {s : InsnFolding.State W} {done : List Insn} {m m' : DefMap} {insn : Insn}

/-- Positions are those in the instructions before the iterator. A register
    holds what the instruction at the position of its definition wrote. -/
structure Traced (layout : ContextLayout) (insns : OtherInsns W) (s : InsnFolding.State W)
    (done : List Insn) (m : DefMap) : Prop where
  index : m.index = done.length
  copied : ∀ {r d d'}, m.get r = some d → d.insn.isPseudoCopy = true →
    m.getBefore (d.insn.regAt 1) d.index = some d' →
    (run layout insns done s).regs r = (run layout insns done s).regs (d.insn.regAt 1)
  written : ∀ {r d}, m.get r = some d → done[d.index]? = some d.insn ∧ d.insn.Defines r ∧
    (run layout insns done s).regs r = (run layout insns (done.take (d.index + 1)) s).regs r
  puts : ∀ {k put}, done[k]? = some put → put.isCPUStatePut layout = true →
    k ≤ m.lastContextWriteInsn

theorem Traced.processInsn (ht : Traced layout insns s done m)
    (h : m.processInsn layout insn = some m') : Traced layout insns s (done ++ [insn]) m' := by
  rcases processInsn_spec h with ⟨hidx, hlast, hdefs⟩
  have hrun : run layout insns (done ++ [insn]) s =
      exec layout insns insn (run layout insns done s) := by
    unfold run
    rw [foldl_append]
    rfl
  have hlt : ∀ {r d}, m.get r = some d → d.index < done.length := fun hget =>
    (List.getElem?_eq_some_iff.mp (ht.written hget).1).1
  refine ⟨?_, ?_, fun {r d} hget => ?_, fun {k put} hk hput => ?_⟩
  · rw [hidx, ht.index, length_append, length_singleton]
  · rw [hrun]
    exact copied_processInsn h (fun hget => ht.index ▸ hlt hget) ht.copied
      (fun _ hr => exec_regs hr _) fun hcopy _ hr => exec_regs_of_isPseudoCopy hcopy hr
  · rcases hdefs r d hget with ⟨hdef, rfl, hnew⟩ | ⟨hdef, hold⟩
    · rw [hnew, ht.index, take_of_length_le (by simp)]
      exact ⟨getElem?_concat_length, hdef, rfl⟩
    · rcases ht.written hold with ⟨hdone, hd, hval⟩
      rw [getElem?_append_left (hlt hold), take_append_of_le_length (hlt hold), hrun,
        exec_regs hdef]
      exact ⟨hdone, hd, hval⟩
  · rw [hlast, ht.index]
    rcases Nat.lt_or_ge k done.length with hk' | hk'
    · rw [getElem?_append_left hk'] at hk
      have hle := ht.puts hk hput
      split_ifs <;> omega
    · have hlen := (List.getElem?_eq_some_iff.mp hk).1
      rw [length_append, length_singleton] at hlen
      obtain rfl : k = done.length := by omega
      rw [getElem?_concat_length] at hk
      cases hk
      rw [if_pos hput]

theorem traced_of_reaches (insns : OtherInsns W) (s : InsnFolding.State W) {block : List Insn}
    {st : LoopState} (h : Reaches layout others block st) :
    Traced layout insns s st.done st.defMap := by
  induction h with
  | refl =>
    refine ⟨rfl, fun h => ?_, fun h => ?_, fun h => ?_⟩
    · simp [initial_get] at h
    · simp [initial_get] at h
    · simp at h
  | @tail st st' _ hstep ih =>
    have hproc : ∀ insn todo, st.process layout insn todo = some st' →
        Traced layout insns s st'.done st'.defMap := fun insn todo h => by
      rcases map_eq_some_iff.mp h with ⟨m', hm', rfl⟩
      exact ih.processInsn hm'
    unfold foldStep at hstep
    split at hstep
    · cases hstep
    · split at hstep
      · exact hproc _ _ hstep
      · exact hproc _ _ hstep
      · exact hproc _ _ hstep
      · cases hstep
        exact ih

/-- Wherever the loop is, whatever it folds and however the block is executed: a register holds what
    the instruction found for it wrote, and no put is behind the position of an active read. -/
theorem defMap_reaching (layout : ContextLayout) (others : DefMap → Insn → FoldingType)
    (block : List Insn) (st : LoopState) (h : Reaches layout others block st)
    (insns : OtherInsns W) (s : InsnFolding.State W) :
    (∀ r d, st.defMap.findNonPseudoCopyDef r = some d → st.done[d.index]? = some d.insn ∧
      ∃ r', st.defMap.get r' = some d ∧ d.insn.Defines r' ∧
        (InsnFolding.run layout insns st.done s).regs r =
          (InsnFolding.run layout insns (st.done.take (d.index + 1)) s).regs r') ∧
      ∀ p, st.defMap.isContextReadActive p = some true →
        ∀ k put, st.done[k]? = some put → put.isCPUStatePut layout = true → k ≤ p := by
  have ht := traced_of_reaches insns s h
  refine ⟨fun r d hfind => ?_, fun p hactive k put hk hput => ?_⟩
  · rcases bind_eq_some_iff.mp hfind with ⟨d₀, hd₀, hskip⟩
    rcases skipPseudoCopies_eq (run layout insns st.done s).regs ht.copied hd₀ hskip with
      ⟨r', hr', heq, _⟩
    rcases ht.written hr' with ⟨hdone, hdefines, hvalue⟩
    exact ⟨hdone, r', hr', hdefines, heq.trans hvalue⟩
  · have hle := ht.puts hk hput
    rcases isContextReadActive_eq_true hactive with hzero | hlt
    · omega
    · omega

end

/-! ### Execution -/

/-- A general register, of which the rest is not told apart. -/
structure Word (ρ : Type) where
  ah : BitVec 8
  al : BitVec 8
  rest : ρ

structure State (σ ρ : Type) where
  hidden : σ
  words : MachineReg → Word ρ
  flags : CpuFlags

/-- What an instruction with given inputs leaves in the registers that it
    defines, by operand, and in the flags. -/
structure Meaning (σ ρ : Type) where
  exec : Insn → σ → List (Word ρ) → CpuFlags → σ × (Nat → Word ρ) × CpuFlags

section

variable {σ ρ : Type}

def writeDefs (values : Nat → Word ρ) :
    Nat → List RegOperand → (MachineReg → Word ρ) → MachineReg → Word ρ
  | _, [], words => words
  | i, operand :: operands, words =>
    writeDefs values (i + 1) operands
      (if operand.isDef then Function.update words operand.reg (values i) else words)

variable (M : Meaning σ ρ)

/-- What an instruction would do that is told apart by nothing but its
    operands. Flags that it does not read are not passed. -/
def outcome (insn : Insn) (s : State σ ρ) : σ × (Nat → Word ρ) × CpuFlags :=
  M.exec insn s.hidden (insn.inputs.map s.words)
    (if insn.readsFlags then s.flags else ⟨false, false, false, false, false, false⟩)

def execPseudoCopy (insn : Insn) (s : State σ ρ) : State σ ρ :=
  { s with words := Function.update s.words (insn.regAt 0) (s.words (insn.regAt 1)) }

def execPseudoReadFlags (withOverflow : Bool) (insn : Insn) (s : State σ ρ) : State σ ρ :=
  let v := (outcome M insn s).2.1 0
  let r := runEmitted (emitPseudoReadFlags withOverflow) ⟨v.ah, v.al, s.flags⟩
  { s with words := Function.update s.words (insn.regAt 0) ⟨r.ah, r.al, v.rest⟩ }

def execPseudoWriteFlags (insn : Insn) (s : State σ ρ) : State σ ρ :=
  let v := s.words (insn.regAt 0)
  let r := runEmitted emitPseudoWriteFlags ⟨v.ah, v.al, s.flags⟩
  { s with
    words := Function.update s.words (insn.regAt 0) ⟨r.ah, r.al, v.rest⟩
    flags := r.flags }

def execOther (insn : Insn) (s : State σ ρ) : State σ ρ :=
  let r := outcome M insn s
  { hidden := r.1
    words := writeDefs r.2.1 0 insn.operands s.words
    flags := if insn.writesFlags then r.2.2 else s.flags }

def exec (insn : Insn) (s : State σ ρ) : State σ ρ :=
  if insn.isPseudoCopy then execPseudoCopy insn s
  else if insn.isPseudoWriteFlags then execPseudoWriteFlags insn s
  else
    match insn.readFlags? with
    | some withOverflow => execPseudoReadFlags M withOverflow insn s
    | none => execOther M insn s

def run (insns : List Insn) (s : State σ ρ) : State σ ρ :=
  insns.foldl (fun s insn => exec M insn s) s

def flagsSeen : List Insn → State σ ρ → List CpuFlags
  | [], _ => []
  | insn :: insns, s =>
    (if insn.readsFlags then [s.flags] else []) ++ flagsSeen insns (exec M insn s)

end

/-! ### What instructions leave -/

section

variable {σ ρ : Type} {M : Meaning σ ρ} {insn : Insn} {s s' : State σ ρ} {r fl : MachineReg}

theorem writeDefs_of_notMem {values : Nat → Word ρ} (operands : List RegOperand)
    (h : ∀ operand ∈ operands, operand.isDef = true → operand.reg ≠ r) (i : Nat)
    (words : MachineReg → Word ρ) : writeDefs values i operands words r = words r := by
  induction operands generalizing i words with
  | nil => rfl
  | cons operand operands ih =>
    rw [writeDefs, ih fun o ho => h o (mem_cons_of_mem operand ho)]
    split_ifs with hdef
    · exact update_of_ne (h operand mem_cons_self hdef).symm _ _
    · rfl

theorem exec_cases (M : Meaning σ ρ) (insn : Insn) :
    (insn.isPseudoCopy = true ∧ exec M insn = execPseudoCopy insn) ∨
      (insn.isPseudoWriteFlags = true ∧ exec M insn = execPseudoWriteFlags insn) ∨
      (∃ withOverflow, insn.readFlags? = some withOverflow ∧
        exec M insn = execPseudoReadFlags M withOverflow insn) ∨
      exec M insn = execOther M insn := by
  unfold exec
  by_cases hcopy : insn.isPseudoCopy = true
  · simp [hcopy]
  · by_cases hwrite : insn.isPseudoWriteFlags = true
    · simp [hcopy, hwrite]
    · simp only [hcopy, hwrite]
      cases insn.readFlags? with
      | none => exact Or.inr (Or.inr (Or.inr rfl))
      | some withOverflow => exact Or.inr (Or.inr (Or.inl ⟨withOverflow, rfl, rfl⟩))

theorem exec_words (h : ¬insn.Defines r) : (exec M insn s).words r = s.words r := by
  have hfst : ∀ {dst use b operands}, insn.operands = ⟨dst, use, true, b⟩ :: operands →
      r ≠ insn.regAt 0 := by
    intro dst use b operands hops hr
    have hdst : insn.regAt 0 = dst := by simp [regAt, hops]
    exact h ⟨_, by rw [hops]; exact mem_cons_self, rfl, (hr.trans hdst).symm⟩
  rcases exec_cases M insn with ⟨hcopy, hexec⟩ | ⟨hwrite, hexec⟩ | ⟨_, hread, hexec⟩ | hexec
  · rcases operands_of_isPseudoCopy hcopy with ⟨_, _, _, _, hops⟩
    rw [hexec]
    exact update_of_ne (hfst hops) _ _
  · rcases operands_of_isPseudoWriteFlags hwrite with ⟨_, _, _, hops⟩
    rw [hexec]
    exact update_of_ne (hfst hops) _ _
  · rcases operands_of_readFlags hread with ⟨_, _, _, hops⟩
    rw [hexec]
    exact update_of_ne (hfst hops) _ _
  · rw [hexec]
    exact writeDefs_of_notMem insn.operands
      (fun operand hmem hdef hr => h ⟨operand, hmem, hdef, hr⟩) 0 s.words

theorem defines_of_writesFlags (hfl : insn.FlagsIn fl) (h : insn.writesFlags = true) :
    insn.Defines fl := by
  unfold writesFlags at h
  rw [List.any_eq_true] at h
  rcases h with ⟨operand, hmem, hop⟩
  rw [Bool.and_eq_true] at hop
  exact ⟨operand, hmem, hop.2, hfl operand hmem hop.1⟩

theorem writesFlags_of_isPseudoWriteFlags (h : insn.isPseudoWriteFlags = true) :
    insn.writesFlags = true := by
  rcases operands_of_isPseudoWriteFlags h with ⟨src, flags, b, hops⟩
  simp [writesFlags, hops]

theorem exec_flags (hfl : insn.FlagsIn fl) (h : ¬insn.Defines fl) :
    (exec M insn s).flags = s.flags := by
  have hwrit : insn.writesFlags = false :=
    Bool.eq_false_iff.mpr fun hwrit => h (defines_of_writesFlags hfl hwrit)
  rcases exec_cases M insn with ⟨_, hexec⟩ | ⟨hwrite, hexec⟩ | ⟨_, _, hexec⟩ | hexec
  · rw [hexec]
    rfl
  · rw [writesFlags_of_isPseudoWriteFlags hwrite] at hwrit
    cases hwrit
  · rw [hexec]
    rfl
  · rw [hexec]
    simp [execOther, hwrit]

theorem exec_of_readFlags {withOverflow : Bool} (h : insn.readFlags? = some withOverflow) :
    exec M insn s = execPseudoReadFlags M withOverflow insn s := by
  unfold exec
  rw [if_neg (Bool.eq_false_iff.mp (not_isPseudoCopy_of_readFlags h)),
    if_neg (Bool.eq_false_iff.mp (not_isPseudoWriteFlags_of_readFlags h)), h]

theorem exec_of_isPseudoWriteFlags (h : insn.isPseudoWriteFlags = true) :
    exec M insn s = execPseudoWriteFlags insn s := by
  unfold exec
  rw [if_neg (Bool.eq_false_iff.mp (not_isPseudoCopy_of_isPseudoWriteFlags h)), if_pos h]

end

/-! ### What definitions say -/

section

variable {σ ρ : Type} {M : Meaning σ ρ} {layout : ContextLayout} {insn : Insn} {m m' : DefMap}
  {s : State σ ρ} {fl : MachineReg}

/-- The register holds the flags, as they are now, as a save leaves them. -/
def HoldsFlags (withOverflow : Bool) (s : State σ ρ) (v : Word ρ) : Prop :=
  ∃ ax : AxState, ax.flags = s.flags ∧
    v.ah = (runEmitted (emitPseudoReadFlags withOverflow) ax).ah ∧
    v.al = (runEmitted (emitPseudoReadFlags withOverflow) ax).al

/-- The registers hold what their latest definitions say, as long as the second
    operand of that was not defined again. -/
structure Sound (fl : MachineReg) (m : DefMap) (s : State σ ρ) : Prop where
  index : ∀ {r d}, m.get r = some d → d.index < m.index
  flagsReg : ∀ {r d withOverflow}, m.get r = some d → d.insn.readFlags? = some withOverflow →
    d.insn.regAt 1 = fl
  copied : ∀ {r d d'}, m.get r = some d → d.insn.isPseudoCopy = true →
    m.getBefore (d.insn.regAt 1) d.index = some d' → s.words r = s.words (d.insn.regAt 1)
  saved : ∀ {r d d' withOverflow}, m.get r = some d → d.insn.readFlags? = some withOverflow →
    m.getBefore (d.insn.regAt 1) d.index = some d' → HoldsFlags withOverflow s (s.words r)

theorem sound_initial (fl : MachineReg) (s : State σ ρ) : Sound fl initial s where
  index := by
    intro r d h
    rw [initial_get] at h
    cases h
  flagsReg := by
    intro r d _ h
    rw [initial_get] at h
    cases h
  copied := by
    intro r d d' h
    rw [initial_get] at h
    cases h
  saved := by
    intro r d d' _ h
    rw [initial_get] at h
    cases h

variable {r : MachineReg}

theorem regAt_of_isPseudoCopy (h : insn.isPseudoCopy = true) (hr : insn.Defines r) :
    r = insn.regAt 0 := by
  rcases operands_of_isPseudoCopy h with ⟨dst, src, b, b', hops⟩
  rcases hr with ⟨operand, hmem, hdef, rfl⟩
  rw [hops] at hmem
  simp only [mem_cons, not_mem_nil, or_false] at hmem
  rcases hmem with rfl | rfl
  · simp [regAt, hops]
  · cases hdef

theorem regAt_of_readFlags {withOverflow : Bool} (h : insn.readFlags? = some withOverflow)
    (hr : insn.Defines r) : r = insn.regAt 0 := by
  rcases operands_of_readFlags h with ⟨dst, flags, b, hops⟩
  rcases hr with ⟨operand, hmem, hdef, rfl⟩
  rw [hops] at hmem
  simp only [mem_cons, not_mem_nil, or_false] at hmem
  rcases hmem with rfl | rfl
  · simp [regAt, hops]
  · cases hdef

theorem flagsReg_of_readFlags {withOverflow : Bool} (h : insn.readFlags? = some withOverflow)
    (hflags : insn.FlagsIn fl) : insn.regAt 1 = fl := by
  rcases operands_of_readFlags h with ⟨dst, flags, b, hops⟩
  have hfl := hflags ⟨flags, true, false, true⟩ (by rw [hops]; simp) rfl
  rw [← hfl]
  simp [regAt, hops]

theorem sound_step (hs : Sound fl m s) (hfl : insn.FlagsIn fl)
    (h : m.processInsn layout insn = some m') : Sound fl m' (exec M insn s) := by
  rcases processInsn_spec h with ⟨hidx, _, hdefs⟩
  constructor
  · intro r d hget
    rcases hdefs r d hget with ⟨_, _, hnew⟩ | ⟨_, hold⟩
    · omega
    · have := hs.index hold
      omega
  · intro r d withOverflow hget hread
    rcases hdefs r d hget with ⟨_, rfl, _⟩ | ⟨_, hold⟩
    · exact flagsReg_of_readFlags hread hfl
    · exact hs.flagsReg hold hread
  · refine copied_processInsn h hs.index hs.copied (fun _ hr => exec_words hr) fun hcopy r hr => ?_
    rw [regAt_of_isPseudoCopy hcopy hr]
    unfold exec
    rw [if_pos hcopy]
    exact update_self _ _ _
  · intro r d d' withOverflow hget hread hbef
    rcases hdefs r d hget with ⟨hdef, hinsn, hnew⟩ | ⟨hdef, hold⟩
    · rw [hinsn] at hread
      rw [regAt_of_readFlags hread hdef, exec_of_readFlags hread]
      unfold execPseudoReadFlags
      dsimp only
      rw [update_self]
      exact ⟨_, rfl, rfl, rfl⟩
    · rcases getBefore_processInsn h (hs.index hold).le hbef with ⟨hsrc, hbef'⟩
      rw [hs.flagsReg hold hread] at hsrc
      unfold HoldsFlags
      rw [exec_words hdef, exec_flags hfl hsrc]
      exact hs.saved hold hread hbef'

end

/-! ### Along the loop -/

section

variable {σ ρ : Type} {M : Meaning σ ρ} {layout : ContextLayout} {m : DefMap} {s : State σ ρ}
  {fl : MachineReg}

theorem isWritingSameFlagsValue_spec (hs : Sound fl m s) {insn : Insn}
    (h : isWritingSameFlagsValue m insn = true) :
    ∃ d withOverflow, m.findNonPseudoCopyDef (insn.regAt 0) = some d ∧
      d.insn.readFlags? = some withOverflow ∧ insn.regAt 0 ≠ fl ∧
      HoldsFlags withOverflow s (s.words (insn.regAt 0)) := by
  unfold isWritingSameFlagsValue at h
  split at h
  · next d hfind =>
      simp only [Bool.and_eq_true, beq_iff_eq, isSome_iff_exists] at h
      rcases h with ⟨⟨⟨withOverflow, hread⟩, hreg⟩, d', hbef⟩
      have hfound := hfind
      unfold findNonPseudoCopyDef at hfound
      rw [bind_eq_some_iff] at hfound
      rcases hfound with ⟨d₀, hd₀, hskip⟩
      rcases m.skipPseudoCopies_eq s.words hs.copied hd₀ hskip with ⟨r, hr, hwords, hle⟩
      rw [hreg] at hbef
      refine ⟨d, withOverflow, hfind, hread, ?_, ?_⟩
      · -- The flags were defined before the save, what is written not before it.
        intro hfl
        rcases index_of_getBefore hbef with ⟨hget, hlt⟩
        rw [hs.flagsReg hr hread, ← hfl, hd₀] at hget
        cases hget
        omega
      · rw [hwords]
        exact hs.saved hr hread hbef
  · cases h

variable {others : DefMap → Insn → FoldingType}

def KeepsFlags (fl : MachineReg) (others : DefMap → Insn → FoldingType) : Prop :=
  ∀ m insn new, insn.FlagsIn fl →
    (others m insn = .replaceInsn new ∨ others m insn = .insertInsn new) → new.FlagsIn fl

/-- The instructions all have one flags register, and what is known holds after
    those before the iterator. -/
def LoopState.Good (fl : MachineReg) (M : Meaning σ ρ) (s : State σ ρ) (st : LoopState) : Prop :=
  (∀ insn ∈ st.todo, insn.FlagsIn fl) ∧ Sound fl st.defMap (run M st.done s)

theorem run_append_singleton (insns : List Insn) (insn : Insn) (s : State σ ρ) :
    run M (insns ++ [insn]) s = exec M insn (run M insns s) := by
  unfold run
  rw [foldl_append]
  rfl

variable {st : LoopState}

theorem good_process {st' : LoopState} {insn : Insn} {todo : List Insn}
    (hs : Sound fl st.defMap (run M st.done s)) (hfl : insn.FlagsIn fl)
    (htodo : ∀ insn ∈ todo, insn.FlagsIn fl) (h : st.process layout insn todo = some st') :
    st'.Good fl M s := by
  unfold LoopState.process at h
  rw [map_eq_some_iff] at h
  rcases h with ⟨m', hm', rfl⟩
  refine ⟨htodo, ?_⟩
  rw [run_append_singleton]
  exact sound_step hs hfl hm'

theorem good_step (hoth : KeepsFlags fl others) {st' : LoopState} (hgood : st.Good fl M s)
    (h : foldStep layout others st = some st') : st'.Good fl M s := by
  rcases hgood with ⟨htodo, hs⟩
  unfold foldStep at h
  split at h
  · cases h
  · next insn todo hlist =>
      rw [hlist] at htodo
      have hinsn := htodo insn mem_cons_self
      have hrest : ∀ insn ∈ todo, insn.FlagsIn fl := fun i hi =>
        htodo i (mem_cons_of_mem insn hi)
      -- A fold that is not a removal is one of the others.
      have hnew : ∀ new, (tryFold others st.defMap insn = .replaceInsn new ∨
          tryFold others st.defMap insn = .insertInsn new) → new.FlagsIn fl := by
        intro new hfold
        unfold tryFold at hfold
        split_ifs at hfold
        · simp at hfold
        · simp at hfold
        · exact hoth st.defMap insn new hinsn hfold
      split at h
      · exact good_process hs hinsn hrest h
      · next new hfold => exact good_process hs (hnew new (Or.inl hfold)) hrest h
      · next new hfold =>
          refine good_process hs hinsn (fun i hi => ?_) h
          rcases mem_cons.mp hi with rfl | hi
          · exact hnew i (Or.inr hfold)
          · exact hrest i hi
      · cases h
        exact ⟨hrest, hs⟩

theorem good_of_reaches (hoth : KeepsFlags fl others) {block : List Insn}
    (hfl : ∀ insn ∈ block, insn.FlagsIn fl) (h : Reaches layout others block st)
    (M : Meaning σ ρ) (s : State σ ρ) : st.Good fl M s := by
  induction h with
  | refl => exact ⟨hfl, sound_initial fl s⟩
  | tail _ hstep ih => exact good_step hoth ih hstep

end

/-! ### States that differ in one register -/

section

variable {σ ρ : Type} {M : Meaning σ ρ} {insn : Insn} {s s' : State σ ρ} {r : MachineReg}

/-- The states are the same except for what is in a register. -/
structure AgreeOff (r : MachineReg) (s s' : State σ ρ) : Prop where
  hidden : s.hidden = s'.hidden
  flags : s.flags = s'.flags
  words : ∀ r', r' ≠ r → s.words r' = s'.words r'

def NotRead (r : MachineReg) : List Insn → Prop
  | [] => True
  | insn :: insns => ¬insn.Uses r ∧ (insn.Defines r ∨ NotRead r insns)

theorem uses_regAt {i : Nat} {operand : RegOperand} (h : insn.operands[i]? = some operand)
    (huse : operand.isUse = true) : insn.Uses (insn.regAt i) := by
  refine ⟨operand, mem_of_getElem? h, huse, ?_⟩
  simp [regAt, h]

theorem outcome_congr (h : AgreeOff r s s') (huse : ¬insn.Uses r) :
    outcome M insn s = outcome M insn s' := by
  have hinp : insn.inputs.map s.words = insn.inputs.map s'.words := by
    refine map_congr_left fun r' hr' => h.words r' ?_
    rintro rfl
    rcases mem_map.mp hr' with ⟨operand, hop, hreg⟩
    rw [mem_filter] at hop
    exact huse ⟨operand, hop.1, hop.2, hreg⟩
  unfold outcome
  rw [h.hidden, h.flags, hinp]

theorem update_congr {words words' : MachineReg → Word ρ} {dst r' : MachineReg}
    (h : r' ≠ dst → words r' = words' r') (v : Word ρ) :
    Function.update words dst v r' = Function.update words' dst v r' := by
  by_cases hdst : r' = dst
  · rw [hdst, update_self, update_self]
  · rw [update_of_ne hdst, update_of_ne hdst, h hdst]

theorem writeDefs_congr {values : Nat → Word ρ} (operands : List RegOperand) (i : Nat)
    {words words' : MachineReg → Word ρ} {r' : MachineReg}
    (h : words r' = words' r' ∨ ∃ operand ∈ operands, operand.isDef = true ∧ operand.reg = r') :
    writeDefs values i operands words r' = writeDefs values i operands words' r' := by
  induction operands generalizing i words words' with
  | nil =>
    rcases h with h | ⟨operand, hmem, _⟩
    · exact h
    · cases hmem
  | cons operand operands ih =>
    refine ih (i + 1) ?_
    rcases h with h | ⟨o, hmem, hdef, hreg⟩
    · left
      split_ifs
      · exact update_congr (fun _ => h) _
      · exact h
    · rcases mem_cons.mp hmem with rfl | hmem
      · left
        rw [if_pos hdef, if_pos hdef]
        exact update_congr (fun hne => absurd hreg.symm hne) _
      · exact Or.inr ⟨o, hmem, hdef, hreg⟩

variable {fl : MachineReg}

theorem regAt_of_isPseudoWriteFlags (h : insn.isPseudoWriteFlags = true)
    (hflags : insn.FlagsIn fl) (hr : insn.Defines r) : r = insn.regAt 0 ∨ r = fl := by
  rcases operands_of_isPseudoWriteFlags h with ⟨src, flags, b, hops⟩
  rcases hr with ⟨operand, hmem, hdef, rfl⟩
  have hfl := hflags operand hmem
  rw [hops] at hmem
  simp only [mem_cons, not_mem_nil, or_false] at hmem
  rcases hmem with rfl | rfl
  · left
    simp [regAt, hops]
  · exact Or.inr (hfl rfl)

/-- An instruction that does not read the register does the same, and registers
    that it defines are then the same. -/
theorem exec_agree (h : AgreeOff r s s') (huse : ¬insn.Uses r) (hflags : insn.FlagsIn fl)
    (hfl : r ≠ fl) : (exec M insn s).hidden = (exec M insn s').hidden ∧
      (exec M insn s).flags = (exec M insn s').flags ∧
      ∀ r', r' ≠ r ∨ insn.Defines r → (exec M insn s).words r' = (exec M insn s').words r' := by
  -- A register is the same before, or it is the one that differs and is defined.
  have hwords : ∀ r', r' ≠ r ∨ insn.Defines r →
      s.words r' = s'.words r' ∨ r' = r ∧ insn.Defines r' := by
    intro r' hr'
    by_cases hne : r' = r
    · rw [hne] at hr' ⊢
      exact Or.inr ⟨rfl, hr'.resolve_left (fun hne => hne rfl)⟩
    · exact Or.inl (h.words r' hne)
  rcases exec_cases M insn with ⟨hcopy, hexec⟩ | ⟨hwrite, hexec⟩ | ⟨_, hread, hexec⟩ | hexec
  · rcases operands_of_isPseudoCopy hcopy with ⟨_, _, _, _, hops⟩
    have hsrc : insn.regAt 1 ≠ r := by
      rintro rfl
      exact huse (uses_regAt (by rw [hops]; rfl) rfl)
    rw [hexec]
    refine ⟨h.hidden, h.flags, fun r' hr' => ?_⟩
    unfold execPseudoCopy
    rw [h.words _ hsrc]
    refine update_congr (fun hne => ?_) _
    rcases hwords r' hr' with heq | ⟨_, hdef⟩
    · exact heq
    · exact absurd (regAt_of_isPseudoCopy hcopy hdef) hne
  · rcases operands_of_isPseudoWriteFlags hwrite with ⟨_, _, _, hops⟩
    have hsrc : insn.regAt 0 ≠ r := by
      rintro rfl
      exact huse (uses_regAt (by rw [hops]; rfl) rfl)
    rw [hexec]
    unfold execPseudoWriteFlags
    rw [h.words _ hsrc, h.flags]
    refine ⟨h.hidden, rfl, fun r' hr' => update_congr (fun hne => ?_) _⟩
    rcases hwords r' hr' with heq | ⟨rfl, hdef⟩
    · exact heq
    · rcases regAt_of_isPseudoWriteFlags hwrite hflags hdef with heq | heq
      · exact absurd heq hne
      · exact absurd heq hfl
  · rw [hexec]
    unfold execPseudoReadFlags
    rw [outcome_congr h huse, h.flags]
    refine ⟨h.hidden, rfl, fun r' hr' => update_congr (fun hne => ?_) _⟩
    rcases hwords r' hr' with heq | ⟨_, hdef⟩
    · exact heq
    · exact absurd (regAt_of_readFlags hread hdef) hne
  · rw [hexec]
    unfold execOther
    rw [outcome_congr h huse, h.flags]
    exact ⟨rfl, rfl, fun r' hr' => writeDefs_congr _ _ ((hwords r' hr').imp_right And.right)⟩

theorem flagsSeen_agree (hfl : r ≠ fl) {insns : List Insn}
    (hflags : ∀ insn ∈ insns, insn.FlagsIn fl) (hread : NotRead r insns) (h : AgreeOff r s s') :
    flagsSeen M insns s = flagsSeen M insns s' := by
  induction insns generalizing s s' with
  | nil => rfl
  | cons insn insns ih =>
    rcases hread with ⟨huse, hrest⟩
    rcases exec_agree (M := M) h huse (hflags insn mem_cons_self) hfl with
      ⟨hhid, hexec, hwords⟩
    rw [flagsSeen, flagsSeen, h.flags]
    refine congrArg _ ?_
    rcases hrest with hdef | hrest
    · -- All registers are the same from here on.
      have heq : exec M insn s = exec M insn s' := by
        have hall := funext fun r' => hwords r' (Or.inr hdef)
        generalize exec M insn s = t at *
        cases t
        simp only at hhid hexec hall
        rw [hhid, hexec, hall]
      rw [heq]
    · exact ih (fun i hi => hflags i (mem_cons_of_mem insn hi)) hrest
        ⟨hhid, hexec, fun r' hr' => hwords r' (Or.inl hr')⟩

end

/-! ### Removals -/

section

variable {σ ρ : Type}

def LoopState.Removes (others : DefMap → Insn → FoldingType) (st : LoopState) (insn : Insn) :
    Prop :=
  st.todo.head? = some insn ∧ insn.isPseudoWriteFlags = true ∧
    tryFold others st.defMap insn = .removeInsn

def savesOverflow (m : DefMap) (writeFlags : Insn) : Bool :=
  ((m.findNonPseudoCopyDef (writeFlags.regAt 0)).bind (·.insn.readFlags?)).getD false

/-- Wherever the pass removes a write of flags, with OF saved or clear, all flags that
    instructions read later are the same with the write and without it. The instructions are any
    that may follow, in the block and on a path from there, with the same flags register. The
    write changes the register that it reads, and they do not read that one again. -/
theorem removeWriteFlags_unseen (layout : ContextLayout) (others : DefMap → Insn → FoldingType)
    (fl : MachineReg) (hothers : KeepsFlags fl others) (block : List Insn)
    (hflags : ∀ insn ∈ block, insn.FlagsIn fl) (st : LoopState)
    (hreaches : Reaches layout others block st) (writeFlags : Insn)
    (hremoves : st.Removes others writeFlags) (M : Meaning σ ρ) (s : State σ ρ)
    (hsaved : savesOverflow st.defMap writeFlags = true ∨
      (run M st.done s).flags.overflow = false)
    (later : List Insn) (hlater : ∀ insn ∈ later, insn.FlagsIn fl)
    (hnotRead : NotRead (writeFlags.regAt 0) later) :
    flagsSeen M later (exec M writeFlags (run M st.done s)) =
      flagsSeen M later (run M st.done s) := by
  rcases good_of_reaches hothers hflags hreaches M s with ⟨_, hs⟩
  rcases hremoves with ⟨_, hwrite, hfold⟩
  have hsame : isWritingSameFlagsValue st.defMap writeFlags = true := by
    unfold tryFold at hfold
    rw [if_pos hwrite] at hfold
    by_contra hsame
    rw [if_neg hsame] at hfold
    cases hfold
  rcases isWritingSameFlagsValue_spec hs hsame with
    ⟨d, withOverflow, hfind, hread, hne, ax, hax, hah, hal⟩
  have hsaves : savesOverflow st.defMap writeFlags = withOverflow := by
    unfold savesOverflow
    rw [hfind, bind_some, hread, getD_some]
  generalize run M st.done s = t at *
  have hexec := exec_of_isPseudoWriteFlags (M := M) (s := t) hwrite
  have hnew : (exec M writeFlags t).flags = t.flags.saved withOverflow := by
    rw [hexec, ← hax, ← writeFlags_readFlags withOverflow ax t.flags]
    simp only [execPseudoWriteFlags, hah, hal]
  rw [hsaves, ← CpuFlags.saved_eq_iff, ← hnew] at hsaved
  refine flagsSeen_agree hne hlater hnotRead ⟨?_, hsaved, fun r' hr' => ?_⟩
  · rw [hexec]
    rfl
  · rw [hexec]
    exact update_of_ne hr' _ _

end

/-! ### Instances -/

section

variable (layout : ContextLayout) (others : DefMap → Insn → FoldingType)

def steps : Nat → LoopState → Option LoopState
  | 0, st => some st
  | n + 1, st => (steps n st).bind (foldStep layout others)

theorem reaches_of_steps {n : Nat} {block : List Insn} {st : LoopState}
    (h : steps layout others n ⟨[], initial, block⟩ = some st) :
    Reaches layout others block st := by
  induction n generalizing st with
  | zero =>
    cases h
    exact Relation.ReflTransGen.refl
  | succ n ih =>
    rw [steps, bind_eq_some_iff] at h
    rcases h with ⟨st', hst', hstep⟩
    exact (ih hst').tail hstep

end

def noFolds : DefMap → Insn → FoldingType := fun _ _ => .impossible

def savedReg : MachineReg := .createVRegFromIndex 3

def addInsn : Insn := .arithmetic .add .q (.reg sampleReg) (.reg sampleReg) sampleFlags

def restoreInsn : Insn := pseudoWriteFlags savedReg sampleFlags

theorem findNonPseudoCopyDef_of_get {m : DefMap} {r : MachineReg} {d : Def}
    (hget : m.get r = some d) (hcopy : d.insn.isPseudoCopy = false) :
    m.findNonPseudoCopyDef r = some d := by
  rw [findNonPseudoCopyDef, hget, bind_some, skipPseudoCopies, hcopy]
  rfl

theorem findNonPseudoCopyDef_of_copy {m : DefMap} {r : MachineReg} {copy d : Def}
    (hget : m.get r = some copy) (hcopy : copy.insn.isPseudoCopy = true)
    (hbefore : m.getBefore (copy.insn.regAt 1) copy.index = some d)
    (hload : d.insn.isPseudoCopy = false) : m.findNonPseudoCopyDef r = some d := by
  rw [findNonPseudoCopyDef, hget, bind_some, skipPseudoCopies, if_pos hcopy]
  split
  · next d' hd' =>
    rw [hbefore, Option.some.injEq] at hd'
    rw [← hd', skipPseudoCopies, hload]
    rfl
  · next hd' =>
    rw [hbefore] at hd'
    cases hd'

theorem removes_restoreInsn {others : DefMap → Insn → FoldingType} {st : LoopState}
    {withOverflow : Bool} {i : Nat} {d : Def} (htodo : st.todo.head? = some restoreInsn)
    (hsaved : st.defMap.get savedReg =
      some ⟨pseudoReadFlags withOverflow savedReg sampleFlags, i, 0⟩)
    (hflags : st.defMap.get sampleFlags = some d) (hlt : d.index < i) :
    st.Removes others restoreInsn ∧ savesOverflow st.defMap restoreInsn = withOverflow := by
  have hfind : st.defMap.findNonPseudoCopyDef (restoreInsn.regAt 0) =
      some ⟨pseudoReadFlags withOverflow savedReg sampleFlags, i, 0⟩ :=
    findNonPseudoCopyDef_of_get hsaved (by cases withOverflow <;> rfl)
  have hread : (pseudoReadFlags withOverflow savedReg sampleFlags).readFlags? =
      some withOverflow := by
    cases withOverflow <;> rfl
  have hsame : isWritingSameFlagsValue st.defMap restoreInsn = true := by
    have hbefore : st.defMap.getBefore (restoreInsn.regAt 1) i = some d := by
      change st.defMap.getBefore sampleFlags i = _
      unfold getBefore
      rw [hflags]
      exact if_neg (Nat.not_le.mpr hlt)
    unfold isWritingSameFlagsValue
    simp only [hfind, hread, hbefore]
    rfl
  refine ⟨⟨htodo, rfl, ?_⟩, ?_⟩
  · unfold tryFold
    rw [if_pos (show restoreInsn.isPseudoWriteFlags = true from rfl), if_pos hsame]
  · unfold savesOverflow
    rw [hfind, bind_some, hread, getD_some]

theorem foldStep_of_removes {layout : ContextLayout} {others : DefMap → Insn → FoldingType}
    {st : LoopState} {insn : Insn} (h : st.Removes others insn) :
    foldStep layout others st = some { st with todo := st.todo.tail } := by
  rcases st with ⟨done, m, _ | ⟨first, todo⟩⟩
  · cases h.1
  · cases h.1
    unfold foldStep
    simp only [h.2.2, tail_cons]

def copyReg : MachineReg := .createVRegFromIndex 4

/-- A load and a copy of what it loads. -/
def loadAndCopy : List Insn :=
  getThen 16 fun r =>
    .machine ⟨.pseudoCopy 8, [(⟨8, .def_⟩, copyReg), (⟨8, .use⟩, r)], none, rfl⟩ none

/-- The copy is added, and the flags are saved and restored. -/
def addCopied : List Insn :=
  loadAndCopy ++ [.arithmetic .add .q (.reg sampleReg) (.reg copyReg) sampleFlags,
    pseudoReadFlags true savedReg sampleFlags, restoreInsn]

def foldsAdd : DefMap → Insn → FoldingType
  | _, .arithmetic .add size dst (.reg _) flags =>
    .replaceInsn (.arithmetic .add size dst (.mem 16) flags)
  | _, _ => .impossible

/-- After the addition is folded and the restored flags are removed, the load is found
    for the copy. -/
theorem defMap_reaching_addCopied : ∃ st d, Reaches sampleLayout foldsAdd addCopied st ∧
    st.done = loadAndCopy ++ [.arithmetic .add .q (.reg sampleReg) (.mem 16) sampleFlags,
      pseudoReadFlags true savedReg sampleFlags] ∧ st.todo = [] ∧
    st.defMap.findNonPseudoCopyDef copyReg = some d ∧
    st.defMap.isContextReadActive d.index = some true ∧
    ∀ s : InsnFolding.State Unit, ∃ r', d.insn.Defines r' ∧
      (InsnFolding.run sampleLayout .inert st.done s).regs copyReg =
        (InsnFolding.run sampleLayout .inert (st.done.take (d.index + 1)) s).regs r' := by
  have hsteps : ∃ st add copy d, steps sampleLayout foldsAdd 4 ⟨[], initial, addCopied⟩ = some st ∧
      st.done = loadAndCopy ++ [.arithmetic .add .q (.reg sampleReg) (.mem 16) sampleFlags,
        pseudoReadFlags true savedReg sampleFlags] ∧ st.todo = [restoreInsn] ∧
      st.defMap.get savedReg = some ⟨pseudoReadFlags true savedReg sampleFlags, 3, 0⟩ ∧
      st.defMap.get sampleFlags = some add ∧ add.index = 2 ∧
      st.defMap.get copyReg = some copy ∧ copy.insn.isPseudoCopy = true ∧
      st.defMap.getBefore (copy.insn.regAt 1) copy.index = some d ∧
      d.insn.isPseudoCopy = false ∧ st.defMap.isContextReadActive d.index = some true :=
    ⟨_, _, _, _, rfl, rfl, rfl, rfl, rfl, rfl, rfl, rfl, rfl, rfl, rfl⟩
  rcases hsteps with ⟨st, add, copy, d, hst, hdone, htodo, hsaved, hflags, hadd, hget, hcopy,
    hbefore, hload, hactive⟩
  have hremoves : st.Removes foldsAdd restoreInsn :=
    (removes_restoreInsn (by rw [htodo]; rfl) hsaved hflags (by omega)).1
  have hreaches := (reaches_of_steps _ _ hst).tail (foldStep_of_removes hremoves)
  have hfind := findNonPseudoCopyDef_of_copy hget hcopy hbefore hload
  refine ⟨_, d, hreaches, hdone, by rw [htodo]; rfl, hfind, hactive, fun s => ?_⟩
  rcases (defMap_reaching _ _ _ _ hreaches .inert s).1 _ d hfind with ⟨_, r', _, hdefines, heq⟩
  exact ⟨r', hdefines, heq⟩

def saveAndRestore (withOverflow : Bool) (later : List Insn) : List Insn :=
  [addInsn, pseudoReadFlags withOverflow savedReg sampleFlags, restoreInsn] ++ later

theorem saveAndRestore_reaches (withOverflow : Bool) (later : List Insn) :
    ∃ st, Reaches sampleLayout noFolds (saveAndRestore withOverflow later) st ∧
      st.done = [addInsn, pseudoReadFlags withOverflow savedReg sampleFlags] ∧
      st.Removes noFolds restoreInsn ∧ st.todo.tail = later ∧
      savesOverflow st.defMap restoreInsn = withOverflow := by
  have hsteps : ∃ st, steps sampleLayout noFolds 2
      ⟨[], initial, saveAndRestore withOverflow later⟩ = some st ∧
      st.done = [addInsn, pseudoReadFlags withOverflow savedReg sampleFlags] ∧
      st.todo = restoreInsn :: later ∧
      st.defMap.get savedReg = some ⟨pseudoReadFlags withOverflow savedReg sampleFlags, 1, 0⟩ ∧
      st.defMap.get sampleFlags = some ⟨addInsn, 0, 2⟩ := by
    cases withOverflow
    · exact ⟨_, rfl, rfl, rfl, rfl, rfl⟩
    · exact ⟨_, rfl, rfl, rfl, rfl, rfl⟩
  rcases hsteps with ⟨st, hst, hdone, htodo, hsav, hfl⟩
  rcases @removes_restoreInsn noFolds st _ _ _ (by rw [htodo]; rfl) hsav hfl Nat.one_pos with
    ⟨hremoves, hsaves⟩
  exact ⟨st, reaches_of_steps _ _ hst, hdone, hremoves, by rw [htodo]; rfl, hsaves⟩

theorem flagsIn_saveAndRestore (withOverflow : Bool) {later : List Insn}
    (h : ∀ insn ∈ later, insn.FlagsIn sampleFlags) :
    ∀ insn ∈ saveAndRestore withOverflow later, insn.FlagsIn sampleFlags := by
  have hfst : ∀ insn ∈ saveAndRestore withOverflow [], insn.FlagsIn sampleFlags := by
    unfold Insn.FlagsIn
    cases withOverflow <;> decide +kernel
  intro insn hmem
  rcases mem_append.mp hmem with hmem | hmem
  · exact hfst insn (mem_append_left _ hmem)
  · exact h insn hmem

def settingMeaning : Meaning Unit Unit := ⟨fun _ _ _ _ =>
  ((), fun _ => ⟨0, 0, ()⟩, ⟨true, true, true, true, true, true⟩)⟩

def clearState : State Unit Unit :=
  ⟨(), fun _ => ⟨0, 0, ()⟩, ⟨false, false, false, false, false, false⟩⟩

def readerInsn : Insn := pseudoReadFlags true sampleReg sampleFlags

theorem flagsIn_readerInsn : ∀ insn ∈ [readerInsn], insn.FlagsIn sampleFlags := by
  unfold Insn.FlagsIn
  decide +kernel

/-- Flags that are saved with OF and set: a reader sees the same without the restore. -/
theorem removeWriteFlags_unseen_saved : ∃ st,
    Reaches sampleLayout noFolds (saveAndRestore true [readerInsn]) st ∧
      st.Removes noFolds restoreInsn ∧
      (run settingMeaning st.done clearState).flags.overflow = true ∧
      flagsSeen settingMeaning [readerInsn]
          (exec settingMeaning restoreInsn (run settingMeaning st.done clearState)) =
        flagsSeen settingMeaning [readerInsn] (run settingMeaning st.done clearState) := by
  rcases saveAndRestore_reaches true [readerInsn] with ⟨st, hreaches, hdone, hremoves, _, hsaves⟩
  have hothers : KeepsFlags sampleFlags noFolds := by
    rintro m insn new - (h | h) <;> cases h
  have hnotRead : NotRead (restoreInsn.regAt 0) [readerInsn] := by
    refine ⟨?_, Or.inr trivial⟩
    unfold Insn.Uses
    decide
  refine ⟨st, hreaches, hremoves, by rw [hdone]; decide, ?_⟩
  exact removeWriteFlags_unseen sampleLayout noFolds sampleFlags hothers _
    (flagsIn_saveAndRestore true flagsIn_readerInsn) st hreaches restoreInsn hremoves
    settingMeaning clearState (Or.inl hsaves) _ flagsIn_readerInsn hnotRead

/-- With and without the restore that is removed. Flags that are saved without OF: the restore
    would clear it, so the reader sees it set. Flags that are saved with OF and restored twice: the
    first restore changes the register for the second one. -/
theorem removeWriteFlags_seen :
    (∃ st, Reaches sampleLayout noFolds (saveAndRestore false [readerInsn]) st ∧
      st.Removes noFolds restoreInsn ∧ st.todo.tail = [readerInsn] ∧
      flagsSeen settingMeaning [readerInsn]
          (exec settingMeaning restoreInsn (run settingMeaning st.done clearState)) =
        [⟨true, true, true, true, true, false⟩] ∧
      flagsSeen settingMeaning [readerInsn] (run settingMeaning st.done clearState) =
        [⟨true, true, true, true, true, true⟩]) ∧
    ∃ st, Reaches sampleLayout noFolds
        (saveAndRestore true [addInsn, restoreInsn, readerInsn]) st ∧
      st.Removes noFolds restoreInsn ∧ st.todo.tail = [addInsn, restoreInsn, readerInsn] ∧
      flagsSeen settingMeaning [addInsn, restoreInsn, readerInsn]
          (exec settingMeaning restoreInsn (run settingMeaning st.done clearState)) =
        [⟨true, true, true, true, true, false⟩] ∧
      flagsSeen settingMeaning [addInsn, restoreInsn, readerInsn]
          (run settingMeaning st.done clearState) = [⟨true, true, true, true, true, true⟩] := by
  constructor
  · rcases saveAndRestore_reaches false [readerInsn] with ⟨st, hreaches, hdone, hremoves, htail, _⟩
    refine ⟨st, hreaches, hremoves, htail, ?_⟩
    rw [hdone]
    decide
  · rcases saveAndRestore_reaches true [addInsn, restoreInsn, readerInsn] with
      ⟨st, hreaches, hdone, hremoves, htail, _⟩
    refine ⟨st, hreaches, hremoves, htail, ?_⟩
    rw [hdone]
    decide

end WriteFlags

end Berberis.Backend.InsnFolding
