import Berberis.Backend.OperandSemantics

/-!
# Renaming the Uses of Copies

Within a block a register that was copied is used in place of its copy, or the
copy in place of the register when the copy is live-out, as long as neither has
been redefined. A clock that ticks with every instruction tells: a renaming is
out of date when the new name was defined after it. `Names` says of the block
before the pass, and without a clock, which name each register has.

## Theorems

* `renameInsns_preserves`: A renamed block reads the same and ends the same.
* `renameCopyUses_preserves_iff`: This is so for all values exactly when no
  use and no name of one is clobbered early.
-/

namespace Berberis.Backend.RenameCopyUses

open OperandSemantics List Function

/-! ### The pass -/

/-- What the opcodes say about operands: whether it is the argument of a call,
    and how many registers the class of an operand has. -/
structure OperandTables where
  isCallImmArg : MachineOpcode → Bool
  numRegs : MachineOpcode → Nat → Nat

structure RenameData where
  renamed : MachineReg
  renamingTime : Nat
  lastDefTime : Nat
  deriving DecidableEq

/-- The entries of the virtual registers. -/
abbrev RenameCopyUsesMap := MachineReg → RenameData

def startBasicBlock : RenameCopyUsesMap := fun _ => ⟨kInvalidMachineReg, 0, 0⟩

variable (tables : OperandTables)

def get (map : RenameCopyUsesMap) (reg : MachineReg) : MachineReg :=
  let renamed := (map reg).renamed
  if renamed = kInvalidMachineReg then kInvalidMachineReg
  else if (map renamed).lastDefTime > (map reg).renamingTime then kInvalidMachineReg
  else renamed

/-- Operands of narrow classes may need their copy for the allocator. -/
def renameUseIfMapped (map : RenameCopyUsesMap) (opcode : MachineOpcode) (i : Nat)
    (reg : MachineReg) : MachineReg :=
  if tables.isCallImmArg opcode || tables.numRegs opcode i == 1 then reg
  else if !reg.isVReg then reg
  else
    let mapped := get map reg
    if mapped ≠ kInvalidMachineReg then mapped else reg

def processDef (map : RenameCopyUsesMap) (time : Nat) (reg : MachineReg) : RenameCopyUsesMap :=
  if !reg.isVReg then map else Function.update map reg ⟨kInvalidMachineReg, 0, time⟩

/-- A copy to a live-out register renames the source, as the copy has to stay anyway. -/
def processCopy (map : RenameCopyUsesMap) (time : Nat) (liveOut : List MachineReg)
    (copy : MachineInsn) : RenameCopyUsesMap :=
  let dst := copy.regAt 0
  let src := copy.regAt 1
  if !dst.isVReg || !src.isVReg then map
  else if dst ∈ liveOut then
    Function.update map src { map src with renamed := dst, renamingTime := time }
  else Function.update map dst ⟨src, time, time⟩

/-- The operands from the given index on. Operands that are used and defined cannot be renamed. -/
def processOperands (opcode : MachineOpcode) (time : Nat) :
    Nat → List Operand → RenameCopyUsesMap → RenameCopyUsesMap × List Operand
  | _, [], map => (map, [])
  | i, operand :: operands, map =>
    if operand.1.isDef then
      let r := processOperands opcode time (i + 1) operands (processDef map time operand.2)
      (r.1, operand :: r.2)
    else
      let r := processOperands opcode time (i + 1) operands map
      (r.1, (operand.1, renameUseIfMapped tables map opcode i operand.2) :: r.2)

def isCopy (insn : MachineInsn) : Bool :=
  match insn.opcode with
  | .pseudoCopy _ => true
  | _ => false

theorem processOperands_kinds (opcode : MachineOpcode) (time : Nat) (operands : List Operand)
    (i : Nat) (map : RenameCopyUsesMap) :
    (processOperands tables opcode time i operands map).2.map (·.1) = operands.map (·.1) := by
  induction operands generalizing i map with
  | nil => rfl
  | cons operand operands ih =>
    rw [processOperands]
    split_ifs
    · simp [ih]
    · simp [ih]

def renamedInsn (map : RenameCopyUsesMap) (time : Nat) (insn : MachineInsn) : MachineInsn :=
  { insn with
    operands := (processOperands tables insn.opcode time 0 insn.operands map).2
    shaped := by
      have hkinds := congrArg (List.map MachineRegKind.access)
        (processOperands_kinds tables insn.opcode time insn.operands 0 map)
      simp only [map_map] at hkinds
      have haccess : (processOperands tables insn.opcode time 0 insn.operands map).2.map
          (·.1.access) = insn.operands.map (·.1.access) := hkinds
      rw [haccess]
      exact insn.shaped }

theorem renamedInsn_opcode (map : RenameCopyUsesMap) (time : Nat) (insn : MachineInsn) :
    (renamedInsn tables map time insn).opcode = insn.opcode :=
  rfl

def renameInsn (map : RenameCopyUsesMap) (time : Nat) (liveOut : List MachineReg)
    (insn : MachineInsn) : RenameCopyUsesMap × MachineInsn :=
  let map' := (processOperands tables insn.opcode time 0 insn.operands map).1
  let insn' := renamedInsn tables map time insn
  (if isCopy insn' then processCopy map' time liveOut insn' else map', insn')

def renameInsns (liveOut : List MachineReg) :
    Nat → RenameCopyUsesMap → List InsnNode → List InsnNode
  | _, _, [] => []
  | time, map, n :: insns =>
    let r := renameInsn tables map time liveOut n.insn
    ⟨n.pos, r.2⟩ :: renameInsns liveOut (time + 1) r.1 insns

def renameBlocks : List Nat → Nat → MachineIR → MachineIR
  | [], _, ir => ir
  | b :: bs, time, ir =>
    let insns := (ir.bb b).insnList
    renameBlocks bs (time + insns.length)
      (ir.setInsnList b (renameInsns tables (ir.bb b).liveOut time startBasicBlock insns))

def renameCopyUses (ir : MachineIR) : MachineIR := renameBlocks tables ir.bbList 0 ir

/-! ### Names without a clock -/

/-- The names of the registers. Each has its own, or that of a copy or the source of one. -/
abbrev Names := MachineReg → MachineReg

/-- A register that is defined has its own name again, and so have those that had its name. -/
def Names.define (names : Names) (d : MachineReg) : Names :=
  fun r => if r = d ∨ names r = d then r else names r

def Names.operands (names : Names) : List Operand → Names
  | [] => names
  | o :: operands => Names.operands (if o.1.isDef then names.define o.2 else names) operands

def Names.use (names : Names) (opcode : MachineOpcode) (i : Nat) (reg : MachineReg) : MachineReg :=
  if tables.isCallImmArg opcode || tables.numRegs opcode i == 1 then reg else names reg

def Names.insn (names : Names) (liveOut : List MachineReg) (insn : MachineInsn) : Names :=
  let names := names.operands insn.operands
  let dst := insn.regAt 0
  let src := names.use tables insn.opcode 1 (insn.regAt 1)
  if isCopy insn && dst.isVReg && src.isVReg then
    if dst ∈ liveOut then update names src dst else update names dst src
  else names

/-- No use from an operand on has a name other than its own while one of the two is clobbered
    early. Definitions that come before a use count. -/
def UsesApart (insn : MachineInsn) (names : Names) : Nat → List Operand → Prop
  | _, [] => True
  | i, o :: operands =>
    if o.1.isDef then UsesApart insn (names.define o.2) (i + 1) operands
    else (names.use tables insn.opcode i o.2 ≠ o.2 → ∀ e ∈ insn.operands,
        isEarlyClobber e = true → e.2 ≠ o.2 ∧ e.2 ≠ names.use tables insn.opcode i o.2) ∧
      UsesApart insn names (i + 1) operands

def ClobbersApart (liveOut : List MachineReg) (names : Names) : List InsnNode → Prop
  | [] => True
  | n :: insns => UsesApart tables n.insn names 0 n.insn.operands ∧
    ClobbersApart liveOut (names.insn tables liveOut n.insn) insns

instance decidableUsesApart (insn : MachineInsn) : ∀ (names : Names) (i : Nat)
    (operands : List Operand), Decidable (UsesApart tables insn names i operands)
  | _, _, [] => isTrue trivial
  | names, i, o :: operands =>
    have := decidableUsesApart insn (names.define o.2) (i + 1) operands
    have := decidableUsesApart insn names (i + 1) operands
    inferInstanceAs (Decidable (if o.1.isDef then _ else _ ∧ _))

instance decidableClobbersApart (liveOut : List MachineReg) : ∀ (names : Names)
    (insns : List InsnNode), Decidable (ClobbersApart tables liveOut names insns)
  | _, [] => isTrue trivial
  | names, n :: insns =>
    have := decidableClobbersApart liveOut (names.insn tables liveOut n.insn) insns
    inferInstanceAs (Decidable (_ ∧ _))

/-! ### What the clock tells -/

section

variable {map : RenameCopyUsesMap} {time : Nat} {names : Names}

theorem get_valid {r : MachineReg} (h : get map r ≠ kInvalidMachineReg) :
    get map r = (map r).renamed ∧ (map r).renamed ≠ kInvalidMachineReg ∧
      (map (map r).renamed).lastDefTime ≤ (map r).renamingTime := by
  unfold get at h ⊢
  dsimp only at h ⊢
  split_ifs at h ⊢ with hinv hlate
  · exact absurd rfl h
  · exact absurd rfl h
  · exact ⟨rfl, hinv, Nat.le_of_not_lt hlate⟩

/-- The map has the names. Renamings are of virtual registers and older than the clock. -/
structure Tracks (map : RenameCopyUsesMap) (time : Nat) (names : Names) : Prop where
  vregs : ∀ r, (map r).renamed ≠ kInvalidMachineReg →
    r.isVReg = true ∧ (map r).renamed.isVReg = true
  before : ∀ r, (map r).renamed ≠ kInvalidMachineReg → (map r).renamingTime < time
  lastDef : ∀ r, (map r).lastDefTime ≤ time
  names : ∀ r, names r = if get map r = kInvalidMachineReg then r else get map r

theorem tracks_startBasicBlock (time : Nat) : Tracks startBasicBlock time id where
  vregs _ h := absurd rfl h
  before _ h := absurd rfl h
  lastDef _ := Nat.zero_le time
  names _ := rfl

theorem ne_invalid_of_isVReg {r : MachineReg} (h : r.isVReg = true) : r ≠ kInvalidMachineReg := by
  rintro rfl
  exact absurd h (by decide)

theorem get_of_renamed_ne {map' : RenameCopyUsesMap} {r : MachineReg} (hr : map' r = map r)
    (h : (map' (map r).renamed).lastDefTime = (map (map r).renamed).lastDefTime) :
    get map' r = get map r := by
  unfold get
  dsimp only
  rw [hr, h]

theorem processDef_of_ne {d r : MachineReg} (h : r ≠ d) : processDef map time d r = map r := by
  unfold processDef
  split_ifs
  · rfl
  · exact update_of_ne h _ _

theorem Tracks.define (h : Tracks map time names) (d : MachineReg) :
    Tracks (processDef map time d) time (names.define d) := by
  by_cases hd : d.isVReg = true
  · have hself : processDef map time d d = ⟨kInvalidMachineReg, 0, time⟩ := by
      rw [processDef, hd, Bool.not_true, if_neg Bool.false_ne_true, update_self]
    have hold : ∀ r, (processDef map time d r).renamed ≠ kInvalidMachineReg →
        r ≠ d ∧ processDef map time d r = map r := by
      intro r hr
      have hne : r ≠ d := by
        rintro rfl
        rw [hself] at hr
        exact hr rfl
      exact ⟨hne, processDef_of_ne hne⟩
    refine ⟨fun r hr => ?_, fun r hr => ?_, fun r => ?_, fun r => ?_⟩
    · have hsame := (hold r hr).2
      rw [hsame] at hr ⊢
      exact h.vregs r hr
    · have hsame := (hold r hr).2
      rw [hsame] at hr ⊢
      exact h.before r hr
    · by_cases hr : r = d
      · rw [hr, hself]
      · rw [processDef_of_ne hr]
        exact h.lastDef r
    · unfold Names.define
      by_cases hr : r = d
      · rw [if_pos (Or.inl hr), get, hr, hself, if_pos rfl, if_pos rfl]
      by_cases hname : (map r).renamed = d
      · -- The clock is ahead of every renaming.
        have hget : get (processDef map time d) r = kInvalidMachineReg := by
          have hbefore := h.before r (hname ▸ ne_invalid_of_isVReg hd)
          unfold get
          dsimp only
          rw [processDef_of_ne hr, hname, hself, if_pos (show time > _ from hbefore), ite_self]
        rw [hget, if_pos rfl]
        split_ifs with hnew
        · rfl
        · rw [h.names r] at hnew ⊢
          split_ifs at hnew ⊢ with hvalid
          · rfl
          · exact absurd (Or.inr ((get_valid hvalid).1.trans hname)) hnew
      · have hget : get (processDef map time d) r = get map r :=
          get_of_renamed_ne (processDef_of_ne hr)
            (congrArg RenameData.lastDefTime (processDef_of_ne hname))
        rw [hget, ← h.names r, if_neg]
        rintro (heq | heq)
        · exact hr heq
        · rw [h.names r] at heq
          split_ifs at heq with hvalid
          · exact hr heq
          · exact hname ((get_valid hvalid).1.symm.trans heq)
  · -- No name has to do with a hard register.
    have hsame : processDef map time d = map := by
      rw [processDef, Bool.eq_false_iff.mpr hd]
      rfl
    have hnames : names.define d = names := by
      funext r
      unfold Names.define
      rw [h.names r]
      split_ifs with hvalid heq heq
      · rfl
      · rfl
      · have hvregs := h.vregs r (get_valid hvalid).2.1
        rcases heq with rfl | heq
        · exact absurd hvregs.1 hd
        · rw [← heq, (get_valid hvalid).1] at hd
          exact absurd hvregs.2 hd
      · rfl
    rw [hsame, hnames]
    exact h

theorem Tracks.use (h : Tracks map time names) (opcode : MachineOpcode) (i : Nat)
    (reg : MachineReg) : renameUseIfMapped tables map opcode i reg =
      names.use tables opcode i reg := by
  unfold renameUseIfMapped Names.use
  rw [h.names reg]
  split_ifs with hnarrow hvreg hget hget
  · rfl
  · rfl
  · have hvregs := h.vregs reg (get_valid hget).2.1
    simp [hvregs.1] at hvreg
  · simp [*]
  · simp [*]

/-- An operand with another register than before has nothing to do with the
    early clobbers of its instruction. -/
def Unclobbered (insn insn' : MachineInsn) : Prop :=
  List.Forall₂ (fun o o' => o'.2 ≠ o.2 → ∀ e ∈ insn.operands, isEarlyClobber e = true →
    e.2 ≠ o.2 ∧ e.2 ≠ o'.2) insn.operands insn'.operands

theorem Tracks.operands (insn : MachineInsn) (operands : List Operand) (i : Nat)
    (map : RenameCopyUsesMap) (names : Names) (h : Tracks map time names) :
    let r := processOperands tables insn.opcode time i operands map
    Tracks r.1 time (names.operands operands) ∧ (UsesApart tables insn names i operands ↔
      List.Forall₂ (fun o o' => o'.2 ≠ o.2 → ∀ e ∈ insn.operands, isEarlyClobber e = true →
        e.2 ≠ o.2 ∧ e.2 ≠ o'.2) operands r.2) := by
  induction operands generalizing i map names with
  | nil => exact ⟨h, iff_of_true trivial .nil⟩
  | cons o operands ih =>
    rw [processOperands, UsesApart, Names.operands]
    split_ifs with hdef
    · rcases ih (i + 1) _ _ (h.define o.2) with ⟨htracks, hiff⟩
      refine ⟨htracks, hiff.trans ?_⟩
      rw [forall₂_cons]
      exact (and_iff_right fun hne => absurd rfl hne).symm
    · rcases ih (i + 1) _ _ h with ⟨htracks, hiff⟩
      refine ⟨htracks, ?_⟩
      rw [forall₂_cons, h.use tables insn.opcode i o.2]
      exact and_congr_right fun _ => hiff

theorem Tracks.rename_src (h : Tracks map time names) {dst src : MachineReg}
    (hdst : dst.isVReg = true) (hsrc : src.isVReg = true) :
    Tracks (update map src { map src with renamed := dst, renamingTime := time }) (time + 1)
      (update names src dst) := by
  have hlast : ∀ r, (update map src
      { map src with renamed := dst, renamingTime := time } r).lastDefTime =
        (map r).lastDefTime := by
    intro r
    by_cases hr : r = src
    · rw [hr, update_self]
    · rw [update_of_ne hr]
  refine ⟨fun r hr => ?_, fun r hr => ?_, fun r => ?_, fun r => ?_⟩
  · by_cases hrs : r = src
    · rw [hrs, update_self]
      exact ⟨hsrc, hdst⟩
    · rw [update_of_ne hrs] at hr ⊢
      exact h.vregs r hr
  · by_cases hrs : r = src
    · rw [hrs, update_self]
      exact Nat.lt_succ_self time
    · rw [update_of_ne hrs] at hr ⊢
      exact Nat.lt_succ_of_lt (h.before r hr)
  · rw [hlast]
    exact Nat.le_succ_of_le (h.lastDef r)
  · by_cases hr : r = src
    · have hget : get (update map src { map src with renamed := dst, renamingTime := time }) src =
          dst := by
        unfold get
        dsimp only
        rw [hlast, update_self, if_neg (ne_invalid_of_isVReg hdst),
          if_neg (Nat.not_lt.mpr (h.lastDef dst))]
      rw [hr, hget, if_neg (ne_invalid_of_isVReg hdst), update_self]
    · rw [update_of_ne hr, h.names r, get_of_renamed_ne (update_of_ne hr _ _) (hlast _)]

theorem Tracks.rename_dst (h : Tracks map time names) {dst src : MachineReg}
    (hdst : dst.isVReg = true) (hsrc : src.isVReg = true) (hnew : ∀ r ≠ dst, names r ≠ dst) :
    Tracks (update map dst ⟨src, time, time⟩) (time + 1) (update names dst src) := by
  refine ⟨fun r hr => ?_, fun r hr => ?_, fun r => ?_, fun r => ?_⟩
  · by_cases hrd : r = dst
    · rw [hrd, update_self]
      exact ⟨hdst, hsrc⟩
    · rw [update_of_ne hrd] at hr ⊢
      exact h.vregs r hr
  · by_cases hrd : r = dst
    · rw [hrd, update_self]
      exact Nat.lt_succ_self time
    · rw [update_of_ne hrd] at hr ⊢
      exact Nat.lt_succ_of_lt (h.before r hr)
  · by_cases hr : r = dst
    · rw [hr, update_self]
      exact Nat.le_succ time
    · rw [update_of_ne hr]
      exact Nat.le_succ_of_le (h.lastDef r)
  · by_cases hr : r = dst
    · have hlast : (update map dst ⟨src, time, time⟩ src).lastDefTime ≤ time := by
        by_cases hsd : src = dst
        · rw [hsd, update_self]
        · rw [update_of_ne hsd]
          exact h.lastDef src
      have hget : get (update map dst ⟨src, time, time⟩) dst = src := by
        unfold get
        dsimp only
        rw [update_self, if_neg (ne_invalid_of_isVReg hsrc), if_neg (Nat.not_lt.mpr hlast)]
      rw [hr, hget, if_neg (ne_invalid_of_isVReg hsrc), update_self]
    · rw [update_of_ne hr]
      by_cases hname : (map r).renamed = dst
      · -- The name is out of date by now, and was before the copy.
        have hold : get map r = kInvalidMachineReg := by
          by_contra hvalid
          refine hnew r hr ?_
          rw [h.names r, if_neg hvalid, (get_valid hvalid).1, hname]
        have hget : get (update map dst ⟨src, time, time⟩) r = kInvalidMachineReg := by
          unfold get
          dsimp only
          rw [update_of_ne hr, hname, update_self, if_neg (ne_invalid_of_isVReg hdst), if_pos]
          refine h.before r ?_
          rw [hname]
          exact ne_invalid_of_isVReg hdst
        rw [hget, if_pos rfl, h.names r, if_pos hold]
      · rw [h.names r, get_of_renamed_ne (update_of_ne hr _ _)]
        rw [update_of_ne hname]

theorem operands_of_isCopy {insn : MachineInsn} (h : isCopy insn = true) :
    ∃ size k k' dst src, insn.opcode = .pseudoCopy size ∧
      insn.operands = [(k, dst), (k', src)] ∧ k.access = .def_ ∧ k'.access = .use := by
  have hop : ∃ size, insn.opcode = .pseudoCopy size := by
    unfold isCopy at h
    split at h
    · exact ⟨_, ‹_›⟩
    · cases h
  rcases hop with ⟨size, hop⟩
  have hacc := MachineInsn.access_operands (by rw [hop]; rfl)
  rcases hops : insn.operands with _ | ⟨⟨k, dst⟩, _ | ⟨⟨k', src⟩, _ | ⟨z, rest⟩⟩⟩
  · simp [hops] at hacc
  · simp [hops] at hacc
  · simp only [hops, map_cons, map_nil, List.cons.injEq, and_true] at hacc
    exact ⟨size, k, k', dst, src, hop, rfl, hacc.1, hacc.2⟩
  · simp [hops] at hacc

theorem Tracks.insn (h : Tracks map time names) (liveOut : List MachineReg) (insn : MachineInsn) :
    Tracks (renameInsn tables map time liveOut insn).1 (time + 1)
      (names.insn tables liveOut insn) := by
  have htracks := (Tracks.operands tables insn insn.operands 0 map names h).1
  have htick : Tracks (processOperands tables insn.opcode time 0 insn.operands map).1 (time + 1)
      (names.operands insn.operands) :=
    ⟨htracks.vregs, fun r hr => Nat.lt_succ_of_lt (htracks.before r hr),
      fun r => Nat.le_succ_of_le (htracks.lastDef r), htracks.names⟩
  unfold renameInsn Names.insn
  dsimp only
  by_cases hcopy : isCopy insn = true
  · have hcopy' : isCopy (renamedInsn tables map time insn) = true := hcopy
    rcases operands_of_isCopy hcopy with ⟨size, k, k', dst, src, hop, hops, hdef, huse⟩
    have hkdef : k.isDef = true := by rw [MachineRegKind.isDef, hdef]
    have hkuse : k'.isDef = false := by rw [MachineRegKind.isDef, huse]
    have hnames : names.operands insn.operands = names.define dst := by
      rw [hops]
      simp only [Names.operands, hkdef, hkuse, if_true, Bool.false_eq_true, if_false]
    have hren : (renamedInsn tables map time insn).operands =
        [(k, dst), (k', (names.define dst).use tables insn.opcode 1 src)] := by
      show (processOperands tables insn.opcode time 0 insn.operands map).2 = _
      rw [hops]
      simp only [processOperands, hkdef, hkuse, if_true, Bool.false_eq_true, if_false]
      rw [(h.define dst).use tables insn.opcode]
    rw [hnames, hops] at htracks htick
    rw [hnames, if_pos hcopy', hcopy, processCopy, MachineInsn.regAt, MachineInsn.regAt, hren]
    unfold MachineInsn.regAt
    rw [hops]
    simp only [getElem?_cons_zero, getElem?_cons_succ, Option.map_some, Option.getD_some,
      Bool.true_and]
    generalize (names.define dst).use tables insn.opcode 1 src = source
    by_cases hvregs : dst.isVReg = true ∧ source.isVReg = true
    · rw [hvregs.1, hvregs.2]
      simp only [Bool.not_true, Bool.or_false, Bool.false_eq_true, if_false, Bool.and_true, if_true]
      split_ifs
      · exact htracks.rename_src hvregs.1 hvregs.2
      · refine htracks.rename_dst hvregs.1 hvregs.2 fun r hr hname => ?_
        unfold Names.define at hname
        split_ifs at hname with hold
        · exact hr hname
        · exact hold (Or.inr hname)
    · rw [if_pos (by grind), if_neg (by grind)]
      exact htick
  · have hcopy' : ¬ isCopy (renamedInsn tables map time insn) = true := hcopy
    rw [if_neg hcopy', if_neg (by simp [hcopy])]
    exact htick

end

/-! ### Renamed instructions -/

section

variable {σ V : Type} {M : Meaning σ V} {map : RenameCopyUsesMap} {time : Nat} {names : Names}

/-- A register has the value of its name. -/
def Same (names : Names) (regs : MachineReg → V) : Prop := ∀ r, regs (names r) = regs r

theorem Same.use {regs : MachineReg → V} (h : Same names regs) (opcode : MachineOpcode) (i : Nat)
    (reg : MachineReg) : regs (names.use tables opcode i reg) = regs reg := by
  unfold Names.use
  split_ifs
  · rfl
  · exact h reg

theorem Same.define {regs : MachineReg → V} (h : Same names regs) (d : MachineReg) :
    Same (names.define d) regs := by
  intro r
  unfold Names.define
  split_ifs
  · rfl
  · exact h r

def Renamed (regs : MachineReg → V) (o o' : Operand) : Prop :=
  o'.1 = o.1 ∧ (o.1.isDef = true → o'.2 = o.2) ∧ regs o'.2 = regs o.2

/-- One operand after another: renamed uses have the values of the registers that they replace. -/
theorem processOperands_spec {regs : MachineReg → V} (opcode : MachineOpcode)
    (operands : List Operand) (i : Nat) (map : RenameCopyUsesMap) (names : Names)
    (h : Tracks map time names) (hsame : Same names regs) : List.Forall₂ (Renamed regs) operands
      (processOperands tables opcode time i operands map).2 := by
  induction operands generalizing i map names with
  | nil => exact .nil
  | cons operand operands ih =>
    rw [processOperands]
    split_ifs with hdef
    · exact .cons ⟨rfl, fun _ => rfl, rfl⟩
        (ih (i + 1) _ _ (h.define operand.2) (hsame.define operand.2))
    · refine .cons ⟨rfl, fun hodef => absurd hodef hdef, ?_⟩ (ih (i + 1) map names h hsame)
      rw [h.use tables]
      exact hsame.use tables opcode i operand.2

/-- A name that is left after the operands has no part in the definitions. -/
theorem names_operands (operands : List Operand) (names : Names) (r : MachineReg)
    (hr : names.operands operands r ≠ r) : names.operands operands r = names r ∧
      ∀ o ∈ operands, o.1.isDef = true → o.2 ≠ r ∧ o.2 ≠ names r := by
  induction operands generalizing names with
  | nil => exact ⟨rfl, fun o ho => absurd ho not_mem_nil⟩
  | cons o operands ih =>
    rw [Names.operands] at hr ⊢
    rcases ih _ hr with ⟨heq, hrest⟩
    by_cases hdef : o.1.isDef = true
    · rw [if_pos hdef] at heq hrest hr ⊢
      have hkept : ¬ (r = o.2 ∨ names r = o.2) := by
        intro hor
        rw [heq, Names.define, if_pos hor] at hr
        exact hr rfl
      rw [Names.define, if_neg hkept] at heq hrest
      rw [not_or] at hkept
      refine ⟨heq, fun o' ho' hdef' => ?_⟩
      rcases mem_cons.mp ho' with rfl | ho'
      · exact ⟨Ne.symm hkept.1, Ne.symm hkept.2⟩
      · exact hrest o' ho' hdef'
    · rw [if_neg hdef] at heq hrest ⊢
      refine ⟨heq, fun o' ho' hdef' => ?_⟩
      rcases mem_cons.mp ho' with rfl | ho'
      · exact absurd hdef' hdef
      · exact hrest o' ho' hdef'

theorem sameOperands_of_renamed {regs : MachineReg → V} {operands operands' : List Operand}
    (h : List.Forall₂ (Renamed regs) operands operands') : SameOperands operands operands' :=
  h.imp fun _ _ ho => ⟨ho.1, ho.2.1⟩

variable {s : State σ V} {insn : MachineInsn}

section

variable (h : Tracks map time names) (hsame : Same names s.regs)
  (hunclobbered : Unclobbered insn (renamedInsn tables map time insn))
include h hsame hunclobbered

theorem reads_renamedInsn :
    reads M (renamedInsn tables map time insn) s = reads M insn s := by
  have hren := processOperands_spec tables insn.opcode insn.operands 0 map names h hsame
  have hclob : clobbered M (renamedInsn tables map time insn) s = clobbered M insn s :=
    clobbered_congr (renamedInsn_opcode tables map time insn) (sameOperands_of_renamed hren) s
  unfold reads MachineInsn.inputs
  rw [hclob]
  refine map_inputs_congr (List.Forall₂.mp (fun o o' ho hne => ⟨ho.1, fun _ => ?_⟩)
    hren hunclobbered)
  by_cases heq : o'.2 = o.2
  · rw [heq]
  · rw [clobbered_of_notMem fun e he hearly => (hne heq e he hearly).1,
      clobbered_of_notMem fun e he hearly => (hne heq e he hearly).2]
    exact ho.2.2

theorem step_renamedInsn : step M (renamedInsn tables map time insn) s = step M insn s :=
  step_of_sameOperands (renamedInsn_opcode tables map time insn)
    (sameOperands_of_renamed
      (processOperands_spec tables insn.opcode insn.operands 0 map names h hsame))
    (reads_renamedInsn tables h hsame hunclobbered)

end

theorem step_copy (h : isCopy insn = true) (s : State σ V) :
    (step M insn s).regs (insn.regAt 0) = (step M insn s).regs (insn.regAt 1) := by
  rcases operands_of_isCopy h with ⟨size, k, k', dst, src, hop, hops, hdef, huse⟩
  have hdst : insn.regAt 0 = dst := by
    unfold MachineInsn.regAt
    rw [hops]
    rfl
  have hsrc : insn.regAt 1 = src := by
    unfold MachineInsn.regAt
    rw [hops]
    rfl
  have hclob : clobbered M insn s = s.regs := by
    unfold clobbered
    simp [hops, writeOperands, isEarlyClobber, hdef, huse]
  have hreads : reads M insn s = [s.regs src] := by
    unfold reads MachineInsn.inputs
    rw [hclob, hops]
    simp [MachineRegKind.isInput, hdef, huse]
  have hregs : (step M insn s).regs = update s.regs dst (s.regs src) := by
    unfold step
    rw [hreads, hclob, hops, hop]
    simp [writeOperands, MachineRegKind.isDef, hdef, huse, M.copy]
  rw [hdst, hsrc, hregs, update_self]
  by_cases heq : src = dst
  · rw [heq, update_self]
  · rw [update_of_ne heq]

theorem Same.after (hsame : Same names s.regs) (liveOut : List MachineReg) (insn : MachineInsn) :
    Same (names.insn tables liveOut insn) (step M insn s).regs := by
  have hnext : Same (names.operands insn.operands) (step M insn s).regs := by
    intro r
    by_cases hr : names.operands insn.operands r = r
    · rw [hr]
    · rcases names_operands insn.operands names r hr with ⟨heq, hdefs⟩
      rw [heq, step_regs fun o ho hdef => (hdefs o ho hdef).2,
        step_regs fun o ho hdef => (hdefs o ho hdef).1]
      exact hsame r
  unfold Names.insn
  dsimp only
  split_ifs with hcopy hlive
  all_goals first | exact hnext | skip
  all_goals
    simp only [Bool.and_eq_true] at hcopy
    have hval := step_copy (M := M) hcopy.1.1 s
    rw [← hnext.use tables insn.opcode 1 (insn.regAt 1)] at hval
    intro r
  · by_cases hr : r = (names.operands insn.operands).use tables insn.opcode 1 (insn.regAt 1)
    · rw [hr, update_self]
      exact hval
    · rw [update_of_ne hr]
      exact hnext r
  · by_cases hr : r = insn.regAt 0
    · rw [hr, update_self]
      exact hval.symm
    · rw [update_of_ne hr]
      exact hnext r

def AllUnclobbered (insns insns' : List InsnNode) : Prop :=
  List.Forall₂ (fun n n' => Unclobbered n.insn n'.insn) insns insns'

theorem renameInsns_preserves (liveOut : List MachineReg) (insns : List InsnNode) (time : Nat)
    (map : RenameCopyUsesMap) (names : Names) (s : State σ V) (h : Tracks map time names)
    (hsame : Same names s.regs)
    (hunclobbered : AllUnclobbered insns (renameInsns tables liveOut time map insns)) :
    readsOf M (renameInsns tables liveOut time map insns) s = readsOf M insns s ∧
      run M (renameInsns tables liveOut time map insns) s = run M insns s := by
  induction insns generalizing time map names s with
  | nil => exact ⟨rfl, rfl⟩
  | cons n insns ih =>
    rw [renameInsns] at hunclobbered ⊢
    rcases forall₂_cons.mp hunclobbered with ⟨hhead, htail⟩
    have hstep : step M (renameInsn tables map time liveOut n.insn).2 s = step M n.insn s :=
      step_renamedInsn tables h hsame hhead
    rcases ih _ _ _ _ (h.insn tables liveOut n.insn) (hsame.after tables liveOut n.insn) htail
      with ⟨hreads, hrun⟩
    constructor
    · rw [readsOf, readsOf, hstep, hreads]
      exact congrArg (· :: _) (reads_renamedInsn tables h hsame hhead)
    · unfold run at hrun ⊢
      rw [foldl_cons, foldl_cons, hstep]
      exact hrun

/-- The condition on the block before the pass is that on the renamed block. -/
theorem clobbersApart_iff (liveOut : List MachineReg) (insns : List InsnNode) (time : Nat)
    (map : RenameCopyUsesMap) (names : Names) (h : Tracks map time names) :
    ClobbersApart tables liveOut names insns ↔
      AllUnclobbered insns (renameInsns tables liveOut time map insns) := by
  induction insns generalizing time map names with
  | nil => exact iff_of_true trivial .nil
  | cons n insns ih =>
    rw [ClobbersApart, renameInsns, AllUnclobbered, forall₂_cons]
    exact and_congr (Tracks.operands tables n.insn n.insn.operands 0 map names h).2
      (ih _ _ _ (h.insn tables liveOut n.insn))

end

/-! ### Clobbered uses are noticed -/

section

variable {map : RenameCopyUsesMap} {time : Nat} {names : Names}

/-- All registers hold `false`, until early clobbers leave these values after
    so many instructions. -/
def clobberingMeaning (values : Nat → Bool) : Meaning Nat Bool where
  clobber _ k i := k == 0 && values i
  exec opcode k inputs :=
    (k - 1, fun _ => match opcode with
      | .pseudoCopy _ => inputs.headD false
      | _ => false)
  copy _ _ _ _ := rfl

def allFalse : MachineReg → Bool := fun _ => false

theorem writeOperands_false {chosen : Operand → Bool} {values : Nat → Bool}
    (hvals : ∀ i, values i = false) (operands : List Operand) (i : Nat) :
    writeOperands chosen values i operands allFalse = allFalse := by
  induction operands generalizing i with
  | nil => rfl
  | cons operand operands ih =>
    have hupd : (if chosen operand then update allFalse operand.2 (values i)
        else allFalse) = allFalse := by
      split_ifs
      · rw [hvals]
        exact update_eq_self operand.2 allFalse
      · rfl
    rw [writeOperands, hupd]
    exact ih (i + 1)

theorem step_clobberingMeaning (values : Nat → Bool) (insn : MachineInsn) (k : Nat) :
    step (clobberingMeaning values) insn ⟨k + 1, allFalse⟩ = ⟨k, allFalse⟩ := by
  have hclob : clobbered (clobberingMeaning values) insn ⟨k + 1, allFalse⟩ = allFalse :=
    writeOperands_false (fun _ => rfl) insn.operands 0
  have hreads : ∀ v ∈ reads (clobberingMeaning values) insn ⟨k + 1, allFalse⟩, v = false := by
    intro v hv
    unfold reads at hv
    rw [hclob] at hv
    rcases mem_map.mp hv with ⟨_, _, rfl⟩
    rfl
  have hres : ∀ i, ((clobberingMeaning values).exec insn.opcode (k + 1)
      (reads (clobberingMeaning values) insn ⟨k + 1, allFalse⟩)).2 i = false := by
    intro i
    change (match insn.opcode with
      | .pseudoCopy _ => (reads (clobberingMeaning values) insn ⟨k + 1, allFalse⟩).headD false
      | _ => false) = false
    split
    · cases hlist : reads (clobberingMeaning values) insn ⟨k + 1, allFalse⟩ with
      | nil => rfl
      | cons v vs =>
        refine hreads v ?_
        rw [hlist]
        exact mem_cons_self
    · rfl
  unfold step
  dsimp only
  rw [hclob, writeOperands_false hres]
  rfl

theorem writeOperands_single {chosen : Operand → Bool} {values : Nat → Bool} {t : MachineReg}
    (operands : List Operand) (i : Nat) (regs : MachineReg → Bool)
    (hvals : ∀ j o, operands[j]? = some o → values (i + j) = decide (o.2 = t))
    (hregs : ∀ r, regs r = true → r = t)
    (hwrit : (∃ o ∈ operands, chosen o = true ∧ o.2 = t) ∨ regs t = true) (r : MachineReg) :
    writeOperands chosen values i operands regs r = decide (r = t) := by
  induction operands generalizing i regs with
  | nil =>
    rw [writeOperands]
    rcases hwrit with ⟨o, ho, _⟩ | htrue
    · exact absurd ho not_mem_nil
    · by_cases hr : r = t
      · rw [hr, htrue, decide_eq_true rfl]
      · rw [decide_eq_false hr, ← Bool.not_eq_true]
        exact fun h => hr (hregs r h)
  | cons operand operands ih =>
    have hval : values i = decide (operand.2 = t) := hvals 0 operand rfl
    refine ih (i + 1) _ (fun j o hj => ?_) (fun r hr => ?_) ?_
    · rw [← hvals (j + 1) o hj, Nat.add_right_comm]
      rfl
    · split_ifs at hr
      · rw [update_apply, hval] at hr
        split_ifs at hr with hreg
        · rw [hreg]
          exact of_decide_eq_true hr
        · exact hregs r hr
      · exact hregs r hr
    · rcases hwrit with ⟨o, ho, hchos, hreg⟩ | htrue
      · rcases mem_cons.mp ho with rfl | ho
        · refine Or.inr ?_
          rw [if_pos hchos, ← hreg, update_self, hval]
          exact decide_eq_true hreg
        · exact Or.inl ⟨o, ho, hchos, hreg⟩
      · refine Or.inr ?_
        split_ifs
        · rw [update_apply, hval]
          split_ifs with hreg
          · exact decide_eq_true hreg.symm
          · exact htrue
        · exact htrue

theorem input_of_map_inputs {V : Type} {operands operands' : List Operand} {f : MachineReg → V}
    (hkinds : List.Forall₂ (fun o o' => o'.1 = o.1) operands operands')
    (h : ((operands'.filter (·.1.isInput)).map (·.2)).map f =
      ((operands.filter (·.1.isInput)).map (·.2)).map f) :
    List.Forall₂ (fun o o' => o.1.isInput = true → f o'.2 = f o.2) operands operands' := by
  induction hkinds with
  | nil => exact .nil
  | @cons o o' operands operands' ho _ ih =>
    rw [filter_cons, filter_cons, ho] at h
    by_cases hinp : o.1.isInput = true
    · rw [if_pos hinp, if_pos hinp] at h
      simp only [map_cons, List.cons.injEq] at h
      exact .cons (fun _ => h.1) (ih h.2)
    · rw [if_neg hinp, if_neg hinp] at h
      exact .cons (fun hin => absurd hin hinp) (ih h)

theorem isInput_of_not_isDef {k : MachineRegKind} (h : ¬ k.isDef = true) : k.isInput = true := by
  unfold MachineRegKind.isDef at h
  unfold MachineRegKind.isInput
  cases hacc : k.access with
  | use | useDef => rfl
  | def_ | defEarlyClobber =>
    rw [hacc] at h
    exact absurd rfl h

theorem unclobbered_of_reads (htracks : Tracks map time names) {insn : MachineInsn}
    (h : ∀ values, reads (clobberingMeaning values) (renamedInsn tables map time insn)
      ⟨0, allFalse⟩ = reads (clobberingMeaning values) insn ⟨0, allFalse⟩) :
    Unclobbered insn (renamedInsn tables map time insn) := by
  have hren := processOperands_spec tables insn.opcode insn.operands 0 map names htracks
    (show Same names allFalse from fun _ => rfl)
  have hsame := sameOperands_of_renamed hren
  -- For each early clobber, a meaning that leaves `true` in its register only.
  have hread : ∀ e ∈ insn.operands, isEarlyClobber e = true →
      List.Forall₂ (fun o o' => o.1.isInput = true → decide (o'.2 = e.2) = decide (o.2 = e.2))
        insn.operands (renamedInsn tables map time insn).operands := by
    intro e he hearly
    have hvals := h fun i => decide (insn.operands[i]?.map (·.2) = some e.2)
    have hclob : clobbered (clobberingMeaning fun i =>
        decide (insn.operands[i]?.map (·.2) = some e.2)) insn ⟨0, allFalse⟩ =
          fun r => decide (r = e.2) := by
      funext r
      refine writeOperands_single insn.operands 0 allFalse (fun j o hj => ?_)
        (fun r hr => absurd hr Bool.false_ne_true) (Or.inl ⟨e, he, hearly, rfl⟩) r
      change (true && decide (insn.operands[0 + j]?.map (·.2) = some e.2)) = decide (o.2 = e.2)
      rw [Nat.zero_add, hj, Bool.true_and]
      simp
    unfold reads at hvals
    rw [clobbered_congr (renamedInsn_opcode tables map time insn) hsame, hclob] at hvals
    exact input_of_map_inputs (hsame.imp fun _ _ ho => ho.1) hvals
  refine forall₂_iff_get.mpr ⟨hren.length_eq, fun i hi hi' hne e he hearly => ?_⟩
  have hop := (forall₂_iff_get.mp hsame).2 i hi hi'
  have hdef : ¬ (insn.operands.get ⟨i, hi⟩).1.isDef = true := fun hdef => hne (hop.2 hdef)
  have heq := (forall₂_iff_get.mp (hread e he hearly)).2 i hi hi' (isInput_of_not_isDef hdef)
  rw [decide_eq_decide] at heq
  exact ⟨fun hreg => hne ((heq.mpr hreg.symm).trans hreg),
    fun hreg => hne (hreg.symm.trans (heq.mp hreg.symm).symm)⟩

theorem allUnclobbered_of_reads (liveOut : List MachineReg) (insns : List InsnNode) (time : Nat)
    (map : RenameCopyUsesMap) (names : Names) (htracks : Tracks map time names)
    (h : ∀ values k, readsOf (clobberingMeaning values) (renameInsns tables liveOut time map insns)
      ⟨k, allFalse⟩ = readsOf (clobberingMeaning values) insns ⟨k, allFalse⟩) :
    AllUnclobbered insns (renameInsns tables liveOut time map insns) := by
  induction insns generalizing time map names with
  | nil => exact .nil
  | cons n insns ih =>
    rw [renameInsns] at h ⊢
    simp only [readsOf, List.cons.injEq] at h
    have hhead := unclobbered_of_reads tables htracks fun values => (h values 0).1
    refine .cons hhead (ih _ _ _ (htracks.insn tables liveOut n.insn) fun values k => ?_)
    have htail := (h values (k + 1)).2
    rw [step_clobberingMeaning, step_clobberingMeaning] at htail
    exact htail

end

/-! ### The whole pass -/

theorem renameBlocks_of_notMem (bs : List Nat) (time : Nat) (ir : MachineIR) {b : Nat}
    (hb : b ∉ bs) : (renameBlocks tables bs time ir).bb b = ir.bb b := by
  induction bs generalizing time ir with
  | nil => rfl
  | cons c bs ih =>
    rw [mem_cons, not_or] at hb
    rw [renameBlocks, ih _ _ hb.2]
    unfold MachineIR.setInsnList
    rw [MachineIR.setBb_bb, if_neg hb.1]

theorem renameBlocks_insnList (bs : List Nat) (hnod : bs.Nodup) (time : Nat) (ir : MachineIR)
    {b : Nat} (hb : b ∈ bs) : ∃ time', ((renameBlocks tables bs time ir).bb b).insnList =
      renameInsns tables (ir.bb b).liveOut time' startBasicBlock (ir.bb b).insnList := by
  induction bs generalizing time ir with
  | nil => exact absurd hb not_mem_nil
  | cons c bs ih =>
    rw [nodup_cons] at hnod
    rw [renameBlocks]
    by_cases hbc : b = c
    · refine ⟨time, ?_⟩
      rw [hbc, renameBlocks_of_notMem tables bs _ _ hnod.1, MachineIR.setInsnList_insnList,
        if_pos rfl]
    · rcases ih hnod.2 (time + (ir.bb c).insnList.length) (ir.setInsnList c
        (renameInsns tables (ir.bb c).liveOut time startBasicBlock (ir.bb c).insnList))
        ((mem_cons.mp hb).resolve_left hbc) with ⟨time', hinsns⟩
      refine ⟨time', hinsns.trans ?_⟩
      unfold MachineIR.setInsnList
      rw [MachineIR.setBb_bb, if_neg hbc]

/-- For all values, all instructions of all renamed blocks read what they read
    before, and live-out registers end with the values they had, exactly when
    no use of a block has the name of another register while its instruction
    clobbers one of the two early. -/
theorem renameCopyUses_preserves_iff (ir : MachineIR) (hnodup : ir.bbList.Nodup) :
    (∀ b ∈ ir.bbList, ∀ (σ V : Type) (M : Meaning σ V) (s : State σ V),
      readsOf M ((renameCopyUses tables ir).bb b).insnList s = readsOf M (ir.bb b).insnList s ∧
        ∀ v ∈ (ir.bb b).liveOut, (run M ((renameCopyUses tables ir).bb b).insnList s).regs v =
          (run M (ir.bb b).insnList s).regs v) ↔ ∀ b ∈ ir.bbList,
        ClobbersApart tables (ir.bb b).liveOut id (ir.bb b).insnList := by
  refine forall₂_congr fun b hb => ?_
  rcases renameBlocks_insnList tables ir.bbList hnodup 0 ir hb with ⟨time, hinsns⟩
  unfold renameCopyUses
  rw [hinsns, clobbersApart_iff tables _ _ time _ _ (tracks_startBasicBlock time)]
  have htracks := tracks_startBasicBlock time
  constructor
  · intro h
    exact allUnclobbered_of_reads tables (ir.bb b).liveOut (ir.bb b).insnList time startBasicBlock
      id htracks fun values k => (h Nat Bool (clobberingMeaning values) ⟨k, allFalse⟩).1
  · intro hunclobbered σ V M s
    rcases renameInsns_preserves tables (M := M) (ir.bb b).liveOut (ir.bb b).insnList time
      startBasicBlock id s htracks (fun _ => rfl) hunclobbered with ⟨hreads, hrun⟩
    exact ⟨hreads, fun v _ => by rw [hrun]⟩

def wideTables : OperandTables := ⟨fun _ => false, fun _ _ => 16⟩

def oneBlock (insns : List MachineInsn) (liveOut : MachineReg) : MachineIR where
  bb _ := ⟨insns.mapIdx fun i insn => ⟨i, insn⟩, [], [], [], [liveOut], false⟩
  edge _ := ⟨0, 0⟩
  bbList := [0]
  bbOrder := .unordered
  numBb := 1
  numEdge := 0
  numNode := insns.length
  numVReg := 4

/-- A copy of a copy to a live-out register, whose source is used and then defined in place. -/
def copyChain : MachineIR :=
  oneBlock [newPseudoCopy ⟨1025⟩ ⟨1024⟩ 8, newPseudoCopy ⟨1026⟩ ⟨1025⟩ 8,
    ⟨.other 0, [(⟨8, .useDef⟩, ⟨1027⟩), (⟨8, .use⟩, ⟨1025⟩)], none, rfl⟩,
    ⟨.other 0, [(⟨8, .useDef⟩, ⟨1024⟩), (⟨8, .use⟩, ⟨1025⟩)], none, rfl⟩] ⟨1026⟩

theorem renameCopyUses_preserves_iff_copyChain :
    ((renameCopyUses wideTables copyChain).bb 0).insnList ≠ (copyChain.bb 0).insnList ∧
      ∀ (σ V : Type) (M : Meaning σ V) (s : State σ V),
        readsOf M ((renameCopyUses wideTables copyChain).bb 0).insnList s =
          readsOf M (copyChain.bb 0).insnList s := by
  refine ⟨by decide, fun σ V M s => ?_⟩
  refine ((renameCopyUses_preserves_iff wideTables copyChain (by decide)).mpr ?_ 0 (by decide)
    σ V M s).1
  decide

/-- A division that reads a copy of the register that it clobbers early: operands are used, used and
    defined, and clobbered, as those of the 64-bit division are. -/
def divideCopy : MachineIR :=
  oneBlock [newPseudoCopy ⟨1025⟩ ⟨1024⟩ 8,
    ⟨.other 0, [(⟨8, .use⟩, ⟨1025⟩), (⟨8, .useDef⟩, ⟨1026⟩), (⟨8, .defEarlyClobber⟩, ⟨1024⟩)],
      none, rfl⟩] ⟨1026⟩

/-- The division reads what it leaves in its clobber instead of the copy. -/
theorem renameCopyUses_divideCopy : readsOf (clobberingMeaning (· == 2))
        ((renameCopyUses wideTables divideCopy).bb 0).insnList ⟨1, allFalse⟩ =
      [[false], [true, false]] ∧
      readsOf (clobberingMeaning (· == 2)) (divideCopy.bb 0).insnList ⟨1, allFalse⟩ =
        [[false], [false, false]] := by
  decide

end Berberis.Backend.RenameCopyUses
