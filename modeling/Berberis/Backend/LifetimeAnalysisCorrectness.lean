import Berberis.Backend.LifetimeAnalysisState
import Berberis.Backend.LivenessAnalyzer
import Berberis.Backend.MachineIRCheck

/-!
# What the Allocator Gets

For blocks whose lists of live registers are right, the analysis makes one
lifetime for each virtual register, sorted by begin, with disjoint ranges that
hold all uses. At every tick at which the value of a register is needed, one
of its ranges is there, so registers whose values are needed at one tick
interfere.

## Theorems

* `addInsn_spec`, `addBasicBlock_spec`: One instruction, and one block.
* `collectLifetimes_correct`: The lifetimes are as the allocator needs them.
-/

namespace Berberis.RegAlloc

open Backend List Option

/-! ### What values are needed -/

/-- Before these instructions the value of a register will be read, by one of
    them or after the block. -/
def LiveBefore (liveOut : List MachineReg) (insns : List InsnNode) (v : MachineReg) : Prop :=
  ReadsFirst insns v ∨ (∀ n ∈ insns, v ∉ n.insn.defs) ∧ v ∈ liveOut

/-- A block has instructions, and its lists are right: a register lives into it
    if its value will be read. -/
structure BlockOk (bb : MachineBasicBlock) : Prop where
  insns : bb.insnList ≠ []
  liveOut : ∀ v ∈ bb.liveOut, v.isVReg = true
  liveIn : ∀ v, v ∈ bb.liveIn ↔ v.isVReg = true ∧ LiveBefore bb.liveOut bb.insnList v

/-- The blocks of a graph that passes the check, with the lists of liveness. -/
theorem blockOk_of_liveIn {ir : MachineIR} {b : Nat} (hcheck : ir.checkMachineIR = .success)
    (hb : b ∈ ir.bbList)
    (hin : ∀ v, v ∈ (ir.bb b).liveIn ↔ v.isVReg = true ∧ LiveIn ir v b)
    (hout : ∀ v, v ∈ (ir.bb b).liveOut ↔ v.isVReg = true ∧ ∃ d ∈ ir.succs b, LiveIn ir v d) :
    BlockOk (ir.bb b) := by
  have hinsns : (ir.bb b).insnList ≠ [] := by
    rcases (MachineIR.checked_of_success hcheck hb).terminator with ⟨pre, last, hlist, _⟩
    rw [hlist]
    exact append_ne_nil_of_right_ne_nil pre (cons_ne_nil last [])
  refine ⟨hinsns, fun v hv => ((hout v).mp hv).1, fun v => ?_⟩
  rw [hin, LivenessAnalyzer.liveIn_iff]
  refine and_congr_right fun hv => or_congr Iff.rfl ?_
  constructor
  · rintro ⟨d, ⟨hdefs, hd⟩, hlive⟩
    exact ⟨hdefs, (hout v).mpr ⟨hv, d, hd, hlive⟩⟩
  · rintro ⟨hdefs, hmem⟩
    rcases ((hout v).mp hmem).2 with ⟨d, hd, hlive⟩
    exact ⟨d, ⟨hdefs, hd⟩, hlive⟩

variable {v : MachineReg}

theorem liveBefore_cons_iff {liveOut : List MachineReg} {n : InsnNode} {insns : List InsnNode} :
    LiveBefore liveOut (n :: insns) v ↔
      v ∈ n.insn.inputs ∨ (v ∉ n.insn.defs ∧ LiveBefore liveOut insns v) := by
  unfold LiveBefore
  rw [LivenessAnalyzer.readsFirst_cons_iff, forall_mem_cons]
  tauto

theorem liveBefore_nil_iff {liveOut : List MachineReg} : LiveBefore liveOut [] v ↔ v ∈ liveOut := by
  have hnone : ¬ ReadsFirst [] v := by
    rintro ⟨before, n, after, heq, _⟩
    exact absurd heq.symm (append_ne_nil_of_right_ne_nil _ (cons_ne_nil _ _))
  unfold LiveBefore
  simp [hnone]

/-- The tick at which the instructions after these blocks begin. -/
def startTick (bbs : List MachineBasicBlock) : Int :=
  2 * ((bbs.map (·.insnList.length)).sum : Nat)

/-- At a tick the value that a register has then will be read, within the block or after it. The
    first tick of an instruction is before its reads, and the second one is after its writes. -/
def Needed (bbs : List MachineBasicBlock) (v : MachineReg) (k : Int) : Prop :=
  ∃ before bb after insns n rest, bbs = before ++ bb :: after ∧ bb.insnList = insns ++ n :: rest ∧
    ((k = startTick before + 2 * insns.length ∧ LiveBefore bb.liveOut (n :: rest) v) ∨
      (k = startTick before + 2 * insns.length + 1 ∧ LiveBefore bb.liveOut rest v))

theorem startTick_append (bbs bbs' : List MachineBasicBlock) :
    startTick (bbs ++ bbs') = startTick bbs + startTick bbs' := by
  unfold startTick
  rw [map_append, sum_append]
  omega

theorem startTick_cons (bb : MachineBasicBlock) (bbs : List MachineBasicBlock) :
    startTick (bb :: bbs) = 2 * bb.insnList.length + startTick bbs := by
  unfold startTick
  rw [map_cons, sum_cons]
  omega

theorem startTick_nonneg (bbs : List MachineBasicBlock) : 0 ≤ startTick bbs := by
  unfold startTick
  omega

theorem position_unique {before before' after after' : List MachineBasicBlock}
    {bb bb' : MachineBasicBlock} {insns insns' rest rest' : List InsnNode} {n n' : InsnNode}
    (h : before ++ bb :: after = before' ++ bb' :: after') (hbb : bb.insnList = insns ++ n :: rest)
    (hbb' : bb'.insnList = insns' ++ n' :: rest')
    (htick : startTick before + 2 * insns.length = startTick before' + 2 * insns'.length) :
    bb = bb' ∧ n = n' ∧ rest = rest' := by
  have hlen : insns.length < bb.insnList.length := by
    rw [hbb, length_append, length_cons]
    omega
  have hlen' : insns'.length < bb'.insnList.length := by
    rw [hbb', length_append, length_cons]
    omega
  have hsame : before = before' ∧ bb = bb' := by
    rcases append_eq_append_iff.mp h with ⟨mid, hbef, hmid⟩ | ⟨mid, hbef, hmid⟩
    · rcases mid with _ | ⟨c, mid⟩
      · rw [nil_append, List.cons.injEq] at hmid
        rw [append_nil] at hbef
        exact ⟨hbef.symm, hmid.1⟩
      · rw [cons_append, List.cons.injEq] at hmid
        rw [hbef, startTick_append, ← hmid.1, startTick_cons] at htick
        have hnon := startTick_nonneg mid
        omega
    · rcases mid with _ | ⟨c, mid⟩
      · rw [nil_append, List.cons.injEq] at hmid
        rw [append_nil] at hbef
        exact ⟨hbef, hmid.1.symm⟩
      · rw [cons_append, List.cons.injEq] at hmid
        rw [hbef, startTick_append, ← hmid.1, startTick_cons] at htick
        have hnon := startTick_nonneg mid
        omega
  rcases hsame with ⟨rfl, rfl⟩
  rw [hbb] at hbb'
  rcases append_inj hbb' (by omega) with ⟨_, hcons⟩
  rw [List.cons.injEq] at hcons
  exact ⟨rfl, hcons.1, hcons.2⟩

section

variable {before after : List MachineBasicBlock} {bb : MachineBasicBlock}
  {insns rest : List InsnNode} {n : InsnNode} {v : MachineReg}

theorem needed_read (hbb : bb.insnList = insns ++ n :: rest)
    (h : Needed (before ++ bb :: after) v (startTick before + 2 * insns.length)) :
    LiveBefore bb.liveOut (n :: rest) v := by
  rcases h with ⟨before', bb', after', insns', n', rest', heq, hbb', ⟨hk, hlive⟩ | ⟨hk, _⟩⟩
  · rcases position_unique heq hbb hbb' hk with ⟨rfl, rfl, rfl⟩
    exact hlive
  · unfold startTick at hk
    omega

theorem needed_write (hbb : bb.insnList = insns ++ n :: rest)
    (h : Needed (before ++ bb :: after) v (startTick before + 2 * insns.length + 1)) :
    LiveBefore bb.liveOut rest v := by
  rcases h with ⟨before', bb', after', insns', n', rest', heq, hbb', ⟨hk, _⟩ | ⟨hk, hlive⟩⟩
  · unfold startTick at hk
    omega
  · rcases position_unique heq hbb hbb' (by omega) with ⟨rfl, rfl, rfl⟩
    exact hlive

end

theorem needed_bounds {bbs : List MachineBasicBlock} {k : Int} (h : Needed bbs v k) :
    0 ≤ k ∧ k < startTick bbs := by
  rcases h with ⟨before, bb, after, insns, n, rest, rfl, hbb, hk⟩
  have hnon := startTick_nonneg before
  have hnon' := startTick_nonneg after
  rw [startTick_append, startTick_cons, hbb, length_append, length_cons]
  omega

/-! ### Accesses -/

open VRegLifetimeAnalysis

def insnAccesses (classes : OperandClasses) (n : InsnNode) (tick : Int) : List VRegAccess :=
  usedAccesses classes n tick ++ definedAccesses classes n tick

def accessesFrom (classes : OperandClasses) : Int → List InsnNode → List VRegAccess
  | _, [] => []
  | tick, n :: insns => insnAccesses classes n tick ++ accessesFrom classes (tick + 2) insns

theorem accessesFrom_append (classes : OperandClasses) (insns insns' : List InsnNode)
    (tick : Int) : accessesFrom classes tick (insns ++ insns') = accessesFrom classes tick insns ++
        accessesFrom classes (tick + 2 * insns.length) insns' := by
  induction insns generalizing tick with
  | nil =>
    rw [nil_append, accessesFrom, nil_append, length_nil]
    congr 1
    omega
  | cons n insns ih =>
    rw [cons_append, accessesFrom, accessesFrom, ih, append_assoc, length_cons]
    congr 3
    omega

section

variable {classes : OperandClasses} {n : InsnNode} {v : MachineReg} {tick : Int}

variable {a : VRegAccess}

theorem mem_accesses_iff {used : Bool} {b : Int} {e : MachineRegKind → Int} :
    a ∈ accesses classes n used b e ↔ ∃ o i, n.insn.operands[i]? = some o ∧
      o.2.isVReg = true ∧ o.1.isUse = used ∧
      a = ⟨o.1, o.2, ⟨n.pos, i, b, e o.1, classes n.insn.opcode i⟩⟩ := by
  unfold accesses
  simp only [List.mem_map, List.mem_filter, Bool.and_eq_true, beq_iff_eq]
  constructor
  · rintro ⟨⟨o, i⟩, ⟨hmem, hv, hused⟩, rfl⟩
    exact ⟨o, i, mem_zipIdx_iff_getElem?.mp hmem, hv, hused, rfl⟩
  · rintro ⟨o, i, hget, hv, hused, rfl⟩
    exact ⟨(o, i), ⟨mem_zipIdx_iff_getElem?.mpr hget, hv, hused⟩, rfl⟩

theorem isVReg_of_mem_insnAccesses (h : a ∈ insnAccesses classes n tick) : a.reg.isVReg = true := by
  rcases mem_append.mp h with h | h
  · rcases mem_accesses_iff.mp h with ⟨o, i, _, hv, _, rfl⟩
    exact hv
  · rcases mem_accesses_iff.mp h with ⟨o, i, _, hv, _, rfl⟩
    exact hv

variable (classes) in
theorem exists_access {o : MachineRegKind × MachineReg} (ho : o ∈ n.insn.operands)
    (hv : o.2.isVReg = true) (b : Int) (e : MachineRegKind → Int) :
    ∃ a ∈ accesses classes n o.1.isUse b e, a.reg = o.2 := by
  rcases mem_iff_getElem?.mp ho with ⟨i, hi⟩
  exact ⟨_, mem_accesses_iff.mpr ⟨o, i, hi, hv, rfl, rfl⟩, rfl⟩

theorem isUse_of_isInput {k : MachineRegKind} (h : k.isInput = true) : k.isUse = true := by
  unfold MachineRegKind.isInput at h
  unfold MachineRegKind.isUse
  cases hacc : k.access with
  | def_ =>
    rw [hacc] at h
    cases h
  | use | useDef | defEarlyClobber => rfl

theorem isDef_of_not_isUse {k : MachineRegKind} (h : k.isUse = false) : k.isDef = true := by
  unfold MachineRegKind.isUse at h
  unfold MachineRegKind.isDef
  cases hacc : k.access with
  | def_ | useDef | defEarlyClobber => rfl
  | use =>
    rw [hacc] at h
    cases h

theorem insnAccesses_of_reg (classes : OperandClasses) (n : InsnNode) (v : MachineReg)
    (tick : Int) : InsnAccesses tick ((usedAccesses classes n tick).filter (·.reg = v))
      ((definedAccesses classes n tick).filter (·.reg = v)) := by
  refine ⟨fun a ha => ?_, fun a ha => ?_⟩
  · rcases mem_accesses_iff.mp (List.mem_filter.mp ha).1 with ⟨o, i, _, _, hused, rfl⟩
    refine ⟨?_, rfl, ?_⟩
    · unfold VRegAccess.isDefOnly
      rw [hused, Bool.not_true, Bool.and_false]
    · dsimp only
      split_ifs <;> omega
  · rcases mem_accesses_iff.mp (List.mem_filter.mp ha).1 with ⟨o, i, _, _, hused, rfl⟩
    refine ⟨?_, rfl, rfl⟩
    unfold VRegAccess.isDefOnly
    rw [hused, isDef_of_not_isUse hused]
    rfl

section

variable (hv : v.isVReg = true) (h : (usedAccesses classes n tick).filter (·.reg = v) = [])
include hv h

theorem notMem_inputs : v ∉ n.insn.inputs := by
  intro hmem
  rcases List.mem_map.mp hmem with ⟨o, ho, rfl⟩
  rw [List.mem_filter] at ho
  rcases exists_access classes ho.1 hv tick
    (fun k => tick + (if k.isDef then 2 else 1)) with ⟨a, ha, hreg⟩
  rw [isUse_of_isInput ho.2] at ha
  have hfilt := filter_eq_nil_iff.mp h a ha
  exact hfilt (decide_eq_true hreg)

theorem notMem_defs
    (h' : (definedAccesses classes n tick).filter (·.reg = v) = []) : v ∉ n.insn.defs := by
  intro hmem
  rcases List.mem_map.mp hmem with ⟨o, ho, rfl⟩
  rw [List.mem_filter] at ho
  cases huse : o.1.isUse with
  | true =>
    rcases exists_access classes ho.1 hv tick
      (fun k => tick + (if k.isDef then 2 else 1)) with ⟨a, ha, hreg⟩
    rw [huse] at ha
    exact filter_eq_nil_iff.mp h a ha (decide_eq_true hreg)
  | false =>
    rcases exists_access classes ho.1 hv (tick + 1) (fun _ => tick + 2) with
      ⟨a, ha, hreg⟩
    rw [huse] at ha
    exact filter_eq_nil_iff.mp h' a ha (decide_eq_true hreg)

end

theorem mem_defs_of_access (h : a ∈ definedAccesses classes n tick) : a.reg ∈ n.insn.defs := by
  rcases mem_accesses_iff.mp h with ⟨o, i, hget, _, hused, rfl⟩
  exact List.mem_map.mpr ⟨o, List.mem_filter.mpr
    ⟨mem_of_getElem? hget, isDef_of_not_isUse hused⟩, rfl⟩

end

/-! ### One instruction -/

section

variable {classes : OperandClasses} {P : VRegAccess → Prop} {st : VRegLifetimeAnalysis}
  {need : MachineReg → Int → Prop} {us : MachineReg → List VRegUse} {liveOut : List MachineReg}

/-- The scan of a block has got to these instructions. -/
structure Scanning (P : VRegAccess → Prop) (need : MachineReg → Int → Prop)
    (us : MachineReg → List VRegUse) (liveOut : List MachineReg) (insns : List InsnNode)
    (st : VRegLifetimeAnalysis) : Prop where
  built : Built P st.tick st
  block : st.bbTick ≤ st.tick
  scanned : ∀ v, v.isVReg = true →
    ScannedRanges st.bbTick st.tick (LiveBefore liveOut insns v) (need v) (us v) (ranges st v)

theorem accessRanges_ne_some_nil {bbTick : Int} {o : Option (List VRegLiveRange)}
    (h : o ≠ some []) (as : List VRegAccess) : accessRanges bbTick o as ≠ some [] := by
  induction as generalizing o with
  | nil => exact h
  | cons a as ih =>
    refine ih fun hnil => ?_
    exact appendUseToRanges_ne_nil (rangesInBlock_ne_nil h) a (Option.some.inj hnil)

theorem accessRanges_eq_none_iff {bbTick : Int} {o : Option (List VRegLiveRange)}
    {as : List VRegAccess} : accessRanges bbTick o as = none ↔ o = none ∧ as = [] := by
  induction as generalizing o with
  | nil => exact (and_iff_left rfl).symm
  | cons a as ih =>
    change accessRanges bbTick (accessRange bbTick o a) as = none ↔ _
    rw [ih]
    constructor
    · rintro ⟨hnone, _⟩
      cases hnone
    · rintro ⟨_, hnil⟩
      cases hnil

variable {n : InsnNode}

theorem exists_mem_insnAccesses (classes : OperandClasses) (tick : Int)
    {o : MachineRegKind × MachineReg} (ho : o ∈ n.insn.operands) (hv : o.2.isVReg = true) :
    ∃ a ∈ insnAccesses classes n tick, a.reg = o.2 := by
  cases huse : o.1.isUse with
  | true =>
    rcases exists_access classes ho hv tick (fun k => tick + (if k.isDef then 2 else 1)) with
      ⟨a, ha, hreg⟩
    rw [huse] at ha
    exact ⟨a, mem_append_left _ ha, hreg⟩
  | false =>
    rcases exists_access classes ho hv (tick + 1) (fun _ => tick + 2) with ⟨a, ha, hreg⟩
    rw [huse] at ha
    exact ⟨a, mem_append_right _ ha, hreg⟩

theorem quiet_of_defined {insns : List InsnNode} (h : Scanning P need us liveOut (n :: insns) st)
    {a : VRegAccess} (ha : a ∈ definedAccesses classes n st.tick)
    (hnone : (usedAccesses classes n st.tick).filter (·.reg = a.reg) = []) :
    Quiet st.bbTick (ranges st a.reg) := by
  have hmem : a ∈ insnAccesses classes n st.tick := mem_append_right _ ha
  have hv : a.reg.isVReg = true := isVReg_of_mem_insnAccesses hmem
  have hdead : ¬ LiveBefore liveOut (n :: insns) a.reg := by
    rw [liveBefore_cons_iff]
    rintro (hread | ⟨hdef, _⟩)
    · exact notMem_inputs hv hnone hread
    · exact hdef (mem_defs_of_access ha)
  intro rs hrs
  have hscan := h.scanned a.reg hv
  rw [hrs] at hscan
  rcases hscan with ⟨init, last, rfl, hs⟩
  rw [lastLiveRangeBegin_append, lastUseList_append]
  by_cases hin : st.bbTick ≤ last.begin_
  · exact Or.inr fun hnil => hdead (hs.unused hin hnil)
  · exact Or.inl (Int.not_le.mp hin)

theorem addInsn_spec (hnest : Nested P) {insns : List InsnNode}
    (h : Scanning P need us liveOut (n :: insns) st)
    (hP : ∀ a ∈ insnAccesses classes n st.tick, P a)
    (hread : ∀ v, need v st.tick → LiveBefore liveOut (n :: insns) v)
    (hwrite : ∀ v, need v (st.tick + 1) → LiveBefore liveOut insns v) :
    ∃ st', addInsn classes st n = some st' ∧ st'.tick = st.tick + 2 ∧ st'.bbTick = st.bbTick ∧
      Scanning P need (fun v => us v ++
        ((insnAccesses classes n st.tick).filter (·.reg = v)).map (·.use)) liveOut insns st' ∧
      ∀ v, ranges st' v =
        accessRanges st.bbTick (ranges st v)
          ((insnAccesses classes n st.tick).filter (·.reg = v)) := by
  have hused : ∀ a ∈ usedAccesses classes n st.tick, a.use.begin_ = st.tick ∧
      a.isDefOnly = false := by
    intro a ha
    have hfilt := (insnAccesses_of_reg classes n a.reg st.tick).used a
      (List.mem_filter.mpr ⟨ha, decide_eq_true rfl⟩)
    exact ⟨hfilt.2.1, hfilt.1⟩
  have hdefin : ∀ a ∈ definedAccesses classes n st.tick, a.use.begin_ = st.tick + 1 := by
    intro a ha
    exact ((insnAccesses_of_reg classes n a.reg st.tick).defined a
      (List.mem_filter.mpr ⟨ha, decide_eq_true rfl⟩)).2.1
  -- The operands that are read come first, at the tick of the instruction.
  rcases appendUses_spec hnest (usedAccesses classes n st.tick) st st.tick h.built
    (fun a ha => hP a (mem_append_left _ ha)) (Int.le_refl _) (fun a ha => (hused a ha).1)
    (fun a ha hdef => absurd hdef (by rw [(hused a ha).2]; exact Bool.false_ne_true)) with
    ⟨st1, hst1, hbuilt1, htick1, hbt1, hrang1⟩
  -- A write moves the begin of a range of this block that has no use yet. There is none: the
  -- register is dead here, or the instruction has just read it.
  have hquiet : ∀ a ∈ definedAccesses classes n st.tick, a.isDefOnly = true →
      Quiet st1.bbTick (ranges st1 a.reg) := by
    intro a ha _
    rw [hbt1, hrang1]
    rcases eq_nil_or_concat ((usedAccesses classes n st.tick).filter (·.reg = a.reg)) with
      hnil | ⟨as, last, hlast⟩
    · rw [hnil]
      exact quiet_of_defined h ha hnil
    · rw [hlast, concat_eq_append]
      unfold accessRanges
      rw [foldl_append]
      refine quiet_accessRange ?_ last
      exact accessRanges_ne_some_nil (h.built.ranges_ne a.reg) as
  rcases appendUses_spec hnest (definedAccesses classes n st.tick) st1 st.tick hbuilt1
    (fun a ha => hP a (mem_append_right _ ha)) (by omega : st.tick ≤ st.tick + 1)
    hdefin hquiet with ⟨st2, hst2, hbuilt2, htick2, hbt2, hrang2⟩
  have hrang : ∀ v, ranges st2 v = accessRanges st.bbTick (ranges st v)
      ((insnAccesses classes n st.tick).filter (·.reg = v)) := by
    intro v
    unfold insnAccesses accessRanges
    rw [hrang2, hrang1, hbt1, filter_append, foldl_append]
    rfl
  have hregs : ∀ i, (n.insn.regAt i).isVReg = true → ranges st2 (n.insn.regAt i) ≠ none := by
    intro i hi
    rw [hrang, ne_eq, accessRanges_eq_none_iff, not_and]
    intro _ hnil
    unfold MachineInsn.regAt at hi hnil
    cases hget : n.insn.operands[i]? with
    | none =>
      rw [hget] at hi
      cases hi
    | some o =>
      rw [hget] at hi hnil
      rcases exists_mem_insnAccesses classes st.tick (mem_of_getElem? hget) hi with
        ⟨a, ha, hreg⟩
      exact filter_eq_nil_iff.mp hnil a ha (decide_eq_true hreg)
  -- The hint changes no range.
  rcases trySetMoveHint_spec hbuilt2 n.insn hregs with ⟨st3, hst3, hbuilt3, htick3, hbt3, hrang3⟩
  have htick : st3.tick = st.tick := htick3.trans (htick2.trans htick1)
  have hbt : st3.bbTick = st.bbTick := hbt3.trans (hbt2.trans hbt1)
  refine ⟨{ st3 with tick := st3.tick + 2 }, ?_, ?_, hbt, ⟨?_, ?_, fun v hv => ?_⟩, fun v => ?_⟩
  · unfold addInsn
    rw [hst1]
    dsimp only [bind_eq_bind, bind_some]
    rw [htick1, hst2]
    dsimp only [bind_some]
    rw [hst3]
    rfl
  · rw [htick]
  · have hle : st.tick + 1 ≤ st3.tick + 2 := by omega
    have hbuilt := hbuilt3.mono hle
    exact ⟨hbuilt.lt, hbuilt.inj, hbuilt.onto, hbuilt.nonempty, hbuilt.sorted, hbuilt.le,
      hbuilt.classes, hbuilt.hinted⟩
  · change st3.bbTick ≤ st3.tick + 2
    have hblock := h.block
    omega
  · change ScannedRanges st3.bbTick (st3.tick + 2) (LiveBefore liveOut insns v) (need v)
      (us v ++ ((insnAccesses classes n st.tick).filter (·.reg = v)).map (·.use)) (ranges st3 v)
    rw [hbt, htick, hrang3, hrang]
    unfold insnAccesses
    rw [filter_append]
    refine scanned_accessRanges (h.scanned v hv) h.block (insnAccesses_of_reg classes n v st.tick)
      (hread v) (hwrite v) (fun hnil hnil' => ?_) fun hnil hdef => ?_
    · rw [liveBefore_cons_iff]
      have hinp := notMem_inputs hv hnil
      have hdefs := notMem_defs hv hnil hnil'
      simp [hinp, hdefs]
    · rw [liveBefore_cons_iff]
      rcases exists_mem_of_ne_nil _ hdef with ⟨a, ha⟩
      rw [List.mem_filter, decide_eq_true_iff] at ha
      have hinp := notMem_inputs hv hnil
      have hdefs := mem_defs_of_access ha.1
      rw [ha.2] at hdefs
      simp [hinp, hdefs]
  · exact (hrang3 v).trans (hrang v)

end

/-! ### Blocks -/

section

variable {classes : OperandClasses} {P : VRegAccess → Prop} {st : VRegLifetimeAnalysis}
  {bbs before after : List MachineBasicBlock} {bb : MachineBasicBlock}
  {us : MachineReg → List VRegUse}

def usesFrom (classes : OperandClasses) (tick : Int) (insns : List InsnNode) (v : MachineReg) :
    List VRegUse :=
  ((accessesFrom classes tick insns).filter (·.reg = v)).map (·.use)

theorem addInsns_spec (hnest : Nested P) (hbbs : bbs = before ++ bb :: after)
    (insns : List InsnNode) (done : List InsnNode) (st : VRegLifetimeAnalysis)
    (us : MachineReg → List VRegUse) (hinsns : bb.insnList = done ++ insns)
    (htick : st.tick = startTick before + 2 * done.length)
    (h : Scanning P (Needed bbs) us bb.liveOut insns st)
    (hP : ∀ a ∈ accessesFrom classes st.tick insns, P a) :
    ∃ st', insns.foldlM (addInsn classes) st = some st' ∧
      st'.tick = startTick before + 2 * bb.insnList.length ∧ st'.bbTick = st.bbTick ∧
      Scanning P (Needed bbs) (fun v => us v ++ usesFrom classes st.tick insns v)
        bb.liveOut [] st' ∧
      ∀ v, ranges st' v = none ↔
        ranges st v = none ∧ (accessesFrom classes st.tick insns).filter (·.reg = v) = [] := by
  induction insns generalizing done st us with
  | nil =>
    rw [append_nil] at hinsns
    refine ⟨st, rfl, by rw [htick, hinsns], rfl, ⟨h.built, h.block, fun v hv => ?_⟩, fun v => ?_⟩
    · change ScannedRanges _ _ _ _ (us v ++ []) _
      rw [append_nil]
      exact h.scanned v hv
    · exact (and_iff_left rfl).symm
  | cons n insns ih =>
    have hread : ∀ v, Needed bbs v st.tick → LiveBefore bb.liveOut (n :: insns) v := by
      intro v hneed
      rw [htick, hbbs] at hneed
      exact needed_read hinsns hneed
    have hwrite : ∀ v, Needed bbs v (st.tick + 1) → LiveBefore bb.liveOut insns v := by
      intro v hneed
      rw [htick, hbbs] at hneed
      exact needed_write hinsns hneed
    rcases addInsn_spec hnest h (fun a ha => hP a (mem_append_left _ ha)) hread hwrite with
      ⟨st1, hst1, htick1, hbt1, hscan1, hrang1⟩
    have htick1' : st1.tick = startTick before + 2 * (done ++ [n]).length := by
      rw [htick1, htick, length_append, length_singleton]
      omega
    rcases ih (done ++ [n]) st1 _ (by rw [hinsns, append_assoc]; rfl) htick1' hscan1
      (fun a ha => hP a (mem_append_right _ (by rw [← htick1]; exact ha))) with
      ⟨st', hst', htick', hbt', hscan', hrang'⟩
    refine ⟨st', ?_, htick', hbt'.trans hbt1, ⟨hscan'.built, hscan'.block,
      fun v hv => ?_⟩, fun v => ?_⟩
    · rw [foldlM_cons, hst1]
      exact hst'
    · have hscan := hscan'.scanned v hv
      unfold usesFrom at hscan ⊢
      rw [accessesFrom, filter_append, map_append, ← append_assoc, ← htick1]
      exact hscan
    · rw [hrang', hrang1, accessRanges_eq_none_iff, accessesFrom, filter_append,
        append_eq_nil_iff, htick1, and_assoc]

structure BetweenBlocks (P : VRegAccess → Prop) (need : MachineReg → Int → Prop)
    (us : MachineReg → List VRegUse) (st : VRegLifetimeAnalysis) : Prop where
  built : Built P st.tick st
  tick : st.tick = st.bbTick
  finished : ∀ v, v.isVReg = true → Finished st.tick (need v) (us v) (ranges st v)

theorem addBasicBlock_spec (hnest : Nested P) (hbbs : bbs = before ++ bb :: after)
    (hok : BlockOk bb) (htick : st.tick = startTick before) (h : BetweenBlocks P (Needed bbs) us st)
    (hP : ∀ a ∈ accessesFrom classes st.tick bb.insnList, P a) :
    ∃ st', addBasicBlock classes st bb = some st' ∧ st'.tick = startTick (before ++ [bb]) ∧
      BetweenBlocks P (Needed bbs) (fun v => us v ++ usesFrom classes st.tick bb.insnList v) st' ∧
      ∀ v, ranges st' v = none ↔ ranges st v = none ∧ v ∉ bb.liveIn ∧
        (accessesFrom classes st.tick bb.insnList).filter (·.reg = v) = [] := by
  rcases setLiveIns_spec bb.liveIn st h.built h.tick with
    ⟨st1, hst1, hbuilt1, htick1, hbt1, hrang1⟩
  have hscan : Scanning P (Needed bbs) us bb.liveOut bb.insnList st1 := by
    refine ⟨by rw [htick1]; exact hbuilt1, by rw [htick1, hbt1, h.tick], fun v hv => ?_⟩
    classical
    have hscanned : ScannedRanges _ _ (LiveBefore bb.liveOut bb.insnList v) _ _ _ :=
      scanned_of_finished (h.finished v hv)
    have hmem : v ∈ bb.liveIn ↔ LiveBefore bb.liveOut bb.insnList v := by
      rw [hok.liveIn]
      exact and_iff_right hv
    rw [hbt1, htick1, ← h.tick, hrang1]
    simp only [hmem]
    exact hscanned
  rw [← htick1] at hP
  rcases addInsns_spec hnest hbbs bb.insnList [] st1 us rfl (by rw [htick1, htick]; simp)
    hscan hP with ⟨st2, hst2, htick2, hbt2, hscan2, hrang2⟩
  -- `SetLiveOut` needs a lifetime, and a register live out of the block has got one.
  have hlive : ∀ v ∈ bb.liveOut, ranges st2 v ≠ none := by
    intro v hv hnone
    have hscanned := hscan2.scanned v (hok.liveOut v hv)
    rw [hnone] at hscanned
    exact hscanned.2.1 (liveBefore_nil_iff.mpr hv)
  rcases setLiveOuts_spec bb.liveOut st2 hscan2.built hlive with
    ⟨st3, hst3, hbuilt3, htick3, hbt3, hrang3⟩
  have hlen : 0 < bb.insnList.length := length_pos_iff.mpr hok.insns
  refine ⟨st3.endBasicBlock, ?_, ?_, ⟨?_, rfl, fun v hv => ?_⟩, fun v => ?_⟩
  · unfold addBasicBlock
    rw [hst1]
    dsimp only [bind_eq_bind, bind_some]
    rw [hst2]
    dsimp only [bind_some]
    rw [hst3]
    rfl
  · change st3.tick = _
    rw [htick3, htick2, startTick_append, startTick_cons]
    unfold startTick
    simp
  · rw [← htick3] at hbuilt3
    exact ⟨hbuilt3.lt, hbuilt3.inj, hbuilt3.onto, hbuilt3.nonempty, hbuilt3.sorted, hbuilt3.le,
      hbuilt3.classes, hbuilt3.hinted⟩
  · change Finished st3.tick (Needed bbs v) (us v ++ usesFrom classes st.tick bb.insnList v)
      (ranges st3 v)
    have hscanned := hscan2.scanned v hv
    have hblock : st2.bbTick < st2.tick := by
      rw [hbt2, hbt1, ← h.tick, htick2, htick]
      omega
    classical
    have hfin := finished_of_scanned hblock hscanned
    rw [htick3, hrang3, ← htick1]
    simp only [liveBefore_nil_iff] at hfin
    exact hfin
  · change ranges st3 v = none ↔ _
    have hout : ranges st3 v = none ↔ ranges st2 v = none := by
      rw [hrang3]
      split_ifs
      · exact map_eq_none_iff
      · exact Iff.rfl
    have hin : ranges st1 v = none ↔ ranges st v = none ∧ v ∉ bb.liveIn := by
      rw [hrang1]
      split_ifs with hmem
      · constructor
        · intro hnone
          cases hnone
        · exact fun hnot => absurd hmem hnot.2
      · exact (and_iff_left hmem).symm
    rw [hout, hrang2, hin, htick1, and_assoc]

end

/-! ### The whole analysis -/

def Mentions (bb : MachineBasicBlock) (v : MachineReg) : Prop :=
  v ∈ bb.liveIn ∨ v ∈ bb.liveOut ∨ ∃ n ∈ bb.insnList, ∃ o ∈ n.insn.operands, o.2 = v

section

variable {classes : OperandClasses} {P : VRegAccess → Prop} {v : MachineReg}

theorem filter_accessesFrom_eq_nil_iff (hv : v.isVReg = true) (insns : List InsnNode)
    (tick : Int) : (accessesFrom classes tick insns).filter (·.reg = v) = [] ↔
      ∀ n ∈ insns, ∀ o ∈ n.insn.operands, o.2 ≠ v := by
  induction insns generalizing tick with
  | nil =>
    simp [accessesFrom]
  | cons n insns ih =>
    rw [accessesFrom, filter_append, append_eq_nil_iff, ih, forall_mem_cons]
    refine and_congr_left fun _ => ?_
    rw [filter_eq_nil_iff]
    constructor
    · rintro hnone o ho rfl
      rcases exists_mem_insnAccesses classes tick ho hv with ⟨a, ha, hreg⟩
      exact hnone a ha (decide_eq_true hreg)
    · intro hnone a ha hreg
      rw [decide_eq_true_iff] at hreg
      rcases mem_append.mp ha with ha | ha
      · rcases mem_accesses_iff.mp ha with ⟨o, i, hget, _, _, rfl⟩
        exact hnone o (mem_of_getElem? hget) hreg
      · rcases mem_accesses_iff.mp ha with ⟨o, i, hget, _, _, rfl⟩
        exact hnone o (mem_of_getElem? hget) hreg

variable (classes) in
theorem not_mentions_iff {bb : MachineBasicBlock} (hok : BlockOk bb) (hv : v.isVReg = true)
    (tick : Int) : ¬ Mentions bb v ↔
      v ∉ bb.liveIn ∧ (accessesFrom classes tick bb.insnList).filter (·.reg = v) = [] := by
  rw [filter_accessesFrom_eq_nil_iff hv]
  unfold Mentions
  constructor
  · intro hnot
    rw [not_or, not_or] at hnot
    refine ⟨hnot.1, fun n hn o ho hreg => hnot.2.2 ⟨n, hn, o, ho, hreg⟩⟩
  · rintro ⟨hin, hops⟩ (hmem | hout | ⟨n, hn, o, ho, hreg⟩)
    · exact hin hmem
    · refine hin ((hok.liveIn v).mpr ⟨hv, Or.inr ⟨fun n hn hdef => ?_, hout⟩⟩)
      rcases List.mem_map.mp hdef with ⟨o, ho, hreg⟩
      exact hops n hn o (List.mem_filter.mp ho).1 hreg
    · exact hops n hn o ho hreg

theorem addBasicBlocks_spec (hnest : Nested P) {bbs : List MachineBasicBlock}
    (hok : ∀ bb ∈ bbs, BlockOk bb) (after before : List MachineBasicBlock)
    (st : VRegLifetimeAnalysis) (us : MachineReg → List VRegUse) (hbbs : bbs = before ++ after)
    (htick : st.tick = startTick before) (h : BetweenBlocks P (Needed bbs) us st)
    (hP : ∀ a ∈ accessesFrom classes st.tick (after.flatMap (·.insnList)), P a) :
    ∃ st', after.foldlM (addBasicBlock classes) st = some st' ∧ st'.tick = startTick bbs ∧
      BetweenBlocks P (Needed bbs)
        (fun v => us v ++ usesFrom classes st.tick (after.flatMap (·.insnList)) v) st' ∧
      ∀ v, v.isVReg = true →
        (ranges st' v = none ↔ ranges st v = none ∧ ∀ bb ∈ after, ¬ Mentions bb v) := by
  induction after generalizing before st us with
  | nil =>
    rw [append_nil] at hbbs
    refine ⟨st, rfl, by rw [htick, hbbs], ⟨h.built, h.tick, fun v hv => ?_⟩, fun v _ => ?_⟩
    · change Finished _ _ (us v ++ []) _
      rw [append_nil]
      exact h.finished v hv
    · exact (and_iff_left fun bb hbb => absurd hbb not_mem_nil).symm
  | cons bb after ih =>
    have hbbok : BlockOk bb := hok bb (by rw [hbbs]; simp)
    rw [flatMap_cons, accessesFrom_append] at hP
    rcases addBasicBlock_spec hnest hbbs hbbok htick h
      (fun a ha => hP a (mem_append_left _ ha)) with ⟨st1, hst1, htick1, hbetw, hnone1⟩
    have hticks : st1.tick = st.tick + 2 * bb.insnList.length := by
      rw [htick1, htick, startTick_append, startTick_cons]
      unfold startTick
      simp
    rcases ih (before ++ [bb]) st1 _ (by rw [hbbs, append_assoc]; rfl) htick1 hbetw
      (fun a ha => hP a (mem_append_right _ (by rw [← hticks]; exact ha))) with
      ⟨st', hst', htick', hbetw', hnone'⟩
    refine ⟨st', ?_, htick', ⟨hbetw'.built, hbetw'.tick, fun v hv => ?_⟩, fun v hv => ?_⟩
    · rw [foldlM_cons, hst1]
      exact hst'
    · have hfin := hbetw'.finished v hv
      unfold usesFrom at hfin ⊢
      rw [flatMap_cons, accessesFrom_append, filter_append, map_append, ← append_assoc, ← hticks]
      exact hfin
    · rw [hnone' v hv, hnone1, forall_mem_cons, not_mentions_iff classes hbbok hv st.tick,
        and_assoc]

end

/-- For blocks with instructions and right lists of live registers, and with nested classes of the
    operands of each register, the analysis ends. The lifetimes are sorted by begin. There is one
    for each register that is mentioned, with non-empty disjoint increasing ranges that hold the
    uses of the register in the order of their ticks and cover all ticks at which its value is
    needed. Registers whose values are needed at one tick interfere. -/
theorem collectLifetimes_correct (classes : OperandClasses) (bbs : List MachineBasicBlock)
    (hok : ∀ bb ∈ bbs, BlockOk bb)
    (hnested : Nested (· ∈ accessesFrom classes 0 (bbs.flatMap (·.insnList)))) :
    ∃ st, collectLifetimes classes bbs = some st ∧
      st.lifetimes.Pairwise (fun l m => l.begin_ ≤ m.begin_) ∧ (∀ v, v.isVReg = true →
        ((∃ n, st.vregLifetimes v = some n) ↔ ∃ bb ∈ bbs, Mentions bb v)) ∧
      (∀ v n, st.vregLifetimes v = some n → n < st.lifetimes.length) ∧
      (∀ n < st.lifetimes.length, ∃! v, st.vregLifetimes v = some n) ∧
      (∀ v n l, v.isVReg = true → st.vregLifetimes v = some n → st.lifetimes[n]? = some l →
        l.Ok ∧ (∀ r ∈ l.rangeList, r.begin_ < r.end_) ∧
        l.uses = usesFrom classes 0 (bbs.flatMap (·.insnList)) v ∧
        ∀ k, Needed bbs v k → ∃ r ∈ l.rangeList, r.begin_ ≤ k ∧ k < r.end_) ∧
      ∀ v w n m l l' k, v.isVReg = true → w.isVReg = true → st.vregLifetimes v = some n →
        st.vregLifetimes w = some m → st.lifetimes[n]? = some l → st.lifetimes[m]? = some l' →
        Needed bbs v k → Needed bbs w k → l.testInterference l' = true := by
  have hinit : BetweenBlocks (· ∈ accessesFrom classes 0 (bbs.flatMap (·.insnList)))
      (Needed bbs) (fun _ => []) .init := by
    refine ⟨built_init, rfl, fun v hv => ?_⟩
    refine ⟨some_ne_none _ ∘ Eq.symm, ⟨fun r hr => absurd hr not_mem_nil, .nil⟩, rfl,
      fun r hr => absurd hr not_mem_nil, fun k hk hneed => ?_⟩
    exact absurd hk (Int.not_lt.mpr (needed_bounds hneed).1)
  rcases addBasicBlocks_spec hnested hok bbs [] .init (fun _ => []) rfl rfl hinit
    (fun a ha => ha) with ⟨st, hst, htick, hbetween, hnone⟩
  have hlength : st.lifetimes.length = st.numNodes := by
    unfold VRegLifetimeAnalysis.lifetimes
    rw [length_map, length_range]
  have hnode : ∀ v n l, st.vregLifetimes v = some n → st.lifetimes[n]? = some l →
      ranges st v = some l.rangeList := by
    intro v n l hv hl
    have hlt := hbetween.built.lt v n hv
    unfold VRegLifetimeAnalysis.lifetimes at hl
    rw [getElem?_map, getElem?_range hlt] at hl
    unfold ranges
    rw [hv, ← Option.some.inj hl]
    rfl
  have hcorrect : ∀ v n l, v.isVReg = true → st.vregLifetimes v = some n →
      st.lifetimes[n]? = some l → l.Ok ∧ (∀ r ∈ l.rangeList, r.begin_ < r.end_) ∧
        l.uses = usesFrom classes 0 (bbs.flatMap (·.insnList)) v ∧
        ∀ k, Needed bbs v k → ∃ r ∈ l.rangeList, r.begin_ ≤ k ∧ k < r.end_ := by
    intro v n l hv hn hl
    have hfinished := hbetween.finished v hv
    rw [hnode v n l hn hl] at hfinished
    refine ⟨⟨fun hnil => hfinished.nonempty (congrArg some hnil), hfinished.ok⟩,
      fun r hr => (hfinished.before r hr).1, hfinished.uses, fun k hneed => ?_⟩
    refine hfinished.covered k ?_ hneed
    rw [htick]
    exact (needed_bounds hneed).2
  refine ⟨st, hst, ?_, fun v hv => ?_, fun v n hv => ?_, fun n hn => ?_, hcorrect, ?_⟩
  · unfold VRegLifetimeAnalysis.lifetimes
    rw [pairwise_map]
    refine pairwise_lt_range.imp_of_mem fun _ hj hij => ?_
    exact hbetween.built.sorted _ _ hij (mem_range.mp hj)
  · have hmentions := hnone v hv
    unfold ranges at hmentions
    rw [map_eq_none_iff] at hmentions
    rw [← ne_none_iff_exists', ne_eq, hmentions]
    constructor
    · intro hnot
      by_contra hall
      exact hnot ⟨rfl, fun bb hbb hmem => hall ⟨bb, hbb, hmem⟩⟩
    · rintro ⟨bb, hbb, hmem⟩ ⟨_, hall⟩
      exact hall bb hbb hmem
  · rw [hlength]
    exact hbetween.built.lt v n hv
  · rw [hlength] at hn
    rcases hbetween.built.onto n hn with ⟨v, hv⟩
    exact ⟨v, hv, fun w hw => hbetween.built.inj w v n hw hv⟩
  · intro v w n m l l' k hv hw hn hm hl hl' hneed hneed'
    have hcv := hcorrect v n l hv hn hl
    have hcw := hcorrect w m l' hw hm hl'
    exact testInterference_of_common hcv.1.ranges hcw.1.ranges
      (hcv.2.2.2 k hneed) (hcw.2.2.2 k hneed')

/-- A register is defined in one block and copied in the next one. -/
def copyBlocks : List MachineBasicBlock :=
  [⟨[⟨0, newMovqRegImm ⟨1024⟩ 7⟩], [], [0], [], [⟨1024⟩], false⟩,
    ⟨[⟨1, newPseudoCopy ⟨1025⟩ ⟨1024⟩ 8⟩], [0], [], [⟨1024⟩], [], false⟩]

theorem blockOk_copyBlocks : ∀ bb ∈ copyBlocks, BlockOk bb := by
  intro bb hbb
  rcases mem_pair.mp hbb with rfl | rfl
  · refine ⟨by decide, by decide, fun v => ?_⟩
    have hinp : (newMovqRegImm ⟨1024⟩ 7).inputs = [] := by decide
    have hdefs : (newMovqRegImm ⟨1024⟩ 7).defs = [⟨1024⟩] := by decide
    simp [liveBefore_cons_iff, liveBefore_nil_iff, hinp, hdefs]
  · refine ⟨by decide, by decide, fun v => ?_⟩
    have hinp : (newPseudoCopy ⟨1025⟩ ⟨1024⟩ 8).inputs = [⟨1024⟩] := by decide
    simp only [liveBefore_cons_iff, liveBefore_nil_iff, hinp, mem_singleton,
      not_mem_nil, and_false, or_false]
    constructor
    · rintro rfl
      exact ⟨by decide, rfl⟩
    · exact fun h => h.2

def oneClass : OperandClasses := fun _ _ => ⟨6, [1, 2]⟩

theorem nested_copyBlocks :
    Nested (· ∈ accessesFrom oneClass 0 (copyBlocks.flatMap (·.insnList))) := by
  have hclass : ∀ a ∈ accessesFrom oneClass 0 (copyBlocks.flatMap (·.insnList)),
      a.use.regClass = ⟨6, [1, 2]⟩ := by
    decide
  intro a a' ha ha' _
  rw [hclass a ha, hclass a' ha']
  decide

theorem collectLifetimes_copyBlocks : ∃ st, collectLifetimes oneClass copyBlocks = some st ∧
      st.lifetimes.map (fun l => l.rangeList.map fun r => (r.begin_, r.end_)) =
        [[(1, 2), (2, 3)], [(3, 4)]] ∧
      st.lifetimes.Pairwise fun l m => l.begin_ ≤ m.begin_ := by
  rcases collectLifetimes_correct oneClass copyBlocks blockOk_copyBlocks nested_copyBlocks with
    ⟨st, hst, hsorted, _⟩
  refine ⟨st, hst, ?_, hsorted⟩
  have hranges : (collectLifetimes oneClass copyBlocks).map (fun st => st.lifetimes.map
      fun l => l.rangeList.map fun r => (r.begin_, r.end_)) =
        some [[(1, 2), (2, 3)], [(3, 4)]] := by
    decide
  rw [hst] at hranges
  exact Option.some.inj hranges

end Berberis.RegAlloc
