import Berberis.Backend.MachineIR
import Berberis.Lib.Worklist

/-!
# Liveness of Virtual Registers

Which virtual registers hold a value at the beginning of a block that some
instruction may still read. Blocks are walked backward, from what is live at
the beginning of their successors; a block whose set changes puts its
predecessors back on the worklist.

## Theorems

* `LivenessAnalyzer.mem_run_iff`: Its sets are the live registers.
* `LivenessAnalyzer.run_exact`: The analysis ends in the least solution, which
  is exact and does not depend on the order of the blocks.
-/

namespace Berberis.Backend

open List

/-! ### Paths -/

/-- Blocks are numbered below the number of blocks, edges join blocks of the list and are known to
    both of them, and operands are virtual registers that have been made, if virtual. -/
structure MachineIR.FlowGraph (ir : MachineIR) : Prop where
  nonempty : ir.bbList ≠ []
  lt_numBb : ∀ b ∈ ir.bbList, b < ir.numBb
  outEdge : ∀ b ∈ ir.bbList, ∀ e ∈ (ir.bb b).outEdges, (ir.edge e).src = b ∧
    (ir.edge e).dst ∈ ir.bbList ∧ e ∈ (ir.bb (ir.edge e).dst).inEdges
  inEdge : ∀ b ∈ ir.bbList, ∀ e ∈ (ir.bb b).inEdges, (ir.edge e).src ∈ ir.bbList
  vreg : ∀ b ∈ ir.bbList, ∀ n ∈ (ir.bb b).insnList, ∀ operand ∈ n.insn.operands,
    operand.2.isVReg → operand.2.reg < kFirstVRegNumber + ir.numVReg

/-- An instruction reads the register, and none before it defines it. -/
def ReadsFirst (insns : List InsnNode) (v : MachineReg) : Prop :=
  ∃ before n after, insns = before ++ n :: after ∧ v ∈ n.insn.inputs ∧
    ∀ m ∈ before, v ∉ m.insn.defs

/-- An edge leads from a block that does not define the register to another one. -/
def Passes (ir : MachineIR) (v : MachineReg) (b d : Nat) : Prop :=
  (∀ n ∈ (ir.bb b).insnList, v ∉ n.insn.defs) ∧ d ∈ ir.succs b

/-- A path leads from the beginning of a block to an instruction that reads the
    register, and no instruction before it on the path defines the register. -/
def LiveIn (ir : MachineIR) (v : MachineReg) (b : Nat) : Prop :=
  ∃ c, Relation.ReflTransGen (Passes ir v) b c ∧ ReadsFirst (ir.bb c).insnList v

namespace LivenessAnalyzer

variable (ir : MachineIR)

/-- The same register can be defined and read, so definitions go first. -/
def visitInsn (insn : MachineInsn) (running : Finset MachineReg) : Finset MachineReg :=
  let running := (insn.defs.filter (·.isVReg)).foldl Finset.erase running
  (insn.inputs.filter (·.isVReg)).foldl (fun running v => insert v running) running

def visitInsns (insns : List InsnNode) (running : Finset MachineReg) : Finset MachineReg :=
  insns.foldr (fun n running => visitInsn n.insn running) running

/-- What is live at the end of a block: nothing, if it has no successors. -/
def liveOut (b : Nat) (liveIn : Nat → Finset MachineReg) : Finset MachineReg :=
  (ir.succs b).foldl (fun running d => running ∪ liveIn d) ∅

def visitBasicBlock (b : Nat) (liveIn : Nat → Finset MachineReg) : Finset MachineReg :=
  visitInsns (ir.bb b).insnList (liveOut ir b liveIn)

def analysis : Lib.Backward Nat MachineReg := ⟨visitBasicBlock ir, ir.preds⟩

/-- The list of blocks is copied in reverse order and worked off from its end, so that its first
    block is visited first. A graph without blocks fails a check. -/
def run : Option (Nat → Finset MachineReg) :=
  if ir.numBb = 0 then none
  else (analysis ir).solve ((analysis ir).turns ir.bbList ir.numVReg) (fun _ => ∅) ir.bbList

/-! ### What one visit does -/

variable {v : MachineReg} {running : Finset MachineReg} {b : Nat}

theorem mem_foldl_erase {regs : List MachineReg} :
    v ∈ regs.foldl Finset.erase running ↔ v ∈ running ∧ v ∉ regs := by
  induction regs generalizing running with
  | nil => simp
  | cons r regs ih =>
    rw [foldl_cons, ih, Finset.mem_erase, mem_cons, not_or]
    tauto

theorem mem_foldl_insert {regs : List MachineReg} :
    v ∈ regs.foldl (fun running v => insert v running) running ↔ v ∈ running ∨ v ∈ regs := by
  induction regs generalizing running with
  | nil => simp
  | cons r regs ih =>
    rw [foldl_cons, ih, Finset.mem_insert, mem_cons]
    tauto

theorem mem_visitInsn_iff (hv : v.isVReg = true) {insn : MachineInsn} :
    v ∈ visitInsn insn running ↔ v ∈ insn.inputs ∨ (v ∉ insn.defs ∧ v ∈ running) := by
  unfold visitInsn
  simp only [mem_foldl_insert, mem_foldl_erase, mem_filter, hv, and_true]
  tauto

theorem readsFirst_cons_iff {n : InsnNode} {insns : List InsnNode} : ReadsFirst (n :: insns) v ↔
      v ∈ n.insn.inputs ∨ (v ∉ n.insn.defs ∧ ReadsFirst insns v) := by
  constructor
  · rintro ⟨before, m, after, heq, hread, hbef⟩
    rcases before with _ | ⟨k, before⟩
    · rw [nil_append, List.cons.injEq] at heq
      rw [heq.1]
      exact Or.inl hread
    · rw [cons_append, List.cons.injEq] at heq
      rw [heq.1]
      exact Or.inr ⟨hbef k mem_cons_self, before, m, after, heq.2, hread,
        fun j hj => hbef j (mem_cons_of_mem k hj)⟩
  · rintro (hread | ⟨hdef, before, m, after, heq, hread, hbef⟩)
    · exact ⟨[], n, insns, rfl, hread, fun m hm => absurd hm not_mem_nil⟩
    · refine ⟨n :: before, m, after, by rw [heq, cons_append], hread, fun j hj => ?_⟩
      rcases mem_cons.mp hj with rfl | hj
      · exact hdef
      · exact hbef j hj

theorem mem_visitInsns_iff (hv : v.isVReg = true) {insns : List InsnNode} :
    v ∈ visitInsns insns running ↔
      ReadsFirst insns v ∨ ((∀ n ∈ insns, v ∉ n.insn.defs) ∧ v ∈ running) := by
  induction insns with
  | nil =>
    have hnone : ¬ ReadsFirst [] v := by
      rintro ⟨before, n, after, heq, _⟩
      exact absurd heq.symm (append_ne_nil_of_right_ne_nil _ (cons_ne_nil _ _))
    simp [visitInsns, hnone]
  | cons n insns ih =>
    change v ∈ visitInsn n.insn (visitInsns insns running) ↔ _
    rw [mem_visitInsn_iff hv, ih, readsFirst_cons_iff, forall_mem_cons]
    tauto

variable {ir}

theorem mem_liveOut_iff {liveIn : Nat → Finset MachineReg} :
    v ∈ liveOut ir b liveIn ↔ ∃ d ∈ ir.succs b, v ∈ liveIn d := by
  have hfold : ∀ (ds : List Nat) (running : Finset MachineReg),
      v ∈ ds.foldl (fun running d => running ∪ liveIn d) running ↔
        v ∈ running ∨ ∃ d ∈ ds, v ∈ liveIn d := by
    intro ds
    induction ds with
    | nil => simp only [foldl_nil, not_mem_nil, false_and, exists_false, or_false, implies_true]
    | cons d ds ih =>
      intro running
      simp only [foldl_cons, ih, Finset.mem_union, mem_cons, exists_eq_or_imp, or_assoc]
  unfold liveOut
  rw [hfold]
  simp only [Finset.notMem_empty, false_or]

theorem mem_visitBasicBlock_iff (hv : v.isVReg = true) {liveIn : Nat → Finset MachineReg} :
    v ∈ visitBasicBlock ir b liveIn ↔
      ReadsFirst (ir.bb b).insnList v ∨ ∃ d, Passes ir v b d ∧ v ∈ liveIn d := by
  unfold visitBasicBlock Passes
  rw [mem_visitInsns_iff hv, mem_liveOut_iff]
  refine or_congr Iff.rfl ?_
  constructor
  · rintro ⟨hdefs, d, hd, hmem⟩
    exact ⟨d, ⟨hdefs, hd⟩, hmem⟩
  · rintro ⟨d, ⟨hdefs, hd⟩, hmem⟩
    exact ⟨hdefs, d, hd, hmem⟩

theorem liveIn_iff : LiveIn ir v b ↔
      ReadsFirst (ir.bb b).insnList v ∨ ∃ d, Passes ir v b d ∧ LiveIn ir v d := by
  constructor
  · rintro ⟨c, hpath, hread⟩
    rcases Relation.ReflTransGen.cases_head hpath with rfl | ⟨d, hpass, hpath⟩
    · exact Or.inl hread
    · exact Or.inr ⟨d, hpass, c, hpath, hread⟩
  · rintro (hread | ⟨d, hpass, c, hpath, hread⟩)
    · exact ⟨b, .refl, hread⟩
    · exact ⟨c, .head hpass hpath, hread⟩

/-! ### The loop ends -/

def vregs (numVReg : Nat) : Finset MachineReg :=
  (Finset.range numVReg).image .createVRegFromIndex

theorem mem_vregs_iff {numVReg : Nat} :
    v ∈ vregs numVReg ↔ v.isVReg = true ∧ v.reg < kFirstVRegNumber + numVReg := by
  unfold vregs MachineReg.createVRegFromIndex MachineReg.isVReg
  rw [Finset.mem_image, decide_eq_true_iff]
  constructor
  · rintro ⟨index, hidx, rfl⟩
    have hlt := Finset.mem_range.mp hidx
    constructor
    · dsimp only
      omega
    · dsimp only
      omega
  · rintro ⟨hle, hlt⟩
    refine ⟨(v.reg - kFirstVRegNumber).toNat, Finset.mem_range.mpr (by omega), ?_⟩
    rw [Int.toNat_of_nonneg (by omega), add_sub_cancel]

theorem visitInsn_subset {bound : Finset MachineReg} {insn : MachineInsn}
    (hinp : ∀ v ∈ insn.inputs, v.isVReg = true → v ∈ bound) (h : running ⊆ bound) :
    visitInsn insn running ⊆ bound := by
  intro v hmem
  unfold visitInsn at hmem
  rw [mem_foldl_insert, mem_foldl_erase] at hmem
  rcases hmem with ⟨hrunning, _⟩ | hinput
  · exact h hrunning
  · rw [mem_filter] at hinput
    exact hinp v hinput.1 hinput.2

theorem visitInsns_subset {bound : Finset MachineReg} (insns : List InsnNode)
    (hinp : ∀ n ∈ insns, ∀ v ∈ n.insn.inputs, v.isVReg = true → v ∈ bound)
    (h : running ⊆ bound) : visitInsns insns running ⊆ bound := by
  induction insns with
  | nil => exact h
  | cons n insns ih =>
    exact visitInsn_subset (hinp n mem_cons_self)
      (ih fun m hm => hinp m (mem_cons_of_mem n hm))

theorem visitInsns_mono (insns : List InsnNode) {running' : Finset MachineReg}
    (h : running ⊆ running') : visitInsns insns running ⊆ visitInsns insns running' := by
  induction insns with
  | nil => exact h
  | cons n insns ih =>
    intro v hmem
    change v ∈ visitInsn n.insn (visitInsns insns running) at hmem
    change v ∈ visitInsn n.insn (visitInsns insns running')
    unfold visitInsn at hmem ⊢
    rw [mem_foldl_insert, mem_foldl_erase] at hmem ⊢
    exact hmem.imp (fun hold => ⟨ih hold.1, hold.2⟩) id

theorem liveOut_mono (b : Nat) {liveIn liveIn' : Nat → Finset MachineReg}
    (h : ∀ d, liveIn d ⊆ liveIn' d) : liveOut ir b liveIn ⊆ liveOut ir b liveIn' := by
  intro v hmem
  rw [mem_liveOut_iff] at hmem ⊢
  rcases hmem with ⟨d, hd, hmem⟩
  exact ⟨d, hd, h d hmem⟩

theorem visitBasicBlock_mono (b : Nat) (liveIn liveIn' : Nat → Finset MachineReg)
    (h : ∀ d, liveIn d ⊆ liveIn' d) : visitBasicBlock ir b liveIn ⊆ visitBasicBlock ir b liveIn' :=
  visitInsns_mono _ (liveOut_mono b h)

theorem visitBasicBlock_subset (h : ir.FlowGraph) (hb : b ∈ ir.bbList)
    (liveIn : Nat → Finset MachineReg) (hliv : ∀ d, liveIn d ⊆ vregs ir.numVReg) :
    visitBasicBlock ir b liveIn ⊆ vregs ir.numVReg := by
  refine visitInsns_subset _ (fun n hn v hinp hv => ?_) (fun v hmem => ?_)
  · rcases mem_map.mp hinp with ⟨operand, hop, rfl⟩
    exact mem_vregs_iff.mpr ⟨hv, h.vreg b hb n hn operand (mem_filter.mp hop).1 hv⟩
  · rcases mem_liveOut_iff.mp hmem with ⟨d, _, hd⟩
    exact hliv d hd

theorem preds_mem (h : ir.FlowGraph) : ∀ b ∈ ir.bbList, ∀ c ∈ ir.preds b, c ∈ ir.bbList := by
  intro b hb c hc
  rcases mem_map.mp hc with ⟨e, he, rfl⟩
  exact h.inEdge b hb e he

theorem numBb_ne_zero (h : ir.FlowGraph) : ir.numBb ≠ 0 := by
  rcases exists_mem_of_ne_nil _ h.nonempty with ⟨b, hb⟩
  have hlt := h.lt_numBb b hb
  omega

theorem exists_run (h : ir.FlowGraph) :
    ∃ liveIn, run ir = some liveIn ∧ ∀ b, liveIn b ⊆ vregs ir.numVReg := by
  unfold run
  rw [if_neg (numBb_ne_zero h)]
  have hcard : (vregs ir.numVReg).card ≤ ir.numVReg :=
    Finset.card_image_le.trans (Nat.le_of_eq (Finset.card_range _))
  exact (analysis ir).exists_solve_turns ir.bbList (vregs ir.numVReg) visitBasicBlock_mono
    (fun b hb live hlive => visitBasicBlock_subset h hb live hlive) (preds_mem h) _ hcard

/-! ### The solution -/

variable {liveIn : Nat → Finset MachineReg}

theorem solve_of_run (h : run ir = some liveIn) :
    (analysis ir).solve ((analysis ir).turns ir.bbList ir.numVReg) (fun _ => ∅) ir.bbList =
      some liveIn := by
  unfold run at h
  split_ifs at h
  exact h

section

variable (h : ir.FlowGraph)
include h

theorem visitBasicBlock_update {c : Nat} (hc : c ∈ ir.bbList) (live : Nat → Finset MachineReg)
    (new : Finset MachineReg) (hpred : c ∉ ir.preds b) :
    visitBasicBlock ir c (Function.update live b new) = visitBasicBlock ir c live := by
  have hne : ∀ d ∈ ir.succs c, d ≠ b := by
    intro d hd hdb
    rcases mem_map.mp hd with ⟨e, he, rfl⟩
    have hedge := h.outEdge c hc e he
    rw [hdb] at hedge
    exact hpred (mem_map.mpr ⟨e, hedge.2.2, hedge.1⟩)
  have hliv : liveOut ir c (Function.update live b new) = liveOut ir c live := by
    ext v
    rw [mem_liveOut_iff, mem_liveOut_iff]
    refine exists_congr fun d => and_congr_right fun hd => ?_
    rw [Function.update_of_ne (hne d hd)]
  unfold visitBasicBlock
  rw [hliv]

section

variable (hrun : run ir = some liveIn)
include hrun

theorem visit_of_run : ∀ b ∈ ir.bbList, visitBasicBlock ir b liveIn = liveIn b :=
  (analysis ir).solve_visit ir.bbList
    (fun _ _ hc live new hpred => visitBasicBlock_update h hc live new hpred) _ _ _ _
    (fun _ hc hnot => absurd hc hnot) (solve_of_run hrun)

theorem run_induction (P : Nat → MachineReg → Prop)
    (hvis : ∀ b ∈ ir.bbList, ∀ live : Nat → Finset MachineReg, (∀ c, ∀ v ∈ live c, P c v) →
      ∀ v ∈ visitBasicBlock ir b live, P b v) : ∀ b, ∀ v ∈ liveIn b, P b v :=
  (analysis ir).solve_induction P ir.bbList (preds_mem h) hvis _ _ _ _ (fun _ hb => hb)
    (fun _ _ hmem => absurd hmem (Finset.notMem_empty _)) (solve_of_run hrun)

theorem mem_of_liveIn (hv : v.isVReg = true) (hb : b ∈ ir.bbList)
    (hlive : LiveIn ir v b) : v ∈ liveIn b := by
  rcases hlive with ⟨c, hpath, hread⟩
  induction hpath using Relation.ReflTransGen.head_induction_on with
  | refl =>
    rw [← visit_of_run h hrun c hb, mem_visitBasicBlock_iff hv]
    exact Or.inl hread
  | head hpass _ ih =>
    rw [← visit_of_run h hrun _ hb, mem_visitBasicBlock_iff hv]
    refine Or.inr ⟨_, hpass, ih ?_⟩
    rcases mem_map.mp hpass.2 with ⟨e, he, rfl⟩
    exact (h.outEdge _ hb e he).2.1

theorem isVReg_of_mem (hmem : v ∈ liveIn b) : v.isVReg = true := by
  rcases exists_run h with ⟨liveIn', hrun', hsub⟩
  rw [hrun, Option.some.injEq] at hrun'
  rw [hrun'] at hmem
  exact (mem_vregs_iff.mp (hsub b hmem)).1

theorem mem_run_iff :
    v ∈ liveIn b ↔ v.isVReg = true ∧ b ∈ ir.bbList ∧ LiveIn ir v b := by
  constructor
  · intro hmem
    have hv := isVReg_of_mem h hrun hmem
    refine ⟨hv, run_induction h hrun (fun b v => v.isVReg = true → b ∈ ir.bbList ∧ LiveIn ir v b)
      (fun b hb live hlive v hmem hv => ⟨hb, liveIn_iff.mpr ?_⟩) b v hmem hv⟩
    rw [mem_visitBasicBlock_iff hv] at hmem
    exact hmem.imp_right fun ⟨d, hpass, hd⟩ => ⟨d, hpass, (hlive d v hd hv).2⟩
  · rintro ⟨hv, hb, hlive⟩
    exact mem_of_liveIn h hrun hv hb hlive

theorem run_subset {other : Nat → Finset MachineReg}
    (hoth : ∀ b ∈ ir.bbList, visitBasicBlock ir b other = other b) :
    ∀ b ∈ ir.bbList, liveIn b ⊆ other b := by
  have hsub : ∀ b, ∀ v ∈ liveIn b, b ∈ ir.bbList → v ∈ other b := by
    refine run_induction h hrun (fun b v => b ∈ ir.bbList → v ∈ other b)
      (fun b hb live hlive v hmem _ => ?_)
    rw [← hoth b hb]
    -- Only successors are looked at, and these are in the list.
    refine visitInsns_mono _ (fun w hw => ?_) hmem
    rw [mem_liveOut_iff] at hw ⊢
    rcases hw with ⟨d, hd, hw⟩
    refine ⟨d, hd, hlive d w hw ?_⟩
    rcases mem_map.mp hd with ⟨e, he, rfl⟩
    exact (h.outEdge b hb e he).2.1
  exact fun b hb v hmem => hsub b v hmem hb

end

theorem flowGraph_of_perm {order : List Nat} (hperm : order.Perm ir.bbList) :
    MachineIR.FlowGraph { ir with bbList := order } where
  nonempty hnil := h.nonempty (List.Perm.eq_nil (hnil ▸ hperm.symm))
  lt_numBb b hb := h.lt_numBb b (hperm.mem_iff.mp hb)
  outEdge b hb e he := by
    have hedge := h.outEdge b (hperm.mem_iff.mp hb) e he
    exact ⟨hedge.1, hperm.mem_iff.mpr hedge.2.1, hedge.2.2⟩
  inEdge b hb e he := hperm.mem_iff.mpr (h.inEdge b (hperm.mem_iff.mp hb) e he)
  vreg b hb := h.vreg b (hperm.mem_iff.mp hb)

theorem run_of_perm (hrun : run ir = some liveIn) {order : List Nat}
    (hperm : order.Perm ir.bbList) : run { ir with bbList := order } = some liveIn := by
  rcases exists_run (flowGraph_of_perm h hperm) with ⟨liveIn', hrun', _⟩
  rw [hrun', Option.some.injEq]
  ext v
  rw [mem_run_iff (flowGraph_of_perm h hperm) hrun', mem_run_iff h hrun]
  exact and_congr_right fun _ => and_congr hperm.mem_iff Iff.rfl

end

/-- The analysis of every graph ends. Its sets are the virtual registers that are live, the least
    solution of the equations of the blocks, and the same for all orders of the blocks. -/
theorem run_exact (ir : MachineIR) (h : ir.FlowGraph) : ∃ liveIn, run ir = some liveIn ∧
      (∀ b ∈ ir.bbList, ∀ v, v ∈ liveIn b ↔ v.isVReg = true ∧ LiveIn ir v b) ∧
      (∀ b ∈ ir.bbList, visitBasicBlock ir b liveIn = liveIn b) ∧
      (∀ other, (∀ b ∈ ir.bbList, visitBasicBlock ir b other = other b) →
        ∀ b ∈ ir.bbList, liveIn b ⊆ other b) ∧ ∀ order : List Nat, order.Perm ir.bbList →
        run { ir with bbList := order } = some liveIn := by
  rcases exists_run h with ⟨liveIn, hrun, _⟩
  refine ⟨liveIn, hrun, fun b hb v => ?_, visit_of_run h hrun, fun other hother => ?_,
    fun order hperm => run_of_perm h hrun hperm⟩
  · rw [mem_run_iff h hrun]
    exact and_congr_right fun _ => and_iff_right hb
  · exact run_subset h hrun hother

/-- A loop of one block that reads and redefines a register, with a block that nothing leads to. -/
def selfLoop : MachineIR where
  bb b :=
    if b = 0 then ⟨[⟨0, ⟨.other 0, [(⟨8, .useDef⟩, ⟨1024⟩)], none, rfl⟩⟩,
      ⟨1, newPseudoBranch 0⟩], [0, 1], [0], [], [], false⟩
    else ⟨[⟨2, newMovqRegImm ⟨1025⟩ 0⟩, ⟨3, newPseudoBranch 0⟩], [], [1], [], [], false⟩
  edge e := if e = 0 then ⟨0, 0⟩ else ⟨1, 0⟩
  bbList := [0, 1]
  bbOrder := .unordered
  numBb := 2
  numEdge := 2
  numNode := 4
  numVReg := 2

theorem selfLoop_flowGraph : selfLoop.FlowGraph where
  nonempty := by decide
  lt_numBb := by decide
  outEdge := by decide
  inEdge := by decide
  vreg := by decide

theorem run_exact_selfLoop : selfLoop.FlowGraph ∧ ∃ liveIn, run selfLoop = some liveIn ∧
    (liveIn 1 = {⟨1024⟩}) ∧ ∀ order : List Nat, order.Perm [0, 1] →
      run { selfLoop with bbList := order } = some liveIn := by
  rcases run_exact selfLoop selfLoop_flowGraph with ⟨liveIn, hrun, _, _, _, horder⟩
  refine ⟨selfLoop_flowGraph, liveIn, hrun, ?_, horder⟩
  have hone : (run selfLoop).map (· 1) = some {⟨1024⟩} := by decide
  rw [hrun] at hone
  exact Option.some.inj hone

end LivenessAnalyzer

end Berberis.Backend
