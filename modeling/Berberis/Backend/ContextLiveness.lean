import Berberis.Backend.MachineIRCheck
import Berberis.Lib.Worklist

/-!
# Liveness of the Guest Context

Which offsets of the guest context are read before they are written, block by
block. A put makes its displacement dead before it, a get makes it live, and
at the end of a block without successors everything is live. Offsets are the
displacements of accesses; how many bytes an access touches is not looked at.
-/

namespace Berberis.Backend.ContextLivenessAnalyzer

open List

variable (layout : ContextLayout) (ir : MachineIR)

def visitInsn (insn : MachineInsn) (running : Finset Nat) : Finset Nat :=
  if layout.isCPUStatePut insn then running.erase insn.disp
  else if layout.isCPUStateGet insn then insert insn.disp running
  else running

def visitInsns (insns : List InsnNode) (running : Finset Nat) : Finset Nat :=
  insns.foldr (fun n running => visitInsn layout n.insn running) running

def liveOut (b : Nat) (liveIn : Nat → Finset Nat) : Finset Nat :=
  if (ir.bb b).outEdges = [] then Finset.range layout.size
  else (ir.succs b).foldr (fun d running => liveIn d ∪ running) ∅

def visitBasicBlock (b : Nat) (liveIn : Nat → Finset Nat) : Finset Nat :=
  visitInsns layout (ir.bb b).insnList (liveOut layout ir b liveIn)

def analysis : Lib.Backward Nat Nat := ⟨visitBasicBlock layout ir, ir.preds⟩

def degree : Nat := (ir.bbList.map fun b => (ir.preds b).length).foldr max 0

def turns : Nat := ir.bbList.length + ir.bbList.length * layout.size * degree ir + 1

def init : Nat → Finset Nat :=
  ((analysis layout ir).solve (turns layout ir) (fun _ => ∅) ir.bbList).getD fun _ => ∅

/-! ### Monotonicity -/

variable {layout ir}

variable {live : Finset Nat} {b : Nat}

theorem visitInsn_mono (insn : MachineInsn) {live' : Finset Nat} (h : live ⊆ live') :
    visitInsn layout insn live ⊆ visitInsn layout insn live' := by
  unfold visitInsn
  split_ifs
  · exact Finset.erase_subset_erase _ h
  · exact Finset.insert_subset_insert _ h
  · exact h

theorem visitInsns_mono (insns : List InsnNode) {live' : Finset Nat} (h : live ⊆ live') :
    visitInsns layout insns live ⊆ visitInsns layout insns live' := by
  induction insns with
  | nil => exact h
  | cons n insns ih => exact visitInsn_mono n.insn ih

theorem mem_liveOut_iff (hne : (ir.bb b).outEdges ≠ []) (liveIn : Nat → Finset Nat) (offset : Nat) :
    offset ∈ liveOut layout ir b liveIn ↔ ∃ d ∈ ir.succs b, offset ∈ liveIn d := by
  unfold liveOut
  rw [if_neg hne]
  induction ir.succs b with
  | nil => simp
  | cons d ds ih =>
    simp [ih]

theorem liveOut_mono (b : Nat) {liveIn liveIn' : Nat → Finset Nat}
    (h : ∀ d, liveIn d ⊆ liveIn' d) : liveOut layout ir b liveIn ⊆ liveOut layout ir b liveIn' := by
  by_cases hnone : (ir.bb b).outEdges = []
  · unfold liveOut
    rw [if_pos hnone, if_pos hnone]
  · intro offset hoff
    rw [mem_liveOut_iff hnone] at hoff ⊢
    rcases hoff with ⟨d, hd, hmem⟩
    exact ⟨d, hd, h d hmem⟩

theorem visitInsns_bounded (insns : List InsnNode) (h : live ⊆ Finset.range layout.size) :
    visitInsns layout insns live ⊆ Finset.range layout.size := by
  induction insns with
  | nil => exact h
  | cons n insns ih =>
    show visitInsn layout n.insn (visitInsns layout insns live) ⊆ _
    unfold visitInsn
    split_ifs with hput hget
    · exact (Finset.erase_subset _ _).trans ih
    · refine Finset.insert_subset (Finset.mem_range.mpr ?_) ih
      exact ContextLayout.lt_size (ContextLayout.of_isCPUStateGet hget).2
    · exact ih

theorem liveOut_bounded (b : Nat) {liveIn : Nat → Finset Nat}
    (h : ∀ d, liveIn d ⊆ Finset.range layout.size) :
    liveOut layout ir b liveIn ⊆ Finset.range layout.size := by
  by_cases hnone : (ir.bb b).outEdges = []
  · unfold liveOut
    rw [if_pos hnone]
  · intro offset hoff
    rcases (mem_liveOut_iff hnone liveIn offset).mp hoff with ⟨d, _, hmem⟩
    exact h d hmem

/-! ### The solution -/

theorem visitBasicBlock_update (h : ir.checkMachineIR = .success) {c : Nat} (hc : c ∈ ir.bbList)
    (liveIn : Nat → Finset Nat) (new : Finset Nat) (hpred : c ∉ ir.preds b) :
    visitBasicBlock layout ir c (Function.update liveIn b new) =
      visitBasicBlock layout ir c liveIn := by
  have hne : ∀ d ∈ ir.succs c, d ≠ b := by
    intro d hd hdb
    rcases mem_map.mp hd with ⟨e, he, rfl⟩
    have hcheck := MachineIR.checked_of_success h hc
    refine hpred (mem_map.mpr ⟨e, ?_, hcheck.src_eq e he⟩)
    rw [← hdb]
    exact (hcheck.outEdge e he).1
  unfold visitBasicBlock
  congr 1
  by_cases hnone : (ir.bb c).outEdges = []
  · unfold liveOut
    rw [if_pos hnone, if_pos hnone]
  · ext offset
    rw [mem_liveOut_iff hnone, mem_liveOut_iff hnone]
    constructor
    · rintro ⟨d, hd, hmem⟩
      rw [Function.update_of_ne (hne d hd)] at hmem
      exact ⟨d, hd, hmem⟩
    · rintro ⟨d, hd, hmem⟩
      refine ⟨d, hd, ?_⟩
      rw [Function.update_of_ne (hne d hd)]
      exact hmem

theorem visit_init (h : ir.checkMachineIR = .success) (hb : b ∈ ir.bbList) :
    visitBasicBlock layout ir b (init layout ir) = init layout ir b := by
  have hpreds : ∀ b ∈ ir.bbList, ∀ c ∈ (analysis layout ir).preds b, c ∈ ir.bbList := by
    intro b hb c hc
    rcases mem_map.mp hc with ⟨e, he, rfl⟩
    exact ((MachineIR.checked_of_success h hb).inEdge e he).2
  rcases (analysis layout ir).exists_solve_turns ir.bbList (Finset.range layout.size)
    (fun b live live' hle => visitInsns_mono _ (liveOut_mono b hle))
    (fun b _ live hle => visitInsns_bounded _ (liveOut_bounded b hle)) hpreds layout.size
    (Nat.le_of_eq (Finset.card_range _)) with ⟨r, hr, _⟩
  have hinit : init layout ir = r := by
    change ((analysis layout ir).solve
      ((analysis layout ir).turns ir.bbList layout.size) _ _).getD _ = r
    rw [hr]
    rfl
  rw [hinit]
  refine (analysis layout ir).solve_visit ir.bbList ?_ _ _ ir.bbList r ?_ hr b hb
  · exact fun b c hc live new hpred => visitBasicBlock_update h hc live new hpred
  · exact fun c hc hnot => absurd hc hnot

end Berberis.Backend.ContextLivenessAnalyzer
