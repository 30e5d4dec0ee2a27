import Berberis.Backend.MachineIR

/-!
# Checking Machine IR

`CheckMachineIR` is run before the passes and after them. It accepts a graph
whose edges are known to both of their blocks, whose blocks are all in the
list, and in which every block ends in its only control transfer, to blocks
that it has edges to.
-/

namespace Berberis.Backend

open List

inductive MachineIRCheckStatus where
  | success
  | fail
  | danglingBasicBlock
  | danglingEdge
  deriving DecidableEq

namespace MachineIR

def firstFailure (statuses : List MachineIRCheckStatus) : MachineIRCheckStatus :=
  (statuses.find? (· ≠ .success)).getD .success

def checkNoDanglingEdgesOrBasicBlocks (ir : MachineIR) (b : Nat) : MachineIRCheckStatus :=
  if (ir.bb b).outEdges = [] ∧ (ir.bb b).inEdges = [] then
    if ir.bbList.length ≠ 1 then .danglingBasicBlock else .success
  else firstFailure
    (((ir.bb b).outEdges.map fun e =>
        if e ∉ (ir.bb (ir.edge e).dst).inEdges then .danglingEdge
        else if (ir.edge e).dst ∉ ir.bbList then .danglingBasicBlock else .success) ++
      (ir.bb b).inEdges.map fun e =>
        if e ∉ (ir.bb (ir.edge e).src).outEdges then .danglingEdge
        else if (ir.edge e).src ∉ ir.bbList then .danglingBasicBlock else .success)

def checkInOutEdgesLinksToBasicBlock (ir : MachineIR) (b : Nat) : Bool :=
  (ir.bb b).inEdges.all (fun e => (ir.edge e).dst = b) &&
    (ir.bb b).outEdges.all (fun e => (ir.edge e).src = b)

def isBasicBlockSuccessor (ir : MachineIR) (src dst : Nat) : Bool := dst ∈ ir.succs src

/-- The first control transfer of a list is its last instruction, and leads to successors. -/
def checkControlTransferInsn (ir : MachineIR) (b : Nat) : List InsnNode → Bool
  | [] => false
  | n :: rest =>
    match n.insn.opcode with
    | .pseudoIndirectJump | .pseudoJump _ _ => rest = []
    | .pseudoBranch thenBb => rest = [] ∧ ir.isBasicBlockSuccessor b thenBb
    | .pseudoCondBranch _ thenBb elseBb =>
      rest = [] ∧ ir.isBasicBlockSuccessor b thenBb ∧ ir.isBasicBlockSuccessor b elseBb
    | _ => checkControlTransferInsn ir b rest

def checkBasicBlock (ir : MachineIR) (b : Nat) : MachineIRCheckStatus :=
  if !ir.checkInOutEdgesLinksToBasicBlock b then .fail
  else match ir.checkNoDanglingEdgesOrBasicBlocks b with
    | .success =>
      if ir.checkControlTransferInsn b (ir.bb b).insnList then .success else .fail
    | status => status

def checkMachineIR (ir : MachineIR) : MachineIRCheckStatus :=
  firstFailure (ir.bbList.map ir.checkBasicBlock)

/-! ### What the check makes sure of -/

def targets (opcode : MachineOpcode) : List Nat :=
  match opcode with
  | .pseudoBranch thenBb => [thenBb]
  | .pseudoCondBranch _ thenBb elseBb => [thenBb, elseBb]
  | _ => []

/-- Edges are known to both of their blocks, and these are in the list. -/
@[mk_iff]
structure Linked (ir : MachineIR) (b : Nat) : Prop where
  dst_eq : ∀ e ∈ (ir.bb b).inEdges, (ir.edge e).dst = b
  src_eq : ∀ e ∈ (ir.bb b).outEdges, (ir.edge e).src = b
  outEdge : ∀ e ∈ (ir.bb b).outEdges,
    e ∈ (ir.bb (ir.edge e).dst).inEdges ∧ (ir.edge e).dst ∈ ir.bbList
  inEdge : ∀ e ∈ (ir.bb b).inEdges,
    e ∈ (ir.bb (ir.edge e).src).outEdges ∧ (ir.edge e).src ∈ ir.bbList

/-- What the check makes sure of a block. -/
structure Checked (ir : MachineIR) (b : Nat) : Prop extends Linked ir b where
  terminator : ∃ pre last, (ir.bb b).insnList = pre ++ [last] ∧
    (∀ n ∈ pre, n.insn.isControlTransfer = false) ∧ last.insn.isControlTransfer = true ∧
    ∀ d ∈ targets last.insn.opcode, d ∈ ir.succs b

theorem firstFailure_eq_success {statuses : List MachineIRCheckStatus}
    (h : firstFailure statuses = .success) : ∀ x ∈ statuses, x = .success := by
  unfold firstFailure at h
  cases hfind : statuses.find? (· ≠ .success) with
  | none =>
    intro x hx
    have hnot := find?_eq_none.mp hfind x hx
    simpa using hnot
  | some y =>
    rw [hfind] at h
    have hy := find?_some hfind
    rw [show y = .success from h] at hy
    simp at hy

theorem edge_of_success {p q : Prop} [Decidable p] [Decidable q]
    (h : (if ¬ p then MachineIRCheckStatus.danglingEdge
      else if ¬ q then .danglingBasicBlock else .success) = .success) : p ∧ q := by
  by_cases hp : p
  · by_cases hq : q
    · exact ⟨hp, hq⟩
    · rw [if_neg (not_not.mpr hp), if_pos hq] at h
      cases h
  · rw [if_pos hp] at h
    cases h

variable {ir : MachineIR} {b : Nat}

theorem edges_of_noDangling (h : ir.checkNoDanglingEdgesOrBasicBlocks b = .success) :
    (∀ e ∈ (ir.bb b).outEdges, e ∈ (ir.bb (ir.edge e).dst).inEdges ∧ (ir.edge e).dst ∈ ir.bbList) ∧
    ∀ e ∈ (ir.bb b).inEdges,
      e ∈ (ir.bb (ir.edge e).src).outEdges ∧ (ir.edge e).src ∈ ir.bbList := by
  unfold checkNoDanglingEdgesOrBasicBlocks at h
  by_cases hnone : (ir.bb b).outEdges = [] ∧ (ir.bb b).inEdges = []
  · rw [hnone.1, hnone.2]
    exact ⟨fun e he => absurd he not_mem_nil, fun e he => absurd he not_mem_nil⟩
  · rw [if_neg hnone] at h
    have hall := firstFailure_eq_success h
    exact ⟨fun e he => edge_of_success (hall _ (mem_append_left _ (mem_map_of_mem he))),
      fun e he => edge_of_success (hall _ (mem_append_right _ (mem_map_of_mem he)))⟩

theorem terminator_of_check {insns : List InsnNode}
    (h : ir.checkControlTransferInsn b insns = true) :
    ∃ pre last, insns = pre ++ [last] ∧ (∀ n ∈ pre, n.insn.isControlTransfer = false) ∧
      last.insn.isControlTransfer = true ∧ ∀ d ∈ targets last.insn.opcode, d ∈ ir.succs b := by
  induction insns with
  | nil => cases h
  | cons n rest ih =>
    unfold checkControlTransferInsn at h
    -- A control transfer is the last instruction, with these targets.
    have hlast : ∀ ds, targets n.insn.opcode = ds → n.insn.isControlTransfer = true →
        rest = [] → (∀ d ∈ ds, d ∈ ir.succs b) → ∃ pre last, n :: rest = pre ++ [last] ∧
        (∀ n ∈ pre, n.insn.isControlTransfer = false) ∧ last.insn.isControlTransfer = true ∧
        ∀ d ∈ targets last.insn.opcode, d ∈ ir.succs b := by
      intro ds hds hct hnil hsuccs
      refine ⟨[], n, by rw [hnil, nil_append], ?_, hct, hds ▸ hsuccs⟩
      exact fun m hm => absurd hm not_mem_nil
    unfold isBasicBlockSuccessor at h
    cases hop : n.insn.opcode with
    | pseudoIndirectJump | pseudoJump =>
      simp only [hop, decide_eq_true_eq] at h
      exact hlast [] (by rw [hop]; rfl) (by unfold MachineInsn.isControlTransfer; rw [hop]; rfl)
        h (fun d hd => absurd hd not_mem_nil)
    | pseudoBranch thenBb =>
      simp only [hop, decide_eq_true_eq] at h
      refine hlast [thenBb] (by rw [hop]; rfl)
        (by unfold MachineInsn.isControlTransfer; rw [hop]; rfl) h.1 (fun d hd => ?_)
      rw [mem_singleton.mp hd]
      exact h.2
    | pseudoCondBranch cond thenBb elseBb =>
      simp only [hop, decide_eq_true_eq] at h
      refine hlast [thenBb, elseBb] (by rw [hop]; rfl)
        (by unfold MachineInsn.isControlTransfer; rw [hop]; rfl) h.1 (fun d hd => ?_)
      rcases mem_cons.mp hd with rfl | hd
      · exact h.2.1
      · rw [mem_singleton.mp hd]
        exact h.2.2
    | _ =>
      have hplain : n.insn.isControlTransfer = false := by
        unfold MachineInsn.isControlTransfer
        rw [hop]
        rfl
      simp only [hop] at h
      rcases ih h with ⟨pre, last, heq, hpre, hrest⟩
      refine ⟨n :: pre, last, by rw [heq, cons_append], fun m hm => ?_, hrest⟩
      rcases mem_cons.mp hm with rfl | hm
      · exact hplain
      · exact hpre m hm

theorem checked_of_success (h : ir.checkMachineIR = .success) (hb : b ∈ ir.bbList) :
    Checked ir b := by
  have hblock := firstFailure_eq_success h _ (mem_map_of_mem hb)
  unfold checkBasicBlock at hblock
  by_cases hlinks : ir.checkInOutEdgesLinksToBasicBlock b = true
  · rw [hlinks] at hblock
    cases hdangl : ir.checkNoDanglingEdgesOrBasicBlocks b with
    | success =>
      rw [hdangl] at hblock
      have hct : ir.checkControlTransferInsn b (ir.bb b).insnList = true := by
        by_contra hct
        simp [hct] at hblock
      rcases edges_of_noDangling hdangl with ⟨hout, hin⟩
      unfold checkInOutEdgesLinksToBasicBlock at hlinks
      simp only [Bool.and_eq_true, all_eq_true, decide_eq_true_eq] at hlinks
      exact ⟨⟨hlinks.1, hlinks.2, hout, hin⟩, terminator_of_check hct⟩
    | _ =>
      rw [hdangl] at hblock
      cases hblock
  · rw [Bool.eq_false_iff.mpr hlinks] at hblock
    cases hblock

theorem Checked.rest_nil (h : Checked ir b) {pre rest : List InsnNode} {n : InsnNode}
    (heq : (ir.bb b).insnList = pre ++ n :: rest) (hn : n.insn.isControlTransfer = true) :
    rest = [] := by
  rcases h.terminator with ⟨pre', last, heq', hpre, _, _⟩
  by_contra hne
  -- Otherwise it is not the last one, and the others are not control transfers.
  have hmem : n ∈ pre' := by
    have hdrop : (ir.bb b).insnList.dropLast = pre' := by
      rw [heq', dropLast_concat]
    rw [← hdrop, heq, dropLast_append_of_ne_nil (cons_ne_nil _ _), dropLast_cons_of_ne_nil hne]
    exact mem_append_right _ mem_cons_self
  rw [hpre n hmem] at hn
  cases hn

theorem isControlTransfer_of_mem_targets {opcode : MachineOpcode} {d : Nat}
    (h : d ∈ targets opcode) : opcode.isControlTransfer = true := by
  cases opcode with
  | pseudoBranch | pseudoCondBranch => rfl
  | _ => cases h

theorem Checked.target_mem_succs {d : Nat} (h : Checked ir b) {n : InsnNode}
    (hn : n ∈ (ir.bb b).insnList) (hd : d ∈ targets n.insn.opcode) : d ∈ ir.succs b := by
  rcases h.terminator with ⟨pre, last, heq, hpre, _, hsuccs⟩
  rw [heq] at hn
  rcases mem_append.mp hn with hn | hn
  · have hplain : n.insn.opcode.isControlTransfer = false := hpre n hn
    rw [isControlTransfer_of_mem_targets hd] at hplain
    cases hplain
  · rw [mem_singleton.mp hn] at hd
    exact hsuccs d hd

end MachineIR

end Berberis.Backend
