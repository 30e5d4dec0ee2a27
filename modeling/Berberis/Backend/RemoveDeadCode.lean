import Berberis.Backend.MachineIR

/-!
# Removal of Dead Code

The walk over a block goes from its end to its begin with a set of the registers that
are read later. The set is a vector of bits, as long as there are virtual registers, and
it is emptied before each block with `std::vector::clear`, which leaves no elements
in it. After that there is no index that is in range, so the pass is in range only
where it comes upon no virtual register at all.

## Theorems

* `removeDeadCode_inRange_iff`: When all indices are in range.
-/

namespace Berberis.Backend

open MachineReg

def MachineReg.getVRegIndex (r : MachineReg) : Nat := (r.reg - kFirstVRegNumber).toNat

def MachineInsn.uses (insn : MachineInsn) : List MachineReg :=
  (insn.operands.filter (·.1.isUse)).map (·.2)

structure VRegBitSet where
  bitSet : List Bool

namespace VRegBitSet

def new (size : Nat) : VRegBitSet := ⟨List.replicate size false⟩

def size (s : VRegBitSet) : Nat := s.bitSet.length

def clear (_ : VRegBitSet) : VRegBitSet := ⟨[]⟩

def write (s : VRegBitSet) (reg : MachineReg) (bit : Bool) : Option VRegBitSet :=
  if reg.getVRegIndex < s.size then some ⟨s.bitSet.set reg.getVRegIndex bit⟩ else none

/-- `RegUsageBitSet::Set`, and so on: hard registers are always in use. -/
def set (s : VRegBitSet) (reg : MachineReg) : Option VRegBitSet :=
  if reg.isVReg then s.write reg true else some s

def reset (s : VRegBitSet) (reg : MachineReg) : Option VRegBitSet :=
  if reg.isVReg then s.write reg false else some s

def isRegUsed (s : VRegBitSet) (reg : MachineReg) : Option Bool :=
  if reg.isVReg then s.bitSet[reg.getVRegIndex]? else some true

end VRegBitSet

/-- The loop over the defined registers ends with the first one that is in use. -/
def areResultsUsed (used : VRegBitSet) : List MachineReg → Option Bool
  | [] => some false
  | reg :: regs => (used.isRegUsed reg).bind fun isUsed =>
      if isUsed then some true else areResultsUsed used regs

section

variable (hasSideEffects : MachineInsn → Bool)

def isDead (insn : MachineInsn) (used : VRegBitSet) : Option Bool :=
  if hasSideEffects insn then some false else (areResultsUsed used insn.defs).map not

/-- The instructions of a block from the end on, with what was kept so far. -/
def removeInsns : List InsnNode → List InsnNode → VRegBitSet →
    Option (List InsnNode × VRegBitSet)
  | [], kept, used => some (kept, used)
  | node :: nodes, kept, used =>
    (isDead hasSideEffects node.insn used).bind fun dead =>
      (node.insn.defs.foldlM VRegBitSet.reset used).bind fun used =>
        if dead then removeInsns nodes kept used
        else (node.insn.uses.foldlM VRegBitSet.set used).bind
          (removeInsns nodes (node :: kept))

def removeInBlock (st : MachineIR × VRegBitSet) (b : Nat) : Option (MachineIR × VRegBitSet) :=
  ((st.1.bb b).liveOut.foldlM VRegBitSet.set st.2.clear).bind fun used =>
    (removeInsns hasSideEffects (st.1.bb b).insnList.reverse [] used).map fun r =>
      (st.1.setInsnList b r.1, r.2)

def removeDeadCode (ir : MachineIR) : Option MachineIR :=
  (ir.bbList.foldlM (removeInBlock hasSideEffects) (ir, VRegBitSet.new ir.numVReg)).map (·.1)

/-! ### What is dead -/

/-- A register is read by one of the instructions before it is defined again, or afterwards. -/
def isNeeded (liveOut : List MachineReg) (reg : MachineReg) : List InsnNode → Bool
  | [] => decide (reg ∈ liveOut)
  | node :: nodes => decide (reg ∈ node.insn.uses) ||
      (decide (reg ∉ node.insn.defs) && isNeeded liveOut reg nodes)

/-- What is to be left of a block: an instruction stays if it has side effects, or
    defines a hard register or one that an instruction after it that stays needs. -/
def keptInsns (liveOut : List MachineReg) : List InsnNode → List InsnNode
  | [] => []
  | node :: nodes =>
    let kept := keptInsns liveOut nodes
    if hasSideEffects node.insn ||
        node.insn.defs.any fun reg => !reg.isVReg || isNeeded liveOut reg kept
    then node :: kept else kept

def staysAlways (insn : MachineInsn) : Bool := hasSideEffects insn || !insn.defs.isEmpty

def touchesVReg (insn : MachineInsn) : Bool :=
  insn.defs.any MachineReg.isVReg ||
    (staysAlways hasSideEffects insn && insn.uses.any MachineReg.isVReg)

def MachineBasicBlock.touchesVReg (block : MachineBasicBlock) : Bool :=
  block.liveOut.any MachineReg.isVReg ||
    block.insnList.any fun node => Backend.touchesVReg hasSideEffects node.insn

variable {hasSideEffects}

/-! ### The empty set -/

theorem foldlM_empty {f : VRegBitSet → MachineReg → Option VRegBitSet}
    (hf : ∀ reg, f ⟨[]⟩ reg = if reg.isVReg then none else some ⟨[]⟩) (regs : List MachineReg) :
    regs.foldlM f ⟨[]⟩ = if regs.any isVReg then none else some ⟨[]⟩ := by
  induction regs with
  | nil => rfl
  | cons reg regs ih =>
    rw [List.foldlM_cons, hf]
    by_cases hreg : reg.isVReg = true
    · simp [hreg]
    · simp [hreg, ih]

theorem foldlM_set (regs : List MachineReg) :
    regs.foldlM VRegBitSet.set ⟨[]⟩ = if regs.any isVReg then none else some ⟨[]⟩ :=
  foldlM_empty (fun _ => rfl) regs

theorem foldlM_reset (regs : List MachineReg) :
    regs.foldlM VRegBitSet.reset ⟨[]⟩ = if regs.any isVReg then none else some ⟨[]⟩ :=
  foldlM_empty (fun _ => rfl) regs

theorem isDead_empty {insn : MachineInsn} (h : insn.defs.any isVReg = false) :
    isDead hasSideEffects insn ⟨[]⟩ = some !staysAlways hasSideEffects insn := by
  unfold isDead staysAlways
  cases hasSideEffects insn with
  | true => rfl
  | false =>
    cases hdefs : insn.defs with
    | nil => rfl
    | cons reg regs =>
      rw [hdefs, List.any_cons, Bool.or_eq_false_iff] at h
      simp [areResultsUsed, VRegBitSet.isRegUsed, h.1]

theorem removeInsns_cons (node : InsnNode) (nodes kept : List InsnNode) :
    removeInsns hasSideEffects (node :: nodes) kept ⟨[]⟩ =
      if touchesVReg hasSideEffects node.insn then none else removeInsns hasSideEffects nodes
        (if staysAlways hasSideEffects node.insn then node :: kept else kept) ⟨[]⟩ := by
  rw [removeInsns, foldlM_reset]
  unfold touchesVReg
  cases hdefs : node.insn.defs.any isVReg with
  | true => cases isDead hasSideEffects node.insn ⟨[]⟩ <;> rfl
  | false =>
    rw [isDead_empty hdefs]
    cases staysAlways hasSideEffects node.insn with
    | false => rfl
    | true =>
      show (node.insn.uses.foldlM VRegBitSet.set ⟨[]⟩).bind _ = _
      rw [foldlM_set]
      cases node.insn.uses.any isVReg <;> rfl

theorem removeInsns_empty (nodes kept : List InsnNode) :
    removeInsns hasSideEffects nodes kept ⟨[]⟩ =
      if nodes.any fun node => touchesVReg hasSideEffects node.insn then none
      else some ((nodes.filter fun node => staysAlways hasSideEffects node.insn).reverse ++ kept,
        ⟨[]⟩) := by
  induction nodes generalizing kept with
  | nil => rfl
  | cons node nodes ih =>
    rw [removeInsns_cons, List.any_cons, List.filter_cons]
    cases touchesVReg hasSideEffects node.insn with
    | true => rfl
    | false => cases hstays : staysAlways hasSideEffects node.insn <;> simp [ih]

theorem removeInBlock_eq (ir : MachineIR) (used : VRegBitSet) (b : Nat) :
    removeInBlock hasSideEffects (ir, used) b = if (ir.bb b).touchesVReg hasSideEffects then none
      else some (ir.setInsnList b ((ir.bb b).insnList.filter fun node =>
        staysAlways hasSideEffects node.insn), ⟨[]⟩) := by
  unfold removeInBlock MachineBasicBlock.touchesVReg VRegBitSet.clear
  rw [foldlM_set]
  cases (ir.bb b).liveOut.any isVReg with
  | true => rfl
  | false => simp [removeInsns_empty, apply_ite, List.any_reverse, List.filter_reverse]

/-- What is left of a block has no other registers, so that it does not matter whether
    the walk comes to a block again. -/
theorem touchesVReg_setInsnList {ir : MachineIR} {b : Nat}
    (h : (ir.bb b).touchesVReg hasSideEffects = false) (c : Nat) :
    ((ir.setInsnList b ((ir.bb b).insnList.filter fun node =>
      staysAlways hasSideEffects node.insn)).bb c).touchesVReg hasSideEffects =
      (ir.bb c).touchesVReg hasSideEffects := by
  unfold MachineIR.setInsnList
  rw [MachineIR.setBb_bb]
  split_ifs with hc
  · rw [hc, h]
    simp only [MachineBasicBlock.touchesVReg, Bool.or_eq_false_iff, List.any_eq_false] at h ⊢
    exact ⟨h.1, fun node hnode => h.2 node (List.mem_filter.mp hnode).1⟩
  · rfl

theorem removeInBlocks (blocks : List Nat) (ir : MachineIR) (used : VRegBitSet) :
    ((blocks.foldlM (removeInBlock hasSideEffects) (ir, used)).isSome = true ↔
        ∀ b ∈ blocks, (ir.bb b).touchesVReg hasSideEffects = false) ∧
      ∀ r, blocks.foldlM (removeInBlock hasSideEffects) (ir, used) = some r →
        ∀ c, (r.1.bb c).insnList = if c ∈ blocks then (ir.bb c).insnList.filter fun node =>
          staysAlways hasSideEffects node.insn else (ir.bb c).insnList := by
  induction blocks generalizing ir used with
  | nil =>
    refine ⟨by simp, ?_⟩
    rintro r ⟨⟩ c
    simp
  | cons b blocks ih =>
    rw [List.foldlM_cons, removeInBlock_eq]
    cases htouch : (ir.bb b).touchesVReg hasSideEffects with
    | true => simp [htouch]
    | false =>
      have hrest := ih (ir.setInsnList b ((ir.bb b).insnList.filter fun node =>
        staysAlways hasSideEffects node.insn)) ⟨[]⟩
      simp only [touchesVReg_setInsnList htouch] at hrest
      refine ⟨by simpa [htouch] using hrest.1, fun r hr c => ?_⟩
      rw [hrest.2 r hr c, MachineIR.setInsnList_insnList]
      by_cases hc : c = b
      · simp [hc]
      · simp [hc]

theorem keptInsns_eq_filter {liveOut : List MachineReg} {nodes : List InsnNode}
    (h : ∀ node ∈ nodes, touchesVReg hasSideEffects node.insn = false) :
    keptInsns hasSideEffects liveOut nodes =
      nodes.filter fun node => staysAlways hasSideEffects node.insn := by
  induction nodes with
  | nil => rfl
  | cons node nodes ih =>
    have hhard : ∀ reg ∈ node.insn.defs, reg.isVReg = false := by
      have hnode := h node (List.mem_cons_self ..)
      simp only [touchesVReg, Bool.or_eq_false_iff, List.any_eq_false] at hnode
      simpa using hnode.1
    have hstays : ∀ kept, (hasSideEffects node.insn || node.insn.defs.any fun reg =>
        !reg.isVReg || isNeeded liveOut reg kept) = staysAlways hasSideEffects node.insn := by
      intro kept
      cases hdefs : node.insn.defs with
      | nil => simp [staysAlways, hdefs]
      | cons reg regs => simp [staysAlways, hdefs, hhard reg (by simp [hdefs])]
    rw [keptInsns, ih fun node hnode => h node (List.mem_cons_of_mem _ hnode), List.filter_cons,
      hstays]

theorem foldl_filter_stays {V M : Type}
    {exec : MachineInsn → (MachineReg → V) × M → (MachineReg → V) × M}
    (hexec : ∀ insn s, hasSideEffects insn = false →
      (exec insn s).2 = s.2 ∧ ∀ reg, reg ∉ insn.defs → (exec insn s).1 reg = s.1 reg)
    (nodes : List InsnNode) (s : (MachineReg → V) × M) :
    (nodes.filter fun node => staysAlways hasSideEffects node.insn).foldl
        (fun s node => exec node.insn s) s =
      nodes.foldl (fun s node => exec node.insn s) s := by
  induction nodes generalizing s with
  | nil => rfl
  | cons node nodes ih =>
    rw [List.filter_cons, List.foldl_cons]
    cases hstays : staysAlways hasSideEffects node.insn with
    | true => exact ih _
    | false =>
      simp only [staysAlways, Bool.or_eq_false_iff, Bool.not_eq_false', List.isEmpty_iff] at hstays
      obtain ⟨hmem, hregs⟩ := hexec node.insn s hstays.1
      have hsame : exec node.insn s = s :=
        Prod.ext (funext fun reg => hregs reg (by simp [hstays.2])) hmem
      rw [hsame]
      exact ih s

/-- All indices are in range if and only if the pass comes upon no virtual register in
    any block. Then exactly the dead instructions of each block are removed, and the
    registers and everything else are after a block what they were. -/
theorem removeDeadCode_inRange_iff (hasSideEffects : MachineInsn → Bool) (ir : MachineIR) :
    ((removeDeadCode hasSideEffects ir).isSome = true ↔
        ∀ b ∈ ir.bbList, (ir.bb b).touchesVReg hasSideEffects = false) ∧
      ∀ ir', removeDeadCode hasSideEffects ir = some ir' → ∀ b ∈ ir.bbList,
        (ir'.bb b).insnList = keptInsns hasSideEffects (ir.bb b).liveOut (ir.bb b).insnList ∧
        ∀ (V M : Type) (exec : MachineInsn → (MachineReg → V) × M → (MachineReg → V) × M),
          (∀ insn s, hasSideEffects insn = false → (exec insn s).2 = s.2 ∧
            ∀ reg, reg ∉ insn.defs → (exec insn s).1 reg = s.1 reg) →
          ∀ s, (ir'.bb b).insnList.foldl (fun s node => exec node.insn s) s =
            (ir.bb b).insnList.foldl (fun s node => exec node.insn s) s := by
  obtain ⟨hiff, hlists⟩ := @removeInBlocks hasSideEffects ir.bbList ir
    (VRegBitSet.new ir.numVReg)
  refine ⟨by rw [removeDeadCode, Option.isSome_map, hiff], fun ir' hir' b hb => ?_⟩
  obtain ⟨r, hr, rfl⟩ := Option.map_eq_some_iff.mp hir'
  have htouches := hiff.mp (Option.isSome_of_mem hr) b hb
  simp only [MachineBasicBlock.touchesVReg, Bool.or_eq_false_iff, List.any_eq_false,
    Bool.not_eq_true] at htouches
  rw [hlists r hr b, if_pos hb]
  exact ⟨(keptInsns_eq_filter htouches.2).symm, fun V M exec hexec => foldl_filter_stays hexec _⟩

end

/-- One block, whose only instruction defines the register that is live after it. -/
def liveOutIr : MachineIR where
  bb := fun _ => { MachineBasicBlock.empty with
    insnList := [⟨0, newMovqRegImm (.createVRegFromIndex 0) 5⟩]
    liveOut := [.createVRegFromIndex 0] }
  edge := fun _ => ⟨0, 0⟩
  bbList := [0]
  bbOrder := .unordered
  numBb := 1
  numEdge := 0
  numNode := 1
  numVReg := 1

/-- The first index is 0, and there is a virtual register with it, but the set has no elements. -/
theorem removeDeadCode_liveOut : removeDeadCode (fun _ => false) liveOutIr = none ∧
      (VRegBitSet.new liveOutIr.numVReg).clear.size = 0 ∧ liveOutIr.numVReg = 1 :=
  ⟨rfl, rfl, rfl⟩

end Berberis.Backend
