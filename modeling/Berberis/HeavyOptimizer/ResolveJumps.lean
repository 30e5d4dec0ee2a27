import Berberis.HeavyOptimizer.BlockSplit

/-!
# Linking Jumps Inside a Region

`ResolveJumps` looks at the last instruction of each block. A jump to an
address of the region becomes a branch to the block that begins with the
address, which is split off first if need be. Blocks that are split off are
looked at too.

## Theorems

* `step_turnsLeft`: There are only so many turns.
* `resolveJumps_exact`: Linking is exact as long as each split meets
  `SplitOk`.
-/

namespace Berberis.HeavyOptimizer

open Backend List Option MachineIR Frontend Resolver

/-! ### What becomes of an original block -/

theorem pendingSignalsTest_shaped (cfg : FrontendConfig) :
    (MachineOpcode.cmpbMemBaseDispImm cfg.pendingSignalsStatusOffset
      cfg.pendingSignalsPresent).accesses?.getD [.use, .def_] = [.use, .def_] := rfl

def pendingSignalsTest (cfg : FrontendConfig) : MachineInsn :=
  ⟨.cmpbMemBaseDispImm cfg.pendingSignalsStatusOffset cfg.pendingSignalsPresent,
    [(⟨8, .use⟩, kCPUStatePointer), (⟨cfg.flagsSize, .def_⟩, cfg.flags)], none,
    pendingSignalsTest_shaped cfg⟩

/-- What stands in the place of a jump at node `j` to an address, linked to
    block `d`. Nodes that are put in are from `first` on. -/
inductive LinkedTo (cfg : FrontendConfig) (ir : MachineIR) (first target j d : Nat) :
    JumpKind → List InsnNode → Prop
  | forward : LinkedTo cfg ir first target j d .jumpWithoutPendingSignalsCheck
      [⟨j, newPseudoBranch d⟩]
  | backward (k e k' : Nat) (hk : first ≤ k) (hk' : first ≤ k')
      (he : (ir.bb e).insnList = [⟨k', newPseudoJump target .exitGeneratedCode⟩]) :
      LinkedTo cfg ir first target j d .jumpWithPendingSignalsCheck
        [⟨j, pendingSignalsTest cfg⟩, ⟨k, newPseudoCondBranch kEqual e d cfg.flagsSize cfg.flags⟩]

section

variable (cfg : FrontendConfig) (started : Nat → Option Nat) (fs₀ : Frontend)

/-- The jump at the end of `insns₀` has been replaced by a branch to a block
    that begins with the first node generated at or after its address, in the
    block in which the translation of the address began. -/
def Linked (ir : MachineIR) (insns₀ insns : List InsnNode) : Prop :=
  ∃ pre jump target kind tail d b m n, insns₀ = pre ++ [jump] ∧
    jump.insn.opcode = .pseudoJump target kind ∧ insns = pre ++ tail ∧
    LinkedTo cfg ir fs₀.ir.numNode target jump.pos d kind tail ∧
    fs₀.branchTargets.get? target = some ⟨some b, some (.node n)⟩ ∧
    started target = some m ∧ FirstFrom (fs₀.ir.nodes b) m n ∧ (ir.nodes d).head? = some n

/-- There is no jump to link at the end of a block: it must exit the region,
    or does not jump, or jumps out of the region. -/
def NotLinkable (b : Nat) : Prop :=
  (fs₀.ir.bb b).isRecovery = true ∨
  ∀ jump ∈ (fs₀.ir.bb b).insnList.getLast?, ∀ t, Frontend.jumpTarget jump.insn = some t →
    ∃ q, fs₀.branchTargets.get? t = some q ∧ q.bb = none

/-- Reading from an original block on, its instructions are there, with the jump at the end linked
    or not. If it is still to be linked, the block that it is in is in the worklist. -/
def BlockState (ir : MachineIR) (worklist : List Nat) (b : Nat) : Prop :=
  ∃ e insns, Spells ir fs₀.ir.numNode b e insns ∧
    (Linked cfg started fs₀ ir (fs₀.ir.bb b).insnList insns ∨
      insns = (fs₀.ir.bb b).insnList ∧
        (NotLinkable fs₀ b ∨
          e ∈ worklist ∧ ((ir.bb e).isRecovery = true → (fs₀.ir.bb b).isRecovery = true)))

def entryView (q : MachineInsnPosition) : Bool × Option InsnIt := (q.bb.isSome, q.it)

/-- The invariant of the resolution. -/
structure ResolveInv (st : Resolver) : Prop where
  nodes : NodesOk st.fs.ir
  grown : fs₀.ir.numNode ≤ st.fs.ir.numNode
  origin : ∀ c, ∃ b, ∀ n ∈ st.fs.ir.nodes c, n < fs₀.ir.numNode → n ∈ fs₀.ir.nodes b
  entries : EntriesOk st.fs
  kept : ∀ a, (st.fs.branchTargets.get? a).map entryView =
    (fs₀.branchTargets.get? a).map entryView
  blocks : ∀ b ∈ fs₀.ir.bbList, BlockState cfg started fs₀ st.fs.ir st.worklist b
  targets : ∀ b, ∀ n ∈ (st.fs.ir.bb b).insnList, ∀ t, Frontend.jumpTarget n.insn = some t →
    ∃ q, st.fs.branchTargets.get? t = some q
  work : ∀ b ∈ st.worklist, st.fs.ir.nodes b ≠ []

end

/-! ### Entries and original positions -/

section

variable {cfg : FrontendConfig} {started : Nat → Option Nat} {fs₀ : Frontend}
  (hres : Resolvable started fs₀)

variable {fs : Frontend} {t c p first d b f target : Nat} {ir : MachineIR} {rest : List Nat}
    {pre : List InsnNode} {jump : InsnNode} {kind : JumpKind}

include hres in
theorem entry_original (hkept : ∀ a, (fs.branchTargets.get? a).map entryView =
      (fs₀.branchTargets.get? a).map entryView)
    (ht : fs.branchTargets.get? t = some ⟨some c, some (.node p)⟩) :
    ∃ b m, fs₀.branchTargets.get? t = some ⟨some b, some (.node p)⟩ ∧ started t = some m ∧
      FirstFrom (fs₀.ir.nodes b) m p := by
  have hview := hkept t
  rw [ht] at hview
  rcases map_eq_some_iff.mp hview.symm with ⟨q, hq, heq⟩
  rcases Prod.mk.inj heq with ⟨hbb, hit⟩
  rcases hres.entries t q hq with hnone | ⟨b, m, n, rfl, hm, hfst⟩
  · rw [hnone] at hbb
    cases hbb
  · cases hit
    exact ⟨b, m, hq, hm, hfst⟩

include hres in
theorem entriesOrdered_of_inv {st : Resolver} (hinv : ResolveInv cfg started fs₀ st) :
    EntriesOrdered st.fs := by
  intro a a' c n n' hlt ha ha'
  rcases entry_original hres hinv.kept ha with ⟨b, m, _, hm, hfst⟩
  rcases entry_original hres hinv.kept ha' with ⟨b', m', _, hm', hfst'⟩
  -- Nodes that are in one block now were in one block to begin with.
  have hb : b = b' := by
    rcases hinv.origin c with ⟨o, ho⟩
    have hn := ho n (target_mem_nodes hinv.entries ha) (hres.nodes.bounded b n hfst.mem)
    have hn' := ho n' (target_mem_nodes hinv.entries ha') (hres.nodes.bounded b' n' hfst'.mem)
    rw [hres.nodes.unique b o n hfst.mem hn, hres.nodes.unique b' o n' hfst'.mem hn']
  have hle := hres.order a a' m m' hlt hm hm'
  exact hfst.least n' (hb ▸ hfst'.mem) (Nat.le_trans hle hfst'.le)

/-! ### Changes that links survive -/

/-- Blocks go on beginning with the nodes that they begin with. -/
def HeadsKept (ir ir' : MachineIR) : Prop :=
  ∀ d n, (ir.nodes d).head? = some n → (ir'.nodes d).head? = some n

def ExitsKept (first : Nat) (ir ir' : MachineIR) : Prop :=
  ∀ e k t, first ≤ k → (ir.bb e).insnList = [⟨k, newPseudoJump t .exitGeneratedCode⟩] →
    (ir'.bb e).insnList = (ir.bb e).insnList

theorem linked_mono {ir' : MachineIR} {insns₀ insns : List InsnNode}
    (h : Linked cfg started fs₀ ir insns₀ insns) (hheads : HeadsKept ir ir')
    (hexits : ExitsKept fs₀.ir.numNode ir ir') : Linked cfg started fs₀ ir' insns₀ insns := by
  rcases h with ⟨pre, jump, target, kind, tail, d, b, m, n, hold, hop, hnew, hto, hentry, hm,
    hfst, hhead⟩
  refine ⟨pre, jump, target, kind, tail, d, b, m, n, hold, hop, hnew, ?_, hentry, hm, hfst,
    hheads d n hhead⟩
  cases hto with
  | forward => exact .forward
  | backward k e k' hk hk' he =>
    exact .backward k e k' hk hk' ((hexits e k' target hk' he).trans he)

/-! ### The split of a turn -/

theorem headsKept_split (hir : NodesOk ir) (hp : p ∈ ir.nodes c)
    (hhead : (ir.nodes c).head? ≠ some p) : HeadsKept ir (ir.splitBasicBlock c p).1 := by
  intro d n hd
  have hne : ir.nodes d ≠ [] := by
    intro hnil
    rw [hnil] at hd
    cases hd
  rw [splitBasicBlock_nodes _ _ _ _ (hir.lt c (ne_nil_of_mem hp))]
  split_ifs with hdc hdn
  · rw [hdc] at hd
    cases hns : ir.nodes c with
    | nil =>
      rw [hns] at hd
      cases hd
    | cons x xs =>
      rw [hns] at hd hhead
      have hx : x ≠ p := fun heq => hhead (congrArg some heq)
      rw [takeWhile_cons_of_pos (by simpa using hx)]
      exact hd
  · exact absurd hdn (Nat.ne_of_lt (hir.lt d hne))
  · exact hd

theorem exitsKept_split (hir : NodesOk ir) (hp : p ∈ ir.nodes c) (hfst : p < first) :
    ExitsKept first ir (ir.splitBasicBlock c p).1 := by
  intro e k t hk he
  have hnod : ir.nodes e = [k] := by
    unfold MachineIR.nodes
    rw [he]
    rfl
  have hec : e ≠ c := by
    intro hec
    rw [← hec, hnod, mem_singleton] at hp
    omega
  have hen : e ≠ ir.numBb := Nat.ne_of_lt (hir.lt e (by rw [hnod]; exact cons_ne_nil _ _))
  rw [splitBasicBlock_insnList _ _ _ _ (hir.lt c (ne_nil_of_mem hp)), if_neg hec, if_neg hen]

include hres in
theorem target_lt {worklist : List Nat} (hinv : ResolveInv cfg started fs₀ ⟨fs, worklist⟩)
    (ht : fs.branchTargets.get? t = some ⟨some c, some (.node p)⟩) : p < fs₀.ir.numNode := by
  rcases entry_original hres hinv.kept ht with ⟨b, m, _, _, hfst⟩
  exact hres.nodes.bounded b p hfst.mem

theorem splitAt_kept (fs : Frontend) (t c p a : Nat) :
    ((splitAt fs t c p).branchTargets.get? a).map entryView =
      (fs.branchTargets.get? a).map entryView := by
  by_cases hren : Renamed fs t c a
  · rw [splitAt_get?_of_renamed p hren, Option.map_map]
    cases hq : fs.branchTargets.get? a with
    | none => rfl
    | some q =>
      have hbb : q.bb = some c :=
        hren.2 (a, q) (Lib.SortedMap.mem_toList.mpr hq) hren.1 (Nat.le_refl _)
      simp [entryView, hbb]
  · rw [splitAt_get?_of_not_renamed p hren]

theorem mem_insnList_split (hir : NodesOk ir) {n : InsnNode} (hp : p ∈ ir.nodes c)
    (hn : n ∈ ((ir.splitBasicBlock c p).1.bb d).insnList) :
    n = ⟨ir.numNode, newPseudoBranch ir.numBb⟩ ∨ ∃ b, n ∈ (ir.bb b).insnList := by
  rw [splitBasicBlock_insnList _ _ _ _ (hir.lt c (ne_nil_of_mem hp))] at hn
  split_ifs at hn
  · rcases mem_append.mp hn with hn | hn
    · exact Or.inr ⟨c, (takeWhile_sublist _).subset hn⟩
    · exact Or.inl (mem_singleton.mp hn)
  · exact Or.inr ⟨c, (dropWhile_sublist _).subset hn⟩
  · exact Or.inr ⟨d, hn⟩

theorem blockState_split {b₀ : Nat} (hir : NodesOk fs.ir)
    (hgrown : fs₀.ir.numNode ≤ fs.ir.numNode) (hp : p ∈ fs.ir.nodes c)
    (hfst : p < fs₀.ir.numNode) (hhead : (fs.ir.nodes c).head? ≠ some p)
    (h : BlockState cfg started fs₀ fs.ir (b :: rest) b₀) :
    BlockState cfg started fs₀ (fs.ir.splitBasicBlock c p).1
      ((if b = c then fs.ir.numBb else b) :: (rest ++ [fs.ir.numBb])) b₀ := by
  rcases h with ⟨e, insns, hspells, hstate⟩
  refine ⟨_, insns, spells_split hir hgrown hp hfst hspells, ?_⟩
  rcases hstate with hlink | ⟨heq, hpend⟩
  · exact Or.inl (linked_mono hlink (headsKept_split hir hp hhead) (exitsKept_split hir hp hfst))
  · refine Or.inr ⟨heq, ?_⟩
    rcases hpend with hnot | ⟨hwork, hrec⟩
    · exact Or.inl hnot
    · refine Or.inr ?_
      by_cases hec : e = c
      · -- The jump is in the new block, which is looked at later.
        rw [if_pos hec, splitBasicBlock_isRecovery, if_pos rfl]
        refine ⟨mem_cons_of_mem _ (mem_append_right _ mem_cons_self), fun hr => ?_⟩
        cases hr
      · rw [if_neg hec, splitBasicBlock_isRecovery]
        constructor
        · rcases mem_cons.mp hwork with rfl | hrest
          · rw [if_neg hec]
            exact mem_cons_self
          · exact mem_cons_of_mem _ (mem_append_left _ hrest)
        · intro hr
          split_ifs at hr
          exact hrec hr

include hres in
theorem inv_split (hinv : ResolveInv cfg started fs₀ ⟨fs, b :: rest⟩)
    (ht : fs.branchTargets.get? t = some ⟨some c, some (.node p)⟩)
    (hhead : (fs.ir.nodes c).head? ≠ some p) (hok : SplitOk fs t c p) : ResolveInv cfg started fs₀
      ⟨splitAt fs t c p, (if b = c then fs.ir.numBb else b) :: (rest ++ [fs.ir.numBb])⟩ := by
  have hir : NodesOk fs.ir := hinv.nodes
  have hp : p ∈ fs.ir.nodes c := target_mem_nodes hinv.entries ht
  have hc : c < fs.ir.numBb := hir.lt c (ne_nil_of_mem hp)
  have hfst : p < fs₀.ir.numNode := target_lt hres hinv ht
  have hnod := fun d => fs.ir.splitBasicBlock_nodes c p d hc
  refine ⟨nodesOk_split hir hp, Nat.le_succ_of_le hinv.grown, fun d => ?_,
    entriesOk_of_splitOk hir hinv.entries (entriesOrdered_of_inv hres hinv) ht hok,
    fun a => (splitAt_kept fs t c p a).trans (hinv.kept a),
    fun b₀ hb₀ => blockState_split hir hinv.grown hp hfst hhead (hinv.blocks b₀ hb₀),
    fun d n hn u hu => ?_, fun d hd => ?_⟩
  · -- Nodes are moved within what comes from one original block.
    show ∃ o, ∀ n ∈ (fs.ir.splitBasicBlock c p).1.nodes d, _
    rw [hnod]
    split_ifs
    · rcases hinv.origin c with ⟨o, ho⟩
      refine ⟨o, fun n hn hlt => ?_⟩
      rcases mem_append.mp hn with hn | hn
      · exact ho n ((takeWhile_sublist _).subset hn) hlt
      · have hgrown : fs₀.ir.numNode ≤ fs.ir.numNode := hinv.grown
        rw [mem_singleton.mp hn] at hlt
        omega
    · rcases hinv.origin c with ⟨o, ho⟩
      exact ⟨o, fun n hn hlt => ho n ((dropWhile_sublist _).subset hn) hlt⟩
    · exact hinv.origin d
  · have hget : ∃ q, fs.branchTargets.get? u = some q := by
      rcases mem_insnList_split hir hp hn with rfl | ⟨d', hd'⟩
      · cases hu
      · exact hinv.targets d' n hd' u hu
    rcases hget with ⟨q, hq⟩
    have hkept := splitAt_kept fs t c p u
    rw [hq] at hkept
    rcases map_eq_some_iff.mp hkept with ⟨q', hq', _⟩
    exact ⟨q', hq'⟩
  · have hnew : (fs.ir.splitBasicBlock c p).1.nodes fs.ir.numBb ≠ [] := by
      rw [hnod, if_neg (Ne.symm (Nat.ne_of_lt hc)), if_pos rfl]
      exact ne_nil_of_mem ((mem_dropWhile_ne _ p p (hir.sorted c) hp).mpr ⟨hp, Nat.le_refl _⟩)
    have hold : ∀ d ∈ b :: rest, (fs.ir.splitBasicBlock c p).1.nodes d ≠ [] := by
      intro d hd
      rw [hnod]
      split_ifs with hdc hdn
      · exact append_ne_nil_of_right_ne_nil _ (cons_ne_nil _ _)
      · exact absurd hdn (Nat.ne_of_lt (hir.lt d (hinv.work d hd)))
      · exact hinv.work d hd
    show (fs.ir.splitBasicBlock c p).1.nodes d ≠ []
    rcases mem_cons.mp hd with rfl | hd
    · split_ifs
      · exact hnew
      · exact hold b mem_cons_self
    · rcases mem_append.mp hd with hd | hd
      · exact hold d (mem_cons_of_mem _ hd)
      · rw [mem_singleton.mp hd]
        exact hnew

/-! ### The replacement of a jump -/

theorem overwriteLast_append (pre : List InsnNode) (n : InsnNode) (insn : MachineInsn) :
    overwriteLast (pre ++ [n]) insn = pre ++ [{ n with insn := insn }] := by
  unfold overwriteLast
  rw [length_append, length_singleton, Nat.add_sub_cancel]
  induction pre with
  | nil => rfl
  | cons x xs ih =>
    rw [cons_append, length_cons, modify_succ_cons, ih, cons_append]

/-- What the replacement of the jump at the end of block `f` does. -/
structure Replaced (cfg : FrontendConfig) (fs fs' : Frontend) (f d target : Nat)
    (kind : JumpKind) (pre : List InsnNode) (jump : InsnNode) : Prop where
  nodes : NodesOk fs'.ir
  numNode : fs.ir.numNode ≤ fs'.ir.numNode
  targets : fs'.branchTargets = fs.branchTargets
  tail : ∃ tail, (fs'.ir.bb f).insnList = pre ++ tail ∧
    ∀ first ≤ fs.ir.numNode, LinkedTo cfg fs'.ir first target jump.pos d kind tail
  others : ∀ c, c ≠ f → c ≠ fs.ir.numBb → (fs'.ir.bb c).insnList = (fs.ir.bb c).insnList
  exit_ : ∀ n ∈ (fs'.ir.bb fs.ir.numBb).insnList,
    fs.ir.numNode ≤ n.pos ∧ Frontend.jumpTarget n.insn = none
  recovery : ∀ c < fs.ir.numBb, (fs'.ir.bb c).isRecovery = (fs.ir.bb c).isRecovery

theorem nodesOk_overwriteLast (h : NodesOk ir) (f : Nat) (insn : MachineInsn) :
    NodesOk (ir.setInsnList f (overwriteLast (ir.bb f).insnList insn)) := by
  refine nodesOk_congr h (fun c => ?_) rfl (Nat.le_refl _)
  unfold MachineIR.nodes
  rw [setInsnList_insnList]
  split_ifs with hc
  · rw [hc]
    exact map_modify_eq_self _ _ _ _ (fun _ => rfl)
  · rfl

theorem nodesOk_addEdge (h : NodesOk ir) (src dst : Nat) : NodesOk (ir.addEdge src dst) :=
  nodesOk_congr h (fun c => addEdge_nodes ir src dst c) rfl (Nat.le_refl _)

theorem replace_forward (hir : NodesOk fs.ir) (hf : (fs.ir.bb f).insnList = pre ++ [jump]) :
    ∃ fs', fs.replaceJumpWithBranch cfg f d target .jumpWithoutPendingSignalsCheck = some fs' ∧
      Replaced cfg fs fs' f d target .jumpWithoutPendingSignalsCheck pre jump := by
  refine ⟨_, rfl, ?_, Nat.le_refl _, rfl, ?_, ?_, ?_, ?_⟩
  · exact nodesOk_addEdge (nodesOk_overwriteLast hir f _) f d
  · refine ⟨_, ?_, fun _ _ => .forward⟩
    rw [addEdge_insnList, setInsnList_insnList, if_pos rfl, hf, overwriteLast_append]
  · intro c hc _
    rw [addEdge_insnList, setInsnList_insnList, if_neg hc]
  · -- Nothing is in a block that does not exist.
    intro n hn
    have hnil : (fs.ir.bb fs.ir.numBb).insnList = [] := by
      by_contra hne
      exact Nat.lt_irrefl _ (hir.lt _ ((MachineIR.nodes_ne_nil_iff _ _).mpr hne))
    have hne : fs.ir.numBb ≠ f := by
      intro heq
      rw [heq, hf] at hnil
      exact append_ne_nil_of_right_ne_nil _ (cons_ne_nil _ _) hnil
    rw [addEdge_insnList, setInsnList_insnList, if_neg hne, hnil] at hn
    cases hn
  · intro c _
    rw [addEdge_isRecovery, setInsnList_isRecovery]

/-- The IR with a test and a conditional branch in the place of a jump. -/
def testedIr (cfg : FrontendConfig) (ir : MachineIR) (f d : Nat) : MachineIR :=
  let ir₁ := ir.newBasicBlock.1
  let ir₂ := ir₁.setInsnList f (Frontend.overwriteLast (ir₁.bb f).insnList (pendingSignalsTest cfg))
  ir₂.pushBack f (newPseudoCondBranch kEqual ir.numBb d cfg.flagsSize cfg.flags)

def backwardIr (cfg : FrontendConfig) (ir : MachineIR) (f d target : Nat) : MachineIR :=
  let ir₃ := testedIr cfg ir f d
  let ir₄ := { ir₃ with bbList := ir₃.bbList ++ [ir.numBb] }
  ((ir₄.pushBack ir.numBb (newPseudoJump target .exitGeneratedCode)).addEdge f ir.numBb).addEdge f d

theorem testedIr_insnList (cfg : FrontendConfig) (ir : MachineIR) (d c : Nat)
    (hf : (ir.bb f).insnList = pre ++ [jump]) (hlt : f < ir.numBb) :
    ((testedIr cfg ir f d).bb c).insnList = if c = ir.numBb then []
      else if c = f then pre ++ [⟨jump.pos, pendingSignalsTest cfg⟩,
        ⟨ir.numNode, newPseudoCondBranch kEqual ir.numBb d cfg.flagsSize cfg.flags⟩]
      else (ir.bb c).insnList := by
  have hne : f ≠ ir.numBb := Nat.ne_of_lt hlt
  unfold testedIr
  simp only [pushBack_insnList, setInsnList_insnList, newBasicBlock_bb]
  by_cases hcn : c = ir.numBb
  · simp only [hcn, if_neg hne.symm, if_true]
    rfl
  · by_cases hcf : c = f
    · simp only [hcf, if_neg hne, if_true, hf, overwriteLast_append, append_assoc, singleton_append]
      rfl
    · simp [if_neg hcn, if_neg hcf]

theorem backwardIr_insnList (cfg : FrontendConfig) (ir : MachineIR) (d target c : Nat)
    (hf : (ir.bb f).insnList = pre ++ [jump]) (hlt : f < ir.numBb) :
    ((backwardIr cfg ir f d target).bb c).insnList =
      if c = ir.numBb then [⟨ir.numNode + 1, newPseudoJump target .exitGeneratedCode⟩]
      else ((testedIr cfg ir f d).bb c).insnList := by
  unfold backwardIr
  rw [addEdge_insnList, addEdge_insnList, pushBack_insnList]
  rw [testedIr_insnList cfg ir d _ hf hlt, if_pos rfl]
  rfl

theorem nodesOk_backwardIr (h : NodesOk ir) (d target : Nat) (hlt : f < ir.numBb) :
    NodesOk (backwardIr cfg ir f d target) := by
  have h₃ := nodesOk_pushBack (nodesOk_overwriteLast (nodesOk_newBasicBlock h) f
    (pendingSignalsTest cfg)) f (newPseudoCondBranch kEqual ir.numBb d cfg.flagsSize cfg.flags)
    (Nat.lt_succ_of_lt hlt)
  have h₄ : NodesOk { testedIr cfg ir f d with
      bbList := (testedIr cfg ir f d).bbList ++ [ir.numBb] } :=
    nodesOk_congr h₃ (fun _ => rfl) rfl (Nat.le_refl _)
  exact nodesOk_addEdge
    (nodesOk_addEdge (nodesOk_pushBack h₄ ir.numBb _ (Nat.lt_succ_self _)) _ _) _ _

theorem replace_backward (hir : NodesOk fs.ir) (hf : (fs.ir.bb f).insnList = pre ++ [jump]) :
    ∃ fs', fs.replaceJumpWithBranch cfg f d target .jumpWithPendingSignalsCheck = some fs' ∧
      Replaced cfg fs fs' f d target .jumpWithPendingSignalsCheck pre jump := by
  have hlt : f < fs.ir.numBb := by
    refine hir.lt f ?_
    rw [MachineIR.nodes_ne_nil_iff, hf]
    exact append_ne_nil_of_right_ne_nil _ (cons_ne_nil _ _)
  have htest := fun c => testedIr_insnList cfg fs.ir d c hf hlt
  have hlist := fun c => backwardIr_insnList cfg fs.ir d target c hf hlt
  refine ⟨{ fs with ir := backwardIr cfg fs.ir f d target, bb := fs.ir.numBb }, ?_,
    nodesOk_backwardIr hir d target hlt, Nat.le_add_right _ 2, rfl, ?_, ?_, ?_, ?_⟩
  · -- The new block is empty when it is started.
    have hnil : ((testedIr cfg fs.ir f d).bb fs.ir.numBb).insnList = [] := by
      rw [htest, if_pos rfl]
    have hst : ({ fs with ir := testedIr cfg fs.ir f d } : Frontend).startBasicBlock
        fs.ir.numBb = some _ := if_pos hnil
    exact bind_eq_some_iff.mpr ⟨_, hst, rfl⟩
  · refine ⟨_, ?_, fun first hfst => .backward fs.ir.numNode fs.ir.numBb (fs.ir.numNode + 1) hfst
      (Nat.le_succ_of_le hfst) ?_⟩
    · rw [hlist, if_neg (Nat.ne_of_lt hlt), htest, if_neg (Nat.ne_of_lt hlt), if_pos rfl]
    · rw [hlist, if_pos rfl]
  · intro c hcf hcn
    rw [hlist, if_neg hcn, htest, if_neg hcn, if_neg hcf]
  · intro n hn
    rw [hlist, if_pos rfl] at hn
    rw [mem_singleton.mp hn]
    exact ⟨Nat.le_succ _, rfl⟩
  · intro c hc
    unfold backwardIr testedIr
    simp [addEdge_isRecovery, pushBack_isRecovery, setInsnList_isRecovery, newBasicBlock_bb,
      if_neg (Nat.ne_of_lt hc)]

theorem replace_total (cfg : FrontendConfig) (d target : Nat) (hir : NodesOk fs.ir)
    (hf : (fs.ir.bb f).insnList = pre ++ [jump]) (hkind : isLinkable kind = true) :
    ∃ fs', fs.replaceJumpWithBranch cfg f d target kind = some fs' ∧
      Replaced cfg fs fs' f d target kind pre jump := by
  cases kind with
  | jumpWithPendingSignalsCheck => exact replace_backward hir hf
  | jumpWithoutPendingSignalsCheck => exact replace_forward hir hf
  | exitGeneratedCode => cases hkind
  | syscall => cases hkind

section

variable {j : Nat} {tail : List InsnNode} (h : LinkedTo cfg ir first target j d kind tail)
include h

theorem LinkedTo.nodes :
    ∃ new, tail.map (·.pos) = j :: new ∧ ∀ k ∈ new, first ≤ k := by
  cases h with
  | forward => exact ⟨[], rfl, fun k hk => absurd hk not_mem_nil⟩
  | backward k e k' hk hk' he =>
    refine ⟨[k], rfl, fun x hx => ?_⟩
    rw [mem_singleton.mp hx]
    exact hk

theorem LinkedTo.not_jump :
    ∀ n ∈ tail, jumpTarget n.insn = none := by
  cases h with
  | forward =>
    intro n hn
    rw [mem_singleton.mp hn]
    rfl
  | backward k e k' hk hk' he =>
    intro n hn
    rcases mem_cons.mp hn with rfl | hn
    · rfl
    · rw [mem_singleton.mp hn]
      rfl

end

section

variable {fs fs' : Frontend} {f d target : Nat} {kind : JumpKind} {pre : List InsnNode}
  {jump : InsnNode} (hir : NodesOk fs.ir) (hf : (fs.ir.bb f).insnList = pre ++ [jump])
  (hjump : Frontend.jumpTarget jump.insn = some target)
  (hrep : Replaced cfg fs fs' f d target kind pre jump)

variable {c : Nat}

include hir hrep in
theorem Replaced.same (hc : c ≠ f) (hne : (fs.ir.bb c).insnList ≠ []) :
    (fs'.ir.bb c).insnList = (fs.ir.bb c).insnList :=
  hrep.others c hc (Nat.ne_of_lt (hir.lt c ((MachineIR.nodes_ne_nil_iff _ c).mpr hne)))

include hf hrep in
theorem Replaced.nodes_self : ∃ new, fs'.ir.nodes f = fs.ir.nodes f ++ new ∧
    ∀ k ∈ new, fs.ir.numNode ≤ k := by
  rcases hrep.tail with ⟨tail, htail, hlink⟩
  rcases (hlink _ (Nat.le_refl _)).nodes with ⟨new, hnew, hge⟩
  refine ⟨new, ?_, hge⟩
  unfold MachineIR.nodes
  rw [htail, hf, map_append, map_append, hnew, append_assoc]
  rfl

include hir hf hrep in
theorem Replaced.nodes_append (hne : fs.ir.nodes c ≠ []) :
    ∃ new, fs'.ir.nodes c = fs.ir.nodes c ++ new ∧ ∀ k ∈ new, fs.ir.numNode ≤ k := by
  by_cases hc : c = f
  · rw [hc]
    exact hrep.nodes_self hf
  · refine ⟨[], ?_, fun k hk => absurd hk not_mem_nil⟩
    unfold MachineIR.nodes
    rw [hrep.same hir hc ((MachineIR.nodes_ne_nil_iff _ c).mp hne), append_nil]

include hir hf hrep in
theorem Replaced.mem_nodes {n : Nat} (hn : n ∈ fs'.ir.nodes c) (hlt : n < fs.ir.numNode) :
    n ∈ fs.ir.nodes c := by
  by_cases hne : fs.ir.nodes c = []
  · have hcf : c ≠ f := by
      intro hcf
      rw [hcf, show fs.ir.nodes f = _ from congrArg (List.map _) hf, map_append] at hne
      exact append_ne_nil_of_right_ne_nil _ (cons_ne_nil _ _) hne
    by_cases hcn : c = fs.ir.numBb
    · rcases mem_map.mp hn with ⟨x, hx, rfl⟩
      rw [hcn] at hx
      have := (hrep.exit_ x hx).1
      omega
    · unfold MachineIR.nodes at hn ⊢
      rw [hrep.others c hcf hcn] at hn
      exact hn
  · rcases hrep.nodes_append hir hf hne with ⟨new, heq, hge⟩
    rw [heq] at hn
    rcases mem_append.mp hn with hn | hn
    · exact hn
    · have := hge n hn
      omega

include hir hf hrep in
theorem headsKept_replace : HeadsKept fs.ir fs'.ir := by
  intro c n hc
  have hne : fs.ir.nodes c ≠ [] := by
    intro hnil
    rw [hnil] at hc
    cases hc
  rcases hrep.nodes_append hir hf hne with ⟨new, heq, _⟩
  rw [heq, head?_append_of_ne_nil _ hne]
  exact hc

include hir hf hjump hrep in
theorem exitsKept_replace (first : Nat) : ExitsKept first fs.ir fs'.ir := by
  intro e k t _ he
  refine hrep.same hir (fun hef => ?_) (by rw [he]; exact cons_ne_nil _ _)
  rw [hef, hf] at he
  have hlast := congrArg List.getLast? he
  rw [getLast?_concat, getLast?_singleton, some.injEq] at hlast
  rw [hlast] at hjump
  cases hjump

include hir hf hjump hrep in
theorem spells_replace {first b e : Nat} {insns : List InsnNode}
    (h : Spells fs.ir first b e insns) : ∃ xs, insns = xs ++ (fs.ir.bb e).insnList ∧
      Spells fs'.ir first b e (xs ++ (fs'.ir.bb e).insnList) := by
  induction h with
  | last c insns h hne =>
    refine ⟨[], by rw [h, nil_append], .last c _ rfl ?_⟩
    rw [← h, ← MachineIR.nodes_ne_nil_iff] at hne
    rcases hrep.nodes_append hir hf hne with ⟨new, heq, _⟩
    rw [nil_append, ← MachineIR.nodes_ne_nil_iff, heq]
    exact append_ne_nil_of_left_ne_nil hne _
  | branch c d' e k pre' insns h hk hd ih =>
    rcases ih with ⟨xs, heq, hspells⟩
    have hcf : c ≠ f := by
      intro hcf
      rw [hcf, hf] at h
      have hlast := congrArg List.getLast? h
      rw [getLast?_concat, getLast?_concat, some.injEq] at hlast
      rw [hlast] at hjump
      cases hjump
    have hsame := hrep.same hir hcf (by
      rw [h]
      exact append_ne_nil_of_right_ne_nil _ (cons_ne_nil _ _))
    refine ⟨pre' ++ xs, by rw [heq, append_assoc], ?_⟩
    rw [append_assoc]
    exact .branch c d' e k pre' _ (hsame.trans h) hk hspells

include hir hf hjump hrep in
theorem blockState_replace (hgrown : fs₀.ir.numNode ≤ fs.ir.numNode) {rest : List Nat}
    {b₀ b m p : Nat} (hop : jump.insn.opcode = .pseudoJump target kind)
    (hentry : fs₀.branchTargets.get? target = some ⟨some b, some (.node p)⟩)
    (hm : started target = some m) (hfst : FirstFrom (fs₀.ir.nodes b) m p)
    (hhead : (fs.ir.nodes d).head? = some p) (h : BlockState cfg started fs₀ fs.ir (f :: rest) b₀) :
    BlockState cfg started fs₀ fs'.ir rest b₀ := by
  have hheads := headsKept_replace hir hf hrep
  rcases h with ⟨e, insns, hspells, hstate⟩
  rcases spells_replace hir hf hjump hrep hspells with ⟨xs, heq, hspells'⟩
  refine ⟨e, _, hspells', ?_⟩
  have hene := (spells_suffix hspells).1
  rcases hstate with hlink | ⟨hsame, hpend⟩
  · -- A linked jump is no jump any more.
    have hef : e ≠ f := by
      intro hef
      have hlast := spells_getLast? hspells
      rcases hlink with ⟨pre', jump', t', kind', tail, d', _, _, _, _, _, hins, hto, _⟩
      have hne : tail ≠ [] := by
        intro hnil
        rcases hto.nodes with ⟨new, hnew, _⟩
        rw [hnil] at hnew
        cases hnew
      rw [hef, hf, hins, getLast?_concat, getLast?_append_of_ne_nil _ hne] at hlast
      rw [hto.not_jump jump (mem_of_getLast? hlast.symm)] at hjump
      cases hjump
    rw [hrep.same hir hef hene, ← heq]
    exact Or.inl (linked_mono hlink hheads (exitsKept_replace hir hf hjump hrep _))
  · by_cases hef : e = f
    · rcases hrep.tail with ⟨tail, htail, hto⟩
      rw [hef, htail]
      rw [hef, hf] at heq
      refine Or.inl ⟨xs ++ pre, jump, target, kind, tail, d, b, m, p, ?_, hop, ?_, hto _ hgrown,
        hentry, hm, hfst, hheads d p hhead⟩
      · rw [← hsame, heq, append_assoc]
      · rw [append_assoc]
    · rw [hrep.same hir hef hene, ← heq]
      refine Or.inr ⟨hsame, ?_⟩
      rcases hpend with hnot | ⟨hwork, hrec⟩
      · exact Or.inl hnot
      · refine Or.inr ⟨(mem_cons.mp hwork).resolve_left hef, fun hr => hrec ?_⟩
        rw [← hrep.recovery e (hir.lt e ((MachineIR.nodes_ne_nil_iff _ e).mpr hene))]
        exact hr

end

include hres in
theorem inv_replace {fs' : Frontend} (hinv : ResolveInv cfg started fs₀ ⟨fs, f :: rest⟩)
    (hf : (fs.ir.bb f).insnList = pre ++ [jump])
    (hop : jump.insn.opcode = .pseudoJump target kind) (hkind : isLinkable kind = true)
    (ht : fs.branchTargets.get? target = some ⟨some d, some (.node p)⟩)
    (hhead : (fs.ir.nodes d).head? = some p) (hrep : Replaced cfg fs fs' f d target kind pre jump) :
    ResolveInv cfg started fs₀ ⟨fs', rest⟩ := by
  have hir : NodesOk fs.ir := hinv.nodes
  have hgrown : fs₀.ir.numNode ≤ fs.ir.numNode := hinv.grown
  have hjump : jumpTarget jump.insn = some target := by
    unfold jumpTarget
    rw [hop]
    exact if_pos hkind
  rcases entry_original hres hinv.kept ht with ⟨b, m, hentry, hm, hfst⟩
  refine ⟨hrep.nodes, Nat.le_trans hgrown hrep.numNode, fun c => ?_, ?_, ?_, ?_, ?_, ?_⟩
  · rcases hinv.origin c with ⟨o, ho⟩
    exact ⟨o, fun n hn hlt => ho n (hrep.mem_nodes hir hf hn (Nat.lt_of_lt_of_le hlt hgrown)) hlt⟩
  · intro a q hq c hc
    have hq : fs'.branchTargets.get? a = some q := hq
    rw [hrep.targets] at hq
    rcases hinv.entries a q hq c hc with ⟨n, hit, hn⟩
    rcases hrep.nodes_append hir hf (ne_nil_of_mem hn) with ⟨new, heq, _⟩
    refine ⟨n, hit, ?_⟩
    show n ∈ fs'.ir.nodes c
    rw [heq]
    exact mem_append_left _ hn
  · intro a
    show (fs'.branchTargets.get? a).map entryView = _
    rw [hrep.targets]
    exact hinv.kept a
  · intro b₀ hb₀
    exact blockState_replace hir hf hjump hrep hgrown hop hentry hm hfst hhead
      (hinv.blocks b₀ hb₀)
  · intro c n hn t ht
    show ∃ q, fs'.branchTargets.get? t = some q
    rw [hrep.targets]
    have hn : n ∈ (fs'.ir.bb c).insnList := hn
    -- What is put in place of the jump is not a jump to a guest address.
    by_cases hcf : c = f
    · rcases hrep.tail with ⟨tail, htail, hto⟩
      rw [hcf, htail] at hn
      rcases mem_append.mp hn with hn | hn
      · refine hinv.targets f n ?_ t ht
        show n ∈ (fs.ir.bb f).insnList
        rw [hf]
        exact mem_append_left _ hn
      · rw [(hto _ (Nat.le_refl _)).not_jump n hn] at ht
        cases ht
    · by_cases hcn : c = fs.ir.numBb
      · rw [hcn] at hn
        rw [(hrep.exit_ n hn).2] at ht
        cases ht
      · rw [hrep.others c hcf hcn] at hn
        exact hinv.targets c n hn t ht
  · intro c hc
    have hne := hinv.work c (mem_cons_of_mem f hc)
    rcases hrep.nodes_append hir hf hne with ⟨new, heq, _⟩
    show fs'.ir.nodes c ≠ []
    rw [heq]
    exact append_ne_nil_of_left_ne_nil hne _

/-! ### A turn -/

/-- The split that a turn makes: the address, its block and its node. -/
def turnSplit (st : Resolver) : Option (Nat × Nat × Nat) :=
  match st.worklist with
  | [] => none
  | b :: _ =>
    if (st.fs.ir.bb b).isRecovery then none
    else match (st.fs.ir.bb b).insnList.getLast?.bind (Frontend.jumpTarget ·.insn) with
      | none => none
      | some t =>
        match st.fs.branchTargets.get? t with
        | some ⟨some c, some (.node p)⟩ =>
          if (st.fs.ir.bb c).insnList.head?.map (·.pos) = some p then none
          else some (t, c, p)
        | _ => none

def TurnOk (st : Resolver) (_ : Unit) : Prop :=
  ∀ x ∈ turnSplit st, SplitOk st.fs x.1 x.2.1 x.2.2

instance (st : Resolver) (u : Unit) : Decidable (TurnOk st u) :=
  inferInstanceAs (Decidable (∀ x ∈ turnSplit st, SplitOk st.fs x.1 x.2.1 x.2.2))

def Skipped (fs : Frontend) (b : Nat) : Prop :=
  (fs.ir.bb b).isRecovery = true ∨
  ∀ jump ∈ (fs.ir.bb b).insnList.getLast?, ∀ t, Frontend.jumpTarget jump.insn = some t →
    ∃ q, fs.branchTargets.get? t = some q ∧ q.bb = none

/-- What a turn does with the block in front: leave it alone, link the jump at
    its end, or split the block of the target and link the jump. -/
inductive Turn (cfg : FrontendConfig) (fs : Frontend) (b : Nat) (rest : List Nat) :
    Option (Nat × Nat × Nat) → Resolver → Prop
  | skip (h : Skipped fs b) : Turn cfg fs b rest none ⟨fs, rest⟩
  | link (fs' : Frontend) (target c p : Nat) (kind : JumpKind) (pre : List InsnNode)
      (jump : InsnNode) (hf : (fs.ir.bb b).insnList = pre ++ [jump])
      (hop : jump.insn.opcode = .pseudoJump target kind)
      (hkind : Frontend.isLinkable kind = true)
      (ht : fs.branchTargets.get? target = some ⟨some c, some (.node p)⟩)
      (hhead : (fs.ir.nodes c).head? = some p)
      (hrep : Replaced cfg fs fs' b c target kind pre jump) : Turn cfg fs b rest none ⟨fs', rest⟩
  | split (fs' : Frontend) (target c p f : Nat) (kind : JumpKind) (pre : List InsnNode)
      (jump : InsnNode) (hb : f = if b = c then fs.ir.numBb else b)
      (hf : ((splitAt fs target c p).ir.bb f).insnList = pre ++ [jump])
      (hop : jump.insn.opcode = .pseudoJump target kind)
      (hkind : Frontend.isLinkable kind = true)
      (ht : fs.branchTargets.get? target = some ⟨some c, some (.node p)⟩)
      (hhead : (fs.ir.nodes c).head? ≠ some p)
      (hrep : Replaced cfg (splitAt fs target c p) fs' f fs.ir.numBb target kind pre jump) :
      Turn cfg fs b rest (some (target, c, p)) ⟨fs', rest ++ [fs.ir.numBb]⟩

theorem splitAt_last (hir : NodesOk fs.ir) (hp : p ∈ fs.ir.nodes c)
    (hf : (fs.ir.bb b).insnList = pre ++ [jump]) :
    ∃ pre', ((splitAt fs t c p).ir.bb (if b = c then fs.ir.numBb else b)).insnList =
      pre' ++ [jump] := by
  have hc : c < fs.ir.numBb := hir.lt c (ne_nil_of_mem hp)
  have hlist := fun d => fs.ir.splitBasicBlock_insnList c p d hc
  have hlast : (fs.ir.bb b).insnList.getLast? = some jump := by
    rw [hf, getLast?_concat]
  show ∃ pre', ((fs.ir.splitBasicBlock c p).1.bb _).insnList = pre' ++ [jump]
  by_cases hbc : b = c
  · rw [if_pos hbc, hlist, if_neg (Ne.symm (Nat.ne_of_lt hc)), if_pos rfl]
    rw [hbc, ← takeWhile_append_dropWhile (p := (·.pos ≠ p)) (l := (fs.ir.bb c).insnList),
      getLast?_append_of_ne_nil _ (dropWhile_pos_ne_nil _ p hp)] at hlast
    exact getLast?_eq_some_iff.mp hlast
  · have hbn : b ≠ fs.ir.numBb := by
      refine Nat.ne_of_lt (hir.lt b ?_)
      rw [MachineIR.nodes_ne_nil_iff, hf]
      exact append_ne_nil_of_right_ne_nil _ (cons_ne_nil _ _)
    rw [if_neg hbc, hlist, if_neg hbc, if_neg hbn]
    exact ⟨pre, hf⟩

theorem targetBlock_head (h : (fs.ir.bb c).insnList.head?.map (·.pos) = some p) :
    targetBlock fs t c p = some (fs, none) :=
  if_pos h

theorem targetBlock_split (h : ¬ (fs.ir.bb c).insnList.head?.map (·.pos) = some p)
    (hp : p ∈ fs.ir.nodes c) : targetBlock fs t c p = some (splitAt fs t c p, some fs.ir.numBb) :=
  (if_neg h).trans (if_pos hp)

theorem skipped_of_jumpTarget (hlast : (fs.ir.bb b).insnList.getLast? = some jump)
    (h : ∀ t, jumpTarget jump.insn = some t →
      ∃ q, fs.branchTargets.get? t = some q ∧ q.bb = none) : Skipped fs b := by
  refine Or.inr fun jump' hjump' t ht => ?_
  rw [hlast, mem_some_iff] at hjump'
  rw [← hjump'] at ht
  exact h t ht

theorem step_turn (hinv : ResolveInv cfg started fs₀ ⟨fs, b :: rest⟩) :
    ∃ st', step cfg ⟨fs, b :: rest⟩ () = some st' ∧
      Turn cfg fs b rest (turnSplit ⟨fs, b :: rest⟩) st' := by
  have hir : NodesOk fs.ir := hinv.nodes
  unfold step turnSplit
  dsimp only
  by_cases hrec : (fs.ir.bb b).isRecovery = true
  · rw [if_pos hrec, if_pos hrec]
    exact ⟨_, rfl, .skip (Or.inl hrec)⟩
  rw [if_neg hrec, if_neg hrec]
  have hne := (MachineIR.nodes_ne_nil_iff _ b).mp (hinv.work b mem_cons_self)
  have hlast := getLast?_eq_some_getLast hne
  generalize (fs.ir.bb b).insnList.getLast hne = jump at hlast
  rcases getLast?_eq_some_iff.mp hlast with ⟨pre, hf⟩
  rw [hlast]
  simp only [bind, bind_some]
  cases hop : jump.insn.opcode with
  | pseudoJump target kind =>
    by_cases hkind : isLinkable kind = true
    · have hjump : jumpTarget jump.insn = some target := by
        unfold jumpTarget
        rw [hop]
        exact if_pos hkind
      have hmem : jump ∈ (fs.ir.bb b).insnList := mem_of_getLast? hlast
      rcases hinv.targets b jump hmem target hjump with ⟨q, hq⟩
      have hq : fs.branchTargets.get? target = some q := hq
      dsimp only
      rw [if_pos hkind, hjump]
      simp only [hq, bind_some]
      cases hbb : q.bb with
      | none =>
        -- The target was seen but never translated: the jump leaves the region.
        rcases q with ⟨_, it⟩
        cases hbb
        refine ⟨_, rfl, .skip (skipped_of_jumpTarget hlast fun t ht => ?_)⟩
        rw [hjump, some.injEq] at ht
        exact ⟨_, ht ▸ hq, rfl⟩
      | some c =>
        rcases entry_eq hinv.entries hq hbb with ⟨p, rfl, hp⟩
        have hnod : (fs.ir.nodes c).head? = (fs.ir.bb c).insnList.head?.map (·.pos) :=
          head?_map
        dsimp only
        by_cases hhead : (fs.ir.bb c).insnList.head?.map (·.pos) = some p
        · -- The target is the first instruction of its block.
          rcases replace_total cfg c target hir hf hkind with ⟨fs', hfs', hrep⟩
          rw [if_pos hhead, targetBlock_head hhead]
          refine ⟨⟨fs', rest⟩, ?_, .link fs' target c p kind pre jump hf hop hkind hq
            (hnod.trans hhead) hrep⟩
          simp [hfs', pure]
        · -- The block is split before the target, and may be the block of the jump itself.
          rcases splitAt_last hir (t := target) hp hf with ⟨pre', hf'⟩
          rcases replace_total cfg fs.ir.numBb target (nodesOk_split hir hp) hf' hkind with
            ⟨fs', hfs', hrep⟩
          rw [if_neg hhead, targetBlock_split hhead hp]
          refine ⟨⟨fs', rest ++ [fs.ir.numBb]⟩, ?_, .split fs' target c p _ kind pre' jump rfl
            hf' hop hkind hq (hnod ▸ hhead) hrep⟩
          simp [hfs', pure]
    · have hjump : jumpTarget jump.insn = none := by
        unfold jumpTarget
        rw [hop]
        exact if_neg hkind
      rw [hjump]
      refine ⟨_, if_neg hkind, .skip (skipped_of_jumpTarget hlast fun t ht => ?_)⟩
      rw [hjump] at ht
      cases ht
  | _ =>
    have hjump : jumpTarget jump.insn = none := by
      unfold jumpTarget
      rw [hop]
    rw [hjump]
    refine ⟨_, rfl, .skip (skipped_of_jumpTarget hlast fun t ht => ?_)⟩
    rw [hjump] at ht
    cases ht

theorem inv_skip (hinv : ResolveInv cfg started fs₀ ⟨fs, b :: rest⟩) (h : Skipped fs b) :
    ResolveInv cfg started fs₀ ⟨fs, rest⟩ := by
  refine ⟨hinv.nodes, hinv.grown, hinv.origin, hinv.entries, hinv.kept, fun b₀ hb₀ => ?_,
    hinv.targets, fun c hc => hinv.work c (mem_cons_of_mem b hc)⟩
  rcases hinv.blocks b₀ hb₀ with ⟨e, insns, hspells, hstate⟩
  refine ⟨e, insns, hspells, hstate.imp_right fun hstate => ⟨hstate.1, ?_⟩⟩
  rcases hstate with ⟨heq, hnot | ⟨hwork, hrec⟩⟩
  · exact Or.inl hnot
  · rcases mem_cons.mp hwork with rfl | hrest
    · -- The jump is at the end of the original block, too.
      refine Or.inl (h.imp hrec fun hjumps jump hjump t ht => ?_)
      rw [← heq, ← spells_getLast? hspells] at hjump
      rcases hjumps jump hjump t ht with ⟨q, hq, hbb⟩
      have hview := hinv.kept t
      rw [hq] at hview
      rcases map_eq_some_iff.mp hview.symm with ⟨q', hq', heq'⟩
      refine ⟨q', hq', ?_⟩
      have hsome := (Prod.mk.inj heq').1
      rw [hbb] at hsome
      exact not_isSome_iff_eq_none.mp (Bool.eq_false_iff.mp hsome)
    · exact Or.inr ⟨hrest, hrec⟩

theorem splitAt_target (hir : NodesOk fs.ir) (hp : p ∈ fs.ir.nodes c)
    (ht : fs.branchTargets.get? t = some ⟨some c, some (.node p)⟩) :
    (splitAt fs t c p).branchTargets.get? t = some ⟨some fs.ir.numBb, some (.node p)⟩ ∧
      ((splitAt fs t c p).ir.nodes fs.ir.numBb).head? = some p := by
  have hc : c < fs.ir.numBb := hir.lt c (ne_nil_of_mem hp)
  constructor
  · rw [splitAt_get?_of_renamed p (renamed_target ht), ht]
    rfl
  · show ((fs.ir.splitBasicBlock c p).1.nodes fs.ir.numBb).head? = some p
    rw [splitBasicBlock_nodes _ _ _ _ hc, if_neg (Ne.symm (Nat.ne_of_lt hc)), if_pos rfl,
      head?_dropWhile_ne _ p hp]

include hres in
theorem turn_inv {s : Option (Nat × Nat × Nat)} {st' : Resolver}
    (hinv : ResolveInv cfg started fs₀ ⟨fs, b :: rest⟩) (hturn : Turn cfg fs b rest s st')
    (hok : ∀ x ∈ s, SplitOk fs x.1 x.2.1 x.2.2) : ResolveInv cfg started fs₀ st' := by
  cases hturn with
  | skip h => exact inv_skip hinv h
  | link fs' target c p kind pre jump hf hop hkind ht hhead hrep =>
    exact inv_replace hres hinv hf hop hkind ht hhead hrep
  | split fs' target c p f kind pre jump hb hf hop hkind ht hhead hrep =>
    have hspl := inv_split hres hinv ht hhead (hok _ rfl)
    rcases splitAt_target hinv.nodes (target_mem_nodes hinv.entries ht) ht with ⟨ht', hhead'⟩
    rw [← hb] at hspl
    exact inv_replace hres hspl hf hop hkind ht' hhead' hrep

theorem step_inv (hres : Resolvable started fs₀) (st : Resolver) (u : Unit) (st' : Resolver)
    (hok : TurnOk st u) (hinv : ResolveInv cfg started fs₀ st)
    (h : step cfg st u = some st') : ResolveInv cfg started fs₀ st' := by
  rcases st with ⟨fs, _ | ⟨b, rest⟩⟩
  · cases h
  · rcases step_turn hinv with ⟨st'', hst'', hturn⟩
    rw [h, some.injEq] at hst''
    exact turn_inv hres hinv (hst'' ▸ hturn) hok

/-! ### The number of turns -/

/-- The nodes of the region that no block begins with. -/
noncomputable def unreached (fs₀ : Frontend) (ir : MachineIR) : Finset Nat :=
  open Classical in
  (Finset.range fs₀.ir.numNode).filter fun n => ∀ b, (ir.nodes b).head? ≠ some n

theorem unreached_subset (fs₀ : Frontend) {ir' : MachineIR} (h : HeadsKept ir ir') :
    unreached fs₀ ir' ⊆ unreached fs₀ ir := by
  classical
  intro n hn
  rw [unreached, Finset.mem_filter] at hn ⊢
  exact ⟨hn.1, fun b hb => hn.2 b (h b n hb)⟩

noncomputable def turnsLeft (fs₀ : Frontend) (st : Resolver) : Nat :=
  st.worklist.length + (unreached fs₀ st.fs.ir).card

include hres in
theorem turn_turnsLeft {s : Option (Nat × Nat × Nat)} {st' : Resolver}
    (hinv : ResolveInv cfg started fs₀ ⟨fs, b :: rest⟩) (hturn : Turn cfg fs b rest s st') :
    turnsLeft fs₀ st' < turnsLeft fs₀ ⟨fs, b :: rest⟩ := by
  unfold turnsLeft
  rw [length_cons]
  cases hturn with
  | skip h =>
    dsimp only
    omega
  | link fs' target c p kind pre jump hf hop hkind ht hhead hrep =>
    have hcard := Finset.card_le_card
      (unreached_subset fs₀ (headsKept_replace hinv.nodes hf hrep))
    dsimp only at hcard ⊢
    omega
  | split fs' target c p f kind pre jump hb hf hop hkind ht hhead hrep =>
    -- The block that is split off is the first one that begins with the node.
    have hir : NodesOk fs.ir := hinv.nodes
    have hp : p ∈ fs.ir.nodes c := target_mem_nodes hinv.entries ht
    have hrepl := headsKept_replace (nodesOk_split hir hp) hf hrep
    have hsub := unreached_subset fs₀ fun d n hd =>
      hrepl d n (headsKept_split hir hp hhead d n hd)
    have hin : p ∈ unreached fs₀ fs.ir := by
      classical
      refine Finset.mem_filter.mpr ⟨Finset.mem_range.mpr (target_lt hres hinv ht), ?_⟩
      intro d hd
      rw [hir.unique d c p (mem_of_head? hd) hp] at hd
      exact hhead hd
    have hout : p ∉ unreached fs₀ fs'.ir := by
      classical
      intro hmem
      exact (Finset.mem_filter.mp hmem).2 _ (hrepl _ p (splitAt_target hir hp ht).2)
    have hcard := Finset.card_lt_card ((Finset.ssubset_iff_of_subset hsub).mpr ⟨p, hin, hout⟩)
    dsimp only
    rw [length_append, length_singleton]
    omega

theorem step_turnsLeft (hres : Resolvable started fs₀) (st : Resolver) (u : Unit)
    (st' : Resolver) (hinv : ResolveInv cfg started fs₀ st)
    (h : step cfg st u = some st') : turnsLeft fs₀ st' < turnsLeft fs₀ st := by
  rcases st with ⟨fs, _ | ⟨b, rest⟩⟩
  · cases h
  · rcases step_turn hinv with ⟨st'', hst'', hturn⟩
    rw [h, some.injEq] at hst''
    exact turn_turnsLeft hres hinv (hst'' ▸ hturn)

theorem start_resolveInv (hres : Resolvable started fs₀) :
    ResolveInv cfg started fs₀ ⟨fs₀, fs₀.ir.bbList⟩ := by
  refine ⟨hres.nodes, Nat.le_refl _, fun c => ⟨c, fun n hn _ => hn⟩, fun a q hq c hc => ?_,
    fun _ => rfl, fun b hb => ?_, hres.targets, fun b hb => (hres.listed b).mpr hb⟩
  · rcases hres.entries a q hq with hnone | ⟨b, m, n, rfl, _, hfst⟩
    · rw [hnone] at hc
      cases hc
    · rw [← some.inj hc]
      exact ⟨n, rfl, hfst.mem⟩
  · have hne := (MachineIR.nodes_ne_nil_iff _ b).mp ((hres.listed b).mpr hb)
    exact ⟨b, _, .last b _ rfl hne, Or.inr ⟨rfl, Or.inr ⟨hb, id⟩⟩⟩

end

/-- Linking is exact as long as each split meets `SplitOk`. After any number of turns the entries
    are right, no node is lost, repeated or moved among others, and each original block can be read,
    with the jump at its end linked to the first node of its address, still to be linked, or not to
    be linked. The loop goes on while there are blocks left, and comes to an end. -/
theorem resolveJumps_exact (cfg : FrontendConfig) (pc stopPc : Nat)
    (guestCode : List Frontend.Action) (h : History) (fs₀ : Frontend) (turns : List Unit)
    (st : Resolver) (hcode : Lib.run History.step (.start pc) guestCode = some h)
    (hfinalize : h.fs.finalize stopPc = some fs₀)
    (hok : Lib.MeetsAlong (Resolver.step cfg) TurnOk ⟨fs₀, fs₀.ir.bbList⟩ turns)
    (hturns : Lib.run (Resolver.step cfg) ⟨fs₀, fs₀.ir.bbList⟩ turns = some st) :
    EntriesOk st.fs ∧ NodesOk st.fs.ir ∧
      (∀ c, ∃ b, ∀ n ∈ st.fs.ir.nodes c, n < fs₀.ir.numNode → n ∈ fs₀.ir.nodes b) ∧
      (∀ b ∈ fs₀.ir.bbList, BlockState cfg h.started fs₀ st.fs.ir st.worklist b) ∧
      (st.worklist ≠ [] → ∃ st', Resolver.step cfg st () = some st') ∧
      turns.length + st.worklist.length ≤ fs₀.ir.bbList.length + fs₀.ir.numNode := by
  have hres : Resolvable h.started fs₀ := by
    rcases finalize_resolvable (run_inv pc guestCode h hcode) stopPc with ⟨fs, hfs, hres⟩
    rw [hfinalize, some.injEq] at hfs
    rw [hfs]
    exact hres
  have hstart : ResolveInv cfg h.started fs₀ ⟨fs₀, fs₀.ir.bbList⟩ := start_resolveInv hres
  have hinv := Lib.run_preserves_of _ TurnOk _ (step_inv hres) turns _ st hok hstart hturns
  refine ⟨hinv.entries, hinv.nodes, hinv.origin, hinv.blocks, fun hne => ?_, ?_⟩
  · rcases st with ⟨fs, _ | ⟨b, rest⟩⟩
    · exact absurd rfl hne
    · rcases step_turn hinv with ⟨st', hst', _⟩
      exact ⟨st', hst'⟩
  · have hlength := Lib.run_length_le _ TurnOk _ (turnsLeft fs₀) (step_inv hres)
      (step_turnsLeft hres) turns _ st hok hstart hturns
    have hcard : (unreached fs₀ fs₀.ir).card ≤ fs₀.ir.numNode := by
      classical
      exact (Finset.card_filter_le _ _).trans_eq (Finset.card_range _)
    unfold turnsLeft at hlength
    dsimp only at hlength
    omega

def someConfig : FrontendConfig := ⟨4, ⟨17⟩, 0, 1⟩

def loopCode : List Frontend.Action :=
  [.startInsn, .gen ⟨.other 0, [], none, rfl⟩, .incrementInsnAddr 4,
    .startInsn, .gen ⟨.other 1, [], none, rfl⟩, .incrementInsnAddr 4,
    .startInsn, .setUncondBranch, .genJump 4, .incrementInsnAddr 4]

/-- The loop is split off, and the jump back is linked to it. -/
theorem resolveJumps_loopCode : ∃ h fs₀ st, Lib.run History.step (.start 0) loopCode = some h ∧
    h.fs.finalize 12 = some fs₀ ∧
    Lib.MeetsAlong (Resolver.step someConfig) TurnOk ⟨fs₀, fs₀.ir.bbList⟩ [(), (), ()] ∧
    Lib.run (Resolver.step someConfig) ⟨fs₀, fs₀.ir.bbList⟩ [(), (), ()] = some st ∧
    st.worklist = [] ∧ EntriesOk st.fs ∧
    ∀ b ∈ fs₀.ir.bbList, BlockState someConfig h.started fs₀ st.fs.ir st.worklist b := by
  refine ⟨_, _, _, rfl, rfl, ?_, rfl, rfl, ?_⟩
  · decide
  · have hexact := resolveJumps_exact someConfig 0 12 loopCode _ _ [(), (), ()] _ rfl rfl
      (by decide) rfl
    exact ⟨hexact.1, hexact.2.2.2.1⟩

/-- A conditional branch to 16, an instruction at 4 and one at 8 that generates nothing, a jump
    to itself at 12, and a jump back to 8. -/
def nopCode : List Frontend.Action :=
  [.startInsn, .newBasicBlock, .newBasicBlock, .addEdge 1 2, .addEdge 1 3,
    .gen ⟨.other 0, [], none, rfl⟩, .gen (newPseudoCondBranch 0 2 3 4 ⟨17⟩),
    .startBasicBlock 2, .genJump 16, .startBasicBlock 3, .incrementInsnAddr 4,
    .startInsn, .gen ⟨.other 1, [], none, rfl⟩, .incrementInsnAddr 4,
    .startInsn, .incrementInsnAddr 4,
    .startInsn, .setUncondBranch, .genJump 12, .incrementInsnAddr 4,
    .startInsn, .setUncondBranch, .genJump 8, .incrementInsnAddr 4]

/-- The split at address 12 moves the node of address 8 too, and its entry goes on naming the old
    block. The next turn would then split that block at a node of another one. -/
theorem resolveJumps_nopCode : ∃ h ∈ Lib.run History.step (.start 0) nopCode,
    ∃ fs₀ ∈ h.fs.finalize 20, ∃ st ∈ Lib.run (Resolver.step someConfig)
      ⟨fs₀, fs₀.ir.bbList⟩ [(), (), (), ()], ¬ EntriesOk st.fs ∧ st.worklist ≠ [] ∧
      (Resolver.step someConfig st ()).isNone := by
  refine ⟨_, rfl, _, rfl, _, rfl, fun hentries => ?_, ?_, ?_⟩
  · rcases hentries 8 ⟨some 3, some (.node 5)⟩ (by decide) 3 rfl with ⟨n, hit, hn⟩
    cases hit
    revert hn
    decide
  · decide
  · decide

end Berberis.HeavyOptimizer
