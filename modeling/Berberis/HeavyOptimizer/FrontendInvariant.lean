import Berberis.HeavyOptimizer.Frontend

/-!
# Positions of Guest Addresses

Nodes are numbered in the order in which they are made, and generating only
appends, so the numbers increase along each list. When the translation of an
address begins, the number of nodes there are tells apart what was generated
before from what is generated for the address: the saved iterator is the last
node of the block below that number, and `Finalize` moves it on to the first
one from it. `History` keeps that number for each address, next to the
frontend.
-/

namespace Berberis.HeavyOptimizer

open Backend List Function Option MachineIR Frontend Lib.SortedMap

/-! ### Nodes -/

/-- Each node is in one list once, and lists are in the order of generation. -/
structure NodesOk (ir : MachineIR) : Prop where
  bounded : ∀ b, ∀ n ∈ ir.nodes b, n < ir.numNode
  sorted : ∀ b, (ir.nodes b).Pairwise (· < ·)
  unique : ∀ b c n, n ∈ ir.nodes b → n ∈ ir.nodes c → b = c
  lt : ∀ b, ir.nodes b ≠ [] → b < ir.numBb

variable {ir : MachineIR} {fs : Frontend}

theorem nodesOk_congr {ir' : MachineIR} (h : NodesOk ir) (hnod : ∀ b, ir'.nodes b = ir.nodes b)
    (hnum : ir'.numNode = ir.numNode) (hbb : ir.numBb ≤ ir'.numBb) : NodesOk ir' := by
  refine ⟨fun b n hn => ?_, fun b => ?_, fun b c n hb hc => ?_, fun b hb => ?_⟩
  · rw [hnod] at hn
    rw [hnum]
    exact h.bounded b n hn
  · rw [hnod]
    exact h.sorted b
  · rw [hnod] at hb hc
    exact h.unique b c n hb hc
  · rw [hnod] at hb
    exact Nat.lt_of_lt_of_le (h.lt b hb) hbb

theorem nodesOk_pushBack (h : NodesOk ir) (b : Nat) (insn : MachineInsn) (hb : b < ir.numBb) :
    NodesOk (ir.pushBack b insn) := by
  have hnew : ∀ c, ir.numNode ∉ ir.nodes c := fun c hc => Nat.lt_irrefl _ (h.bounded c _ hc)
  have hmem : ∀ c n, n ∈ (ir.pushBack b insn).nodes c →
      n ∈ ir.nodes c ∨ n = ir.numNode ∧ c = b := by
    intro c n hn
    rw [pushBack_nodes] at hn
    split_ifs at hn with hc
    · rcases mem_append.mp hn with hn | hn
      · exact Or.inl (hc ▸ hn)
      · exact Or.inr ⟨mem_singleton.mp hn, hc⟩
    · exact Or.inl hn
  refine ⟨fun c n hn => ?_, fun c => ?_, fun c d n hc hd => ?_, fun c hc => ?_⟩
  · show n < ir.numNode + 1
    rcases hmem c n hn with hn | ⟨hn, _⟩
    · have := h.bounded c n hn
      omega
    · omega
  · rw [pushBack_nodes]
    split_ifs
    · refine pairwise_append.mpr ⟨h.sorted b, pairwise_singleton _ _, fun n hn m hm => ?_⟩
      rw [mem_singleton.mp hm]
      exact h.bounded b n hn
    · exact h.sorted c
  · rcases hmem c n hc with hc | ⟨hn, hc⟩
    · rcases hmem d n hd with hd | ⟨hn, _⟩
      · exact h.unique c d n hc hd
      · exact absurd (hn ▸ hc) (hnew c)
    · rcases hmem d n hd with hd | ⟨_, hd⟩
      · exact absurd (hn ▸ hd) (hnew d)
      · rw [hc, hd]
  · rw [pushBack_nodes] at hc
    split_ifs at hc with heq
    · rw [heq]
      exact hb
    · exact h.lt c hc

theorem nodesOk_newBasicBlock (h : NodesOk ir) : NodesOk ir.newBasicBlock.1 := by
  refine nodesOk_congr h (fun b => ?_) rfl (Nat.le_succ _)
  rw [newBasicBlock_nodes]
  split_ifs with hb
  · -- Nothing was in a block that did not exist.
    by_contra hne
    exact Nat.lt_irrefl _ (hb ▸ h.lt b (Ne.symm hne))
  · rfl

/-! ### The frontend with its history -/

/-- The frontend, and how many nodes there were when the translation of each address began. -/
structure History where
  fs : Frontend
  started : Nat → Option Nat

def History.step (h : History) (a : Frontend.Action) : Option History :=
  (h.fs.act a).map fun fs =>
    ⟨fs, match a with
      | .startInsn => Function.update h.started h.fs.pc (some h.fs.ir.numNode)
      | _ => h.started⟩

def History.start (pc : Nat) : History := ⟨.startRegion pc, fun _ => none⟩

/-- The position saved for an address: the last node of its block from before its translation.
    Unless the block is still open, something was generated in it since. -/
structure Saved (h : History) (a : Nat) (p : MachineInsnPosition) (b m : Nat) : Prop where
  started : h.started a = some m
  bb : p.bb = some b
  it : p.it = ((h.fs.ir.nodes b).filter (· < m)).getLast?.map .node
  mem : b ∈ h.fs.ir.bbList
  since : (∃ n ∈ h.fs.ir.nodes b, m ≤ n) ∨ b = h.fs.bb ∧ h.fs.isClosed = false

/-- The invariant of translation. -/
structure BuildInv (h : History) : Prop where
  nodes : NodesOk h.fs.ir
  listed : ∀ b, h.fs.ir.nodes b ≠ [] → b ∈ h.fs.ir.bbList
  lt : ∀ b ∈ h.fs.ir.bbList, b < h.fs.ir.numBb
  current : h.fs.bb ∈ h.fs.ir.bbList
  nonempty : ∀ b ∈ h.fs.ir.bbList, b ≠ h.fs.bb → h.fs.ir.nodes b ≠ []
  saved : ∀ a p, h.fs.branchTargets.get? a = some p → p.bb = none ∨ ∃ b m, Saved h a p b m
  begun : ∀ a m, h.started a = some m → a ≤ h.fs.pc ∧ m ≤ h.fs.ir.numNode
  order : ∀ a a' m m', a < a' → h.started a = some m → h.started a' = some m' → m ≤ m'
  targets : ∀ b, ∀ n ∈ (h.fs.ir.bb b).insnList, ∀ t, Frontend.jumpTarget n.insn = some t →
    ∃ p, h.fs.branchTargets.get? t = some p

/-! ### Actions that generate nothing -/

theorem isClosed_eq_shape (fs : Frontend) :
    fs.isClosed = ((fs.ir.shape fs.bb).getLast?.any fun x => x.2.isControlTransfer) := by
  unfold isClosed insnList shape
  rw [List.getLast?_map]
  cases (fs.ir.bb fs.bb).insnList.getLast? with
  | none => rfl
  | some n => rfl

theorem nodes_ne_nil_of_isClosed (h : fs.isClosed = true) : fs.ir.nodes fs.bb ≠ [] := by
  intro hnil
  rw [isClosed_eq_shape] at h
  rw [nodes_eq_shape, map_eq_nil_iff] at hnil
  rw [hnil] at h
  cases h

theorem exists_jumpTarget_of_shape {ir' : MachineIR} {b t : Nat} {n : InsnNode}
    (h : ir'.shape b = ir.shape b) (hn : n ∈ (ir'.bb b).insnList)
    (ht : jumpTarget n.insn = some t) :
    ∃ n' ∈ (ir.bb b).insnList, jumpTarget n'.insn = some t := by
  have hmem : (n.pos, n.insn.opcode) ∈ ir.shape b := h ▸ mem_map_of_mem hn
  rcases mem_map.mp hmem with ⟨n', hn', heq⟩
  refine ⟨n', hn', ?_⟩
  unfold jumpTarget at ht ⊢
  rw [(Prod.mk.inj heq).2]
  exact ht

variable {h : History}

theorem inv_congr {h' : History} (hinv : BuildInv h)
    (hshape : ∀ b, h'.fs.ir.shape b = h.fs.ir.shape b) (hnum : h'.fs.ir.numNode = h.fs.ir.numNode)
    (hbb : h.fs.ir.numBb ≤ h'.fs.ir.numBb) (hlist : h'.fs.ir.bbList = h.fs.ir.bbList)
    (hcur : h'.fs.bb = h.fs.bb) (htarg : h'.fs.branchTargets = h.fs.branchTargets)
    (hpc : h.fs.pc ≤ h'.fs.pc) (hst : h'.started = h.started) : BuildInv h' := by
  have hnod : ∀ b, h'.fs.ir.nodes b = h.fs.ir.nodes b := fun b => by
    rw [nodes_eq_shape, hshape, nodes_eq_shape]
  have hclos : h'.fs.isClosed = h.fs.isClosed := by
    rw [isClosed_eq_shape, hcur, hshape, isClosed_eq_shape]
  refine ⟨nodesOk_congr hinv.nodes hnod hnum hbb, ?_, ?_, ?_, ?_, ?_, ?_, ?_, ?_⟩
  · intro b hb
    rw [hnod] at hb
    rw [hlist]
    exact hinv.listed b hb
  · intro b hb
    rw [hlist] at hb
    exact Nat.lt_of_lt_of_le (hinv.lt b hb) hbb
  · rw [hlist, hcur]
    exact hinv.current
  · intro b hb hne
    rw [hlist] at hb
    rw [hcur] at hne
    rw [hnod]
    exact hinv.nonempty b hb hne
  · intro a p hp
    rw [htarg] at hp
    rcases hinv.saved a p hp with hnone | ⟨b, m, hs⟩
    · exact Or.inl hnone
    · refine Or.inr ⟨b, m, ?_, hs.bb, ?_, ?_, ?_⟩
      · rw [hst]
        exact hs.started
      · rw [hnod]
        exact hs.it
      · rw [hlist]
        exact hs.mem
      · rw [hnod, hcur, hclos]
        exact hs.since
  · intro a m hm
    rw [hst] at hm
    rw [hnum]
    exact ⟨Nat.le_trans (hinv.begun a m hm).1 hpc, (hinv.begun a m hm).2⟩
  · rw [hst]
    exact hinv.order
  · intro b n hn t ht
    rcases exists_jumpTarget_of_shape (hshape b) hn ht with ⟨n', hn', ht'⟩
    rw [htarg]
    exact hinv.targets b n' hn' t ht'

theorem inv_newBasicBlock (hinv : BuildInv h) :
    BuildInv ⟨{ h.fs with ir := h.fs.ir.newBasicBlock.1 }, h.started⟩ := by
  refine inv_congr hinv (fun b => ?_) rfl (Nat.le_succ _) rfl rfl rfl (Nat.le_refl _) rfl
  unfold shape
  rw [newBasicBlock_bb]
  split_ifs with hb
  · have hnil : h.fs.ir.nodes b = [] := by
      by_contra hne
      exact Nat.lt_irrefl _ (hb ▸ hinv.nodes.lt b hne)
    rw [map_eq_nil_iff.mp hnil]
    rfl
  · rfl

theorem setRecoveryPoint_shape (fs : Frontend) (b c : Nat) :
    (fs.setRecoveryPointAtLastInsn b).ir.shape c = fs.ir.shape c := by
  have hlist : ((fs.setRecoveryPointAtLastInsn b).ir.bb c).insnList =
      ((fs.ir.setInsnList fs.bb _).bb c).insnList :=
    setBb_field MachineBasicBlock.insnList _ b c _ rfl
  unfold shape
  rw [hlist, setInsnList_insnList]
  split_ifs with hc
  · -- Only the recovery block of the last instruction changes.
    rw [hc]
    exact map_modify_eq_self _ _ _ _ (fun _ => rfl)
  · rfl

/-! ### Actions that generate an instruction -/

theorem filter_lt_append (ns : List Nat) (m n : Nat) (h : m ≤ n) :
    (ns ++ [n]).filter (· < m) = ns.filter (· < m) := by
  rw [filter_append, filter_cons_of_neg (by simpa using h), filter_nil, append_nil]

theorem inv_gen (hinv : BuildInv h) (insn : MachineInsn)
    (htarg : ∀ t, jumpTarget insn = some t → ∃ p, h.fs.branchTargets.get? t = some p) :
    BuildInv ⟨h.fs.gen insn, h.started⟩ := by
  have hnod : ∀ b, (h.fs.gen insn).ir.nodes b =
      if b = h.fs.bb then h.fs.ir.nodes h.fs.bb ++ [h.fs.ir.numNode] else h.fs.ir.nodes b :=
    fun b => pushBack_nodes _ _ _ _
  refine ⟨nodesOk_pushBack hinv.nodes _ _ (hinv.lt _ hinv.current), ?_, hinv.lt,
    hinv.current, ?_, ?_, ?_, hinv.order, ?_⟩
  · intro b hb
    rw [hnod] at hb
    split_ifs at hb with hcur
    · rw [hcur]
      exact hinv.current
    · exact hinv.listed b hb
  · intro b hb hne
    have hne : b ≠ h.fs.bb := hne
    rw [hnod, if_neg hne]
    exact hinv.nonempty b hb hne
  · intro a p hp
    rcases hinv.saved a p hp with hnone | ⟨b, m, hs⟩
    · exact Or.inl hnone
    · have hm : m ≤ h.fs.ir.numNode := (hinv.begun a m hs.started).2
      refine Or.inr ⟨b, m, hs.started, hs.bb, ?_, hs.mem, Or.inl ?_⟩
      · rw [hnod, hs.it]
        split_ifs with hcur
        · rw [filter_lt_append _ _ _ hm, hcur]
        · rfl
      · rw [hnod]
        rcases hs.since with ⟨n, hn, hmn⟩ | ⟨hcur, _⟩
        · split_ifs with hcur
          · exact ⟨n, mem_append_left _ (hcur ▸ hn), hmn⟩
          · exact ⟨n, hn, hmn⟩
        · rw [if_pos hcur]
          exact ⟨_, mem_append_right _ mem_cons_self, hm⟩
  · intro a m hm
    exact ⟨(hinv.begun a m hm).1, Nat.le_succ_of_le (hinv.begun a m hm).2⟩
  · intro b n hn t ht
    have hlist : ((h.fs.gen insn).ir.bb b).insnList = _ := pushBack_insnList _ _ _ _
    rw [hlist] at hn
    split_ifs at hn with hcur
    · rcases mem_append.mp hn with hn | hn
      · exact hinv.targets _ n hn t ht
      · rw [mem_singleton.mp hn] at ht
        exact htarg t ht
    · exact hinv.targets b n hn t ht

theorem inv_taken (hinv : BuildInv h) (target : Nat)
    (hnew : h.fs.branchTargets.get? target = none) :
    BuildInv ⟨{ h.fs with
      branchTargets := h.fs.branchTargets.insert target ⟨none, none⟩ }, h.started⟩ := by
  refine ⟨hinv.nodes, hinv.listed, hinv.lt, hinv.current, hinv.nonempty, ?_, hinv.begun,
    hinv.order, ?_⟩
  · intro a p hp
    have hp := hp
    rw [get?_insert] at hp
    split_ifs at hp with ha
    · rw [← some.inj hp]
      exact Or.inl rfl
    · rcases hinv.saved a p hp with hnone | ⟨b, m, hs⟩
      · exact Or.inl hnone
      · exact Or.inr ⟨b, m, hs.started, hs.bb, hs.it, hs.mem, hs.since⟩
  · intro b n hn t ht
    rcases hinv.targets b n hn t ht with ⟨p, hp⟩
    refine ⟨p, ?_⟩
    rw [get?_insert, if_neg, hp]
    intro heq
    rw [← heq, hnew] at hp
    cases hp

theorem jumpTarget_newPseudoJump {target t : Nat} {kind : JumpKind}
    (h : jumpTarget (newPseudoJump target kind) = some t) : target = t := by
  unfold jumpTarget newPseudoJump at h
  dsimp only at h
  split_ifs at h
  exact some.inj h

theorem inv_genJump (hinv : BuildInv h) (target : Nat) :
    BuildInv ⟨h.fs.genJump target, h.started⟩ := by
  unfold genJump
  cases hget : h.fs.branchTargets.get? target with
  | none =>
    refine inv_gen (inv_taken hinv target hget) _ (fun t ht => ⟨⟨none, none⟩, ?_⟩)
    rw [← jumpTarget_newPseudoJump ht]
    exact get?_insert_self _ _ _
  | some p =>
    refine inv_gen hinv _ (fun t ht => ⟨p, ?_⟩)
    rw [← jumpTarget_newPseudoJump ht]
    exact hget

/-! ### Blocks and guest instructions -/

theorem inv_startBasicBlock (hinv : BuildInv h) (b : Nat) (hclos : h.fs.isClosed = true)
    (hb : b < h.fs.ir.numBb) (hfs : h.fs.startBasicBlock b = some fs) :
    BuildInv ⟨fs, h.started⟩ ∧ fs.isClosed = false := by
  unfold startBasicBlock at hfs
  split_ifs at hfs with hnil
  rw [← some.inj hfs]
  refine ⟨⟨nodesOk_congr hinv.nodes (fun _ => rfl) rfl (Nat.le_refl _), ?_, ?_, ?_, ?_, ?_,
    hinv.begun, hinv.order, hinv.targets⟩, ?_⟩
  · intro c hc
    exact mem_append_left _ (hinv.listed c hc)
  · intro c hc
    rcases mem_append.mp hc with hc | hc
    · exact hinv.lt c hc
    · rw [mem_singleton.mp hc]
      exact hb
  · exact mem_append_right _ mem_cons_self
  · -- The block that was current is closed, so it is not empty.
    intro c hc hne
    have hmem : c ∈ h.fs.ir.bbList := by
      rcases mem_append.mp hc with hc | hc
      · exact hc
      · exact absurd (mem_singleton.mp hc) hne
    by_cases hcur : c = h.fs.bb
    · rw [hcur]
      exact nodes_ne_nil_of_isClosed hclos
    · exact hinv.nonempty c hmem hcur
  · intro a p hp
    rcases hinv.saved a p hp with hnone | ⟨c, m, hs⟩
    · exact Or.inl hnone
    · refine Or.inr ⟨c, m, hs.started, hs.bb, hs.it, mem_append_left _ hs.mem, Or.inl ?_⟩
      rcases hs.since with hsince | ⟨_, hopen⟩
      · exact hsince
      · rw [hclos] at hopen
        cases hopen
  · unfold isClosed insnList
    rw [hnil]
    rfl

theorem inv_begin (hinv : BuildInv h) (hopen : h.fs.isClosed = false) :
    BuildInv ⟨{ h.fs with
      isUncondBranch := false
      branchTargets := h.fs.branchTargets.insert h.fs.pc h.fs.getMachineInsnPosition },
      update h.started h.fs.pc (some h.fs.ir.numNode)⟩ := by
  refine ⟨hinv.nodes, hinv.listed, hinv.lt, hinv.current, hinv.nonempty, ?_, ?_, ?_, ?_⟩
  · intro a p hp
    have hp := hp
    rw [get?_insert] at hp
    split_ifs at hp with ha
    · -- All nodes are from before this address.
      have hall : (h.fs.ir.nodes h.fs.bb).filter (· < h.fs.ir.numNode) = h.fs.ir.nodes h.fs.bb :=
        filter_eq_self.mpr fun n hn => decide_eq_true (hinv.nodes.bounded _ n hn)
      rw [← some.inj hp, ← ha]
      refine Or.inr ⟨h.fs.bb, h.fs.ir.numNode, update_self _ _ _, rfl, ?_, hinv.current,
        Or.inr ⟨rfl, hopen⟩⟩
      rw [hall]
      unfold getMachineInsnPosition insnList nodes
      rw [List.getLast?_map, Option.map_map]
      rfl
    · rcases hinv.saved a p hp with hnone | ⟨b, m, hs⟩
      · exact Or.inl hnone
      · refine Or.inr ⟨b, m, ?_, hs.bb, hs.it, hs.mem, hs.since⟩
        rw [← hs.started]
        exact update_of_ne (Ne.symm ha) _ _
  · intro a m hm
    have hm : update h.started h.fs.pc (some h.fs.ir.numNode) a = some m := hm
    rw [update_apply] at hm
    split_ifs at hm with ha
    · rw [ha, ← some.inj hm]
      exact ⟨Nat.le_refl _, Nat.le_refl _⟩
    · exact hinv.begun a m hm
  · intro a a' m m' hlt hm hm'
    have hm : update h.started h.fs.pc (some h.fs.ir.numNode) a = some m := hm
    have hm' : update h.started h.fs.pc (some h.fs.ir.numNode) a' = some m' := hm'
    rw [update_apply] at hm hm'
    split_ifs at hm hm' with ha ha' ha'
    · omega
    · -- Nothing has begun after the current address.
      have := (hinv.begun a' m' hm').1
      omega
    · rw [← some.inj hm']
      exact (hinv.begun a m hm).2
    · exact hinv.order a a' m m' hlt hm hm'
  · intro b n hn t ht
    rcases hinv.targets b n hn t ht with ⟨p, hp⟩
    rw [get?_insert]
    split_ifs
    · exact ⟨_, rfl⟩
    · exact ⟨p, hp⟩

theorem inv_startInsn (hinv : BuildInv h) (hclos : h.fs.isClosed = h.fs.isUncondBranch)
    (hfs : h.fs.startInsn = some fs) :
    BuildInv ⟨fs, update h.started h.fs.pc (some h.fs.ir.numNode)⟩ := by
  unfold startInsn at hfs
  cases hbranch : h.fs.isUncondBranch with
  | false =>
    rw [hbranch] at hclos hfs
    have heq := some.inj hfs
    rw [← heq]
    exact inv_begin hinv hclos
  | true =>
    rw [hbranch] at hclos
    rw [if_pos hbranch] at hfs
    rcases bind_eq_some_iff.mp hfs with ⟨fs', hfs', heq⟩
    have hinv' := inv_newBasicBlock hinv
    have hclos' : ({ h.fs with ir := h.fs.ir.newBasicBlock.1 } : Frontend).isClosed = true := by
      rw [← hclos]
      unfold isClosed insnList
      rw [newBasicBlock_bb, if_neg (Nat.ne_of_lt (hinv.lt _ hinv.current))]
    rcases inv_startBasicBlock hinv' h.fs.ir.numBb hclos' (Nat.lt_succ_self _) hfs' with
      ⟨hst, hopen⟩
    have hsame : fs'.pc = h.fs.pc ∧ fs'.ir.numNode = h.fs.ir.numNode := by
      unfold startBasicBlock at hfs'
      split_ifs at hfs'
      rw [← some.inj hfs']
      exact ⟨rfl, rfl⟩
    rw [← some.inj heq, ← hsame.1, ← hsame.2]
    exact inv_begin hst hopen

theorem act_inv (h : History) (a : Frontend.Action) (h' : History) (hinv : BuildInv h)
    (hstep : h.step a = some h') : BuildInv h' := by
  rcases map_eq_some_iff.mp hstep with ⟨fs, hact, rfl⟩
  cases a with
  | startInsn =>
    simp only [act] at hact
    split_ifs at hact with hclos
    exact inv_startInsn hinv hclos hact
  | gen insn =>
    simp only [act] at hact
    split_ifs at hact with htarg
    rw [← some.inj hact]
    refine inv_gen hinv insn (fun t ht => ?_)
    rw [htarg] at ht
    cases ht
  | genJump target =>
    rw [← some.inj hact]
    exact inv_genJump hinv target
  | newBasicBlock =>
    rw [← some.inj hact]
    exact inv_newBasicBlock hinv
  | startBasicBlock b =>
    simp only [act] at hact
    split_ifs at hact with hcond
    exact (inv_startBasicBlock hinv b hcond.1 hcond.2 hact).1
  | addEdge src dst =>
    rw [← some.inj hact]
    refine inv_congr hinv (fun b => ?_) rfl (Nat.le_refl _) rfl rfl rfl (Nat.le_refl _) rfl
    exact congrArg (List.map _) (addEdge_insnList _ src dst b)
  | setRecoveryPoint b =>
    rw [← some.inj hact]
    exact inv_congr hinv (setRecoveryPoint_shape h.fs b) rfl (Nat.le_refl _) rfl rfl rfl
      (Nat.le_refl _) rfl
  | setUncondBranch =>
    rw [← some.inj hact]
    exact inv_congr hinv (fun _ => rfl) rfl (Nat.le_refl _) rfl rfl rfl (Nat.le_refl _) rfl
  | incrementInsnAddr size =>
    rw [← some.inj hact]
    exact inv_congr hinv (fun _ => rfl) rfl (Nat.le_refl _) rfl rfl rfl (Nat.le_add_right _ _) rfl

theorem start_shape (pc b : Nat) :
    (History.start pc).fs.ir.shape b = if b = 0 then [(0, .pseudoBranch 1)] else [] := by
  unfold History.start startRegion shape
  simp only [newBasicBlock, addEdge, pushBack,
    setInsnList, setBb, update_apply, MachineBasicBlock.empty,
    newPseudoBranch]
  split_ifs <;> simp_all

theorem start_inv (pc : Nat) : BuildInv (.start pc) := by
  have hmem : ∀ b n, n ∈ (History.start pc).fs.ir.nodes b → b = 0 ∧ n = 0 := by
    intro b n hn
    rw [nodes_eq_shape, start_shape] at hn
    split_ifs at hn with hb
    · exact ⟨hb, mem_singleton.mp hn⟩
    · cases hn
  have hne : ∀ b, (History.start pc).fs.ir.nodes b ≠ [] ↔ b = 0 := by
    intro b
    rw [nodes_eq_shape, start_shape]
    split_ifs with hb
    · exact ⟨fun _ => hb, fun _ => cons_ne_nil _ _⟩
    · exact ⟨fun hnil => absurd rfl hnil, fun hb' => absurd hb' hb⟩
  refine ⟨⟨?_, ?_, ?_, ?_⟩, ?_, ?_, ?_, ?_, ?_, ?_, ?_, ?_⟩
  · intro b n hn
    rw [(hmem b n hn).2]
    exact Nat.zero_lt_one
  · intro b
    rw [nodes_eq_shape, start_shape]
    split_ifs
    · exact pairwise_singleton _ _
    · exact List.Pairwise.nil
  · intro b c n hb hc
    rw [(hmem b n hb).1, (hmem c n hc).1]
  · intro b hb
    rw [(hne b).mp hb]
    exact Nat.zero_lt_two
  · intro b hb
    rw [(hne b).mp hb]
    exact mem_cons_self
  · intro b hb
    have hb : b ∈ [0, 1] := hb
    have hlt : b < 2 := by
      simp only [mem_cons, not_mem_nil, or_false] at hb
      omega
    exact hlt
  · exact mem_cons_of_mem 0 mem_cons_self
  · intro b hb hcur
    have hb : b ∈ [0, 1] := hb
    have hcur : b ≠ 1 := hcur
    rw [hne]
    simp only [mem_cons, not_mem_nil, or_false] at hb
    omega
  · intro a p hp
    cases hp
  · intro a m hm
    cases hm
  · intro a a' m m' _ hm
    cases hm
  · intro b n hn t ht
    have hshape : (n.pos, n.insn.opcode) ∈ (History.start pc).fs.ir.shape b :=
      mem_map_of_mem hn
    rw [start_shape] at hshape
    split_ifs at hshape
    · unfold jumpTarget at ht
      rw [(Prod.mk.inj (mem_singleton.mp hshape)).2] at ht
      cases ht
    · cases hshape

theorem run_inv (pc : Nat) (as : List Frontend.Action) (h : History)
    (hrun : Lib.run History.step (.start pc) as = some h) : BuildInv h :=
  Lib.run_preserves History.step BuildInv act_inv as _ h (start_inv pc) hrun

/-! ### The end of the region -/

/-- The first node of a block that was generated from a moment on. -/
structure FirstFrom (ns : List Nat) (m n : Nat) : Prop where
  mem : n ∈ ns
  le : m ≤ n
  least : ∀ k ∈ ns, m ≤ k → n ≤ k

theorem advance_firstFrom (insns : List InsnNode) (m : Nat)
    (hsort : (insns.map (·.pos)).Pairwise (· < ·)) (hsince : ∃ n ∈ insns.map (·.pos), m ≤ n) :
    ∃ n, (match ((insns.map (·.pos)).filter (· < m)).getLast? with
      | some q => some (nextIt q insns)
      | none => insns.head?.map fun x => .node x.pos) = some (.node n) ∧
      FirstFrom (insns.map (·.pos)) m n := by
  induction insns with
  | nil =>
    rcases hsince with ⟨n, hn, _⟩
    cases hn
  | cons x xs ih =>
    rw [map_cons] at hsort hsince ⊢
    rcases pairwise_cons.mp hsort with ⟨hx, hxs⟩
    by_cases hxm : x.pos < m
    · have hsince : ∃ n ∈ xs.map (·.pos), m ≤ n := by
        rcases hsince with ⟨n, hn, hmn⟩
        rcases mem_cons.mp hn with rfl | hn
        · omega
        · exact ⟨n, hn, hmn⟩
      rcases ih hxs hsince with ⟨n, hnext, hfst⟩
      refine ⟨n, ?_, mem_cons_of_mem _ hfst.mem, hfst.le, fun k hk hmk => ?_⟩
      · rw [filter_cons_of_pos (by simpa using hxm), getLast?_cons, ← hnext]
        cases hlast : ((xs.map (·.pos)).filter (· < m)).getLast? with
        | none =>
          cases xs with
          | nil => cases hfst.mem
          | cons y ys =>
            simp [nextIt]
        | some q =>
          have hq : q ∈ xs.map (·.pos) := mem_of_mem_filter (mem_of_getLast? hlast)
          have hne : x.pos ≠ q := Nat.ne_of_lt (hx q hq)
          simp [nextIt, if_neg hne]
      · rcases mem_cons.mp hk with rfl | hk
        · omega
        · exact hfst.least k hk hmk
    · -- All nodes are from the moment on.
      have hnil : (x.pos :: xs.map (·.pos)).filter (· < m) = [] := by
        refine filter_eq_nil_iff.mpr fun k hk => ?_
        rcases mem_cons.mp hk with rfl | hk
        · simpa using hxm
        · have := hx k hk
          simp only [decide_eq_true_eq]
          omega
      rw [hnil]
      refine ⟨x.pos, rfl, mem_cons_self, Nat.le_of_not_lt hxm, fun k hk _ => ?_⟩
      rcases mem_cons.mp hk with rfl | hk
      · exact Nat.le_refl _
      · exact Nat.le_of_lt (hx k hk)

/-- The entry of an address: nothing, or the first node that was generated for
    it or after it, in the block in which its translation began. -/
def EntryOk (started : Nat → Option Nat) (ir : MachineIR) (a : Nat) (p : MachineInsnPosition) :
    Prop :=
  p.bb = none ∨ ∃ b m n, p = ⟨some b, some (.node n)⟩ ∧ started a = some m ∧
    FirstFrom (ir.nodes b) m n

/-- What jumps are resolved from. -/
structure Resolvable (started : Nat → Option Nat) (fs : Frontend) : Prop where
  nodes : NodesOk fs.ir
  listed : ∀ b, fs.ir.nodes b ≠ [] ↔ b ∈ fs.ir.bbList
  entries : ∀ a p, fs.branchTargets.get? a = some p → EntryOk started fs.ir a p
  order : ∀ a a' m m', a < a' → started a = some m → started a' = some m' → m ≤ m'
  targets : ∀ b, ∀ n ∈ (fs.ir.bb b).insnList, ∀ t, Frontend.jumpTarget n.insn = some t →
    ∃ p, fs.branchTargets.get? t = some p

theorem gen_isClosed (fs : Frontend) (insn : MachineInsn) :
    (fs.gen insn).isClosed = insn.isControlTransfer := by
  unfold isClosed insnList gen
  rw [pushBack_insnList, if_pos rfl, getLast?_concat]

theorem advance_entryOk (hinv : BuildInv h) (hclos : h.fs.isClosed = true) {a : Nat}
    {p : MachineInsnPosition} (hp : h.fs.branchTargets.get? a = some p) :
    EntryOk h.started h.fs.ir a (advance h.fs.ir p) := by
  rcases hinv.saved a p hp with hnone | ⟨b, m, hs⟩
  · refine Or.inl ?_
    unfold advance
    rw [hnone]
    exact hnone
  · have hsince : ∃ n ∈ h.fs.ir.nodes b, m ≤ n := by
      rcases hs.since with hsince | ⟨_, hopen⟩
      · exact hsince
      · rw [hclos] at hopen
        cases hopen
    rcases advance_firstFrom (h.fs.ir.bb b).insnList m (hinv.nodes.sorted b) hsince with
      ⟨n, hnext, hfst⟩
    refine Or.inr ⟨b, m, n, ?_, hs.started, hfst⟩
    have hit := hs.it
    unfold nodes at hit
    generalize ((h.fs.ir.bb b).insnList.map (·.pos)).filter (· < m) = before at hit hnext
    unfold advance
    rw [hs.bb, hit]
    cases hlast : before.getLast? with
    | none =>
      rw [hlast] at hnext
      dsimp only [map_none] at hnext ⊢
      rw [hnext]
    | some q =>
      rw [hlast] at hnext
      dsimp only [map_some] at hnext ⊢
      rw [hnext]

theorem finalize_resolvable (hinv : BuildInv h) (stopPc : Nat) :
    ∃ fs, h.fs.finalize stopPc = some fs ∧ Resolvable h.started fs := by
  unfold finalize
  generalize hfs : (if h.fs.isClosed = true then h.fs else h.fs.genJump stopPc) = fs
  have hinv : BuildInv ⟨fs, h.started⟩ := by
    rw [← hfs]
    split_ifs
    · exact hinv
    · exact inv_genJump hinv stopPc
  have hclos : fs.isClosed = true := by
    rw [← hfs]
    split_ifs with hclos
    · exact hclos
    · exact gen_isClosed _ _
  have hnon : ∀ b ∈ fs.ir.bbList, fs.ir.nodes b ≠ [] := by
    intro b hb
    by_cases hcur : b = fs.bb
    · rw [hcur]
      exact nodes_ne_nil_of_isClosed hclos
    · exact hinv.nonempty b hb hcur
  rw [if_pos]
  · refine ⟨_, rfl, ⟨nodesOk_congr hinv.nodes (fun _ => rfl) rfl (Nat.le_refl _), ?_, ?_,
      hinv.order, ?_⟩⟩
    · exact fun b => ⟨hinv.listed b, hnon b⟩
    · intro a p hp
      have hp := hp
      rw [get?_mapVals] at hp
      rcases map_eq_some_iff.mp hp with ⟨q, hq, rfl⟩
      exact advance_entryOk hinv hclos hq
    · intro b n hn t ht
      rcases hinv.targets b n hn t ht with ⟨p, hp⟩
      refine ⟨advance fs.ir p, ?_⟩
      rw [get?_mapVals, hp]
      rfl
  · -- The block of a saved position has been generated into.
    refine all_eq_true.mpr fun x hx => ?_
    rcases x with ⟨a, _ | b, _ | it⟩
    · rfl
    · rfl
    · rcases hinv.saved a _ (mem_toList.mp hx) with hnone | ⟨c, m, hs⟩
      · cases hnone
      · have hc := some.inj hs.bb
        refine decide_eq_true fun hnil => hnon c hs.mem ?_
        unfold nodes
        rw [← hc, hnil]
        rfl
    · rfl

end Berberis.HeavyOptimizer
