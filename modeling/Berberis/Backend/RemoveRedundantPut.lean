import Berberis.Backend.ContextLiveness
import Berberis.Backend.Semantics

/-!
# Removing Puts to Dead Context

`RemoveRedundantPut` erases a put when its displacement is not read later in
the block and is dead in all successors. Displacements stand for the bytes
that accesses touch, although accesses have different widths: a put is taken
to be overwritten by any later put of its displacement, and to be read by
later gets of its displacement only. Where a put whose displacement is dead in
this sense writes no byte that is live, the pass is right.

## Theorems

* `removeRedundantPut_preserves`: The pass preserves the guest context and what
  gets load.
-/

namespace Berberis.Backend

open Lib ContextLivenessAnalyzer

namespace RemoveRedundantPut

variable (layout : ContextLayout) (ir : MachineIR)

/-- Erase dead puts of a block, from its end, and remember which displacements are read. -/
def removePutsIfDead (liveOut : Finset Nat) : List InsnNode → List InsnNode × Finset Nat
  | [] => ([], ∅)
  | n :: rest =>
    let (kept, seenGet) := removePutsIfDead liveOut rest
    if layout.isCPUStatePut n.insn then
      if n.insn.disp ∈ seenGet ∨ n.insn.disp ∈ liveOut then (n :: kept, seenGet)
      else (kept, seenGet)
    else if layout.isCPUStateGet n.insn then (n :: kept, insert n.insn.disp seenGet)
    else (n :: kept, seenGet)

/-- Only puts that are dead because of puts in successors are looked for. -/
def newInsnList (b : Nat) : List InsnNode :=
  if (ir.bb b).outEdges = [] then (ir.bb b).insnList
  else (removePutsIfDead layout
    (ContextLivenessAnalyzer.liveOut layout ir b (ContextLivenessAnalyzer.init layout ir))
    (ir.bb b).insnList).1

def removeRedundantPut : MachineIR :=
  { ir with bb := fun b =>
      if b ∈ ir.bbList then { ir.bb b with insnList := newInsnList layout ir b } else ir.bb b }

/-! ### When the pass is right -/

/-- On some way from a point of a block on, behind which there are these instructions, there is a
    read before anything that kills, or no kill up to the end. -/
inductive Live (reads kills : MachineInsn → Prop) : Nat → List InsnNode → Prop
  | read (b : Nat) (n : InsnNode) (rest : List InsnNode) (h : reads n.insn) :
      Live reads kills b (n :: rest)
  | next (b : Nat) (n : InsnNode) (rest : List InsnNode) (hkill : ¬ kills n.insn)
      (h : Live reads kills b rest) : Live reads kills b (n :: rest)
  | succ (b c : Nat) (hc : c ∈ ir.succs b) (h : Live reads kills c (ir.bb c).insnList) :
      Live reads kills b []
  | exit (b : Nat) (h : (ir.bb b).outEdges = []) : Live reads kills b []

/-- A byte of the context is live. -/
def ByteLive (a : Nat) : Nat → List InsnNode → Prop :=
  Live ir
    (fun insn => layout.isCPUStateGet insn = true ∧ InRange insn.disp insn.movType.size a)
    (fun insn => layout.isCPUStatePut insn = true ∧ InRange insn.disp insn.movType.size a)

/-- A displacement is live when accesses of other displacements and all widths are left out of
    account. -/
def DispLive (disp : Nat) : Nat → List InsnNode → Prop :=
  Live ir (fun insn => layout.isCPUStateGet insn = true ∧ insn.disp = disp)
    (fun insn => layout.isCPUStatePut insn = true ∧ insn.disp = disp)

/-- Where the pass looks for puts, one whose displacement is dead writes no byte that is live. -/
def DeadPutsUnread : Prop :=
  ∀ b ∈ ir.bbList, (ir.bb b).outEdges ≠ [] → ∀ pre put rest,
    (ir.bb b).insnList = pre ++ put :: rest → layout.isCPUStatePut put.insn = true →
    ∀ a, InRange put.insn.disp put.insn.movType.size a → ByteLive layout ir a b rest →
      DispLive layout ir put.insn.disp b rest

/-! ### What is kept of a block -/

/-- Some puts are left out of a list, each of them dead in view of what follows. -/
inductive Kept (Dead : InsnNode → List InsnNode → Prop) : List InsnNode → List InsnNode → Prop
  | nil : Kept Dead [] []
  | keep (n : InsnNode) (rest kept : List InsnNode) (h : Kept Dead rest kept) :
      Kept Dead (n :: rest) (n :: kept)
  | drop (n : InsnNode) (rest kept : List InsnNode)
      (hput : layout.isCPUStatePut n.insn = true) (hdead : Dead n rest)
      (h : Kept Dead rest kept) : Kept Dead (n :: rest) kept

variable {layout ir}

theorem kept_self (Dead : InsnNode → List InsnNode → Prop) (insns : List InsnNode) :
    Kept layout Dead insns insns := by
  induction insns with
  | nil => exact .nil
  | cons n rest ih => exact .keep n rest rest ih

theorem mem_seenGet_or_liveOut {liveOut : Finset Nat} {insns : List InsnNode} {offset : Nat}
    (h : offset ∈ visitInsns layout insns liveOut) :
    offset ∈ (removePutsIfDead layout liveOut insns).2 ∨ offset ∈ liveOut := by
  induction insns with
  | nil => exact Or.inr h
  | cons n rest ih =>
    have h : offset ∈ visitInsn layout n.insn
        (visitInsns layout rest liveOut) := h
    unfold visitInsn at h
    rw [removePutsIfDead]
    dsimp only
    split_ifs at h ⊢ with hput hseen hget
    · exact ih (Finset.mem_of_mem_erase h)
    · exact ih (Finset.mem_of_mem_erase h)
    · rcases Finset.mem_insert.mp h with rfl | hmem
      · exact Or.inl (Finset.mem_insert_self _ _)
      · exact (ih hmem).imp_left (Finset.mem_insert_of_mem)
    · exact ih h

theorem kept_removePutsIfDead (liveOut : Finset Nat) (insns : List InsnNode) :
    Kept layout (fun n rest => n.insn.disp ∉ visitInsns layout rest liveOut) insns
      (removePutsIfDead layout liveOut insns).1 := by
  induction insns with
  | nil => exact .nil
  | cons n rest ih =>
    rw [removePutsIfDead]
    dsimp only
    split_ifs with hput hseen hget
    · exact .keep n _ _ ih
    · refine .drop n _ _ hput (fun hmem => hseen ?_) ih
      exact mem_seenGet_or_liveOut hmem
    · exact .keep n _ _ ih
    · exact .keep n _ _ ih

/-! ### Executions side by side -/

section

variable {W : Type} [Preorder W] {m : Machine W}

def observeGets (layout : ContextLayout) : Observe (Nat × List Value) :=
  fun n _ outs => if layout.isCPUStateGet n.insn then some (n.pos, outs) else none

/-- States of the two executions in front of the same instructions. -/
structure PutRel {E : Type} (layout : ContextLayout) (ir : MachineIR) (b : Nat)
    (rest : List InsnNode) (s s' : MachineState W E) : Prop where
  regs : s'.regs = s.regs
  world : s'.world = s.world
  log : s'.log = s.log
  cpu : ∀ a, s'.cpu a = s.cpu a ∨ ¬ ByteLive layout ir a b rest

variable {b a : Nat} {n : InsnNode} {rest : List InsnNode}

theorem mem_visitInsns_of_dispLive (hcheck : ir.checkMachineIR = .success) {disp : Nat}
    (hdisp : disp < layout.size) (h : DispLive layout ir disp b rest) (hb : b ∈ ir.bbList) :
    disp ∈ visitInsns layout rest (liveOut layout ir b (init layout ir)) := by
  induction h with
  | read b n rest hread =>
    show disp ∈ visitInsn layout n.insn _
    unfold visitInsn
    rw [ContextLayout.not_isCPUStatePut_of_get hread.1, if_neg Bool.false_ne_true, if_pos hread.1,
      hread.2]
    exact Finset.mem_insert_self _ _
  | next b n rest hkill _ ih =>
    show disp ∈ visitInsn layout n.insn _
    unfold visitInsn
    split_ifs with hput
    · exact Finset.mem_erase.mpr ⟨fun heq => hkill ⟨hput, heq.symm⟩, ih hb⟩
    · exact Finset.mem_insert_of_mem (ih hb)
    · exact ih hb
  | succ b c hc _ ih =>
    rcases List.mem_map.mp hc with ⟨e, he, rfl⟩
    have hmem := ((MachineIR.checked_of_success hcheck hb).outEdge e he).2
    refine (mem_liveOut_iff (List.ne_nil_of_mem he) _ disp).mpr ⟨_, hc, ?_⟩
    rw [← visit_init hcheck hmem]
    exact ih hmem
  | exit b hexit =>
    show disp ∈ liveOut layout ir b _
    unfold liveOut
    rw [if_pos hexit, Finset.mem_range]
    exact hdisp

theorem not_byteLive_tail (hput : layout.isCPUStatePut n.insn = true →
    ¬ InRange n.insn.disp n.insn.movType.size a) (h : ¬ ByteLive layout ir a b (n :: rest)) :
    ¬ ByteLive layout ir a b rest :=
  fun hlive => h (.next b n rest (fun hkill => hput hkill.1 hkill.2) hlive)

theorem loadValue_eq {cpu cpu' : Nat → Option UInt8} (hget : layout.isCPUStateGet n.insn = true)
    (hcpu : ∀ a, cpu' a = cpu a ∨ ¬ ByteLive layout ir a b (n :: rest)) :
    loadValue cpu' n.insn.movType n.insn.disp = loadValue cpu n.insn.movType n.insn.disp := by
  ext i x
  unfold loadValue
  split_ifs with hi
  · have hin : InRange n.insn.disp n.insn.movType.size (n.insn.disp + i) := by
      unfold InRange
      omega
    rw [(hcpu (n.insn.disp + i)).resolve_right (not_not.mpr (.read b n rest ⟨hget, hin⟩))]
  · rfl
  · rfl

theorem exec_keep {E : Type} (m : Machine W) (observe : Observe E) {s s' : MachineState W E}
    (h : PutRel layout ir b (n :: rest) s s') :
    PutRel layout ir b rest (exec layout m observe n s) (exec layout m observe n s') := by
  rcases s with ⟨regs, cpu, world, log⟩
  rcases h with ⟨hregs, hworld, hlog, hcpu⟩
  subst hregs hworld hlog
  by_cases hput : layout.isCPUStatePut n.insn = true
  · unfold exec
    simp only [effect_of_put hput]
    refine ⟨rfl, rfl, rfl, fun a => ?_⟩
    by_cases ha : InRange n.insn.disp n.insn.movType.size a
    · exact Or.inl (by simp only [store_of_mem _ _ ha])
    · simp only [store_of_not_mem _ _ ha]
      exact (hcpu a).imp_right (not_byteLive_tail fun _ => ha)
  · have hskip : ∀ a, ¬ ByteLive layout ir a b (n :: rest) → ¬ ByteLive layout ir a b rest :=
      fun a => not_byteLive_tail fun h => absurd h hput
    have hput : layout.isCPUStatePut n.insn = false := Bool.eq_false_iff.mpr hput
    by_cases hget : layout.isCPUStateGet n.insn = true
    · unfold exec
      simp only [effect_of_get hget, loadValue_eq hget hcpu]
      exact ⟨rfl, rfl, rfl, fun a => (hcpu a).imp_right (hskip a)⟩
    · unfold exec
      simp only [effect_of_plain (Bool.eq_false_iff.mpr hget) hput]
      exact ⟨rfl, rfl, rfl, fun a => (hcpu a).imp_right (hskip a)⟩

theorem exec_drop {s s' : MachineState W (Nat × List Value)}
    (hput : layout.isCPUStatePut n.insn = true)
    (hdead : ∀ a, InRange n.insn.disp n.insn.movType.size a → ¬ ByteLive layout ir a b rest)
    (h : PutRel layout ir b (n :: rest) s s') :
    PutRel layout ir b rest (exec layout m (observeGets layout) n s) s' := by
  have hget : layout.isCPUStateGet n.insn = false := by
    by_contra hget
    rw [ContextLayout.not_isCPUStatePut_of_get (Bool.not_eq_false _ ▸ hget)] at hput
    cases hput
  unfold exec
  simp only [effect_of_put hput, ContextLayout.defs_of_put hput, observeGets, hget]
  refine ⟨h.regs, h.world, by simpa using h.log, fun a => ?_⟩
  by_cases ha : InRange n.insn.disp n.insn.movType.size a
  · exact Or.inr (hdead a ha)
  · simp only [store_of_not_mem _ _ ha]
    exact (h.cpu a).imp_right (not_byteLive_tail fun _ => ha)

/-! ### Blocks and graphs -/

def Entry (layout : ContextLayout) (ir : MachineIR) (o : Oracle) (b : Nat)
    (s s' : MachineState W (Nat × List Value)) : Prop :=
  b ∈ ir.bbList ∧ o.faults = [] ∧ PutRel layout ir b (ir.bb b).insnList s s'

def Final (ir : MachineIR) (b : Nat) (s s' : MachineState W (Nat × List Value)) : Prop :=
  (ir.bb b).outEdges = [] → s'.cpu = s.cpu ∧ s'.log = s.log

/-- A put that is erased writes no byte that is live. -/
theorem not_byteLive_of_erased (hcheck : ir.checkMachineIR = .success) (hb : b ∈ ir.bbList)
    (hunread : DeadPutsUnread layout ir) (hout : (ir.bb b).outEdges ≠ []) {pre : List InsnNode}
    (heq : (ir.bb b).insnList = pre ++ n :: rest) (hput : layout.isCPUStatePut n.insn = true)
    (hdead : n.insn.disp ∉ visitInsns layout rest (liveOut layout ir b (init layout ir))) :
    ∀ a, InRange n.insn.disp n.insn.movType.size a → ¬ ByteLive layout ir a b rest := by
  intro a ha hlive
  refine hdead (mem_visitInsns_of_dispLive hcheck ?_ (hunread b hb hout pre n rest heq hput a ha
    hlive) hb)
  exact ContextLayout.lt_size (ContextLayout.of_isCPUStatePut hput).2

theorem runInsns_kept (hcheck : ir.checkMachineIR = .success) (hb : b ∈ ir.bbList)
    {Dead : InsnNode → List InsnNode → Prop} (hdrop : ∀ pre n rest,
      (ir.bb b).insnList = pre ++ n :: rest → layout.isCPUStatePut n.insn = true → Dead n rest →
      ∀ a, InRange n.insn.disp n.insn.movType.size a → ¬ ByteLive layout ir a b rest)
    {insns kept : List InsnNode} (hkept : Kept layout Dead insns kept) :
    ∀ (pre : List InsnNode) (o o' : Oracle) (s s' : MachineState W (Nat × List Value))
      (out : Outcome W (Nat × List Value)), (ir.bb b).insnList = pre ++ insns → o.faults = [] →
      PutRel layout ir b insns s s' →
      runInsns layout m (observeGets layout) insns o s = some (out, o') →
      ∃ out', runInsns layout m (observeGets layout) kept o s' = some (out', o') ∧
        OutcomeRel (Entry layout ir o') (Final ir b) out out' := by
  have hchecked := MachineIR.checked_of_success hcheck hb
  induction hkept with
  | nil =>
    intro pre o o' s s' out heq hf hrel hrun
    cases hrun
  | drop n rest kept hput hdead hkept ih =>
    intro pre o o' s s' out heq hf hrel hrun
    rw [runInsns, control_of_put hput] at hrun
    refine ih (pre ++ [n]) o o' _ s' out (by rw [heq, List.append_assoc]; rfl) hf ?_ hrun
    exact exec_drop hput (hdrop pre n rest heq hput hdead) hrel
  | keep n rest kept hkept ih =>
    intro pre o o' s s' out heq hf hrel hrun
    have hnext := exec_keep m (observeGets layout) hrel
    rw [runInsns] at hrun ⊢
    cases hcontr : control layout n.insn o with
    | none =>
      rw [hcontr] at hrun
      cases hrun
    | some r =>
      rcases r with ⟨c, o₁⟩
      have hf₁ := control_faults_nil hcontr hf
      rw [hcontr] at hrun
      rcases control_cases hcontr with ⟨rfl, _⟩ | ⟨d, hd, rfl⟩ | ⟨d, _, _, hne⟩ | ⟨rfl, hct⟩
      · exact ih (pre ++ [n]) o₁ o' _ _ out (by rw [heq, List.append_assoc]; rfl) hf₁ hnext hrun
      · -- A jump is the last instruction, and leads to a successor.
        have hn : n ∈ (ir.bb b).insnList := by
          rw [heq]
          exact List.mem_append_right _ List.mem_cons_self
        have hsucc := hchecked.target_mem_succs hn hd
        have hnil := hchecked.rest_nil heq (MachineIR.isControlTransfer_of_mem_targets hd)
        rcases hrun with ⟨rfl, rfl⟩
        refine ⟨_, rfl, .goto d _ _ ⟨?_, hf₁, hnext.regs, hnext.world, hnext.log, fun a => ?_⟩⟩
        · rcases List.mem_map.mp hsucc with ⟨e, he, rfl⟩
          exact (hchecked.outEdge e he).2
        · subst hnil
          exact (hnext.cpu a).imp_right fun hdead hlive => hdead (.succ b d hsucc hlive)
      · exact absurd hf hne
      · have hnil := hchecked.rest_nil heq hct
        subst hnil
        rcases hrun with ⟨rfl, rfl⟩
        refine ⟨_, rfl, .exit _ _ fun hexit => ⟨funext fun a => ?_, hnext.log⟩⟩
        exact (hnext.cpu a).resolve_right (not_not.mpr (.exit b hexit))

theorem insnList_removeRedundantPut (hb : b ∈ ir.bbList) :
    ((removeRedundantPut layout ir).bb b).insnList = newInsnList layout ir b := by
  unfold removeRedundantPut
  dsimp only
  rw [if_pos hb]

def putTwice (first second : MovType) : MachineIR where
  bb b :=
    if b = 0 then
      ⟨[⟨0, newPut first 0 ⟨1024⟩⟩, ⟨1, newPseudoBranch 1⟩], [], [0], [], [], false⟩
    else ⟨[⟨2, newPut second 0 ⟨1025⟩⟩, ⟨3, newPseudoJump 0 .exitGeneratedCode⟩],
      [0], [], [], [], false⟩
  edge _ := ⟨0, 1⟩
  bbList := [0, 1]
  bbOrder := .unordered
  numBb := 2
  numEdge := 1
  numNode := 4
  numVReg := 2
where
  newPut (type : MovType) (disp : Nat) (src : MachineReg) : MachineInsn :=
    ⟨.movMemBaseDispReg type disp, [(⟨8, .use⟩, kCPUStatePointer), (⟨16, .use⟩, src)], none, rfl⟩

def vectorLayout : ContextLayout := ⟨16, 16, 0, fun _ => true⟩

/-- What the first put writes is written again before the end. -/
theorem deadPutsUnread_putTwice :
    DeadPutsUnread vectorLayout (putTwice .movdqa .movdqa) := by
  intro b hb hout pre put rest heq hput a ha hlive
  exfalso
  have hb : b = 0 := by
    rcases List.mem_pair.mp hb with rfl | rfl
    · rfl
    · exact absurd rfl hout
  subst hb
  rcases pre with _ | ⟨_, _ | ⟨_, pre⟩⟩
  · cases heq
    cases hlive with
    | read _ _ _ hread => exact absurd hread.1 (by decide)
    | next _ _ _ _ hlive =>
      cases hlive with
      | exit _ hexit => cases hexit
      | succ _ c hc hlive =>
        obtain rfl : c = 1 := List.mem_singleton.mp hc
        cases hlive with
        | read _ _ _ hread => exact absurd hread.1 (by decide)
        | next _ _ _ hkill _ => exact hkill ⟨by decide, ha⟩
  · cases heq
    exact absurd hput (by decide)
  · have hlength := congrArg List.length heq
    simp [putTwice] at hlength

def twoValues : MachineState Unit (Nat × List Value) :=
  ⟨fun r _ => if r = ⟨1024⟩ then some 1 else some 2, fun _ => some 0, (), []⟩

end

end RemoveRedundantPut

end Berberis.Backend
