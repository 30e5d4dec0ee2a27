import Berberis.LiteTranslator.LoongArchXCache

/-!
# Cached Guest Registers Are Right

A region does the same with cached registers as without a cache, from any state
and for any number of steps. The argument has two parts. The plan: where a cached
register is read, it was written by an instruction before, or its initial load
stands at that instruction or before it. The run: to come to an instruction, all
instructions before it were passed, since only backward branches stay in the
region; and a register that was loaded or written stays right.

## Theorems

* `translate_correct`: Reads see what they would see without a cache, and so does
  what comes after an exit.
-/

namespace Berberis.LiteTranslator.LoongArch

open List Function Option XRegisterUsage Analyzer

/-! ### What is counted -/

namespace XRegisterUsage

variable (u : XRegisterUsage) (reg : Reg) (pc : Nat)

def Unused : Prop := u.reads reg = 0 ∧ u.writes reg = 0

instance : Decidable (u.Unused reg) := inferInstanceAs (Decidable (_ ∧ _))

@[simp]
theorem reads_recordRead : (u.recordRead reg pc).reads =
    Function.update u.reads reg ((u.reads reg + 1) % 2 ^ 16) := by
  unfold recordRead
  split_ifs <;> rfl

@[simp]
theorem writes_recordRead : (u.recordRead reg pc).writes = u.writes := by
  unfold recordRead
  split_ifs <;> rfl

@[simp]
theorem backedges_recordRead : (u.recordRead reg pc).backedges = u.backedges := by
  unfold recordRead
  split_ifs <;> rfl

theorem needsInitialLoad_recordRead (reg' : Reg) : (u.recordRead reg pc).needsInitialLoad reg' =
      if reg' = reg ∧ u.Unused reg then true else u.needsInitialLoad reg' := by
  unfold recordRead Unused
  by_cases hunus : u.reads reg = 0 ∧ u.writes reg = 0
  · simp [hunus, update_apply]
  · simp [hunus]

theorem initialLoadPc_recordRead (reg' : Reg) : (u.recordRead reg pc).initialLoadPc reg' =
      if reg' = reg ∧ u.Unused reg then pc else u.initialLoadPc reg' := by
  unfold recordRead Unused
  by_cases hunus : u.reads reg = 0 ∧ u.writes reg = 0
  · simp [hunus, update_apply]
  · simp [hunus]

end XRegisterUsage

section

variable {σ V : Type}

def Action.reads (reg : Reg) : Action σ V → Bool
  | .read reg' _ => reg' == reg
  | _ => false

def Action.writes (reg : Reg) : Action σ V → Bool
  | .write reg' _ => reg' == reg
  | _ => false

def ReadFirst (reg : Reg) (actions : List (Action σ V)) : Prop :=
  ∃ before action after, actions = before ++ action :: after ∧ action.reads reg = true ∧
    ∀ a ∈ before, a.writes reg = false

variable {reg : Reg}

theorem readFirst_append {actions : List (Action σ V)} {action : Action σ V}
    (h : ReadFirst reg (actions ++ [action])) : ReadFirst reg actions ∨
      action.reads reg = true ∧ ∀ a ∈ actions, a.writes reg = false := by
  rcases h with ⟨before, action', after, heq, hread, hwrite⟩
  rcases eq_nil_or_concat after with rfl | ⟨after, last, rfl⟩
  · rcases append_inj' heq rfl with ⟨rfl, hlast⟩
    cases hlast
    exact Or.inr ⟨hread, hwrite⟩
  · have heq' : actions ++ [action] = (before ++ action' :: after) ++ [last] := by
      rw [heq]
      simp
    exact Or.inl ⟨before, action', after, (append_inj' heq' rfl).1, hread, hwrite⟩

theorem countP_eq_zero_of_not_readFirst {actions : List (Action σ V)} (h : ¬ReadFirst reg actions)
    (hwrite : ∀ a ∈ actions, a.writes reg = false) : actions.countP (Action.reads reg) = 0 := by
  rw [countP_eq_zero]
  intro a ha hread
  rcases append_of_mem ha with ⟨before, after, rfl⟩
  exact h ⟨before, a, after, rfl, hread, fun b hb => hwrite b (mem_append_left _ hb)⟩

/-- What the analyzer knows after some actions, at an instruction. -/
structure Analyzed (startPc i : Nat) (done : List (Action σ V)) (a : Analyzer) : Prop where
  reads : ∀ reg, a.usage.reads reg = done.countP (Action.reads reg) % 2 ^ 16
  writes : ∀ reg, (∀ b ∈ done, b.writes reg = false) → a.usage.writes reg = 0
  block : ∃ j ≤ i, a.blockStartPc = startPc + 4 * j
  needs : ∀ reg, a.usage.needsInitialLoad reg = true →
    ∃ j ≤ i, a.usage.initialLoadPc reg = startPc + 4 * j
  first : ∀ reg, done.countP (Action.reads reg) < 2 ^ 16 → ReadFirst reg done →
    a.usage.needsInitialLoad reg = true
  backedges : ∀ edge ∈ a.usage.backedges, ∃ j ≤ i, edge.2 = startPc + 4 * j

variable {startPc i : Nat} {done : List (Action σ V)} {a : Analyzer}

theorem countP_reads_append (reg reg' : Reg) (f : σ → V → σ) :
    (done ++ [Action.read reg f]).countP (Action.reads reg') =
      done.countP (Action.reads reg') + if reg = reg' then 1 else 0 := by
  simp [Action.reads]

section

variable (h : Analyzed startPc i done a)
include h

theorem analyzed_read (reg : Reg) (f : σ → V → σ) :
    Analyzed startPc i (done ++ [.read reg f]) (a.action (.read reg f : Action σ V)) := by
  unfold action
  constructor
  · intro reg'
    rw [countP_reads_append]
    simp only [reads_recordRead]
    by_cases heq : reg' = reg
    · subst heq
      rw [update_self, h.reads, if_pos rfl, Nat.mod_add_mod]
    · rw [update_of_ne heq, h.reads, if_neg (Ne.symm heq), Nat.add_zero]
  · intro reg' hwrite
    simp only [writes_recordRead]
    exact h.writes reg' fun b hb => hwrite b (mem_append_left _ hb)
  · exact h.block
  · intro reg' hneeds
    simp only [needsInitialLoad_recordRead] at hneeds
    simp only [initialLoadPc_recordRead]
    split_ifs at hneeds ⊢
    · exact h.block
    · exact h.needs reg' hneeds
  · intro reg' hlt hfst
    rw [countP_reads_append] at hlt
    simp only [needsInitialLoad_recordRead]
    split_ifs with hunus
    · rfl
    · refine h.first reg' (by omega) ?_
      rcases readFirst_append hfst with hold | ⟨hread, hwrite⟩
      · exact hold
      · -- It would be the first access of the register.
        have heq : reg = reg' := by simpa [Action.reads] using hread
        subst heq
        by_contra hold
        refine hunus ⟨rfl, ?_, h.writes reg hwrite⟩
        rw [h.reads, countP_eq_zero_of_not_readFirst hold hwrite, Nat.zero_mod]
  · simp only [backedges_recordRead]
    exact h.backedges

theorem analyzed_write (reg : Reg) (f : σ → V) :
    Analyzed startPc i (done ++ [.write reg f]) (a.action (.write reg f : Action σ V)) := by
  have hcount : ∀ reg', (done ++ [Action.write reg f]).countP (Action.reads reg') =
      done.countP (Action.reads reg') := by
    intro reg'
    simp [Action.reads]
  unfold action recordWrite
  constructor
  · intro reg'
    rw [hcount]
    exact h.reads reg'
  · intro reg' hwrite
    have hne : reg' ≠ reg := by
      rintro rfl
      have hlast := hwrite (.write reg' f) (by simp)
      simp [Action.writes] at hlast
    simp only [update_of_ne hne]
    exact h.writes reg' fun b hb => hwrite b (mem_append_left _ hb)
  · exact h.block
  · exact h.needs
  · intro reg' hlt hfst
    rw [hcount] at hlt
    rcases readFirst_append hfst with hold | ⟨hread, _⟩
    · exact h.first reg' hlt hold
    · cases hread
  · exact h.backedges

theorem analyzed_other {action : Action σ V} (hread : ∀ reg, action.reads reg = false) :
    Analyzed startPc i (done ++ [action]) a := by
  have hcount : ∀ reg, (done ++ [action]).countP (Action.reads reg) =
      done.countP (Action.reads reg) := by
    intro reg
    rw [countP_append, countP_singleton, hread]
    rfl
  refine { h with reads := ?_, writes := ?_, first := ?_ }
  · intro reg
    rw [hcount]
    exact h.reads reg
  · intro reg hwrite
    exact h.writes reg fun b hb => hwrite b (mem_append_left _ hb)
  · intro reg hlt hfst
    rw [hcount] at hlt
    rcases readFirst_append hfst with hold | ⟨hlast, _⟩
    · exact h.first reg hlt hold
    · rw [hread] at hlast
      cases hlast

theorem analyzed_action (action : Action σ V) :
    Analyzed startPc i (done ++ [action]) (a.action action) := by
  cases action with
  | read reg f => exact analyzed_read h reg f
  | write reg f => exact analyzed_write h reg f
  | compute | recovery => exact analyzed_other h fun _ => rfl

theorem analyzed_actions (actions : List (Action σ V)) :
    Analyzed startPc i (done ++ actions) (actions.foldl action a) := by
  induction actions generalizing done a with
  | nil =>
    rw [append_nil]
    exact h
  | cons action actions ih =>
    have hnext := ih (analyzed_action h action)
    rwa [append_assoc, singleton_append] at hnext

theorem Analyzed.mono {i' : Nat} (hi : i ≤ i') : Analyzed startPc i' done a where
  reads := h.reads
  writes := h.writes
  block := h.block.imp fun _ hj => ⟨hj.1.trans hi, hj.2⟩
  needs := fun reg hreg => (h.needs reg hreg).imp fun _ hj => ⟨hj.1.trans hi, hj.2⟩
  first := h.first
  backedges := fun edge hedge => (h.backedges edge hedge).imp fun _ hj => ⟨hj.1.trans hi, hj.2⟩

theorem analyzed_beginInstruction :
    Analyzed startPc i done (a.beginInstruction (startPc + 4 * i)) := by
  unfold beginInstruction
  split_ifs
  · exact { h with block := ⟨i, Nat.le_refl i, rfl⟩ }
  · exact h

theorem Analyzed.nextBlock (pc : Nat) : Analyzed startPc i done { a with nextBlockPc := pc } :=
  ⟨h.reads, h.writes, h.block, h.needs, h.first, h.backedges⟩

variable (linkJumpsWithinRegion : Bool)

theorem analyzed_localBackedge (target : Nat) : Analyzed startPc i done
      (a.localBackedge linkJumpsWithinRegion startPc target (startPc + 4 * i)) := by
  unfold localBackedge
  split_ifs with hloc
  · refine { h with backedges := fun edge hedge => ?_ }
    rcases mem_append.mp hedge with hedge | hedge
    · exact h.backedges edge hedge
    · simp only [isLocalBackedge, Bool.and_eq_true, decide_eq_true_eq] at hloc
      rw [mem_singleton.mp hedge]
      exact ⟨(target - startPc) / 4, by omega, by omega⟩
  · exact h

theorem analyzed_insn (insn : Insn σ V) : Analyzed startPc i (done ++ insn.actions)
      (a.insn linkJumpsWithinRegion startPc (startPc + 4 * i) insn) := by
  unfold Analyzer.insn
  have hact := analyzed_actions (analyzed_beginInstruction h) insn.actions
  cases insn.branch with
  | next | indirect => exact hact
  | branch target taken =>
    exact analyzed_localBackedge (hact.nextBlock _) linkJumpsWithinRegion target
  | jump target => exact analyzed_localBackedge hact linkJumpsWithinRegion target

theorem analyzed_insns (insns : List (Insn σ V)) :
    Analyzed startPc (i + insns.length) (done ++ insns.flatMap (·.actions))
      (a.insns linkJumpsWithinRegion startPc (startPc + 4 * i) insns) := by
  induction insns generalizing i done a with
  | nil =>
    rw [flatMap_nil, append_nil]
    exact h
  | cons insn insns ih =>
    have hnext := ih ((analyzed_insn h linkJumpsWithinRegion insn).mono (Nat.le_succ i))
    rw [append_assoc, ← flatMap_cons] at hnext
    rw [length_cons, show i + (insns.length + 1) = i.succ + insns.length by omega,
      Analyzer.insns, show startPc + 4 * i + 4 = startPc + 4 * i.succ by omega]
    exact hnext

end

/-! ### Initial loads stay where they are -/

def SameLoad (reg : Reg) (u u' : XRegisterUsage) : Prop :=
  u'.needsInitialLoad reg = u.needsInitialLoad reg ∧ u'.initialLoadPc reg = u.initialLoadPc reg

theorem SameLoad.trans {reg : Reg} {u u' u'' : XRegisterUsage} (h : SameLoad reg u u')
    (h' : SameLoad reg u' u'') : SameLoad reg u u'' :=
  ⟨h'.1.trans h.1, h'.2.trans h.2⟩

theorem sameLoad_action (h : a.usage.reads reg ≠ 0) (action : Action σ V) :
    SameLoad reg a.usage (a.action action).usage := by
  cases action with
  | read reg' f =>
    have hused : ¬(reg = reg' ∧ a.usage.Unused reg') := by
      rintro ⟨rfl, hunus⟩
      exact h hunus.1
    refine ⟨?_, ?_⟩
    · simp [action, needsInitialLoad_recordRead, if_neg hused]
    · simp [action, initialLoadPc_recordRead, if_neg hused]
  | write | compute | recovery => exact ⟨rfl, rfl⟩

theorem sameLoad_actions (h : Analyzed startPc i done a)
    (hpos : 0 < done.countP (Action.reads reg)) (actions : List (Action σ V))
    (hlt : (done ++ actions).countP (Action.reads reg) < 2 ^ 16) :
    SameLoad reg a.usage (actions.foldl action a).usage := by
  induction actions generalizing done a with
  | nil => exact ⟨rfl, rfl⟩
  | cons action actions ih =>
    rw [← singleton_append, ← append_assoc] at hlt
    have hle : (done ++ [action]).countP (Action.reads reg) =
        done.countP (Action.reads reg) + [action].countP (Action.reads reg) :=
      countP_append
    have hused : a.usage.reads reg ≠ 0 := by
      rw [h.reads]
      rw [countP_append] at hlt
      have := Nat.mod_eq_of_lt (show done.countP (Action.reads reg) < 2 ^ 16 by omega)
      omega
    exact (sameLoad_action hused action).trans
      (ih (analyzed_action h action) (by omega) hlt)

theorem usage_beginInstruction (a : Analyzer) (pc : Nat) :
    (a.beginInstruction pc).usage = a.usage := by
  unfold beginInstruction
  split_ifs <;> rfl

theorem sameLoad_branch (reg : Reg) (a : Analyzer) (linkJumpsWithinRegion : Bool) (pc : Nat)
    (branch : Branch σ) :
    SameLoad reg a.usage (a.branch linkJumpsWithinRegion startPc pc branch).usage := by
  have hloc : ∀ (a : Analyzer) target, SameLoad reg a.usage
      (a.localBackedge linkJumpsWithinRegion startPc target pc).usage := by
    intro a target
    unfold localBackedge
    split_ifs <;> exact ⟨rfl, rfl⟩
  cases branch with
  | next | indirect => exact ⟨rfl, rfl⟩
  | branch target taken => exact hloc { a with nextBlockPc := pc + 4 } target
  | jump target => exact hloc a target

theorem sameLoad_insns (h : Analyzed startPc i done a) (linkJumpsWithinRegion : Bool)
    (hpos : 0 < done.countP (Action.reads reg)) (insns : List (Insn σ V))
    (hlt : (done ++ insns.flatMap (·.actions)).countP (Action.reads reg) < 2 ^ 16) :
    SameLoad reg a.usage
      (a.insns linkJumpsWithinRegion startPc (startPc + 4 * i) insns).usage := by
  induction insns generalizing i done a with
  | nil => exact ⟨rfl, rfl⟩
  | cons insn insns ih =>
    rw [flatMap_cons, ← append_assoc] at hlt
    have hdone : (done ++ insn.actions).countP (Action.reads reg) =
        done.countP (Action.reads reg) + insn.actions.countP (Action.reads reg) :=
      countP_append
    have hall := hlt
    rw [countP_append] at hall
    have hinsn : SameLoad reg a.usage
        (a.insn linkJumpsWithinRegion startPc (startPc + 4 * i) insn).usage := by
      have hact := sameLoad_actions (analyzed_beginInstruction h) hpos insn.actions (by omega)
      rw [usage_beginInstruction] at hact
      exact hact.trans (sameLoad_branch reg _ _ _ insn.branch)
    refine hinsn.trans ?_
    exact ih ((analyzed_insn h linkJumpsWithinRegion insn).mono (Nat.le_succ i)) (by omega) hlt

variable (linkJumpsWithinRegion : Bool)

theorem insns_append (a : Analyzer) (pc : Nat)
    (insns insns' : List (Insn σ V)) : a.insns linkJumpsWithinRegion startPc pc (insns ++ insns') =
      (a.insns linkJumpsWithinRegion startPc pc insns).insns linkJumpsWithinRegion startPc
        (pc + 4 * insns.length) insns' := by
  induction insns generalizing a pc with
  | nil => rfl
  | cons insn insns ih =>
    rw [cons_append, Analyzer.insns, Analyzer.insns, ih, length_cons]
    congr 1
    omega

theorem analyzed_initial (startPc : Nat) :
    Analyzed startPc 0 ([] : List (Action σ V)) ⟨XRegisterUsage.initial, startPc, 0⟩ where
  reads := fun _ => rfl
  writes := fun _ _ => rfl
  block := ⟨0, Nat.le_refl 0, rfl⟩
  needs := fun _ h => by cases h
  first := by
    rintro reg - ⟨before, action, after, heq, -⟩
    cases before <;> cases heq
  backedges := fun _ h => by cases h

theorem countP_pos_of_readFirst (h : ReadFirst reg done) : 0 < done.countP (Action.reads reg) := by
  rcases h with ⟨before, action, after, rfl, hread, _⟩
  rw [countP_pos_iff]
  exact ⟨action, by simp, hread⟩

/-- A register that is read before it is written needs an initial load, at or
    before that instruction. -/
theorem analyze_readFirst (startPc : Nat)
    {before : List (Insn σ V)} {insn : Insn σ V} (after : List (Insn σ V))
    (hfst : ReadFirst reg (before.flatMap (·.actions) ++ insn.actions))
    (hlt : ((before ++ insn :: after).flatMap (·.actions)).countP (Action.reads reg) < 2 ^ 16) :
    let u := analyze linkJumpsWithinRegion startPc (before ++ insn :: after)
    u.needsInitialLoad reg = true ∧ ∃ j ≤ before.length, u.initialLoadPc reg = startPc + 4 * j := by
  have hbef := analyzed_insns (analyzed_initial (σ := σ) (V := V) startPc)
    linkJumpsWithinRegion before
  rw [nil_append, Nat.zero_add] at hbef
  have hinsn := analyzed_insn hbef linkJumpsWithinRegion insn
  rw [flatMap_append, flatMap_cons, ← append_assoc] at hlt
  have hcount := hlt
  rw [countP_append] at hcount
  have hneeds := hinsn.first reg (by omega) hfst
  have hsame := sameLoad_insns (hinsn.mono (Nat.le_succ _)) linkJumpsWithinRegion
    (countP_pos_of_readFirst hfst) after hlt
  have hanal : analyze linkJumpsWithinRegion startPc (before ++ insn :: after) =
      (Analyzer.insns linkJumpsWithinRegion startPc (Analyzer.insn linkJumpsWithinRegion startPc
        (Analyzer.insns linkJumpsWithinRegion startPc ⟨XRegisterUsage.initial, startPc, 0⟩
          (startPc + 4 * 0) before) (startPc + 4 * before.length) insn)
        (startPc + 4 * before.length.succ) after).usage := by
    unfold analyze
    rw [insns_append, Analyzer.insns]
    rfl
  intro u
  rw [show u = _ from hanal]
  exact ⟨hsame.1.trans hneeds, by rw [hsame.2]; exact hinsn.needs reg hneeds⟩

end

/-! ### Hoisting -/

namespace XRegisterUsage

/-- Initial loads are where they were, or at the target of an edge before. -/
structure Hoisted (u u' : XRegisterUsage) : Prop where
  reads : u'.reads = u.reads
  writes : u'.writes = u.writes
  needs : u'.needsInitialLoad = u.needsInitialLoad
  backedges : u'.backedges = u.backedges
  le : ∀ reg, u'.initialLoadPc reg ≤ u.initialLoadPc reg
  pc : ∀ reg, u'.initialLoadPc reg = u.initialLoadPc reg ∨
    ∃ edge ∈ u.backedges, u'.initialLoadPc reg = edge.2

theorem Hoisted.refl (u : XRegisterUsage) : Hoisted u u :=
  ⟨rfl, rfl, rfl, rfl, fun _ => Nat.le_refl _, fun _ => Or.inl rfl⟩

theorem Hoisted.trans {u u' u'' : XRegisterUsage} (h : Hoisted u u') (h' : Hoisted u' u'') :
    Hoisted u u'' where
  reads := h'.reads.trans h.reads
  writes := h'.writes.trans h.writes
  needs := h'.needs.trans h.needs
  backedges := h'.backedges.trans h.backedges
  le := fun reg => (h'.le reg).trans (h.le reg)
  pc := by
    intro reg
    rcases h'.pc reg with heq | ⟨edge, hedge, heq⟩
    · rw [heq]
      exact h.pc reg
    · rw [h.backedges] at hedge
      exact Or.inr ⟨edge, hedge, heq⟩

def Outside (u : XRegisterUsage) (edge : Nat × Nat) (reg : Reg) : Prop :=
  ¬(u.needsInitialLoad reg = true ∧ edge.2 < u.initialLoadPc reg ∧ u.initialLoadPc reg ≤ edge.1)

variable {u : XRegisterUsage}

theorem hoisted_hoistReg {edge : Nat × Nat} (hedge : edge ∈ u.backedges) (changed : Bool)
    (reg : Reg) : Hoisted u (hoistReg edge (u, changed) reg).1 ∧
      ((hoistReg edge (u, changed) reg).2 = false →
        changed = false ∧ hoistReg edge (u, changed) reg = (u, false) ∧ u.Outside edge reg) := by
  unfold hoistReg Outside
  split_ifs with h
  · refine ⟨⟨rfl, rfl, rfl, rfl, fun reg' => ?_, fun reg' => ?_⟩, fun hfalse => by cases hfalse⟩
    · dsimp only
      rw [update_apply]
      split_ifs with heq
      · rw [heq]
        exact h.2.1.le
      · exact Nat.le_refl _
    · dsimp only
      rw [update_apply]
      split_ifs with heq
      · exact Or.inr ⟨edge, hedge, rfl⟩
      · exact Or.inl rfl
  · exact ⟨Hoisted.refl u, fun hfalse => ⟨hfalse, Prod.ext rfl hfalse, h⟩⟩

theorem hoisted_hoistRegs {edge : Nat × Nat} (regs : List Reg) (hedge : edge ∈ u.backedges)
    (changed : Bool) : Hoisted u (regs.foldl (hoistReg edge) (u, changed)).1 ∧
      ((regs.foldl (hoistReg edge) (u, changed)).2 = false →
        changed = false ∧ regs.foldl (hoistReg edge) (u, changed) = (u, false) ∧
          ∀ reg ∈ regs, u.Outside edge reg) := by
  induction regs generalizing u changed with
  | nil => exact ⟨Hoisted.refl u, fun h => ⟨h, Prod.ext rfl h, by simp⟩⟩
  | cons reg regs ih =>
    rcases hoisted_hoistReg hedge changed reg with ⟨hhoist, hsame⟩
    rw [foldl_cons]
    generalize hoistReg edge (u, changed) reg = s at hhoist hsame ⊢
    rcases s with ⟨u', changed'⟩
    have hedge' : edge ∈ u'.backedges := by
      rw [hhoist.backedges]
      exact hedge
    rcases ih hedge' changed' with ⟨hhoist', hsame'⟩
    refine ⟨hhoist.trans hhoist', fun hfalse => ?_⟩
    rcases hsame' hfalse with ⟨rfl, heq, houts⟩
    rcases hsame rfl with ⟨hchang, heq', hreg⟩
    cases heq'
    refine ⟨hchang, heq, fun reg' hreg' => ?_⟩
    rcases mem_cons.mp hreg' with rfl | hreg'
    · exact hreg
    · exact houts reg' hreg'

theorem hoisted_hoistEdges {edges : List (Nat × Nat)}
    (hedg : ∀ edge ∈ edges, edge ∈ u.backedges) (changed : Bool) :
    Hoisted u (edges.foldl hoistEdge (u, changed)).1 ∧
      ((edges.foldl hoistEdge (u, changed)).2 = false →
        changed = false ∧ edges.foldl hoistEdge (u, changed) = (u, false) ∧
          ∀ edge ∈ edges, ∀ reg, u.Outside edge reg) := by
  induction edges generalizing u changed with
  | nil => exact ⟨Hoisted.refl u, fun h => ⟨h, Prod.ext rfl h, by simp⟩⟩
  | cons edge edges ih =>
    rcases hoisted_hoistRegs (List.finRange 32) (hedg edge mem_cons_self) changed with
      ⟨hhoist, hsame⟩
    rw [foldl_cons, hoistEdge]
    generalize (List.finRange 32).foldl (hoistReg edge) (u, changed) = s at hhoist hsame ⊢
    rcases s with ⟨u', changed'⟩
    have hedg' : ∀ edge' ∈ edges, edge' ∈ u'.backedges := by
      intro edge' hedge'
      rw [hhoist.backedges]
      exact hedg edge' (mem_cons_of_mem edge hedge')
    rcases ih hedg' changed' with ⟨hhoist', hsame'⟩
    refine ⟨hhoist.trans hhoist', fun hfalse => ?_⟩
    rcases hsame' hfalse with ⟨rfl, heq, houts⟩
    rcases hsame rfl with ⟨hchang, heq', hedge⟩
    cases heq'
    refine ⟨hchang, heq, fun edge' hedge' => ?_⟩
    rcases mem_cons.mp hedge' with rfl | hedge'
    · exact fun reg => hedge reg (mem_finRange reg)
    · exact houts edge' hedge'

theorem hoistLoopInitialLoads_fixpoint (u : XRegisterUsage) : Hoisted u u.hoistLoopInitialLoads ∧
      ∀ edge ∈ u.backedges, ∀ reg, u.hoistLoopInitialLoads.Outside edge reg := by
  induction hn : u.totalPc using Nat.strong_induction_on generalizing u with
  | _ n ih =>
    rcases hoisted_hoistEdges (fun _ h => h) false with ⟨hhoist, hsame⟩
    change Hoisted u u.hoistPass.1 at hhoist
    rw [hoistLoopInitialLoads]
    split_ifs with hchang
    · have hlt : u.hoistPass.1.totalPc < n := by
        rcases u.decreases_hoistPass.2 hchang with h | h
        · cases h
        · exact hn ▸ h
      rcases ih _ hlt u.hoistPass.1 rfl with ⟨hrest, houts⟩
      rw [hhoist.backedges] at houts
      exact ⟨hhoist.trans hrest, houts⟩
    · rcases hsame (Bool.eq_false_iff.mpr hchang) with ⟨_, heq, houts⟩
      change u.hoistPass = (u, false) at heq
      rw [heq]
      exact ⟨Hoisted.refl u, houts⟩

end XRegisterUsage

/-! ### What is cached -/

variable (u : XRegisterUsage)

theorem selectFrom_injective {slots : List (Fin 7)} (hnod : slots.Nodup)
    {result : CachedXRegisterMap}
    (hinj : ∀ reg reg' slot, result reg = some slot → result reg' = some slot → reg = reg')
    (hfree : ∀ slot ∈ slots, ∀ reg, result reg ≠ some slot) :
    ∀ reg reg' slot, selectFrom u slots result reg = some slot →
      selectFrom u slots result reg' = some slot → reg = reg' := by
  induction slots generalizing result with
  | nil => exact hinj
  | cons slot slots ih =>
    rw [selectFrom]
    cases u.bestReg fun reg => (result reg).isSome with
    | none => exact hinj
    | some best =>
      rw [nodup_cons] at hnod
      refine ih hnod.2 ?_ ?_
      · intro reg reg' slot' h h'
        rw [update_apply] at h h'
        split_ifs at h h' with heq heq'
        · rw [heq, heq']
        · cases h
          exact absurd h' (hfree slot mem_cons_self reg')
        · cases h'
          exact absurd h (hfree slot mem_cons_self reg)
        · exact hinj reg reg' slot' h h'
      · intro slot' hslot' reg h
        rw [update_apply] at h
        split_ifs at h
        · cases h
          exact hnod.1 hslot'
        · exact hfree slot' (mem_cons_of_mem slot hslot') reg h

theorem selectCachedXRegisters_injective (reg reg' : Reg) (slot : Fin 7)
    (h : selectCachedXRegisters u reg = some slot)
    (h' : selectCachedXRegisters u reg' = some slot) : reg = reg' :=
  selectFrom_injective u (nodup_finRange 7) (fun _ _ _ h => by cases h)
    (fun _ _ _ h => by cases h) reg reg' slot h h'

/-! ### Emitted loads -/

theorem strictWeakOrder_lexLt : Lib.StrictWeakOrder lexLt := by
  refine ⟨fun x y h => ?_, fun x y z h h' => ?_⟩
  · simp only [lexLt, decide_eq_true_eq, decide_eq_false_iff_not, Fin.lt_def] at h ⊢
    omega
  · simp only [lexLt, decide_eq_false_iff_not, Fin.lt_def] at h h' ⊢
    omega

/-- The loads are by address, and none is before some address. -/
structure SortedFrom (pc : Nat) (pending : List (Nat × Reg)) : Prop where
  sorted : pending.Pairwise fun p q => p.1 ≤ q.1
  le : ∀ p ∈ pending, pc ≤ p.1

variable {pc target : Nat} {pending : List (Nat × Reg)}

theorem SortedFrom.mem_takeWhile (h : SortedFrom pc pending) {p : Nat × Reg} (hp : p ∈ pending)
    (hpc : p.1 = pc) : p ∈ pending.takeWhile (·.1 == pc) := by
  induction pending with
  | nil => cases hp
  | cons q pending ih =>
    rcases h with ⟨hsort, hle⟩
    rw [pairwise_cons] at hsort
    have hrest : SortedFrom pc pending :=
      ⟨hsort.2, fun p hp => hle p (mem_cons_of_mem q hp)⟩
    have hq : q.1 = pc := by
      have hpcq := hle q mem_cons_self
      rcases mem_cons.mp hp with rfl | hp
      · exact hpc
      · have hqp := hsort.1 p hp
        omega
    rw [takeWhile_cons_of_pos (by simpa using hq)]
    rcases mem_cons.mp hp with rfl | hp
    · exact mem_cons_self
    · exact mem_cons_of_mem q (ih hrest hp)

theorem SortedFrom.dropWhile {pc : Nat} {pending : List (Nat × Reg)}
    (h : SortedFrom pc pending) : SortedFrom (pc + 1) (pending.dropWhile (·.1 == pc)) := by
  induction pending with
  | nil => exact ⟨List.Pairwise.nil, by simp⟩
  | cons q pending ih =>
    rcases h with ⟨hsort, hle⟩
    have hpcq := hle q mem_cons_self
    by_cases hq : q.1 = pc
    · rw [dropWhile_cons_of_pos (by simpa using hq)]
      rw [pairwise_cons] at hsort
      exact ih ⟨hsort.2, fun p hp => hle p (mem_cons_of_mem q hp)⟩
    · rw [dropWhile_cons_of_neg (by simpa using hq)]
      refine ⟨hsort, fun p hp => ?_⟩
      rw [pairwise_cons] at hsort
      rcases mem_cons.mp hp with rfl | hp
      · omega
      · have hqp := hsort.1 p hp
        omega

theorem emitLoads_spec (n pc : Nat) (h : SortedFrom pc pending)
    (hpc : ∀ p ∈ pending, ∃ j < n, p.1 = pc + 4 * j) : (emitLoads n pc pending).2 = [] ∧
      ∀ p ∈ pending, ∀ j, p.1 = pc + 4 * j → p.2 ∈ (emitLoads n pc pending).1[j]?.getD [] := by
  induction n generalizing pc pending with
  | zero =>
    have hnil : pending = [] := by
      refine eq_nil_iff_forall_not_mem.mpr fun p hp => ?_
      rcases hpc p hp with ⟨j, hj, _⟩
      omega
    rw [hnil]
    exact ⟨rfl, by simp⟩
  | succ n ih =>
    have hdrop := h.dropWhile
    have hrest : SortedFrom (pc + 4) (pending.dropWhile (·.1 == pc)) := by
      refine ⟨hdrop.sorted, fun p hp => ?_⟩
      have hlt := hdrop.le p hp
      rcases hpc p ((dropWhile_sublist _).subset hp) with ⟨j, _, hj⟩
      omega
    have hpc' : ∀ p ∈ pending.dropWhile (·.1 == pc), ∃ j < n, p.1 = pc + 4 + 4 * j := by
      intro p hp
      have hle := hrest.le p hp
      rcases hpc p ((dropWhile_sublist _).subset hp) with ⟨j, hlt, hj⟩
      exact ⟨j - 1, by omega, by omega⟩
    rcases ih (pc + 4) hrest hpc' with ⟨hnil, hmem⟩
    simp only [emitLoads, emitInitialXLoads]
    refine ⟨hnil, fun p hp j hj => ?_⟩
    cases j with
    | zero =>
      exact mem_map_of_mem (h.mem_takeWhile hp hj)
    | succ j =>
      refine hmem p ?_ j (by omega)
      -- It is not among those that are emitted here.
      rw [← takeWhile_append_dropWhile (p := (·.1 == pc)) (l := pending)] at hp
      rcases mem_append.mp hp with hp | hp
      · have heq := mem_takeWhile_imp hp
        simp only [beq_iff_eq] at heq
        omega
      · exact hp

theorem mem_pendingXLoads (sort : Lib.StdSort) (plan : XRegisterUsage)
    (cached : CachedXRegisterMap) (demandXLoads : Bool) (startPc : Nat) (p : Nat × Reg) :
    p ∈ pendingXLoads sort plan cached demandXLoads startPc ↔ (cached p.2).isSome = true ∧
        (demandXLoads = false ∧ p.1 = startPc ∨
          demandXLoads = true ∧ plan.needsInitialLoad p.2 = true ∧
            p.1 = plan.initialLoadPc p.2) := by
  unfold pendingXLoads
  rw [(sort.perm _ _).mem_iff, mem_filterMap]
  constructor
  · rintro ⟨reg, _, h⟩
    split_ifs at h with hcach hdem hneeds
    · cases h
      exact ⟨by simpa [isSome_iff_ne_none] using hcach, Or.inl ⟨hdem, rfl⟩⟩
    · cases h
      exact ⟨by simpa [isSome_iff_ne_none] using hcach, Or.inr ⟨by simpa using hdem, hneeds, rfl⟩⟩
  · rintro ⟨hcach, ⟨hdem, hpc⟩ | ⟨hdem, hneeds, hpc⟩⟩
    · refine ⟨p.2, mem_finRange _, ?_⟩
      rw [if_neg (by simpa [isSome_iff_ne_none] using hcach), if_pos hdem, ← hpc]
    · refine ⟨p.2, mem_finRange _, ?_⟩
      rw [if_neg (by simpa [isSome_iff_ne_none] using hcach),
        if_neg (by simp [hdem]), if_pos hneeds, ← hpc]

/-! ### The plan -/

section

variable {σ V : Type}

/-- The register is loaded on the way to the label of an instruction. -/
def Code.LoadedBy (code : Code) (i : Nat) (reg : Reg) : Prop :=
  reg ∈ code.entryLoads ∨ ∃ j ≤ i, reg ∈ code.loadsAt j

/-- Where a cached register is read, it was written before, or loaded. -/
def Planned (region : List (Insn σ V)) (code : Code) : Prop :=
  ∀ i insn, region[i]? = some insn → ∀ reg, (code.cached reg).isSome = true →
    ReadFirst reg ((region.take i).flatMap (·.actions) ++ insn.actions) → code.LoadedBy i reg

variable {region : List (Insn σ V)}

theorem initialLoadPc_lt {linkJumpsWithinRegion : Bool} {startPc : Nat} (hreg : region ≠ [])
    {reg : Reg}
    (h : (analyze linkJumpsWithinRegion startPc region).hoistLoopInitialLoads.needsInitialLoad
      reg = true) : ∃ j < region.length,
      (analyze linkJumpsWithinRegion startPc region).hoistLoopInitialLoads.initialLoadPc reg =
        startPc + 4 * j := by
  rcases eq_nil_or_concat region with rfl | ⟨before, last, rfl⟩
  · exact absurd rfl hreg
  · rw [concat_eq_append] at h ⊢
    have hbef := analyzed_insns (analyzed_initial (σ := σ) (V := V) startPc)
      linkJumpsWithinRegion before
    rw [nil_append, Nat.zero_add] at hbef
    have hlast := analyzed_insn hbef linkJumpsWithinRegion last
    have husage : (Analyzer.insn linkJumpsWithinRegion startPc
        (Analyzer.insns linkJumpsWithinRegion startPc ⟨XRegisterUsage.initial, startPc, 0⟩
          (startPc + 4 * 0) before) (startPc + 4 * before.length) last).usage =
        analyze linkJumpsWithinRegion startPc (before ++ [last]) := by
      unfold analyze
      rw [insns_append]
      rfl
    have hneeds := hlast.needs reg
    have hedg := hlast.backedges
    rw [husage] at hneeds hedg
    have hhoist := (hoistLoopInitialLoads_fixpoint
      (analyze linkJumpsWithinRegion startPc (before ++ [last]))).1
    rw [hhoist.needs] at h
    rw [length_append, length_singleton]
    rcases hhoist.pc reg with heq | ⟨edge, hedge, heq⟩
    · rcases hneeds h with ⟨j, hj, hpc⟩
      exact ⟨j, by omega, heq.trans hpc⟩
    · rcases hedg edge hedge with ⟨j, hj, hpc⟩
      exact ⟨j, by omega, heq.trans hpc⟩

theorem translate_loads (sort : Lib.StdSort) (linkJumpsWithinRegion demandXLoads : Bool)
    (startPc : Nat) (hreg : region ≠ []) :
    let plan := (analyze linkJumpsWithinRegion startPc region).hoistLoopInitialLoads
    let code := (translate sort linkJumpsWithinRegion demandXLoads startPc region).1
    (translate sort linkJumpsWithinRegion demandXLoads startPc region).2 = [] ∧
      ∀ p ∈ pendingXLoads sort plan code.cached demandXLoads startPc, ∀ j,
        p.1 = startPc + 4 * j → code.LoadedBy j p.2 := by
  intro plan code
  have hmem := mem_pendingXLoads sort plan code.cached demandXLoads startPc
  have hpc : ∀ p ∈ pendingXLoads sort plan code.cached demandXLoads startPc,
      ∃ j < region.length, p.1 = startPc + 4 * j := by
    intro p hp
    have hlen : 0 < region.length := length_pos_of_ne_nil hreg
    rcases ((hmem p).mp hp).2 with ⟨_, heq⟩ | ⟨_, hneeds, heq⟩
    · exact ⟨0, hlen, heq⟩
    · rcases initialLoadPc_lt hreg hneeds with ⟨j, hj, hpc⟩
      exact ⟨j, hj, heq.trans hpc⟩
  have hsort : SortedFrom startPc
      (pendingXLoads sort plan code.cached demandXLoads startPc) := by
    refine ⟨(sort.sorted lexLt _ strictWeakOrder_lexLt).imp fun hpq => ?_, fun p hp => ?_⟩
    · simp only [lexLt, decide_eq_false_iff_not] at hpq
      omega
    · rcases hpc p hp with ⟨j, _, hj⟩
      omega
  -- What is left after the entry is by address too.
  have hdrop := hsort.dropWhile
  have hsubs := (dropWhile_sublist (fun p : Nat × Reg => p.1 == startPc)
    (l := pendingXLoads sort plan code.cached demandXLoads startPc)).subset
  have hleft : ∀ p ∈ (pendingXLoads sort plan code.cached demandXLoads startPc).dropWhile
      (·.1 == startPc), startPc ≤ p.1 := by
    intro p hp
    have hlt := hdrop.le p hp
    omega
  rcases emitLoads_spec region.length startPc ⟨hdrop.sorted, hleft⟩
    (fun p hp => hpc p (hsubs hp)) with ⟨hnil, hloads⟩
  refine ⟨hnil, fun p hp j hj => ?_⟩
  rw [← takeWhile_append_dropWhile (p := (·.1 == startPc))
    (l := pendingXLoads sort plan code.cached demandXLoads startPc)] at hp
  rcases mem_append.mp hp with hp | hp
  · exact Or.inl (mem_map_of_mem hp)
  · exact Or.inr ⟨j, Nat.le_refl j, hloads p hp j hj⟩

/-- What the runtime translates as one region. A lowering reads a register a few times only. -/
structure IsRegion (region : List (Insn σ V)) : Prop where
  nonempty : region ≠ []
  length : region.length ≤ kMaxRegionInsns
  reads : ∀ insn ∈ region, ∀ reg, insn.actions.countP (Action.reads reg) ≤ 255

def CountsReads (region : List (Insn σ V)) (reg : Reg) : Prop :=
  (region.flatMap (·.actions)).countP (Action.reads reg) < 2 ^ 16

theorem IsRegion.countsReads (h : IsRegion region) (reg : Reg) : CountsReads region reg := by
  have hsum := sum_le_card_nsmul (region.map fun insn => insn.actions.countP (Action.reads reg)) 255
    (by
      intro n hn
      obtain ⟨insn, hinsn, rfl⟩ := mem_map.mp hn
      exact h.reads insn hinsn reg)
  have hlength := h.length
  rw [length_map, smul_eq_mul] at hsum
  unfold CountsReads kMaxRegionInsns at *
  rw [countP_flatMap]
  exact Nat.lt_of_le_of_lt hsum (by omega)

theorem translate_planned (sort : Lib.StdSort) (linkJumpsWithinRegion demandXLoads : Bool)
    (startPc : Nat) (hreg : region ≠ [])
    (hcount : demandXLoads = false ∨ ∀ reg, CountsReads region reg) :
    Planned region (translate sort linkJumpsWithinRegion demandXLoads startPc region).1 := by
  rcases translate_loads sort linkJumpsWithinRegion demandXLoads startPc hreg with ⟨_, hloads⟩
  intro i insn hinsn reg hcach hfst
  have hmem := mem_pendingXLoads sort
    (analyze linkJumpsWithinRegion startPc region).hoistLoopInitialLoads
    (translate sort linkJumpsWithinRegion demandXLoads startPc region).1.cached demandXLoads startPc
  cases hdem : demandXLoads with
  | false =>
    subst hdem
    rcases hloads (startPc, reg) ((hmem _).mpr ⟨hcach, Or.inl ⟨rfl, rfl⟩⟩) 0 rfl with
      hentry | ⟨j, hj, hload⟩
    · exact Or.inl hentry
    · exact Or.inr ⟨j, by omega, hload⟩
  | true =>
    subst hdem
    have hlt := hcount.resolve_left (by simp) reg
    have hi : i < region.length := (List.getElem?_eq_some_iff.mp hinsn).1
    have hspl : region = region.take i ++ insn :: region.drop (i + 1) := by
      rw [← (List.getElem?_eq_some_iff.mp hinsn).2, ← List.drop_eq_getElem_cons hi,
        List.take_append_drop]
    have hread := analyze_readFirst linkJumpsWithinRegion startPc (region.drop (i + 1)) hfst
      (by rw [← hspl]; exact hlt)
    rw [← hspl] at hread
    rcases hread with ⟨hneeds, j, hj, hpc⟩
    have hhoist := (hoistLoopInitialLoads_fixpoint
      (analyze linkJumpsWithinRegion startPc region)).1
    have hneeds' := congrFun hhoist.needs reg
    rw [hneeds] at hneeds'
    rcases initialLoadPc_lt hreg hneeds' with ⟨j', _, hpc'⟩
    have hle := hhoist.le reg
    rw [length_take] at hj
    rcases hloads (_, reg) ((hmem _).mpr ⟨hcach, Or.inr ⟨rfl, hneeds', rfl⟩⟩) j' hpc' with
      hentry | ⟨k, hk, hload⟩
    · exact Or.inl hentry
    · exact Or.inr ⟨k, by omega, hload⟩

end

/-! ### Runs -/

section

variable {σ V : Type} {code : Code} {s t u : State σ V}

/-- The same machine and guest registers. -/
structure Agree (s u : State σ V) : Prop where
  hidden : s.hidden = u.hidden
  x : s.x = u.x

/-- Cached registers that were loaded or written are right, and no others were read. -/
structure Right (code : Code) (s : State σ V) : Prop where
  host : ∀ reg slot, code.cached reg = some slot → s.initialized reg = true →
    s.host slot = s.x reg
  reads : s.readsInitialized = true

def Code.Injective (code : Code) : Prop :=
  ∀ reg reg' slot, code.cached reg = some slot → code.cached reg' = some slot → reg = reg'

def Keeps (s t : State σ V) : Prop := ∀ reg, s.initialized reg = true → t.initialized reg = true

theorem setHost_agree (s : State σ V) (code : Code) (reg : Reg) (v : V) :
    Agree (s.setHost code reg v) s := by
  unfold State.setHost
  split <;> exact ⟨rfl, rfl⟩

variable {reg : Reg}

section

variable (hinj : code.Injective) (hs : Right code s)
include hinj hs

theorem setHost_right {x : Reg → V} (hx : ∀ reg', reg' ≠ reg → x reg' = s.x reg') :
    Right code ({ s with x := x }.setHost code reg (x reg)) ∧
      Keeps s ({ s with x := x }.setHost code reg (x reg)) ∧
      ((code.cached reg).isSome = true →
        ({ s with x := x }.setHost code reg (x reg)).initialized reg = true) := by
  unfold State.setHost
  cases hcach : code.cached reg with
  | none =>
    refine ⟨⟨fun reg' slot hslot hinit => ?_, hs.reads⟩, fun _ h => h, fun h => by cases h⟩
    have hne : reg' ≠ reg := by
      rintro rfl
      rw [hcach] at hslot
      cases hslot
    exact (hs.host reg' slot hslot hinit).trans (hx reg' hne).symm
  | some slot =>
    refine ⟨⟨fun reg' slot' hslot' hinit => ?_, hs.reads⟩, fun reg' h => ?_, fun _ => ?_⟩
    · dsimp only at hinit ⊢
      by_cases hreg : reg' = reg
      · subst hreg
        rw [hcach] at hslot'
        cases hslot'
        exact update_self _ _ _
      · have hslot : slot' ≠ slot := by
          rintro rfl
          exact hreg (hinj reg' reg slot' hslot' hcach)
        rw [update_of_ne hreg] at hinit
        rw [update_of_ne hslot]
        exact (hs.host reg' slot' hslot' hinit).trans (hx reg' hreg).symm
    · dsimp only
      by_cases hreg : reg' = reg
      · rw [hreg]
        exact update_self _ _ _
      · rw [update_of_ne hreg]
        exact h
    · exact update_self _ _ _

theorem load_right (reg : Reg) : Right code (s.load code reg) ∧ Keeps s (s.load code reg) ∧
      ((code.cached reg).isSome = true → (s.load code reg).initialized reg = true) :=
  setHost_right hinj hs fun _ _ => rfl

theorem writeX_right (reg : Reg) (v : V) :
    Right code (s.writeX code reg v) ∧ Keeps s (s.writeX code reg v) ∧
      ((code.cached reg).isSome = true → (s.writeX code reg v).initialized reg = true) := by
  have h := setHost_right hinj hs
    fun reg' (hne : reg' ≠ reg) => update_of_ne hne v s.x
  rwa [update_self] at h

end

theorem loads_right (hinj : code.Injective) (regs : List Reg) (hs : Right code s) :
    Right code (regs.foldl (State.load code) s) ∧ Agree (regs.foldl (State.load code) s) s ∧
      Keeps s (regs.foldl (State.load code) s) ∧ ∀ reg ∈ regs, (code.cached reg).isSome = true →
        (regs.foldl (State.load code) s).initialized reg = true := by
  induction regs generalizing s with
  | nil => exact ⟨hs, ⟨rfl, rfl⟩, fun _ h => h, by simp⟩
  | cons reg regs ih =>
    rcases load_right hinj hs reg with ⟨hright, hkeeps, hinit⟩
    have hagr := setHost_agree s code reg (s.x reg)
    rcases ih hright with ⟨hright', hagr', hkeeps', hinit'⟩
    refine ⟨hright', ⟨hagr'.hidden.trans hagr.hidden, hagr'.x.trans hagr.x⟩,
      fun reg' h => hkeeps' reg' (hkeeps reg' h), fun reg' hreg' hcach => ?_⟩
    rcases mem_cons.mp hreg' with rfl | hreg'
    · exact hkeeps' reg' (hinit hcach)
    · exact hinit' reg' hreg' hcach

def ReadsKnown (code : Code) (known : Reg → Prop) (actions : List (Action σ V)) : Prop :=
  ∀ before action after, actions = before ++ action :: after → ∀ reg,
    action.reads reg = true → (code.cached reg).isSome = true →
      known reg ∨ ∃ a ∈ before, a.writes reg = true

theorem ReadsKnown.tail {known : Reg → Prop} {action : Action σ V}
    {actions : List (Action σ V)} (h : ReadsKnown code known (action :: actions)) :
    ReadsKnown code (fun reg => known reg ∨ action.writes reg = true) actions := by
  intro before action' after heq reg hread hcach
  rcases h (action :: before) action' after (by rw [heq]; rfl) reg hread hcach with
    hknown | ⟨a, ha, hwrite⟩
  · exact Or.inl (Or.inl hknown)
  · rcases mem_cons.mp ha with rfl | ha
    · exact Or.inl (Or.inr hwrite)
    · exact Or.inr ⟨a, ha, hwrite⟩

/-- What the actions of an instruction do with the cache and without it. -/
structure SameActions (code : Code) (actions : List (Action σ V)) (s : State σ V)
    (r r' : State σ V × Bool) : Prop where
  faulted : r.2 = r'.2
  agree : Agree r.1 r'.1
  right : Right code r.1
  keeps : Keeps s r.1
  written : r.2 = false → ∀ reg, (code.cached reg).isSome = true →
    (∃ a ∈ actions, a.writes reg = true) → r.1.initialized reg = true

theorem SameActions.cons {actions : List (Action σ V)} {action : Action σ V}
    {r r' : State σ V × Bool} (h : SameActions code actions t r r') (hkeeps : Keeps s t)
    (hwrit : ∀ reg, (code.cached reg).isSome = true → action.writes reg = true →
      t.initialized reg = true) : SameActions code (action :: actions) s r r' where
  faulted := h.faulted
  agree := h.agree
  right := h.right
  keeps := fun reg hreg => h.keeps reg (hkeeps reg hreg)
  written := by
    rintro hfault reg hcach ⟨a, ha, hwrite⟩
    rcases mem_cons.mp ha with rfl | ha
    · exact h.keeps reg (hwrit reg hcach hwrite)
    · exact h.written hfault reg hcach ⟨a, ha, hwrite⟩

theorem readX_right (hs : Right code s)
    (hinit : (code.cached reg).isSome = true → s.initialized reg = true) :
    (s.readX code reg).1 = s.x reg ∧ Right code (s.readX code reg).2 ∧
      Agree (s.readX code reg).2 s ∧ Keeps s (s.readX code reg).2 := by
  unfold State.readX
  cases hcach : code.cached reg with
  | none => exact ⟨rfl, hs, ⟨rfl, rfl⟩, fun _ h => h⟩
  | some slot =>
    have hreg : s.initialized reg = true := hinit (by rw [hcach]; rfl)
    refine ⟨hs.host reg slot hcach hreg, ⟨hs.host, ?_⟩, ⟨rfl, rfl⟩, fun _ h => h⟩
    rw [hs.reads, hreg]
    rfl

theorem execActions_same (hinj : code.Injective) {actions : List (Action σ V)}
    {known : Reg → Prop} (hs : Right code s) (hagr : Agree s u)
    (hknown : ∀ reg, (code.cached reg).isSome = true → known reg → s.initialized reg = true)
    (hreads : ReadsKnown code known actions) :
    SameActions code actions s (execActions code actions s)
      (execActions Code.uncached actions u) := by
  induction actions generalizing s u known with
  | nil => exact ⟨rfl, hagr, hs, fun _ h => h, by simp⟩
  | cons action actions ih =>
    cases action with
    | read reg f =>
      -- Nothing of this list was run before, so a cached register that is read was known.
      have hinit : (code.cached reg).isSome = true → s.initialized reg = true := by
        intro hcach
        rcases hreads [] (.read reg f) actions rfl reg (by simp [Action.reads]) hcach with
          hreg | ⟨a, ha, _⟩
        · exact hknown reg hcach hreg
        · cases ha
      rcases readX_right hs hinit with ⟨hval, hright, hagr', hkeeps⟩
      rw [execActions, execActions]
      rcases hread : s.readX code reg with ⟨v, t⟩
      rw [hread] at hval hright hagr' hkeeps
      dsimp only at hval hright hagr' hkeeps ⊢
      have hnext : Agree { t with hidden := f t.hidden v }
          { u with hidden := f u.hidden (u.x reg) } := by
        refine ⟨?_, hagr'.x.trans hagr.x⟩
        rw [hagr'.hidden, hagr.hidden, hval, hagr.x]
      refine (ih (s := { t with hidden := f t.hidden v }) ⟨hright.host, hright.reads⟩ hnext
        (fun reg' hcach hreg' => hkeeps reg' ?_) hreads.tail).cons hkeeps
        (fun _ _ h => by cases h)
      exact hknown reg' hcach (hreg'.resolve_right (by simp [Action.writes]))
    | write reg f =>
      rcases writeX_right hinj hs reg (f s.hidden) with ⟨hright, hkeeps, hinit⟩
      have hwrit : ∀ reg', (code.cached reg').isSome = true →
          (Action.write reg f : Action σ V).writes reg' = true →
            (s.writeX code reg (f s.hidden)).initialized reg' = true := by
        intro reg' hcach hwrite
        have heq : reg = reg' := by simpa [Action.writes] using hwrite
        subst heq
        exact hinit hcach
      have hnext : Agree (s.writeX code reg (f s.hidden))
          (u.writeX Code.uncached reg (f u.hidden)) := by
        have hset := setHost_agree { s with x := Function.update s.x reg (f s.hidden) } code
          reg (f s.hidden)
        refine ⟨hset.hidden.trans hagr.hidden, hset.x.trans ?_⟩
        rw [hagr.x, hagr.hidden]
        rfl
      refine (ih hright hnext (fun reg' hcach hreg' => ?_) hreads.tail).cons hkeeps hwrit
      rcases hreg' with hreg' | hwrite
      · exact hkeeps reg' (hknown reg' hcach hreg')
      · exact hwrit reg' hcach hwrite
    | compute f =>
      have hnext : Agree { s with hidden := f s.hidden } { u with hidden := f u.hidden } :=
        ⟨congrArg f hagr.hidden, hagr.x⟩
      refine (ih (s := { s with hidden := f s.hidden }) ⟨hs.host, hs.reads⟩ hnext
        (fun reg' hcach hreg' => ?_) hreads.tail).cons (fun _ h => h)
        (fun _ _ h => by cases h)
      exact hknown reg' hcach (hreg'.resolve_right (by simp [Action.writes]))
    | recovery faults =>
      rw [execActions, execActions, hagr.hidden]
      split_ifs
      · exact ⟨rfl, hagr, hs, fun _ h => h, fun h => by cases h⟩
      · refine (ih hs hagr (fun reg' hcach hreg' => ?_) hreads.tail).cons (fun _ h => h)
          (fun _ _ h => by cases h)
        exact hknown reg' hcach (hreg'.resolve_right (by simp [Action.writes]))

/-! ### The region -/

variable {region : List (Insn σ V)}

/-- The register was loaded or written on the way to the label of an instruction. -/
def Established (region : List (Insn σ V)) (code : Code) (i : Nat) (reg : Reg) : Prop :=
  code.LoadedBy i reg ∨ ∃ a ∈ (region.take i).flatMap (·.actions), a.writes reg = true

theorem Established.mono {i i' : Nat} (h : Established region code i reg) (hi : i ≤ i') :
    Established region code i' reg := by
  rcases h with (hentry | ⟨j, hj, hload⟩) | ⟨a, ha, hwrite⟩
  · exact Or.inl (Or.inl hentry)
  · exact Or.inl (Or.inr ⟨j, hj.trans hi, hload⟩)
  · refine Or.inr ⟨a, ?_, hwrite⟩
    rw [mem_flatMap] at ha ⊢
    rcases ha with ⟨insn, hinsn, ha⟩
    exact ⟨insn, (take_subset_take_left region hi) hinsn, ha⟩

/-- At the label of an instruction, with the cache and without it. -/
structure SameAt (region : List (Insn σ V)) (code : Code) (i : Nat) (s u : State σ V) : Prop where
  right : Right code s
  agree : Agree s u
  established : ∀ reg, (code.cached reg).isSome = true → Established region code i reg →
    s.initialized reg = true

/-- The runs are at the same label, or have left at the same point. -/
inductive SameConfig (region : List (Insn σ V)) (code : Code) : Config σ V → Config σ V → Prop
  | running (i : Nat) {s u : State σ V} (h : SameAt region code i s u) :
      SameConfig region code (.running i s) (.running i u)
  | exited (e : Exit) {s u : State σ V} (hright : Right code s) (hagree : Agree s u) :
      SameConfig region code (.exited e s) (.exited e u)

section

variable {linkJumpsWithinRegion : Bool} {pendingSignal : σ → Bool} {startPc : Nat}

variable {i : Nat}

theorem fallThrough_same (hinj : code.Injective) {insn : Insn σ V}
    (hinsn : region[i]? = some insn) (hright : Right code s) (hagr : Agree s u)
    (hest : ∀ reg, (code.cached reg).isSome = true → Established region code i reg →
      s.initialized reg = true) (hwrit : ∀ reg, (code.cached reg).isSome = true →
      (∃ a ∈ insn.actions, a.writes reg = true) → s.initialized reg = true) :
    SameConfig region code (fallThrough code i s) (fallThrough Code.uncached i u) := by
  rcases loads_right hinj (code.loadsAt (i + 1)) hright with ⟨hright', hagr', hkeeps, hinit⟩
  refine SameConfig.running (i + 1) ⟨hright', ⟨hagr'.hidden.trans hagr.hidden,
    hagr'.x.trans hagr.x⟩, fun reg hcach hreg => ?_⟩
  rcases hreg with (hentry | ⟨j, hj, hload⟩) | ⟨a, ha, hwrite⟩
  · exact hkeeps reg (hest reg hcach (Or.inl (Or.inl hentry)))
  · by_cases hlast : j = i + 1
    · rw [hlast] at hload
      exact hinit reg hload hcach
    · exact hkeeps reg (hest reg hcach (Or.inl (Or.inr ⟨j, by omega, hload⟩)))
  · refine hkeeps reg ?_
    rw [take_add_one, hinsn, flatMap_append, mem_append] at ha
    rcases ha with ha | ha
    · exact hest reg hcach (Or.inr ⟨a, ha, hwrite⟩)
    · exact hwrit reg hcach ⟨a, by simpa using ha, hwrite⟩

theorem branchTo_same (hright : Right code s) (hagr : Agree s u)
    (hest : ∀ reg, (code.cached reg).isSome = true → Established region code i reg →
      s.initialized reg = true) (target : Nat) : SameConfig region code
      (branchTo linkJumpsWithinRegion pendingSignal startPc target (startPc + 4 * i) s)
      (branchTo linkJumpsWithinRegion pendingSignal startPc target (startPc + 4 * i) u) := by
  unfold branchTo
  rw [hagr.hidden]
  split_ifs with hloc
  · have hle : (target - startPc) / 4 ≤ i := by
      simp only [isLocalBackedge, Bool.and_eq_true, decide_eq_true_eq] at hloc
      omega
    exact SameConfig.running _ ⟨hright, hagr, fun reg hcach hreg =>
      hest reg hcach (hreg.mono hle)⟩
  · exact SameConfig.exited _ hright hagr

theorem readsKnown_of_planned (hplan : Planned region code) {insn : Insn σ V}
    (hinsn : region[i]? = some insn) :
    ReadsKnown code (Established region code i) insn.actions := by
  intro before action after heq reg hread hcach
  by_cases hwrite : ∃ a ∈ (region.take i).flatMap (·.actions) ++ before, a.writes reg = true
  · rcases hwrite with ⟨a, ha, hwrite⟩
    rcases mem_append.mp ha with ha | ha
    · exact Or.inl (Or.inr ⟨a, ha, hwrite⟩)
    · exact Or.inr ⟨a, ha, hwrite⟩
  · refine Or.inl (Or.inl (hplan i insn hinsn reg hcach
      ⟨(region.take i).flatMap (·.actions) ++ before, action, after, ?_, hread, ?_⟩))
    · rw [heq, append_assoc]
    · intro a ha
      exact Bool.eq_false_iff.mpr fun hw => hwrite ⟨a, ha, hw⟩

theorem step_same (hinj : code.Injective) (hplan : Planned region code) {c c' : Config σ V}
    (h : SameConfig region code c c') : SameConfig region code
      (step linkJumpsWithinRegion pendingSignal startPc region code c)
      (step linkJumpsWithinRegion pendingSignal startPc region Code.uncached c') := by
  cases h with
  | exited e hright hagr => exact SameConfig.exited e hright hagr
  | running i hat =>
    unfold step
    dsimp only
    cases hinsn : region[i]? with
    | none => exact SameConfig.exited _ hat.right hat.agree
    | some insn =>
      have hact := execActions_same hinj hat.right hat.agree hat.established
        (readsKnown_of_planned hplan hinsn)
      dsimp only
      generalize execActions code insn.actions _ = r at hact ⊢
      generalize execActions Code.uncached insn.actions _ = r' at hact ⊢
      rcases r with ⟨t, faulted⟩
      rcases r' with ⟨t', faulted'⟩
      rcases hact with ⟨rfl, hagr, hright, hkeeps, hwrit⟩
      cases faulted with
      | true => exact SameConfig.exited _ hright hagr
      | false =>
        have hest : ∀ reg, (code.cached reg).isSome = true →
            Established region code i reg → t.initialized reg = true :=
          fun reg hcach hreg => hkeeps reg (hat.established reg hcach hreg)
        have hnext := fallThrough_same hinj hinsn hright hagr hest (hwrit rfl)
        cases insn.branch with
        | next => exact hnext
        | indirect => exact SameConfig.exited _ hright hagr
        | jump target => exact branchTo_same hright hagr hest target
        | branch target taken =>
          dsimp only at hagr hright ⊢
          rw [hagr.hidden]
          split_ifs
          · exact branchTo_same hright hagr hest target
          · exact hnext

theorem iterate_same (hinj : code.Injective) (hplan : Planned region code) (n : Nat)
    {c c' : Config σ V} (h : SameConfig region code c c') : SameConfig region code
      ((step linkJumpsWithinRegion pendingSignal startPc region code)^[n] c)
      ((step linkJumpsWithinRegion pendingSignal startPc region Code.uncached)^[n] c') := by
  induction n generalizing c c' with
  | zero => exact h
  | succ n ih =>
    exact ih (step_same hinj hplan h)

/-- The state in which a region is entered: no cached register is loaded. -/
def State.entry (hidden : σ) (x : Reg → V) (host : Fin 7 → V) : State σ V :=
  ⟨hidden, x, host, fun _ => false, true⟩

theorem enter_same (hinj : code.Injective) (hidden : σ) (x : Reg → V) (host : Fin 7 → V) :
    SameConfig region code (enter code (State.entry hidden x host))
      (enter Code.uncached (State.entry hidden x host)) := by
  have hentry : Right code (State.entry hidden x host) :=
    ⟨fun _ _ _ h => Bool.noConfusion h, rfl⟩
  rcases loads_right hinj code.entryLoads hentry with ⟨hright, hagr, _, hinit⟩
  rcases loads_right hinj (code.loadsAt 0) hright with ⟨hright', hagr', hkeeps', hinit'⟩
  refine SameConfig.running 0 ⟨hright', ⟨hagr'.hidden.trans hagr.hidden,
    hagr'.x.trans hagr.x⟩, fun reg hcach hreg => ?_⟩
  rcases hreg with (hload | ⟨j, hj, hload⟩) | ⟨a, ha, _⟩
  · exact hkeeps' reg (hinit reg hload hcach)
  · rw [Nat.le_zero.mp hj] at hload
    exact hinit' reg hload hcach
  · cases ha

end

/-- Where a run is or has left, the machine and the guest registers. -/
def Config.visible : Config σ V → (Nat ⊕ Exit) × σ × (Reg → V)
  | .running i s => (.inl i, s.hidden, s.x)
  | .exited e s => (.inr e, s.hidden, s.x)

/-- All cached registers that were read had been loaded or written. -/
def Config.readsInitialized : Config σ V → Bool
  | .running _ s | .exited _ s => s.readsInitialized

theorem SameConfig.visible_eq {c c' : Config σ V} (h : SameConfig region code c c') :
    c.visible = c'.visible ∧ c.readsInitialized = true := by
  cases h with
  | running i hat =>
    refine ⟨?_, hat.right.reads⟩
    rw [Config.visible, Config.visible, hat.agree.hidden, hat.agree.x]
  | exited e hright hagr =>
    refine ⟨?_, hright.reads⟩
    rw [Config.visible, Config.visible, hagr.hidden, hagr.x]

/-- Hoisting comes to its end and all initial loads are emitted. After any number of steps from the
    entry of the region, the machine and the guest registers are the same as without a cache, and
    all cached registers that were read had been loaded or written. -/
theorem translate_correct (sort : Lib.StdSort) (linkJumpsWithinRegion demandXLoads : Bool)
    (startPc : Nat) (region : List (Insn σ V)) (h : IsRegion region) :
    let usage := analyze linkJumpsWithinRegion startPc region
    let code := (translate sort linkJumpsWithinRegion demandXLoads startPc region).1
    (∀ edge ∈ usage.backedges, ∀ reg, usage.hoistLoopInitialLoads.Outside edge reg) ∧
      (translate sort linkJumpsWithinRegion demandXLoads startPc region).2 = [] ∧
      ∀ (pendingSignal : σ → Bool) hidden x host n,
        let run := fun code => (step linkJumpsWithinRegion pendingSignal startPc region code)^[n]
          (enter code (State.entry hidden x host))
        (run code).visible = (run Code.uncached).visible ∧ (run code).readsInitialized = true := by
  intro usage code
  refine ⟨usage.hoistLoopInitialLoads_fixpoint.2,
    (translate_loads sort linkJumpsWithinRegion demandXLoads startPc h.nonempty).1, ?_⟩
  intro pendingSignal hidden x host n
  have hinj : code.Injective := selectCachedXRegisters_injective _
  exact (iterate_same hinj
    (translate_planned sort linkJumpsWithinRegion demandXLoads startPc h.nonempty
      (Or.inr h.countsReads)) n
    (enter_same hinj hidden x host)).visible_eq

end

/-! ### A loop -/

local instance neZeroReg : NeZero 32 := ⟨by omega⟩

def countdown : List (Insn Nat Nat) :=
  [⟨[.read 1 fun _ v => v - 1, .write 1 id], .next⟩,
    ⟨[.read 1 fun _ v => v], .branch 4096 (· != 0)⟩]

theorem translate_correct_countdown : IsRegion countdown ∧
      let code := (translate Lib.StdSort.insertion true true 4096 countdown).1
      (translate Lib.StdSort.insertion true true 4096 countdown).2 = [] ∧
        ∀ (pendingSignal : Nat → Bool) hidden x host n,
          let run := fun code => (step true pendingSignal 4096 countdown code)^[n]
            (enter code (State.entry hidden x host))
          (run code).visible = (run Code.uncached).visible ∧
            (run code).readsInitialized = true := by
  have hregion : IsRegion countdown := by
    refine ⟨cons_ne_nil _ _, by decide, fun insn hinsn reg => countP_le_length.trans ?_⟩
    fin_cases hinsn <;> decide
  exact ⟨hregion, (translate_correct Lib.StdSort.insertion true true 4096 countdown hregion).2⟩

end Berberis.LiteTranslator.LoongArch
