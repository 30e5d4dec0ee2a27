import Berberis.Lib.StdSort

/-!
# Guest Registers Cached for a Region

The lite translator for LoongArch64 goes through a region twice. The first time it
counts the reads and writes of guest registers, and notes for a register that is
read first the start of the straight-line block where that happens. The registers
that are read most are then cached in host registers. The second time it emits the
initial load of a cached register where the plan says, before the label of that
instruction.
-/

namespace Berberis.LiteTranslator.LoongArch

/-! ### Usage -/

abbrev Reg := Fin 32

/-- The counters have 16 bits. -/
structure XRegisterUsage where
  reads : Reg → Nat
  writes : Reg → Nat
  initialLoadPc : Reg → Nat
  needsInitialLoad : Reg → Bool
  backedges : List (Nat × Nat)

namespace XRegisterUsage

def initial : XRegisterUsage := ⟨fun _ => 0, fun _ => 0, fun _ => 0, fun _ => false, []⟩

def recordRead (u : XRegisterUsage) (reg : Reg) (pc : Nat) : XRegisterUsage :=
  let u :=
    if u.reads reg = 0 ∧ u.writes reg = 0 then
      { u with
        initialLoadPc := Function.update u.initialLoadPc reg pc
        needsInitialLoad := Function.update u.needsInitialLoad reg true }
    else u
  { u with reads := Function.update u.reads reg ((u.reads reg + 1) % 2 ^ 16) }

def recordWrite (u : XRegisterUsage) (reg : Reg) : XRegisterUsage :=
  { u with writes := Function.update u.writes reg ((u.writes reg + 1) % 2 ^ 16) }

/-! ### Hoisting -/

/-- One register and one edge, from a source to a target, and whether something
    was changed so far. -/
def hoistReg (edge : Nat × Nat) (s : XRegisterUsage × Bool) (reg : Reg) :
    XRegisterUsage × Bool :=
  if s.1.needsInitialLoad reg = true ∧ edge.2 < s.1.initialLoadPc reg ∧
      s.1.initialLoadPc reg ≤ edge.1 then
    ({ s.1 with initialLoadPc := Function.update s.1.initialLoadPc reg edge.2 }, true)
  else s

def hoistEdge (s : XRegisterUsage × Bool) (edge : Nat × Nat) : XRegisterUsage × Bool :=
  (List.finRange 32).foldl (hoistReg edge) s

def hoistPass (u : XRegisterUsage) : XRegisterUsage × Bool :=
  u.backedges.foldl hoistEdge (u, false)

def totalPc (u : XRegisterUsage) : Nat := ∑ reg, u.initialLoadPc reg

theorem totalPc_update_lt (u : XRegisterUsage) {reg : Reg} {pc : Nat}
    (h : pc < u.initialLoadPc reg) :
    totalPc { u with initialLoadPc := Function.update u.initialLoadPc reg pc } < u.totalPc := by
  refine Finset.sum_lt_sum (fun r _ => ?_) ⟨reg, Finset.mem_univ reg, ?_⟩
  · dsimp only
    by_cases hr : r = reg
    · rw [hr, Function.update_self]
      exact h.le
    · rw [Function.update_of_ne hr]
  · dsimp only
    rwa [Function.update_self]

def Decreases (s s' : XRegisterUsage × Bool) : Prop :=
  s'.1.totalPc ≤ s.1.totalPc ∧ (s'.2 = true → s.2 = true ∨ s'.1.totalPc < s.1.totalPc)

theorem Decreases.refl (s : XRegisterUsage × Bool) : Decreases s s :=
  ⟨Nat.le_refl _, Or.inl⟩

theorem Decreases.trans {s s' s'' : XRegisterUsage × Bool} (h : Decreases s s')
    (h' : Decreases s' s'') : Decreases s s'' := by
  refine ⟨h'.1.trans h.1, fun hchang => ?_⟩
  rcases h'.2 hchang with hchang' | hlt
  · rcases h.2 hchang' with hchang'' | hlt
    · exact Or.inl hchang''
    · exact Or.inr (Nat.lt_of_le_of_lt h'.1 hlt)
  · exact Or.inr (Nat.lt_of_lt_of_le hlt h.1)

theorem decreases_foldl {α : Type} {f : XRegisterUsage × Bool → α → XRegisterUsage × Bool}
    (hf : ∀ s a, Decreases s (f s a)) (as : List α) (s : XRegisterUsage × Bool) :
    Decreases s (as.foldl f s) := by
  induction as generalizing s with
  | nil => exact Decreases.refl s
  | cons a as ih => exact (hf s a).trans (ih (f s a))

theorem decreases_hoistReg (edge : Nat × Nat) (s : XRegisterUsage × Bool) (reg : Reg) :
    Decreases s (hoistReg edge s reg) := by
  unfold hoistReg
  split_ifs with h
  · have hlt := s.1.totalPc_update_lt h.2.1
    exact ⟨hlt.le, fun _ => Or.inr hlt⟩
  · exact Decreases.refl s

theorem decreases_hoistPass (u : XRegisterUsage) : Decreases (u, false) u.hoistPass :=
  decreases_foldl (fun s edge => decreases_foldl (decreases_hoistReg edge) _ s) _ _

/-- Turns until nothing changes. The addresses get smaller, so there is an end. -/
def hoistLoopInitialLoads (u : XRegisterUsage) : XRegisterUsage :=
  if u.hoistPass.2 = true then hoistLoopInitialLoads u.hoistPass.1 else u.hoistPass.1
termination_by u.totalPc
decreasing_by
  rcases u.decreases_hoistPass.2 (by assumption) with h | h
  · cases h
  · exact h

/-! ### Selection -/

def score (u : XRegisterUsage) (reg : Reg) : Nat :=
  2 * u.reads reg - min (u.reads reg) (u.writes reg)

/-- The best register that is not selected yet, the first one of those with one score. -/
def bestReg (u : XRegisterUsage) (selected : Reg → Bool) : Option Reg :=
  ((List.finRange 32).foldl
    (fun (best : Option Reg × Nat) reg =>
      if selected reg = false ∧ 2 ≤ u.reads reg ∧ best.2 < u.score reg then
        (some reg, u.score reg)
      else best)
    (none, 0)).1

end XRegisterUsage

/-- The place of a cached register among the seven host registers. -/
abbrev CachedXRegisterMap := Reg → Option (Fin 7)

def selectFrom (u : XRegisterUsage) : List (Fin 7) → CachedXRegisterMap → CachedXRegisterMap
  | [], result => result
  | slot :: slots, result =>
    match u.bestReg fun reg => (result reg).isSome with
    | none => result
    | some reg => selectFrom u slots (Function.update result reg (some slot))

def selectCachedXRegisters (u : XRegisterUsage) : CachedXRegisterMap :=
  selectFrom u (List.finRange 7) fun _ => none

/-! ### Instructions -/

/-- What a lowering does: the value that is read changes the state of the
    machine, and what is written depends on that state. -/
inductive Action (σ V : Type) where
  | read (reg : Reg) (f : σ → V → σ)
  | write (reg : Reg) (f : σ → V)
  | compute (f : σ → σ)
  | recovery (faults : σ → Bool)

inductive Branch (σ : Type) where
  | next
  | branch (target : Nat) (taken : σ → Bool)
  | jump (target : Nat)
  | indirect

structure Insn (σ V : Type) where
  actions : List (Action σ V)
  branch : Branch σ

/-- The limit of the runtime for a region. -/
def kMaxRegionInsns : Nat := 256

structure Analyzer where
  usage : XRegisterUsage
  blockStartPc : Nat
  nextBlockPc : Nat

section

variable {σ V : Type} (linkJumpsWithinRegion : Bool) (startPc : Nat)

def isLocalBackedge (target pc : Nat) : Bool :=
  linkJumpsWithinRegion && decide (startPc ≤ target) && decide (target ≤ pc) &&
    decide ((target - startPc) % 4 = 0)

namespace Analyzer

def beginInstruction (a : Analyzer) (pc : Nat) : Analyzer :=
  if pc = a.nextBlockPc then { a with blockStartPc := pc } else a

def action (a : Analyzer) : Action σ V → Analyzer
  | .read reg _ => { a with usage := a.usage.recordRead reg a.blockStartPc }
  | .write reg _ => { a with usage := a.usage.recordWrite reg }
  | .compute _ | .recovery _ => a

def localBackedge (a : Analyzer) (target pc : Nat) : Analyzer :=
  if isLocalBackedge linkJumpsWithinRegion startPc target pc then
    { a with usage := { a.usage with backedges := a.usage.backedges ++ [(pc, target)] } }
  else a

def branch (a : Analyzer) (pc : Nat) : Branch σ → Analyzer
  | .next | .indirect => a
  | .branch target _ =>
    { a with nextBlockPc := pc + 4 }.localBackedge linkJumpsWithinRegion startPc target pc
  | .jump target => a.localBackedge linkJumpsWithinRegion startPc target pc

def insn (a : Analyzer) (pc : Nat) (i : Insn σ V) : Analyzer :=
  (i.actions.foldl action (a.beginInstruction pc)).branch linkJumpsWithinRegion startPc pc i.branch

def insns (a : Analyzer) : Nat → List (Insn σ V) → Analyzer
  | _, [] => a
  | pc, i :: is => (a.insn linkJumpsWithinRegion startPc pc i).insns (pc + 4) is

end Analyzer

def analyze (region : List (Insn σ V)) : XRegisterUsage :=
  (Analyzer.insns linkJumpsWithinRegion startPc ⟨XRegisterUsage.initial, startPc, 0⟩ startPc
    region).usage

end

/-! ### Initial loads -/

def lexLt (a b : Nat × Reg) : Bool := decide (a.1 < b.1 ∨ a.1 = b.1 ∧ a.2 < b.2)

/-- The initial loads by address. All are at the start when vector registers are cached too. -/
def pendingXLoads (sort : Lib.StdSort) (plan : XRegisterUsage) (cached : CachedXRegisterMap)
    (demandXLoads : Bool) (startPc : Nat) : List (Nat × Reg) :=
  sort.sort lexLt ((List.finRange 32).filterMap fun reg =>
    if (cached reg).isNone then none
    else if demandXLoads = false then some (startPc, reg)
    else if plan.needsInitialLoad reg then some (plan.initialLoadPc reg, reg)
    else none)

/-- The loads that are emitted at an address, and those that are left. -/
def emitInitialXLoads (pending : List (Nat × Reg)) (pc : Nat) : List Reg × List (Nat × Reg) :=
  ((pending.takeWhile (·.1 == pc)).map (·.2), pending.dropWhile (·.1 == pc))

/-- The loads of instructions one after another, and those that are left. -/
def emitLoads : Nat → Nat → List (Nat × Reg) → List (List Reg) × List (Nat × Reg)
  | 0, _, pending => ([], pending)
  | n + 1, pc, pending =>
    let (loads, pending) := emitInitialXLoads pending pc
    let (rest, pending) := emitLoads n (pc + 4) pending
    (loads :: rest, pending)

/-- A region with its cache: the loads before the labels of the instructions. -/
structure Code where
  cached : CachedXRegisterMap
  entryLoads : List Reg
  loads : List (List Reg)

def Code.loadsAt (code : Code) (i : Nat) : List Reg := code.loads[i]?.getD []

def Code.uncached : Code := ⟨fun _ => none, [], []⟩

section

variable {σ V : Type}

def translate (sort : Lib.StdSort) (linkJumpsWithinRegion demandXLoads : Bool) (startPc : Nat)
    (region : List (Insn σ V)) : Code × List (Nat × Reg) :=
  let plan := (analyze linkJumpsWithinRegion startPc region).hoistLoopInitialLoads
  let cached := selectCachedXRegisters plan
  let pending := pendingXLoads sort plan cached demandXLoads startPc
  let (entryLoads, pending) := emitInitialXLoads pending startPc
  let (loads, pending) := emitLoads region.length startPc pending
  (⟨cached, entryLoads, loads⟩, pending)

/-! ### Execution -/

/-- The machine, the guest registers in `ThreadState` and the host registers of the cache. Of these
    some hold a loaded or written value so far, and all reads so far were of such ones. -/
structure State (σ V : Type) where
  hidden : σ
  x : Reg → V
  host : Fin 7 → V
  initialized : Reg → Bool
  readsInitialized : Bool

def State.setHost (s : State σ V) (code : Code) (reg : Reg) (v : V) : State σ V :=
  match code.cached reg with
  | some slot =>
    { s with
      host := Function.update s.host slot v
      initialized := Function.update s.initialized reg true }
  | none => s

def State.load (code : Code) (s : State σ V) (reg : Reg) : State σ V :=
  s.setHost code reg (s.x reg)

def State.readX (s : State σ V) (code : Code) (reg : Reg) : V × State σ V :=
  match code.cached reg with
  | some slot =>
    (s.host slot, { s with readsInitialized := s.readsInitialized && s.initialized reg })
  | none => (s.x reg, s)

def State.writeX (s : State σ V) (code : Code) (reg : Reg) (v : V) : State σ V :=
  { s with x := Function.update s.x reg v }.setHost code reg v

/-- The actions of an instruction, up to a fault, and whether there was one. -/
def execActions (code : Code) : List (Action σ V) → State σ V → State σ V × Bool
  | [], s => (s, false)
  | .read reg f :: actions, s =>
    let (v, s) := s.readX code reg
    execActions code actions { s with hidden := f s.hidden v }
  | .write reg f :: actions, s => execActions code actions (s.writeX code reg (f s.hidden))
  | .compute f :: actions, s => execActions code actions { s with hidden := f s.hidden }
  | .recovery faults :: actions, s =>
    if faults s.hidden then (s, true) else execActions code actions s

inductive Exit where
  | recovery (pc : Nat)
  | direct (target : Nat)
  | indirect
  deriving DecidableEq

/-- At the label of an instruction, or out of the region. -/
inductive Config (σ V : Type) where
  | running (i : Nat) (s : State σ V)
  | exited (e : Exit) (s : State σ V)

section

variable (linkJumpsWithinRegion : Bool) (pendingSignal : σ → Bool) (startPc : Nat)
  (region : List (Insn σ V)) (code : Code)

def branchTo (target pc : Nat) (s : State σ V) : Config σ V :=
  if isLocalBackedge linkJumpsWithinRegion startPc target pc = true ∧
      pendingSignal s.hidden = false then
    .running ((target - startPc) / 4) s
  else .exited (.direct target) s

def fallThrough (i : Nat) (s : State σ V) : Config σ V :=
  .running (i + 1) ((code.loadsAt (i + 1)).foldl (State.load code) s)

def step : Config σ V → Config σ V
  | .exited e s => .exited e s
  | .running i s =>
    let pc := startPc + 4 * i
    match region[i]? with
    | none => .exited (.direct pc) s
    | some insn =>
      match execActions code insn.actions s with
      | (s, true) => .exited (.recovery pc) s
      | (s, false) =>
        match insn.branch with
        | .next => fallThrough code i s
        | .branch target taken =>
          if taken s.hidden then
            branchTo linkJumpsWithinRegion pendingSignal startPc target pc s
          else fallThrough code i s
        | .jump target => branchTo linkJumpsWithinRegion pendingSignal startPc target pc s
        | .indirect => .exited .indirect s

/-- From the entry of the region to the label of its first instruction. -/
def enter (s : State σ V) : Config σ V :=
  .running 0 ((code.loadsAt 0).foldl (State.load code)
    (code.entryLoads.foldl (State.load code) s))

end

end

end Berberis.LiteTranslator.LoongArch
