import Berberis.Interpreter.Riscv64.VectorMemoryMoves

/-!
# Faults of Vector Loads and Stores

After a fault the program is to be in a state from which the instruction can be
executed again: at the same instruction, and with `vstart` the element whose
access has faulted. The manual asks for that, and the drivers set `vstart` for it.

## Theorems

* `execute_fault`: When a fault is precise, and when the load can start again.
-/

namespace Berberis.Riscv64.Vector

open Lib SegmentAccess

def firstFault (faults : BitVec 64 → Nat → Bool) (insn : MemoryInsn) (t : VType) (s : State) :
    Option (Nat × Nat) :=
  (insn.moved s).find? fun p => faults (insn.location t s p) (insn.dataType t).bytes

/-- The program is at the same instruction, and `vstart` is the element of the fault. -/
def PreciseFault (s s' : State) (p : Nat × Nat) : Prop :=
  s'.insnAddr = s.insnAddr ∧ s'.vstart.toNat = p.1

def AccessesUpTo (insn : MemoryInsn) (t : VType) (s s' : State) (p : Nat × Nat) : Prop :=
  ∃ made : List (Nat × Nat), s'.accesses = (made.map fun p =>
      (insn.location t s p, (insn.dataType t).bytes)).reverse ++ s.accesses ∧
    p ∈ made ∧ ∀ p' ∈ made, p'.1 ≤ p.1

/-- Another execution without a fault ends as one that has never faulted. -/
def Restarts (insn : MemoryInsn) (s s' : State) : Prop :=
  ∀ uninitialized uninitialized', ∃ again once,
    execute (fun _ _ => false) uninitialized insn { s' with exceptionRaised := false } =
      some again ∧
    execute (fun _ _ => false) uninitialized' insn s = some once ∧
    again.v = once.v ∧ again.mem = once.mem ∧ again.vstart = 0 ∧ once.vstart = 0 ∧
    again.insnAddr = once.insnAddr

/-- A register that a load writes when `p` is its first access to fault and one to element 0.
    With an undisturbed tail these are the first registers of the fields, but not one that
    was read before and has no element loaded. -/
def Overwritten (insn : MemoryInsn) (t : VType) (s : State) (p : Nat × Nat) (r : Nat) : Prop :=
  ∃ index < insn.dataRegisters t, ∃ field < insn.args.segmentSize,
    r = insn.args.group + index + field * insn.dataRegisters t ∧
    (insn.vta t = .kUndisturbed → index = 0 ∧
      ¬ (ReadFirst (insn.access t s) (insn.vma t) (s.v 0) (insn.evl s) 0 ∧ p.2 ≤ field))

/-- What is read again was not overwritten: no element that is to be kept, no mask and no
    index of an active element. -/
structure KeepsOperands (insn : MemoryInsn) (t : VType) (s : State) (p : Nat × Nat) : Prop where
  policy : insn.vta t = .kUndisturbed ∨ insn.vma t ≠ some .kUndisturbed ∨
    ∀ n < insn.evl s, (s.v 0).getLsbD n = true
  mask : insn.args.vm = true ∨ ¬ Overwritten insn t s p 0
  index : ∀ idx : Fin 32, insn.idx = some idx → ∀ n < insn.evl s,
    insn.args.vm = true ∨ (s.v 0).getLsbD n = true →
    ¬ Overwritten insn t s p (idx + n / insn.args.width.elementsCount)

variable {insn : MemoryInsn} {t : VType} {s : State} {faults : BitVec 64 → Nat → Bool}
  {p : Nat × Nat}

theorem pairwise_moved (insn : MemoryInsn) (s : State) :
    (insn.moved s).Pairwise fun p p' => p.1 ≤ p'.1 := by
  unfold MemoryInsn.moved
  rw [List.pairwise_flatMap]
  constructor
  · intro i _
    unfold fields
    rw [List.pairwise_map]
    exact List.pairwise_of_forall fun _ _ => Nat.le_refl i
  · refine List.Pairwise.filter _ ?_
    refine (List.pairwise_lt_range' ..).imp fun {i j} hij x hx y hy => ?_
    obtain ⟨f, -, rfl⟩ := List.mem_map.1 hx
    obtain ⟨f', -, rfl⟩ := List.mem_map.1 hy
    exact hij.le

section

variable (h : Handled insn t) (hvl : s.vl.toNat ≤ getVlmax t.vsew t.vlmul)
include h hvl

theorem find?_fails :
    (insn.moved s).find? ((insn.access t s).fails faults) = firstFault faults insn t s := by
  refine List.find?_congr fun p hp => ?_
  unfold SegmentAccess.fails
  rw [address_access h hvl (mem_moved.1 hp).2.1]
  rfl

theorem find?_eq_of_firstFault (hp : firstFault faults insn t s = some p) :
    (insn.moved s).find? ((insn.access t s).fails faults) = some p :=
  (find?_fails h hvl).trans hp

end

theorem mem_of_firstFault (hp : firstFault faults insn t s = some p) : p ∈ insn.moved s :=
  List.mem_of_find?_eq_some hp

theorem start_lt_of_firstFault (hp : firstFault faults insn t s = some p) :
    s.vstart.toNat < insn.evl s := by
  have hmem := mem_moved.1 (mem_of_firstFault hp)
  omega

theorem accessesUpTo_of_log (h : Handled insn t) (hvl : s.vl.toNat ≤ getVlmax t.vsew t.vlmul)
    (hp : firstFault faults insn t s = some p) {s' : State}
    (hlog : s'.accesses = (insn.access t s).log
      (attempted ((insn.access t s).fails faults) (insn.moved s)) ++ s.accesses) :
    AccessesUpTo insn t s s' p := by
  have hfind := find?_eq_of_firstFault h hvl hp
  refine ⟨attempted ((insn.access t s).fails faults) (insn.moved s), ?_, ?_, fun p' hp' => ?_⟩
  · rw [hlog]
    unfold SegmentAccess.log
    congr 2
    refine List.map_congr_left fun p' hp' => ?_
    have hle := rel_of_mem_attempted (R := fun p p' : Nat × Nat => p.1 ≤ p'.1)
      (fun y => Nat.le_refl y.1) (pairwise_moved insn s) hfind hp'
    have hlt := (mem_moved.1 (mem_of_firstFault hp)).2.1
    rw [address_access h hvl (Nat.lt_of_le_of_lt hle hlt)]
    rfl
  · unfold attempted
    rw [hfind]
    exact List.mem_append_right _ (List.mem_singleton_self p)
  · exact rel_of_mem_attempted (R := fun p p' : Nat × Nat => p.1 ≤ p'.1)
      (fun y => Nat.le_refl y.1) (pairwise_moved insn s) hfind hp'

/-! ### Stores -/

theorem execute_store_fault (h : Handled insn t) (hvt : s.vtype = t.encode)
    (hvl : s.vl.toNat ≤ getVlmax t.vsew t.vlmul) (hrais : s.exceptionRaised = false)
    (hstore : insn.isStore = true) (hp : firstFault faults insn t s = some p)
    (uninitialized : Nat → BitVec 128) :
    ∃ s', execute faults uninitialized insn s = some s' ∧ AccessesUpTo insn t s s' p ∧
      s'.insnAddr = s.insnAddr + 4 := by
  have hrng := inRange_access h hvl
  have hevl := storeVl_eq hstore s
  have hst := start_lt_of_firstFault hp
  rw [← hevl] at hrng hst
  have hrun : opVectorStore faults (insn.access t s) insn.storeOpcode (insn.vma t).isSome s = _ :=
    opVectorStore_eq hrng hrais hst
  rw [hevl, plan_access, find?_fails h hvl, hp] at hrun
  unfold execute
  rw [opVectorMemory_of_handled h hvt, run_of_store hstore, hrun, Option.map_some]
  -- The flag is not set, so nothing keeps the program from going on.
  have hflag : ∀ u : State, u.exceptionRaised = false → ∀ i,
      ((u.setVstart i).finalizeInsn 4).insnAddr = u.insnAddr + 4 ∧
        ((u.setVstart i).finalizeInsn 4).accesses = u.accesses := by
    intro u hu i
    simp [State.setVstart, State.finalizeInsn, hu]
  obtain ⟨haddr, hacc⟩ := hflag (storesAfter faults (insn.access t s) (insn.moved s)
    { s with vstart := 0 }) hrais (BitVec.ofNat 64 p.1)
  exact ⟨_, rfl, accessesUpTo_of_log h hvl hp hacc, haddr⟩

/-! ### Loads -/

theorem loadFault_eq {opcode : VLUmOpOpcode} (hop : opcode ≠ .kVleXXff) (i : Nat) (u : State) :
    loadFault opcode i u = { u with exceptionRaised := true } := by
  cases opcode with
  | kVleXXff => exact absurd rfl hop
  | _ => rfl

theorem register_cases (insn : MemoryInsn) (t : VType) (r : Nat) :
    (r < insn.args.group ∨
        insn.args.group + insn.dataRegisters t * insn.args.segmentSize ≤ r) ∨
      ∃ index < insn.dataRegisters t, ∃ field < insn.args.segmentSize,
        r = insn.args.group + index + field * insn.dataRegisters t := by
  by_cases hr : r < insn.args.group ∨
      insn.args.group + insn.dataRegisters t * insn.args.segmentSize ≤ r
  · exact Or.inl hr
  · have hpos : 0 < insn.dataRegisters t := Nat.two_pow_pos _
    obtain ⟨k, rfl⟩ := Nat.exists_eq_add_of_le (Nat.le_of_not_lt fun hlt => hr (Or.inl hlt))
    refine Or.inr ⟨k % insn.dataRegisters t, Nat.mod_lt k hpos, k / insn.dataRegisters t,
      Nat.div_lt_of_lt_mul (by omega), ?_⟩
    have hdiv := Nat.div_add_mod' k (insn.dataRegisters t)
    omega

/-- The registers that a fault at element 0 leaves as they are. -/
theorem LoadOutcome.eq_of_not_overwritten {s' : State} (hzero : p.1 = 0)
    (h : LoadOutcome faults (insn.access t s) insn.loadOpcode (insn.vta t) (insn.vma t) s s')
    (hevl : loadVl insn.loadOpcode s = insn.evl s)
    (hp : (loadPlan (insn.access t s) insn.loadOpcode (insn.vma t) s).find?
      ((insn.access t s).fails faults) = some p)
    {r : Nat} (hr : ¬ Overwritten insn t s p r) : s'.v r = s.v r := by
  rcases register_cases insn t r with hdest | ⟨index, hindex, field, hfield, rfl⟩
  · exact h.others r hdest
  · have hnot : ¬ (insn.vta t = .kUndisturbed → index = 0 ∧
        ¬ (ReadFirst (insn.access t s) (insn.vma t) (s.v 0) (insn.evl s) 0 ∧ p.2 ≤ field)) :=
      fun hover => hr ⟨index, hindex, field, hfield, rfl, hover⟩
    push Not at hnot
    obtain ⟨hvta, hkept⟩ := hnot
    refine eq_of_lane_eq (insn.dataType t) fun i hi =>
      h.kept hvta p hp index hindex field hfield i hi ?_
    rw [hevl]
    by_cases hindex0 : index = 0
    · subst hindex0
      obtain ⟨hread, hle⟩ := hkept rfl
      refine Or.inr ⟨hread, ?_⟩
      unfold NotReached
      omega
    · have hpos := Nat.mul_pos (insn.dataType t).elementsCount_pos (Nat.pos_of_ne_zero hindex0)
      exact Or.inl (hzero ▸ hpos)

/-- The state after a load has faulted: the registers are written as if the body had
    ended at that element. -/
theorem execute_load_fault (h : Handled insn t) (hvt : s.vtype = t.encode)
    (hvl : s.vl.toNat ≤ getVlmax t.vsew t.vlmul) (hrais : s.exceptionRaised = false)
    (hstore : insn.isStore = false) (hop : insn.loadOpcode ≠ .kVleXXff)
    (hp : firstFault faults insn t s = some p) (uninitialized : Nat → BitVec 128) :
    ∃ v log, execute faults uninitialized insn s = some
        { s with v := v, vstart := 0, accesses := log ++ s.accesses, exceptionRaised := true } ∧
      log = (insn.access t s).log
        (attempted ((insn.access t s).fails faults) (insn.moved s)) ∧
      (∀ field < insn.args.segmentSize,
        ∀ n < (insn.dataType t).elementsCount * insn.dataRegisters t,
        LoadedElement (insn.vta t) (insn.vma t) ((s.v 0).getLsbD n) s.vstart.toNat (insn.evl s)
          p.1 n (insn.dataElement t s.v (n, field)) ((insn.access t s).loaded s.mem (n, field))
          (insn.dataElement t v (n, field))) ∧
      (p.1 = 0 → ∀ r, ¬ Overwritten insn t s p r → v r = s.v r) := by
  have hfind := find?_eq_of_firstFault h hvl hp
  obtain ⟨s', hrun, houtcome⟩ :=
    @run_load_outcome insn t s faults h hvl hrais hstore (start_lt_of_firstFault hp) uninitialized
  have hkept : p.1 = 0 → ∀ r, ¬ Overwritten insn t s p r → s'.v r = s.v r := by
    intro hzero r
    refine houtcome.eq_of_not_overwritten hzero (loadVl_eq hstore s) ?_
    unfold loadPlan
    rw [loadVl_eq hstore, plan_access]
    exact hfind
  have hstate := houtcome.state
  have helem := houtcome.elements
  unfold loadPlan at hstate helem
  rw [loadVl_eq hstore, plan_access] at hstate helem
  unfold loadsAfter at hstate
  unfold vlAfter at helem
  rw [hfind] at hstate helem
  dsimp only at hstate helem
  rw [loadFault_eq hop] at hstate
  refine ⟨s'.v, _, ?_, rfl, helem, hkept⟩
  unfold execute
  rw [opVectorMemory_of_handled h hvt, hrun, Option.map_some, hstate]
  rfl

/-! ### Another start -/

variable {v : Nat → BitVec 128} {log : List (BitVec 64 × Nat)}

theorem registers_eq {v' : Nat → BitVec 128} (helem : ∀ field < insn.args.segmentSize,
      ∀ n < (insn.dataType t).elementsCount * insn.dataRegisters t,
      insn.dataElement t v (n, field) = insn.dataElement t v' (n, field))
    (hothers : ∀ r : Nat, r < insn.args.group ∨
      insn.args.group + insn.dataRegisters t * insn.args.segmentSize ≤ r → v r = v' r) :
    v = v' := by
  funext r
  rcases register_cases insn t r with hr | ⟨index, hindex, field, hfield, rfl⟩
  · exact hothers r hr
  · -- The register is one of a field, and its lanes are elements of the group.
    refine eq_of_lane_eq (insn.dataType t) fun i hi => ?_
    have hn : (insn.dataType t).elementsCount * index + i <
        (insn.dataType t).elementsCount * insn.dataRegisters t := by
      have hmul := Nat.mul_le_mul_left (insn.dataType t).elementsCount (Nat.succ_le_of_lt hindex)
      rw [Nat.mul_succ] at hmul
      omega
    have helt := helem field hfield _ hn
    unfold MemoryInsn.dataElement at helt
    rw [element_add _ _ _ _ hi, element_add _ _ _ _ hi] at helt
    rwa [Nat.add_right_comm]

theorem not_overwritten {r : Nat} (hr : r < insn.args.group ∨
    insn.args.group + insn.dataRegisters t * insn.args.segmentSize ≤ r) :
    ¬ Overwritten insn t s p r := by
  rintro ⟨index, hindex, field, hfield, rfl, -⟩
  have hmul := Nat.mul_le_mul_left (insn.dataRegisters t) (Nat.succ_le_of_lt hfield)
  rw [Nat.mul_succ, Nat.mul_comm _ field] at hmul
  omega

theorem location_eq_of_keeps (hkeeps : KeepsOperands insn t s p)
    (hkept : ∀ r, ¬ Overwritten insn t s p r → v r = s.v r) {n field : Nat} (hn : n < insn.evl s)
    (hact : insn.args.vm = true ∨ (s.v 0).getLsbD n = true) :
    insn.location t { s with v := v, vstart := 0, accesses := log } (n, field) =
      insn.location t s (n, field) := by
  have hind : ∀ idx : Fin 32, insn.idx = some idx →
      element insn.args.width v idx n = element insn.args.width s.v idx n := by
    intro idx hidx
    unfold element
    rw [hkept _ (hkeeps.index idx hidx n hn hact)]
  unfold MemoryInsn.location
  congr 1
  cases insn with
  | loadIndexed _ idx | storeIndexed _ idx =>
    exact congrArg (BitVec.setWidth 64) (hind idx rfl)
  | _ => rfl

theorem elementAfter_of_fault (hkeeps : KeepsOperands insn t s p)
    (hkept : ∀ r, ¬ Overwritten insn t s p r → v r = s.v r) {n field : Nat}
    (hfault : LoadedElement (insn.vta t) (insn.vma t) ((s.v 0).getLsbD n) 0 (insn.evl s) 0 n
      (insn.dataElement t s.v (n, field)) ((insn.access t s).loaded s.mem (n, field))
      (insn.dataElement t v (n, field))) :
    elementAfter (insn.vta t) (insn.vma t) (v 0) 0 (insn.evl s) n (insn.dataElement t v (n, field))
        (loadWord s.mem (insn.location t { s with v := v, vstart := 0, accesses := log } (n, field))
          (insn.dataType t).bits)
        (insn.dataElement t v (n, field)) =
      elementAfter (insn.vta t) (insn.vma t) (s.v 0) 0 (insn.evl s) n
        (insn.dataElement t s.v (n, field))
        (loadWord s.mem (insn.location t s (n, field)) (insn.dataType t).bits)
        (insn.dataElement t s.v (n, field)) := by
  unfold elementAfter
  rw [if_neg (Nat.not_lt_zero n), if_neg (Nat.not_lt_zero n)]
  by_cases hn : n < insn.evl s
  · rw [if_pos hn, if_pos hn]
    have hloc : insn.args.vm = true ∨ (s.v 0).getLsbD n = true →
        insn.location t { s with v := v, vstart := 0, accesses := log } (n, field) =
          insn.location t s (n, field) := location_eq_of_keeps hkeeps hkept hn
    have hpol := hkeeps.policy
    unfold bodyElement
    cases hvm : insn.args.vm with
    | true =>
      rw [show insn.vma t = none from if_pos hvm, hloc (Or.inl hvm)]
    | false =>
      have hmask : v 0 = s.v 0 := by
        refine hkept 0 (hkeeps.mask.resolve_left ?_)
        rw [hvm]
        exact Bool.false_ne_true
      rw [show insn.vma t = some t.vma from if_neg (Bool.eq_false_iff.1 hvm)] at hfault hpol ⊢
      rw [hmask]
      by_cases hact : (s.v 0).getLsbD n = true
      · rw [hloc (Or.inr hact)]
        cases t.vma <;> simp only [if_pos hact]
      · cases hvma : t.vma with
        | kAgnostic => simp only [if_neg hact]
        | kUndisturbed =>
          simp only [if_neg hact]
          rw [hvma] at hfault hpol
          have hvta : insn.vta t = .kUndisturbed :=
            hpol.resolve_right fun h => h.elim (fun hne => hne rfl) fun hall => hact (hall n hn)
          rw [hvta] at hfault
          exact hfault (Or.inr ⟨rfl, Bool.eq_false_iff.2 hact⟩)
  · rw [if_neg hn, if_neg hn]
    generalize insn.vta t = vta at hfault ⊢
    cases vta with
    | kAgnostic => rfl
    | kUndisturbed => exact hfault (Or.inl (Nat.le_of_not_lt hn))

section

variable (h : Handled insn t)
include h

theorem execute_of_moves (hvt : s.vtype = t.encode)
    (hvl : s.vl.toNat ≤ getVlmax t.vsew t.vlmul) (hrais : s.exceptionRaised = false)
    (uninitialized : Nat → BitVec 128) : ∃ s', execute (fun _ _ => false) uninitialized insn s =
        some { s' with insnAddr := s.insnAddr + 4 } ∧ MovesElements insn t s s' := by
  have hfaults : NoFaults (fun _ _ => false) insn t s := fun _ _ => rfl
  obtain ⟨s', hrun, hmov⟩ := run_moves h hvl hrais hfaults uninitialized
  refine ⟨s', ?_, hmov⟩
  unfold execute
  rw [opVectorMemory_of_handled h hvt, hrun, Option.map_some]
  have hflag : s'.exceptionRaised = false := by rw [hmov.frame, hrais]
  have haddr : s'.insnAddr = s.insnAddr := by rw [hmov.frame]
  unfold State.finalizeInsn
  rw [hflag, if_neg nofun, haddr]
  rfl

theorem restarts_of_keeps (hvt : s.vtype = t.encode)
    (hvl : s.vl.toNat ≤ getVlmax t.vsew t.vlmul) (hrais : s.exceptionRaised = false)
    (hstore : insn.isStore = false) (hkeeps : KeepsOperands insn t s p)
    (hst : s.vstart.toNat < insn.evl s) (hzero : s.vstart = 0)
    (helem : ∀ field < insn.args.segmentSize,
      ∀ n < (insn.dataType t).elementsCount * insn.dataRegisters t,
      LoadedElement (insn.vta t) (insn.vma t) ((s.v 0).getLsbD n) s.vstart.toNat (insn.evl s) 0 n
        (insn.dataElement t s.v (n, field)) ((insn.access t s).loaded s.mem (n, field))
        (insn.dataElement t v (n, field)))
    (hkept : ∀ r, ¬ Overwritten insn t s p r → v r = s.v r) :
    Restarts insn s { s with v := v, vstart := 0, accesses := log, exceptionRaised := true } := by
  intro uninitialized uninitialized'
  have hstate :
      ({ s with v := v, vstart := 0, accesses := log, exceptionRaised := false } : State) =
      { s with v := v, vstart := 0, accesses := log } := by rw [hrais]
  have hvs : s.vstart.toNat = 0 := by rw [hzero]; rfl
  rw [hvs] at hst helem
  obtain ⟨again, hagain, hmov⟩ := execute_of_moves
    (s := { s with v := v, vstart := 0, accesses := log }) h hvt hvl hrais uninitialized
  obtain ⟨once, honce, hmov'⟩ := execute_of_moves h hvt hvl hrais uninitialized'
  refine ⟨_, _, (congrArg _ hstate).trans hagain, honce, ?_, ?_, ?_, ?_, rfl⟩
  · refine @registers_eq insn t _ _ (fun field hfield n hn => ?_) fun r hr => ?_
    · rw [hmov.elements hstore hst field hfield n hn,
        hmov'.elements hstore (hvs.symm ▸ hst) field hfield n hn, hvs]
      exact elementAfter_of_fault hkeeps hkept (helem field hfield n hn)
    · rw [hmov.others r (Or.inr (Or.inr hr)), hmov'.others r (Or.inr (Or.inr hr))]
      exact hkept r (not_overwritten hr)
  · rw [hmov.mem, hmov'.mem, hstore]
    rfl
  · rw [hmov.frame]
  · rw [hmov'.frame]

end

/-- A fault is precise exactly if it is one of a load at the first element. Nothing
    is accessed after it in any case. A load whose operands it has not overwritten
    can then start again. -/
theorem execute_fault (h : Handled insn t) (hvtype : s.vtype = t.encode)
    (hvl : s.vl.toNat ≤ getVlmax t.vsew t.vlmul) (hraised : s.exceptionRaised = false)
    (hopcode : insn.loadOpcode ≠ .kVleXXff) (hp : firstFault faults insn t s = some p)
    (uninitialized : Nat → BitVec 128) :
    ∃ s', execute faults uninitialized insn s = some s' ∧ AccessesUpTo insn t s s' p ∧
      (PreciseFault s s' p ↔ insn.isStore = false ∧ p.1 = 0) ∧
      (insn.isStore = false → p.1 = 0 → KeepsOperands insn t s p → Restarts insn s s') := by
  cases hstore : insn.isStore with
  | true =>
    obtain ⟨s', hrun, haccesses, haddr⟩ :=
      execute_store_fault h hvtype hvl hraised hstore hp uninitialized
    refine ⟨s', hrun, haccesses, ⟨fun hprecise => ?_, nofun⟩, nofun⟩
    have heq := hprecise.1.symm.trans haddr
    bv_omega
  | false =>
    obtain ⟨v, log, hrun, hlog, helements, hkept⟩ :=
      execute_load_fault h hvtype hvl hraised hstore hopcode hp uninitialized
    refine ⟨_, hrun, accessesUpTo_of_log h hvl hp (hlog ▸ rfl), ⟨fun hprecise => ?_, ?_⟩, ?_⟩
    · exact ⟨rfl, hprecise.2.symm⟩
    · rintro ⟨-, hzero⟩
      exact ⟨rfl, hzero.symm⟩
    · intro _ hzero hkeeps
      have hle := (mem_moved.1 (mem_of_firstFault hp)).1
      have hvstart : s.vstart = 0 := by
        refine BitVec.eq_of_toNat_eq ?_
        rw [hzero] at hle
        exact Nat.le_zero.1 hle
      rw [hzero] at helements
      exact restarts_of_keeps h hvtype hvl hraised hstore hkeeps (start_lt_of_firstFault hp)
        hvstart helements (hkept hzero)

def byteLoad : MemoryInsn := .loadUnitStride byteArgs .kVleXX

def byteStore : MemoryInsn := .storeUnitStride byteArgs .kVseXX

/-- After a fault at the second byte `vstart` is zero or the next instruction is reached. -/
theorem execute_fault_secondByte :
    let faults := fun (addr : BitVec 64) (_ : Nat) => addr == 0x1001
    firstFault faults byteLoad byteRegisters byteState = some (1, 0) ∧
      (execute faults (fun _ => 0) byteLoad byteState).map (fun s => (s.insnAddr, s.vstart)) =
        some (0, 0) ∧
      firstFault faults byteStore byteRegisters byteState = some (1, 0) ∧
      (execute faults (fun _ => 0) byteStore byteState).map (fun s => (s.insnAddr, s.vstart)) =
        some (4, 1) := by
  decide +kernel

/-- Its only register is the one of its indices. -/
def overlappedLoad : MemoryInsn := .loadIndexed byteArgs 8

/-- The tail is undisturbed, so the register is read before, and a fault at the first byte leaves
    the indices as they are. -/
theorem execute_fault_overlappedLoad :
    ∃ s', execute (fun addr _ => addr == 0x1000) (fun _ => 0) overlappedLoad byteState = some s' ∧
      PreciseFault byteState s' (0, 0) ∧ Restarts overlappedLoad byteState s' := by
  have hhandled : Handled overlappedLoad byteRegisters := by
    refine ⟨trivial, nofun, by decide, by decide, by decide, by decide, by decide, ?_⟩
    rintro _ ⟨⟩
    decide
  have hfault : firstFault (fun addr _ => addr == 0x1000) overlappedLoad byteRegisters byteState =
      some (0, 0) := by decide +kernel
  have hkeeps : KeepsOperands overlappedLoad byteRegisters byteState (0, 0) := by
    refine ⟨Or.inl rfl, Or.inl rfl, ?_⟩
    rintro idx - n - - ⟨index, -, field, -, -, hover⟩
    exact (hover rfl).2 ⟨Or.inl (by decide), Nat.zero_le field⟩
  obtain ⟨s', hrun, -, hprecise, hrestarts⟩ :=
    execute_fault hhandled rfl (by decide) rfl nofun hfault (fun _ => 0)
  exact ⟨s', hrun, hprecise.2 ⟨rfl, rfl⟩, hrestarts rfl rfl hkeeps⟩

end Berberis.Riscv64.Vector
