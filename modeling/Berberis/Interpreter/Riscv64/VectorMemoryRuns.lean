import Berberis.Interpreter.Riscv64.VectorMemory

/-!
# Runs of Vector Loads and Stores

The drivers of vector loads and stores go through a plan: all fields of the first
active element, then all fields of the next one, and so on. A run makes the
accesses of the plan up to the first one that faults.
-/

namespace Berberis.Riscv64.Vector

open Lib List Option

/-! ### Plans -/

namespace SegmentAccess

variable (a : SegmentAccess)

def address (p : Nat × Nat) : BitVec 64 :=
  a.src + BitVec.ofNat 64 (p.2 * a.elementType.bytes) + (a.getElementOffset p.1).getD 0

def fails (faults : BitVec 64 → Nat → Bool) (p : Nat × Nat) : Bool :=
  faults (a.address p) a.elementType.bytes

def fields (elementIndex count : Nat) : List (Nat × Nat) :=
  (List.range count).map fun field => (elementIndex, field)

def plan (active : Nat → Bool) (vstart k : Nat) : List (Nat × Nat) :=
  ((List.range' vstart (k - vstart)).filter active).flatMap fun i => fields i a.segmentSize

def log (q : List (Nat × Nat)) : List (BitVec 64 × Nat) :=
  (q.map fun p => (a.address p, a.elementType.bytes)).reverse

/-- The operands are within the register file and the offsets. -/
structure InRange (vl : Nat) : Prop where
  aligned : isAligned a.group a.numRegistersInGroup = true
  registers : a.group + a.numRegistersInGroup * a.segmentSize ≤ 32
  size : a.numRegistersInGroup ≤ 8
  elements : vl ≤ a.elementType.elementsCount * a.numRegistersInGroup
  offsets : ∀ i < vl, (a.getElementOffset i).isSome = true

variable {a} {active : Nat → Bool} {vstart : Nat}

theorem fields_succ (i count : Nat) : fields i (count + 1) = fields i count ++ [(i, count)] := by
  unfold fields
  rw [range_succ, map_append, map_cons, map_nil]

variable {k : Nat}

theorem fields_of_le (i : Nat) {count : Nat} (h : k ≤ count) :
    ∃ rest, fields i count = fields i k ++ rest := by
  obtain ⟨d, rfl⟩ := Nat.exists_eq_add_of_le h
  unfold fields
  rw [range_add, map_append]
  exact ⟨_, rfl⟩

theorem plan_of_le (h : k ≤ vstart) : a.plan active vstart k = [] := by
  unfold plan
  rw [Nat.sub_eq_zero_of_le h, range'_zero, filter_nil, flatMap_nil]

theorem plan_succ (h : vstart ≤ k) : a.plan active vstart (k + 1) =
      a.plan active vstart k ++ if active k then fields k a.segmentSize else [] := by
  unfold plan
  rw [Nat.succ_sub h, range'_1_concat, Nat.add_sub_cancel' h, filter_append, flatMap_append]
  cases hk : active k <;> simp [hk]

theorem plan_of_le_of_le {j : Nat} (h : j ≤ k) :
    ∃ rest, a.plan active vstart k = a.plan active vstart j ++ rest ∧ ∀ p ∈ rest, j ≤ p.1 := by
  induction k, h using Nat.le_induction with
  | base => exact ⟨[], (append_nil _).symm, fun p hp => absurd hp not_mem_nil⟩
  | succ k hjk ih =>
    by_cases hk : vstart ≤ k
    · obtain ⟨rest, hrest, hle⟩ := ih
      refine ⟨rest ++ if active k then fields k a.segmentSize else [], ?_, fun p hp => ?_⟩
      · rw [plan_succ hk, hrest, append_assoc]
      · rcases mem_append.1 hp with hp | hp
        · exact hle p hp
        · split at hp
          · obtain ⟨f, -, rfl⟩ := List.mem_map.1 hp
            exact hjk
          · exact absurd hp not_mem_nil
    · refine ⟨[], ?_, fun p hp => absurd hp not_mem_nil⟩
      rw [plan_of_le (k := k + 1) (by omega), plan_of_le (by omega), append_nil]

theorem mem_plan {p : Nat × Nat} : p ∈ a.plan active vstart k ↔
      vstart ≤ p.1 ∧ p.1 < k ∧ active p.1 = true ∧ p.2 < a.segmentSize := by
  unfold plan fields
  simp only [List.mem_flatMap, List.mem_filter, List.mem_range'_1, List.mem_map, List.mem_range]
  constructor
  · rintro ⟨i, ⟨⟨hle, hlt⟩, hi⟩, f, hf, rfl⟩
    exact ⟨hle, by omega, hi, hf⟩
  · rintro ⟨hle, hlt, hi, hf⟩
    exact ⟨p.1, ⟨⟨hle, by omega⟩, hi⟩, p.2, hf, rfl⟩

theorem log_append (q r : List (Nat × Nat)) : a.log (q ++ r) = a.log r ++ a.log q := by
  unfold log
  rw [map_append, reverse_append]

variable {vl : Nat}

theorem elementAddr_eq (h : a.InRange vl) {i : Nat} (hi : i < vl) (field : Nat) :
    a.elementAddr field i = some (a.address (i, field)) := by
  obtain ⟨offset, hoff⟩ := isSome_iff_exists.1 (h.offsets i hi)
  unfold elementAddr address
  rw [hoff, map_some, getD_some]

theorem register_lt (h : a.InRange vl) {withinGroupId field : Nat}
    (hid : withinGroupId < a.numRegistersInGroup) (hfield : field < a.segmentSize) :
    a.register withinGroupId field < 32 := by
  have hregs := h.registers
  have hmul := Nat.mul_le_mul_left a.numRegistersInGroup (Nat.succ_le_of_lt hfield)
  rw [Nat.mul_succ, Nat.mul_comm _ field] at hmul
  unfold register
  omega

end SegmentAccess

open SegmentAccess

theorem not_skipped_iff (e : ElementType) (masked : Bool) (mask : BitVec 128) {index i : Nat}
    (hidx : index < 8) (hi : i < e.elementsCount) :
    (masked && !(maskForRegisterInSequence e mask index).getLsbD i) =
      !(!masked || mask.getLsbD (e.elementsCount * index + i)) := by
  rw [getLsbD_maskForRegisterInSequence e mask hidx hi, Bool.not_or, Bool.not_not]

/-! ### Stores -/

section Store

variable (faults : BitVec 64 → Nat → Bool) (a : SegmentAccess)

def SegmentAccess.value (v : Nat → BitVec 128) (p : Nat × Nat) : BitVec a.elementType.bits :=
  element a.elementType v (a.group + p.2 * a.numRegistersInGroup) p.1

/-- The state after the stores of a plan up to the first one that faults. -/
def storesAfter (q : List (Nat × Nat)) (s : State) : State :=
  { s with
    mem := (completed (a.fails faults) q).foldl
      (fun mem p => storeWord mem (a.address p) (a.value s.v p)) s.mem
    accesses := a.log (attempted (a.fails faults) q) ++ s.accesses }

variable {faults a}

theorem storesAfter_append {q : List (Nat × Nat)} {p : Nat × Nat} (s : State)
    (h : q.find? (a.fails faults) = some p) (rest : List (Nat × Nat)) :
    storesAfter faults a (q ++ rest) s = storesAfter faults a q s := by
  unfold storesAfter
  rw [completed_append_of_some h, attempted_append_of_some h]

variable {index : Nat} {useMasking : Bool}

theorem storeField_eq {vl : Nat} (h : a.InRange vl) {s : State} {q : List (Nat × Nat)}
    {i field : Nat} (hq : q.find? (a.fails faults) = none)
    (hidx : index < a.numRegistersInGroup) (hi : i < a.elementType.elementsCount)
    (hvl : a.elementType.elementsCount * index + i < vl) (hfield : field < a.segmentSize) :
    let p := (a.elementType.elementsCount * index + i, field)
    storeField faults a index i field (storesAfter faults a q s) = some (if a.fails faults p then
          (.ret, (storesAfter faults a (q ++ [p]) s).setVstart (BitVec.ofNat 64 p.1))
        else (.next, storesAfter faults a (q ++ [p]) s)) := by
  intro p
  have hval : lane a.elementType.bits (s.v (a.register index field)) i = a.value s.v p := by
    unfold SegmentAccess.value SegmentAccess.register
    rw [element_add _ _ _ _ hi, Nat.add_right_comm]
  have hreg := register_lt h hidx hfield
  unfold storeField
  simp only [elementAddr_eq h hvl, bind_some]
  rw [show (storesAfter faults a q s).v = s.v from rfl]
  unfold SegmentAccess.register at hreg hval
  rw [getV_of_lt hreg, bind_some, hval]
  unfold State.faultyStore storesAfter
  rw [completed_of_none hq, attempted_of_none hq, completed_append_of_none hq,
    attempted_append_of_none hq, log_append]
  cases hp : a.fails faults p with
  | true =>
    have hp' : faults (a.address p) a.elementType.bytes = true := hp
    rw [if_pos hp']
    simp [completed, attempted, hp, SegmentAccess.log, p]
  | false =>
    have hp' : ¬ faults (a.address p) a.elementType.bytes = true := by
      simpa [SegmentAccess.fails] using hp
    rw [if_neg hp']
    simp [completed, attempted, hp, SegmentAccess.log, p]

variable (faults a)

def StoredBefore (active : Nat → Bool) (vstart vl : Nat) (s : State) (k : Nat) (t : State) : Prop :=
  let q := a.plan active vstart (min k vl)
  q.find? (a.fails faults) = none ∧ t = storesAfter faults a q s

def StoreFaulted (active : Nat → Bool) (vstart vl : Nat) (s t : State) : Prop :=
  let q := a.plan active vstart vl
  ∃ p, q.find? (a.fails faults) = some p ∧
    t = (storesAfter faults a q s).setVstart (BitVec.ofNat 64 p.1)

variable {faults a} {active : Nat → Bool} {vstart vl : Nat} {s t : State}

theorem StoredBefore.of_le {j k : Nat} (h : StoredBefore faults a active vstart vl s j t)
    (hj : vl ≤ j) (hk : vl ≤ k) : StoredBefore faults a active vstart vl s k t := by
  unfold StoredBefore at h ⊢
  rwa [Nat.min_eq_right hj, ← Nat.min_eq_right hk] at h

theorem forExit_storeField (h : a.InRange vl) {i : Nat} (hidx : index < a.numRegistersInGroup)
    (hi : i < a.elementType.elementsCount)
    (hst : vstart ≤ a.elementType.elementsCount * index + i)
    (hvl : a.elementType.elementsCount * index + i < vl)
    (hact : active (a.elementType.elementsCount * index + i) = true)
    (ht : StoredBefore faults a active vstart vl s (a.elementType.elementsCount * index + i) t) :
    ∃ x t', forExit (storeField faults a index i) 0 a.segmentSize t = some (x, t') ∧
      x.Post (StoredBefore faults a active vstart vl s
        (a.elementType.elementsCount * index + i + 1)) (fun _ => False)
        (StoreFaulted faults a active vstart vl s) t' := by
  unfold StoredBefore at ht ⊢
  rw [Nat.min_eq_left hvl.le] at ht
  rw [Nat.min_eq_left hvl, plan_succ hst, hact, if_pos rfl]
  -- The plan ends with the rest of this element's fields and later elements.
  obtain ⟨later, hlat, -⟩ := @plan_of_le_of_le a active vstart _ _ (Nat.succ_le_of_lt hvl)
  rw [Nat.succ_eq_add_one, plan_succ hst, hact, if_pos rfl] at hlat
  generalize hn : a.elementType.elementsCount * index + i = n at *
  have hloop := @forExit_induct State (storeField faults a index i)
    (fun field t => (a.plan active vstart n ++ fields n field).find? (a.fails faults) = none ∧
      t = storesAfter faults a (a.plan active vstart n ++ fields n field) s)
    (fun _ => False) (StoreFaulted faults a active vstart vl s) 0 a.segmentSize t ?_ ?_
  · obtain ⟨x, t', hx, hpost⟩ := hloop
    refine ⟨x, t', hx, ?_⟩
    rcases hpost with ⟨rfl, hpost | hpost⟩ | ⟨rfl, hpost⟩
    · rwa [Nat.zero_add] at hpost
    · exact hpost.elim
    · exact hpost
  · unfold fields
    rwa [range_zero, map_nil, append_nil]
  · rintro field t - hfield ⟨hnone, rfl⟩
    rw [Nat.zero_add] at hfield
    have hstep := storeField_eq (s := s) h hnone hidx hi (hn.symm ▸ hvl) hfield
    dsimp only at hstep
    rw [hn, append_assoc, ← fields_succ] at hstep
    refine ⟨_, _, hstep.trans (congrArg some (Prod.mk.eta).symm), ?_⟩
    have hfind := @find?_append _ (a.fails faults) (a.plan active vstart n ++ fields n field)
      [(n, field)]
    rw [append_assoc, ← fields_succ, hnone, none_or] at hfind
    cases hp : a.fails faults (n, field) with
    | false =>
      refine ⟨?_, rfl⟩
      simpa [hp] using hfind
    | true =>
      simp only [hp, find?_cons_of_pos] at hfind
      obtain ⟨rest, hrest⟩ := fields_of_le n (Nat.succ_le_of_lt hfield)
      rw [hrest, ← append_assoc, append_assoc _ rest] at hlat
      refine ⟨(n, field), ?_, ?_⟩
      · rw [hlat, find?_append_of_some hfind]
      · rw [hlat, storesAfter_append s hfind]
        rfl

theorem forExit_storeElement (h : a.InRange vl) {mask : BitVec 128} {start : Nat}
    (hidx : index < a.numRegistersInGroup)
    (hst : vstart ≤ a.elementType.elementsCount * index + start)
    (hcount : start ≤ a.elementType.elementsCount)
    (ht : StoredBefore faults a (fun i => !useMasking || mask.getLsbD i) vstart vl s
      (a.elementType.elementsCount * index + start) t) :
    ∃ x t', forExit (storeElement faults a vl useMasking
        (maskForRegisterInSequence a.elementType mask index) index) start
        (a.elementType.elementsCount - start) t = some (x, t') ∧
      x.Post (StoredBefore faults a (fun i => !useMasking || mask.getLsbD i) vstart vl s
        (a.elementType.elementsCount * (index + 1))) (fun _ => False)
        (StoreFaulted faults a (fun i => !useMasking || mask.getLsbD i) vstart vl s) t' := by
  generalize hact : (fun i => !useMasking || mask.getLsbD i) = active at ht ⊢
  have hloop := @forExit_induct State (storeElement faults a vl useMasking
      (maskForRegisterInSequence a.elementType mask index) index)
    (fun i => StoredBefore faults a active vstart vl s (a.elementType.elementsCount * index + i))
    (StoredBefore faults a active vstart vl s (a.elementType.elementsCount * (index + 1)))
    (StoreFaulted faults a active vstart vl s) start (a.elementType.elementsCount - start) t ht ?_
  · obtain ⟨x, t', hx, hpost⟩ := hloop
    refine ⟨x, t', hx, ?_⟩
    rw [Nat.add_sub_cancel' hcount, ← Nat.mul_succ] at hpost
    rcases hpost with ⟨rfl, hpost⟩ | ⟨rfl, hpost⟩
    · exact hpost.elim id id
    · exact hpost
  · intro i t hle hlt ht
    have hi : i < a.elementType.elementsCount := by omega
    have hsize := h.size
    unfold storeElement
    by_cases hvl : vl ≤ a.elementType.elementsCount * index + i
    · rw [if_pos hvl]
      refine ⟨.brk, t, rfl, ht.of_le hvl ?_⟩
      rw [Nat.mul_succ]
      omega
    · rw [if_neg hvl, not_skipped_iff _ _ _ (by omega) hi]
      rw [congrFun hact]
      cases hskip : active (a.elementType.elementsCount * index + i) with
      | false =>
        -- An inactive element is not in the plan.
        refine ⟨.next, t, rfl, ?_⟩
        unfold Exit.Post StoredBefore at *
        rw [Nat.min_eq_left (by omega)] at ht ⊢
        rwa [← Nat.add_assoc, plan_succ (by omega), hskip, if_neg nofun, append_nil]
      | true =>
        obtain ⟨x, t', hx, hpost⟩ :=
          forExit_storeField h hidx hi (by omega) (by omega) hskip ht
        refine ⟨x, t', hx, ?_⟩
        cases x with
        | next => exact hpost
        | brk => exact hpost.elim
        | ret => exact hpost

theorem forExit_storeRegisters (h : a.InRange vl) {mask : BitVec 128} (hst : vstart < vl)
    (t : State)
    (ht : StoredBefore faults a (fun i => !useMasking || mask.getLsbD i) vstart vl s vstart t) :
    ∃ x vstart' t', forExit (storeRegisters faults a vl useMasking mask)
        (vstart / a.elementType.elementsCount)
        (a.numRegistersInGroup - vstart / a.elementType.elementsCount) (vstart, t) =
          some (x, (vstart', t')) ∧
      x.Post (StoredBefore faults a (fun i => !useMasking || mask.getLsbD i) vstart vl s vl)
        (fun _ => False)
        (StoreFaulted faults a (fun i => !useMasking || mask.getLsbD i) vstart vl s) t' := by
  have hpos := a.elementType.elementsCount_pos
  have helem := h.elements
  have hfst : vstart / a.elementType.elementsCount < a.numRegistersInGroup :=
    (Nat.div_lt_iff_lt_mul hpos).2 (by rw [Nat.mul_comm]; omega)
  generalize hact : (fun i => !useMasking || mask.getLsbD i) = active at ht ⊢
  -- Each round starts with the element that is next, in all registers but the first at lane zero.
  have hloop := @forExit_induct (Nat × State) (storeRegisters faults a vl useMasking mask)
    (fun index l => vstart ≤ a.elementType.elementsCount * index +
      l.1 % a.elementType.elementsCount ∧
      StoredBefore faults a active vstart vl s
        (a.elementType.elementsCount * index + l.1 % a.elementType.elementsCount) l.2)
    (fun l => StoredBefore faults a active vstart vl s vl l.2)
    (fun l => StoreFaulted faults a active vstart vl s l.2)
    (vstart / a.elementType.elementsCount)
    (a.numRegistersInGroup - vstart / a.elementType.elementsCount) (vstart, t) ?_ ?_
  · obtain ⟨x, ⟨vstart', t'⟩, hx, hpost⟩ := hloop
    refine ⟨x, vstart', t', hx, ?_⟩
    rw [Nat.add_sub_cancel' hfst.le] at hpost
    rcases hpost with ⟨rfl, ⟨-, hpost⟩ | hpost⟩ | ⟨rfl, hpost⟩
    · exact hpost.of_le (by omega) (Nat.le_refl vl)
    · exact hpost
    · exact hpost
  · rw [Nat.div_add_mod]
    exact ⟨Nat.le_refl _, ht⟩
  · rintro index ⟨start, t⟩ hle hlt ⟨hst, ht⟩
    unfold storeRegisters
    dsimp only at hst ht ⊢
    by_cases hvl : vl ≤ index * a.elementType.elementsCount
    · rw [if_pos hvl]
      rw [Nat.mul_comm] at hvl
      exact ⟨.brk, _, rfl, ht.of_le (by omega) (Nat.le_refl vl)⟩
    · rw [if_neg hvl]
      subst hact
      obtain ⟨x, t', hx, hpost⟩ :=
        forExit_storeElement h (by omega) hst (Nat.mod_lt start hpos).le ht
      rw [hx, map_some]
      refine ⟨x, _, rfl, ?_⟩
      cases x with
      | next =>
        have hmod := Nat.mod_lt start hpos
        refine ⟨?_, ?_⟩
        · rw [Nat.mul_succ]
          omega
        · rwa [Nat.zero_mod, Nat.add_zero]
      | brk => exact hpost.elim
      | ret => exact hpost

theorem opVectorStore_eq {opcode : VSUmOpOpcode} (h : a.InRange (storeVl opcode s))
    (hrais : s.exceptionRaised = false) (hst : s.vstart.toNat < storeVl opcode s) :
    let q := a.plan (fun i => !useMasking || (s.v 0).getLsbD i) s.vstart.toNat (storeVl opcode s)
    let t := storesAfter faults a q { s with vstart := 0 }
    opVectorStore faults a opcode useMasking s = some (match q.find? (a.fails faults) with
        | none => t
        | some p => t.setVstart (BitVec.ofNat 64 p.1)) := by
  intro q t
  unfold opVectorStore
  rw [h.aligned, Bool.not_true, if_neg nofun, if_neg (Nat.not_lt.2 h.registers)]
  dsimp only
  rw [if_neg (by omega), State.setVstart_zero hrais]
  have hinit : StoredBefore faults a (fun i => !useMasking || (s.v 0).getLsbD i) s.vstart.toNat
      (storeVl opcode s) { s with vstart := 0 } s.vstart.toNat { s with vstart := 0 } := by
    unfold StoredBefore
    rw [plan_of_le (Nat.min_le_left ..)]
    exact ⟨rfl, rfl⟩
  obtain ⟨x, vstart', t', hx, hpost⟩ := forExit_storeRegisters h hst _ hinit
  rw [hx, map_some]
  congr 1
  cases x with
  | next =>
    obtain ⟨hnone, rfl⟩ := hpost
    rw [Nat.min_self] at hnone ⊢
    rw [show q.find? (a.fails faults) = none from hnone]
  | brk => exact hpost.elim
  | ret =>
    obtain ⟨p, hp, rfl⟩ := hpost
    rw [show q.find? (a.fails faults) = some p from hp]

end Store

end Berberis.Riscv64.Vector
