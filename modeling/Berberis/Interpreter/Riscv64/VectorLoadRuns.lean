import Berberis.Interpreter.Riscv64.VectorMemoryRuns

/-!
# Runs of Vector Loads

A load makes the accesses of its plan up to the first one that faults. The
element of that access is where the body ends from then on, and the registers are
written as if `vl` had been that number. Only elements after it that were not
expected to be kept are left with no particular value.
-/

namespace Berberis.Riscv64.Vector

open Lib SegmentAccess List Function Option

variable (faults : BitVec 64 → Nat → Bool) (a : SegmentAccess) (opcode : VLUmOpOpcode)

def SegmentAccess.loaded (mem : BitVec 64 → BitVec 8) (p : Nat × Nat) :
    BitVec a.elementType.bits :=
  loadWord mem (a.address p) a.elementType.bits

/-- The state after the loads of a plan up to the first one that faults. -/
def loadsAfter (q : List (Nat × Nat)) (v : Nat → BitVec 128) (s : State) : State :=
  let t := { s with v := v, accesses := a.log (attempted (a.fails faults) q) ++ s.accesses }
  match q.find? (a.fails faults) with
  | none => t
  | some p => loadFault opcode p.1 t

def vlAfter (vl : Nat) (q : List (Nat × Nat)) : Nat :=
  match q.find? (a.fails faults) with
  | none => vl
  | some p => p.1

/-- The loads of the elements before `k` are made. -/
structure LoadedBefore (active : Nat → Bool) (vstart vl : Nat) (s : State) (v : Nat → BitVec 128)
    (k : Nat) (l : LoadLocals) : Prop where
  bodyEnd : l.vl = vlAfter faults a vl (a.plan active vstart (min k vl))
  state : l.state = loadsAfter faults a opcode (a.plan active vstart (min k vl)) v s

variable {faults a opcode} {active : Nat → Bool} {vstart vl : Nat} {s : State}
  {v : Nat → BitVec 128} {l : LoadLocals}

theorem loadFault_v (i : Nat) (t : State) : (loadFault opcode i t).v = t.v := by
  unfold loadFault State.setVl State.setVstart
  cases opcode <;> split_ifs <;> rfl

theorem loadFault_with_v (i : Nat) (t : State) (v' : Nat → BitVec 128) :
    { loadFault opcode i t with v := v' } = loadFault opcode i { t with v := v' } := by
  unfold loadFault State.setVl State.setVstart
  cases opcode <;> dsimp only <;> split_ifs <;> rfl

theorem loadsAfter_with_v (q : List (Nat × Nat)) (v' : Nat → BitVec 128) :
    { loadsAfter faults a opcode q v s with v := v' } = loadsAfter faults a opcode q v' s := by
  unfold loadsAfter
  split
  · rfl
  · rw [loadFault_with_v]

theorem loadsAfter_v (q : List (Nat × Nat)) : (loadsAfter faults a opcode q v s).v = v := by
  unfold loadsAfter
  split
  · rfl
  · rw [loadFault_v]

/-! ### Where the body ends -/

theorem vlAfter_of_none {q : List (Nat × Nat)} (h : q.find? (a.fails faults) = none) :
    vlAfter faults a vl q = vl := by
  unfold vlAfter
  rw [h]

theorem mem_of_find? {k : Nat} {p : Nat × Nat}
    (h : (a.plan active vstart k).find? (a.fails faults) = some p) : vstart ≤ p.1 ∧ p.1 < k := by
  have hmem := mem_plan.1 (mem_of_find?_eq_some h)
  exact ⟨hmem.1, hmem.2.1⟩

theorem vstart_le_vlAfter (h : vstart ≤ vl) (k : Nat) :
    vstart ≤ vlAfter faults a vl (a.plan active vstart k) := by
  unfold vlAfter
  split
  · exact h
  · rename_i p hp
    exact (mem_of_find? hp).1

variable {k index i : Nat} {vma : Option InactiveProcessing} {mask : BitVec 128}
    {vta : TailProcessing}

theorem le_of_find?_eq_none {p : Nat × Nat} (hk : k ≤ vl)
    (hnone : (a.plan active vstart k).find? (a.fails faults) = none)
    (hp : (a.plan active vstart vl).find? (a.fails faults) = some p) : k ≤ p.1 := by
  obtain ⟨rest, hrest, hle⟩ := @plan_of_le_of_le a active vstart vl k hk
  have hmem := mem_of_find?_eq_some hp
  have hnot : p ∉ a.plan active vstart k := fun hmem' =>
    find?_eq_none.1 hnone p hmem' (find?_some hp)
  rw [hrest] at hmem
  exact hle p ((mem_append.1 hmem).resolve_left hnot)

theorem find?_eq_some_of_lt {p : Nat × Nat} (hk : k ≤ vl) (hlt : p.1 < k)
    (hp : (a.plan active vstart vl).find? (a.fails faults) = some p) :
    (a.plan active vstart k).find? (a.fails faults) = some p := by
  obtain ⟨rest, hrest, -⟩ := @plan_of_le_of_le a active vstart vl k hk
  cases hfind : (a.plan active vstart k).find? (a.fails faults) with
  | none => exact absurd (le_of_find?_eq_none hk hfind hp) (Nat.not_le.2 hlt)
  | some p' =>
    rw [hrest, find?_append_of_some hfind] at hp
    exact hp

theorem lt_vlAfter_iff {n : Nat} (hn : n < k) :
    n < vlAfter faults a vl (a.plan active vstart (min k vl)) ↔
      n < vlAfter faults a vl (a.plan active vstart vl) := by
  obtain ⟨rest, hrest, -⟩ :=
    @plan_of_le_of_le a active vstart vl (min k vl) (Nat.min_le_right k vl)
  cases hfind : (a.plan active vstart (min k vl)).find? (a.fails faults) with
  | some p =>
    unfold vlAfter
    rw [hrest, find?_append_of_some hfind, hfind]
  | none =>
    rw [vlAfter_of_none hfind]
    cases hfind' : (a.plan active vstart vl).find? (a.fails faults) with
    | none => rw [vlAfter_of_none hfind']
    | some p =>
      have hlt := (mem_plan.1 (mem_of_find?_eq_some hfind')).2.1
      -- The fault is after the elements that are planned before `k`.
      have hge := le_of_find?_eq_none (Nat.min_le_right k vl) hfind hfind'
      unfold vlAfter
      rw [hfind']
      dsimp only
      omega

namespace LoadedBefore

variable {k : Nat}

section

variable (h : LoadedBefore faults a opcode active vstart vl s v k l)
include h

theorem of_le {j : Nat} (hvl : l.vl ≤ k) (hj : k ≤ j) :
    LoadedBefore faults a opcode active vstart vl s v j l := by
  obtain ⟨rest, hrest, -⟩ := @plan_of_le_of_le a active vstart (min j vl) (min k vl) (by omega)
  cases hfind : (a.plan active vstart (min k vl)).find? (a.fails faults) with
  | none =>
    have hmin : min j vl = min k vl := by
      have hl := h.bodyEnd
      rw [vlAfter_of_none hfind] at hl
      omega
    exact ⟨by rw [hmin]; exact h.bodyEnd, by rw [hmin]; exact h.state⟩
  | some p =>
    refine ⟨h.bodyEnd.trans ?_, h.state.trans ?_⟩
    · unfold vlAfter
      rw [hrest, find?_append_of_some hfind, hfind]
    · unfold loadsAfter
      rw [hrest, find?_append_of_some hfind, attempted_append_of_some hfind, hfind]

theorem find?_eq_none (hvl : k < l.vl) :
    (a.plan active vstart (min k vl)).find? (a.fails faults) = none := by
  cases hfind : (a.plan active vstart (min k vl)).find? (a.fails faults) with
  | none => rfl
  | some p =>
    have hl := h.bodyEnd
    have hlt := (mem_of_find? hfind).2
    unfold vlAfter at hl
    rw [hfind] at hl
    dsimp only at hl
    omega

theorem vl_eq (hvl : k < l.vl) : l.vl = vl := by
  rw [h.bodyEnd, vlAfter_of_none (h.find?_eq_none hvl)]

end

end LoadedBefore

/-! ### Elements in `result[]` -/

theorem loadField_eq (h : a.InRange vl) {q : List (Nat × Nat)} (field : Nat)
    (hq : q.find? (a.fails faults) = none) (hvl : a.elementType.elementsCount * index + i < vl)
    (hl : l.state = loadsAfter faults a opcode q v s) :
    let p := (a.elementType.elementsCount * index + i, field)
    let t := loadsAfter faults a opcode (q ++ [p]) v s
    loadField faults a opcode index i field l =
      some (if a.fails faults p then (.brk, { l with vl := p.1, state := t })
        else (.next, { l with
            result := Function.update l.result field
              (setLane a.elementType.bits (l.result field) i (a.loaded s.mem p))
            state := t })) := by
  intro p t
  have hstate : l.state = { s with v := v, accesses := a.log q ++ s.accesses } := by
    rw [hl]
    unfold loadsAfter
    rw [attempted_of_none hq, hq]
  have hfind : (q ++ [p]).find? (a.fails faults) = if a.fails faults p then some p else none := by
    rw [find?_append, hq, none_or, find?_singleton]
  have hlog : a.log (attempted (a.fails faults) (q ++ [p])) =
      (a.address p, a.elementType.bytes) :: a.log q := by
    rw [attempted_append_of_none hq, log_append]
    cases hp : a.fails faults p <;> simp [completed, attempted, hp, SegmentAccess.log]
  unfold loadField
  simp only [elementAddr_eq h hvl, map_some]
  unfold State.faultyLoad
  simp only [t, loadsAfter, hfind, hlog, hstate]
  congr 1
  cases hp : a.fails faults p with
  | true =>
    have hp' : faults (a.address p) a.elementType.bytes = true := hp
    simp [hp', p]
  | false =>
    have hp' : faults (a.address p) a.elementType.bytes = false := hp
    simp [hp', SegmentAccess.loaded, p]

/-- What the loop over the fields of an element has done to the locals `l`. -/
structure FieldsLoaded (faults : BitVec 64 → Nat → Bool) (a : SegmentAccess)
    (opcode : VLUmOpOpcode) (active : Nat → Bool) (vstart vl : Nat) (s : State)
    (v : Nat → BitVec 128) (index i : Nat) (l l' : LoadLocals) : Prop where
  before : LoadedBefore faults a opcode active vstart vl s v
    (a.elementType.elementsCount * index + i + 1) l'
  vstart_eq : l'.vstart = l.vstart
  others : ∀ field j, j < a.elementType.elementsCount → j ≠ i →
    lane a.elementType.bits (l'.result field) j = lane a.elementType.bits (l.result field) j
  loaded : a.elementType.elementsCount * index + i < l'.vl → ∀ field < a.segmentSize,
    lane a.elementType.bits (l'.result field) i =
      a.loaded s.mem (a.elementType.elementsCount * index + i, field)
  rest : ∀ p, (a.plan active vstart (a.elementType.elementsCount * index + i + 1)).find?
    (a.fails faults) = some p → ∀ field, p.2 ≤ field → l'.result field = l.result field

theorem forExit_loadField (h : a.InRange vl) (hi : i < a.elementType.elementsCount)
    (hst : vstart ≤ a.elementType.elementsCount * index + i)
    (hvl : a.elementType.elementsCount * index + i < l.vl)
    (hact : active (a.elementType.elementsCount * index + i) = true)
    (hl : LoadedBefore faults a opcode active vstart vl s v
      (a.elementType.elementsCount * index + i) l) :
    ∃ l', forExit (loadField faults a opcode index i) 0 a.segmentSize l = some (.next, l') ∧
      FieldsLoaded faults a opcode active vstart vl s v index i l l' := by
  have hvl' : a.elementType.elementsCount * index + i < vl := by rwa [hl.vl_eq hvl] at hvl
  have hmin := Nat.min_eq_left hvl'.le
  have hnone := hl.find?_eq_none hvl
  have hplan := @plan_succ a active vstart _ hst
  rw [hact, if_pos rfl] at hplan
  -- Loads so far, with lane `i` of the fields so far.
  have hloop := @forExit_induct LoadLocals (loadField faults a opcode index i)
    (fun field l' =>
      let q := a.plan active vstart (a.elementType.elementsCount * index + i) ++
        fields (a.elementType.elementsCount * index + i) field
      q.find? (a.fails faults) = none ∧ l'.vl = l.vl ∧ l'.vstart = l.vstart ∧
      l'.state = loadsAfter faults a opcode q v s ∧
      (∀ field j, j < a.elementType.elementsCount → j ≠ i →
        lane a.elementType.bits (l'.result field) j = lane a.elementType.bits (l.result field) j) ∧
      (∀ f < field, lane a.elementType.bits (l'.result f) i =
        a.loaded s.mem (a.elementType.elementsCount * index + i, f)) ∧
      ∀ f, field ≤ f → l'.result f = l.result f)
    (FieldsLoaded faults a opcode active vstart vl s v index i l) (fun _ => False)
    0 a.segmentSize l ?_ ?_
  · obtain ⟨x, l', hx, hpost⟩ := hloop
    rcases hpost with ⟨rfl, hpost | hpost⟩ | ⟨rfl, hpost⟩
    · obtain ⟨hq, hvl'', hvs, hstate, hoth, hload, -⟩ := hpost
      rw [Nat.zero_add] at hq hstate hload
      refine ⟨l', hx, ⟨?_, ?_⟩, hvs, hoth, fun _ => hload, fun p hp => ?_⟩
      · rw [Nat.min_eq_left hvl', hplan, vlAfter_of_none hq, hvl'', hl.vl_eq hvl]
      · rw [Nat.min_eq_left hvl', hplan, hstate]
      · rw [hplan, hq] at hp
        cases hp
    · exact ⟨l', hx, hpost⟩
    · exact hpost.elim
  · rw [hmin] at hnone
    have hstate := hl.state
    rw [hmin] at hstate
    have happ : a.plan active vstart (a.elementType.elementsCount * index + i) ++
        fields (a.elementType.elementsCount * index + i) 0 =
          a.plan active vstart (a.elementType.elementsCount * index + i) := append_nil _
    rw [happ]
    exact ⟨hnone, rfl, rfl, hstate, fun _ _ _ _ => rfl, fun f hf => absurd hf (Nat.not_lt_zero f),
      fun _ _ => rfl⟩
  · rintro field l' - hfield ⟨hq, hvl'', hvs, hstate, hoth, hload, hkept⟩
    rw [Nat.zero_add] at hfield
    have hstep := loadField_eq h field hq hvl' hstate
    dsimp only at hstep
    rw [append_assoc, ← fields_succ] at hstep
    have hfind := @find?_append _ (a.fails faults)
      (a.plan active vstart (a.elementType.elementsCount * index + i) ++
        fields (a.elementType.elementsCount * index + i) field)
      [(a.elementType.elementsCount * index + i, field)]
    rw [append_assoc, ← fields_succ, hq, none_or, find?_singleton] at hfind
    refine ⟨_, _, hstep.trans (congrArg some (Prod.mk.eta).symm), ?_⟩
    cases hp : a.fails faults (a.elementType.elementsCount * index + i, field) with
    | false =>
      rw [hp, if_neg nofun] at hfind
      refine ⟨hfind, hvl'', hvs, rfl, fun f j hj hne => ?_, fun f hf => ?_, fun f hf => ?_⟩
      · rw [← hoth f j hj hne]
        by_cases hff : f = field
        · simp only [hff, Bool.false_eq_true, if_false, update_self]
          rw [lane_setLane _ _ _ hj, if_neg hne]
        · simp [update_of_ne hff]
      · by_cases hff : f = field
        · simp only [hff, Bool.false_eq_true, if_false, update_self]
          rw [lane_setLane _ _ _ hi, if_pos rfl]
        · simp only [Bool.false_eq_true, if_false, update_of_ne hff]
          exact hload f (by omega)
      · have hff : f ≠ field := by omega
        simp only [Bool.false_eq_true, if_false, update_of_ne hff]
        exact hkept f (by omega)
    | true =>
      -- After the fault the rest of the element makes no difference.
      rw [hp, if_pos rfl] at hfind
      obtain ⟨rest, hrest⟩ :=
        fields_of_le (a.elementType.elementsCount * index + i) (Nat.succ_le_of_lt hfield)
      rw [hrest, ← append_assoc] at hplan
      refine ⟨⟨?_, ?_⟩, hvs, hoth, fun hlt => absurd hlt (Nat.lt_irrefl _), fun p hp => ?_⟩
      · rw [Nat.min_eq_left hvl', hplan]
        unfold vlAfter
        rw [find?_append_of_some hfind]
        rfl
      · rw [Nat.min_eq_left hvl', hplan]
        simp only [if_true, loadsAfter]
        rw [find?_append_of_some hfind, attempted_append_of_some hfind, hfind]
      · rw [hplan, find?_append_of_some hfind] at hp
        cases hp
        exact hkept

/-- The access comes after the one to `p`, or is that one. -/
def NotReached (a : SegmentAccess) (p : Nat × Nat) (index i field : Nat) : Prop :=
  p.1 < a.elementType.elementsCount * index + i ∨
    p.1 = a.elementType.elementsCount * index + i ∧ p.2 ≤ field

/-- What the loop over the elements of a register has done to the locals `l`, up to lane `i`. -/
structure ElementsLoaded (faults : BitVec 64 → Nat → Bool) (a : SegmentAccess)
    (opcode : VLUmOpOpcode) (active : Nat → Bool) (vstart vl : Nat) (s : State)
    (v : Nat → BitVec 128) (index start : Nat) (l : LoadLocals) (i : Nat) (l' : LoadLocals) :
    Prop where
  before : LoadedBefore faults a opcode active vstart vl s v
    (a.elementType.elementsCount * index + i) l'
  vstart_eq : l'.vstart = l.vstart
  loaded : ∀ j, start ≤ j → j < i → a.elementType.elementsCount * index + j < l'.vl →
    active (a.elementType.elementsCount * index + j) = true → ∀ field < a.segmentSize,
    lane a.elementType.bits (l'.result field) j =
      a.loaded s.mem (a.elementType.elementsCount * index + j, field)
  others : ∀ field j, j < a.elementType.elementsCount →
    ¬ (start ≤ j ∧ a.elementType.elementsCount * index + j < vl ∧
      active (a.elementType.elementsCount * index + j) = true) →
    lane a.elementType.bits (l'.result field) j = lane a.elementType.bits (l.result field) j
  rest : ∀ p, (a.plan active vstart vl).find? (a.fails faults) = some p →
    ∀ field j, j < a.elementType.elementsCount → NotReached a p index j field →
    lane a.elementType.bits (l'.result field) j = lane a.elementType.bits (l.result field) j

theorem ElementsLoaded.step {start : Nat} {l' l'' : LoadLocals}
    (h : ElementsLoaded faults a opcode active vstart vl s v index start l i l')
    (hst : start ≤ i) (hi : i < a.elementType.elementsCount)
    (hvl : a.elementType.elementsCount * index + i < vl)
    (hactive : active (a.elementType.elementsCount * index + i) = true) (hl : l'.vl = vl)
    (hfs : FieldsLoaded faults a opcode active vstart vl s v index i l' l'') :
    ElementsLoaded faults a opcode active vstart vl s v index start l (i + 1) l'' where
  before := hfs.before
  vstart_eq := hfs.vstart_eq.trans h.vstart_eq
  loaded j hj hlt hbody hact field hfield := by
    by_cases hij : j = i
    · subst hij
      exact hfs.loaded hbody field hfield
    · rw [hfs.others field j (by omega) hij]
      exact h.loaded j hj (by omega) (by omega) hact field hfield
  others field j hj hnot := by
    have hij : j ≠ i := by
      rintro rfl
      exact hnot ⟨hst, hvl, hactive⟩
    rw [hfs.others field j hj hij, h.others field j hj hnot]
  rest p hp field j hj hafter := by
    by_cases hij : j = i
    · subst hij
      have hnone := h.before.find?_eq_none (by omega)
      rw [Nat.min_eq_left hvl.le] at hnone
      have hge := le_of_find?_eq_none hvl.le hnone hp
      obtain ⟨heq, hfield⟩ := hafter.resolve_left (by omega)
      have hfind := find?_eq_some_of_lt hvl (by omega) hp
      rw [hfs.rest p hfind field hfield]
      exact h.rest p hp field j hj hafter
    · rw [hfs.others field j hj hij]
      exact h.rest p hp field j hj hafter

theorem forExit_loadElement (h : a.InRange vl) {start : Nat} (hidx : index < a.numRegistersInGroup)
    (hactive : active = fun i => !vma.isSome || mask.getLsbD i)
    (hst : vstart ≤ a.elementType.elementsCount * index + start)
    (hcount : start ≤ a.elementType.elementsCount)
    (hl : LoadedBefore faults a opcode active vstart vl s v
      (a.elementType.elementsCount * index + start) l) :
    ∃ l', forExit (loadElement faults a opcode vma
        (maskForRegisterInSequence a.elementType mask index) index) start
        (a.elementType.elementsCount - start) l = some (.next, l') ∧
      ElementsLoaded faults a opcode active vstart vl s v index start l
        a.elementType.elementsCount l' := by
  have hloop := @forExit_induct LoadLocals (loadElement faults a opcode vma
      (maskForRegisterInSequence a.elementType mask index) index)
    (ElementsLoaded faults a opcode active vstart vl s v index start l)
    (ElementsLoaded faults a opcode active vstart vl s v index start l a.elementType.elementsCount)
    (fun _ => False) start (a.elementType.elementsCount - start) l ?_ ?_
  · obtain ⟨x, l', hx, hpost⟩ := hloop
    rw [Nat.add_sub_cancel' hcount] at hpost
    rcases hpost with ⟨rfl, hpost⟩ | ⟨rfl, hpost⟩
    · exact ⟨l', hx, hpost.elim id id⟩
    · exact hpost.elim
  · exact ⟨hl, rfl, fun j hle hlt => absurd hlt (Nat.not_lt.2 hle), fun _ _ _ _ => rfl,
      fun _ _ _ _ _ _ => rfl⟩
  · intro i l' hle hlt hl'
    have hi : i < a.elementType.elementsCount := by omega
    have hsize := h.size
    unfold loadElement
    by_cases hvl : l'.vl ≤ a.elementType.elementsCount * index + i
    · -- The body has ended, and there is nothing to load after it.
      rw [if_pos hvl]
      refine ⟨.brk, l', rfl, ?_, hl'.vstart_eq, fun j hj _ hbody => ?_, hl'.others, hl'.rest⟩
      · exact hl'.before.of_le hvl (by omega)
      · exact hl'.loaded j hj (by omega) hbody
    · rw [if_neg hvl, not_skipped_iff _ _ _ (by omega) hi]
      rw [show (!vma.isSome || mask.getLsbD (a.elementType.elementsCount * index + i)) =
        active (a.elementType.elementsCount * index + i) by rw [hactive]]
      have hvl' := hl'.before.vl_eq (by omega)
      cases hskip : active (a.elementType.elementsCount * index + i) with
      | false =>
        refine ⟨.next, l', rfl, ⟨?_, ?_⟩, hl'.vstart_eq, fun j hj hlt' hbody hact => ?_,
          hl'.others, hl'.rest⟩
        · rw [hl'.before.bodyEnd, ← Nat.add_assoc, Nat.min_eq_left (by omega),
            Nat.min_eq_left (by omega), plan_succ (by omega), hskip, if_neg nofun,
            append_nil]
        · rw [hl'.before.state, ← Nat.add_assoc, Nat.min_eq_left (by omega),
            Nat.min_eq_left (by omega), plan_succ (by omega), hskip, if_neg nofun,
            append_nil]
        · by_cases hij : j = i
          · rw [hij, hskip] at hact
            cases hact
          · exact hl'.loaded j hj (by omega) hbody hact
      | true =>
        obtain ⟨l'', hx, hfs⟩ :=
          forExit_loadField h hi (by omega) (by omega) hskip hl'.before
        exact ⟨.next, l'', hx, hl'.step (by omega) hi (by omega) hskip hvl' hfs⟩

/-! ### Agnostic elements -/

theorem getLsbD_fullMaskForRegister {e : ElementType} (hi : i < e.elementsCount) :
    (fullMaskForRegister e).getLsbD i = true := by
  revert i
  cases e <;> decide

theorem maskForRegisterInSequence_ne_full {e : ElementType} (hidx : index < 8)
    (hi : i < e.elementsCount) (h : mask.getLsbD (e.elementsCount * index + i) = false) :
    maskForRegisterInSequence e mask index ≠ fullMaskForRegister e := by
  intro heq
  have hbit := getLsbD_maskForRegisterInSequence e mask hidx hi
  rw [heq, getLsbD_fullMaskForRegister hi, h] at hbit
  cases hbit

theorem getLsbD_tailMask (index vl : Nat) {b : Nat} (hi : i < a.elementType.elementsCount)
    (hb : b < a.elementType.bits) : (tailMask a index vl).getLsbD (a.elementType.bits * i + b) =
      decide (vl ≤ a.elementType.elementsCount * index + i) := by
  unfold tailMask
  rw [getLsbD_makeBitmaskFromVl _ _ hi hb, decide_eq_decide, Nat.mul_comm index]
  split <;> omega

theorem getLsbD_inactiveMask (vta : TailProcessing) (mask : BitVec 128) (start vl : Nat) {b : Nat}
    (hidx : index < 8) (hi : i < a.elementType.elementsCount) (hb : b < a.elementType.bits) :
    (inactiveMask a vta (maskForRegisterInSequence a.elementType mask index) index start vl).getLsbD
        (a.elementType.bits * i + b) = (decide (start % a.elementType.elementsCount ≤ i) &&
        !mask.getLsbD (a.elementType.elementsCount * index + i) &&
        decide (vta = .kAgnostic ∨ a.elementType.elementsCount * index + i < vl)) := by
  have hmask := getLsbD_bitMaskToSimdMask a.elementType
    (maskForRegisterInSequence a.elementType mask index) hi hb
  rw [getLsbD_maskForRegisterInSequence _ mask hidx hi] at hmask
  have hnot := fun r => getLsbD_not_bit (e := a.elementType) hi hb r
  have hst := getLsbD_makeBitmaskFromVl a.elementType (start % a.elementType.elementsCount) hi hb
  have htail := getLsbD_tailMask (a := a) index vl hi hb
  have hzero : start = 0 → start % a.elementType.elementsCount ≤ i := by
    rintro rfl
    exact Nat.zero_le i
  unfold inactiveMask
  -- Without `vstart` the mask for it would have all lanes.
  have hinact : (if start ≠ 0 then
        makeBitmaskFromVl a.elementType (start % a.elementType.elementsCount) &&&
          ~~~bitMaskToSimdMask a.elementType (maskForRegisterInSequence a.elementType mask index)
      else ~~~bitMaskToSimdMask a.elementType
        (maskForRegisterInSequence a.elementType mask index)).getLsbD
          (a.elementType.bits * i + b) =
      (decide (start % a.elementType.elementsCount ≤ i) &&
        !mask.getLsbD (a.elementType.elementsCount * index + i)) := by
    split
    · rw [BitVec.getLsbD_and, hst, hnot, hmask]
    · rw [hnot, hmask, decide_eq_true (hzero (by omega)), Bool.true_and]
  cases vta with
  | kAgnostic =>
    rw [hinact, decide_eq_true (Or.inl rfl), Bool.and_true]
  | kUndisturbed =>
    dsimp only
    rw [Nat.mul_comm (index + 1), Nat.mul_succ]
    split
    · rw [BitVec.getLsbD_and, hinact, hnot, htail]
      simp [← decide_not]
    · rw [hinact, decide_eq_true (Or.inr (by omega)), Bool.and_true]

theorem lane_setAgnostic (vta : TailProcessing) (vma : Option InactiveProcessing)
    (mask : BitVec 128) (start vl : Nat) (r : BitVec 128) (hidx : index < 8)
    (hi : i < a.elementType.elementsCount) : let n := a.elementType.elementsCount * index + i
    lane a.elementType.bits (setAgnostic a vta vma
        (maskForRegisterInSequence a.elementType mask index) index start vl r) i =
      if (vta = .kAgnostic ∧ vl ≤ n) ∨ (vma = some .kAgnostic ∧ mask.getLsbD n = false ∧
            start % a.elementType.elementsCount ≤ i ∧ (vta = .kAgnostic ∨ n < vl)) then
        BitVec.allOnes a.elementType.bits
      else lane a.elementType.bits r i := by
  intro n
  have hinact := fun b hb => getLsbD_inactiveMask (a := a) vta mask start vl hidx hi (b := b) hb
  have htail := fun b hb => getLsbD_tailMask (a := a) index vl hi (b := b) hb
  -- The inactive lanes first.
  have hfst : lane a.elementType.bits
      (if vma = some .kAgnostic ∧ maskForRegisterInSequence a.elementType mask index ≠
          fullMaskForRegister a.elementType then
        r ||| inactiveMask a vta (maskForRegisterInSequence a.elementType mask index) index start vl
      else r) i =
      if vma = some .kAgnostic ∧ mask.getLsbD n = false ∧
          start % a.elementType.elementsCount ≤ i ∧ (vta = .kAgnostic ∨ n < vl) then
        BitVec.allOnes a.elementType.bits
      else lane a.elementType.bits r i := by
    by_cases hones : vma = some .kAgnostic ∧ mask.getLsbD n = false ∧
        start % a.elementType.elementsCount ≤ i ∧ (vta = .kAgnostic ∨ n < vl)
    · obtain ⟨hvma, hmask, hst, hend⟩ := hones
      rw [if_pos ⟨hvma, maskForRegisterInSequence_ne_full hidx hi hmask⟩,
        if_pos ⟨hvma, hmask, hst, hend⟩]
      refine lane_or_of_ones fun b hb => ?_
      rw [hinact b hb, decide_eq_true hst, decide_eq_true hend,
        show mask.getLsbD (a.elementType.elementsCount * index + i) = false from hmask]
      rfl
    · split
      · rename_i hvma
        refine lane_or_of_zeros fun b hb => ?_
        rw [hinact b hb]
        simp only [Bool.and_eq_false_iff, decide_eq_false_iff_not, Bool.not_eq_false']
        by_contra hcon
        push Not at hcon
        refine hones ⟨hvma.1, ?_, hcon.1.1, hcon.2⟩
        simpa using hcon.1.2
      · rfl
  unfold setAgnostic
  by_cases hcond : vta = .kAgnostic ∧ vl < (index + 1) * a.elementType.elementsCount
  · rw [if_pos hcond]
    by_cases hn : vl ≤ n
    · rw [if_pos (Or.inl ⟨hcond.1, hn⟩)]
      exact lane_or_of_ones fun b hb => by rw [htail b hb, decide_eq_true hn]
    · rw [lane_or_of_zeros fun b hb => by rw [htail b hb, decide_eq_false hn], hfst]
      simp [hn]
  · rw [if_neg hcond, hfst]
    have hn : ¬ (vta = .kAgnostic ∧ vl ≤ n) := by
      rintro ⟨hvta, hn⟩
      refine hcond ⟨hvta, ?_⟩
      rw [Nat.mul_comm, Nat.mul_succ]
      omega
    simp [hn]

/-! ### Registers -/

/-- What is known of an element of the destination. The body ends at `final`, which is before `vl`
    after a fault, and an element in between is only kept if it is inactive and undisturbed. -/
def LoadedElement {w : Nat} (vta : TailProcessing) (vma : Option InactiveProcessing)
    (active : Bool) (vstart vl final n : Nat) (old value new : BitVec w) : Prop :=
  if n < vstart then new = old
  else if n < final then new = bodyElement vma active value old
  else
    match vta with
    | .kAgnostic => new = BitVec.allOnes w
    | .kUndisturbed => (vl ≤ n ∨ vma = some .kUndisturbed ∧ active = false) → new = old

theorem register_inj {index' field field' : Nat} (h : index < a.numRegistersInGroup)
    (h' : index' < a.numRegistersInGroup)
    (heq : a.register index field = a.register index' field') :
    index = index' ∧ field = field' := by
  unfold SegmentAccess.register at heq
  have heq' : index + field * a.numRegistersInGroup = index' + field' * a.numRegistersInGroup := by
    omega
  have hmod := congrArg (· % a.numRegistersInGroup) heq'
  have hdiv := congrArg (· / a.numRegistersInGroup) heq'
  simp only [Nat.add_mul_mod_self_right, Nat.mod_eq_of_lt h, Nat.mod_eq_of_lt h'] at hmod
  simp only [Nat.add_mul_div_right _ _ (Nat.zero_lt_of_lt h), Nat.div_eq_of_lt h,
    Nat.div_eq_of_lt h', Nat.zero_add] at hdiv
  exact ⟨hmod, hdiv⟩

theorem forRange_fill (h : a.InRange vl) (hidx : index < a.numRegistersInGroup)
    (v result : Nat → BitVec 128) :
    ∃ result', forRange (fun field result => (getV v (a.register index field)).map
        (Function.update result field)) 0 a.segmentSize result = some result' ∧
      ∀ field < a.segmentSize, result' field = v (a.register index field) := by
  have hloop := @forRange_induct (Nat → BitVec 128)
    (fun field result => (getV v (a.register index field)).map (Function.update result field))
    (fun k result => ∀ field < k, result field = v (a.register index field)) 0 a.segmentSize result
    (fun field hfield => absurd hfield (Nat.not_lt_zero field)) ?_
  · rwa [Nat.zero_add] at hloop
  · intro k result _ hk hres
    rw [Nat.zero_add] at hk
    rw [getV_of_lt (register_lt h hidx hk), map_some]
    refine ⟨_, rfl, fun field hfield => ?_⟩
    by_cases hfk : field = k
    · rw [hfk, update_self]
    · rw [update_of_ne hfk, hres field (by omega)]

theorem forRange_writeBack (h : a.InRange vl) (hidx : index < a.numRegistersInGroup)
    (result : Nat → BitVec 128) (t : State) :
    ∃ v', forRange (fun field s => s.setV (a.register index field) (result field))
        0 a.segmentSize t = some { t with v := v' } ∧
      (∀ field < a.segmentSize, v' (a.register index field) = result field) ∧
      ∀ r, (∀ field < a.segmentSize, r ≠ a.register index field) → v' r = t.v r := by
  have hloop := @forRange_induct State
    (fun field s => s.setV (a.register index field) (result field))
    (fun k t' => t' = { t with v := t'.v } ∧
      (∀ field < k, t'.v (a.register index field) = result field) ∧
      ∀ r, (∀ field < k, r ≠ a.register index field) → t'.v r = t.v r) 0 a.segmentSize t
    ⟨rfl, fun field hfield => absurd hfield (Nat.not_lt_zero field), fun _ _ => rfl⟩ ?_
  · obtain ⟨t', hrun, heq, hdone, hoth⟩ := hloop
    rw [Nat.zero_add] at hdone hoth
    refine ⟨t'.v, ?_, hdone, hoth⟩
    rw [hrun]
    exact congrArg some heq
  · rintro k t' - hk ⟨heq, hdone, hoth⟩
    rw [Nat.zero_add] at hk
    refine ⟨_, State.setV_of_lt (register_lt h hidx hk) _, ?_, fun field hfield => ?_,
      fun r hr => ?_⟩
    · rw [heq]
    · dsimp only
      by_cases hfk : field = k
      · rw [hfk, update_self]
      · rw [update_of_ne fun heq' => hfk (register_inj hidx hidx heq').2, hdone field (by omega)]
    · dsimp only
      rw [update_of_ne (hr k (by omega)), hoth r fun field hfield =>
        hr field (by omega)]

theorem ElementsLoaded.loadedElement (hrng : a.InRange vl) {l' : LoadLocals}
    (hidx : index < a.numRegistersInGroup) (hvs : vstart ≤ vl)
    (h : ElementsLoaded faults a opcode (fun i => !vma.isSome || mask.getLsbD i) vstart vl s v
      index (l.vstart % a.elementType.elementsCount) l a.elementType.elementsCount l')
    (hle : vstart ≤ a.elementType.elementsCount * index + l.vstart % a.elementType.elementsCount)
    (hfst : l.vstart = 0 ∨
      a.elementType.elementsCount * index + l.vstart % a.elementType.elementsCount = vstart)
    (hvl : vta = .kUndisturbed → l.vl = vl)
    (hfil : fillsResult a vta vma (maskForRegisterInSequence a.elementType mask index) index
      l.vstart l.vl → ∀ field < a.segmentSize, l.result field = s.v (a.register index field))
    {field : Nat} (hfield : field < a.segmentSize) (hi : i < a.elementType.elementsCount) :
    let n := a.elementType.elementsCount * index + i
    LoadedElement vta vma (mask.getLsbD n) vstart vl
      (vlAfter faults a vl (a.plan (fun i => !vma.isSome || mask.getLsbD i) vstart vl)) n
      (lane a.elementType.bits (s.v (a.register index field)) i) (a.loaded s.mem (n, field))
      (lane a.elementType.bits (setAgnostic a vta vma
        (maskForRegisterInSequence a.elementType mask index) index l'.vstart l'.vl
        (l'.result field)) i) := by
  intro n
  have hidx8 : index < 8 := Nat.lt_of_lt_of_le hidx hrng.size
  have hzero : l.vstart = 0 → l.vstart % a.elementType.elementsCount = 0 := by
    intro h0
    rw [h0, Nat.zero_mod]
  have hend : n < l'.vl ↔ n < vlAfter faults a vl
      (a.plan (fun i => !vma.isSome || mask.getLsbD i) vstart vl) := by
    rw [h.before.bodyEnd]
    exact lt_vlAfter_iff (by omega)
  have hlow : vstart ≤ l'.vl := by
    rw [h.before.bodyEnd]
    exact vstart_le_vlAfter hvs _
  rw [lane_setAgnostic vta vma mask _ _ _ hidx8 hi, h.vstart_eq]
  unfold LoadedElement
  -- A lane that is not written is the register's if `result[]` was filled.
  have hold : fillsResult a vta vma (maskForRegisterInSequence a.elementType mask index) index
      l.vstart l.vl → ¬ (l.vstart % a.elementType.elementsCount ≤ i ∧ n < vl ∧
        (!vma.isSome || mask.getLsbD n) = true) →
      lane a.elementType.bits (l'.result field) i =
        lane a.elementType.bits (s.v (a.register index field)) i := by
    intro hfill hnot
    rw [h.others field i hi hnot, hfil hfill field hfield]
  by_cases hprest : n < vstart
  · -- Only in the first round, which starts after these lanes.
    have hne : l.vstart ≠ 0 := fun h0 => by
      have := hzero h0
      omega
    rw [if_pos hprest, if_neg (by omega), hold (Or.inl hne) (by omega)]
  · have hst : l.vstart % a.elementType.elementsCount ≤ i := by
      rcases hfst with h0 | heq
      · rw [hzero h0]
        exact Nat.zero_le i
      · omega
    rw [if_neg hprest]
    by_cases hbody : n < l'.vl
    · have htail : ¬ (vta = .kAgnostic ∧ l'.vl ≤ n) := fun htail =>
        absurd hbody (Nat.not_lt.2 htail.2)
      rw [if_pos (hend.1 hbody)]
      cases hvma : vma with
      | none =>
        rw [if_neg (not_or.2 ⟨htail, nofun⟩)]
        exact h.loaded i hst hi hbody (by rw [hvma]; rfl) field hfield
      | some policy =>
        cases hmask : mask.getLsbD n with
        | true =>
          rw [if_neg (not_or.2 ⟨htail, nofun⟩),
            h.loaded i hst hi hbody (Bool.or_eq_true_iff.2 (Or.inr hmask)) field hfield]
          cases policy <;> rfl
        | false =>
          cases policy with
          | kAgnostic =>
            rw [if_pos (Or.inr ⟨rfl, rfl, hst, Or.inr hbody⟩)]
            rfl
          | kUndisturbed =>
            rw [if_neg (not_or.2 ⟨htail, nofun⟩)]
            refine hold (Or.inr (Or.inr ⟨hvma, ?_⟩)) (by simp [hvma, hmask])
            exact maskForRegisterInSequence_ne_full hidx8 hi hmask
    · rw [if_neg (mt hend.2 hbody)]
      cases vta with
      | kAgnostic => rw [if_pos (Or.inl ⟨rfl, by omega⟩)]
      | kUndisturbed =>
        intro hkept
        rw [if_neg (not_or.2 ⟨nofun, fun hbody' => hbody (hbody'.2.2.2.resolve_left nofun)⟩)]
        rcases hkept with hn | ⟨hvma, hmask⟩
        · refine hold (Or.inr (Or.inl ⟨?_, rfl⟩)) (by omega)
          rw [hvl rfl, Nat.mul_comm, Nat.mul_succ]
          omega
        · refine hold (Or.inr (Or.inr ⟨hvma, ?_⟩)) (by simp [hvma, hmask])
          exact maskForRegisterInSequence_ne_full hidx8 hi hmask

/-- The register is in `result[]` before its elements are loaded. -/
def ReadFirst (a : SegmentAccess) (vma : Option InactiveProcessing) (mask : BitVec 128)
    (vl index : Nat) : Prop :=
  vl < (index + 1) * a.elementType.elementsCount ∨ (vma = some .kUndisturbed ∧
    maskForRegisterInSequence a.elementType mask index ≠ fullMaskForRegister a.elementType)

/-- An element that a load with its first fault at `p` leaves as it is, without a tail that is
    agnostic. -/
def KeptByFault (a : SegmentAccess) (vma : Option InactiveProcessing) (mask : BitVec 128)
    (vl : Nat) (p : Nat × Nat) (index i field : Nat) : Prop :=
  p.1 < a.elementType.elementsCount * index ∨
    ReadFirst a vma mask vl index ∧ NotReached a p index i field

theorem ElementsLoaded.kept {l' : LoadLocals} {p : Nat × Nat} (hidx : index < 8)
    (h : ElementsLoaded faults a opcode (fun i => !vma.isSome || mask.getLsbD i) vstart vl s v
      index (l.vstart % a.elementType.elementsCount) l a.elementType.elementsCount l')
    (hvl : l.vl = vl)
    (hfil : fillsResult a .kUndisturbed vma (maskForRegisterInSequence a.elementType mask index)
      index l.vstart l.vl → ∀ field < a.segmentSize, l.result field = s.v (a.register index field))
    (hp : (a.plan (fun i => !vma.isSome || mask.getLsbD i) vstart vl).find? (a.fails faults) =
      some p)
    (hread : ReadFirst a vma mask vl index) {field : Nat} (hfield : field < a.segmentSize)
    (hi : i < a.elementType.elementsCount) (hafter : NotReached a p index i field) :
    lane a.elementType.bits (setAgnostic a .kUndisturbed vma
        (maskForRegisterInSequence a.elementType mask index) index l'.vstart l'.vl
        (l'.result field)) i =
      lane a.elementType.bits (s.v (a.register index field)) i := by
  have hend : ¬ a.elementType.elementsCount * index + i < l'.vl := by
    rw [h.before.bodyEnd, lt_vlAfter_iff (by omega), vlAfter, hp]
    unfold NotReached at hafter
    dsimp only
    omega
  -- No element is set to ones: the body ends before this one.
  rw [lane_setAgnostic _ vma mask _ _ _ hidx hi,
    if_neg (not_or.2 ⟨nofun, fun hones => hend (hones.2.2.2.resolve_left nofun)⟩),
    h.rest p hp field i hi hafter, hfil ?_ field hfield]
  rw [hvl]
  exact Or.inr (hread.imp_left fun hlt => ⟨hlt, rfl⟩)

/-- The registers before `k` of all groups are written. -/
structure RegistersLoaded (faults : BitVec 64 → Nat → Bool) (a : SegmentAccess)
    (vta : TailProcessing) (vma : Option InactiveProcessing) (mask : BitVec 128) (vstart vl : Nat)
    (s : State) (k : Nat) (v : Nat → BitVec 128) : Prop where
  done : ∀ index < k, index < a.numRegistersInGroup → ∀ field < a.segmentSize,
    ∀ i < a.elementType.elementsCount,
    let n := a.elementType.elementsCount * index + i
    LoadedElement vta vma (mask.getLsbD n) vstart vl
      (vlAfter faults a vl (a.plan (fun i => !vma.isSome || mask.getLsbD i) vstart vl)) n
      (lane a.elementType.bits (s.v (a.register index field)) i) (a.loaded s.mem (n, field))
      (lane a.elementType.bits (v (a.register index field)) i)
  rest : ∀ index, k ≤ index → index < a.numRegistersInGroup → ∀ field < a.segmentSize,
    v (a.register index field) = s.v (a.register index field)
  kept : vta = .kUndisturbed → ∀ p, (a.plan (fun i => !vma.isSome || mask.getLsbD i) vstart
      vl).find? (a.fails faults) = some p → ∀ index < k, index < a.numRegistersInGroup →
    ∀ field < a.segmentSize, ∀ i < a.elementType.elementsCount,
    KeptByFault a vma mask vl p index i field →
    lane a.elementType.bits (v (a.register index field)) i =
      lane a.elementType.bits (s.v (a.register index field)) i
  others : ∀ r, r < a.group ∨ a.group + a.numRegistersInGroup * a.segmentSize ≤ r → v r = s.v r

theorem RegistersLoaded.first (vta : TailProcessing) (vma : Option InactiveProcessing)
    (mask : BitVec 128) (vstart vl : Nat) (s : State) :
    RegistersLoaded faults a vta vma mask vstart vl s (vstart / a.elementType.elementsCount)
      s.v where
  done index hidx _ field _ i hi := by
    have hmul := Nat.mul_le_mul_left a.elementType.elementsCount (Nat.succ_le_of_lt hidx)
    have hdiv := Nat.mul_div_le vstart a.elementType.elementsCount
    rw [Nat.mul_succ] at hmul
    unfold LoadedElement
    rw [if_pos (by omega)]
  rest _ _ _ _ _ := rfl
  kept _ _ _ _ _ _ _ _ _ _ _ := rfl
  others _ _ := rfl

theorem RegistersLoaded.of_vlAfter_le
    (h : RegistersLoaded faults a .kUndisturbed vma mask vstart vl s k v) (hst : vstart ≤ vl)
    (hk : vlAfter faults a vl (a.plan (fun i => !vma.isSome || mask.getLsbD i) vstart vl) ≤
      a.elementType.elementsCount * k) :
    RegistersLoaded faults a .kUndisturbed vma mask vstart vl s a.numRegistersInGroup v where
  done index _ hidx field hfield i hi := by
    by_cases hlt : index < k
    · exact h.done index hlt hidx field hfield i hi
    · have hle := @vstart_le_vlAfter faults a (fun i => !vma.isSome || mask.getLsbD i) _ _ hst vl
      have hmul := Nat.mul_le_mul_left a.elementType.elementsCount (Nat.le_of_not_lt hlt)
      unfold LoadedElement
      rw [if_neg (by omega), if_neg (by omega), h.rest index (by omega) hidx field hfield]
      exact fun _ => rfl
  rest index hle hlt := absurd hlt (Nat.not_lt.2 hle)
  kept hvta p hp index _ hidx field hfield i hi hkept := by
    by_cases hlt : index < k
    · exact h.kept hvta p hp index hlt hidx field hfield i hi hkept
    · rw [h.rest index (by omega) hidx field hfield]
  others := h.others

theorem RegistersLoaded.step {v' result : Nat → BitVec 128}
    (h : RegistersLoaded faults a vta vma mask vstart vl s k v) (hk : k < a.numRegistersInGroup)
    (hres : ∀ field < a.segmentSize, ∀ i < a.elementType.elementsCount,
      let n := a.elementType.elementsCount * k + i
      LoadedElement vta vma (mask.getLsbD n) vstart vl
        (vlAfter faults a vl (a.plan (fun i => !vma.isSome || mask.getLsbD i) vstart vl)) n
        (lane a.elementType.bits (s.v (a.register k field)) i) (a.loaded s.mem (n, field))
        (lane a.elementType.bits (result field) i))
    (hkept : vta = .kUndisturbed → ∀ p, (a.plan (fun i => !vma.isSome || mask.getLsbD i) vstart
        vl).find? (a.fails faults) = some p →
      ∀ field < a.segmentSize, ∀ i < a.elementType.elementsCount,
      KeptByFault a vma mask vl p k i field →
      lane a.elementType.bits (result field) i =
        lane a.elementType.bits (s.v (a.register k field)) i)
    (hwrit : ∀ field < a.segmentSize, v' (a.register k field) = result field)
    (hoth : ∀ r, (∀ field < a.segmentSize, r ≠ a.register k field) → v' r = v r) :
    RegistersLoaded faults a vta vma mask vstart vl s (k + 1) v' where
  done index hlt hidx field hfield i hi := by
    by_cases heq : index = k
    · subst heq
      rw [hwrit field hfield]
      exact hres field hfield i hi
    · rw [hoth _ fun f _ heq' => heq (register_inj hidx hk heq').1]
      exact h.done index (by omega) hidx field hfield i hi
  kept hvta p hp index hlt hidx field hfield i hi helem := by
    by_cases heq : index = k
    · subst heq
      rw [hwrit field hfield]
      exact hkept hvta p hp field hfield i hi helem
    · rw [hoth _ fun f _ heq' => heq (register_inj hidx hk heq').1]
      exact h.kept hvta p hp index (by omega) hidx field hfield i hi helem
  rest index hle hidx field hfield := by
    rw [hoth _ fun f _ heq => absurd (register_inj hidx hk heq).1 (by omega)]
    exact h.rest index (by omega) hidx field hfield
  others r hr := by
    rw [hoth r fun f hf heq => ?_, h.others r hr]
    have hmul := Nat.mul_le_mul_left a.numRegistersInGroup (Nat.succ_le_of_lt hf)
    rw [Nat.mul_succ, Nat.mul_comm _ f] at hmul
    unfold SegmentAccess.register at heq
    omega

/-- What holds before a round. Only the first one starts within a register. -/
structure RoundInvariant (faults : BitVec 64 → Nat → Bool) (a : SegmentAccess)
    (opcode : VLUmOpOpcode) (vta : TailProcessing) (vma : Option InactiveProcessing)
    (mask : BitVec 128) (vstart vl : Nat) (s : State) (index : Nat) (l : LoadLocals) : Prop where
  start_le : vstart ≤
    a.elementType.elementsCount * index + l.vstart % a.elementType.elementsCount
  first : l.vstart = 0 ∨
    a.elementType.elementsCount * index + l.vstart % a.elementType.elementsCount = vstart
  before : LoadedBefore faults a opcode (fun i => !vma.isSome || mask.getLsbD i) vstart vl s
    l.state.v (a.elementType.elementsCount * index + l.vstart % a.elementType.elementsCount) l
  registers : RegistersLoaded faults a vta vma mask vstart vl s index l.state.v

namespace RoundInvariant

variable {vta : TailProcessing} {vma : Option InactiveProcessing} {mask : BitVec 128} {index : Nat}

theorem vl_eq (h : RoundInvariant faults a opcode vta vma mask vstart vl s index l)
    (hlt : a.elementType.elementsCount * index < l.vl) : l.vl = vl := by
  rcases h.first with h0 | heq
  · refine h.before.vl_eq ?_
    rwa [h0, Nat.zero_mod, Nat.add_zero]
  · rw [h.before.bodyEnd, heq, plan_of_le (Nat.min_le_left ..)]
    rfl

/-- A round is only made when no access before it has faulted. -/
theorem le_of_find? (h : RoundInvariant faults a opcode vta vma mask vstart vl s index l)
    (hlt : a.elementType.elementsCount * index < l.vl) {p : Nat × Nat}
    (hp : (a.plan (fun i => !vma.isSome || mask.getLsbD i) vstart vl).find? (a.fails faults) =
      some p) : a.elementType.elementsCount * index ≤ p.1 := by
  have hvl := h.vl_eq hlt
  rcases h.first with h0 | heq
  · have hnone := h.before.find?_eq_none (by rwa [h0, Nat.zero_mod, Nat.add_zero])
    rw [h0, Nat.zero_mod, Nat.add_zero, Nat.min_eq_left (by omega)] at hnone
    exact le_of_find?_eq_none (by omega) hnone hp
  · have hle := (mem_of_find? hp).1
    omega

theorem step (h : RoundInvariant faults a opcode vta vma mask vstart vl s index l)
    (hrng : a.InRange vl) (hidx : index < a.numRegistersInGroup) (hst : vstart ≤ vl)
    (hnext : ¬ (vta = .kUndisturbed ∧ l.vl ≤ index * a.elementType.elementsCount)) :
    ∃ l', loadRegisters faults a opcode vta vma mask index l = some (.next, l') ∧
      RoundInvariant faults a opcode vta vma mask vstart vl s (index + 1) l' := by
  have hmod := Nat.mod_lt l.vstart a.elementType.elementsCount_pos
  unfold loadRegisters
  dsimp only
  rw [if_neg hnext]
  -- What `result[]` has when the loop over the elements starts.
  have hfill : ∃ result, (if fillsResult a vta vma
        (maskForRegisterInSequence a.elementType mask index) index l.vstart l.vl then
        forRange (fun field result => (getV l.state.v (a.register index field)).map
          (Function.update result field)) 0 a.segmentSize l.result
      else some l.result) = some result ∧
      (fillsResult a vta vma (maskForRegisterInSequence a.elementType mask index) index
        l.vstart l.vl → ∀ field < a.segmentSize, result field = s.v (a.register index field)) := by
    split
    · obtain ⟨result, hres, heq⟩ := forRange_fill hrng hidx l.state.v l.result
      refine ⟨result, hres, fun _ field hfield => ?_⟩
      rw [heq field hfield, h.registers.rest index (Nat.le_refl index) hidx field hfield]
    · exact ⟨l.result, rfl, fun hfill => absurd hfill ‹_›⟩
  obtain ⟨result, hres, hfil⟩ := hfill
  rw [hres, bind_some]
  obtain ⟨l', hloop, helem⟩ := forExit_loadElement (l := { l with result := result }) hrng
    hidx rfl h.start_le hmod.le ⟨h.before.bodyEnd, h.before.state⟩
  rw [hloop, bind_some]
  obtain ⟨v', hwrite, hwrit, hoth⟩ := forRange_writeBack hrng hidx
    (fun field => setAgnostic a vta vma (maskForRegisterInSequence a.elementType mask index) index
      l'.vstart l'.vl (l'.result field)) l'.state
  rw [hwrite, map_some]
  have hv : l'.state.v = l.state.v := by rw [helem.before.state, loadsAfter_v]
  rw [hv] at hoth
  refine ⟨_, rfl, ?_, Or.inl rfl, ⟨?_, ?_⟩, ?_⟩
  · have hle := h.start_le
    rw [Nat.mul_succ]
    omega
  · exact helem.before.bodyEnd
  · rw [Nat.zero_mod, Nat.add_zero, Nat.mul_succ]
    dsimp only
    rw [helem.before.state, loadsAfter_with_v]
  · have hrun : vta = .kUndisturbed → a.elementType.elementsCount * index < l.vl := by
      intro hvta
      rw [Nat.mul_comm]
      exact Nat.lt_of_not_le fun hle => hnext ⟨hvta, hle⟩
    refine h.registers.step hidx (fun field hfield i hi => ?_)
      (fun hvta p hp field hfield i hi hkept => ?_) hwrit hoth
    · exact helem.loadedElement (l := { l with result := result }) hrng hidx hst
        h.start_le h.first (fun hvta => h.vl_eq (hrun hvta)) hfil hfield hi
    · subst hvta
      have hle := h.le_of_find? (hrun rfl) hp
      obtain ⟨hread, hafter⟩ := hkept.resolve_left (Nat.not_lt.2 hle)
      exact helem.kept (l := { l with result := result }) (Nat.lt_of_lt_of_le hidx hrng.size)
        (h.vl_eq (hrun rfl)) hfil hp hread hfield hi hafter

end RoundInvariant

/-! ### The whole load -/

def loadPlan (a : SegmentAccess) (opcode : VLUmOpOpcode) (vma : Option InactiveProcessing)
    (s : State) : List (Nat × Nat) :=
  a.plan (fun i => !vma.isSome || (s.v 0).getLsbD i) s.vstart.toNat (loadVl opcode s)

/-- What a load does when there are elements in the body. -/
structure LoadOutcome (faults : BitVec 64 → Nat → Bool) (a : SegmentAccess)
    (opcode : VLUmOpOpcode) (vta : TailProcessing) (vma : Option InactiveProcessing)
    (s s' : State) : Prop where
  state : s' = loadsAfter faults a opcode (loadPlan a opcode vma s) s'.v { s with vstart := 0 }
  elements : ∀ field < a.segmentSize,
    ∀ n < a.elementType.elementsCount * a.numRegistersInGroup,
    LoadedElement vta vma ((s.v 0).getLsbD n) s.vstart.toNat (loadVl opcode s)
      (vlAfter faults a (loadVl opcode s) (loadPlan a opcode vma s)) n (a.value s.v (n, field))
      (a.loaded s.mem (n, field)) (a.value s'.v (n, field))
  others : ∀ r, r < a.group ∨ a.group + a.numRegistersInGroup * a.segmentSize ≤ r → s'.v r = s.v r
  kept : vta = .kUndisturbed → ∀ p, (loadPlan a opcode vma s).find? (a.fails faults) = some p →
    ∀ index < a.numRegistersInGroup, ∀ field < a.segmentSize, ∀ i < a.elementType.elementsCount,
    KeptByFault a vma (s.v 0) (loadVl opcode s) p index i field →
    lane a.elementType.bits (s'.v (a.register index field)) i =
      lane a.elementType.bits (s.v (a.register index field)) i

theorem value_eq_lane (v : Nat → BitVec 128) (n field : Nat) : a.value v (n, field) =
      lane a.elementType.bits (v (a.register (n / a.elementType.elementsCount) field))
        (n % a.elementType.elementsCount) := by
  unfold SegmentAccess.value element SegmentAccess.register
  rw [Nat.add_right_comm]

theorem forExit_loadRegisters (hrng : a.InRange vl) (hst : vstart < vl)
    (result : Nat → BitVec 128) : ∃ l', forExit (loadRegisters faults a opcode vta vma mask)
        (vstart / a.elementType.elementsCount)
        (a.numRegistersInGroup - vstart / a.elementType.elementsCount) ⟨vstart, vl, result, s⟩ =
          some (.next, l') ∧ l'.state = loadsAfter faults a opcode
        (a.plan (fun i => !vma.isSome || mask.getLsbD i) vstart vl) l'.state.v s ∧
      RegistersLoaded faults a vta vma mask vstart vl s a.numRegistersInGroup l'.state.v := by
  have hpos := a.elementType.elementsCount_pos
  have helem := hrng.elements
  have hfst : vstart / a.elementType.elementsCount < a.numRegistersInGroup :=
    (Nat.div_lt_iff_lt_mul hpos).2 (by rw [Nat.mul_comm]; omega)
  have hloop := @forExit_induct LoadLocals (loadRegisters faults a opcode vta vma mask)
    (RoundInvariant faults a opcode vta vma mask vstart vl s)
    (fun l => l.state = loadsAfter faults a opcode
        (a.plan (fun i => !vma.isSome || mask.getLsbD i) vstart vl) l.state.v s ∧
      RegistersLoaded faults a vta vma mask vstart vl s a.numRegistersInGroup l.state.v)
    (fun _ => False) (vstart / a.elementType.elementsCount)
    (a.numRegistersInGroup - vstart / a.elementType.elementsCount) ⟨vstart, vl, result, s⟩ ?_ ?_
  · obtain ⟨x, l', hx, hpost⟩ := hloop
    rw [Nat.add_sub_cancel' hfst.le] at hpost
    rcases hpost with ⟨rfl, hpost | hpost⟩ | ⟨rfl, hpost⟩
    · refine ⟨l', hx, ?_, hpost.registers⟩
      have hstate := hpost.before.state
      rwa [Nat.min_eq_right (by omega)] at hstate
    · exact ⟨l', hx, hpost⟩
    · exact hpost.elim
  · have hmod := Nat.div_add_mod vstart a.elementType.elementsCount
    refine ⟨hmod.ge, Or.inr hmod, ?_, RegistersLoaded.first ..⟩
    rw [hmod]
    refine ⟨?_, ?_⟩
    · rw [plan_of_le (Nat.min_le_left ..)]
      rfl
    · rw [plan_of_le (Nat.min_le_left ..)]
      rfl
  · intro index l hle hlt hl
    by_cases hnext : vta = .kUndisturbed ∧ l.vl ≤ index * a.elementType.elementsCount
    · -- Nothing of the body is left, and the rest is undisturbed.
      refine ⟨.brk, l, ?_, ?_⟩
      · exact if_pos hnext
      · obtain ⟨rfl, hvl⟩ := hnext
        rw [Nat.mul_comm] at hvl
        have hall := hl.before.of_le (j := vl + (a.elementType.elementsCount * index +
          l.vstart % a.elementType.elementsCount)) (by omega) (by omega)
        have hstate := hall.state
        have hend := hall.bodyEnd
        rw [Nat.min_eq_right (by omega)] at hstate hend
        refine ⟨hstate, hl.registers.of_vlAfter_le hst.le ?_⟩
        rwa [← hend]
    · obtain ⟨l', hl', hinv⟩ := hl.step hrng (by omega) hst.le hnext
      exact ⟨.next, l', hl', hinv⟩

theorem opVectorLoad_outcome (h : a.InRange (loadVl opcode s))
    (hrais : s.exceptionRaised = false) (hst : s.vstart.toNat < loadVl opcode s)
    (uninitialized : Nat → BitVec 128) :
    ∃ s', opVectorLoad faults a opcode vta vma uninitialized s = some s' ∧
      LoadOutcome faults a opcode vta vma s s' := by
  have hmin : (if vta = .kAgnostic then min s.vstart.toNat (loadVl opcode s)
      else s.vstart.toNat) = s.vstart.toNat := by
    split
    · exact Nat.min_eq_left hst.le
    · rfl
  unfold opVectorLoad
  rw [h.aligned, Bool.not_true, if_neg nofun, if_neg (Nat.not_lt.2 h.registers)]
  dsimp only
  rw [if_neg (by omega), hmin, State.setVstart_zero hrais]
  obtain ⟨l', hrun, hstate, hregs⟩ :=
    forExit_loadRegisters (s := { s with vstart := 0 }) h hst uninitialized
  rw [hrun, map_some]
  refine ⟨l'.state, rfl, hstate, fun field hfield n hn => ?_, hregs.others,
    fun hvta p hp index hidx => hregs.kept hvta p hp index hidx hidx⟩
  have hpos := a.elementType.elementsCount_pos
  have hdone := hregs.done (n / a.elementType.elementsCount)
    ((Nat.div_lt_iff_lt_mul hpos).2 (by rwa [Nat.mul_comm]))
    ((Nat.div_lt_iff_lt_mul hpos).2 (by rwa [Nat.mul_comm])) field hfield
    (n % a.elementType.elementsCount) (Nat.mod_lt n hpos)
  rw [Nat.div_add_mod] at hdone
  rw [value_eq_lane, value_eq_lane]
  exact hdone

end Berberis.Riscv64.Vector
