import Berberis.Backend.RegAlloc

/-!
# The Invariant of the Register Allocator

Assignments are never revisited, so what keeps two lifetimes on one hard
register apart is the order of the scan: a lifetime that has left the list of
its register ends before the lifetime being allocated, and everything still
to be allocated begins after it. `Inv` says this, with the position of the
scan as a parameter; a step raises the position to the begin of the lifetime
it allocates. What rests on the order of the scan is said for runs that keep
it only, so that the rest is there for all runs.
-/

namespace Berberis.RegAlloc

open List AllocState

/-- No occupied interval of one lifetime overlaps one of the other. -/
def Apart (l m : VRegLifetime) : Prop :=
  ∀ a ∈ l.occupied, ∀ b ∈ m.occupied, ¬ Overlap a b

/-- The invariant of the allocator at a position of the scan. -/
structure Inv (ordered : Prop) (st : AllocState) (cur : Int) : Prop where
  nodup : (st.visited ++ st.pending).Nodup
  bounded : ∀ x ∈ st.visited ++ st.pending, x < st.numNodes
  active_nodup : ∀ reg, (st.allocations reg).lifetimes.Nodup
  active : ∀ reg, ∀ x ∈ (st.allocations reg).lifetimes,
    x ∈ st.visited ∧ (st.heap x).hardReg = reg ∧ (st.heap x).Ok
  pending_ok : ∀ x ∈ st.pending, (st.heap x).Ok ∧ (ordered → cur ≤ (st.heap x).begin_)
  sorted : ordered → (st.pending.map fun x => (st.heap x).begin_).Pairwise (· ≤ ·)
  apart : ordered → ∀ x ∈ st.visited, ∀ y ∈ st.visited, x ≠ y →
    (st.heap x).hardReg = (st.heap y).hardReg → Apart (st.heap x) (st.heap y)
  expired : ordered → ∀ x ∈ st.visited, x ∉ (st.allocations (st.heap x).hardReg).lifetimes →
    ∀ a ∈ (st.heap x).occupied, a.2 ≤ cur

variable {ordered : Prop} (l m : VRegLifetime) (st : AllocState)

theorem apart_symm (h : Apart l m) : Apart m l := by
  intro a ha b hb hover
  exact h b hb a ha ((overlap_comm a b).mp hover)

theorem apart_of_testInterference (hl : l.Ok) (hm : m.Ok)
    (h : l.testInterference m = false) : Apart l m := by
  intro a ha b hb hover
  rcases occupied_within l hl.ranges a ha with ⟨r, hr, har⟩
  rcases occupied_within m hm.ranges b hb with ⟨s, hs, hbs⟩
  have hdisj := testRanges_eq_false _ _ hl.ranges hm.ranges h r hr s hs
  unfold Overlap at hover
  unfold Within at har hbs
  omega

theorem apart_of_expired (hm : m.Ok) (h : ∀ a ∈ l.occupied, a.2 ≤ m.begin_) : Apart l m := by
  intro a ha b hb hover
  rcases occupied_within m hm.ranges b hb with ⟨s, hs, hbs⟩
  have h1 := h a ha
  have h2 := begin_le m hm s hs
  unfold Overlap at hover
  unfold Within at hbs
  omega

theorem occupied_le_end (l : VRegLifetime) (h : l.Ok) (a : Int × Int) (ha : a ∈ l.occupied) :
    a.2 ≤ l.end_ := by
  rcases occupied_within l h.ranges a ha with ⟨r, hr, har⟩
  exact Int.le_trans har.2 (le_end l h r hr)

theorem testInterference_of_end_le (hl : l.Ok) (hm : m.Ok)
    (h : l.end_ ≤ m.begin_) : l.testInterference m = false := by
  refine Bool.eq_false_iff.mpr fun hint => ?_
  rcases exists_of_testRanges _ _ hint with ⟨i, hi, j, hj, hover⟩
  have h1 := le_end l hl i hi
  have h2 := begin_le m hm j hj
  omega

/-! ### States that differ in what the invariant does not look at -/

/-- Two lifetimes differ in weight and move hint at most. -/
structure SameShape (l m : VRegLifetime) : Prop where
  rangeList : l.rangeList = m.rangeList
  regClass : l.regClass = m.regClass
  hardReg : l.hardReg = m.hardReg
  spillSlot : l.spillSlot = m.spillSlot

theorem SameShape.begin_ {l m : VRegLifetime} (h : SameShape l m) : l.begin_ = m.begin_ := by
  rw [VRegLifetime.begin_, h.rangeList, VRegLifetime.begin_]

theorem SameShape.occupied {l m : VRegLifetime} (h : SameShape l m) : l.occupied = m.occupied := by
  rw [VRegLifetime.occupied, VRegLifetime.uses, h.rangeList, h.spillSlot, VRegLifetime.occupied,
    VRegLifetime.uses]

theorem SameShape.ok {l m : VRegLifetime} (h : SameShape l m) (hm : m.Ok) : l.Ok :=
  ⟨h.rangeList ▸ hm.nonempty, h.rangeList ▸ hm.ranges⟩

theorem SameShape.apart {l l' m m' : VRegLifetime} (hl : SameShape l l') (hm : SameShape m m')
    (h : Apart l' m') : Apart l m := by
  unfold Apart
  rw [hl.occupied, hm.occupied]
  exact h

theorem inv_heap (cur : Int) (heap : Nat → VRegLifetime) (hi : Inv ordered st cur)
    (h : ∀ n, SameShape (heap n) (st.heap n)) : Inv ordered { st with heap := heap } cur := by
  refine ⟨hi.nodup, hi.bounded, hi.active_nodup, fun reg x hx => ?_, fun x hx => ?_, fun ho => ?_,
    fun ho x hx y hy hne hreg => ?_, fun ho x hx hnot a ha => ?_⟩
  · rcases hi.active reg x hx with ⟨hv, hreg, hok⟩
    exact ⟨hv, (h x).hardReg.trans hreg, (h x).ok hok⟩
  · rw [(h x).begin_]
    exact ⟨(h x).ok (hi.pending_ok x hx).1, (hi.pending_ok x hx).2⟩
  · have hkey := funext fun x => (h x).begin_
    rw [hkey]
    exact hi.sorted ho
  · refine (h x).apart (h y) (hi.apart ho x hx y hy hne ?_)
    rw [← (h x).hardReg, ← (h y).hardReg]
    exact hreg
  · rw [(h x).hardReg] at hnot
    rw [(h x).occupied] at ha
    exact hi.expired ho x hx hnot a ha

theorem inv_congr {st st' : AllocState} {cur : Int} (hi : Inv ordered st cur)
    (hheap : st'.heap = st.heap) (hnum : st'.numNodes = st.numNodes)
    (hvis : st'.visited = st.visited) (hpend : st'.pending = st.pending)
    (hall : st'.allocations = st.allocations) : Inv ordered st' cur := by
  rcases st' with ⟨_, _, _, _, _, slots⟩
  dsimp only at hheap hnum hvis hpend hall
  rw [hheap, hnum, hvis, hpend, hall]
  exact ⟨hi.nodup, hi.bounded, hi.active_nodup, hi.active, hi.pending_ok, hi.sorted, hi.apart,
    hi.expired⟩

theorem inv_cur (cur cur' : Int) (hi : Inv ordered st cur) (hle : ordered → cur ≤ cur')
    (h : ordered → ∀ x ∈ st.pending, cur' ≤ (st.heap x).begin_) : Inv ordered st cur' :=
  { hi with
    pending_ok := fun x hx => ⟨(hi.pending_ok x hx).1, fun ho => h ho x hx⟩
    expired := fun ho x hx hnot a ha => Int.le_trans (hi.expired ho x hx hnot a ha) (hle ho) }

theorem inv_drop (cur : Int) (reg : Nat) (a : HardRegAllocation)
    (hi : Inv ordered st cur) (hsub : a.lifetimes.Sublist (st.allocations reg).lifetimes)
    (hend : ∀ y ∈ (st.allocations reg).lifetimes, y ∉ a.lifetimes → (st.heap y).end_ ≤ cur) :
    Inv ordered (st.setAllocation reg a) cur := by
  have hmem : ∀ r y, y ∈ ((st.setAllocation reg a).allocations r).lifetimes →
      y ∈ (st.allocations r).lifetimes := by
    intro r y hy
    by_cases hr : r = reg
    · rw [hr, setAllocation_self] at hy
      rw [hr]
      exact hsub.subset hy
    · rwa [setAllocation_of_ne st reg r a hr] at hy
  refine { hi with
    active_nodup := fun r => ?_
    active := fun r y hy => hi.active r y (hmem r y hy)
    expired := fun ho x hx hnot b hb => ?_ }
  · by_cases hr : r = reg
    · rw [hr, setAllocation_self]
      exact hsub.nodup (hi.active_nodup reg)
    · rw [setAllocation_of_ne st reg r a hr]
      exact hi.active_nodup r
  · have hnot : x ∉ ((st.setAllocation reg a).allocations (st.heap x).hardReg).lifetimes := hnot
    by_cases hreg : (st.heap x).hardReg = reg
    · rw [hreg, setAllocation_self] at hnot
      by_cases hold : x ∈ (st.allocations reg).lifetimes
      · -- It was in the list until now, so it has just been dropped.
        exact Int.le_trans (occupied_le_end _ (hi.active reg x hold).2.2 b hb) (hend x hold hnot)
      · exact hi.expired ho x hx (hreg ▸ hold) b hb
    · rw [setAllocation_of_ne st reg _ a hreg] at hnot
      exact hi.expired ho x hx hnot b hb

/-! ### Assigning a register -/

theorem inv_assign (x reg : Nat) (rest : List Nat) (a : HardRegAllocation)
    (hi : Inv ordered st (st.heap x).begin_) (hpend : st.pending = x :: rest)
    (ha : a.lifetimes = (st.allocations reg).lifetimes ++ [x])
    (hfree : ∀ y ∈ (st.allocations reg).lifetimes,
      (st.heap y).testInterference (st.heap x) = false) :
    Inv ordered (((st.setAllocation reg a).setHardReg x reg).advance x) (st.heap x).begin_ := by
  have hx := (hi.pending_ok x (hpend ▸ mem_cons_self)).1
  have hnod : (st.visited ++ x :: rest).Nodup := hpend ▸ hi.nodup
  have hnew : x ∉ st.visited := fun hmem =>
    (nodup_append.mp hnod).2.2 x hmem x mem_cons_self rfl
  have hrest : x ∉ rest := (nodup_cons.mp (nodup_append.mp hnod).2.1).1
  let st' : AllocState := ((st.setAllocation reg a).setHardReg x reg).advance x
  have hnext : st'.pending = rest := by
    show st.pending.tail = rest
    rw [hpend, tail_cons]
  -- The new register shows in no shape but that of `x`.
  have hheap : ∀ y, y ≠ x → st'.heap y = st.heap y :=
    fun y hy => setHardReg_of_ne _ x reg y hy
  have hself : st'.heap x = { st.heap x with hardReg := reg } :=
    setHardReg_self _ x reg
  have hocc : (st'.heap x).occupied = (st.heap x).occupied := by
    rw [hself]
    rfl
  have hold : ∀ y ∈ st.visited, y ≠ x := fun y hy heq => hnew (heq ▸ hy)
  -- Against `x`, a lifetime on the register is in the list or has expired.
  have hapart : ordered → ∀ y ∈ st.visited, (st.heap y).hardReg = reg →
      Apart (st.heap y) (st.heap x) := by
    intro ho y hy hreg
    by_cases hin : y ∈ (st.allocations reg).lifetimes
    · exact apart_of_testInterference _ _ (hi.active reg y hin).2.2 hx (hfree y hin)
    · exact apart_of_expired _ _ hx (hi.expired ho y hy (hreg ▸ hin))
  have hmem : ∀ r y, y ∈ (st'.allocations r).lifetimes →
      y ∈ (st.allocations r).lifetimes ∨ y = x ∧ r = reg := by
    intro r y hy
    by_cases hr : r = reg
    · have hy : y ∈ ((st.setAllocation reg a).allocations r).lifetimes := hy
      rw [hr, setAllocation_self, ha] at hy
      rw [hr]
      rcases mem_append.mp hy with hy | hy
      · exact Or.inl hy
      · exact Or.inr ⟨mem_singleton.mp hy, rfl⟩
    · have hy : y ∈ ((st.setAllocation reg a).allocations r).lifetimes := hy
      rw [setAllocation_of_ne st reg r a hr] at hy
      exact Or.inl hy
  have hlist : st'.visited ++ st'.pending = st.visited ++ x :: rest := by
    rw [hnext]
    exact append_cons st.visited x rest |>.symm
  refine ⟨?_, fun y hy => ?_, fun r => ?_, fun r y hy => ?_, fun y hy => ?_, fun ho => ?_,
    fun ho y hy z hz hne hreg => ?_, fun ho y hy hnot b hb => ?_⟩
  · rw [hlist]
    exact hnod
  · rw [hlist, ← hpend] at hy
    exact hi.bounded y hy
  · by_cases hr : r = reg
    · show ((st.setAllocation reg a).allocations r).lifetimes.Nodup
      rw [hr, setAllocation_self, ha]
      refine nodup_append.mpr ⟨hi.active_nodup reg, nodup_singleton x, ?_⟩
      intro y hy z hz heq
      exact hold y (hi.active reg y hy).1 (heq.trans (mem_singleton.mp hz))
    · show ((st.setAllocation reg a).allocations r).lifetimes.Nodup
      rw [setAllocation_of_ne st reg r a hr]
      exact hi.active_nodup r
  · rcases hmem r y hy with hy | ⟨rfl, rfl⟩
    · rcases hi.active r y hy with ⟨hv, hreg, hok⟩
      rw [hheap y (hold y hv)]
      exact ⟨mem_append_left _ hv, hreg, hok⟩
    · rw [hself]
      exact ⟨mem_append_right _ (mem_singleton_self _), rfl, hx.nonempty, hx.ranges⟩
  · rw [hnext] at hy
    rw [hheap y (fun heq => hrest (heq ▸ hy))]
    exact hi.pending_ok y (hpend ▸ mem_cons_of_mem x hy)
  · have hsort := hi.sorted ho
    rw [hpend, map_cons] at hsort
    have hkeys : (rest.map fun y => (st'.heap y).begin_) = rest.map fun y => (st.heap y).begin_ :=
      map_congr_left fun y hy => by rw [hheap y (fun heq => hrest (heq ▸ hy))]
    rw [hnext, hkeys]
    exact (pairwise_cons.mp hsort).2
  · have hy : y ∈ st.visited ++ [x] := hy
    unfold Apart
    rcases mem_append.mp hy with hy | hy
    · have hyx := hold y hy
      rw [hheap y hyx] at hreg ⊢
      rcases mem_append.mp hz with hz | hz
      · rw [hheap z (hold z hz)] at hreg ⊢
        exact hi.apart ho y hy z hz hne hreg
      · rw [mem_singleton.mp hz] at hreg ⊢
        rw [hself] at hreg
        rw [hocc]
        exact hapart ho y hy hreg
    · rw [mem_singleton.mp hy] at hne hreg ⊢
      rcases mem_append.mp hz with hz | hz
      · rw [hself, hheap z (hold z hz)] at hreg
        rw [hheap z (hold z hz), hocc]
        exact apart_symm _ _ (hapart ho z hz hreg.symm)
      · exact absurd (mem_singleton.mp hz).symm hne
  · have hy : y ∈ st.visited ++ [x] := hy
    rcases mem_append.mp hy with hy | hy
    · rw [hheap y (hold y hy)] at hnot hb
      refine hi.expired ho y hy (fun hin => hnot ?_) b hb
      by_cases hr : (st.heap y).hardReg = reg
      · show y ∈ ((st.setAllocation reg a).allocations _).lifetimes
        rw [hr, setAllocation_self, ha]
        exact mem_append_left _ (hr ▸ hin)
      · show y ∈ ((st.setAllocation reg a).allocations _).lifetimes
        rw [setAllocation_of_ne st reg _ a hr]
        exact hin
    · -- `x` itself is in the list.
      refine absurd ?_ hnot
      rw [mem_singleton.mp hy, hself]
      show x ∈ ((st.setAllocation reg a).allocations reg).lifetimes
      rw [setAllocation_self, ha]
      exact mem_append_right _ (mem_singleton_self x)

end Berberis.RegAlloc
