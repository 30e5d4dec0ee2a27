import Berberis.Backend.RegAllocInvariant

/-!
# Choosing a Register

What `AllocateLifetime` does before anything is spilled. Trying a register
drops from its list only lifetimes that have ended, so the lifetimes that
interfere with the current one are the same after any number of failed
attempts; considering a register for a spill only records what would be
spilled. Either the current lifetime gets a register on which nothing
interferes, or a register is chosen together with a record of everything that
interferes there, all of which can be split.
-/

namespace Berberis.RegAlloc

open List Option AllocState

def interferes (heap : Nat → VRegLifetime) (x y : Nat) : Bool :=
  (heap y).testInterference (heap x)

/-! ### Move hints -/

theorem findMoveHint_sameShape (fuel : Nat) (heap heap' : Nat → VRegLifetime) (x hint : Nat)
    (h : findMoveHint fuel heap x = some (heap', hint)) (n : Nat) :
    SameShape (heap' n) (heap n) := by
  induction fuel generalizing heap' x hint with
  | zero => cases h
  | succ fuel ih =>
    rw [findMoveHint] at h
    cases hhint : (heap x).moveHint with
    | none =>
      rw [hhint] at h
      rcases Prod.mk.inj (some.inj h) with ⟨rfl, _⟩
      exact ⟨rfl, rfl, rfl, rfl⟩
    | some next =>
      rw [hhint] at h
      rcases map_eq_some_iff.mp h with ⟨⟨heap1, hint1⟩, hfind, heq⟩
      rcases Prod.mk.inj heq with ⟨rfl, _⟩
      have hshape := ih heap1 next hint1 hfind
      by_cases hn : n = x
      · rw [hn] at hshape ⊢
        rw [Function.update_self]
        exact ⟨hshape.rangeList, hshape.regClass, hshape.hardReg, hshape.spillSlot⟩
      · rw [Function.update_of_ne hn]
        exact hshape

/-! ### Trying a register -/

section

variable (heap : Nat → VRegLifetime)
include heap

section

variable (new : VRegLifetime) (ys : List Nat)

theorem tryAssignLoop_sublist : (tryAssignLoop heap new ys).1.Sublist ys := by
  induction ys with
  | nil => exact List.Sublist.slnil
  | cons y ys ih =>
    rw [tryAssignLoop]
    split_ifs with hend hint
    · exact ih.cons y
    · exact List.Sublist.refl _
    · exact ih.cons_cons y

theorem tryAssignLoop_ended :
    ∀ y ∈ ys, y ∉ (tryAssignLoop heap new ys).1 → (heap y).end_ ≤ new.begin_ := by
  induction ys with
  | nil => exact fun y hy => absurd hy not_mem_nil
  | cons z ys ih =>
    intro y hy hnot
    rw [tryAssignLoop] at hnot
    split_ifs at hnot with hend hint
    · rcases mem_cons.mp hy with rfl | hmem
      · exact hend
      · exact ih y hmem hnot
    · exact absurd hy hnot
    · rcases mem_cons.mp hy with rfl | hmem
      · exact absurd mem_cons_self hnot
      · exact ih y hmem (fun hin => hnot (mem_cons_of_mem z hin))

theorem tryAssignLoop_free (h : (tryAssignLoop heap new ys).2 = false) :
    ∀ y ∈ (tryAssignLoop heap new ys).1, (heap y).testInterference new = false := by
  induction ys with
  | nil => exact fun y hy => absurd hy not_mem_nil
  | cons z ys ih =>
    rw [tryAssignLoop] at h ⊢
    split_ifs at h ⊢ with hend hint
    · exact ih h
    · intro y hy
      rcases mem_cons.mp hy with rfl | hmem
      · exact Bool.eq_false_iff.mpr hint
      · exact ih h y hmem

end

theorem tryAssignLoop_filter {x : Nat} {ys : List Nat}
    (h : ∀ y ∈ ys, (heap y).end_ ≤ (heap x).begin_ → interferes heap x y = false) :
    (tryAssignLoop heap (heap x) ys).1.filter (interferes heap x) =
      ys.filter (interferes heap x) := by
  induction ys with
  | nil => rfl
  | cons y ys ih =>
    have hrest := ih (fun z hz => h z (mem_cons_of_mem y hz))
    rw [tryAssignLoop]
    split_ifs with hend hint
    · rw [filter_cons_of_neg (Bool.eq_false_iff.mp (h y mem_cons_self hend))]
      exact hrest
    · rfl
    · have hnot : ¬ interferes heap x y = true := hint
      rw [filter_cons_of_neg hnot, filter_cons_of_neg hnot]
      exact hrest

end

/-- Two states of the allocator that differ in lifetimes that have ended. -/
structure Tried (x : Nat) (st st' : AllocState) : Prop where
  eq : st' = { st with allocations := st'.allocations }
  interfering : ∀ reg, (st'.allocations reg).lifetimes.filter (interferes st.heap x) =
    (st.allocations reg).lifetimes.filter (interferes st.heap x)

theorem Tried.refl (x : Nat) (st : AllocState) : Tried x st st :=
  ⟨rfl, fun _ => rfl⟩

theorem Tried.heap_eq {x : Nat} {st st' : AllocState} (h : Tried x st st') :
    st'.heap = st.heap := by
  rw [h.eq]

theorem Tried.trans {x : Nat} {st st1 st2 : AllocState} (h : Tried x st st1)
    (h' : Tried x st1 st2) : Tried x st st2 := by
  refine ⟨?_, fun reg => ?_⟩
  · rw [h'.eq, h.eq]
  · have hlat := h'.interfering reg
    rw [h.heap_eq] at hlat
    exact hlat.trans (h.interfering reg)

section
variable {ordered : Prop} {st : AllocState} {x : Nat} {rest : List Nat}

/-- The state before the current lifetime is allocated. -/
structure Ready (ordered : Prop) (st : AllocState) (x : Nat) (rest : List Nat) : Prop where
  inv : Inv ordered st (st.heap x).begin_
  pending : st.pending = x :: rest

def AllocState.pruned (st : AllocState) (x reg : Nat) : AllocState :=
  st.setAllocation reg { st.allocations reg with
    newLifetime := some x
    lifetimes := (tryAssignLoop st.heap (st.heap x) (st.allocations reg).lifetimes).1 }

theorem Ready.pruned (h : Ready ordered st x rest) (reg : Nat) :
    Ready ordered (st.pruned x reg) x rest ∧ Tried x st (st.pruned x reg) := by
  have hx := (h.inv.pending_ok x (h.pending ▸ mem_cons_self)).1
  refine ⟨⟨inv_drop st _ reg _ h.inv (tryAssignLoop_sublist _ _ _) (tryAssignLoop_ended _ _ _),
    h.pending⟩, rfl, fun r => ?_⟩
  unfold AllocState.pruned
  by_cases hr : r = reg
  · rw [hr, AllocState.setAllocation_self]
    refine tryAssignLoop_filter _ (fun y hy hend => ?_)
    exact testInterference_of_end_le _ _ (h.inv.active reg y hy).2.2 hx hend
  · rw [setAllocation_of_ne st reg r _ hr]

theorem setAllocation_setAllocation (st : AllocState) (reg : Nat) (a b : HardRegAllocation) :
    (st.setAllocation reg a).setAllocation reg b = st.setAllocation reg b := by
  unfold setAllocation
  rw [Function.update_idem]

section

variable (h : Ready ordered st x rest)
include h

theorem tryAssignHardReg_true (reg : Nat) (st' : AllocState)
    (htry : st.tryAssignHardReg x reg = (st', true)) :
    Inv ordered (st'.advance x) (st.heap x).begin_ := by
  unfold tryAssignHardReg HardRegAllocation.tryAssign at htry
  cases hloop : tryAssignLoop st.heap (st.heap x) (st.allocations reg).lifetimes with
  | mk left hit =>
    rw [hloop] at htry
    cases hit with
    | true => cases htry
    | false =>
      rcases Prod.mk.inj htry with ⟨rfl, _⟩
      have hleft : ((st.pruned x reg).allocations reg).lifetimes = left := by
        unfold AllocState.pruned
        rw [AllocState.setAllocation_self, hloop]
      have hfree := tryAssignLoop_free st.heap (st.heap x) _ (by rw [hloop])
      rw [hloop] at hfree
      have hready := (h.pruned reg).1
      have hass := inv_assign (st.pruned x reg) x reg rest
        { st.allocations reg with newLifetime := some x, lifetimes := left ++ [x] }
        hready.inv hready.pending (by rw [hleft]) (by rw [hleft]; exact hfree)
      unfold AllocState.pruned at hass
      rw [setAllocation_setAllocation] at hass
      exact hass

theorem tryAssignHardReg_false (reg : Nat) (st' : AllocState)
    (htry : st.tryAssignHardReg x reg = (st', false)) :
    Ready ordered st' x rest ∧ Tried x st st' := by
  have hprun := h.pruned reg
  unfold tryAssignHardReg HardRegAllocation.tryAssign at htry
  unfold AllocState.pruned at hprun
  cases hloop : tryAssignLoop st.heap (st.heap x) (st.allocations reg).lifetimes with
  | mk left hit =>
    rw [hloop] at htry hprun
    cases hit with
    | true =>
      rcases Prod.mk.inj htry with ⟨rfl, _⟩
      exact hprun
    | false => cases htry

theorem tryAssignRegs_spec (pref : Nat) (regs : List Nat) (st' : AllocState)
    (ok : Bool) (htry : tryAssignRegs x pref regs st = (st', ok)) :
    if ok then Inv ordered (st'.advance x) (st.heap x).begin_
    else Ready ordered st' x rest ∧ Tried x st st' := by
  induction regs generalizing st with
  | nil =>
    rcases Prod.mk.inj htry with ⟨rfl, rfl⟩
    exact ⟨h, Tried.refl x st⟩
  | cons reg regs ih =>
    rw [tryAssignRegs] at htry
    by_cases hpref : reg ≠ pref
    · rw [if_pos hpref] at htry
      rcases hreg : st.tryAssignHardReg x reg with ⟨st1, ok1⟩
      rw [hreg] at htry
      cases ok1 with
      | true =>
        rcases Prod.mk.inj htry with ⟨rfl, rfl⟩
        exact tryAssignHardReg_true h reg st1 hreg
      | false =>
        rcases tryAssignHardReg_false h reg st1 hreg with ⟨hready, htried⟩
        have hlat := ih hready htry
        cases ok with
        | true => exact htried.heap_eq ▸ hlat
        | false => exact ⟨hlat.1, htried.trans hlat.2⟩
    · rw [if_neg hpref] at htry
      exact ih h htry

theorem tryAssignClass_spec (pref : Nat) (st' : AllocState) (ok : Bool)
    (htry : st.tryAssignClass x pref = (st', ok)) :
    if ok then Inv ordered (st'.advance x) (st.heap x).begin_
    else Ready ordered st' x rest ∧ Tried x st st' := by
  unfold tryAssignClass at htry
  dsimp only at htry
  split_ifs at htry with hpref
  · rcases hreg : st.tryAssignHardReg x pref with ⟨st1, ok1⟩
    rw [hreg] at htry
    cases ok1 with
    | true =>
      rcases Prod.mk.inj htry with ⟨rfl, rfl⟩
      exact tryAssignHardReg_true h pref st1 hreg
    | false =>
      rcases tryAssignHardReg_false h pref st1 hreg with ⟨hready, htried⟩
      have hlat := tryAssignRegs_spec hready pref _ st' ok htry
      cases ok with
      | true => exact htried.heap_eq ▸ hlat
      | false => exact ⟨hlat.1, htried.trans hlat.2⟩
  · exact tryAssignRegs_spec h pref _ st' ok htry

end

end

/-! ### Considering a spill -/

def spillOf (heap : Nat → VRegLifetime) (x y : Nat) : VRegLifetimeSpill :=
  ⟨y, ((heap y).findSplitPos (heap x).begin_).2⟩

/-- A finite weight at a lifetime that interferes: it can be split, its spill
    is recorded and the rest of the walk was finite too. -/
theorem considerSpillLoop_cons (heap : Nat → VRegLifetime) (x y : Nat) (ys : List Nat)
    (weight : Int) (hint : interferes heap x y = true)
    (h : (considerSpillLoop heap (heap x) (y :: ys)).2 = some weight) :
    ((heap y).findSplitPos (heap x).begin_).1 ≠ .impossible ∧
      (considerSpillLoop heap (heap x) (y :: ys)).1 =
        spillOf heap x y :: (considerSpillLoop heap (heap x) ys).1 ∧
      ∃ w, (considerSpillLoop heap (heap x) ys).2 = some w := by
  have hint' : (heap y).testInterference (heap x) = true := hint
  unfold spillOf
  rw [considerSpillLoop] at h ⊢
  rw [if_pos hint'] at h ⊢
  rcases hspl : (heap y).findSplitPos (heap x).begin_ with ⟨kind, pos⟩
  rw [hspl] at h
  cases kind with
  | impossible => cases h
  | conflict =>
    dsimp only at h ⊢
    by_cases hsub : SplitKind.conflict = .conflict ∧
        (heap y).regClass.isSubsetOf (heap x).regClass = true
    · rw [if_pos hsub] at h
      cases h
    · rw [if_neg hsub] at h ⊢
      rcases map_eq_some_iff.mp h with ⟨w, hw, _⟩
      exact ⟨SplitKind.noConfusion, rfl, w, hw⟩
  | ok =>
    rcases map_eq_some_iff.mp h with ⟨w, hw, _⟩
    exact ⟨SplitKind.noConfusion, rfl, w, hw⟩

theorem considerSpillLoop_eq_some (heap : Nat → VRegLifetime) (x : Nat) (ys : List Nat)
    (weight : Int) (h : (considerSpillLoop heap (heap x) ys).2 = some weight) :
    (considerSpillLoop heap (heap x) ys).1 = (ys.filter (interferes heap x)).map (spillOf heap x) ∧
      ∀ y ∈ ys, interferes heap x y = true →
        ((heap y).findSplitPos (heap x).begin_).1 ≠ .impossible := by
  induction ys generalizing weight with
  | nil => exact ⟨rfl, fun y hy => absurd hy not_mem_nil⟩
  | cons y ys ih =>
    by_cases hint : interferes heap x y = true
    · rcases considerSpillLoop_cons heap x y ys weight hint h with ⟨hkind, hloop, w, hw⟩
      rcases ih w hw with ⟨hspills, hpos⟩
      rw [hloop, hspills, filter_cons_of_pos hint, map_cons]
      refine ⟨rfl, fun z hz hz' => ?_⟩
      rcases mem_cons.mp hz with rfl | hmem
      · exact hkind
      · exact hpos z hmem hz'
    · have hloop : considerSpillLoop heap (heap x) (y :: ys) =
          considerSpillLoop heap (heap x) ys := if_neg hint
      rw [hloop] at h ⊢
      rcases ih weight h with ⟨hspills, hpos⟩
      rw [filter_cons_of_neg hint]
      refine ⟨hspills, fun z hz hz' => ?_⟩
      rcases mem_cons.mp hz with rfl | hmem
      · exact absurd hz' hint
      · exact hpos z hmem hz'

/-- Considering a register again gives the same record and weight. -/
def Considered (st : AllocState) (x reg : Nat) (weight : Int) : Prop :=
  (st.allocations reg).considerSpill st.heap x = some (st.allocations reg, weight)

theorem considerSpill_idem {a a' : HardRegAllocation} (heap : Nat → VRegLifetime) {x : Nat}
    {weight : Int} (h : a.considerSpill heap x = some (a', weight)) :
    a'.lifetimes = a.lifetimes ∧ a'.considerSpill heap x = some (a', weight) := by
  unfold HardRegAllocation.considerSpill at h ⊢
  split_ifs at h with hnew
  dsimp only at h
  cases hloop : (considerSpillLoop heap (heap x) a.lifetimes).2 with
  | none =>
    rw [hloop] at h
    rcases Prod.mk.inj (some.inj h) with ⟨rfl, rfl⟩
    rw [if_pos hnew]
    dsimp only
    rw [hloop]
    exact ⟨rfl, rfl⟩
  | some w =>
    rw [hloop] at h
    dsimp only at h
    split_ifs at h with hw
    rcases Prod.mk.inj (some.inj h) with ⟨rfl, rfl⟩
    rw [if_pos hnew]
    dsimp only
    rw [hloop]
    exact ⟨rfl, if_pos hw⟩

/-- Considering registers changes nothing but their records. -/
structure SameLifetimes (st st' : AllocState) : Prop where
  eq : st' = { st with allocations := st'.allocations }
  lifetimes : ∀ reg, (st'.allocations reg).lifetimes = (st.allocations reg).lifetimes

theorem SameLifetimes.inv {ordered : Prop} {st st' : AllocState} {cur : Int}
    (h : SameLifetimes st st')
    (hi : Inv ordered st cur) : Inv ordered st' cur := by
  rw [h.eq]
  refine { hi with
    active_nodup := fun reg => ?_
    active := fun reg x hx => ?_
    expired := fun ho x hx hnot a ha => ?_ }
  · rw [h.lifetimes]
    exact hi.active_nodup reg
  · have hx : x ∈ (st'.allocations reg).lifetimes := hx
    rw [h.lifetimes] at hx
    exact hi.active reg x hx
  · have hnot : x ∉ (st'.allocations (st.heap x).hardReg).lifetimes := hnot
    rw [h.lifetimes] at hnot
    exact hi.expired ho x hx hnot a ha

theorem sameLifetimes_setAllocation {st : AllocState} {reg : Nat} {a : HardRegAllocation}
    (h : a.lifetimes = (st.allocations reg).lifetimes) :
    SameLifetimes st (st.setAllocation reg a) := by
  refine ⟨rfl, fun r => ?_⟩
  by_cases hr : r = reg
  · rw [hr, AllocState.setAllocation_self, h]
  · rw [setAllocation_of_ne st reg r a hr]

theorem considerSpillRegs_spec (x : Nat) (cls regs : List Nat) (hregs : ∀ r ∈ regs, r ∈ cls)
    (st st' : AllocState) (best best' : Int × Nat)
    (hbest : best.1 < kInfiniteSpillWeight → best.2 ∈ cls ∧ Considered st x best.2 best.1)
    (h : considerSpillRegs x regs st best = some (st', best')) : SameLifetimes st st' ∧
      (best'.1 < kInfiniteSpillWeight → best'.2 ∈ cls ∧ Considered st' x best'.2 best'.1) := by
  induction regs generalizing st best with
  | nil =>
    rcases Prod.mk.inj (some.inj h) with ⟨rfl, rfl⟩
    exact ⟨⟨rfl, fun _ => rfl⟩, hbest⟩
  | cons reg regs ih =>
    rw [considerSpillRegs] at h
    cases hcons : (st.allocations reg).considerSpill st.heap x with
    | none =>
      rw [hcons] at h
      cases h
    | some found =>
      rcases found with ⟨a, weight⟩
      rw [hcons] at h
      rcases considerSpill_idem st.heap hcons with ⟨hlif, hidem⟩
      have hsame := sameLifetimes_setAllocation hlif
      have hreg : Considered (st.setAllocation reg a) x reg weight := by
        unfold Considered
        rw [AllocState.setAllocation_self]
        exact hidem
      have hnext := ih (fun r hr => hregs r (mem_cons_of_mem reg hr)) _ _ ?_ h
      · refine ⟨⟨?_, fun r => (hnext.1.lifetimes r).trans (hsame.lifetimes r)⟩, hnext.2⟩
        rw [hnext.1.eq]
        rfl
      · -- The best so far: the new register, or the old one with its record.
        split_ifs with hless
        · exact fun _ => ⟨hregs reg mem_cons_self, hreg⟩
        · intro hfin
          rcases hbest hfin with ⟨hcls, hold⟩
          refine ⟨hcls, ?_⟩
          by_cases heq : best.2 = reg
          · unfold Considered at hold
            rw [heq, hcons] at hold
            rcases Prod.mk.inj (some.inj hold) with ⟨_, hw⟩
            rw [heq, ← hw]
            exact hreg
          · unfold Considered
            rw [setAllocation_of_ne st reg _ a heq]
            exact hold

/-- What is known of a register once it was considered with a finite weight. -/
structure Recorded (st : AllocState) (x reg : Nat) : Prop where
  spills : (st.allocations reg).spills =
    ((st.allocations reg).lifetimes.filter (interferes st.heap x)).map (spillOf st.heap x)
  possible : ∀ y ∈ (st.allocations reg).lifetimes, interferes st.heap x y = true →
    ((st.heap y).findSplitPos (st.heap x).begin_).1 ≠ .impossible

theorem recorded_of_considered {st : AllocState} {x reg : Nat} {weight : Int}
    (hfin : weight < kInfiniteSpillWeight) (h : Considered st x reg weight) :
    Recorded st x reg := by
  unfold Considered HardRegAllocation.considerSpill at h
  split_ifs at h with hnew
  dsimp only at h
  cases hloop : (considerSpillLoop st.heap (st.heap x) (st.allocations reg).lifetimes).2 with
  | none =>
    rw [hloop] at h
    rcases Prod.mk.inj (some.inj h) with ⟨_, rfl⟩
    exact absurd hfin (Int.lt_irrefl _)
  | some w =>
    rw [hloop] at h
    dsimp only at h
    split_ifs at h with hw
    rcases considerSpillLoop_eq_some st.heap x _ w hloop with ⟨hspills, hpos⟩
    have hrec := congrArg HardRegAllocation.spills (Prod.mk.inj (some.inj h)).1
    exact ⟨hrec.symm.trans hspills, hpos⟩

/-! ### The choice -/

theorem ready_of_inv {ordered : Prop} (st : AllocState) (cur : Int) (x : Nat) (rest : List Nat)
    (hi : Inv ordered st cur)
    (hpend : st.pending = x :: rest) : Ready ordered st x rest := by
  refine ⟨inv_cur st cur _ hi ?_ (fun ho y hy => ?_), hpend⟩
  · exact (hi.pending_ok x (hpend ▸ mem_cons_self)).2
  · have hsort := hi.sorted ho
    rw [hpend, map_cons] at hsort
    rw [hpend] at hy
    rcases mem_cons.mp hy with rfl | hmem
    · exact Int.le_refl _
    · exact (pairwise_cons.mp hsort).1 _ (mem_map_of_mem hmem)

/-- What is known of the register to spill. -/
structure Chosen (ordered : Prop) (st st' : AllocState) (x reg : Nat) (rest : List Nat) : Prop where
  ready : Ready ordered st' x rest
  recorded : Recorded st' x reg
  mem : reg ∈ (st.heap x).regClass.regs
  shape : ∀ n, SameShape (st'.heap n) (st.heap n)
  interfering : (st'.allocations reg).lifetimes.filter (interferes st'.heap x) =
    (st.allocations reg).lifetimes.filter (interferes st.heap x)

theorem interferes_congr (heap heap' : Nat → VRegLifetime) (x : Nat)
    (h : ∀ n, SameShape (heap' n) (heap n)) : interferes heap' x = interferes heap x := by
  funext y
  unfold interferes VRegLifetime.testInterference
  rw [(h y).1, (h x).1]

section
variable {ordered : Prop} {st : AllocState} {x : Nat} {rest : List Nat}

theorem Ready.heap (h : Ready ordered st x rest) (heap : Nat → VRegLifetime)
    (hshape : ∀ n, SameShape (heap n) (st.heap n)) :
    Ready ordered { st with heap := heap } x rest := by
  refine ⟨?_, h.pending⟩
  rw [(hshape x).begin_]
  exact inv_heap st _ heap h.inv hshape

theorem chooseReg_cases (st' : AllocState) (choice : Option Nat)
    (h : st.chooseReg x = some (st', choice)) :
    ∃ heap hint st1 ok, findMoveHint (st.numNodes + 1) st.heap x = some (heap, hint) ∧
      tryAssignClass { st with heap := heap } x (heap hint).hardReg = (st1, ok) ∧
      (ok = true ∧ choice = none ∧ st' = st1 ∨
        ∃ weight reg, ok = false ∧ choice = some reg ∧ weight < kInfiniteSpillWeight ∧
          considerSpillRegs x (st1.heap x).regClass.regs st1 (kInfiniteSpillWeight, 0) =
            some (st', weight, reg)) := by
  rcases bind_eq_some_iff.mp h with ⟨⟨heap, hint⟩, hhint, h⟩
  dsimp only at h
  rcases htry : tryAssignClass { st with heap := heap } x (heap hint).hardReg with
    ⟨st1, ok⟩
  refine ⟨heap, hint, st1, ok, hhint, htry, ?_⟩
  rw [htry] at h
  cases ok with
  | true =>
    rcases Prod.mk.inj (some.inj h) with ⟨rfl, rfl⟩
    exact Or.inl ⟨rfl, rfl, rfl⟩
  | false =>
    rcases bind_eq_some_iff.mp h with ⟨⟨st2, weight, reg⟩, hcons, h⟩
    split_ifs at h with hfin
    rcases Prod.mk.inj (some.inj h) with ⟨rfl, rfl⟩
    exact Or.inr ⟨weight, reg, rfl, rfl, hfin, hcons⟩

theorem chooseReg_none (hr : Ready ordered st x rest) (st' : AllocState)
    (h : st.chooseReg x = some (st', none)) : Inv ordered (st'.advance x) (st.heap x).begin_ := by
  rcases chooseReg_cases st' none h with ⟨heap, hint, st1, ok, hhint, htry, hcase⟩
  have hshape := findMoveHint_sameShape _ st.heap heap x hint hhint
  have htried := tryAssignClass_spec (hr.heap heap hshape) _ st1 ok htry
  rcases hcase with ⟨rfl, _, rfl⟩ | ⟨_, _, _, hchoice, _⟩
  · rw [← (hshape x).begin_]
    exact htried
  · cases hchoice

theorem chooseReg_some (hr : Ready ordered st x rest) (st' : AllocState) (reg : Nat)
    (h : st.chooseReg x = some (st', some reg)) : Chosen ordered st st' x reg rest := by
  rcases chooseReg_cases st' (some reg) h with ⟨heap, hint, st1, ok, hhint, htry, hcase⟩
  have hshape := findMoveHint_sameShape _ st.heap heap x hint hhint
  rcases hcase with ⟨_, hchoice, _⟩ | ⟨weight, reg', rfl, hchoice, hfin, hconsid⟩
  · cases hchoice
  · cases hchoice
    rcases tryAssignClass_spec (hr.heap heap hshape) _ st1 false htry with ⟨hready, htried⟩
    have hheap1 : st1.heap = heap := htried.heap_eq
    rcases considerSpillRegs_spec x (st1.heap x).regClass.regs _ (fun _ hmem => hmem) st1 st' _ _
      (fun hinf => absurd hinf (Int.lt_irrefl _)) hconsid with ⟨hsame, hkept⟩
    rcases hkept hfin with ⟨hmem, hcons⟩
    have hheap : st'.heap = heap := by rw [hsame.eq, ← hheap1]
    refine ⟨⟨?_, ?_⟩, recorded_of_considered hfin hcons, ?_, ?_, ?_⟩
    · rw [hheap, ← hheap1]
      exact hsame.inv hready.inv
    · rw [hsame.eq]
      exact hready.pending
    · rw [hheap1, (hshape x).regClass] at hmem
      exact hmem
    · rw [hheap]
      exact hshape
    · rw [hsame.lifetimes reg, hheap, interferes_congr st.heap heap x hshape]
      have hinterf := htried.interfering reg
      rw [interferes_congr st.heap heap x hshape] at hinterf
      exact hinterf

end

end Berberis.RegAlloc
