import Mathlib

/-!
# Lifetimes of Virtual Registers

A lifetime is a list of live ranges with holes in between, and each range
lists the instructions that use the register there. The register allocator
asks three things of a lifetime: whether it interferes with another one,
where it could be split in favour of one that begins at a given position, and
to be split there into tiny lifetimes of one use each.
-/

namespace Berberis.RegAlloc

open List Option

/-- A set of hard registers, ordered by allocation preference. -/
structure MachineRegClass where
  regMask : Nat
  regs : List Nat
  deriving DecidableEq

def MachineRegClass.hasReg (c : MachineRegClass) (r : Nat) : Bool := c.regMask.testBit r

def MachineRegClass.isSubsetOf (c other : MachineRegClass) : Bool :=
  c.regMask &&& other.regMask = c.regMask

/-- One use of a virtual register: operand `index` of the instruction at
    `pos`, and the range for interference tests. -/
structure VRegUse where
  pos : Nat
  index : Nat
  begin_ : Int
  end_ : Int
  regClass : MachineRegClass
  deriving DecidableEq

/-- A continuous live range. It may begin before the first use and end after the last one. -/
structure VRegLiveRange where
  begin_ : Int
  end_ : Int
  useList : List VRegUse
  deriving DecidableEq

/-- A lifetime. Slot -1 of the source is `none`; the hard register is 0 until
    one is assigned; the move hint is another lifetime. -/
structure VRegLifetime where
  rangeList : List VRegLiveRange
  regClass : MachineRegClass
  hardReg : Nat
  spillSlot : Option Nat
  spillWeight : Int
  moveHint : Option Nat
  deriving DecidableEq

/-- The walk of `TestInterference` while the first iterator stays at `i`;
    `next` is the walk from the range after it. -/
def testRange (i : VRegLiveRange) (next : List VRegLiveRange → Bool) :
    List VRegLiveRange → Bool
  | [] => false
  | j :: js =>
    if i.end_ ≤ j.begin_ then next (j :: js)
    else if j.end_ ≤ i.begin_ then testRange i next js
    else true

def testRanges : List VRegLiveRange → List VRegLiveRange → Bool
  | [], _ => false
  | i :: is, js => testRange i (testRanges is) js

inductive SplitKind where
  | impossible
  | conflict
  | ok
  deriving DecidableEq

/-- A use in a lifetime: its range and its place in the use list of the range. -/
structure SplitPos where
  rangeIt : Nat
  useIt : Nat
  deriving DecidableEq

def findUse (b : Int) : List VRegUse → Option (SplitKind × Nat)
  | [] => none
  | u :: us =>
    if u.end_ ≤ b then (findUse b us).map fun r => (r.1, r.2 + 1)
    else if u.begin_ < b then some (.impossible, 0)
    else some (if u.begin_ = b then .conflict else .ok, 0)

/-- The walk of `FindSplitPos` over the ranges; no position is the end of the range list. -/
def findRange (b : Int) : List VRegLiveRange → SplitKind × Option SplitPos
  | [] => (.ok, none)
  | r :: rs =>
    let next := (findRange b rs).map id (Option.map fun p => { p with rangeIt := p.rangeIt + 1 })
    if r.end_ ≤ b then next
    else match findUse b r.useList with
      | some (kind, i) => (kind, some ⟨0, i⟩)
      | none => next

/-- The ranges left and the uses moved when the ranges are split at a
    position. A range whose first use is moved goes as a whole. -/
def splitRanges : List VRegLiveRange → Nat → Nat → List VRegLiveRange × List VRegUse
  | [], _, _ => ([], [])
  | r :: rs, 0, j =>
    (if j ≠ 0 then [{ r with useList := r.useList.take j }] else [],
      r.useList.drop j ++ rs.flatMap (·.useList))
  | r :: rs, i + 1, j =>
    let rest := splitRanges rs i j
    (r :: rest.1, rest.2)

namespace VRegLifetime

def begin_ (l : VRegLifetime) : Int := (l.rangeList.head?.map (·.begin_)).getD 0

def end_ (l : VRegLifetime) : Int := (l.rangeList.getLast?.map (·.end_)).getD 0

def uses (l : VRegLifetime) : List VRegUse := l.rangeList.flatMap (·.useList)

def testInterference (l other : VRegLifetime) : Bool := testRanges l.rangeList other.rangeList

def findSplitPos (l : VRegLifetime) (b : Int) : SplitKind × Option SplitPos :=
  findRange b l.rangeList

def ofUse (u : VRegUse) : VRegLifetime :=
  { rangeList := [⟨u.begin_, u.end_, [u]⟩]
    regClass := u.regClass
    hardReg := 0
    spillSlot := none
    spillWeight := 1
    moveHint := none }

def split (l : VRegLifetime) : Option SplitPos → VRegLifetime × List VRegLifetime
  | none => (l, [])
  | some p =>
    let parts := splitRanges l.rangeList p.rangeIt p.useIt
    ({ l with rangeList := parts.1 },
      parts.2.map fun u => { ofUse u with spillSlot := l.spillSlot })

end VRegLifetime

/-! ### Well-formed lifetimes -/

/-- A range with its uses inside, in the order of their begin. -/
structure VRegLiveRange.Ok (r : VRegLiveRange) : Prop where
  le : r.begin_ ≤ r.end_
  inside : ∀ u ∈ r.useList, r.begin_ ≤ u.begin_ ∧ u.begin_ ≤ u.end_ ∧ u.end_ ≤ r.end_
  sorted : r.useList.Pairwise fun u v => u.begin_ ≤ v.begin_

/-- Disjoint ranges, in the order of their begin. -/
structure RangesOk (rs : List VRegLiveRange) : Prop where
  each : ∀ r ∈ rs, r.Ok
  sorted : rs.Pairwise fun r s => r.end_ ≤ s.begin_

/-- What lifetime analysis gives the allocator. -/
structure VRegLifetime.Ok (l : VRegLifetime) : Prop where
  nonempty : l.rangeList ≠ []
  ranges : RangesOk l.rangeList

instance (r : VRegLiveRange) : Decidable r.Ok :=
  decidable_of_iff (r.begin_ ≤ r.end_ ∧
      (∀ u ∈ r.useList, r.begin_ ≤ u.begin_ ∧ u.begin_ ≤ u.end_ ∧ u.end_ ≤ r.end_) ∧
      r.useList.Pairwise fun u v => u.begin_ ≤ v.begin_)
    ⟨fun h => ⟨h.1, h.2.1, h.2.2⟩, fun h => ⟨h.le, h.inside, h.sorted⟩⟩

instance (rs : List VRegLiveRange) : Decidable (RangesOk rs) :=
  decidable_of_iff ((∀ r ∈ rs, r.Ok) ∧ rs.Pairwise fun r s => r.end_ ≤ s.begin_)
    ⟨fun h => ⟨h.1, h.2⟩, fun h => ⟨h.each, h.sorted⟩⟩

instance (l : VRegLifetime) : Decidable l.Ok :=
  decidable_of_iff (l.rangeList ≠ [] ∧ RangesOk l.rangeList)
    ⟨fun h => ⟨h.1, h.2⟩, fun h => ⟨h.nonempty, h.ranges⟩⟩

variable {rs : List VRegLiveRange}

theorem RangesOk.tail {r : VRegLiveRange} (h : RangesOk (r :: rs)) : RangesOk rs :=
  ⟨fun s hs => h.each s (mem_cons_of_mem r hs), (pairwise_cons.mp h.sorted).2⟩

theorem RangesOk.head_le {r : VRegLiveRange} (h : RangesOk (r :: rs)) :
    ∀ s ∈ rs, r.end_ ≤ s.begin_ :=
  (pairwise_cons.mp h.sorted).1

/-! ### Interference -/

theorem testRanges_eq_false (is js : List VRegLiveRange) (hi : RangesOk is) (hj : RangesOk js)
    (h : testRanges is js = false) : ∀ i ∈ is, ∀ j ∈ js, i.end_ ≤ j.begin_ ∨ j.end_ ≤ i.begin_ := by
  induction is generalizing js with
  | nil => exact fun i hi => absurd hi not_mem_nil
  | cons i is ih =>
    rw [testRanges] at h
    -- The second iterator moves while the first one stays.
    induction js with
    | nil => exact fun _ _ j hj => absurd hj not_mem_nil
    | cons j js ihj =>
      rw [testRange] at h
      split_ifs at h with hij hji
      · -- `i` ends before `j`, so before all that follow `j` too.
        intro i' hi' j' hj'
        rcases mem_cons.mp hi' with rfl | hmem
        · refine Or.inl ?_
          rcases mem_cons.mp hj' with rfl | hmem'
          · exact hij
          · have h1 := hj.head_le j' hmem'
            have h2 := (hj.each j mem_cons_self).le
            omega
        · exact ih (j :: js) hi.tail hj h i' hmem j' hj'
      · -- `j` ends before `i`, so before all that follow `i` too.
        intro i' hi' j' hj'
        rcases mem_cons.mp hj' with rfl | hmem'
        · refine Or.inr ?_
          rcases mem_cons.mp hi' with rfl | hmem
          · exact hji
          · have h1 := hi.head_le i' hmem
            have h2 := (hi.each i mem_cons_self).le
            omega
        · exact ihj hj.tail h i' hi' j' hmem'

/-- Where the walk ends early, it has met two ranges that overlap. -/
theorem exists_of_testRanges (is js : List VRegLiveRange) (h : testRanges is js = true) :
    ∃ i ∈ is, ∃ j ∈ js, j.begin_ < i.end_ ∧ i.begin_ < j.end_ := by
  induction is generalizing js with
  | nil => cases h
  | cons i is ih =>
    rw [testRanges] at h
    induction js with
    | nil => cases h
    | cons j js ihj =>
      rw [testRange] at h
      split_ifs at h with hij hji
      · rcases ih (j :: js) h with ⟨i', hi', hover⟩
        exact ⟨i', mem_cons_of_mem i hi', hover⟩
      · rcases ihj h with ⟨i', hi', j', hj', hover⟩
        exact ⟨i', hi', j', mem_cons_of_mem j hj', hover⟩
      · exact ⟨i, mem_cons_self, j, mem_cons_self, by omega⟩

theorem testInterference_of_common {l m : VRegLifetime} (hl : RangesOk l.rangeList)
    (hm : RangesOk m.rangeList) {k : Int}
    (hlk : ∃ r ∈ l.rangeList, r.begin_ ≤ k ∧ k < r.end_)
    (hmk : ∃ r ∈ m.rangeList, r.begin_ ≤ k ∧ k < r.end_) : l.testInterference m = true := by
  rcases hlk with ⟨r, hr, hrk⟩
  rcases hmk with ⟨s, hs, hsk⟩
  rw [← Bool.not_eq_false]
  intro hfalse
  have hdisj := testRanges_eq_false l.rangeList m.rangeList hl hm hfalse r hr s hs
  omega

/-! ### Splitting -/

theorem findUse_eq_none (b : Int) (us : List VRegUse) (h : findUse b us = none) :
    ∀ u ∈ us, u.end_ ≤ b := by
  induction us with
  | nil => exact fun u hu => absurd hu not_mem_nil
  | cons v us ih =>
    rw [findUse] at h
    split_ifs at h with hend
    intro u hu
    rcases mem_cons.mp hu with rfl | hmem
    · exact hend
    · exact ih (map_eq_none_iff.mp h) u hmem

/-- The uses before the found one end before the position; the found one ends
    after it, and splitting is impossible if it begins before it. -/
theorem findUse_eq_some (b : Int) (us : List VRegUse) (kind : SplitKind) (j : Nat)
    (h : findUse b us = some (kind, j)) : (∀ u ∈ us.take j, u.end_ ≤ b) ∧
      ∃ v vs, us.drop j = v :: vs ∧ b < v.end_ ∧ (kind = .impossible ↔ v.begin_ < b) := by
  induction us generalizing j with
  | nil => cases h
  | cons v us ih =>
    rw [findUse] at h
    split_ifs at h with hend hbeg hb
    · rcases map_eq_some_iff.mp h with ⟨⟨kind', i⟩, hi, heq⟩
      rcases Prod.mk.inj heq with ⟨rfl, rfl⟩
      rcases ih i hi with ⟨htake, hdrop⟩
      refine ⟨fun u hu => ?_, hdrop⟩
      rcases mem_cons.mp hu with rfl | hmem
      · exact hend
      · exact htake u hmem
    all_goals
      cases h
      exact ⟨fun u hu => absurd hu not_mem_nil, v, us, rfl, Int.not_le.mp hend, by simp [hbeg]⟩

theorem RangesOk.uses_sorted (rs : List VRegLiveRange) (h : RangesOk rs) :
    (rs.flatMap (·.useList)).Pairwise fun u v => u.begin_ ≤ v.begin_ := by
  induction rs with
  | nil => exact List.Pairwise.nil
  | cons r rs ih =>
    have hr := h.each r mem_cons_self
    refine pairwise_append.mpr ⟨hr.sorted, ih h.tail, fun u hu v hv => ?_⟩
    -- `u` lies in the range `r`, and `v` in a later one.
    rcases mem_flatMap.mp hv with ⟨s, hs, hvs⟩
    have h1 := hr.inside u hu
    have h2 := h.head_le s hs
    have h3 := (h.tail.each s hs).inside v hvs
    omega

/-- What `FindSplitPos` and `Split` do to the ranges, when splitting is possible. -/
structure SplitsAt (b : Int) (rs kept : List VRegLiveRange) (moved : List VRegUse) : Prop where
  uses : rs.flatMap (·.useList) = kept.flatMap (·.useList) ++ moved
  kept_end : ∀ u ∈ kept.flatMap (·.useList), u.end_ ≤ b
  moved_begin : ∀ u ∈ moved, b ≤ u.begin_

theorem SplitsAt.cons {b : Int} {kept : List VRegLiveRange} {moved : List VRegUse}
    (r : VRegLiveRange) (hr : ∀ u ∈ r.useList, u.end_ ≤ b) (h : SplitsAt b rs kept moved) :
    SplitsAt b (r :: rs) (r :: kept) moved := by
  refine ⟨?_, fun u hu => ?_, h.moved_begin⟩
  · rw [flatMap_cons, flatMap_cons, h.uses, append_assoc]
  · rcases mem_append.mp hu with hu | hu
    · exact hr u hu
    · exact h.kept_end u hu

/-- Splitting ranges where `FindSplitPos` says. No position leaves them alone. -/
def splitRangesAt (rs : List VRegLiveRange) :
    Option SplitPos → List VRegLiveRange × List VRegUse
  | none => (rs, [])
  | some p => splitRanges rs p.rangeIt p.useIt

theorem splitRangesAt_cons (r : VRegLiveRange) (rs : List VRegLiveRange) (p : Option SplitPos) :
    splitRangesAt (r :: rs) (p.map fun p => { p with rangeIt := p.rangeIt + 1 }) =
      (r :: (splitRangesAt rs p).1, (splitRangesAt rs p).2) := by
  cases p with
  | none => rfl
  | some p => rfl

theorem splitsAt_findRange (b : Int) (rs : List VRegLiveRange) (h : RangesOk rs)
    (hkind : (findRange b rs).1 ≠ .impossible) :
    SplitsAt b rs (splitRangesAt rs (findRange b rs).2).1
      (splitRangesAt rs (findRange b rs).2).2 := by
  induction rs with
  | nil =>
    exact ⟨rfl, fun u hu => absurd hu not_mem_nil, fun u hu => absurd hu not_mem_nil⟩
  | cons r rs ih =>
    have hr := h.each r mem_cons_self
    rw [findRange] at hkind ⊢
    by_cases hend : r.end_ ≤ b
    · rw [if_pos hend] at hkind ⊢
      rw [Prod.map_snd, splitRangesAt_cons]
      exact (ih h.tail hkind).cons r (fun u hu => Int.le_trans (hr.inside u hu).2.2 hend)
    · rw [if_neg hend] at hkind ⊢
      cases huse : findUse b r.useList with
      | none =>
        rw [huse] at hkind
        rw [Prod.map_snd, splitRangesAt_cons]
        exact (ih h.tail hkind).cons r (findUse_eq_none b r.useList huse)
      | some found =>
        rcases found with ⟨kind, j⟩
        rw [huse] at hkind
        rcases findUse_eq_some b r.useList kind j huse with ⟨htake, v, vs, hdrop, _, hbeg⟩
        have hv := Int.not_lt.mp (mt hbeg.mpr hkind)
        -- The first moved use begins late enough, so all of them do.
        have hsort := h.uses_sorted
        have hspl : (r :: rs).flatMap (·.useList) =
            r.useList.take j ++ (r.useList.drop j ++ rs.flatMap (·.useList)) := by
          rw [flatMap_cons, ← append_assoc, take_append_drop]
        have hmov : ∀ u ∈ r.useList.drop j ++ rs.flatMap (·.useList), b ≤ u.begin_ := by
          rw [hspl, hdrop, cons_append] at hsort
          have haft := (pairwise_append.mp hsort).2.1
          intro u hu
          rw [hdrop, cons_append] at hu
          rcases mem_cons.mp hu with rfl | hu
          · exact hv
          · exact Int.le_trans hv ((pairwise_cons.mp haft).1 u hu)
        dsimp only [splitRangesAt, splitRanges]
        by_cases hj : j = 0
        · rw [if_neg (not_not.mpr hj)]
          refine ⟨?_, fun u hu => absurd hu not_mem_nil, hmov⟩
          rw [hspl, hj]
          rfl
        · rw [if_pos hj]
          refine ⟨?_, fun u hu => ?_, hmov⟩
          · rw [hspl, flatMap_cons, flatMap_nil, append_nil]
          · rw [flatMap_cons, flatMap_nil, append_nil] at hu
            exact htake u hu

theorem split_eq (l : VRegLifetime) (p : Option SplitPos) :
    l.split p = ({ l with rangeList := (splitRangesAt l.rangeList p).1 },
      (splitRangesAt l.rangeList p).2.map fun u =>
        { VRegLifetime.ofUse u with spillSlot := l.spillSlot }) := by
  cases p with
  | none => rfl
  | some p => rfl

theorem findRange_impossible (b : Int) (rs : List VRegLiveRange)
    (h : (findRange b rs).1 = .impossible) :
    ∃ u ∈ rs.flatMap (·.useList), u.begin_ < b ∧ b < u.end_ := by
  induction rs with
  | nil => cases h
  | cons r rs ih =>
    have hlat : (findRange b rs).1 = .impossible →
        ∃ u ∈ (r :: rs).flatMap (·.useList), u.begin_ < b ∧ b < u.end_ := fun h => by
      rcases ih h with ⟨u, hu, hin⟩
      exact ⟨u, mem_append_right _ hu, hin⟩
    rw [findRange] at h
    split_ifs at h with hend
    · exact hlat h
    · cases huse : findUse b r.useList with
      | none =>
        rw [huse] at h
        exact hlat h
      | some found =>
        rcases found with ⟨kind, j⟩
        rw [huse] at h
        rcases findUse_eq_some b r.useList kind j huse with ⟨_, v, vs, hdrop, hend, hbeg⟩
        exact ⟨v, mem_append_left _ (mem_of_mem_drop (hdrop ▸ mem_cons_self)), hbeg.mp h, hend⟩

theorem SplitsAt.filter {b : Int} {kept : List VRegLiveRange} {moved : List VRegUse}
    (h : SplitsAt b rs kept moved) (hne : ∀ u ∈ rs.flatMap (·.useList), u.begin_ < u.end_) :
    kept.flatMap (·.useList) = (rs.flatMap (·.useList)).filter (·.end_ ≤ b) ∧
      moved = (rs.flatMap (·.useList)).filter (b ≤ ·.begin_) := by
  rw [h.uses] at hne ⊢
  rw [filter_append, filter_append]
  refine ⟨?_, ?_⟩
  · rw [filter_eq_self.mpr, filter_eq_nil_iff.mpr, append_nil]
    · intro u hu
      have hbeg := h.moved_begin u hu
      have hlt := hne u (mem_append_right _ hu)
      simp only [decide_eq_true_eq]
      omega
    · exact fun u hu => decide_eq_true (h.kept_end u hu)
  · rw [filter_eq_nil_iff.mpr, filter_eq_self.mpr, nil_append]
    · exact fun u hu => decide_eq_true (h.moved_begin u hu)
    · intro u hu
      have hend := h.kept_end u hu
      have hlt := hne u (mem_append_left _ hu)
      simp only [decide_eq_true_eq]
      omega

/-- Splitting is impossible exactly where a use straddles the position, and else parts the uses.
    Lifetimes interfere exactly where they have a tick in common. -/
theorem split_partitions (l m : VRegLifetime) (b : Int) (hl : RangesOk l.rangeList)
    (hm : RangesOk m.rangeList) (huses : ∀ u ∈ l.uses, u.begin_ < u.end_) :
    ((l.findSplitPos b).1 = .impossible ↔ ∃ u ∈ l.uses, u.begin_ < b ∧ b < u.end_) ∧
      ((l.findSplitPos b).1 ≠ .impossible →
        (l.split (l.findSplitPos b).2).1.uses = l.uses.filter (·.end_ ≤ b) ∧
        (l.split (l.findSplitPos b).2).2 = (l.uses.filter (b ≤ ·.begin_)).map fun u =>
          { VRegLifetime.ofUse u with spillSlot := l.spillSlot }) ∧
      ((∀ r ∈ l.rangeList ++ m.rangeList, r.begin_ < r.end_) →
        (l.testInterference m = true ↔ ∃ t, (∃ r ∈ l.rangeList, r.begin_ ≤ t ∧ t < r.end_) ∧
          ∃ r ∈ m.rangeList, r.begin_ ≤ t ∧ t < r.end_)) := by
  refine ⟨⟨findRange_impossible b _, ?_⟩, fun hkind => ?_, fun hranges => ⟨fun h => ?_, ?_⟩⟩
  · rintro ⟨u, hu, hlt, hgt⟩
    by_contra hkind
    have hsplit := splitsAt_findRange b l.rangeList hl hkind
    rw [VRegLifetime.uses, hsplit.uses] at hu
    rcases mem_append.mp hu with hu | hu
    · have hend := hsplit.kept_end u hu
      omega
    · have hbegin := hsplit.moved_begin u hu
      omega
  · rcases (splitsAt_findRange b l.rangeList hl hkind).filter huses with ⟨hkept, hmoved⟩
    rw [split_eq]
    exact ⟨hkept, congrArg (map _) hmoved⟩
  · rcases exists_of_testRanges _ _ h with ⟨i, hi, j, hj, hover⟩
    have h1 := hranges i (mem_append_left _ hi)
    have h2 := hranges j (mem_append_right _ hj)
    exact ⟨max i.begin_ j.begin_, ⟨i, hi, by omega⟩, j, hj, by omega⟩
  · rintro ⟨t, hlt, hmt⟩
    exact testInterference_of_common hl hm hlt hmt

/-- A lifetime with uses at 1 and 5, split at 3; a use from 4 on interferes with it. -/
theorem split_partitions_twoUses :
    let u : VRegUse := ⟨0, 0, 1, 2, ⟨6, [1]⟩⟩
    let v : VRegUse := ⟨1, 0, 5, 6, ⟨6, [1]⟩⟩
    let l := { VRegLifetime.ofUse u with rangeList := [⟨1, 6, [u, v]⟩] }
    (l.split (l.findSplitPos 3).2).1.uses = [u] ∧ l.testInterference (.ofUse v) = true := by
  intro u v l
  rcases split_partitions l (.ofUse v) 3 (by decide) (by decide) (by decide) with
    ⟨_, hsplit, hinterference⟩
  exact ⟨(hsplit (by decide)).1, (hinterference (by decide)).mpr
    ⟨5, ⟨_, mem_cons_self, by decide⟩, _, mem_cons_self, by decide⟩⟩

/-! ### Occupied intervals -/

def Overlap (a b : Int × Int) : Prop := max a.1 b.1 < min a.2 b.2

instance (a b : Int × Int) : Decidable (Overlap a b) :=
  inferInstanceAs (Decidable (max a.1 b.1 < min a.2 b.2))

/-- Where a lifetime needs its hard register: all its ranges, or only its uses
    once it lives in a spill slot. -/
def VRegLifetime.occupied (l : VRegLifetime) : List (Int × Int) :=
  match l.spillSlot with
  | none => l.rangeList.map fun r => (r.begin_, r.end_)
  | some _ => l.uses.map fun u => (u.begin_, u.end_)

def Within (a b : Int × Int) : Prop := b.1 ≤ a.1 ∧ a.2 ≤ b.2

theorem not_overlap_of_within (a a' b : Int × Int) (h : Within a a') (hb : ¬ Overlap a' b) :
    ¬ Overlap a b := by
  unfold Overlap Within at *
  omega

theorem overlap_comm (a b : Int × Int) : Overlap a b ↔ Overlap b a := by
  unfold Overlap
  omega

theorem use_within (rs : List VRegLiveRange) (h : RangesOk rs) (u : VRegUse)
    (hu : u ∈ rs.flatMap (·.useList)) : ∃ r ∈ rs, Within (u.begin_, u.end_) (r.begin_, r.end_) := by
  rcases mem_flatMap.mp hu with ⟨r, hr, hur⟩
  have hin := (h.each r hr).inside u hur
  exact ⟨r, hr, hin.1, hin.2.2⟩

theorem occupied_within (l : VRegLifetime) (h : RangesOk l.rangeList) (a : Int × Int)
    (ha : a ∈ l.occupied) : ∃ r ∈ l.rangeList, Within a (r.begin_, r.end_) := by
  unfold VRegLifetime.occupied at ha
  cases hslot : l.spillSlot with
  | none =>
    rw [hslot] at ha
    rcases mem_map.mp ha with ⟨r, hr, rfl⟩
    exact ⟨r, hr, Int.le_refl _, Int.le_refl _⟩
  | some slot =>
    rw [hslot] at ha
    rcases mem_map.mp ha with ⟨u, hu, rfl⟩
    exact use_within l.rangeList h u hu

theorem begin_le (l : VRegLifetime) (h : l.Ok) (r : VRegLiveRange) (hr : r ∈ l.rangeList) :
    l.begin_ ≤ r.begin_ := by
  unfold VRegLifetime.begin_
  cases hrs : l.rangeList with
  | nil => exact absurd hrs h.nonempty
  | cons s rs =>
    have hok : RangesOk (s :: rs) := hrs ▸ h.ranges
    rw [hrs] at hr
    rcases mem_cons.mp hr with rfl | hmem
    · exact Int.le_refl _
    · have h1 := hok.head_le r hmem
      have h2 := (hok.each s mem_cons_self).le
      simp only [head?_cons, map_some, getD_some]
      omega

theorem le_end (l : VRegLifetime) (h : l.Ok) (r : VRegLiveRange) (hr : r ∈ l.rangeList) :
    r.end_ ≤ l.end_ := by
  unfold VRegLifetime.end_
  rcases eq_nil_or_concat l.rangeList with hrs | ⟨rs, s, hrs⟩
  · exact absurd hrs h.nonempty
  · rw [concat_eq_append] at hrs
    have hok : RangesOk (rs ++ [s]) := hrs ▸ h.ranges
    rw [hrs] at hr ⊢
    simp only [getLast?_append, getLast?_singleton, some_or, map_some, getD_some]
    rcases mem_append.mp hr with hmem | hmem
    · have h1 := (pairwise_append.mp hok.sorted).2.2 r hmem s (mem_singleton_self s)
      have h2 := (hok.each s (mem_append_right rs (mem_singleton_self s))).le
      omega
    · exact Int.le_of_eq (congrArg VRegLiveRange.end_ (mem_singleton.mp hmem))

end Berberis.RegAlloc
