import Berberis.Backend.LifetimeAnalysis

/-!
# Live Ranges of One Register

What the analysis does to one register: its accesses extend the last range or
begin a new one. While a block is scanned, the ticks at which the value of the
register is needed are covered, except that the last range may have to be
extended by a later read, as long as the register is live.
-/

namespace Berberis.RegAlloc

open List

/-! ### The last range -/

theorem modifyLast_append (f : VRegLiveRange → VRegLiveRange) (init : List VRegLiveRange)
    (last : VRegLiveRange) : modifyLast f (init ++ [last]) = init ++ [f last] := by
  unfold modifyLast
  rw [dropLast_concat, getLast?_concat]
  rfl

variable (init : List VRegLiveRange) (last : VRegLiveRange)

theorem lastLiveRangeBegin_append :
    lastLiveRangeBegin (init ++ [last]) = last.begin_ := by
  unfold lastLiveRangeBegin
  rw [getLast?_concat]
  rfl

theorem lastLiveRangeEnd_append :
    lastLiveRangeEnd (init ++ [last]) = last.end_ := by
  unfold lastLiveRangeEnd
  rw [getLast?_concat]
  rfl

theorem lastUseList_append :
    lastUseList (init ++ [last]) = last.useList := by
  unfold lastUseList
  rw [getLast?_concat]
  rfl

def VRegLiveRange.extend (r : VRegLiveRange) (us : List VRegUse) : VRegLiveRange :=
  us.foldl VRegLiveRange.appendUse r

section

variable {r : VRegLiveRange} {u : VRegUse}

theorem end_le_appendUse : r.end_ ≤ (r.appendUse u).end_ := by
  unfold VRegLiveRange.appendUse
  dsimp only
  split_ifs <;> omega

theorem use_end_le_appendUse : u.end_ ≤ (r.appendUse u).end_ := by
  unfold VRegLiveRange.appendUse
  dsimp only
  split_ifs <;> omega

theorem appendUse_end_le {t : Int} (hr : r.end_ ≤ t) (hu : u.end_ ≤ t) :
    (r.appendUse u).end_ ≤ t := by
  unfold VRegLiveRange.appendUse
  split_ifs
  · exact hu
  · exact hr

end

theorem extend_spec (us : List VRegUse) (r : VRegLiveRange) :
    (r.extend us).begin_ = r.begin_ ∧ (r.extend us).useList = r.useList ++ us ∧
      r.end_ ≤ (r.extend us).end_ ∧ (∀ u ∈ us, u.end_ ≤ (r.extend us).end_) ∧
      ∀ t, r.end_ ≤ t → (∀ u ∈ us, u.end_ ≤ t) → (r.extend us).end_ ≤ t := by
  induction us generalizing r with
  | nil =>
    refine ⟨rfl, (append_nil _).symm, Int.le_refl _, fun u hu => ?_, fun t ht _ => ht⟩
    exact absurd hu not_mem_nil
  | cons u us ih =>
    rcases ih (r.appendUse u) with ⟨hbeg, huses, hend, hall, hle⟩
    change ((r.appendUse u).extend us).begin_ = _ ∧ ((r.appendUse u).extend us).useList = _ ∧
      r.end_ ≤ ((r.appendUse u).extend us).end_ ∧
      (∀ v ∈ u :: us, v.end_ ≤ ((r.appendUse u).extend us).end_) ∧
      ∀ t, r.end_ ≤ t → (∀ v ∈ u :: us, v.end_ ≤ t) → ((r.appendUse u).extend us).end_ ≤ t
    refine ⟨hbeg, ?_, end_le_appendUse.trans hend, fun v hv => ?_, fun t ht hus => ?_⟩
    · rw [huses]
      exact append_assoc _ _ _
    · rcases mem_cons.mp hv with rfl | hv
      · exact use_end_le_appendUse.trans hend
      · exact hall v hv
    · exact hle t (appendUse_end_le ht (hus u mem_cons_self))
        fun v hv => hus v (mem_cons_of_mem u hv)

theorem extend_ok {r : VRegLiveRange} {us : List VRegUse} (hr : r.Ok)
    (hin : ∀ u ∈ us, r.begin_ ≤ u.begin_ ∧ u.begin_ ≤ u.end_)
    (hsort : us.Pairwise fun u v => u.begin_ ≤ v.begin_)
    (haft : ∀ u ∈ r.useList, ∀ v ∈ us, u.begin_ ≤ v.begin_) : (r.extend us).Ok := by
  rcases extend_spec us r with ⟨hbeg, huses, hend, hall, _⟩
  refine ⟨?_, fun u hu => ?_, ?_⟩
  · rw [hbeg]
    exact hr.le.trans hend
  · rw [huses] at hu
    rw [hbeg]
    rcases mem_append.mp hu with hu | hu
    · exact ⟨(hr.inside u hu).1, (hr.inside u hu).2.1, (hr.inside u hu).2.2.trans hend⟩
    · exact ⟨(hin u hu).1, (hin u hu).2, hall u hu⟩
  · rw [huses]
    exact pairwise_append.mpr ⟨hr.sorted, hsort, haft⟩

/-! ### The accesses of an instruction -/

def accessRange (bbTick : Int) (o : Option (List VRegLiveRange)) (a : VRegAccess) :
    Option (List VRegLiveRange) :=
  some (appendUseToRanges (rangesInBlock bbTick a.use.begin_ o) a)

def accessRanges (bbTick : Int) (o : Option (List VRegLiveRange)) (as : List VRegAccess) :
    Option (List VRegLiveRange) :=
  as.foldl (accessRange bbTick) o

theorem accessRanges_extend {bbTick : Int} (as : List VRegAccess)
    (last : VRegLiveRange) (hblock : bbTick ≤ last.begin_)
    (hgap : ∀ a ∈ as, a.isDefOnly = true → a.use.begin_ ≤ last.end_) :
    accessRanges bbTick (some (init ++ [last])) as =
      some (init ++ [last.extend (as.map (·.use))]) := by
  induction as generalizing last with
  | nil => rfl
  | cons a as ih =>
    have hhead : accessRange bbTick (some (init ++ [last])) a =
        some (init ++ [last.appendUse a.use]) := by
      have hnog : (a.isDefOnly && decide (last.end_ < a.use.begin_)) = false := by
        cases hdef : a.isDefOnly with
        | false => rfl
        | true =>
          have hle := hgap a mem_cons_self hdef
          rw [Bool.true_and, decide_eq_false_iff_not]
          omega
      unfold accessRange rangesInBlock appendUseToRanges
      simp [lastLiveRangeBegin_append, lastLiveRangeEnd_append, if_neg (not_lt.mpr hblock), hnog,
        modifyLast_append]
    change accessRanges bbTick (accessRange bbTick (some (init ++ [last])) a) as = _
    rw [hhead]
    refine ih (last.appendUse a.use) hblock fun b hb hdef => ?_
    exact (hgap b (mem_cons_of_mem a hb) hdef).trans end_le_appendUse

/-- An access begins a range if the register has none in the block, or if it is
    a write after a gap. -/
theorem accessRange_fresh {bbTick : Int} {o : Option (List VRegLiveRange)} {a : VRegAccess}
    (h : ∀ init last, o = some (init ++ [last]) → last.begin_ < bbTick ∨
      (a.isDefOnly = true ∧ last.end_ < a.use.begin_ ∧ last.useList ≠ [])) (hne : o ≠ some []) :
    accessRange bbTick o a = some (o.getD [] ++ [(emptyRange a.use.begin_).appendUse a.use]) := by
  have hnew : ∀ rs : List VRegLiveRange, appendUseToRanges (rs ++ [emptyRange a.use.begin_]) a =
      rs ++ [(emptyRange a.use.begin_).appendUse a.use] := by
    intro rs
    unfold appendUseToRanges
    have hnog : decide ((emptyRange a.use.begin_).end_ < a.use.begin_) = false :=
      decide_eq_false (Int.lt_irrefl _)
    simp [lastLiveRangeEnd_append, hnog, modifyLast_append]
  unfold accessRange
  cases o with
  | none => exact congrArg some (hnew [])
  | some rs =>
    rcases eq_nil_or_concat rs with rfl | ⟨init, last, rfl⟩
    · exact absurd rfl hne
    · rw [concat_eq_append] at h ⊢
      rw [rangesInBlock, lastLiveRangeBegin_append]
      by_cases hold : last.begin_ < bbTick
      · rw [if_pos hold, hnew]
        rfl
      · rcases h init last rfl with hlt | ⟨hdef, hgap, huses⟩
        · exact absurd hlt hold
        · rw [if_neg hold]
          unfold appendUseToRanges
          simp only [lastLiveRangeEnd_append, lastUseList_append, hdef, decide_eq_true hgap,
            Bool.and_self, if_true, if_neg huses, modifyLast_append, Option.getD_some]

/-! ### Scanning a block -/

/-- The ranges of a register within a block, up to a tick: `live` says whether its value may still
    be read, `need` at which ticks it was needed, and `us` how it was used. Needed ticks are
    covered, or will be when the last range is extended. -/
structure Scanned (bbTick t : Int) (live : Prop) (need : Int → Prop) (us : List VRegUse)
    (init : List VRegLiveRange) (last : VRegLiveRange) : Prop where
  ok : RangesOk (init ++ [last])
  uses : (init ++ [last]).flatMap (·.useList) = us
  nonempty : ∀ r ∈ init, r.begin_ < r.end_
  end_le : last.end_ ≤ t
  inBlock : live → bbTick ≤ last.begin_
  pending : last.begin_ = last.end_ → last.begin_ = bbTick ∧ live
  unused : bbTick ≤ last.begin_ → last.useList = [] → live
  covered : ∀ k, k < t → need k →
    (∃ r ∈ init ++ [last], r.begin_ ≤ k ∧ k < r.end_) ∨ (live ∧ last.begin_ ≤ k)

def ScannedRanges (bbTick t : Int) (live : Prop) (need : Int → Prop) (us : List VRegUse) :
    Option (List VRegLiveRange) → Prop
  | none => us = [] ∧ ¬ live ∧ ∀ k, k < t → ¬ need k
  | some rs => ∃ init last, rs = init ++ [last] ∧ Scanned bbTick t live need us init last

section

variable {bbTick t : Int} {live live' : Prop} {need : Int → Prop} {us : List VRegUse}
  {o : Option (List VRegLiveRange)}

section

variable (h : ScannedRanges bbTick t live need us o)
include h

theorem ScannedRanges.ne_some_nil : o ≠ some [] := by
  rintro rfl
  rcases h with ⟨init, last, heq, _⟩
  exact absurd heq.symm (append_ne_nil_of_right_ne_nil _ (cons_ne_nil _ _))

theorem ScannedRanges.flatMap_uses : (o.getD []).flatMap (·.useList) = us := by
  cases o with
  | none => exact h.1.symm
  | some rs =>
    rcases h with ⟨init, last, rfl, hscan⟩
    exact hscan.uses

theorem ScannedRanges.of_not_live (hlive : ¬ live) :
    RangesOk (o.getD []) ∧ (∀ r ∈ o.getD [], r.begin_ < r.end_ ∧ r.end_ ≤ t) ∧
      ∀ k, k < t → need k → ∃ r ∈ o.getD [], r.begin_ ≤ k ∧ k < r.end_ := by
  cases o with
  | none =>
    refine ⟨⟨fun r hr => absurd hr not_mem_nil, .nil⟩,
      fun r hr => absurd hr not_mem_nil, fun k hk hneed => absurd hneed (h.2.2 k hk)⟩
  | some rs =>
    rcases h with ⟨init, last, rfl, hscan⟩
    have hlast : last.begin_ < last.end_ := by
      have hle := (hscan.ok.each last (by simp)).le
      have hne : last.begin_ ≠ last.end_ := fun heq => hlive (hscan.pending heq).2
      omega
    refine ⟨hscan.ok, fun r hr => ?_, fun k hk hneed => ?_⟩
    · rcases mem_append.mp hr with hr | hr
      · -- Earlier ranges end before the last one begins.
        have hsort := (pairwise_append.mp hscan.ok.sorted).2.2 r hr last (by simp)
        have hend := hscan.end_le
        exact ⟨hscan.nonempty r hr, by omega⟩
      · rw [mem_singleton.mp hr]
        exact ⟨hlast, hscan.end_le⟩
    · rcases hscan.covered k hk hneed with hcov | ⟨hl, _⟩
      · exact hcov
      · exact absurd hl hlive

theorem scanned_of_no_access (hsame : live ↔ live') (hneed : need t → live)
    (hneed' : need (t + 1) → live') : ScannedRanges bbTick (t + 2) live' need us o := by
  cases o with
  | none =>
    refine ⟨h.1, fun hl => h.2.1 (hsame.mpr hl), fun k hk hn => ?_⟩
    by_cases hlt : k < t
    · exact h.2.2 k hlt hn
    · rcases (by omega : k = t ∨ k = t + 1) with rfl | rfl
      · exact h.2.1 (hneed hn)
      · exact h.2.1 (hsame.mpr (hneed' hn))
  | some rs =>
    rcases h with ⟨init, last, heq, hs⟩
    have hbeg : last.begin_ ≤ t := (hs.ok.each last (by simp)).le.trans hs.end_le
    refine ⟨init, last, heq, hs.ok, hs.uses, hs.nonempty, by have := hs.end_le; omega,
      fun hl => hs.inBlock (hsame.mpr hl),
      fun hemp => ⟨(hs.pending hemp).1, hsame.mp (hs.pending hemp).2⟩,
      fun hb hu => hsame.mp (hs.unused hb hu), fun k hk hn => ?_⟩
    by_cases hlt : k < t
    · exact (hs.covered k hlt hn).imp_right fun hl => ⟨hsame.mp hl.1, hl.2⟩
    · rcases (by omega : k = t ∨ k = t + 1) with rfl | rfl
      · exact Or.inr ⟨hsame.mp (hneed hn), hbeg⟩
      · exact Or.inr ⟨hneed' hn, by omega⟩

end

end

section

variable {bbTick t : Int} {live live' : Prop} {need : Int → Prop} {us : List VRegUse}
  {o : Option (List VRegLiveRange)}

/-- What the accesses of an instruction to a register are like: first uses from
    the tick on, then writes from the next tick on. -/
structure InsnAccesses (t : Int) (used defined : List VRegAccess) : Prop where
  used : ∀ a ∈ used, a.isDefOnly = false ∧ a.use.begin_ = t ∧ t < a.use.end_ ∧ a.use.end_ ≤ t + 2
  defined : ∀ a ∈ defined, a.isDefOnly = true ∧ a.use.begin_ = t + 1 ∧ a.use.end_ = t + 2

variable {used defined : List VRegAccess}

theorem InsnAccesses.mem (h : InsnAccesses t used defined) :
    ∀ a ∈ used ++ defined, t ≤ a.use.begin_ ∧ a.use.begin_ < a.use.end_ ∧ a.use.end_ ≤ t + 2 := by
  intro a ha
  rcases mem_append.mp ha with ha | ha
  · have hused := h.used a ha
    omega
  · have hdef := h.defined a ha
    omega

theorem InsnAccesses.sorted (h : InsnAccesses t used defined) :
    ((used ++ defined).map (·.use)).Pairwise fun u v => u.begin_ ≤ v.begin_ := by
  rw [pairwise_map, pairwise_append]
  refine ⟨pairwise_of_forall_mem_list fun a ha b hb => ?_,
    pairwise_of_forall_mem_list fun a ha b hb => ?_, fun a ha b hb => ?_⟩
  · rw [(h.used a ha).2.1, (h.used b hb).2.1]
  · rw [(h.defined a ha).2.1, (h.defined b hb).2.1]
  · have hused := h.used a ha
    have hdef := h.defined b hb
    omega

theorem scanned_append {r : VRegLiveRange} {more : List VRegUse}
    (h : ScannedRanges bbTick t live need us o) (hlive : ¬ live) (hneed : need t → live)
    (hneed' : need (t + 1) → live') (hblock : bbTick ≤ t) (hr : r.Ok) (huses : r.useList = more)
    (hmore : more ≠ []) (hbeg : t ≤ r.begin_) (hbeg' : r.begin_ ≤ t + 1)
    (hlt : r.begin_ < r.end_) (hend : r.end_ ≤ t + 2) :
    ScannedRanges bbTick (t + 2) live' need (us ++ more) (some (o.getD [] ++ [r])) := by
  rcases h.of_not_live hlive with ⟨hok, hbef, hcover⟩
  refine ⟨o.getD [], r, rfl, ⟨?_, ?_⟩, ?_, fun s hs => (hbef s hs).1, hend,
    fun _ => hblock.trans hbeg, fun heq => absurd heq (Int.ne_of_lt hlt),
    fun _ hnil => absurd (huses.symm.trans hnil) hmore, fun k hk hn => ?_⟩
  · intro s hs
    rcases mem_append.mp hs with hs | hs
    · exact hok.each s hs
    · rw [mem_singleton.mp hs]
      exact hr
  · refine pairwise_append.mpr ⟨hok.sorted, pairwise_singleton _ _, fun s hs s' hs' => ?_⟩
    rw [mem_singleton.mp hs']
    exact (hbef s hs).2.trans hbeg
  · rw [flatMap_append, h.flatMap_uses, flatMap_singleton, huses]
  · by_cases hlt' : k < t
    · rcases hcover k hlt' hn with ⟨s, hs, hcov⟩
      exact Or.inl ⟨s, mem_append_left _ hs, hcov⟩
    · rcases (by omega : k = t ∨ k = t + 1) with rfl | rfl
      · exact absurd (hneed hn) hlive
      · exact Or.inr ⟨hneed' hn, hbeg'⟩

theorem scanned_extend {init : List VRegLiveRange} {last : VRegLiveRange} {more : List VRegUse}
    (h : Scanned bbTick t live need us init last) (hneed' : need (t + 1) → live')
    (hblock : bbTick ≤ last.begin_)
    (hmore : ∀ u ∈ more, t ≤ u.begin_ ∧ u.begin_ < u.end_ ∧ u.end_ ≤ t + 2)
    (hsort : more.Pairwise fun u v => u.begin_ ≤ v.begin_) (hnow : ∃ u ∈ more, u.begin_ = t) :
    Scanned bbTick (t + 2) live' need (us ++ more) init (last.extend more) := by
  rcases extend_spec more last with ⟨hbeg, huses, hend, hall, hle⟩
  rcases hnow with ⟨u, hu, hut⟩
  have hlast := h.ok.each last (by simp)
  have hlastEnd := h.end_le
  have htick : t < (last.extend more).end_ := by
    have hu' := hmore u hu
    have hall' := hall u hu
    omega
  have hle' := hlast.le
  refine ⟨⟨fun s hs => ?_, ?_⟩, ?_, h.nonempty, ?_, ?_, ?_, ?_, fun k hk hn => ?_⟩
  · rcases mem_append.mp hs with hs | hs
    · exact h.ok.each s (mem_append_left _ hs)
    · rw [mem_singleton.mp hs]
      refine extend_ok hlast (fun v hv => ?_) hsort fun v hv w hw => ?_
      · have hv' := hmore v hv
        omega
      · have hv' := hlast.inside v hv
        have hw' := hmore w hw
        omega
  · have hpair := pairwise_append.mp h.ok.sorted
    refine pairwise_append.mpr ⟨hpair.1, pairwise_singleton _ _, fun s hs s' hs' => ?_⟩
    rw [mem_singleton.mp hs', hbeg]
    exact hpair.2.2 s hs last (by simp)
  · rw [← h.uses, flatMap_append, flatMap_append, flatMap_singleton,
      flatMap_singleton, huses, append_assoc]
  · exact hle (t + 2) (by omega) fun v hv => (hmore v hv).2.2
  · intro _
    rw [hbeg]
    exact hblock
  · intro heq
    omega
  · intro _ hnil
    rw [huses, append_eq_nil_iff] at hnil
    rw [hnil.2] at hu
    exact absurd hu not_mem_nil
  · by_cases hlt : k ≤ t
    · -- Whatever was left to be covered now is, up to the tick.
      have hcas : (∃ r ∈ init ++ [last], r.begin_ ≤ k ∧ k < r.end_) ∨ last.begin_ ≤ k := by
        by_cases hkt : k < t
        · exact (h.covered k hkt hn).imp_right And.right
        · exact Or.inr (by omega)
      refine Or.inl ?_
      rcases hcas with ⟨r, hr, hcov⟩ | hcov
      · rcases mem_append.mp hr with hr | hr
        · exact ⟨r, mem_append_left _ hr, hcov⟩
        · rw [mem_singleton.mp hr] at hcov
          exact ⟨last.extend more, by simp, by omega⟩
      · exact ⟨last.extend more, by simp, by omega⟩
    · have hk' : k = t + 1 := by omega
      rw [hk'] at hn
      exact Or.inr ⟨hneed' hn, by omega⟩

theorem mem_of_append_eq_cons {α : Type} {xs ys rest : List α} {a : α} (hne : xs ≠ [])
    (h : xs ++ ys = a :: rest) : a ∈ xs := by
  cases xs with
  | nil => exact absurd rfl hne
  | cons x xs =>
    rw [cons_append, List.cons.injEq] at h
    rw [h.1]
    exact mem_cons_self

theorem scannedRanges_of_live (h : ScannedRanges bbTick t live need us o) (hlive : live) :
    ∃ init last, o = some (init ++ [last]) ∧ Scanned bbTick t live need us init last := by
  cases o with
  | none => exact absurd hlive h.2.1
  | some rs =>
    rcases h with ⟨init, last, rfl, hscan⟩
    exact ⟨init, last, rfl, hscan⟩

theorem scanned_accessRanges (h : ScannedRanges bbTick t live need us o) (hblock : bbTick ≤ t)
    (ha : InsnAccesses t used defined) (hneed : need t → live) (hneed' : need (t + 1) → live')
    (hnone : used = [] → defined = [] → (live ↔ live'))
    (hdead : used = [] → defined ≠ [] → ¬ live) :
    ScannedRanges bbTick (t + 2) live' need (us ++ (used ++ defined).map (·.use))
      (accessRanges bbTick o (used ++ defined)) := by
  rcases hlist : used ++ defined with _ | ⟨a, rest⟩
  · rw [append_eq_nil_iff] at hlist
    rw [map_nil, append_nil]
    exact scanned_of_no_access h (hnone hlist.1 hlist.2) hneed hneed'
  · have hmem := ha.mem
    have hsort := ha.sorted
    rw [hlist] at hmem hsort
    have hfst := hmem a mem_cons_self
    -- Writes that follow the first access leave no gap after it.
    have hgap : ∀ b ∈ rest, b.isDefOnly = true → b.use.begin_ ≤ a.use.end_ := by
      intro b hb hdef
      have hb' : b ∈ used ++ defined := by
        rw [hlist]
        exact mem_cons_of_mem a hb
      rcases mem_append.mp hb' with hb' | hb'
      · rw [(ha.used b hb').1] at hdef
        exact absurd hdef Bool.false_ne_true
      · have hdefin := ha.defined b hb'
        omega
    by_cases hfresh : ∀ init last, o = some (init ++ [last]) → last.begin_ < bbTick ∨
        (a.isDefOnly = true ∧ last.end_ < a.use.begin_ ∧ last.useList ≠ [])
    · have hlive : ¬ live := by
        intro hl
        by_cases hused : used = []
        · refine hdead hused (fun hdefin => ?_) hl
          rw [hused, hdefin] at hlist
          cases hlist
        · have hamem := ha.used a (mem_of_append_eq_cons hused hlist)
          rcases scannedRanges_of_live h hl with ⟨init, last, rfl, hscan⟩
          rcases hfresh init last rfl with hlt | ⟨hdef, _⟩
          · exact absurd (hscan.inBlock hl) (Int.not_le.mpr hlt)
          · rw [hamem.1] at hdef
            exact Bool.false_ne_true hdef
      change ScannedRanges bbTick (t + 2) live' need _
        (accessRanges bbTick (accessRange bbTick o a) rest)
      rw [accessRange_fresh hfresh h.ne_some_nil, accessRanges_extend _ _ _ (hblock.trans hfst.1)
          fun b hb hdef => (hgap b hb hdef).trans use_end_le_appendUse]
      rcases extend_spec ((a :: rest).map (·.use)) (emptyRange a.use.begin_) with
        ⟨hbeg, huses, _, hall, hle⟩
      have hend := hall a.use (mem_map_of_mem mem_cons_self)
      have hemp : (emptyRange a.use.begin_).Ok :=
        ⟨Int.le_refl _, fun u hu => absurd hu not_mem_nil, .nil⟩
      refine scanned_append h hlive hneed hneed' hblock
        (r := (emptyRange a.use.begin_).extend ((a :: rest).map (·.use)))
        (extend_ok hemp (fun u hu => ?_) hsort fun u hu => absurd hu not_mem_nil)
        huses (cons_ne_nil _ _) ?_ ?_ ?_ ?_
      · rcases mem_map.mp hu with ⟨b, hb, rfl⟩
        have hb' := hmem b hb
        refine ⟨?_, by omega⟩
        rcases mem_cons.mp hb with rfl | hb
        · exact Int.le_refl _
        · rw [map_cons, pairwise_cons] at hsort
          exact hsort.1 b.use (mem_map_of_mem hb)
      · rw [hbeg]
        exact hfst.1
      · rw [hbeg]
        change a.use.begin_ ≤ t + 1
        omega
      · rw [hbeg]
        exact Int.lt_of_lt_of_le hfst.2.1 hend
      · refine hle (t + 2) ?_ fun u hu => ?_
        · change a.use.begin_ ≤ t + 2
          omega
        · rcases mem_map.mp hu with ⟨b, hb, rfl⟩
          exact (hmem b hb).2.2
    · simp only [not_forall, not_or, not_and, not_not, Int.not_lt] at hfresh
      rcases hfresh with ⟨init, last, rfl, hin, hnog⟩
      rcases h with ⟨init', last', heq, hscan⟩
      rcases append_inj' heq rfl with ⟨rfl, hlast⟩
      rw [singleton_inj] at hlast
      rw [← hlast] at hscan
      -- The first access is a use: before a write the register is dead, and
      -- what is dead has been used.
      have hused : a ∈ used := by
        by_cases hnil : used = []
        · have hdefin : a ∈ defined := by
            rw [hnil, nil_append] at hlist
            rw [hlist]
            exact mem_cons_self
          have hdef := ha.defined a hdefin
          have hend := hscan.end_le
          exact absurd (hscan.unused hin (hnog hdef.1 (by omega)))
            (hdead hnil (ne_nil_of_mem hdefin))
        · exact mem_of_append_eq_cons hnil hlist
      have hafirst := ha.used a hused
      have hone : accessRange bbTick (some (init ++ [last])) a =
          some (init ++ [last.appendUse a.use]) := by
        refine accessRanges_extend init [a] last hin fun b hb hdef => ?_
        rw [mem_singleton.mp hb, hafirst.1] at hdef
        exact absurd hdef Bool.false_ne_true
      change ScannedRanges bbTick (t + 2) live' need _
        (accessRanges bbTick (accessRange bbTick (some (init ++ [last])) a) rest)
      rw [hone, accessRanges_extend init rest (last.appendUse a.use) hin
        fun b hb hdef => (hgap b hb hdef).trans use_end_le_appendUse]
      refine ⟨init, last.extend ((a :: rest).map (·.use)), rfl, scanned_extend hscan hneed' hin
        (fun u hu => ?_) hsort ⟨a.use, mem_map_of_mem mem_cons_self, hafirst.2.1⟩⟩
      rcases mem_map.mp hu with ⟨b, hb, rfl⟩
      exact hmem b hb

end

/-! ### Between blocks -/

/-- The ranges of a register between blocks: none is empty, and all ticks are
    covered at which the register was needed. -/
structure Finished (t : Int) (need : Int → Prop) (us : List VRegUse)
    (o : Option (List VRegLiveRange)) : Prop where
  nonempty : o ≠ some []
  ok : RangesOk (o.getD [])
  uses : (o.getD []).flatMap (·.useList) = us
  before : ∀ r ∈ o.getD [], r.begin_ < r.end_ ∧ r.end_ ≤ t
  covered : ∀ k, k < t → need k → ∃ r ∈ o.getD [], r.begin_ ≤ k ∧ k < r.end_

section

variable {bbTick t : Int} {need : Int → Prop} {us : List VRegUse}
  {o : Option (List VRegLiveRange)}

def liveInRanges (t : Int) (o : Option (List VRegLiveRange)) : Option (List VRegLiveRange) :=
  some (rangesInBlock t t o)

def liveOutRanges (t : Int) (o : Option (List VRegLiveRange)) : Option (List VRegLiveRange) :=
  o.map (modifyLast (·.setEnd t))

theorem eq_none_or_append (hne : o ≠ some []) :
    o = none ∨ ∃ init last, o = some (init ++ [last]) := by
  cases o with
  | none => exact Or.inl rfl
  | some rs =>
    rcases eq_nil_or_concat rs with rfl | ⟨init, last, rfl⟩
    · exact absurd rfl hne
    · rw [concat_eq_append]
      exact Or.inr ⟨init, last, rfl⟩

theorem liveInRanges_of_finished (h : Finished t need us o) :
    liveInRanges t o = some (o.getD [] ++ [emptyRange t]) := by
  rcases eq_none_or_append h.nonempty with rfl | ⟨init, last, rfl⟩
  · rfl
  · have hlast := h.before last (by simp)
    unfold liveInRanges
    rw [rangesInBlock, lastLiveRangeBegin_append, if_pos (by omega)]
    rfl

theorem liveInRanges_liveInRanges (t : Int) (hne : o ≠ some []) :
    liveInRanges t (liveInRanges t o) = liveInRanges t o := by
  have hemp : ∀ rs : List VRegLiveRange,
      rangesInBlock t t (some (rs ++ [emptyRange t])) = rs ++ [emptyRange t] := by
    intro rs
    rw [rangesInBlock, lastLiveRangeBegin_append]
    exact if_neg (Int.lt_irrefl t)
  unfold liveInRanges
  rcases eq_none_or_append hne with rfl | ⟨init, last, rfl⟩
  · exact congrArg some (hemp [])
  · have hrang : rangesInBlock t t (some (init ++ [last])) =
        if last.begin_ < t then init ++ [last] ++ [emptyRange t] else init ++ [last] := by
      rw [rangesInBlock, lastLiveRangeBegin_append]
    rw [hrang]
    split_ifs with hlt
    · rw [hemp]
    · rw [hrang, if_neg hlt]

theorem liveOutRanges_liveOutRanges (t : Int) (hne : o ≠ some []) :
    liveOutRanges t (liveOutRanges t o) = liveOutRanges t o := by
  rcases eq_none_or_append hne with rfl | ⟨init, last, rfl⟩
  · rfl
  · unfold liveOutRanges
    simp [modifyLast_append, VRegLiveRange.setEnd]

theorem scanned_of_finished {live : Prop} [Decidable live] (h : Finished t need us o) :
    ScannedRanges t t live need us (if live then liveInRanges t o else o) := by
  split_ifs with hlive
  · rw [liveInRanges_of_finished h]
    have hemp : (emptyRange t).Ok :=
      ⟨Int.le_refl _, fun u hu => absurd hu not_mem_nil, .nil⟩
    refine ⟨o.getD [], emptyRange t, rfl, ⟨fun s hs => ?_, ?_⟩, ?_, fun r hr => (h.before r hr).1,
      Int.le_refl _, fun _ => Int.le_refl _, fun _ => ⟨rfl, hlive⟩, fun _ _ => hlive,
      fun k hk hn => ?_⟩
    · rcases mem_append.mp hs with hs | hs
      · exact h.ok.each s hs
      · rw [mem_singleton.mp hs]
        exact hemp
    · refine pairwise_append.mpr ⟨h.ok.sorted, pairwise_singleton _ _, fun s hs s' hs' => ?_⟩
      rw [mem_singleton.mp hs']
      exact (h.before s hs).2
    · rw [flatMap_append, h.uses, flatMap_singleton]
      exact append_nil us
    · rcases h.covered k hk hn with ⟨r, hr, hcov⟩
      exact Or.inl ⟨r, mem_append_left _ hr, hcov⟩
  · rcases eq_none_or_append h.nonempty with rfl | ⟨init, last, rfl⟩
    · refine ⟨h.uses.symm, hlive, fun k hk hn => ?_⟩
      rcases h.covered k hk hn with ⟨r, hr, _⟩
      exact absurd hr not_mem_nil
    · have hlast := h.before last (by simp)
      refine ⟨init, last, rfl, h.ok, h.uses, fun r hr => (h.before r (by simp [hr])).1, hlast.2,
        fun hl => absurd hl hlive, fun heq => absurd heq (Int.ne_of_lt hlast.1),
        fun hle => absurd hle (by omega), fun k hk hn => Or.inl (h.covered k hk hn)⟩

theorem finished_of_scanned {live : Prop} [Decidable live] (hblock : bbTick < t)
    (h : ScannedRanges bbTick t live need us o) :
    Finished t need us (if live then liveOutRanges t o else o) := by
  split_ifs with hlive
  · rcases scannedRanges_of_live h hlive with ⟨init, last, rfl, hs⟩
    have hlast := hs.ok.each last (by simp)
    have hle := hlast.le
    have hend := hs.end_le
    have hlt : last.begin_ < t := by
      by_cases heq : last.begin_ = last.end_
      · rw [(hs.pending heq).1]
        exact hblock
      · omega
    have hrang : liveOutRanges t (some (init ++ [last])) = some (init ++ [last.setEnd t]) := by
      unfold liveOutRanges
      rw [Option.map_some, modifyLast_append]
    rw [hrang]
    have hpair := pairwise_append.mp hs.ok.sorted
    have hbef : ∀ r ∈ init, r.end_ ≤ last.begin_ := fun r hr => hpair.2.2 r hr last (by simp)
    refine ⟨by simp, ⟨fun s hs' => ?_, ?_⟩, ?_, fun r hr => ?_, fun k hk hn => ?_⟩
    · rcases mem_append.mp hs' with hs' | hs'
      · exact hs.ok.each s (mem_append_left _ hs')
      · rw [mem_singleton.mp hs']
        refine ⟨Int.le_of_lt hlt, fun u hu => ?_, hlast.sorted⟩
        have hu' := hlast.inside u hu
        exact ⟨hu'.1, hu'.2.1, hu'.2.2.trans hend⟩
    · refine pairwise_append.mpr ⟨hpair.1, pairwise_singleton _ _, fun s hs' s' hs'' => ?_⟩
      rw [mem_singleton.mp hs'']
      exact hbef s hs'
    · rw [← hs.uses]
      simp [VRegLiveRange.setEnd]
    · rcases mem_append.mp hr with hr | hr
      · have hr' := hbef r hr
        exact ⟨hs.nonempty r hr, by omega⟩
      · rw [mem_singleton.mp hr]
        exact ⟨hlt, Int.le_refl t⟩
    · rcases hs.covered k hk hn with ⟨r, hr, hcov⟩ | ⟨_, hcov⟩
      · rcases mem_append.mp hr with hr | hr
        · exact ⟨r, mem_append_left _ hr, hcov⟩
        · rw [mem_singleton.mp hr] at hcov
          exact ⟨last.setEnd t, by simp, hcov.1, hk⟩
      · exact ⟨last.setEnd t, by simp, hcov, hk⟩
  · rcases h.of_not_live hlive with ⟨hok, hbef, hcover⟩
    exact ⟨h.ne_some_nil, hok, h.flatMap_uses, hbef, hcover⟩

end

end Berberis.RegAlloc
