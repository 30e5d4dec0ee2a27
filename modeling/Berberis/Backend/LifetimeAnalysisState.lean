import Berberis.Backend.LifetimeAnalysisRanges
import Berberis.Backend.RegAllocChoice

/-!
# The Lifetimes of All Registers

What the steps of the analysis do to each register is what they do to the
ranges of that register alone. All the while there is one lifetime for each
register that was met, the list of lifetimes is sorted by begin, the class of
a lifetime is that of one of its uses, and move hints lead to a lifetime
without one.
-/

namespace Berberis.RegAlloc

open Backend List Function Option VRegLifetimeAnalysis

/-! ### Move hints -/

/-- Each lifetime has a rank of its own, and move hints lead to lower ranks. -/
structure Hinted (numNodes : Nat) (heap : Nat → VRegLifetime) (rank : Nat → Nat) : Prop where
  lt : ∀ n < numNodes, rank n < numNodes
  inj : ∀ n < numNodes, ∀ m < numNodes, rank n = rank m → n = m
  hint : ∀ n < numNodes, ∀ m, (heap n).moveHint = some m → m < numNodes ∧ rank m < rank n

variable {numNodes : Nat} {rank : Nat → Nat} {rs : List VRegLiveRange} {bbTick : Int}

theorem Hinted.setHint {heap : Nat → VRegLifetime} (h : Hinted numNodes heap rank) {x y : Nat}
    (hy : y < numNodes) (hrank : rank y < rank x) :
    Hinted numNodes (update heap x { heap x with moveHint := some y }) rank := by
  refine ⟨h.lt, h.inj, fun n hn m hm => ?_⟩
  by_cases hnx : n = x
  · rw [hnx, update_self] at hm
    rw [← Option.some.inj hm, hnx]
    exact ⟨hy, hrank⟩
  · rw [update_of_ne hnx] at hm
    exact h.hint n hn m hm

theorem findMoveHint_spec (fuel : Nat) (heap : Nat → VRegLifetime) (x : Nat)
    (h : Hinted numNodes heap rank) (hx : x < numNodes) (hfuel : rank x < fuel) :
    ∃ heap' r, AllocState.findMoveHint fuel heap x = some (heap', r) ∧ r < numNodes ∧
      rank r ≤ rank x ∧ (heap' r).moveHint = none ∧ Hinted numNodes heap' rank ∧
      ∀ n, (heap n).moveHint = none → (heap' n).moveHint = none := by
  induction fuel generalizing x with
  | zero => omega
  | succ fuel ih =>
    rw [AllocState.findMoveHint]
    cases hhint : (heap x).moveHint with
    | none => exact ⟨heap, x, rfl, hx, Nat.le_refl _, hhint, h, fun _ hn => hn⟩
    | some y =>
      rcases h.hint x hx y hhint with ⟨hy, hrank⟩
      rcases ih y hy (by omega) with ⟨heap', r, hfind, hr, hrr, hroot, hhinted, hroots⟩
      dsimp only
      rw [hfind]
      have hne : r ≠ x := by
        rintro rfl
        omega
      have hlt : rank r < rank x := Nat.lt_of_le_of_lt hrr hrank
      refine ⟨_, r, rfl, hr, Nat.le_of_lt hlt, ?_, hhinted.setHint hr hlt, fun n hn => ?_⟩
      · rw [update_of_ne hne]
        exact hroot
      · have hnx : n ≠ x := by
          rintro rfl
          rw [hhint] at hn
          cases hn
        rw [update_of_ne hnx]
        exact hroots n hn

/-- A lifetime without a hint can get one to another one without a hint: the
    latter moves to the lowest rank. -/
theorem Hinted.link {heap : Nat → VRegLifetime} (h : Hinted numNodes heap rank) {x y : Nat}
    (hy : y < numNodes) (hne : x ≠ y) (hroot : (heap y).moveHint = none) :
    ∃ rank', Hinted numNodes (update heap x { heap x with moveHint := some y }) rank' := by
  have hlt : ∀ n < numNodes, n ≠ y → rank n ≠ rank y :=
    fun n hn hny heq => hny (h.inj n hn y hy heq)
  refine ⟨fun n => if n = y then 0 else if rank n < rank y then rank n + 1 else rank n,
    fun n hn => ?_, fun n hn m hm heq => ?_, fun n hn m hm => ?_⟩
  · have hn' := h.lt n hn
    have hy' := h.lt y hy
    split_ifs <;> omega
  · by_cases hny : n = y
    · by_cases hmy : m = y
      · rw [hny, hmy]
      · have hm' := hlt m hm hmy
        split_ifs at heq
        omega
    · by_cases hmy : m = y
      · have hn' := hlt n hn hny
        split_ifs at heq
        omega
      · have hn' := hlt n hn hny
        have hm' := hlt m hm hmy
        refine h.inj n hn m hm ?_
        split_ifs at heq <;> omega
  · by_cases hnx : n = x
    · rw [hnx, update_self] at hm
      have hmy : m = y := (Option.some.inj hm).symm
      have hx' := hlt n hn (by rw [hnx]; exact hne)
      split_ifs <;> omega
    · rw [update_of_ne hnx] at hm
      have hny : n ≠ y := by
        rintro rfl
        rw [hroot] at hm
        cases hm
      rcases h.hint n hn m hm with ⟨hm', hrank⟩
      have hn' := hlt n hn hny
      by_cases hmy : m = y
      · split_ifs <;> omega
      · split_ifs <;> omega

/-! ### The ranges of registers -/

def firstBegin (rs : List VRegLiveRange) : Int := (rs.head?.map (·.begin_)).getD 0

theorem firstBegin_append (hne : rs ≠ []) (more : List VRegLiveRange) :
    firstBegin (rs ++ more) = firstBegin rs := by
  unfold firstBegin
  rw [head?_append_of_ne_nil rs hne]

theorem modifyLast_ne_nil {f : VRegLiveRange → VRegLiveRange} (hne : rs ≠ []) :
    modifyLast f rs ≠ [] := by
  rcases eq_nil_or_concat rs with rfl | ⟨init, last, rfl⟩
  · exact absurd rfl hne
  · rw [concat_eq_append, modifyLast_append]
    exact append_ne_nil_of_right_ne_nil _ (cons_ne_nil _ _)

theorem firstBegin_modifyLast {f : VRegLiveRange → VRegLiveRange} (hne : rs ≠ [])
    (hf : ∀ r, (f r).begin_ = r.begin_) : firstBegin (modifyLast f rs) = firstBegin rs := by
  rcases eq_nil_or_concat rs with rfl | ⟨init, last, rfl⟩
  · exact absurd rfl hne
  · rw [concat_eq_append, modifyLast_append]
    cases init with
    | nil => exact hf last
    | cons r init => rfl

theorem rangesInBlock_ne_nil {b : Int} {o : Option (List VRegLiveRange)} (hne : o ≠ some []) :
    rangesInBlock bbTick b o ≠ [] := by
  cases o with
  | none => exact cons_ne_nil _ _
  | some rs =>
    rw [rangesInBlock]
    split_ifs
    · exact append_ne_nil_of_right_ne_nil _ (cons_ne_nil _ _)
    · exact fun hnil => hne (congrArg some hnil)

theorem firstBegin_rangesInBlock {b : Int} (hne : rs ≠ []) :
    firstBegin (rangesInBlock bbTick b (some rs)) = firstBegin rs := by
  rw [rangesInBlock]
  split_ifs
  · exact firstBegin_append hne _
  · rfl

def MovesRange (rs : List VRegLiveRange) (a : VRegAccess) : Prop :=
  a.isDefOnly = true ∧ lastLiveRangeEnd rs < a.use.begin_ ∧ lastUseList rs = []

theorem appendUseToRanges_ne_nil (hne : rs ≠ []) (a : VRegAccess) :
    appendUseToRanges rs a ≠ [] := by
  refine modifyLast_ne_nil ?_
  split_ifs
  · exact modifyLast_ne_nil hne
  · exact append_ne_nil_of_right_ne_nil _ (cons_ne_nil _ _)
  · exact hne

theorem firstBegin_appendUseToRanges (hne : rs ≠ []) {a : VRegAccess} (hmov : ¬ MovesRange rs a) :
    firstBegin (appendUseToRanges rs a) = firstBegin rs := by
  unfold appendUseToRanges
  have happ : ∀ r : VRegLiveRange, (r.appendUse a.use).begin_ = r.begin_ := fun _ => rfl
  split_ifs with hgap huses
  · rw [Bool.and_eq_true, decide_eq_true_iff] at hgap
    exact absurd ⟨hgap.1, hgap.2, huses⟩ hmov
  · rw [firstBegin_modifyLast (append_ne_nil_of_right_ne_nil _ (cons_ne_nil _ _)) happ]
    exact firstBegin_append hne _
  · exact firstBegin_modifyLast hne happ

theorem lastUseList_appendUseToRanges (hne : rs ≠ []) (a : VRegAccess) :
    lastUseList (appendUseToRanges rs a) ≠ [] := by
  have happ : ∀ rs : List VRegLiveRange, rs ≠ [] →
      lastUseList (modifyLast (·.appendUse a.use) rs) ≠ [] := by
    intro rs hrs
    rcases eq_nil_or_concat rs with rfl | ⟨init, last, rfl⟩
    · exact absurd rfl hrs
    · rw [concat_eq_append, modifyLast_append, lastUseList_append]
      exact append_ne_nil_of_right_ne_nil _ (cons_ne_nil _ _)
  refine happ _ ?_
  split_ifs
  · exact modifyLast_ne_nil hne
  · exact append_ne_nil_of_right_ne_nil _ (cons_ne_nil _ _)
  · exact hne

def Quiet (bbTick : Int) (o : Option (List VRegLiveRange)) : Prop :=
  ∀ rs, o = some rs → lastLiveRangeBegin rs < bbTick ∨ lastUseList rs ≠ []

theorem Quiet.not_movesRange {a : VRegAccess} (h : Quiet bbTick (some rs)) :
    ¬ MovesRange (rangesInBlock bbTick a.use.begin_ (some rs)) a := by
  rintro ⟨_, hgap, hunus⟩
  rw [rangesInBlock] at hgap hunus
  split_ifs at hgap hunus with hold
  · rw [lastLiveRangeEnd_append] at hgap
    exact Int.lt_irrefl _ hgap
  · exact (h rs rfl).elim hold fun hused => hused hunus

theorem quiet_accessRange {o : Option (List VRegLiveRange)} (hne : o ≠ some []) (a : VRegAccess) :
    Quiet bbTick (accessRange bbTick o a) := by
  rintro rs ⟨rfl⟩
  exact Or.inr (lastUseList_appendUseToRanges (rangesInBlock_ne_nil hne) a)

/-! ### The state of the analysis -/

open VRegLifetimeAnalysis

def ranges (st : VRegLifetimeAnalysis) (v : MachineReg) : Option (List VRegLiveRange) :=
  (st.vregLifetimes v).map fun n => (st.heap n).rangeList

/-- One lifetime for each register that was met, sorted by begin up to a
    position, with the class of one of the accesses `P` to the register. -/
structure Built (P : VRegAccess → Prop) (p : Int) (st : VRegLifetimeAnalysis) : Prop where
  lt : ∀ v n, st.vregLifetimes v = some n → n < st.numNodes
  inj : ∀ v w n, st.vregLifetimes v = some n → st.vregLifetimes w = some n → v = w
  onto : ∀ n < st.numNodes, ∃ v, st.vregLifetimes v = some n
  nonempty : ∀ n < st.numNodes, (st.heap n).rangeList ≠ []
  sorted : ∀ i j, i < j → j < st.numNodes → (st.heap i).begin_ ≤ (st.heap j).begin_
  le : ∀ n < st.numNodes, (st.heap n).begin_ ≤ p
  classes : ∀ v n, st.vregLifetimes v = some n → (st.heap n).regClass = noRegClass ∨
    ∃ a, P a ∧ a.reg = v ∧ a.use.regClass = (st.heap n).regClass
  hinted : ∃ rank, Hinted st.numNodes st.heap rank

section

variable {P : VRegAccess → Prop} {p : Int} {st : VRegLifetimeAnalysis}

theorem built_init : Built P 0 .init where
  lt _ _ h := by cases h
  inj _ _ _ h := by cases h
  onto _ h := absurd h (Nat.not_lt_zero _)
  nonempty _ h := absurd h (Nat.not_lt_zero _)
  sorted _ _ _ h := absurd h (Nat.not_lt_zero _)
  le _ h := absurd h (Nat.not_lt_zero _)
  classes _ _ h := by cases h
  hinted := ⟨id, fun _ h => absurd h (Nat.not_lt_zero _), fun _ h => absurd h (Nat.not_lt_zero _),
    fun _ h => absurd h (Nat.not_lt_zero _)⟩

theorem Built.mono (h : Built P p st) {q : Int} (hpq : p ≤ q) : Built P q st :=
  { h with le := fun n hn => (h.le n hn).trans hpq }

theorem Built.ranges_ne (h : Built P p st) (v : MachineReg) : ranges st v ≠ some [] := by
  unfold ranges
  cases hv : st.vregLifetimes v with
  | none => exact fun hnil => by cases hnil
  | some n => exact fun hnil => h.nonempty n (h.lt v n hv) (Option.some.inj hnil)

theorem setNode_heap (st : VRegLifetimeAnalysis) (n m : Nat) (l : VRegLifetime) :
    (st.setNode n l).heap m = if m = n then l else st.heap m :=
  update_apply _ _ _ _

section

variable (h : Built P p st) {v : MachineReg}
include h

section

variable {n : Nat} {l : VRegLifetime} (hv : st.vregLifetimes v = some n)
include hv

theorem Built.setNode (hne : l.rangeList ≠ [])
    (hbegin : l.begin_ = (st.heap n).begin_) (hhint : l.moveHint = (st.heap n).moveHint)
    (hclass : l.regClass = (st.heap n).regClass ∨
      ∃ a, P a ∧ a.reg = v ∧ a.use.regClass = l.regClass) :
    Built P p (st.setNode n l) := by
  have hbeg : ∀ m, ((st.setNode n l).heap m).begin_ = (st.heap m).begin_ := by
    intro m
    rw [setNode_heap]
    split_ifs with hm
    · rw [hbegin, hm]
    · rfl
  refine ⟨h.lt, h.inj, h.onto, fun m hm => ?_, fun i j hij hj => ?_, fun m hm => ?_,
    fun w m hw => ?_, ?_⟩
  · rw [setNode_heap]
    split_ifs
    · exact hne
    · exact h.nonempty m hm
  · rw [hbeg, hbeg]
    exact h.sorted i j hij hj
  · rw [hbeg]
    exact h.le m hm
  · rw [setNode_heap]
    split_ifs with hm
    · rw [hm] at hw
      rw [h.inj w v n hw hv]
      rcases hclass with hsame | hnew
      · rw [hsame]
        exact h.classes v n hv
      · exact Or.inr hnew
    · exact h.classes w m hw
  · rcases h.hinted with ⟨rank, hrank⟩
    refine ⟨rank, hrank.lt, hrank.inj, fun m hm k hk => hrank.hint m hm k ?_⟩
    rw [setNode_heap] at hk
    split_ifs at hk with hmn
    · rw [hmn, ← hhint]
      exact hk
    · exact hk

theorem Built.ranges_setNode (w : MachineReg) :
    ranges (st.setNode n l) w = if w = v then some l.rangeList else ranges st w := by
  unfold ranges
  change (st.vregLifetimes w).map (fun m => ((st.setNode n l).heap m).rangeList) = _
  by_cases hwv : w = v
  · rw [if_pos hwv, hwv, hv, map_some, setNode_heap, if_pos rfl]
  · rw [if_neg hwv]
    cases hw : st.vregLifetimes w with
    | none => rfl
    | some m =>
      have hmn : m ≠ n := fun hmn => hwv (h.inj w v n (hmn ▸ hw) hv)
      rw [map_some, map_some, setNode_heap, if_neg hmn]

end

theorem Built.newNode (hv : st.vregLifetimes v = none)
    {b : Int} (hb : p ≤ b) {l : VRegLifetime} (hne : l.rangeList ≠ []) (hbeg : l.begin_ = b)
    (hclass : l.regClass = noRegClass) (hhint : l.moveHint = none) :
    Built P b { st.setNode st.numNodes l with
      numNodes := st.numNodes + 1
      vregLifetimes := update st.vregLifetimes v (some st.numNodes) } := by
  have hold : ∀ m < st.numNodes, (st.setNode st.numNodes l).heap m = st.heap m := by
    intro m hm
    rw [setNode_heap, if_neg (Nat.ne_of_lt hm)]
  have hnew : (st.setNode st.numNodes l).heap st.numNodes = l := by
    rw [setNode_heap, if_pos rfl]
  have hmap : ∀ w n, update st.vregLifetimes v (some st.numNodes) w = some n →
      (w = v ∧ n = st.numNodes) ∨ (w ≠ v ∧ st.vregLifetimes w = some n) := by
    intro w n hw
    by_cases hwv : w = v
    · rw [hwv, update_self] at hw
      exact Or.inl ⟨hwv, (Option.some.inj hw).symm⟩
    · rw [update_of_ne hwv] at hw
      exact Or.inr ⟨hwv, hw⟩
  have hlt : ∀ w n, st.vregLifetimes w = some n → n < st.numNodes := h.lt
  refine ⟨fun w n hw => ?_, fun w u n hw hu => ?_, fun n hn => ?_, fun n hn => ?_,
    fun i j hij hj => ?_, fun n hn => ?_, fun w n hw => ?_, ?_⟩
  · rcases hmap w n hw with ⟨_, rfl⟩ | ⟨_, hw⟩
    · exact Nat.lt_succ_self _
    · exact Nat.lt_succ_of_lt (hlt w n hw)
  · rcases hmap w n hw with ⟨hwv, hn⟩ | ⟨_, hw⟩
    · rcases hmap u n hu with ⟨huv, _⟩ | ⟨_, hu⟩
      · rw [hwv, huv]
      · exact absurd hn (Nat.ne_of_lt (hlt u n hu))
    · rcases hmap u n hu with ⟨_, hn⟩ | ⟨_, hu⟩
      · exact absurd hn (Nat.ne_of_lt (hlt w n hw))
      · exact h.inj w u n hw hu
  · rcases Nat.lt_succ_iff_lt_or_eq.mp hn with hn | rfl
    · rcases h.onto n hn with ⟨w, hw⟩
      refine ⟨w, ?_⟩
      change update st.vregLifetimes v (some st.numNodes) w = some n
      have hwv : w ≠ v := by
        rintro rfl
        rw [hv] at hw
        cases hw
      rw [update_of_ne hwv]
      exact hw
    · exact ⟨v, update_self _ _ _⟩
  · rcases Nat.lt_succ_iff_lt_or_eq.mp hn with hn | rfl
    · rw [hold n hn]
      exact h.nonempty n hn
    · rw [hnew]
      exact hne
  · rcases Nat.lt_succ_iff_lt_or_eq.mp hj with hj | rfl
    · rw [hold i (Nat.lt_trans hij hj), hold j hj]
      exact h.sorted i j hij hj
    · rw [hold i hij, hnew, hbeg]
      exact (h.le i hij).trans hb
  · rcases Nat.lt_succ_iff_lt_or_eq.mp hn with hn | rfl
    · rw [hold n hn]
      exact (h.le n hn).trans hb
    · rw [hnew, hbeg]
  · rcases hmap w n hw with ⟨_, rfl⟩ | ⟨_, hw⟩
    · rw [hnew]
      exact Or.inl hclass
    · rw [hold n (hlt w n hw)]
      exact h.classes w n hw
  · -- No hint points at the new node yet, so it may have the largest rank.
    rcases h.hinted with ⟨rank, hrank⟩
    refine ⟨fun n => if n < st.numNodes then rank n else n, fun n hn => ?_,
      fun n hn m hm heq => ?_, fun n hn m hm => ?_⟩
    · split_ifs with hlt'
      · exact Nat.lt_succ_of_lt (hrank.lt n hlt')
      · exact hn
    · split_ifs at heq with hn' hm' hm'
      · exact hrank.inj n hn' m hm' heq
      · have hlt' := hrank.lt n hn'
        omega
      · have hlt' := hrank.lt m hm'
        omega
      · exact heq
    · rcases Nat.lt_succ_iff_lt_or_eq.mp hn with hn' | rfl
      · rw [hold n hn'] at hm
        rcases hrank.hint n hn' m hm with ⟨hm', hlt'⟩
        refine ⟨Nat.lt_succ_of_lt hm', ?_⟩
        rw [if_pos hm', if_pos hn']
        exact hlt'
      · rw [hnew, hhint] at hm
        cases hm

end

end

/-! ### The steps of the analysis -/

section

variable {P : VRegAccess → Prop} {p : Int} {st : VRegLifetimeAnalysis}

theorem getVRegLifetime_spec (h : Built P p st) (v : MachineReg) {b : Int} (hb : p ≤ b) :
    let r := st.getVRegLifetime v b
    Built P b r.1 ∧ r.1.vregLifetimes v = some r.2 ∧ r.1.tick = st.tick ∧ r.1.bbTick = st.bbTick ∧
      ∀ w, ranges r.1 w =
        if w = v then some (rangesInBlock st.bbTick b (ranges st v)) else ranges st w := by
  unfold getVRegLifetime
  cases hv : st.vregLifetimes v with
  | some n =>
    have hne := h.nonempty n (h.lt v n hv)
    have hrang : ranges st v = some (st.heap n).rangeList := by
      unfold ranges
      rw [hv]
      rfl
    refine ⟨(h.mono hb).setNode hv (rangesInBlock_ne_nil fun hnil => hne (Option.some.inj hnil))
      (firstBegin_rangesInBlock hne) rfl (Or.inl rfl), hv, rfl, rfl, fun w => ?_⟩
    rw [h.ranges_setNode hv, hrang]
  | none =>
    have hrang : ranges st v = none := by
      unfold ranges
      rw [hv]
      rfl
    refine ⟨h.newNode hv hb (cons_ne_nil _ _) rfl rfl rfl, update_self _ _ _, rfl, rfl, fun w => ?_⟩
    rw [hrang]
    change (update st.vregLifetimes v (some st.numNodes) w).map
      (fun m => ((st.setNode st.numNodes _).heap m).rangeList) = _
    by_cases hwv : w = v
    · rw [if_pos hwv, hwv, update_self, map_some, setNode_heap, if_pos rfl]
    · rw [if_neg hwv, update_of_ne hwv]
      unfold ranges
      cases hw : st.vregLifetimes w with
      | none => rfl
      | some m =>
        rw [map_some, map_some, setNode_heap, if_neg (Nat.ne_of_lt (h.lt w m hw))]

def Nested (P : VRegAccess → Prop) : Prop :=
  ∀ a a', P a → P a' → a.reg = a'.reg →
    a.use.regClass.getIntersection a'.use.regClass ≠ none

theorem narrowClass_spec (hnest : Nested P) (h : Built P p st) {a : VRegAccess} (ha : P a)
    {n : Nat} (hn : st.vregLifetimes a.reg = some n) :
    ∃ c, narrowClass (st.heap n).regClass a.use = some c ∧
      (c = (st.heap n).regClass ∨ c = a.use.regClass) := by
  unfold narrowClass
  split_ifs with hnone
  · exact ⟨_, rfl, Or.inr rfl⟩
  · rcases (h.classes a.reg n hn).resolve_left hnone with ⟨a', ha', hreg, hclass⟩
    have hsome := hnest a' a ha' ha hreg
    rw [hclass] at hsome
    unfold MachineRegClass.getIntersection at hsome ⊢
    dsimp only at hsome ⊢
    split_ifs at hsome ⊢
    · exact ⟨_, rfl, Or.inl rfl⟩
    · exact ⟨_, rfl, Or.inr rfl⟩
    · exact absurd rfl hsome

theorem appendUse_spec (hnest : Nested P) (h : Built P p st) {a : VRegAccess} (ha : P a)
    (hb : p ≤ a.use.begin_) (hmov : a.isDefOnly = true → Quiet st.bbTick (ranges st a.reg)) :
    ∃ st', st.appendUse a = some st' ∧ Built P a.use.begin_ st' ∧ st'.tick = st.tick ∧
      st'.bbTick = st.bbTick ∧ ∀ w, ranges st' w =
        if w = a.reg then accessRange st.bbTick (ranges st w) a else ranges st w := by
  rcases getVRegLifetime_spec h a.reg hb with ⟨hbuilt, hv, htick, hbt, hrang⟩
  unfold appendUse
  generalize st.getVRegLifetime a.reg a.use.begin_ = r at hbuilt hv htick hbt hrang ⊢
  rcases r with ⟨st1, n⟩
  rcases narrowClass_spec hnest hbuilt ha hv with ⟨c, hc, hclass⟩
  have hlist : (st1.heap n).rangeList = rangesInBlock st.bbTick a.use.begin_ (ranges st a.reg) := by
    have hself := hrang a.reg
    rw [if_pos rfl] at hself
    unfold ranges at hself
    rw [hv] at hself
    exact Option.some.inj hself
  have hne := hbuilt.nonempty n (hbuilt.lt a.reg n hv)
  have hstay : ¬ MovesRange (st1.heap n).rangeList a := by
    intro hmove
    have hquiet := hmov hmove.1
    rw [hlist] at hmove
    cases ho : ranges st a.reg with
    | none =>
      -- A new range begins where it is accessed.
      rw [ho] at hmove
      exact Int.lt_irrefl _ hmove.2.1
    | some rs =>
      rw [ho] at hquiet hmove
      exact hquiet.not_movesRange hmove
  dsimp only
  rw [hc]
  refine ⟨_, rfl, hbuilt.setNode hv (appendUseToRanges_ne_nil hne a)
    (firstBegin_appendUseToRanges hne hstay) rfl ?_, htick, hbt, fun w => ?_⟩
  · exact hclass.imp_right fun hc => ⟨a, ha, rfl, hc.symm⟩
  · rw [hbuilt.ranges_setNode hv]
    by_cases hw : w = a.reg
    · rw [if_pos hw, if_pos hw, hw]
      unfold accessRange
      rw [← hlist]
    · rw [if_neg hw, if_neg hw, hrang, if_neg hw]

theorem appendUses_spec (hnest : Nested P) {b : Int} (as : List VRegAccess)
    (st : VRegLifetimeAnalysis) (p : Int) (h : Built P p st) (hP : ∀ a ∈ as, P a) (hp : p ≤ b)
    (hb : ∀ a ∈ as, a.use.begin_ = b)
    (hmov : ∀ a ∈ as, a.isDefOnly = true → Quiet st.bbTick (ranges st a.reg)) :
    ∃ st', as.foldlM appendUse st = some st' ∧ Built P b st' ∧
      st'.tick = st.tick ∧ st'.bbTick = st.bbTick ∧
      ∀ w, ranges st' w = accessRanges st.bbTick (ranges st w) (as.filter (·.reg = w)) := by
  induction as generalizing st p with
  | nil => exact ⟨st, rfl, h.mono hp, rfl, rfl, fun w => rfl⟩
  | cons a as ih =>
    have hbeg := hb a mem_cons_self
    rcases appendUse_spec hnest h (hP a mem_cons_self) (by rw [hbeg]; exact hp)
      (hmov a mem_cons_self) with ⟨st1, hst1, hbuilt, htick, hbt, hrang⟩
    have hquiet : ∀ a' ∈ as, a'.isDefOnly = true → Quiet st1.bbTick (ranges st1 a'.reg) := by
      intro a' ha' hdef
      rw [hbt, hrang]
      split_ifs
      · exact quiet_accessRange (h.ranges_ne a'.reg) a
      · exact hmov a' (mem_cons_of_mem a ha') hdef
    rcases ih st1 a.use.begin_ hbuilt (fun a' ha' => hP a' (mem_cons_of_mem a ha'))
      (Int.le_of_eq hbeg) (fun a' ha' => hb a' (mem_cons_of_mem a ha')) hquiet with
      ⟨st', hst', hbuilt', htick', hbt', hrang'⟩
    refine ⟨st', ?_, hbuilt', htick'.trans htick, hbt'.trans hbt, fun w => ?_⟩
    · rw [foldlM_cons, hst1]
      exact hst'
    · rw [hrang', hbt, hrang, filter_cons]
      by_cases hw : w = a.reg
      · rw [if_pos hw, if_pos (by rw [hw]; exact decide_eq_true rfl)]
        rfl
      · rw [if_neg hw, if_neg (by rw [decide_eq_true_iff]; exact fun heq => hw heq.symm)]

/-- What is done for each element of a list is done once, if doing it again changes nothing. -/
theorem ite_mem_cons {α β : Type} [DecidableEq α] {f : β → β} {x : β} (hf : f (f x) = f x)
    (w r : α) (rs : List α) :
    (if w ∈ rs then f (if w = r then f x else x) else if w = r then f x else x) =
      if w ∈ r :: rs then f x else x := by
  by_cases hw : w = r
  · have hmem : w ∈ r :: rs := by
      rw [hw]
      exact mem_cons_self
    rw [if_pos hw, if_pos hmem, hf, ite_self]
  · rw [if_neg hw]
    simp [hw]

section

variable (rs : List MachineReg) (st : VRegLifetimeAnalysis)

theorem setLiveIns_spec (h : Built P st.tick st) (htick : st.tick = st.bbTick) :
    ∃ st', rs.foldlM setLiveIn st = some st' ∧ Built P st.tick st' ∧
      st'.tick = st.tick ∧ st'.bbTick = st.bbTick ∧ ∀ w, ranges st' w =
        if w ∈ rs then liveInRanges st.tick (ranges st w) else ranges st w := by
  induction rs generalizing st with
  | nil =>
    refine ⟨st, rfl, h, rfl, rfl, fun w => ?_⟩
    rw [if_neg not_mem_nil]
  | cons r rs ih =>
    rcases getVRegLifetime_spec h r (Int.le_refl _) with ⟨hbuilt, _, htick1, hbt, hrang⟩
    have hstep : st.setLiveIn r = some (st.getVRegLifetime r st.tick).1 := by
      unfold setLiveIn
      rw [if_pos htick]
    generalize (st.getVRegLifetime r st.tick).1 = st1 at hbuilt htick1 hbt hrang hstep
    rw [← htick1] at hbuilt
    rcases ih st1 hbuilt (by rw [htick1, hbt]; exact htick) with
      ⟨st', hst', hbuilt', htick', hbt', hrang'⟩
    rw [htick1] at hbuilt' htick'
    refine ⟨st', ?_, hbuilt', htick', hbt'.trans hbt, fun w => ?_⟩
    · rw [foldlM_cons, hstep]
      exact hst'
    · have hone : ranges st1 w =
          if w = r then liveInRanges st.tick (ranges st w) else ranges st w := by
        rw [hrang]
        split_ifs with hw
        · rw [hw, ← htick]
          rfl
        · rfl
      rw [hrang', hone, htick1]
      exact ite_mem_cons (liveInRanges_liveInRanges _ (h.ranges_ne w)) w r rs

theorem setLiveOuts_spec (h : Built P p st) (hrs : ∀ r ∈ rs, ranges st r ≠ none) :
    ∃ st', rs.foldlM setLiveOut st = some st' ∧ Built P p st' ∧
      st'.tick = st.tick ∧ st'.bbTick = st.bbTick ∧ ∀ w, ranges st' w =
        if w ∈ rs then liveOutRanges st.tick (ranges st w) else ranges st w := by
  induction rs generalizing st with
  | nil =>
    refine ⟨st, rfl, h, rfl, rfl, fun w => ?_⟩
    rw [if_neg not_mem_nil]
  | cons r rs ih =>
    cases hr : st.vregLifetimes r with
    | none =>
      refine absurd ?_ (hrs r mem_cons_self)
      unfold ranges
      rw [hr]
      rfl
    | some n =>
      have hne := h.nonempty n (h.lt r n hr)
      have hself : ranges st r = some (st.heap n).rangeList := by
        unfold ranges
        rw [hr]
        rfl
      obtain ⟨l, hl⟩ : ∃ l, l =
        { st.heap n with rangeList := modifyLast (·.setEnd st.tick) (st.heap n).rangeList } :=
        ⟨_, rfl⟩
      have hstep : st.setLiveOut r = some (st.setNode n l) := by
        unfold setLiveOut
        rw [hr, hl]
        rfl
      have hbuilt : Built P p (st.setNode n l) := by
        rw [hl]
        exact h.setNode hr (modifyLast_ne_nil hne) (firstBegin_modifyLast hne fun _ => rfl) rfl
          (Or.inl rfl)
      have hone : ∀ w, ranges (st.setNode n l) w =
          if w = r then liveOutRanges st.tick (ranges st w) else ranges st w := by
        intro w
        rw [h.ranges_setNode hr]
        split_ifs with hw
        · rw [hw, hself, hl]
          rfl
        · rfl
      have hrest : ∀ w ∈ rs, ranges (st.setNode n l) w ≠ none := by
        intro w hw
        have hold := hrs w (mem_cons_of_mem r hw)
        rw [hone]
        split_ifs
        · unfold liveOutRanges
          rw [ne_eq, map_eq_none_iff]
          exact hold
        · exact hold
      rcases ih _ hbuilt hrest with ⟨st', hst', hbuilt', htick', hbt', hrang'⟩
      refine ⟨st', ?_, hbuilt', htick', hbt', fun w => ?_⟩
      · rw [foldlM_cons, hstep]
        exact hst'
      · rw [hrang', hone]
        exact ite_mem_cons (liveOutRanges_liveOutRanges _ (h.ranges_ne w)) w r rs

end

theorem Built.sameShape (h : Built P p st) {heap : Nat → VRegLifetime}
    (hshape : ∀ n, SameShape (heap n) (st.heap n))
    (hhint : ∃ rank, Hinted st.numNodes heap rank) :
    Built P p { st with heap := heap } ∧ ∀ w, ranges { st with heap := heap } w = ranges st w := by
  refine ⟨⟨h.lt, h.inj, h.onto, fun n hn => ?_, fun i j hij hj => ?_, fun n hn => ?_,
    fun v n hv => ?_, hhint⟩, fun w => ?_⟩
  · rw [(hshape n).rangeList]
    exact h.nonempty n hn
  · rw [(hshape i).begin_, (hshape j).begin_]
    exact h.sorted i j hij hj
  · rw [(hshape n).begin_]
    exact h.le n hn
  · rw [(hshape n).regClass]
    exact h.classes v n hv
  · unfold ranges
    congr 1
    funext n
    exact (hshape n).rangeList

theorem sameShape_setHint {heap heap' : Nat → VRegLifetime}
    (h : ∀ n, SameShape (heap n) (heap' n)) (x : Nat) (hint : Option Nat) (n : Nat) :
    SameShape (update heap x { heap x with moveHint := hint } n) (heap' n) := by
  by_cases hn : n = x
  · rw [hn, update_self]
    exact ⟨(h x).rangeList, (h x).regClass, (h x).hardReg, (h x).spillSlot⟩
  · rw [update_of_ne hn]
    exact h n

theorem setMoveHint_spec (h : Built P p st) {x y : Nat} (hx : x < st.numNodes)
    (hy : y < st.numNodes) :
    ∃ st', st.setMoveHint x y = some st' ∧ Built P p st' ∧ st'.tick = st.tick ∧
      st'.bbTick = st.bbTick ∧ ∀ w, ranges st' w = ranges st w := by
  rcases h.hinted with ⟨rank, hrank⟩
  rcases findMoveHint_spec (st.numNodes + 1) st.heap x hrank hx
    (Nat.lt_succ_of_lt (hrank.lt x hx)) with ⟨heap1, hint, hfind1, hhint, _, hroot1, hrank1, _⟩
  rcases findMoveHint_spec (st.numNodes + 1) heap1 y hrank1 hy
    (Nat.lt_succ_of_lt (hrank.lt y hy)) with
    ⟨heap2, other, hfind2, hoth, _, hroot2, hrank2, hroots⟩
  have hshape : ∀ n, SameShape (heap2 n) (st.heap n) := by
    intro n
    have h1 := findMoveHint_sameShape _ _ _ _ _ hfind1 n
    have h2 := findMoveHint_sameShape _ _ _ _ _ hfind2 n
    exact ⟨h2.rangeList.trans h1.rangeList, h2.regClass.trans h1.regClass,
      h2.hardReg.trans h1.hardReg, h2.spillSlot.trans h1.spillSlot⟩
  unfold setMoveHint
  rw [hfind1]
  dsimp only [bind_eq_bind, bind_some]
  rw [hfind2]
  dsimp only [bind_some]
  split_ifs with hbeg hne
  · have hxy : hint ≠ other := by
      rintro rfl
      exact Int.lt_irrefl _ hbeg
    rcases h.sameShape (sameShape_setHint hshape hint (some other)) (hrank2.link hoth hxy hroot2)
      with ⟨hbuilt, hrang⟩
    exact ⟨_, rfl, hbuilt, rfl, rfl, hrang⟩
  · rcases h.sameShape (sameShape_setHint hshape other (some hint))
      (hrank2.link hhint hne (hroots hint hroot1)) with ⟨hbuilt, hrang⟩
    exact ⟨_, rfl, hbuilt, rfl, rfl, hrang⟩
  · rcases h.sameShape hshape ⟨rank, hrank2⟩ with ⟨hbuilt, hrang⟩
    exact ⟨_, rfl, hbuilt, rfl, rfl, hrang⟩

theorem trySetMoveHint_spec (h : Built P p st) (insn : MachineInsn)
    (hregs : ∀ i, (insn.regAt i).isVReg = true → ranges st (insn.regAt i) ≠ none) :
    ∃ st', st.trySetMoveHint insn = some st' ∧ Built P p st' ∧ st'.tick = st.tick ∧
      st'.bbTick = st.bbTick ∧ ∀ w, ranges st' w = ranges st w := by
  have hlif : ∀ i, (insn.regAt i).isVReg = true →
      ∃ n, st.vregLifetimes (insn.regAt i) = some n := by
    intro i hi
    have hne := hregs i hi
    unfold ranges at hne
    rw [ne_eq, map_eq_none_iff] at hne
    exact ne_none_iff_exists'.mp hne
  unfold trySetMoveHint
  split
  · by_cases hvregs : (!(insn.regAt 0).isVReg || !(insn.regAt 1).isVReg) = true
    · rw [if_pos hvregs]
      exact ⟨st, rfl, h, rfl, rfl, fun _ => rfl⟩
    · rw [if_neg hvregs]
      simp only [Bool.or_eq_true, Bool.not_eq_true', not_or, Bool.not_eq_false] at hvregs
      rcases hlif 0 hvregs.1 with ⟨x, hx⟩
      rcases hlif 1 hvregs.2 with ⟨y, hy⟩
      rw [hx, hy]
      exact setMoveHint_spec h (h.lt _ x hx) (h.lt _ y hy)
  · exact ⟨st, rfl, h, rfl, rfl, fun _ => rfl⟩

end

end Berberis.RegAlloc
