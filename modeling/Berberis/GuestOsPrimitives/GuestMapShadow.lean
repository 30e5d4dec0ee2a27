import Berberis.Base.BitUtil
import Berberis.Lib.Run

/-!
# Executable Pages

A bit for each page of the guest's address space says whether code there may be
run. When pages stop being executable, translations of code on them have to be
dropped: `clearExecutable` invalidates the range that it is given, rounded up to
whole pages at its end but not rounded down at its start.

## Theorems

* `getExecutable_spec`: What a range is said to be.
* `executable_tracked`: Which operations leave no stale translations.
-/

namespace Berberis

open List

inductive BitValue where
  | kBitUnset
  | kBitSet
  | kBitMixed
  deriving DecidableEq

def kMaxGuestAddress : Nat := 0xffffffffffff

structure GuestMapShadow where
  shadow : Nat → BitVec 8

namespace GuestMapShadow

variable (page : PageSize)

def isExecAddr (s : GuestMapShadow) (addr : Nat) : Bool :=
  if addr > kMaxGuestAddress then false
  else
    let p := addr >>> page.log2
    (s.shadow (p >>> 3) &&& 1#8 <<< (p &&& 7)) != 0#8

/-- Set or clear the bit of a page, and say whether it changed. -/
def setExecAddr (s : GuestMapShadow) (addr : Nat) (set : Bool) : GuestMapShadow × Bool :=
  if addr > kMaxGuestAddress then (s, false)
  else
    let p := addr >>> page.log2
    let mask := 1#8 <<< (p &&& 7)
    let old := s.shadow (p >>> 3) &&& mask
    if set then (⟨Function.update s.shadow (p >>> 3) (s.shadow (p >>> 3) ||| mask)⟩, old == 0#8)
    else (⟨Function.update s.shadow (p >>> 3) (s.shadow (p >>> 3) &&& ~~~mask)⟩, old != 0#8)

/-- The values of `pc` in a loop that goes on by pages while `pc` is below an end. -/
def pagesBelow (pc last : Nat) : List Nat :=
  (List.range ((last - pc + (page.size - 1)) / page.size)).map fun i => pc + i * page.size

def getExecutableRegionSize (s : GuestMapShadow) (start scanSize : Nat) : Bool × Nat :=
  let pc := alignDown start page.size
  let scanEndPc := alignUp ((start + scanSize) % 2 ^ 64) page.size
  let isExec := s.isExecAddr page pc
  let pc := (pc + page.size) % 2 ^ 64
  let pcs := pagesBelow page pc scanEndPc
  let stop := (pcs.find? fun pc => isExec != s.isExecAddr page pc).getD
    (pc + pcs.length * page.size)
  (isExec, (stop + 2 ^ 64 - start) % 2 ^ 64)

def getExecutable (s : GuestMapShadow) (start scanSize : Nat) : BitValue :=
  let (isExec, regionSize) := s.getExecutableRegionSize page start scanSize
  if regionSize < scanSize then .kBitMixed else if isExec then .kBitSet else .kBitUnset

def isExecutable (s : GuestMapShadow) (start size : Nat) : Bool :=
  s.getExecutable page start size == .kBitSet

/-- Set or clear the bits of pages, and say whether one changed. -/
def setExecAddrs (s : GuestMapShadow) (set : Bool) (pcs : List Nat) : GuestMapShadow × Bool :=
  pcs.foldl
    (fun sc pc => ((sc.1.setExecAddr page pc set).1, sc.2 || (sc.1.setExecAddr page pc set).2))
    (s, false)

def setExecutable (s : GuestMapShadow) (start size : Nat) : GuestMapShadow :=
  let last := alignUp ((start + size) % 2 ^ 64) page.size
  let pc := alignDown start page.size
  (s.setExecAddrs page true (pagesBelow page pc last)).1

def clearExecutable (s : GuestMapShadow) (start size : Nat) : GuestMapShadow × List (Nat × Nat) :=
  let last := alignUp ((start + size) % 2 ^ 64) page.size
  let pc := alignDown start page.size
  let (s, changed) := s.setExecAddrs page false (pagesBelow page pc last)
  (s, if changed then [(start, last)] else [])

def copyExecutable (s : GuestMapShadow) (src srcSize dst dstSize : Nat) :
    Option (GuestMapShadow × List (Nat × Nat)) :=
  if src ≠ alignDown src page.size then none
  else if dst ≠ alignDown dst page.size then none
  else if ¬ ((src + srcSize) % 2 ^ 64 ≤ dst ∨ (dst + dstSize) % 2 ^ 64 ≤ src) then none
  else if s.isExecutable page src srcSize then some (s.setExecutable page dst dstSize, [])
  else some (s.clearExecutable page dst dstSize)

def remapExecutable (s : GuestMapShadow) (oldStart oldSize newStart newSize : Nat) :
    Option (GuestMapShadow × List (Nat × Nat)) :=
  if oldStart ≠ alignDown oldStart page.size then none
  else if newStart ≠ alignDown newStart page.size then none
  else
    let oldEndPage := alignUp ((oldStart + oldSize) % 2 ^ 64) page.size
    let newEndPage := alignUp ((newStart + newSize) % 2 ^ 64) page.size
    if oldStart = newStart then
      if newEndPage ≤ oldEndPage then
        some (s.clearExecutable page newEndPage (oldEndPage - newEndPage))
      else s.copyExecutable page oldStart oldSize oldEndPage (newEndPage - oldEndPage)
    else if ¬ ((oldStart + oldSize) % 2 ^ 64 ≤ newStart ∨ (newStart + newSize) % 2 ^ 64 ≤ oldStart)
    then none
    else
      (s.copyExecutable page oldStart (if oldSize < newSize then oldSize else newSize) newStart
        newSize).map fun r =>
          let (s, dropped) := r.1.clearExecutable page oldStart oldSize
          (s, r.2 ++ dropped)

inductive Op where
  | setExecutable (start size : Nat)
  | clearExecutable (start size : Nat)
  | copyExecutable (src srcSize dst dstSize : Nat)
  | remapExecutable (oldStart oldSize newStart newSize : Nat)
  deriving DecidableEq

def apply (s : GuestMapShadow) : Op → Option (GuestMapShadow × List (Nat × Nat))
  | .setExecutable start size => some (s.setExecutable page start size, [])
  | .clearExecutable start size => some (s.clearExecutable page start size)
  | .copyExecutable src srcSize dst dstSize => s.copyExecutable page src srcSize dst dstSize
  | .remapExecutable oldStart oldSize newStart newSize =>
    s.remapExecutable page oldStart oldSize newStart newSize

def Op.InLimits : Op → Prop
  | .setExecutable start size => start ≤ kMaxGuestAddress ∧ size ≤ kMaxGuestAddress
  | .clearExecutable start size => start ≤ kMaxGuestAddress ∧ size ≤ kMaxGuestAddress
  | .copyExecutable src srcSize dst dstSize =>
    (src ≤ kMaxGuestAddress ∧ srcSize ≤ kMaxGuestAddress) ∧
      dst ≤ kMaxGuestAddress ∧ dstSize ≤ kMaxGuestAddress
  | .remapExecutable oldStart oldSize newStart newSize =>
    (oldStart ≤ kMaxGuestAddress ∧ oldSize ≤ kMaxGuestAddress) ∧
      newStart ≤ kMaxGuestAddress ∧ newSize ≤ kMaxGuestAddress

def Executable (s : GuestMapShadow) (n : Nat) : Prop := s.isExecAddr page (n * page.size) = true

def Covered (dropped : List (Nat × Nat)) (n : Nat) : Prop :=
  ∃ r ∈ dropped, r.1 ≤ n * page.size ∧ (n + 1) * page.size ≤ r.2

/-- Pages that stop being executable are invalidated as a whole. -/
def Dropped (s s' : GuestMapShadow) (dropped : List (Nat × Nat)) : Prop :=
  ∀ n, s.Executable page n → ¬ s'.Executable page n → Covered page dropped n

/-- The call does not clear an executable page from its middle on. -/
def Op.ClearsWhole (s : GuestMapShadow) : Op → Prop
  | .clearExecutable start _ => page.size ∣ start ∨ ¬ s.Executable page (start / page.size)
  | _ => True

/-- What a call leaves for the next one. -/
def next (s : GuestMapShadow) (op : Op) : Option GuestMapShadow :=
  (s.apply page op).map Prod.fst

def Invalidates (s : GuestMapShadow) (op : Op) : Prop :=
  ∀ s' dropped, s.apply page op = some (s', dropped) → Dropped page s s' dropped

def Overlaps (start size n : Nat) : Prop :=
  n * page.size < start + size ∧ start < (n + 1) * page.size

instance (start size n : Nat) : Decidable (Overlaps page start size n) :=
  inferInstanceAs (Decidable (_ ∧ _))

/-! ### Bits -/

theorem and_shiftLeft_bne (x : BitVec 8) {i : Nat} (hi : i < 8) :
    ((x &&& 1#8 <<< i) != 0#8) = x.getLsbD i := by
  have hand : x &&& 1#8 <<< i = if x.getLsbD i then BitVec.twoPow 8 i else 0#8 :=
    BitVec.and_twoPow x i
  rw [hand]
  cases x.getLsbD i with
  | false => rfl
  | true =>
    rw [if_pos rfl, bne_iff_ne]
    intro hzero
    have hbit := congrArg (fun y : BitVec 8 => y.getLsbD i) hzero
    simp [hi] at hbit

theorem and_seven (p : Nat) : p &&& 7 = p % 8 := Nat.and_two_pow_sub_one_eq_mod p 3

variable (s : GuestMapShadow)

theorem isExecAddr_eq (a : Nat) : s.isExecAddr page a = (decide (a ≤ kMaxGuestAddress) &&
        (s.shadow (a / page.size / 8)).getLsbD (a / page.size % 8)) := by
  unfold isExecAddr
  by_cases ha : a > kMaxGuestAddress
  · simp [ha, not_le.mpr ha]
  · simp only [ha, if_false, and_seven, Nat.shiftRight_eq_div_pow,
      and_shiftLeft_bne _ (Nat.mod_lt _ (by omega : 8 > 0)), decide_eq_true (not_lt.mp ha),
      Bool.true_and]
    rfl

theorem getLsbD_setExecAddr {a : Nat} (ha : a ≤ kMaxGuestAddress) (set : Bool) (q : Nat) :
    (((s.setExecAddr page a set).1).shadow (q / 8)).getLsbD (q % 8) =
      if a / page.size = q then set else (s.shadow (q / 8)).getLsbD (q % 8) := by
  have hmod' : a / page.size % 8 < 8 := Nat.mod_lt _ (by omega)
  unfold setExecAddr
  simp only [not_lt.mpr ha, if_false, and_seven, Nat.shiftRight_eq_div_pow]
  rw [show 2 ^ page.log2 = page.size from rfl]
  by_cases hbyte : q / 8 = a / page.size / 8
  · have hiff : a / page.size = q ↔ q % 8 = a / page.size % 8 := by omega
    rw [if_congr hiff rfl rfl]
    cases set with
    | false | true =>
      by_cases hbit : q % 8 = a / page.size % 8 <;> simp [hbyte, hbit, hmod']
      omega
  · have hne : ¬ a / page.size = q := fun heq => hbyte (by rw [heq])
    rw [if_neg hne]
    cases set with
    | false | true => simp [hbyte]

theorem le_max_of_same_page {a b : Nat} (h : a / page.size = b / page.size)
    (hb : b ≤ kMaxGuestAddress) : a ≤ kMaxGuestAddress := by
  have hpow : kMaxGuestAddress + 1 = 2 ^ 48 := rfl
  have hdvd : page.size ∣ kMaxGuestAddress + 1 := by
    rw [hpow]
    exact Nat.pow_dvd_pow 2 (page.log2_le.trans (by omega))
  obtain ⟨c, hc⟩ := hdvd
  have hbc : b / page.size < c := by
    rw [Nat.div_lt_iff_lt_mul page.size_pos, Nat.mul_comm]
    omega
  rw [← h, Nat.div_lt_iff_lt_mul page.size_pos, Nat.mul_comm] at hbc
  omega

theorem isExecAddr_congr {a b : Nat} (h : a / page.size = b / page.size) :
    s.isExecAddr page a = s.isExecAddr page b := by
  have hiff : a ≤ kMaxGuestAddress ↔ b ≤ kMaxGuestAddress :=
    ⟨le_max_of_same_page page h.symm, le_max_of_same_page page h⟩
  rw [isExecAddr_eq, isExecAddr_eq, h]
  simp only [hiff]

theorem isExecAddr_setExecAddr (a b : Nat) (set : Bool) :
    (s.setExecAddr page a set).1.isExecAddr page b =
      if b ≤ kMaxGuestAddress ∧ a / page.size = b / page.size then set
      else s.isExecAddr page b := by
  by_cases hb : b ≤ kMaxGuestAddress
  · by_cases ha : a ≤ kMaxGuestAddress
    · rw [isExecAddr_eq, getLsbD_setExecAddr page s ha, isExecAddr_eq]
      simp [hb]
    · have hpage : ¬ a / page.size = b / page.size :=
        fun heq => ha (le_max_of_same_page page heq hb)
      simp [setExecAddr, not_le.mp ha, hpage]
  · rw [isExecAddr_eq, isExecAddr_eq]
    simp [hb]

theorem setExecAddr_changed (a : Nat) : (s.setExecAddr page a false).2 = s.isExecAddr page a := by
  unfold setExecAddr isExecAddr
  by_cases ha : a > kMaxGuestAddress
  · simp [ha]
  · simp [ha]

theorem setExecAddrs_spec (set : Bool) (pcs : List Nat) :
    (∀ b, (s.setExecAddrs page set pcs).1.isExecAddr page b =
      if b ≤ kMaxGuestAddress ∧ ∃ pc ∈ pcs, pc / page.size = b / page.size then set
      else s.isExecAddr page b) ∧ ∀ pc ∈ pcs, set = false → s.isExecAddr page pc = true →
      (s.setExecAddrs page set pcs).2 = true := by
  induction pcs using List.reverseRecOn with
  | nil => simp [setExecAddrs]
  | append_singleton pcs a ih =>
    obtain ⟨hbits, hchang⟩ := ih
    have hfold : s.setExecAddrs page set (pcs ++ [a]) =
        (((s.setExecAddrs page set pcs).1.setExecAddr page a set).1,
          (s.setExecAddrs page set pcs).2 ||
            ((s.setExecAddrs page set pcs).1.setExecAddr page a set).2) := by
      simp [setExecAddrs]
    rw [hfold]
    refine ⟨fun b => ?_, fun pc hpc hset hexec => ?_⟩
    · have hor : (∃ pc ∈ pcs ++ [a], pc / page.size = b / page.size) ↔
          a / page.size = b / page.size ∨ ∃ pc ∈ pcs, pc / page.size = b / page.size := by
        simp only [mem_append, mem_singleton, or_and_right, exists_or, exists_eq_left]
        exact or_comm
      rw [isExecAddr_setExecAddr, hbits b, if_congr (and_congr_right fun _ => hor) rfl rfl]
      by_cases hb : b ≤ kMaxGuestAddress
      · by_cases ha : a / page.size = b / page.size
        · simp [hb, ha]
        · simp [hb, ha]
      · simp [hb]
    · subst hset
      rcases mem_append.mp hpc with hpc | hpc
      · simp [hchang pc hpc rfl hexec]
      · rw [mem_singleton] at hpc
        subst hpc
        rw [setExecAddr_changed, hbits pc]
        by_cases hbef : pc ≤ kMaxGuestAddress ∧ ∃ q ∈ pcs, q / page.size = pc / page.size
        · -- An earlier turn cleared this page.
          obtain ⟨-, q, hq, hpage⟩ := hbef
          rw [← isExecAddr_congr page s hpage] at hexec
          simp [hchang q hq rfl hexec]
        · rw [if_neg hbef, hexec, Bool.or_true]

theorem exists_mem_pagesBelow (first last n : Nat) :
    (∃ pc ∈ pagesBelow page (first * page.size) last, pc / page.size = n) ↔
      first ≤ n ∧ n * page.size < last := by
  have hpos := page.size_pos
  have hdiv : ∀ i, (first * page.size + i * page.size) / page.size = first + i := by
    intro i
    rw [← Nat.add_mul, Nat.mul_div_cancel _ hpos]
  have hcount : ∀ i, i < (last - first * page.size + (page.size - 1)) / page.size ↔
      (first + i) * page.size < last := by
    intro i
    rw [Nat.lt_div_iff_mul_lt hpos, Nat.add_mul]
    omega
  simp only [pagesBelow, mem_map, mem_range]
  constructor
  · rintro ⟨pc, ⟨i, hi, rfl⟩, hn⟩
    rw [hdiv i] at hn
    subst hn
    exact ⟨Nat.le_add_right first i, (hcount i).mp hi⟩
  · rintro ⟨hle, hlt⟩
    refine ⟨_, ⟨n - first, (hcount _).mpr ?_, rfl⟩, ?_⟩
    · rwa [Nat.add_sub_cancel' hle]
    · rw [hdiv]
      omega

theorem overlaps_iff (start size n : Nat) :
    Overlaps page start size n ↔ start / page.size ≤ n ∧ n * page.size < start + size := by
  rw [Overlaps, ← Nat.div_lt_iff_lt_mul page.size_pos, Nat.lt_succ_iff, and_comm]

/-! ### Setting and clearing -/

section Range

variable {start size : Nat} (hwrap : start + size + page.size ≤ 2 ^ 64)

variable (s : GuestMapShadow) (n : Nat)

include hwrap

theorem exists_mem_range_iff : (∃ pc ∈ pagesBelow page (alignDown start page.size)
        (alignUp ((start + size) % 2 ^ 64) page.size), pc / page.size = n) ↔
      Overlaps page start size n := by
  have hpos := page.size_pos
  rw [page.alignDown_eq (by omega), exists_mem_pagesBelow, overlaps_iff,
    Nat.mod_eq_of_lt (by omega), page.mul_lt_alignUp_iff hwrap]

theorem executable_setExecutable : (s.setExecutable page start size).Executable page n ↔
      n * page.size ≤ kMaxGuestAddress ∧ Overlaps page start size n ∨ s.Executable page n := by
  have hbits := (setExecAddrs_spec page s true (pagesBelow page (alignDown start page.size)
    (alignUp ((start + size) % 2 ^ 64) page.size))).1 (n * page.size)
  rw [Nat.mul_div_cancel _ page.size_pos,
    if_congr (and_congr_right fun _ => exists_mem_range_iff page hwrap n) rfl rfl] at hbits
  unfold Executable setExecutable
  rw [hbits]
  by_cases hin : n * page.size ≤ kMaxGuestAddress ∧ Overlaps page start size n
  · simp [hin]
  · simp [hin]

theorem executable_clearExecutable : (s.clearExecutable page start size).1.Executable page n ↔
      s.Executable page n ∧ ¬ Overlaps page start size n := by
  have hbits := (setExecAddrs_spec page s false (pagesBelow page (alignDown start page.size)
    (alignUp ((start + size) % 2 ^ 64) page.size))).1 (n * page.size)
  rw [Nat.mul_div_cancel _ page.size_pos,
    if_congr (and_congr_right fun _ => exists_mem_range_iff page hwrap n) rfl rfl] at hbits
  unfold Executable clearExecutable
  rw [hbits]
  by_cases hin : Overlaps page start size n
  · by_cases hmax : n * page.size ≤ kMaxGuestAddress
    · simp [hin, hmax]
    · simp [hin, hmax, isExecAddr_eq]
  · simp [hin]

theorem clearExecutable_dropped {n : Nat} (hn : s.Executable page n)
    (hin : Overlaps page start size n) :
    (s.clearExecutable page start size).2 = [(start, alignUp (start + size) page.size)] := by
  have hpos := page.size_pos
  obtain ⟨pc, hpc, hpage⟩ := (exists_mem_range_iff page hwrap n).mpr hin
  have hexec : s.isExecAddr page pc = true := by
    rw [isExecAddr_congr page s (b := n * page.size)]
    · exact hn
    · rw [hpage, Nat.mul_div_cancel _ hpos]
  have hchang := (setExecAddrs_spec page s false _).2 pc hpc rfl hexec
  simp only [clearExecutable, hchang, if_true]
  rw [Nat.mod_eq_of_lt (by omega)]

/-- Clearing a range invalidates all pages that it clears, unless it starts in
    the middle of an executable one. -/
theorem dropped_clearExecutable_iff :
    Dropped page s (s.clearExecutable page start size).1 (s.clearExecutable page start size).2 ↔
      page.size ∣ start ∨ ¬ s.Executable page (start / page.size) := by
  have hpos := page.size_pos
  constructor
  · intro hdrop
    by_contra hbad
    rw [not_or, not_not] at hbad
    obtain ⟨hdvd, hexec⟩ := hbad
    have hle := Nat.div_mul_le_self start page.size
    have hne : start / page.size * page.size ≠ start := fun heq =>
      hdvd (heq ▸ Nat.dvd_mul_left page.size _)
    have hin : Overlaps page start size (start / page.size) :=
      (overlaps_iff page start size _).mpr ⟨le_rfl, by omega⟩
    -- The first page is cleared, but what is invalidated begins after it does.
    obtain ⟨r, hr, hst, -⟩ := hdrop _ hexec fun haft =>
      ((executable_clearExecutable page hwrap s _).mp haft).2 hin
    rw [clearExecutable_dropped page hwrap s hexec hin, mem_singleton] at hr
    subst hr
    omega
  · intro hor n hn haft
    have hin : Overlaps page start size n := by
      by_contra hout
      exact haft ((executable_clearExecutable page hwrap s n).mpr ⟨hn, hout⟩)
    obtain ⟨hge, hlt⟩ := (overlaps_iff page start size n).mp hin
    refine ⟨_, by rw [clearExecutable_dropped page hwrap s hn hin]; exact mem_singleton_self _,
      ?_, ?_⟩
    · rcases hor with hdvd | hexec
      · have hmul := Nat.mul_le_mul_right page.size hge
        rwa [Nat.div_mul_cancel hdvd] at hmul
      · -- The page of the start is not executable, so this is a later one.
        have hgt : start / page.size + 1 ≤ n := by
          rcases Nat.lt_or_ge (start / page.size) n with hlt | hge'
          · exact hlt
          · exact absurd (Nat.le_antisymm hge hge' ▸ hn) hexec
        have hmul := Nat.mul_le_mul_right page.size hgt
        have hst := Nat.lt_div_mul_add (a := start) hpos
        rw [Nat.add_mul, Nat.one_mul] at hmul
        omega
    · rw [← page.mul_lt_alignUp_iff hwrap, page.alignUp_eq hwrap] at hlt
      rw [page.alignUp_eq hwrap]
      exact Nat.mul_le_mul_right page.size (Nat.lt_of_mul_lt_mul_right hlt)

end Range

theorem dropped_setExecutable {start size : Nat} (hwrap : start + size + page.size ≤ 2 ^ 64)
    (s : GuestMapShadow) (dropped : List (Nat × Nat)) :
    Dropped page s (s.setExecutable page start size) dropped := fun n hn haft =>
  absurd ((executable_setExecutable page hwrap s n).mpr (Or.inr hn)) haft

theorem Dropped.append {s s₁ s₂ : GuestMapShadow} {d₁ d₂ : List (Nat × Nat)}
    (h₁ : Dropped page s s₁ d₁) (h₂ : Dropped page s₁ s₂ d₂) : Dropped page s s₂ (d₁ ++ d₂) := by
  intro n hn haft
  by_cases hmid : s₁.Executable page n
  · obtain ⟨r, hr, hcov⟩ := h₂ n hmid haft
    exact ⟨r, mem_append_right d₁ hr, hcov⟩
  · obtain ⟨r, hr, hcov⟩ := h₁ n hn hmid
    exact ⟨r, mem_append_left d₂ hr, hcov⟩

theorem dvd_of_eq_alignDown {x : Nat} (hx : x < 2 ^ 64) (h : x = alignDown x page.size) :
    page.size ∣ x := by
  rw [h, page.alignDown_eq hx]
  exact Nat.dvd_mul_left page.size _

theorem dvd_alignUp {x : Nat} (hx : x + page.size ≤ 2 ^ 64) : page.size ∣ alignUp x page.size := by
  rw [page.alignUp_eq hx]
  exact Nat.dvd_mul_left page.size _

theorem dropped_copyExecutable {s s' : GuestMapShadow} {src srcSize dst dstSize : Nat}
    {dropped : List (Nat × Nat)} (hwrap : dst + dstSize + page.size ≤ 2 ^ 64)
    (h : s.copyExecutable page src srcSize dst dstSize = some (s', dropped)) :
    Dropped page s s' dropped := by
  have hpos := page.size_pos
  unfold copyExecutable at h
  split_ifs at h with hsrc hdst happ hexec
  · cases h
    exact dropped_setExecutable page hwrap s _
  · rw [Option.some.injEq] at h
    have hiff := dropped_clearExecutable_iff page hwrap s
    rw [h] at hiff
    exact hiff.mpr (Or.inl (dvd_of_eq_alignDown page (by omega) (not_not.mp hdst)))

theorem dropped_remapExecutable {s s' : GuestMapShadow} {oldStart oldSize newStart newSize : Nat}
    {dropped : List (Nat × Nat)} (hold : oldStart + oldSize + 2 * page.size ≤ 2 ^ 64)
    (hnew : newStart + newSize + 2 * page.size ≤ 2 ^ 64)
    (h : s.remapExecutable page oldStart oldSize newStart newSize = some (s', dropped)) :
    Dropped page s s' dropped := by
  have hpos := page.size_pos
  have hold' : oldStart + oldSize + page.size ≤ 2 ^ 64 := by omega
  have hnew' : newStart + newSize + page.size ≤ 2 ^ 64 := by omega
  have holdEnd := page.alignUp_lt_add hold'
  have hnewEnd := page.alignUp_lt_add hnew'
  unfold remapExecutable at h
  simp only [Nat.mod_eq_of_lt (show oldStart + oldSize < 2 ^ 64 by omega),
    Nat.mod_eq_of_lt (show newStart + newSize < 2 ^ 64 by omega)] at h
  generalize (if oldSize < newSize then oldSize else newSize) = copied at h
  split_ifs at h with holdAl hnewAl hsame hshr hover
  · rw [Option.some.injEq] at h
    have hwrap : alignUp (newStart + newSize) page.size + (alignUp (oldStart + oldSize) page.size -
        alignUp (newStart + newSize) page.size) + page.size ≤ 2 ^ 64 := by omega
    have hiff := dropped_clearExecutable_iff page hwrap s
    rw [h] at hiff
    exact hiff.mpr (Or.inl (dvd_alignUp page hnew'))
  · exact dropped_copyExecutable page (by omega) h
  · rw [Option.map_eq_some_iff] at h
    obtain ⟨⟨s₁, d₁⟩, hcopy, heq⟩ := h
    have hiff := dropped_clearExecutable_iff page hold' s₁
    have hclear := hiff.mpr (Or.inl (dvd_of_eq_alignDown page (by omega) (not_not.mp holdAl)))
    cases heq
    exact (dropped_copyExecutable page (by omega) hcopy).append page hclear

/-! ### Scanning -/

theorem mem_pagesBelow {first last pc : Nat} (h : pc ∈ pagesBelow page (first * page.size) last) :
    ∃ n, pc = n * page.size := by
  simp only [pagesBelow, mem_map, mem_range] at h
  obtain ⟨i, -, rfl⟩ := h
  exact ⟨first + i, by rw [Nat.add_mul]⟩

theorem le_end_pagesBelow (pc last : Nat) :
    last ≤ pc + (pagesBelow page pc last).length * page.size := by
  have hpos := page.size_pos
  have hlt := Nat.lt_div_mul_add (a := last - pc + (page.size - 1)) hpos
  simp only [pagesBelow, length_map, length_range]
  omega

theorem end_pagesBelow_le (pc last : Nat) :
    pc + (pagesBelow page pc last).length * page.size ≤ pc + (last - pc) + page.size := by
  have hle := Nat.div_mul_le_self (last - pc + (page.size - 1)) page.size
  simp only [pagesBelow, length_map, length_range]
  omega

theorem getExecutable_spec {start size : Nat}
    (hst : start ≤ kMaxGuestAddress) (hsize : size ≤ kMaxGuestAddress) (hpos : 0 < size) :
    (s.getExecutable page start size = .kBitMixed ∧
      ∃ n n', Overlaps page start size n ∧ Overlaps page start size n' ∧
        s.Executable page n ∧ ¬ s.Executable page n') ∨
    (s.getExecutable page start size = .kBitSet ∧
      ∀ n, Overlaps page start size n → s.Executable page n) ∨
    (s.getExecutable page start size = .kBitUnset ∧
      ∀ n, Overlaps page start size n → ¬ s.Executable page n) := by
  have hps := page.size_pos
  have hps' := page.size_le
  unfold kMaxGuestAddress at hst hsize
  have hwrap : start + size + page.size ≤ 2 ^ 64 := by omega
  have hdown := Nat.div_mul_le_self start page.size
  have hup := Nat.lt_div_mul_add (a := start) hps
  have hlast := page.le_alignUp hwrap
  have hlast' := page.alignUp_lt_add hwrap
  have hfst : Overlaps page start size (start / page.size) :=
    (overlaps_iff page start size _).mpr ⟨le_rfl, by omega⟩
  have hpc : (start / page.size * page.size + page.size) % 2 ^ 64 =
      (start / page.size + 1) * page.size := by
    rw [Nat.mod_eq_of_lt (by omega), Nat.add_mul, Nat.one_mul]
  simp only [getExecutable, getExecutableRegionSize,
    page.alignDown_eq (show start < 2 ^ 64 by omega),
    hpc, Nat.mod_eq_of_lt (show start + size < 2 ^ 64 by omega)]
  cases hfind : (pagesBelow page ((start / page.size + 1) * page.size)
      (alignUp (start + size) page.size)).find?
        (fun pc => s.isExecAddr page (start / page.size * page.size) != s.isExecAddr page pc) with
  | some pc =>
    left
    have hmem := mem_of_find?_eq_some hfind
    have hdiff := find?_some hfind
    obtain ⟨n, rfl⟩ := mem_pagesBelow page hmem
    obtain ⟨hge, hlt⟩ := (exists_mem_pagesBelow page _ _ n).mp
      ⟨_, hmem, Nat.mul_div_cancel n hps⟩
    rw [page.mul_lt_alignUp_iff hwrap] at hlt
    have hn : Overlaps page start size n := (overlaps_iff page start size n).mpr ⟨by omega, hlt⟩
    have hgt := Nat.mul_le_mul_right page.size hge
    refine ⟨?_, ?_⟩
    · rw [Option.getD_some, Nat.add_comm, Nat.add_sub_assoc (by omega), Nat.add_mod_left,
        Nat.mod_eq_of_lt (by omega), if_pos (by omega)]
    · -- The page differs from the first one.
      simp only [bne_iff_ne] at hdiff
      cases hexec : s.isExecAddr page (n * page.size) with
      | true =>
        rw [hexec] at hdiff
        exact ⟨n, _, hn, hfst, hexec, hdiff⟩
      | false =>
        rw [hexec] at hdiff
        refine ⟨_, n, hfst, hn, Bool.eq_true_of_not_eq_false hdiff, ?_⟩
        unfold Executable
        rw [hexec]
        exact Bool.false_ne_true
  | none =>
    right
    have hle := le_end_pagesBelow page ((start / page.size + 1) * page.size)
      (alignUp (start + size) page.size)
    have hle' := end_pagesBelow_le page ((start / page.size + 1) * page.size)
      (alignUp (start + size) page.size)
    -- All pages are as the first one.
    have hsame : ∀ n, Overlaps page start size n → s.isExecAddr page (n * page.size) =
        s.isExecAddr page (start / page.size * page.size) := by
      intro n hn
      obtain ⟨hge, hlt⟩ := (overlaps_iff page start size n).mp hn
      rcases Nat.eq_or_lt_of_le hge with heq | hgt
      · rw [heq]
      · rw [← page.mul_lt_alignUp_iff hwrap] at hlt
        obtain ⟨pc, hmem, hpage⟩ := (exists_mem_pagesBelow page _ _ n).mpr ⟨hgt, hlt⟩
        have heq := find?_eq_none.mp hfind pc hmem
        rw [bne_iff_ne, not_not] at heq
        rw [heq]
        refine isExecAddr_congr page s ?_
        rw [Nat.mul_div_cancel n hps, hpage]
    rw [Option.getD_none, Nat.add_comm _ (2 ^ 64), Nat.add_sub_assoc (by omega),
      Nat.add_mod_left, Nat.mod_eq_of_lt (by omega), if_neg (by omega)]
    cases hexec : s.isExecAddr page (start / page.size * page.size) with
    | true =>
      left
      exact ⟨rfl, fun n hn => (hsame n hn).trans hexec⟩
    | false =>
      right
      refine ⟨rfl, fun n hn => ?_⟩
      unfold Executable
      rw [hsame n hn, hexec]
      exact Bool.false_ne_true

theorem dropped_apply_iff {s s' : GuestMapShadow} {dropped : List (Nat × Nat)} {op : Op}
    (hlimits : op.InLimits) (happly : s.apply page op = some (s', dropped)) :
    Dropped page s s' dropped ↔ op.ClearsWhole page s := by
  have hps := page.size_le
  cases op with
  | setExecutable start size =>
    unfold Op.InLimits kMaxGuestAddress at hlimits
    cases happly
    exact iff_of_true (dropped_setExecutable page (by omega) s _) trivial
  | clearExecutable start size =>
    unfold Op.InLimits kMaxGuestAddress at hlimits
    have hwrap : start + size + page.size ≤ 2 ^ 64 := by omega
    have hiff := dropped_clearExecutable_iff page hwrap s
    simp only [apply, Option.some.injEq] at happly
    rw [happly] at hiff
    exact hiff
  | copyExecutable src srcSize dst dstSize =>
    unfold Op.InLimits kMaxGuestAddress at hlimits
    exact iff_of_true (dropped_copyExecutable page (by omega) happly) trivial
  | remapExecutable oldStart oldSize newStart newSize =>
    unfold Op.InLimits kMaxGuestAddress at hlimits
    exact iff_of_true (dropped_remapExecutable page (by omega) (by omega) happly) trivial

theorem invalidates_iff {s : GuestMapShadow} {op : Op} (hlimits : op.InLimits) :
    Invalidates page s op ↔ ((s.apply page op).isSome → op.ClearsWhole page s) := by
  rw [Option.isSome_iff_exists]
  constructor
  · rintro h ⟨⟨s', dropped⟩, happly⟩
    exact (dropped_apply_iff page hlimits happly).mp (h s' dropped happly)
  · exact fun h s' dropped happly => (dropped_apply_iff page hlimits happly).mpr (h ⟨_, happly⟩)

/-- Calls with starts and sizes below the limit, from any bits: along a sequence of calls, those
    whose checks pass have invalidated every page that stopped being executable exactly
    when none of them clears an executable page from its middle on. A range is set when all
    its pages are executable, unset when none is, and mixed otherwise. -/
theorem executable_tracked (page : PageSize) (s : GuestMapShadow) :
    (∀ op : Op, op.InLimits → ∀ s' dropped, s.apply page op = some (s', dropped) →
      (Dropped page s s' dropped ↔ op.ClearsWhole page s)) ∧
    (∀ ops : List Op, (∀ op ∈ ops, op.InLimits) →
      (Lib.MeetsAlong (next page) (Invalidates page) s ops ↔
        Lib.MeetsAlong (next page) (fun s op => (s.apply page op).isSome → op.ClearsWhole page s)
          s ops)) ∧
    ∀ start size, start ≤ kMaxGuestAddress → size ≤ kMaxGuestAddress → 0 < size →
      (s.getExecutable page start size = .kBitSet ↔
        ∀ n, Overlaps page start size n → s.Executable page n) ∧
      (s.getExecutable page start size = .kBitUnset ↔
        ∀ n, Overlaps page start size n → ¬ s.Executable page n) := by
  refine ⟨fun op hlimits s' dropped happly => dropped_apply_iff page hlimits happly,
    fun ops hlimits => ?_, fun start size hstart hsize hpos => ?_⟩
  · exact Lib.meetsAlong_congr _ (fun op hop s => invalidates_iff page (hlimits op hop)) s
  have hoverlaps : Overlaps page start size (start / page.size) := by
    have hdown := Nat.div_mul_le_self start page.size
    exact (overlaps_iff page start size _).mpr ⟨le_rfl, by omega⟩
  rcases getExecutable_spec page s hstart hsize hpos with ⟨hget, n, n', hn, hn', hexec, hexec'⟩ |
    ⟨hget, hall⟩ | ⟨hget, hnone⟩
  · rw [hget]
    exact ⟨⟨fun hc => (by cases hc), fun hall => absurd (hall n' hn') hexec'⟩,
      ⟨fun hc => (by cases hc), fun hnone => absurd hexec (hnone n hn)⟩⟩
  · rw [hget]
    exact ⟨⟨fun _ => hall, fun _ => rfl⟩,
      ⟨fun hc => (by cases hc), fun hnone => absurd (hall _ hoverlaps) (hnone _ hoverlaps)⟩⟩
  · rw [hget]
    exact ⟨⟨fun hc => (by cases hc), fun hall => absurd (hall _ hoverlaps) (hnone _ hoverlaps)⟩,
      ⟨fun _ => hnone, fun _ => rfl⟩⟩

def page4k : PageSize := ⟨12, PageSize.twelve_le⟩

/-- One executable page, and a part of it cleared: the page is not executable
    any more, and its first half is not invalidated. -/
theorem clearExecutable_middle : (Op.clearExecutable 0x1800 0x100).InLimits ∧
      let s := (⟨fun _ => 0#8⟩ : GuestMapShadow).setExecutable page4k 0x1000 0x1000
      ∃ s' dropped, s.apply page4k (.clearExecutable 0x1800 0x100) = some (s', dropped) ∧
        s.Executable page4k 1 ∧ ¬ s'.Executable page4k 1 ∧ dropped = [(0x1800, 0x2000)] ∧
        ¬ Covered page4k dropped 1 := by
  refine ⟨by simp [Op.InLimits, kMaxGuestAddress], _, _, rfl, by unfold Executable; decide,
    by unfold Executable; decide, by decide, ?_⟩
  rintro ⟨r, hr, hstart, -⟩
  have hr : r ∈ [(0x1800, 0x2000)] := hr
  rw [mem_singleton] at hr
  subst hr
  exact absurd hstart (by decide)

/-- Two executable pages, and the first one cleared. -/
theorem executable_tracked_clear :
    let s := (⟨fun _ => 0#8⟩ : GuestMapShadow).setExecutable page4k 0x1000 0x2000
    ∃ s' dropped, s.apply page4k (.clearExecutable 0x1000 0x1000) = some (s', dropped) ∧
      s.Executable page4k 1 ∧ ¬ s'.Executable page4k 1 ∧ Dropped page4k s s' dropped :=
  ⟨_, _, rfl, by unfold Executable; decide, by unfold Executable; decide,
    ((executable_tracked page4k _).1 (.clearExecutable 0x1000 0x1000)
      (by simp [Op.InLimits, kMaxGuestAddress]) _ _ rfl).mpr (Or.inl (by decide))⟩

end GuestMapShadow

end Berberis
