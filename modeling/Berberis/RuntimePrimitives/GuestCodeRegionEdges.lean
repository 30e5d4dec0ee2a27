import Berberis.RuntimePrimitives.GuestCodeRegion

/-!
# The Graph of a Region

Cut the blocks that were added at every branch target inside them. The pieces
are the blocks of the split graph: a piece that does not end its block leads to
the next one, and the last piece has the edges of the block. `resolveEdges`
keeps the pieces that control reaches from the lowest block, and its checks do
not fail.

## Theorems

* `count_inEdges`: Incoming edges.
* `resolveEdges_exact`: The graph is exact.
-/

namespace Berberis.GuestCodeRegion

open Lib List SortedMap

/-- Blocks of positive size that do not wrap around and do not overlap. -/
structure Separate (added : List Added) : Prop where
  pos : ∀ a ∈ added, 0 < a.size
  noWrap : ∀ a ∈ added, a.guestAddr + a.size < 2 ^ 64
  apart : added.Pairwise fun a b =>
    a.guestAddr + a.size ≤ b.guestAddr ∨ b.guestAddr + b.size ≤ a.guestAddr

def Added.Has (a : Added) (p : Nat) : Prop := a.guestAddr ≤ p ∧ p < a.guestAddr + a.size

def targetsOf (added : List Added) : Set Nat := {t | ∃ a ∈ added, t ∈ a.outEdges}

/-- A piece of the block `a`, from `s` on with `n` bytes. -/
structure IsPiece (added : List Added) (cuts : Set Nat) (a : Added) (s n : Nat)
    (out : List Nat) : Prop where
  mem : a ∈ added
  pos : 0 < n
  ge : a.guestAddr ≤ s
  le : s + n ≤ a.guestAddr + a.size
  start : s = a.guestAddr ∨ s ∈ cuts
  uncut : ∀ c ∈ cuts, c ≤ s ∨ s + n ≤ c
  edges : s + n = a.guestAddr + a.size ∧ out = a.outEdges ∨
    s + n < a.guestAddr + a.size ∧ s + n ∈ cuts ∧ out = [s + n]

variable {added : List Added} {cuts : Set Nat} {r : GuestCodeRegion}

variable {a : Added} {s : Nat} {m : SortedMap Nat GuestCodeBasicBlock}
    {first : Nat × GuestCodeBasicBlock}

theorem Separate.eq_of_has (h : Separate added) {b : Added} (ha : a ∈ added) (hb : b ∈ added)
    {p : Nat} (hap : a.Has p) (hbp : b.Has p) : a = b := by
  by_contra hne
  have _ : Std.Symm fun a b : Added =>
      a.guestAddr + a.size ≤ b.guestAddr ∨ b.guestAddr + b.size ≤ a.guestAddr :=
    ⟨fun _ _ hor => hor.symm⟩
  have hapart := h.apart.forall ha hb hne
  unfold Added.Has at hap hbp
  omega

namespace IsPiece

variable {a b : Added} {s n s' n' p : Nat} {out out' : List Nat}

theorem has (h : IsPiece added cuts a s n out) (hs : s ≤ p) (hp : p < s + n) : a.Has p := by
  have hge := h.ge
  have hle := h.le
  exact ⟨by omega, by omega⟩

section

variable (h : IsPiece added cuts a s n out) (h' : IsPiece added cuts a s' n' out')
include h h'

theorem start_le (hp : p < s + n) (hp' : s' ≤ p) : s' ≤ s := by
  by_contra hlt
  rcases h'.start with heq | hcut
  · have hge := h.ge
    omega
  · have hunc := h.uncut s' hcut
    omega

theorem end_le (hs : s ≤ p) (hp' : p < s' + n') : s + n ≤ s' + n' := by
  by_contra hlt
  have hle := h.le
  rcases h'.edges with ⟨heq, -⟩ | ⟨-, hcut, -⟩
  · omega
  · have hunc := h.uncut _ hcut
    omega

end

theorem unique (hsep : Separate added) (h : IsPiece added cuts a s n out)
    (h' : IsPiece added cuts b s' n' out') (hs : s ≤ p) (hp : p < s + n) (hs' : s' ≤ p)
    (hp' : p < s' + n') : s = s' ∧ n = n' ∧ out = out' := by
  obtain rfl : a = b := hsep.eq_of_has h.mem h'.mem (h.has hs hp) (h'.has hs' hp')
  have hss : s = s' := le_antisymm (start_le h' h hp' hs) (start_le h h' hp hs')
  have hend : s + n = s' + n' := le_antisymm (end_le h h' hs hp') (end_le h' h hs' hp)
  refine ⟨hss, by omega, ?_⟩
  rcases h.edges with ⟨he, rfl⟩ | ⟨hlt, -, rfl⟩
  · rcases h'.edges with ⟨-, rfl⟩ | ⟨hlt', -, -⟩
    · rfl
    · omega
  · rcases h'.edges with ⟨he', -⟩ | ⟨-, -, rfl⟩
    · omega
    · rw [hend]

variable {t : Nat}

section

variable (h : IsPiece added cuts a s n out)
include h

theorem insert_cut (ht : t ≤ s ∨ s + n ≤ t) : IsPiece added (insert t cuts) a s n out where
  mem := h.mem
  pos := h.pos
  ge := h.ge
  le := h.le
  start := h.start.imp id (Set.mem_insert_of_mem t)
  uncut := by
    rintro c (rfl | hc)
    · exact ht
    · exact h.uncut c hc
  edges := h.edges.imp id fun he => ⟨he.1, Set.mem_insert_of_mem t he.2.1, he.2.2⟩

theorem head (hs : s < t) (ht : t < s + n) : IsPiece added (insert t cuts) a s (t - s) [t] where
  mem := h.mem
  pos := by omega
  ge := h.ge
  le := by
    have hle := h.le
    omega
  start := h.start.imp id (Set.mem_insert_of_mem t)
  uncut := by
    rintro c (rfl | hc)
    · omega
    · have hunc := h.uncut c hc
      omega
  edges := by
    have hle := h.le
    have hst : s + (t - s) = t := by omega
    exact Or.inr ⟨by omega, by rw [hst]; exact Set.mem_insert t cuts, by rw [hst]⟩

theorem tail (hs : s < t) (ht : t < s + n) :
    IsPiece added (insert t cuts) a t (n - (t - s)) out where
  mem := h.mem
  pos := by omega
  ge := by
    have hge := h.ge
    omega
  le := by
    have hle := h.le
    omega
  start := Or.inr (Set.mem_insert t cuts)
  uncut := by
    rintro c (rfl | hc)
    · omega
    · have hunc := h.uncut c hc
      omega
  edges := by
    have hend : t + (n - (t - s)) = s + n := by omega
    rw [hend]
    exact h.edges.imp id fun he => ⟨he.1, Set.mem_insert_of_mem t he.2.1, he.2.2⟩

theorem edges_mem (hcuts : cuts ⊆ targetsOf added) (ht : t ∈ out) : t ∈ targetsOf added := by
  rcases h.edges with ⟨-, rfl⟩ | ⟨-, hcut, rfl⟩
  · exact ⟨a, h.mem, ht⟩
  · rw [mem_singleton] at ht
    exact ht ▸ hcuts hcut

end

end IsPiece

/-! ### Splitting -/

/-- A region whose blocks are the pieces. -/
structure SplitInto (added : List Added) (cuts : Set Nat) (r : GuestCodeRegion) : Prop where
  notFinalized : r.codeRegionFinalized = false
  piece : ∀ s b, r.basicBlocks.get? s = some b →
    b.startAddr = s ∧ b.inEdges = [] ∧ ∃ a, IsPiece added cuts a s b.size b.outEdges
  covered : ∀ a ∈ added, ∀ p, a.Has p →
    ∃ s b, r.basicBlocks.get? s = some b ∧ s ≤ p ∧ p < s + b.size
  targets : ∀ t, r.branchTargets.get? t = some () ↔ t ∈ targetsOf added

namespace SplitInto

variable {s : Nat} {b : GuestCodeBasicBlock}

section

variable (hsep : Separate added) (h : SplitInto added cuts r) (hb : r.basicBlocks.get? s = some b)
include hsep h hb

theorem eq_of_has {s' p : Nat} {b' : GuestCodeBasicBlock} (hb' : r.basicBlocks.get? s' = some b')
    (hs : s ≤ p) (hp : p < s + b.size) (hs' : s' ≤ p) (hp' : p < s' + b'.size) : s = s' := by
  obtain ⟨-, -, a, ha⟩ := h.piece s b hb
  obtain ⟨-, -, a', ha'⟩ := h.piece s' b' hb'
  exact (ha.unique hsep ha' hs hp hs' hp').1

theorem end_le {s' : Nat} {b' : GuestCodeBasicBlock} (hb' : r.basicBlocks.get? s' = some b')
    (hlt : s < s') : s + b.size ≤ s' := by
  by_contra hin
  obtain ⟨-, -, a', ha'⟩ := h.piece s' b' hb'
  have hpos := ha'.pos
  have heq := h.eq_of_has hsep hb hb' hlt.le (by omega) le_rfl (by omega)
  omega

theorem endAddr_eq : b.endAddr = s + b.size := by
  obtain ⟨hst, -, a, ha⟩ := h.piece s b hb
  have hle := ha.le
  have hwrap := hsep.noWrap a ha.mem
  rw [GuestCodeBasicBlock.endAddr, hst, Nat.mod_eq_of_lt (by omega)]

end

theorem get?_of_piece (hsep : Separate added) (h : SplitInto added cuts r) {a : Added} {n : Nat}
    {out : List Nat} (hpiece : IsPiece added cuts a s n out) :
    ∃ b, r.basicBlocks.get? s = some b ∧ b.size = n ∧ b.outEdges = out := by
  have hpos := hpiece.pos
  obtain ⟨s', b, hb, hle, hlt⟩ := h.covered a hpiece.mem s (hpiece.has le_rfl (by omega))
  obtain ⟨-, -, a', ha'⟩ := h.piece s' b hb
  obtain ⟨hs, hn, hout⟩ := ha'.unique hsep hpiece hle hlt le_rfl (by omega)
  exact ⟨b, hs ▸ hb, hn, hout⟩

end SplitInto

section

variable (targets : SortedMap Nat Unit) (addrs : List Nat)

theorem insertAll_eq_self
    (h : ∀ a ∈ addrs, targets.get? a = some ()) : insertAll targets addrs = targets := by
  induction addrs with
  | nil => rfl
  | cons a addrs ih =>
    have ha := targets.insert_eq_self a () (h a mem_cons_self)
    rw [insertAll, foldl_cons, ha]
    exact ih (fun b hb => h b (mem_cons_of_mem a hb))

theorem get?_insertAll (t : Nat) :
    (insertAll targets addrs).get? t = some () ↔ targets.get? t = some () ∨ t ∈ addrs := by
  induction addrs generalizing targets with
  | nil => simp [insertAll]
  | cons a addrs ih =>
    have hcons : insertAll targets (a :: addrs) = insertAll (targets.insert a ()) addrs := rfl
    rw [hcons, ih, get?_insert, mem_cons]
    by_cases hat : a = t
    · simp [hat]
    · simp [hat, Ne.symm hat]

end

theorem SplitInto.insert_cut {t : Nat} (h : SplitInto added cuts r)
    (hout : ∀ s b, r.basicBlocks.get? s = some b → t ≤ s ∨ s + b.size ≤ t) :
    SplitInto added (insert t cuts) r where
  notFinalized := h.notFinalized
  piece := by
    intro s b hb
    obtain ⟨hst, hin, a, ha⟩ := h.piece s b hb
    exact ⟨hst, hin, a, ha.insert_cut (hout s b hb)⟩
  covered := h.covered
  targets := h.targets

/-- A turn of the loop: the block that has the target inside is split, and the
    set that is walked stays as it is. -/
theorem splitAt_spec (hsep : Separate added) (h : SplitInto added cuts r)
    (hcuts : cuts ⊆ targetsOf added) (t : Nat) :
    ∃ r', r.splitAt t = some r' ∧ r'.branchTargets = r.branchTargets ∧
      SplitInto added (insert t cuts) r' := by
  unfold splitAt
  cases hfloor : r.basicBlocks.floor? t with
  | none =>
    refine ⟨r, rfl, rfl, h.insert_cut fun s b hb => Or.inl ?_⟩
    have hmem := mem_toList.mpr hb
    exact (floor?_eq_none _ t hfloor (s, b) hmem).le
  | some x =>
    obtain ⟨s, b⟩ := x
    obtain ⟨hmem, hst, hlast⟩ := floor?_eq_some _ t _ hfloor
    have hb := mem_toList.mp hmem
    have hend := h.endAddr_eq hsep hb
    -- Other blocks with the target inside would begin after this one.
    have hoth : ∀ s' b', r.basicBlocks.get? s' = some b' → s' ≠ s → t ≤ s' ∨ s' + b'.size ≤ t := by
      intro s' b' hb' hne
      by_contra hin
      have hle := hlast (s', b') (mem_toList.mpr hb') (by simp only; omega)
      have hdis := h.end_le hsep hb' hb (by omega)
      omega
    simp only
    by_cases hskip : t ≤ s ∨ b.endAddr ≤ t
    · rw [if_pos hskip]
      refine ⟨r, rfl, rfl, h.insert_cut fun s' b' hb' => ?_⟩
      by_cases hs : s' = s
      · subst hs
        rw [hb] at hb'
        cases hb'
        rwa [hend] at hskip
      · exact hoth s' b' hb' hs
    · obtain ⟨hs0, hin, a, ha⟩ := h.piece s b hb
      rw [if_neg hskip, hs0]
      have hnone : r.basicBlocks.get? t = none := by
        cases hget : r.basicBlocks.get? t with
        | none => rfl
        | some c =>
          have hdis := h.end_le hsep hb hget (by omega)
          omega
      have hsame := insertAll_eq_self _ _ fun u hu => (h.targets u).mpr (ha.edges_mem hcuts hu)
      simp only [newBasicBlock, h.notFinalized, hnone, hsame, Option.isSome_none,
        Bool.false_eq_true, if_false, Option.map_some]
      have hst' : s < t := by omega
      refine ⟨_, rfl, rfl, ?_⟩
      refine ⟨rfl, ?_, ?_, h.targets⟩
      · intro s' b' hb'
        rw [get?_insert, get?_insert] at hb'
        split_ifs at hb' with hs ht
        · cases hb'
          exact ⟨hs, hin, a, hs ▸ ha.head hst' (by omega)⟩
        · cases hb'
          exact ⟨ht, rfl, a, ht ▸ ha.tail hst' (by omega)⟩
        · obtain ⟨hs0', hin', a', ha'⟩ := h.piece s' b' hb'
          exact ⟨hs0', hin', a', ha'.insert_cut (hoth s' b' hb' (Ne.symm hs))⟩
      · intro a' ha' p hp
        obtain ⟨s', b', hb', hle, hlt⟩ := h.covered a' ha' p hp
        by_cases hs : s = s'
        · subst hs
          rw [hb] at hb'
          cases hb'
          by_cases hpt : p < t
          · exact ⟨s, _, get?_insert_self _ _ _, hle, by simp only; omega⟩
          · refine ⟨t, ⟨t, b.size - (t - s), [], b.outEdges⟩, ?_, by omega, by simp only; omega⟩
            rw [get?_insert, if_neg hst'.ne, get?_insert_self]
        · refine ⟨s', b', ?_, hle, hlt⟩
          have hts : t ≠ s' := by
            rintro rfl
            rw [hnone] at hb'
            cases hb'
          rw [get?_insert, if_neg hs, get?_insert, if_neg hts, hb']

theorem splitFrom_spec (hsep : Separate added) (xs ys : List (Nat × Unit))
    (h : SplitInto added cuts r) (hcuts : cuts ⊆ targetsOf added)
    (hlist : r.branchTargets.toList = xs ++ ys) (fuel : Nat) (hfuel : ys.length ≤ fuel) :
    ∃ r', splitFrom fuel (ys.head?.map (·.1)) r = some r' ∧
      SplitInto added (cuts ∪ {t | ∃ y ∈ ys, y.1 = t}) r' := by
  induction ys generalizing r xs cuts fuel with
  | nil =>
    refine ⟨r, ?_, ?_⟩
    · cases fuel with
      | zero | succ => rfl
    · simpa using h
  | cons y ys ih =>
    obtain ⟨fuel, rfl⟩ : ∃ f, fuel = f + 1 := ⟨fuel - 1, by simp at hfuel; omega⟩
    obtain ⟨r', hr', htarg, hspl⟩ := splitAt_spec hsep h hcuts y.1
    have hmem : y.1 ∈ targetsOf added := by
      refine (h.targets y.1).mp (mem_toList.mp ?_)
      rw [hlist]
      exact mem_append_right xs mem_cons_self
    have hnext : r'.branchTargets.upperBound y.1 = ys := by
      rw [htarg]
      exact upperBound_eq _ xs ys y hlist
    obtain ⟨r'', hr'', hdone⟩ := ih (xs ++ [y]) hspl (Set.insert_subset hmem hcuts)
      (by rw [htarg, hlist]; simp) fuel (by simpa using hfuel)
    refine ⟨r'', ?_, ?_⟩
    · simp [splitFrom, hr', hnext, hr'']
    · have hset : cuts ∪ {t | ∃ z ∈ y :: ys, z.1 = t} =
          insert y.1 cuts ∪ {t | ∃ z ∈ ys, z.1 = t} := by
        ext t
        simp only [mem_cons, exists_eq_or_imp, Set.mem_union, Set.mem_ofPred_eq, Set.mem_insert_iff]
        constructor
        · rintro (ht | rfl | ht)
          · exact Or.inl (Or.inr ht)
          · exact Or.inl (Or.inl rfl)
          · exact Or.inr ht
        · rintro ((rfl | ht) | ht)
          · exact Or.inr (Or.inl rfl)
          · exact Or.inl ht
          · exact Or.inr (Or.inr ht)
      rw [hset]
      exact hdone

theorem splitBasicBlocks_spec (hsep : Separate added) (h : SplitInto added ∅ r) :
    ∃ r', r.splitBasicBlocks = some r' ∧ SplitInto added (targetsOf added) r' := by
  obtain ⟨r', hr', hspl⟩ := splitFrom_spec hsep [] r.branchTargets.toList h
    (Set.empty_subset _) rfl _ le_rfl
  have hset : (∅ : Set Nat) ∪ {t | ∃ y ∈ r.branchTargets.toList, y.1 = t} = targetsOf added := by
    ext t
    rw [Set.empty_union, ← h.targets t, ← mem_toList]
    constructor
    · rintro ⟨y, hy, rfl⟩
      exact hy
    · exact fun ht => ⟨_, ht, rfl⟩
  exact ⟨r', hr', hset ▸ hspl⟩

/-! ### Adding blocks -/

theorem isPiece_uncut (ha : a ∈ added) (hpos : 0 < a.size) :
    IsPiece added ∅ a a.guestAddr a.size a.outEdges where
  mem := ha
  pos := hpos
  ge := le_rfl
  le := le_rfl
  start := Or.inl rfl
  uncut := fun _ hc => absurd hc (Set.notMem_empty _)
  edges := Or.inl ⟨rfl, rfl⟩

theorem IsPiece.mono {added' : List Added} (hsub : added ⊆ added') {n : Nat} {out : List Nat}
    (h : IsPiece added cuts a s n out) : IsPiece added' cuts a s n out :=
  ⟨hsub h.mem, h.pos, h.ge, h.le, h.start, h.uncut, h.edges⟩

theorem newBasicBlock_spec (hsep : Separate (added ++ [a])) (h : SplitInto added ∅ r) :
    ∃ r', r.newBasicBlock a.guestAddr a.size a.outEdges = some r' ∧
      SplitInto (added ++ [a]) ∅ r' := by
  have hpos : 0 < a.size := hsep.pos a (by simp)
  have hnone : r.basicBlocks.get? a.guestAddr = none := by
    cases hget : r.basicBlocks.get? a.guestAddr with
    | none => rfl
    | some b =>
      obtain ⟨-, -, c, hc⟩ := h.piece _ b hget
      have hapart := (pairwise_append.mp hsep.apart).2.2 c hc.mem a (by simp)
      have hge := hc.ge
      have hle := hc.le
      have hlt := hc.pos
      omega
  simp only [newBasicBlock, h.notFinalized, hnone, Option.isSome_none, Bool.false_eq_true, if_false]
  refine ⟨_, rfl, rfl, ?_, ?_, ?_⟩
  · intro s b hb
    rw [get?_insert] at hb
    split_ifs at hb with hs
    · cases hb
      exact ⟨hs, rfl, a, hs ▸ isPiece_uncut (by simp) hpos⟩
    · obtain ⟨hst, hin, c, hc⟩ := h.piece s b hb
      exact ⟨hst, hin, c, hc.mono (subset_append_left added [a])⟩
  · intro c hc p hp
    rcases mem_append.mp hc with hc | hc
    · obtain ⟨s, b, hb, hle, hlt⟩ := h.covered c hc p hp
      refine ⟨s, b, ?_, hle, hlt⟩
      have hs : a.guestAddr ≠ s := by
        rintro rfl
        rw [hnone] at hb
        cases hb
      rw [get?_insert, if_neg hs, hb]
    · rw [mem_singleton] at hc
      subst hc
      exact ⟨c.guestAddr, _, get?_insert_self _ _ _, hp.1, hp.2⟩
  · intro t
    rw [get?_insertAll, h.targets t]
    simp [targetsOf]

theorem addBasicBlocks_spec (hsep : Separate added) :
    ∃ r, addBasicBlocks added = some r ∧ SplitInto added ∅ r := by
  induction added using List.reverseRecOn with
  | nil =>
    refine ⟨empty, rfl, rfl, ?_, ?_, ?_⟩
    · intro s b hb
      cases hb
    · exact fun a ha => absurd ha not_mem_nil
    · intro t
      simp [empty, get?_empty, targetsOf]
  | append_singleton added a ih =>
    have hsep' : Separate added :=
      ⟨fun b hb => hsep.pos b (by simp [hb]), fun b hb => hsep.noWrap b (by simp [hb]),
        (pairwise_append.mp hsep.apart).1⟩
    obtain ⟨r, hr, hspl⟩ := ih hsep'
    obtain ⟨r', hr', hspl'⟩ := newBasicBlock_spec hsep hspl
    refine ⟨r', ?_, hspl'⟩
    rw [addBasicBlocks] at hr
    rw [addBasicBlocks, foldlM_append, hr]
    simp [hr']

theorem validate_go (hsep : Separate added) (h : SplitInto added cuts r) (last : Nat)
    (xs : List (Nat × GuestCodeBasicBlock)) (hxs : ∀ x ∈ xs, x ∈ r.basicBlocks.toList)
    (hsort : xs.Pairwise fun x y => x.1 < y.1) (hlast : ∀ x ∈ xs, last ≤ x.1) :
    validateRegionBeforeFinalize.go last xs = true := by
  induction xs generalizing last with
  | nil => rfl
  | cons x xs ih =>
    have hx := mem_toList.mp (hxs x mem_cons_self)
    rcases pairwise_cons.mp hsort with ⟨hlt, hrest⟩
    rw [validateRegionBeforeFinalize.go, ih x.2.endAddr
      (fun y hy => hxs y (mem_cons_of_mem x hy)) hrest]
    · simp [hlast x mem_cons_self, (h.piece _ _ hx).2.1]
    · intro y hy
      have hy' := mem_toList.mp (hxs y (mem_cons_of_mem x hy))
      rw [h.endAddr_eq hsep hx]
      exact h.end_le hsep hx hy' (hlt y hy)

theorem validateRegionBeforeFinalize_eq_true (hsep : Separate added)
    (h : SplitInto added cuts r) : r.validateRegionBeforeFinalize = true :=
  validate_go hsep h 0 _ (fun _ hx => hx) r.basicBlocks.sorted (fun _ _ => Nat.zero_le _)

/-! ### Reachable blocks -/

def Leads (m : SortedMap Nat GuestCodeBasicBlock) (s t : Nat) : Prop :=
  ∃ b c, m.get? s = some b ∧ t ∈ b.outEdges ∧ m.get? t = some c

/-- The loop over the worklist: blocks visited are reachable, the targets are those of the blocks
    visited, and a target still to visit is in the worklist. -/
structure Collecting (m : SortedMap Nat GuestCodeBasicBlock) (start : Nat) (visited : Nat → Bool)
    (targets : SortedMap Nat Unit) (worklist : List Nat) : Prop where
  reach : ∀ s b, m.get? s = some b → visited (s - start) = true →
    Relation.ReflTransGen (Leads m) start s
  targets_iff : ∀ t, targets.get? t = some () ↔
    ∃ s b, m.get? s = some b ∧ visited (s - start) = true ∧ t ∈ b.outEdges
  work : ∀ w ∈ worklist, w = start ∨ targets.get? w = some ()
  start_mem : start ∈ worklist ∨ visited 0 = true
  closed : ∀ t b, targets.get? t = some () → m.get? t = some b →
    t ∈ worklist ∨ visited (t - start) = true

def unvisitedEdges (m : SortedMap Nat GuestCodeBasicBlock) (start : Nat) (visited : Nat → Bool) :
    Nat :=
  ((m.toList.filter fun x => !visited (x.1 - start)).map fun x => x.2.outEdges.length).sum

theorem sum_filter_add_le {α : Type} (f : α → Nat) (p q : α → Bool) (xs : List α) (x : α)
    (hx : x ∈ xs) (hpx : p x = true) (hqx : q x = false) (hqp : ∀ y, q y = true → p y = true) :
    ((xs.filter q).map f).sum + f x ≤ ((xs.filter p).map f).sum := by
  have hle : ∀ ys : List α, ((ys.filter q).map f).sum ≤ ((ys.filter p).map f).sum := fun ys =>
    ((monotone_filter_right ys hqp).map f).sum_le_sum fun _ _ => Nat.zero_le _
  induction xs with
  | nil => exact absurd hx not_mem_nil
  | cons y ys ih =>
    rcases mem_cons.mp hx with rfl | hmem
    · rw [filter_cons_of_neg (by simp [hqx]), filter_cons_of_pos hpx]
      have htail := hle ys
      simp only [map_cons, sum_cons]
      omega
    · have htail := ih hmem
      cases hq : q y with
      | true =>
        rw [filter_cons_of_pos hq, filter_cons_of_pos (hqp y hq)]
        simp only [map_cons, sum_cons]
        omega
      | false =>
        rw [filter_cons_of_neg (by simp [hq]), filter_cons]
        split_ifs
        · simp only [map_cons, sum_cons]
          omega
        · exact htail

namespace Collecting

variable {m : SortedMap Nat GuestCodeBasicBlock} {start : Nat} {visited : Nat → Bool}
  {targets : SortedMap Nat Unit} {worklist : List Nat} {w : Nat}

theorem skip (h : Collecting m start visited targets (w :: worklist))
    (hw : ∀ b, m.get? w = some b → visited (w - start) = true)
    (hst : ∃ b, m.get? start = some b) : Collecting m start visited targets worklist where
  reach := h.reach
  targets_iff := h.targets_iff
  work := fun v hv => h.work v (mem_cons_of_mem w hv)
  start_mem := by
    rcases h.start_mem with hmem | hvis
    · rcases mem_cons.mp hmem with rfl | hmem
      · obtain ⟨b, hb⟩ := hst
        have hvis := hw b hb
        rw [Nat.sub_self] at hvis
        exact Or.inr hvis
      · exact Or.inl hmem
    · exact Or.inr hvis
  closed := by
    intro t b ht hb
    rcases h.closed t b ht hb with hmem | hvis
    · rcases mem_cons.mp hmem with rfl | hmem
      · exact Or.inr (hw b hb)
      · exact Or.inl hmem
    · exact Or.inr hvis

theorem visit (h : Collecting m start visited targets (w :: worklist)) {b : GuestCodeBasicBlock}
    (hb : m.get? w = some b) (hge : ∀ s c, m.get? s = some c → start ≤ s) :
    Collecting m start (Function.update visited (w - start) true) (insertAll targets b.outEdges)
      (worklist ++ b.outEdges) := by
  have hreach : Relation.ReflTransGen (Leads m) start w := by
    rcases h.work w mem_cons_self with rfl | ht
    · exact Relation.ReflTransGen.refl
    · obtain ⟨s, c, hc, hvis, hout⟩ := (h.targets_iff w).mp ht
      exact (h.reach s c hc hvis).tail ⟨c, b, hc, hout, hb⟩
  -- Offsets tell blocks apart.
  have hupd : ∀ s c, m.get? s = some c →
      (Function.update visited (w - start) true (s - start) = true ↔
        s = w ∨ visited (s - start) = true) := by
    intro s c hc
    have hs := hge s c hc
    have hw := hge w b hb
    by_cases hsw : s = w
    · subst hsw
      simp
    · rw [Function.update_of_ne (by omega)]
      simp [hsw]
  have hmono : ∀ k, visited k = true → Function.update visited (w - start) true k = true := by
    intro k hk
    by_cases heq : k = w - start
    · rw [heq, Function.update_self]
    · rw [Function.update_of_ne heq, hk]
  refine ⟨?_, ?_, ?_, ?_, ?_⟩
  · intro s c hc hvis
    rcases (hupd s c hc).mp hvis with rfl | hold
    · exact hreach
    · exact h.reach s c hc hold
  · intro t
    rw [get?_insertAll, h.targets_iff t]
    constructor
    · rintro (⟨s, c, hc, hvis, hout⟩ | hout)
      · exact ⟨s, c, hc, hmono _ hvis, hout⟩
      · exact ⟨w, b, hb, Function.update_self _ _ _, hout⟩
    · rintro ⟨s, c, hc, hvis, hout⟩
      rcases (hupd s c hc).mp hvis with rfl | hold
      · rw [hb] at hc
        cases hc
        exact Or.inr hout
      · exact Or.inl ⟨s, c, hc, hold, hout⟩
  · intro v hv
    rw [get?_insertAll]
    rcases mem_append.mp hv with hv | hv
    · exact (h.work v (mem_cons_of_mem w hv)).imp id Or.inl
    · exact Or.inr (Or.inr hv)
  · rcases h.start_mem with hmem | hvis
    · rcases mem_cons.mp hmem with rfl | hmem
      · right
        rw [Nat.sub_self, Function.update_self]
      · exact Or.inl (mem_append_left _ hmem)
    · exact Or.inr (hmono 0 hvis)
  · intro t c ht hc
    rcases (get?_insertAll targets b.outEdges t).mp ht with ht | hout
    · rcases h.closed t c ht hc with hmem | hvis
      · rcases mem_cons.mp hmem with rfl | hmem
        · exact Or.inr (Function.update_self _ _ _)
        · exact Or.inl (mem_append_left _ hmem)
      · exact Or.inr (hmono _ hvis)
    · exact Or.inl (mem_append_right worklist hout)

theorem done (h : Collecting m start visited targets []) (t : Nat) : targets.get? t = some () ↔
      ∃ s b, Relation.ReflTransGen (Leads m) start s ∧ m.get? s = some b ∧ t ∈ b.outEdges := by
  have hall : ∀ s, Relation.ReflTransGen (Leads m) start s → visited (s - start) = true := by
    intro s hs
    induction hs with
    | refl =>
      rw [Nat.sub_self]
      exact h.start_mem.resolve_left not_mem_nil
    | @tail u v _ hlead ih =>
      obtain ⟨b, c, hb, hout, hc⟩ := hlead
      have ht := (h.targets_iff v).mpr ⟨u, b, hb, ih, hout⟩
      exact (h.closed v c ht hc).resolve_left not_mem_nil
  rw [h.targets_iff t]
  constructor
  · rintro ⟨s, b, hb, hvis, hout⟩
    exact ⟨s, b, h.reach s b hb hvis, hb, hout⟩
  · rintro ⟨s, b, hreach, hb, hout⟩
    exact ⟨s, b, hb, hall s hreach, hout⟩

end Collecting

theorem collectFrom_spec {start last : Nat} (hbnd : ∀ s b, m.get? s = some b → start ≤ s ∧ s < last)
    (hst : ∃ b, m.get? start = some b) (fuel : Nat) (visited : Nat → Bool)
    (targets : SortedMap Nat Unit) (worklist : List Nat)
    (h : Collecting m start visited targets worklist)
    (hfuel : worklist.length + unvisitedEdges m start visited ≤ fuel) :
    ∃ targets', collectFrom m start last fuel visited targets worklist = some targets' ∧
      ∀ t, targets'.get? t = some () ↔
        ∃ s b, Relation.ReflTransGen (Leads m) start s ∧ m.get? s = some b ∧ t ∈ b.outEdges := by
  induction fuel generalizing visited targets worklist with
  | zero =>
    have hnil : worklist = [] := length_eq_zero_iff.mp (by omega)
    subst hnil
    exact ⟨targets, rfl, h.done⟩
  | succ fuel ih =>
    cases worklist with
    | nil => exact ⟨targets, rfl, h.done⟩
    | cons w worklist =>
      rw [length_cons] at hfuel
      rw [collectFrom]
      cases hb : m.get? w with
      | none =>
        refine ih visited targets worklist (h.skip (fun b hget => ?_) hst) (by omega)
        rw [hb] at hget
        cases hget
      | some b =>
        simp only
        rw [if_neg (not_not.mpr (hbnd w b hb))]
        by_cases hvis : visited (w - start) = true
        · rw [if_pos hvis]
          exact ih visited targets worklist (h.skip (fun _ _ => hvis) hst) (by omega)
        · rw [if_neg hvis]
          refine ih _ _ _ (h.visit hb fun s c hc => (hbnd s c hc).1) ?_
          -- The edges of the block move from those not visited into the worklist.
          have hmove : unvisitedEdges m start (Function.update visited (w - start) true) +
              b.outEdges.length ≤ unvisitedEdges m start visited := by
            refine sum_filter_add_le (fun x => x.2.outEdges.length)
              (fun x => !visited (x.1 - start))
              (fun x => !Function.update visited (w - start) true (x.1 - start)) m.toList
              (w, b) (mem_toList.mpr hb) (by simpa using hvis)
              (by simp) ?_
            intro y hy
            by_cases heq : y.1 - start = w - start
            · rw [heq, Function.update_self] at hy
              cases hy
            · rwa [Function.update_of_ne heq] at hy
          rw [length_append]
          omega

theorem head?_le {x : Nat × GuestCodeBasicBlock} (h : m.toList.head? = some x)
    {b : GuestCodeBasicBlock} (hb : m.get? s = some b) : x.1 ≤ s := by
  obtain ⟨xs, hxs⟩ := head?_eq_some_iff.mp h
  have hsort := m.sorted
  have hmem := mem_toList.mpr hb
  rw [hxs] at hsort hmem
  rcases mem_cons.mp hmem with heq | hmem
  · rw [← heq]
  · exact ((pairwise_cons.mp hsort).1 _ hmem).le

theorem le_getLast? {x : Nat × GuestCodeBasicBlock} (h : m.toList.getLast? = some x)
    {b : GuestCodeBasicBlock} (hb : m.get? s = some b) : s ≤ x.1 := by
  obtain ⟨xs, hxs⟩ := getLast?_eq_some_iff.mp h
  have hsort := m.sorted
  have hmem := mem_toList.mpr hb
  rw [hxs] at hsort hmem
  rcases mem_append.mp hmem with hmem | heq
  · exact ((pairwise_append.mp hsort).2.2 _ hmem x (by simp)).le
  · rw [← mem_singleton.mp heq]

theorem collectReachableBranchTargets_spec (hsep : Separate added) (h : SplitInto added cuts r)
    (hfst : r.basicBlocks.toList.head? = some first) :
    ∃ targets, r.collectReachableBranchTargets = some targets ∧ ∀ t, targets.get? t = some () ↔
        ∃ s b, Relation.ReflTransGen (Leads r.basicBlocks) first.1 s ∧
          r.basicBlocks.get? s = some b ∧ t ∈ b.outEdges := by
  have hget : r.basicBlocks.get? first.1 = some first.2 :=
    mem_toList.mp (mem_of_head? hfst)
  cases hlast : r.basicBlocks.toList.getLast? with
  | none =>
    rw [getLast?_eq_none_iff] at hlast
    rw [hlast] at hfst
    cases hfst
  | some last =>
    have hlast' : r.basicBlocks.get? last.1 = some last.2 :=
      mem_toList.mp (mem_of_getLast? hlast)
    have hbnd : ∀ s b, r.basicBlocks.get? s = some b → first.1 ≤ s ∧ s < last.2.endAddr := by
      intro s b hb
      obtain ⟨-, -, a, ha⟩ := h.piece _ _ hlast'
      have hpos := ha.pos
      have hle := le_getLast? hlast hb
      refine ⟨head?_le hfst hb, ?_⟩
      rw [h.endAddr_eq hsep hlast']
      omega
    simp only [collectReachableBranchTargets, hfst, hlast]
    refine collectFrom_spec hbnd ⟨_, hget⟩ _ _ _ _ ?_ ?_
    · exact ⟨by simp, by simp [get?_empty], by simp, by simp, by simp [get?_empty]⟩
    · simp [collectTurns, unvisitedEdges]

theorem get?_foldl_erase (targets : SortedMap Nat Unit) (xs : List (Nat × GuestCodeBasicBlock))
    (m : SortedMap Nat GuestCodeBasicBlock) (s : Nat) :
    (xs.foldl (fun m x => if (targets.get? x.1).isSome then m else m.erase x.1) m).get? s =
      if s ∈ xs.map (·.1) ∧ targets.get? s = none then none else m.get? s := by
  induction xs generalizing m with
  | nil => simp
  | cons x xs ih =>
    simp only [foldl_cons, ih, map_cons, mem_cons]
    by_cases hx : x.1 = s
    · cases ht : targets.get? s with
      | none | some => simp [hx, ht]
    · rw [if_congr (and_congr_left' (or_iff_right (Ne.symm hx))) rfl rfl]
      cases ht : targets.get? x.1 with
      | none => simp [hx]
      | some u => simp

theorem removeUnreachableBlocks_spec (hsep : Separate added) (h : SplitInto added cuts r)
    (hfst : r.basicBlocks.toList.head? = some first) : ∃ r', r.removeUnreachableBlocks = some r' ∧
      (∀ s b, r'.basicBlocks.get? s = some b ↔ r.basicBlocks.get? s = some b ∧
        Relation.ReflTransGen (Leads r.basicBlocks) first.1 s) ∧
      ∀ t, r'.branchTargets.get? t = some () ↔
        ∃ s b, r'.basicBlocks.get? s = some b ∧ t ∈ b.outEdges := by
  obtain ⟨targets, htarg, hspec⟩ := collectReachableBranchTargets_spec hsep h hfst
  obtain ⟨rest, hrest⟩ := head?_eq_some_iff.mp hfst
  have hkept : ∀ s b, (r.basicBlocks.toList.tail.foldl
      (fun m x => if (targets.get? x.1).isSome then m else m.erase x.1) r.basicBlocks).get? s =
        some b ↔ r.basicBlocks.get? s = some b ∧
          Relation.ReflTransGen (Leads r.basicBlocks) first.1 s := by
    intro s b
    rw [get?_foldl_erase]
    -- A block that control reaches is the first one or a target of one it reaches.
    have hreach : r.basicBlocks.get? s = some b →
        (Relation.ReflTransGen (Leads r.basicBlocks) first.1 s ↔
          s = first.1 ∨ targets.get? s = some ()) := by
      intro hb
      rw [hspec s, Relation.ReflTransGen.cases_tail_iff]
      constructor
      · rintro (heq | ⟨u, hu, c, d, hc, hout, -⟩)
        · exact Or.inl heq
        · exact Or.inr ⟨u, c, hu, hc, hout⟩
      · rintro (heq | ⟨u, c, hu, hc, hout⟩)
        · exact Or.inl heq
        · exact Or.inr ⟨u, hu, c, b, hc, hout, hb⟩
    have hsort := r.basicBlocks.sorted
    rw [hrest, pairwise_cons] at hsort
    split_ifs with herase
    · obtain ⟨hmem, hnone⟩ := herase
      obtain ⟨x, hx, rfl⟩ := mem_map.mp hmem
      rw [hrest, tail_cons] at hx
      refine ⟨False.elim, ?_⟩
      rintro ⟨hb, hr⟩
      rcases (hreach hb).mp hr with heq | hsome
      · exact absurd heq (hsort.1 x hx).ne'
      · rw [hnone] at hsome
        cases hsome
    · refine ⟨fun hb => ⟨hb, (hreach hb).mpr ?_⟩, And.left⟩
      have hmem := mem_toList.mpr hb
      rw [hrest, mem_cons] at hmem
      rcases hmem with heq | hmem
      · exact Or.inl (by rw [← heq])
      · cases ht : targets.get? s with
        | none =>
          refine absurd ⟨mem_map.mpr ⟨(s, b), ?_, rfl⟩, ht⟩ herase
          rw [hrest]
          exact hmem
        | some u => exact Or.inr rfl
  have hne : r.basicBlocks.toList.isEmpty = false := by
    rw [hrest]
    rfl
  simp only [removeUnreachableBlocks, hne, htarg, Bool.false_eq_true, if_false, Option.map_some]
  refine ⟨_, rfl, hkept, fun t => ?_⟩
  rw [hspec t]
  constructor
  · rintro ⟨s, b, hreach, hb, hout⟩
    exact ⟨s, b, (hkept s b).mpr ⟨hb, hreach⟩, hout⟩
  · rintro ⟨s, b, hb, hout⟩
    obtain ⟨hb, hreach⟩ := (hkept s b).mp hb
    exact ⟨s, b, hreach, hb, hout⟩

/-! ### Incoming edges -/

theorem get?_addInEdges (source : Nat) (out : List Nat) (m : SortedMap Nat GuestCodeBasicBlock)
    (t : Nat) : (out.foldl (addInEdge source) m).get? t =
      (m.get? t).map fun b =>
        { b with inEdges := b.inEdges ++ List.replicate (out.count t) source } := by
  induction out generalizing m with
  | nil =>
    simp
  | cons u out ih =>
    rw [foldl_cons, ih]
    by_cases hut : u = t
    · subst hut
      rw [count_cons_self, Nat.add_comm, replicate_add]
      cases hget : m.get? u with
      | none | some => simp [addInEdge, hget]
    · rw [count_cons_of_ne hut]
      cases hget : m.get? u with
      | none => simp [addInEdge, hget]
      | some b => simp [addInEdge, hget, hut]

theorem get?_foldl_addInEdges (xs : List (Nat × GuestCodeBasicBlock))
    (m : SortedMap Nat GuestCodeBasicBlock) (t : Nat) :
    (xs.foldl (fun m x => x.2.outEdges.foldl (addInEdge x.1) m) m).get? t = (m.get? t).map fun b =>
        { b with
          inEdges := b.inEdges ++
            xs.flatMap fun x => List.replicate (x.2.outEdges.count t) x.1 } := by
  induction xs generalizing m with
  | nil => simp
  | cons x xs ih =>
    rw [foldl_cons, ih, get?_addInEdges, Option.map_map]
    simp [Function.comp_def]

theorem count_inEdges (m : SortedMap Nat GuestCodeBasicBlock) (t s : Nat) (c : GuestCodeBasicBlock)
    (hc : m.get? s = some c) :
    (m.toList.flatMap fun x => List.replicate (x.2.outEdges.count t) x.1).count s =
      c.outEdges.count t := by
  have hmem := mem_toList.mpr hc
  have hsort := m.sorted
  generalize m.toList = xs at hmem hsort
  induction xs with
  | nil => exact absurd hmem not_mem_nil
  | cons x xs ih =>
    rcases pairwise_cons.mp hsort with ⟨hx, hxs⟩
    rw [flatMap_cons, count_append]
    rcases mem_cons.mp hmem with heq | hmem
    · -- Later blocks begin at other addresses.
      have hzero : (xs.flatMap fun x => List.replicate (x.2.outEdges.count t) x.1).count s = 0 := by
        rw [count_eq_zero]
        intro hin
        obtain ⟨y, hy, hin⟩ := mem_flatMap.mp hin
        have hlt := hx y hy
        rw [← heq, ← eq_of_mem_replicate hin] at hlt
        exact lt_irrefl _ hlt
      rw [hzero, ← heq, count_replicate_self, Nat.add_zero]
    · have hlt : x.1 < s := hx _ hmem
      rw [ih hmem hxs, count_replicate, if_neg (by simp; omega), Nat.zero_add]

/-! ### The graph -/

def SplitBlock (added : List Added) (s n : Nat) (out : List Nat) : Prop :=
  ∃ a, IsPiece added (targetsOf added) a s n out

def SplitEdge (added : List Added) (s t : Nat) : Prop :=
  (∃ n out, SplitBlock added s n out ∧ t ∈ out) ∧ ∃ n out, SplitBlock added t n out

/-- The region is the part of the split graph that control reaches from the lowest block. -/
structure Resolved (added : List Added) (r : GuestCodeRegion) : Prop where
  disjoint : ∀ s b s' b', r.basicBlocks.get? s = some b → r.basicBlocks.get? s' = some b' →
    s ≠ s' → s + b.size ≤ s' ∨ s' + b'.size ≤ s
  bytes : ∀ s b, r.basicBlocks.get? s = some b → ∀ p, s ≤ p → p < s + b.size →
    ∃ a ∈ added, a.Has p
  starts : ∀ s b t, r.basicBlocks.get? s = some b → t ∈ b.outEdges →
    ∀ s' b', r.basicBlocks.get? s' = some b' → s' ≤ t → t < s' + b'.size → t = s'
  blocks : ∀ s b, r.basicBlocks.get? s = some b →
    b.startAddr = s ∧ SplitBlock added s b.size b.outEdges
  kept : ∀ lowest ∈ added, (∀ a ∈ added, lowest.guestAddr ≤ a.guestAddr) →
    ∀ s, (∃ b, r.basicBlocks.get? s = some b) ↔
      Relation.ReflTransGen (SplitEdge added) lowest.guestAddr s
  branchTargets : ∀ t, r.branchTargets.get? t = some () ↔
    ∃ s b, r.basicBlocks.get? s = some b ∧ t ∈ b.outEdges
  inEdges : ∀ t b, r.basicBlocks.get? t = some b →
    (∀ s c, r.basicBlocks.get? s = some c → b.inEdges.count s = c.outEdges.count t) ∧
      ∀ s ∈ b.inEdges, ∃ c, r.basicBlocks.get? s = some c
  finalized : r.codeRegionFinalized = true

theorem leads_iff (hsep : Separate added) (h : SplitInto added (targetsOf added) r) (s t : Nat) :
    Leads r.basicBlocks s t ↔ SplitEdge added s t := by
  constructor
  · rintro ⟨b, c, hb, hout, hc⟩
    exact ⟨⟨_, _, (h.piece s b hb).2.2, hout⟩, ⟨_, _, (h.piece t c hc).2.2⟩⟩
  · rintro ⟨⟨n, out, ⟨a, ha⟩, hout⟩, ⟨n', out', ⟨a', ha'⟩⟩⟩
    obtain ⟨b, hb, -, hbout⟩ := h.get?_of_piece hsep ha
    obtain ⟨c, hc, -, -⟩ := h.get?_of_piece hsep ha'
    exact ⟨b, c, hb, hbout ▸ hout, hc⟩

theorem head?_eq_lowest (hsep : Separate added) (h : SplitInto added cuts r)
    (hfst : r.basicBlocks.toList.head? = some first) {lowest : Added} (hmem : lowest ∈ added)
    (hlow : ∀ a ∈ added, lowest.guestAddr ≤ a.guestAddr) : first.1 = lowest.guestAddr := by
  have hget : r.basicBlocks.get? first.1 = some first.2 :=
    mem_toList.mp (mem_of_head? hfst)
  obtain ⟨-, -, a, ha⟩ := h.piece _ _ hget
  have hge := ha.ge
  have hpos := hsep.pos lowest hmem
  have hle := hlow a ha.mem
  obtain ⟨s, b, hb, hs, -⟩ := h.covered lowest hmem lowest.guestAddr ⟨le_rfl, by omega⟩
  have hmin := head?_le hfst hb
  omega

/-- Resolving the edges of a region with blocks that do not overlap and have any edges: no check
    fails, and the region is the reachable part of the split graph. A split head leads to its tail
    alone, and the tail has the edges of the block. -/
theorem resolveEdges_exact (added : List Added) (hne : added ≠ []) (hsep : Separate added) :
    ∃ r r', addBasicBlocks added = some r ∧ r.resolveEdges = some r' ∧ Resolved added r' := by
  obtain ⟨r, hr, hadd⟩ := addBasicBlocks_spec hsep
  obtain ⟨r₁, hr₁, hsplit⟩ := splitBasicBlocks_spec hsep hadd
  obtain ⟨first, hfirst⟩ : ∃ first, r₁.basicBlocks.toList.head? = some first := by
    obtain ⟨a, rest, rfl⟩ := exists_cons_of_ne_nil hne
    have hpos := hsep.pos a mem_cons_self
    obtain ⟨s, b, hb, -, -⟩ := hsplit.covered a mem_cons_self a.guestAddr
      ⟨le_rfl, by omega⟩
    have hmem := mem_toList.mpr hb
    cases hlist : r₁.basicBlocks.toList with
    | nil =>
      rw [hlist] at hmem
      exact absurd hmem not_mem_nil
    | cons x xs => exact ⟨x, rfl⟩
  obtain ⟨r₂, hr₂, hkept, htargets⟩ := removeUnreachableBlocks_spec hsep hsplit hfirst
  refine ⟨r, { r₂.resolveInEdges with codeRegionFinalized := true }, hr, ?_, ?_⟩
  · simp [resolveEdges, hadd.notFinalized, validateRegionBeforeFinalize_eq_true hsep hadd, hr₁, hr₂]
  -- Incoming edges are all that the last part changes.
  have hfinal : ∀ s, r₂.resolveInEdges.basicBlocks.get? s = (r₂.basicBlocks.get? s).map fun b =>
      { b with
        inEdges := b.inEdges ++ r₂.basicBlocks.toList.flatMap fun x =>
          List.replicate (x.2.outEdges.count s) x.1 } := get?_foldl_addInEdges _ _
  have hold : ∀ s b, r₂.resolveInEdges.basicBlocks.get? s = some b →
      ∃ c, r₂.basicBlocks.get? s = some c ∧ b.startAddr = c.startAddr ∧ b.size = c.size ∧
        b.outEdges = c.outEdges := by
    intro s b hb
    rw [hfinal, Option.map_eq_some_iff] at hb
    obtain ⟨c, hc, rfl⟩ := hb
    exact ⟨c, hc, rfl, rfl, rfl⟩
  have hnew : ∀ s c, r₂.basicBlocks.get? s = some c →
      ∃ b, r₂.resolveInEdges.basicBlocks.get? s = some b ∧ b.outEdges = c.outEdges := by
    intro s c hc
    rw [hfinal, hc]
    exact ⟨_, rfl, rfl⟩
  -- Blocks of the result are pieces.
  have hpiece : ∀ s b, r₂.resolveInEdges.basicBlocks.get? s = some b →
      b.startAddr = s ∧ SplitBlock added s b.size b.outEdges := by
    intro s b hb
    obtain ⟨c, hc, hstart, hsize, hout⟩ := hold s b hb
    obtain ⟨hcs, -, a, ha⟩ := hsplit.piece s c ((hkept s c).mp hc).1
    exact ⟨hstart.trans hcs, a, hsize ▸ hout ▸ ha⟩
  refine ⟨?_, ?_, ?_, hpiece, ?_, ?_, ?_, rfl⟩
  · intro s b s' b' hb hb' hne'
    obtain ⟨-, a, ha⟩ := hpiece s b hb
    obtain ⟨-, a', ha'⟩ := hpiece s' b' hb'
    have hpos := ha.pos
    have hpos' := ha'.pos
    by_contra hover
    exact hne' (ha.unique hsep ha' (le_max_left s s') (by omega) (le_max_right s s') (by omega)).1
  · intro s b hb p hs hp
    obtain ⟨-, a, ha⟩ := hpiece s b hb
    exact ⟨a, ha.mem, ha.has hs hp⟩
  · intro s b t hb hout s' b' hb' hs' ht
    obtain ⟨-, a, ha⟩ := hpiece s b hb
    obtain ⟨-, a', ha'⟩ := hpiece s' b' hb'
    have huncut := ha'.uncut t (ha.edges_mem le_rfl hout)
    omega
  · intro lowest hmem hlowest s
    rw [← head?_eq_lowest hsep hsplit hfirst hmem hlowest]
    have hleads : Leads r₁.basicBlocks = SplitEdge added := by
      ext u v
      exact leads_iff hsep hsplit u v
    rw [← hleads]
    have hget : r₁.basicBlocks.get? first.1 = some first.2 :=
      mem_toList.mp (mem_of_head? hfirst)
    constructor
    · rintro ⟨b, hb⟩
      obtain ⟨c, hc, -⟩ := hold s b hb
      exact ((hkept s c).mp hc).2
    · intro hreach
      obtain ⟨c, hc⟩ : ∃ c, r₁.basicBlocks.get? s = some c := by
        rcases Relation.ReflTransGen.cases_tail hreach with rfl | ⟨u, -, b, c, -, -, hc⟩
        · exact ⟨_, hget⟩
        · exact ⟨c, hc⟩
      obtain ⟨b, hb, -⟩ := hnew s c ((hkept s c).mpr ⟨hc, hreach⟩)
      exact ⟨b, hb⟩
  · intro t
    have ht : r₂.resolveInEdges.branchTargets = r₂.branchTargets := rfl
    simp only [ht, htargets t]
    constructor
    · rintro ⟨s, c, hc, hout⟩
      obtain ⟨b, hb, heq⟩ := hnew s c hc
      exact ⟨s, b, hb, heq ▸ hout⟩
    · rintro ⟨s, b, hb, hout⟩
      obtain ⟨c, hc, -, -, heq⟩ := hold s b hb
      exact ⟨s, c, hc, heq ▸ hout⟩
  · intro t b hb
    simp only [hfinal, Option.map_eq_some_iff] at hb
    obtain ⟨d, hd, rfl⟩ := hb
    have hempty : d.inEdges = [] := (hsplit.piece t d ((hkept t d).mp hd).1).2.1
    simp only [hempty, nil_append]
    refine ⟨fun s c hc => ?_, fun s hs => ?_⟩
    · obtain ⟨c', hc', -, -, hout⟩ := hold s c hc
      rw [count_inEdges r₂.basicBlocks t s c' hc', hout]
    · obtain ⟨x, hx, hs⟩ := mem_flatMap.mp hs
      obtain ⟨c, hc, -⟩ := hnew x.1 x.2 (mem_toList.mp hx)
      exact ⟨c, eq_of_mem_replicate hs ▸ hc⟩

/-- A loop that is entered in the middle of a block: the block is split. -/
theorem resolveEdges_loop :
    ∃ r r', addBasicBlocks [⟨0x1000, 12, [0x1004, 0x2000]⟩, ⟨0x1010, 4, [0x1000]⟩] = some r ∧
      r.resolveEdges = some r' ∧
      Resolved [⟨0x1000, 12, [0x1004, 0x2000]⟩, ⟨0x1010, 4, [0x1000]⟩] r' :=
  resolveEdges_exact _ (by simp) ⟨by decide, by decide, by decide⟩

/-- A region without blocks has no first block, and a check fails. -/
theorem resolveEdges_empty :
    ∃ r, addBasicBlocks [] = some r ∧ Separate [] ∧ (r.resolveEdges).isNone :=
  ⟨empty, rfl, ⟨by decide, by decide, by decide⟩, by decide⟩

end Berberis.GuestCodeRegion
