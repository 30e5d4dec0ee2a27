import Berberis.HeavyOptimizer.FrontendInvariant

/-!
# Splitting a Block at a Branch Target

`SplitBasicBlock` cuts a block in front of a node, and
`UpdateBranchTargetsAfterSplit` then walks `branchTargets` from the target on
and renames the block of each entry, up to the first entry of another block.
The iterators stay as they are, so an entry is right afterwards when it was
renamed exactly if its node was moved.
-/

namespace Berberis.HeavyOptimizer

open Backend List

/-! ### Cutting an increasing list -/

theorem mem_takeWhile_ne (ns : List Nat) (p n : Nat) (h : ns.Pairwise (· < ·)) (hp : p ∈ ns) :
    n ∈ ns.takeWhile (· ≠ p) ↔ n ∈ ns ∧ n < p := by
  induction ns with
  | nil => cases hp
  | cons x xs ih =>
    rcases pairwise_cons.mp h with ⟨hx, hxs⟩
    by_cases hxp : x = p
    · rw [takeWhile_cons_of_neg (by simpa using hxp)]
      refine ⟨fun hn => absurd hn not_mem_nil, fun hn => ?_⟩
      rcases mem_cons.mp hn.1 with rfl | hmem
      · omega
      · have := hx n hmem
        omega
    · have hp : p ∈ xs := (mem_cons.mp hp).resolve_left (Ne.symm hxp)
      have := hx p hp
      rw [takeWhile_cons_of_pos (by simpa using hxp), mem_cons, ih hxs hp, mem_cons]
      constructor
      · rintro (rfl | ⟨hn, hlt⟩)
        · exact ⟨Or.inl rfl, this⟩
        · exact ⟨Or.inr hn, hlt⟩
      · rintro ⟨rfl | hn, hlt⟩
        · exact Or.inl rfl
        · exact Or.inr ⟨hn, hlt⟩

theorem mem_dropWhile_ne (ns : List Nat) (p n : Nat) (h : ns.Pairwise (· < ·)) (hp : p ∈ ns) :
    n ∈ ns.dropWhile (· ≠ p) ↔ n ∈ ns ∧ p ≤ n := by
  induction ns with
  | nil => cases hp
  | cons x xs ih =>
    rcases pairwise_cons.mp h with ⟨hx, hxs⟩
    by_cases hxp : x = p
    · rw [dropWhile_cons_of_neg (by simpa using hxp)]
      refine ⟨fun hn => ⟨hn, ?_⟩, fun hn => hn.1⟩
      rcases mem_cons.mp hn with rfl | hmem
      · omega
      · have := hx n hmem
        omega
    · have hp : p ∈ xs := (mem_cons.mp hp).resolve_left (Ne.symm hxp)
      have := hx p hp
      rw [dropWhile_cons_of_pos (by simpa using hxp), ih hxs hp, mem_cons]
      constructor
      · rintro ⟨hn, hle⟩
        exact ⟨Or.inr hn, hle⟩
      · rintro ⟨rfl | hn, hle⟩
        · omega
        · exact ⟨hn, hle⟩

theorem head?_dropWhile_ne (ns : List Nat) (p : Nat) (hp : p ∈ ns) :
    (ns.dropWhile (· ≠ p)).head? = some p := by
  induction ns with
  | nil => cases hp
  | cons x xs ih =>
    by_cases hxp : x = p
    · rw [dropWhile_cons_of_neg (by simpa using hxp), head?_cons, hxp]
    · rw [dropWhile_cons_of_pos (by simpa using hxp)]
      exact ih ((mem_cons.mp hp).resolve_left (Ne.symm hxp))

/-! ### Nodes -/

variable {ir : MachineIR} {c first b e : Nat} {insns : List InsnNode}

theorem nodesOk_split (h : NodesOk ir) {p : Nat} (hp : p ∈ ir.nodes c) :
    NodesOk (ir.splitBasicBlock c p).1 := by
  have hc : c < ir.numBb := h.lt c (ne_nil_of_mem hp)
  have hnod := fun b => ir.splitBasicBlock_nodes c p b hc
  -- Where a node of the result was.
  have hmem : ∀ b n, n ∈ (ir.splitBasicBlock c p).1.nodes b →
      n = ir.numNode ∧ b = c ∨ b = c ∧ n ∈ ir.nodes c ∧ n < p ∨
      b = ir.numBb ∧ n ∈ ir.nodes c ∧ p ≤ n ∨ b ≠ c ∧ b ≠ ir.numBb ∧ n ∈ ir.nodes b := by
    intro b n hn
    rw [hnod] at hn
    split_ifs at hn with hb hb'
    · rcases mem_append.mp hn with hn | hn
      · exact Or.inr (Or.inl ⟨hb, (mem_takeWhile_ne _ p n (h.sorted c) hp).mp hn⟩)
      · exact Or.inl ⟨mem_singleton.mp hn, hb⟩
    · exact Or.inr (Or.inr (Or.inl ⟨hb', (mem_dropWhile_ne _ p n (h.sorted c) hp).mp hn⟩))
    · exact Or.inr (Or.inr (Or.inr ⟨hb, hb', hn⟩))
  refine ⟨fun b n hn => ?_, fun b => ?_, fun b d n hb hd => ?_, fun b hb => ?_⟩
  · show n < ir.numNode + 1
    rcases hmem b n hn with ⟨rfl, _⟩ | ⟨_, hn, _⟩ | ⟨_, hn, _⟩ | ⟨_, _, hn⟩
    · omega
    · exact Nat.lt_succ_of_lt (h.bounded _ n hn)
    · exact Nat.lt_succ_of_lt (h.bounded _ n hn)
    · exact Nat.lt_succ_of_lt (h.bounded _ n hn)
  · rw [hnod]
    split_ifs
    · refine pairwise_append.mpr ⟨(h.sorted c).sublist (takeWhile_sublist _),
        pairwise_singleton _ _, fun n hn m hm => ?_⟩
      rw [mem_singleton.mp hm]
      exact h.bounded c n ((takeWhile_sublist _).subset hn)
    · exact (h.sorted c).sublist (dropWhile_sublist _)
    · exact h.sorted b
  · have hfresh : ∀ b, ir.numNode ∉ ir.nodes b := fun b hn => Nat.lt_irrefl _ (h.bounded b _ hn)
    rcases hmem b n hb with ⟨rfl, rfl⟩ | ⟨rfl, hn, hlt⟩ | ⟨rfl, hn, hle⟩ | ⟨hbc, hbn, hn⟩
    · rcases hmem d _ hd with ⟨_, rfl⟩ | ⟨_, hn, _⟩ | ⟨_, hn, _⟩ | ⟨_, _, hn⟩
      · rfl
      all_goals exact absurd hn (hfresh _)
    · rcases hmem d n hd with ⟨rfl, _⟩ | ⟨rfl, _⟩ | ⟨_, _, hle⟩ | ⟨hdc, _, hn'⟩
      · exact absurd hn (hfresh _)
      · rfl
      · omega
      · exact absurd (h.unique _ _ n hn' hn) hdc
    · rcases hmem d n hd with ⟨rfl, _⟩ | ⟨_, _, hlt⟩ | ⟨rfl, _⟩ | ⟨hdc, _, hn'⟩
      · exact absurd hn (hfresh _)
      · omega
      · rfl
      · exact absurd (h.unique _ _ n hn' hn) hdc
    · rcases hmem d n hd with ⟨rfl, _⟩ | ⟨_, hn', _⟩ | ⟨_, hn', _⟩ | ⟨_, _, hn'⟩
      · exact absurd hn (hfresh _)
      · exact absurd (h.unique _ _ n hn hn') hbc
      · exact absurd (h.unique _ _ n hn hn') hbc
      · exact h.unique _ _ n hn hn'
  · show b < ir.numBb + 1
    rw [hnod] at hb
    split_ifs at hb with hbc hbn
    · omega
    · omega
    · exact Nat.lt_succ_of_lt (h.lt b hb)

/-! ### What is read from a block on -/

/-- Reading from a block, along branches that splits have put in, up to a block: these are the
    instructions. The nodes of such branches are from `first` on. -/
inductive Spells (ir : MachineIR) (first : Nat) : Nat → Nat → List InsnNode → Prop
  | last (c : Nat) (insns : List InsnNode) (h : (ir.bb c).insnList = insns) (hne : insns ≠ []) :
      Spells ir first c c insns
  | branch (c d e k : Nat) (pre insns : List InsnNode)
      (h : (ir.bb c).insnList = pre ++ [⟨k, newPseudoBranch d⟩]) (hk : first ≤ k)
      (hd : Spells ir first d e insns) : Spells ir first c e (pre ++ insns)

theorem spells_suffix (h : Spells ir first b e insns) :
    (ir.bb e).insnList ≠ [] ∧ ∃ pre, insns = pre ++ (ir.bb e).insnList := by
  induction h with
  | last c insns h hne =>
    rw [h]
    exact ⟨hne, [], rfl⟩
  | branch c d e k pre insns h hk hd ih =>
    rcases ih with ⟨hne, pre', heq⟩
    refine ⟨hne, pre ++ pre', ?_⟩
    rw [heq, append_assoc]

theorem spells_getLast? (h : Spells ir first b e insns) :
    (ir.bb e).insnList.getLast? = insns.getLast? := by
  rcases spells_suffix h with ⟨hne, pre, heq⟩
  rw [heq, getLast?_append_of_ne_nil _ hne]

theorem cut_append (pre post : List InsnNode) (p : Nat) (hp : p ∈ pre.map (·.pos)) :
    (pre ++ post).takeWhile (·.pos ≠ p) = pre.takeWhile (·.pos ≠ p) ∧
      (pre ++ post).dropWhile (·.pos ≠ p) = pre.dropWhile (·.pos ≠ p) ++ post := by
  induction pre with
  | nil => cases hp
  | cons x xs ih =>
    rw [cons_append]
    by_cases hx : x.pos = p
    · rw [takeWhile_cons_of_neg (by simpa using hx), takeWhile_cons_of_neg (by simpa using hx),
        dropWhile_cons_of_neg (by simpa using hx),
        dropWhile_cons_of_neg (by simpa using hx), cons_append]
      exact ⟨rfl, rfl⟩
    · have hp : p ∈ xs.map (·.pos) := (mem_cons.mp hp).resolve_left (Ne.symm hx)
      rw [takeWhile_cons_of_pos (by simpa using hx), takeWhile_cons_of_pos (by simpa using hx),
        dropWhile_cons_of_pos (by simpa using hx),
        dropWhile_cons_of_pos (by simpa using hx), (ih hp).1, (ih hp).2]
      exact ⟨rfl, rfl⟩

theorem dropWhile_pos_ne_nil (insns : List InsnNode) (p : Nat) (hp : p ∈ insns.map (·.pos)) :
    insns.dropWhile (·.pos ≠ p) ≠ [] := by
  intro hnil
  have hhead := head?_dropWhile_ne _ p hp
  rw [dropWhile_map, show insns.dropWhile ((· ≠ p) ∘ (·.pos)) = [] from hnil] at hhead
  cases hhead

/-- A split does not change what is read. When the block in which it ends is
    split, it ends in the new one. -/
theorem spells_split (hir : NodesOk ir) {p : Nat} (hgrown : first ≤ ir.numNode)
    (hp : p ∈ ir.nodes c) (hfst : p < first) (h : Spells ir first b e insns) :
    Spells (ir.splitBasicBlock c p).1 first b (if e = c then ir.numBb else e) insns := by
  have hlist := fun b => ir.splitBasicBlock_insnList c p b (hir.lt c (ne_nil_of_mem hp))
  have hnewne : ir.numBb ≠ c := Ne.symm (Nat.ne_of_lt (hir.lt c (ne_nil_of_mem hp)))
  have hnew := hlist ir.numBb
  rw [if_neg hnewne, if_pos rfl] at hnew
  -- A block that holds something is not the new one.
  have hold : ∀ b, (ir.bb b).insnList ≠ [] → b ≠ ir.numBb := fun b hne =>
    Nat.ne_of_lt (hir.lt b ((ir.nodes_ne_nil_iff b).mpr hne))
  induction h with
  | last b insns h hne =>
    by_cases hb : b = c
    · rw [if_pos hb, hb, ← takeWhile_append_dropWhile (p := (·.pos ≠ p)) (l := insns)]
      have hcut := hlist c
      rw [if_pos rfl] at hcut
      rw [hb] at h
      rw [h] at hcut hnew
      exact .branch c ir.numBb ir.numBb ir.numNode _ _ hcut hgrown
        (.last ir.numBb _ hnew (dropWhile_pos_ne_nil insns p (h ▸ hp)))
    · rw [if_neg hb]
      refine .last b insns ?_ hne
      rw [hlist, if_neg hb, if_neg (hold b (h ▸ hne)), h]
  | branch b d e k pre insns h hk hd ih =>
    by_cases hb : b = c
    · -- The branch that ends the block is not a target, so it is moved.
      rw [hb] at h
      have hpre : p ∈ pre.map (·.pos) := by
        have hp : p ∈ (ir.bb c).insnList.map (·.pos) := hp
        rw [h, map_append, mem_append, map_singleton, mem_singleton] at hp
        exact hp.resolve_right (by dsimp only; omega)
      rcases cut_append pre [⟨k, newPseudoBranch d⟩] p hpre with ⟨htake, hdrop⟩
      have hcut := hlist c
      rw [if_pos rfl, h, htake] at hcut
      rw [h, hdrop] at hnew
      rw [hb, ← takeWhile_append_dropWhile (p := (·.pos ≠ p)) (l := pre), append_assoc]
      exact .branch c ir.numBb _ ir.numNode _ _ hcut hgrown
        (.branch ir.numBb d _ k _ insns hnew hk ih)
    · refine .branch b d _ k pre insns ?_ hk ih
      rw [hlist, if_neg hb, if_neg (hold b ?_), h]
      rw [h]
      exact append_ne_nil_of_right_ne_nil _ (cons_ne_nil _ _)

/-! ### Entries -/

/-- Each entry with a block names the block that holds its iterator. -/
def EntriesOk (fs : Frontend) : Prop :=
  ∀ a q, fs.branchTargets.get? a = some q → ∀ c, q.bb = some c →
    ∃ n, q.it = some (.node n) ∧ n ∈ fs.ir.nodes c

/-- Within a block the nodes of larger addresses are not earlier ones. -/
def EntriesOrdered (fs : Frontend) : Prop :=
  ∀ a a' c n n', a < a' → fs.branchTargets.get? a = some ⟨some c, some (.node n)⟩ →
    fs.branchTargets.get? a' = some ⟨some c, some (.node n')⟩ → n ≤ n'

def splitAt (fs : Frontend) (t c p : Nat) : Frontend :=
  { fs with ir := (fs.ir.splitBasicBlock c p).1 }.updateBranchTargetsAfterSplit t c fs.ir.numBb

/-- The walk from a target on reaches the entries that it has to: no smaller address is at the same
    node, and up to the last entry of the block there are no entries of other blocks. -/
def SplitOk (fs : Frontend) (t c p : Nat) : Prop :=
  (∀ x ∈ fs.branchTargets.toList, x.1 < t → x.2 ≠ ⟨some c, some (.node p)⟩) ∧
  ∀ x ∈ fs.branchTargets.toList, t < x.1 → x.2.bb = some c →
    ∀ y ∈ fs.branchTargets.toList, t < y.1 → y.1 < x.1 → y.2.bb = some c

instance (fs : Frontend) (t c p : Nat) : Decidable (SplitOk fs t c p) :=
  inferInstanceAs (Decidable (_ ∧ _))

/-- An entry is renamed when all entries up to it, from the target on, are of the block. -/
def Renamed (fs : Frontend) (t c a : Nat) : Prop :=
  t ≤ a ∧ ∀ x ∈ fs.branchTargets.toList, t ≤ x.1 → x.1 ≤ a → x.2.bb = some c

theorem splitAt_get?_of_renamed {fs : Frontend} {t a : Nat} (p : Nat) (h : Renamed fs t c a) :
    (splitAt fs t c p).branchTargets.get? a =
      (fs.branchTargets.get? a).map fun q => { q with bb := some fs.ir.numBb } := by
  refine (Lib.SortedMap.get?_updateWhile _ _ _ _ _).trans (if_pos ⟨h.1, fun x hx hle hle' => ?_⟩)
  exact decide_eq_true (h.2 x hx hle hle')

theorem splitAt_get?_of_not_renamed {fs : Frontend} {t a : Nat} (p : Nat) (h : ¬ Renamed fs t c a) :
    (splitAt fs t c p).branchTargets.get? a = fs.branchTargets.get? a := by
  refine (Lib.SortedMap.get?_updateWhile _ _ _ _ _).trans (if_neg fun hcond => h ⟨hcond.1, ?_⟩)
  exact fun x hx hle hle' => of_decide_eq_true (hcond.2 x hx hle hle')

section

variable {fs : Frontend} {t c p : Nat} (hir : NodesOk fs.ir) (hentries : EntriesOk fs)
  (horder : EntriesOrdered fs) (ht : fs.branchTargets.get? t = some ⟨some c, some (.node p)⟩)

include hentries ht in
theorem target_mem_nodes : p ∈ fs.ir.nodes c := by
  rcases hentries t _ ht c rfl with ⟨n, hn, hmem⟩
  cases hn
  exact hmem

variable {n : Nat}

include hir in
theorem mem_nodes_splitAt_old (hp : p ∈ fs.ir.nodes c) (hn : n ∈ fs.ir.nodes c) :
    n ∈ (splitAt fs t c p).ir.nodes c ↔ n < p := by
  show n ∈ (fs.ir.splitBasicBlock c p).1.nodes c ↔ n < p
  rw [MachineIR.splitBasicBlock_nodes _ _ _ _ (hir.lt c (ne_nil_of_mem hp)), if_pos rfl,
    mem_append, mem_takeWhile_ne _ p n (hir.sorted c) hp, mem_singleton]
  have := hir.bounded c n hn
  constructor
  · rintro (⟨_, hlt⟩ | heq)
    · exact hlt
    · omega
  · exact fun hlt => Or.inl ⟨hn, hlt⟩

include hir in
theorem mem_nodes_splitAt_new (hp : p ∈ fs.ir.nodes c) (hn : n ∈ fs.ir.nodes c) :
    n ∈ (splitAt fs t c p).ir.nodes fs.ir.numBb ↔ p ≤ n := by
  have hc : c < fs.ir.numBb := hir.lt c (ne_nil_of_mem hp)
  show n ∈ (fs.ir.splitBasicBlock c p).1.nodes fs.ir.numBb ↔ p ≤ n
  rw [MachineIR.splitBasicBlock_nodes _ _ _ _ hc, if_neg (Ne.symm (Nat.ne_of_lt hc)), if_pos rfl,
    mem_dropWhile_ne _ p n (hir.sorted c) hp]
  exact ⟨fun hmem => hmem.2, fun hle => ⟨hn, hle⟩⟩

include horder ht in
theorem le_of_target_le {a : Nat} (hle : t ≤ a)
    (ha : fs.branchTargets.get? a = some ⟨some c, some (.node n)⟩) : p ≤ n := by
  rcases Nat.lt_or_eq_of_le hle with hlt | rfl
  · exact horder t a c p n hlt ht ha
  · rw [ht] at ha
    cases ha
    exact Nat.le_refl _

include hentries in
theorem entry_eq {a b : Nat} {q : MachineInsnPosition} (ha : fs.branchTargets.get? a = some q)
    (hb : q.bb = some b) : ∃ n, q = ⟨some b, some (.node n)⟩ ∧ n ∈ fs.ir.nodes b := by
  rcases hentries a q ha b hb with ⟨n, hit, hmem⟩
  rcases q with ⟨bb, it⟩
  refine ⟨n, ?_, hmem⟩
  rw [MachineInsnPosition.mk.injEq]
  exact ⟨hb, hit⟩

include ht in
theorem renamed_target : Renamed fs t c t := by
  refine ⟨Nat.le_refl _, fun x hx hle hle' => ?_⟩
  have heq : x.1 = t := Nat.le_antisymm hle' hle
  have hget : fs.branchTargets.get? x.1 = some x.2 := Lib.SortedMap.mem_toList.mp hx
  rw [heq, ht] at hget
  rw [← Option.some.inj hget]

include hir hentries horder ht in
theorem entriesOk_of_splitOk (h : SplitOk fs t c p) : EntriesOk (splitAt fs t c p) := by
  have hp := target_mem_nodes hentries ht
  intro a q hq d hd
  by_cases hren : Renamed fs t c a
  · rw [splitAt_get?_of_renamed p hren] at hq
    rcases Option.map_eq_some_iff.mp hq with ⟨q', hq', rfl⟩
    have hbb : q'.bb = some c :=
      hren.2 (a, q') (Lib.SortedMap.mem_toList.mpr hq') hren.1 (Nat.le_refl _)
    rcases entry_eq hentries hq' hbb with ⟨n, rfl, hn⟩
    refine ⟨n, rfl, ?_⟩
    rw [← Option.some.inj hd, mem_nodes_splitAt_new hir hp hn]
    exact le_of_target_le horder ht hren.1 hq'
  · rw [splitAt_get?_of_not_renamed p hren] at hq
    rcases entry_eq hentries hq hd with ⟨n, rfl, hn⟩
    refine ⟨n, rfl, ?_⟩
    by_cases hdc : d = c
    · -- The entry was not reached, so its node has to come before the target.
      rw [hdc] at hq hn ⊢
      rw [mem_nodes_splitAt_old hir hp hn]
      have hmem := Lib.SortedMap.mem_toList.mpr hq
      rcases Nat.lt_trichotomy a t with hlt | rfl | hlt
      · have hle : n ≤ p := horder a t c n p hlt hq ht
        have hne : n ≠ p := fun heq => h.1 _ hmem hlt (by rw [heq])
        omega
      · exact absurd (renamed_target ht) hren
      · refine absurd ⟨Nat.le_of_lt hlt, fun x hx hle hle' => ?_⟩ hren
        have hget : fs.branchTargets.get? x.1 = some x.2 := Lib.SortedMap.mem_toList.mp hx
        rcases Nat.lt_or_eq_of_le hle with htx | htx
        · rcases Nat.lt_or_eq_of_le hle' with hxa | hxa
          · exact h.2 _ hmem hlt rfl x hx htx hxa
          · rw [hxa, hq] at hget
            rw [← Option.some.inj hget]
        · rw [← htx, ht] at hget
          rw [← Option.some.inj hget]
    · -- Another block is left alone.
      show n ∈ (fs.ir.splitBasicBlock c p).1.nodes d
      rw [MachineIR.splitBasicBlock_nodes _ _ _ _ (hir.lt c (ne_nil_of_mem hp)), if_neg hdc,
        if_neg (Nat.ne_of_lt (hir.lt d (ne_nil_of_mem hn)))]
      exact hn

end

end Berberis.HeavyOptimizer
