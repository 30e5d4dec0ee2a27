import Berberis.Backend.MachineIRAnalysis
import Berberis.Lib.LoopNest

/-!
# Loops That Are Found Are Natural

However blocks are ordered, a loop that is found is entered through its head
only, as the collection of its blocks goes back to the head, and gives up when
it comes to the first block of the graph. So the tree of loops, which is made
by looking at heads and sizes, is the tree of how loops are nested.

## Theorems

* `insertLoops_spec`: The tree is one of nested loops.
* `buildLoopTree_natural`: Both for a graph whose blocks can all be reached.
-/

namespace Berberis.Backend

open Lib List

namespace MachineIR

variable {b c entry head bbNo : Nat} {inner : List LoopTreeNode}

def Leads (ir : MachineIR) (b c : Nat) : Prop := b ∈ ir.bbList ∧ c ∈ ir.succs b

variable {ir : MachineIR}

theorem Linked.pred_mem (h : Linked ir c) (hb : b ∈ ir.preds c) : b ∈ ir.bbList := by
  rcases mem_map.mp hb with ⟨e, he, rfl⟩
  exact (h.inEdge e he).2

theorem Linked.leads (h : Linked ir c) (hb : b ∈ ir.preds c) : ir.Leads b c := by
  refine ⟨h.pred_mem hb, ?_⟩
  rcases mem_map.mp hb with ⟨e, he, rfl⟩
  exact mem_map.mpr ⟨e, (h.inEdge e he).1, h.dst_eq e he⟩

theorem Linked.mem_preds (h : Linked ir b) (hc : c ∈ ir.succs b) : b ∈ ir.preds c := by
  rcases mem_map.mp hc with ⟨e, he, rfl⟩
  exact mem_map.mpr ⟨e, (h.outEdge e he).1, h.src_eq e he⟩

theorem Linked.succ_mem (h : Linked ir b) (hc : c ∈ ir.succs b) : c ∈ ir.bbList := by
  rcases mem_map.mp hc with ⟨e, he, rfl⟩
  exact (h.outEdge e he).2

/-! ### Reverse post order -/

def unvisited (ir : MachineIR) (isVisited : List Nat) : Nat :=
  (ir.bbList.toFinset \ isVisited.toFinset).card

theorem unvisited_mono {v v' : List Nat} (h : v ⊆ v') : ir.unvisited v' ≤ ir.unvisited v := by
  refine Finset.card_le_card (Finset.sdiff_subset_sdiff (Finset.Subset.refl _) ?_)
  intro x hx
  rw [mem_toFinset] at hx ⊢
  exact h hx

theorem unvisited_cons_lt {v : List Nat} (hb : b ∈ ir.bbList) (hv : b ∉ v) :
    ir.unvisited (b :: v) < ir.unvisited v := by
  refine Finset.card_lt_card (Finset.ssubset_iff_subset_ne.mpr ⟨?_, fun heq => ?_⟩)
  · refine Finset.sdiff_subset_sdiff (Finset.Subset.refl _) fun x hx => ?_
    rw [mem_toFinset] at hx ⊢
    exact mem_cons_of_mem b hx
  · have hmem : b ∈ ir.bbList.toFinset \ v.toFinset := by
      simp only [Finset.mem_sdiff, mem_toFinset]
      exact ⟨hb, hv⟩
    rw [← heq] at hmem
    simp only [Finset.mem_sdiff, mem_toFinset, mem_cons, true_or, not_true_eq_false,
      and_false] at hmem

/-- What a visit does: blocks stay visited, and blocks are listed that can be reached. -/
structure Visited (ir : MachineIR) (b : Nat) (st st' : List Nat × List Nat) : Prop where
  mono : st.1 ⊆ st'.1
  listed : ∀ x ∈ st'.2, x ∈ st.2 ∨ (x ∈ ir.bbList ∧ Relation.ReflTransGen ir.Leads b x)

theorem postOrder_spec (hlink : ∀ b ∈ ir.bbList, Linked ir b) (fuel : Nat) :
    ∀ b st, b ∈ ir.bbList → b ∉ st.1 → ir.unvisited st.1 ≤ fuel →
      ∃ st', ir.postOrderTraverseBBListRecursive fuel b st = some st' ∧ Visited ir b st st' := by
  induction fuel with
  | zero =>
    intro b st hb hnot hfuel
    have hlt := unvisited_cons_lt hb hnot
    omega
  | succ fuel ih =>
    rintro b ⟨isVisited, result⟩ hb hnot hfuel
    -- The successors are visited one after another, unless they have been.
    have hsuccs : ∀ (ds : List Nat) (st : List Nat × List Nat), (∀ d ∈ ds, d ∈ ir.succs b) →
        ir.unvisited st.1 ≤ fuel →
        ∃ st', ds.foldlM (fun st dst => if dst ∈ st.1 then some st
          else ir.postOrderTraverseBBListRecursive fuel dst st) st = some st' ∧
          Visited ir b st st' := by
      intro ds
      induction ds with
      | nil =>
        intro st _ _
        exact ⟨st, rfl, fun x hx => hx, fun x hx => Or.inl hx⟩
      | cons d ds ihds =>
        intro st hds hst
        have hd := hds d mem_cons_self
        have hrest := fun d' hd' => hds d' (mem_cons_of_mem d hd')
        rw [foldlM_cons]
        by_cases hvisit : d ∈ st.1
        · rw [if_pos hvisit]
          exact ihds st hrest hst
        · rw [if_neg hvisit]
          rcases ih d st ((hlink b hb).succ_mem hd) hvisit hst with ⟨st₁, hst₁, hvis₁⟩
          rw [hst₁]
          rcases ihds st₁ hrest (Nat.le_trans (unvisited_mono hvis₁.mono) hst) with
            ⟨st', hst', hvis'⟩
          refine ⟨st', hst', fun x hx => hvis'.mono (hvis₁.mono hx), fun x hx => ?_⟩
          rcases hvis'.listed x hx with hx | hx
          · rcases hvis₁.listed x hx with hx | ⟨hmem, hreach⟩
            · exact Or.inl hx
            · exact Or.inr ⟨hmem, .head ⟨hb, hd⟩ hreach⟩
          · exact Or.inr hx
    have hlt := unvisited_cons_lt hb hnot
    rcases hsuccs (ir.succs b) (b :: isVisited, result) (fun d hd => hd)
      (Nat.le_of_lt_succ (Nat.lt_of_lt_of_le hlt hfuel)) with ⟨st', hst', hvis⟩
    refine ⟨(st'.1, b :: st'.2), ?_, fun x hx => hvis.mono (mem_cons_of_mem b hx), ?_⟩
    · rw [postOrderTraverseBBListRecursive, hst']
      rfl
    · intro x hx
      rcases mem_cons.mp hx with rfl | hx
      · exact Or.inr ⟨hb, .refl⟩
      · exact hvis.listed x hx

theorem unvisited_lt_turns (v : List Nat) : ir.unvisited v < ir.turns := by
  have hle : ir.unvisited v ≤ ir.bbList.toFinset.card := Finset.card_le_card Finset.sdiff_subset
  have hlist := toFinset_card_le ir.bbList
  unfold turns
  omega

theorem getReversePostOrderBBList_spec (hlink : ∀ b ∈ ir.bbList, Linked ir b)
    (hentry : ir.bbList.head? = some entry) (hnone : (ir.bb entry).inEdges = []) :
    ∃ rpoList, ir.getReversePostOrderBBList = some rpoList ∧ ∀ b ∈ rpoList, b ∈ ir.bbList ∧
      (ir.bbOrder = .unordered → Relation.ReflTransGen ir.Leads entry b) := by
  unfold getReversePostOrderBBList
  cases hord : ir.bbOrder with
  | reversePostOrder => exact ⟨ir.bbList, rfl, fun b hb => ⟨hb, fun h => by cases h⟩⟩
  | unordered =>
    cases hlist : ir.bbList with
    | nil =>
      rw [hlist] at hentry
      cases hentry
    | cons c rest =>
      rw [hlist, head?_cons] at hentry
      rw [Option.some.inj hentry]
      have hmem : entry ∈ ir.bbList := by
        rw [hlist, Option.some.inj hentry]
        exact mem_cons_self
      rcases postOrder_spec hlink ir.turns entry ([], []) hmem not_mem_nil
        (Nat.le_of_lt (unvisited_lt_turns _)) with ⟨st', hst', hvis⟩
      refine ⟨st'.2, ?_, fun b hb => ?_⟩
      · dsimp only
        rw [if_pos hnone, hst']
        rfl
      · rcases hvis.listed b hb with hb | hb
        · cases hb
        · rw [hlist, Option.some.inj hentry] at hb
          exact ⟨hb.1, fun _ => hb.2⟩

/-! ### Collecting a loop -/

/-- A loop while it is collected: blocks up to a place have their predecessors in it. -/
structure Collecting (ir : MachineIR) (head bbNo : Nat) (loop : Loop) : Prop where
  head_eq : loop.head? = some head
  nodup : loop.Nodup
  mem : ∀ b ∈ loop, b ∈ ir.bbList
  walked : ∀ i b, 0 < i → i < bbNo → loop[i]? = some b →
    (ir.bb b).inEdges ≠ [] ∧ ∀ p ∈ ir.preds b, p ∈ loop
  returns : ReturnsTo ir.Leads head {b | b ∈ loop}

theorem foldl_pushBack (ps : List Nat) (loop : Loop) :
    ∃ new, ps.foldl pushBackIfNotInLoop loop = loop ++ new ∧ (∀ x ∈ new, x ∈ ps) ∧
      (∀ p ∈ ps, p ∈ loop ++ new) ∧ (loop.Nodup → (loop ++ new).Nodup) := by
  induction ps generalizing loop with
  | nil =>
    refine ⟨[], (append_nil _).symm, fun x hx => hx, fun p hp => absurd hp not_mem_nil, ?_⟩
    rw [append_nil]
    exact fun h => h
  | cons p ps ih =>
    rw [foldl_cons]
    by_cases hp : p ∈ loop
    · have hpush : pushBackIfNotInLoop loop p = loop := if_pos hp
      rw [hpush]
      rcases ih loop with ⟨new, heq, hnew, hall, hnod⟩
      refine ⟨new, heq, fun x hx => mem_cons_of_mem p (hnew x hx), fun q hq => ?_, hnod⟩
      rcases mem_cons.mp hq with rfl | hq
      · exact mem_append_left _ hp
      · exact hall q hq
    · have hpush : pushBackIfNotInLoop loop p = loop ++ [p] := if_neg hp
      rw [hpush]
      rcases ih (loop ++ [p]) with ⟨new, heq, hnew, hall, hnod⟩
      rw [append_assoc] at heq hall hnod
      refine ⟨p :: new, heq, fun x hx => ?_, fun q hq => ?_, fun h => hnod ?_⟩
      · rcases mem_cons.mp hx with rfl | hx
        · exact mem_cons_self
        · exact mem_cons_of_mem p (hnew x hx)
      · rcases mem_cons.mp hq with rfl | hq
        · exact mem_append_right _ mem_cons_self
        · exact hall q hq
      · rw [nodup_append]
        refine ⟨h, nodup_singleton p, fun x hx y hy => ?_⟩
        rw [mem_singleton.mp hy]
        exact fun heq => hp (heq ▸ hx)

theorem Collecting.append {loop new : List Nat}
    (h : Collecting ir head bbNo loop) (hnod : (loop ++ new).Nodup)
    (hmem : ∀ x ∈ new, x ∈ ir.bbList) (hleads : ∀ x ∈ new, ∃ b ∈ loop, ir.Leads x b)
    (hbbNo : bbNo ≤ loop.length) : Collecting ir head bbNo (loop ++ new) := by
  have hsub : ∀ x y, ir.Leads x y ∧ x ∈ {b | b ∈ loop} ∧ y ∈ {b | b ∈ loop} →
      ir.Leads x y ∧ x ∈ {b | b ∈ loop ++ new} ∧ y ∈ {b | b ∈ loop ++ new} :=
    fun x y hxy => ⟨hxy.1, mem_append_left _ hxy.2.1, mem_append_left _ hxy.2.2⟩
  have hold : ∀ x ∈ loop, Relation.ReflTransGen
      (fun x y => ir.Leads x y ∧ x ∈ {b | b ∈ loop ++ new} ∧ y ∈ {b | b ∈ loop ++ new}) x head :=
    fun x hx => Relation.ReflTransGen.mono hsub _ _ (h.returns x hx)
  refine ⟨?_, hnod, ?_, ?_, ?_⟩
  · rw [head?_append, h.head_eq, Option.some_or]
  · intro b hb
    rcases mem_append.mp hb with hb | hb
    · exact h.mem b hb
    · exact hmem b hb
  · intro i b hi hlt hb
    rw [getElem?_append_left (Nat.lt_of_lt_of_le hlt hbbNo)] at hb
    have hw := h.walked i b hi hlt hb
    exact ⟨hw.1, fun p hp => mem_append_left _ (hw.2 p hp)⟩
  · intro x hx
    rcases mem_append.mp hx with hxl | hxn
    · exact hold x hxl
    · rcases hleads x hxn with ⟨b, hb, hxb⟩
      exact .head ⟨hxb, hx, mem_append_left _ hb⟩ (hold b hb)

theorem Collecting.step {loop : Loop} (h : Collecting ir head bbNo loop)
    (hlinked : ∀ b ∈ ir.bbList, Linked ir b) (hb : loop[bbNo]? = some b)
    (hne : (ir.bb b).inEdges ≠ []) :
    Collecting ir head (bbNo + 1) ((ir.preds b).foldl pushBackIfNotInLoop loop) := by
  rcases foldl_pushBack (ir.preds b) loop with ⟨new, heq, hnew, hall, hnod⟩
  rw [heq]
  have hmem : b ∈ loop := mem_of_getElem? hb
  have hlink := hlinked b (h.mem b hmem)
  rcases List.getElem?_eq_some_iff.mp hb with ⟨hlt, _⟩
  have hgrown := h.append (hnod h.nodup) (fun x hx => hlink.pred_mem (hnew x hx))
    (fun x hx => ⟨b, hmem, hlink.leads (hnew x hx)⟩) (Nat.le_of_lt hlt)
  refine ⟨hgrown.head_eq, hgrown.nodup, hgrown.mem, fun i c hi hic hc => ?_, hgrown.returns⟩
  rcases Nat.lt_succ_iff_lt_or_eq.mp hic with hic | rfl
  · exact hgrown.walked i c hi hic hc
  · rw [getElem?_append_left hlt, hb] at hc
    rw [← Option.some.inj hc]
    exact ⟨hne, hall⟩

theorem Collecting.length_le {loop : Loop} (h : Collecting ir head bbNo loop) :
    loop.length ≤ ir.bbList.length :=
  (subperm_of_subset h.nodup h.mem).length_le

theorem walkLoop_collecting (hlink : ∀ b ∈ ir.bbList, Linked ir b) (fuel : Nat) :
    ∀ bbNo loop, Collecting ir head bbNo loop → bbNo ≤ loop.length →
      ir.bbList.length < bbNo + fuel →
      ∃ r, ir.walkLoop fuel bbNo loop = some r ∧
        ∀ loop', r = some loop' → Collecting ir head loop'.length loop' := by
  induction fuel with
  | zero =>
    intro bbNo loop h hle hfuel
    have hlen := h.length_le
    omega
  | succ fuel ih =>
    intro bbNo loop h hle hfuel
    rw [walkLoop]
    cases hb : loop[bbNo]? with
    | none =>
      refine ⟨some loop, rfl, fun loop' hloop' => ?_⟩
      rw [getElem?_eq_none_iff] at hb
      rw [← Option.some.inj hloop', Nat.le_antisymm hb hle]
      exact h
    | some b =>
      dsimp only
      by_cases hne : (ir.bb b).inEdges = []
      · rw [if_pos hne]
        exact ⟨none, rfl, fun loop' hloop' => by cases hloop'⟩
      · rw [if_neg hne]
        rcases List.getElem?_eq_some_iff.mp hb with ⟨hlt, _⟩
        refine ih (bbNo + 1) _ (h.step hlink hb hne) ?_ (by omega)
        rcases foldl_pushBack (ir.preds b) loop with ⟨new, heq, _⟩
        rw [heq, length_append]
        omega

theorem collectBackEdges_collecting (hlink : ∀ b ∈ ir.bbList, Linked ir b) :
    ∀ (edges : List Nat) (loop : Loop),
      (∀ e ∈ edges, (ir.edge e).dst = head ∧ (ir.edge e).src ∈ ir.bbList ∧
        e ∈ (ir.bb (ir.edge e).src).outEdges) →
      Collecting ir head loop.length loop →
      ∃ r, ir.collectBackEdges head edges loop = some r ∧
        ∀ loop', r = some loop' → Collecting ir head loop'.length loop' := by
  intro edges
  induction edges with
  | nil =>
    intro loop _ h
    exact ⟨some loop, rfl, fun loop' hloop' => Option.some.inj hloop' ▸ h⟩
  | cons e rest ih =>
    intro loop hedg h
    have hrest := fun e' he' => hedg e' (mem_cons_of_mem e he')
    rcases hedg e mem_cons_self with ⟨hdst, hsrc, hout⟩
    rw [collectBackEdges, if_neg (not_not.mpr hdst)]
    by_cases hmem : (ir.edge e).src ∈ loop
    · rw [if_pos hmem]
      exact ih loop hrest h
    · rw [if_neg hmem]
      have hhead : head ∈ loop := mem_of_mem_head? h.head_eq
      have hleads : ir.Leads (ir.edge e).src head := ⟨hsrc, mem_map.mpr ⟨e, hout, hdst⟩⟩
      have hpush : Collecting ir head loop.length (loop ++ [(ir.edge e).src]) := by
        refine h.append ?_ (fun x hx => ?_) (fun x hx => ?_) (Nat.le_refl _)
        · rw [nodup_append]
          refine ⟨h.nodup, nodup_singleton _, fun x hx y hy heq => hmem ?_⟩
          rw [← mem_singleton.mp hy, ← heq]
          exact hx
        · rw [mem_singleton.mp hx]
          exact hsrc
        · rw [mem_singleton.mp hx]
          exact ⟨head, hhead, hleads⟩
      have hfuel : ir.bbList.length < loop.length + ir.turns := by
        unfold turns
        omega
      rcases walkLoop_collecting hlink ir.turns loop.length _ hpush
        (by rw [length_append]; omega) hfuel with ⟨r, hr, hcol⟩
      rw [hr]
      cases r with
      | none => exact ⟨none, rfl, fun loop' hloop' => by cases hloop'⟩
      | some loop' => exact ih loop' hrest (hcol loop' rfl)

/-! ### Loops that are found -/

/-- A loop is entered through its head, to which its blocks lead. -/
structure NaturalLoop (ir : MachineIR) (loop : Loop) : Prop where
  ne_nil : loop ≠ []
  nodup : loop.Nodup
  mem : ∀ b ∈ loop, b ∈ ir.bbList
  preds_mem : ∀ b ∈ loop, b ≠ loop.headI → ∀ p ∈ ir.preds b, p ∈ loop
  inEdges_ne_nil : ∀ b ∈ loop, (ir.bb b).inEdges ≠ []
  returns : ReturnsTo ir.Leads loop.headI {b | b ∈ loop}

theorem Collecting.natural {loop : Loop} (h : Collecting ir head loop.length loop)
    (hhead : (ir.bb head).inEdges ≠ []) : loop.headI = head ∧ NaturalLoop ir loop := by
  cases loop with
  | nil => cases h.head_eq
  | cons c rest =>
    have hc : c = head := Option.some.inj h.head_eq
    subst hc
    have hwalk : ∀ b ∈ c :: rest, b ≠ c →
        (ir.bb b).inEdges ≠ [] ∧ ∀ p ∈ ir.preds b, p ∈ c :: rest := by
      intro b hb hne
      rcases mem_iff_getElem?.mp hb with ⟨i, hi⟩
      refine h.walked i b (Nat.pos_of_ne_zero fun h0 => hne ?_) ?_ hi
      · rw [h0, getElem?_cons_zero] at hi
        exact (Option.some.inj hi).symm
      · exact (List.getElem?_eq_some_iff.mp hi).1
    refine ⟨rfl, cons_ne_nil _ _, h.nodup, h.mem, fun b hb hne => (hwalk b hb hne).2,
      fun b hb => ?_, h.returns⟩
    by_cases hne : b = c
    · rw [hne]
      exact hhead
    · exact (hwalk b hb hne).1

theorem mem_backEdges {e : Nat} {bbs : List Nat} {isVisited : List Nat}
    (h : e ∈ ir.backEdges isVisited bbs) : ∃ b ∈ bbs, e ∈ (ir.bb b).outEdges := by
  induction bbs generalizing isVisited with
  | nil => cases h
  | cons b rest ih =>
    rcases mem_append.mp h with h | h
    · exact ⟨b, mem_cons_self, mem_of_mem_filter h⟩
    · rcases ih h with ⟨c, hc, he⟩
      exact ⟨c, mem_cons_of_mem b hc, he⟩

def groupDst (ir : MachineIR) (group : List Nat) : Nat := (ir.edge group.headI).dst

theorem mem_sortedBackEdges {std : StdSort} {rpoList group : List Nat}
    (h : group ∈ ir.sortedBackEdges std rpoList) :
    group ≠ [] ∧ ∀ e ∈ group, (ir.edge e).dst = ir.groupDst group ∧
      e ∈ ir.backEdges [] rpoList := by
  unfold sortedBackEdges at h
  refine ⟨ne_nil_of_mem_splitBy h, fun e he => ⟨?_, ?_⟩⟩
  · -- Neighbours in a group have the same target, and so have all of them.
    have hchain := isChain_of_mem_splitBy h
    simp only [beq_iff_eq] at hchain
    cases group with
    | nil => cases he
    | cons e₀ rest =>
      have hpairw := (isChain_iff_pairwise (R := fun e e' =>
        (ir.edge e).dst = (ir.edge e').dst)).mp hchain
      rcases mem_cons.mp he with rfl | he
      · rfl
      · exact ((pairwise_cons.mp hpairw).1 e he).symm
  · have hflat := mem_flatten.mpr ⟨group, h, he⟩
    rw [flatten_splitBy] at hflat
    exact (std.perm _ _).mem_iff.mp hflat

theorem groupDst_lt (std : StdSort) (rpoList : List Nat) :
    (ir.sortedBackEdges std rpoList).Pairwise fun g g' => ir.groupDst g < ir.groupDst g' := by
  have hsort := std.sorted (fun e e' => decide ((ir.edge e).dst < (ir.edge e').dst))
    (ir.backEdges [] rpoList) (strictWeakOrder_of_key _)
  rw [← flatten_splitBy (fun e e' => (ir.edge e).dst == (ir.edge e').dst)
    (std.sort _ _), pairwise_flatten] at hsort
  have hle : (ir.sortedBackEdges std rpoList).Pairwise fun g g' => ∀ e ∈ g, ∀ e' ∈ g',
      decide ((ir.edge e').dst < (ir.edge e).dst) = false := hsort.2
  have hne : (ir.sortedBackEdges std rpoList).IsChain fun g g' => ∃ hg hg',
      ((ir.edge (g.getLast hg)).dst == (ir.edge (g'.head hg')).dst) = false :=
    isChain_getLast_head_splitBy (fun e e' => (ir.edge e).dst == (ir.edge e').dst) _
  -- Neighbours have targets that are in order and not equal.
  have hlt : (ir.sortedBackEdges std rpoList).IsChain
      fun g g' => ir.groupDst g < ir.groupDst g' := by
    rw [isChain_iff_getElem] at hne ⊢
    intro i hi
    rcases hne i hi with ⟨hlast, hhead, hdif⟩
    have hord := pairwise_iff_getElem.mp hle i (i + 1) (Nat.lt_of_succ_lt hi) hi
      (Nat.lt_succ_self i) _ (getLast_mem hlast) _ (head_mem hhead)
    have hg := ((mem_sortedBackEdges (getElem_mem _)).2 _ (getLast_mem hlast)).1
    have hg' := ((mem_sortedBackEdges (getElem_mem _)).2 _ (head_mem hhead)).1
    simp only [decide_eq_false_iff_not, beq_eq_false_iff_ne, ne_eq] at hord hdif
    omega
  exact isChain_iff_pairwise.mp hlt

theorem mapM_spec {α β : Type} {f : α → Option β} {P : α → β → Prop} {xs : List α}
    (h : ∀ x ∈ xs, ∃ y, f x = some y ∧ P x y) :
    ∃ ys, xs.mapM f = some ys ∧ List.Forall₂ P xs ys := by
  induction xs with
  | nil => exact ⟨[], rfl, .nil⟩
  | cons x xs ih =>
    rcases h x mem_cons_self with ⟨y, hy, hP⟩
    rcases ih (fun x' hx' => h x' (mem_cons_of_mem x hx')) with ⟨ys, hys, hall⟩
    refine ⟨y :: ys, ?_, .cons hP hall⟩
    rw [mapM_cons, hy, hys]
    rfl

theorem heads_pairwise {groups : List (List Nat)} {rs : List (Option Loop)}
    (hlt : groups.Pairwise fun g g' => ir.groupDst g < ir.groupDst g')
    (h : List.Forall₂ (fun g r => ∀ loop, r = some loop →
      loop.headI = ir.groupDst g ∧ NaturalLoop ir loop) groups rs) :
    (∀ loop ∈ rs.reduceOption, NaturalLoop ir loop ∧ ∃ g ∈ groups, loop.headI = ir.groupDst g) ∧
      (rs.reduceOption.map List.headI).Nodup := by
  induction h with
  | nil => exact ⟨fun loop hloop => absurd hloop not_mem_nil, nodup_nil⟩
  | @cons g r groups rs hr _ ih =>
    rw [pairwise_cons] at hlt
    rcases ih hlt.2 with ⟨hloops, hheads⟩
    cases r with
    | none =>
      refine ⟨fun loop hloop => ?_, hheads⟩
      rcases hloops loop hloop with ⟨hnat, g', hg', heq⟩
      exact ⟨hnat, g', mem_cons_of_mem g hg', heq⟩
    | some loop₀ =>
      rcases hr loop₀ rfl with ⟨hhead, hnat⟩
      rw [reduceOption_cons_of_some]
      refine ⟨fun loop hloop => ?_, ?_⟩
      · rcases mem_cons.mp hloop with rfl | hloop
        · exact ⟨hnat, g, mem_cons_self, hhead⟩
        · rcases hloops loop hloop with ⟨hnat', g', hg', heq⟩
          exact ⟨hnat', g', mem_cons_of_mem g hg', heq⟩
      · rw [map_cons, nodup_cons]
        refine ⟨fun hmem => ?_, hheads⟩
        rcases mem_map.mp hmem with ⟨loop, hloop, heq⟩
        rcases hloops loop hloop with ⟨_, g', hg', hg''⟩
        have hlt' := hlt.1 g' hg'
        omega

theorem findLoops_spec (std : StdSort) (hlinked : ∀ b ∈ ir.bbList, Linked ir b)
    (hentry : ir.bbList.head? = some entry) (hnone : (ir.bb entry).inEdges = []) :
    ∃ loops, ir.findLoops std = some loops ∧ (∀ loop ∈ loops, NaturalLoop ir loop) ∧
      (loops.map List.headI).Nodup := by
  rcases getReversePostOrderBBList_spec hlinked hentry hnone with ⟨rpoList, hrpo, hmem⟩
  have hcollect : ∀ group ∈ ir.sortedBackEdges std rpoList, ∃ r, ir.collectLoop group = some r ∧
      ∀ loop, r = some loop → loop.headI = ir.groupDst group ∧ NaturalLoop ir loop := by
    intro group hgroup
    rcases mem_sortedBackEdges hgroup with ⟨hne, hedg⟩
    have hback : ∀ e ∈ group, (ir.edge e).dst = ir.groupDst group ∧ (ir.edge e).src ∈ ir.bbList ∧
        e ∈ (ir.bb (ir.edge e).src).outEdges ∧ e ∈ (ir.bb (ir.edge e).dst).inEdges ∧
        (ir.edge e).dst ∈ ir.bbList := by
      intro e he
      rcases mem_backEdges (hedg e he).2 with ⟨b, hb, hout⟩
      have hlink := hlinked b (hmem b hb).1
      rw [hlink.src_eq e hout]
      exact ⟨(hedg e he).1, (hmem b hb).1, hout, hlink.outEdge e hout⟩
    cases group with
    | nil => exact absurd rfl hne
    | cons e rest =>
      rcases hback e mem_cons_self with ⟨_, _, _, hin, hdst⟩
      have hst : Collecting ir (ir.edge e).dst [(ir.edge e).dst].length [(ir.edge e).dst] := by
        refine ⟨rfl, nodup_singleton _, fun b hb => ?_, fun i b hi hlt _ => ?_, fun b hb => ?_⟩
        · rw [mem_singleton.mp hb]
          exact hdst
        · rw [length_singleton] at hlt
          omega
        · rw [mem_singleton.mp hb]
      rcases collectBackEdges_collecting hlinked (e :: rest) _
        (fun e' he' => ⟨(hback e' he').1, (hback e' he').2.1, (hback e' he').2.2.1⟩) hst with
        ⟨r, hr, hcol⟩
      refine ⟨r, hr, fun loop hloop => (hcol loop hloop).natural fun hnil => ?_⟩
      have hnil : (ir.bb (ir.edge e).dst).inEdges = [] := hnil
      rw [hnil] at hin
      cases hin
  rcases mapM_spec hcollect with ⟨rs, hrs, hall⟩
  rcases heads_pairwise (groupDst_lt std rpoList) hall with ⟨hloops, hheads⟩
  refine ⟨rs.reduceOption, ?_, fun loop hloop => (hloops loop hloop).1, hheads⟩
  unfold findLoops
  rw [hrpo, Option.bind_some, hrs]
  rfl

/-! ### The tree of loops -/

/-- A loop can be inserted next to another one by looking at heads: it is part
    of loops that have its head, and apart from others. -/
structure Arranged (outer loop : Loop) : Prop where
  inner : loop.headI ∈ outer → (∀ b ∈ loop, b ∈ outer) ∧ ∃ b ∈ outer, b ∉ loop
  apart : loop.headI ∉ outer → ∀ b ∈ outer, b ∉ loop

def LoopTreeNode.loop : LoopTreeNode → Option Loop
  | .mk loop _ => loop

mutual

def LoopTreeNode.loops : LoopTreeNode → List Loop
  | .mk loop innerloopNodes => loop.toList ++ LoopTreeNode.innerLoops innerloopNodes

def LoopTreeNode.innerLoops : List LoopTreeNode → List Loop
  | [] => []
  | node :: rest => node.loops ++ LoopTreeNode.innerLoops rest

end

/-- Inner loops are strictly within the loop of a node, and apart from each
    other, and so it is for the inner loops. -/
inductive LoopTreeNode.Nested : LoopTreeNode → Prop
  | mk (loop : Option Loop) (innerloopNodes : List LoopTreeNode)
      (some_loop : ∀ node ∈ innerloopNodes, ∃ l, node.loop = some l)
      (strict : ∀ node ∈ innerloopNodes, ∀ l p, node.loop = some l → loop = some p →
        (∀ b ∈ l, b ∈ p) ∧ ∃ b ∈ p, b ∉ l)
      (disjoint : innerloopNodes.Pairwise fun node node' => ∀ l l', node.loop = some l →
        node'.loop = some l' → ∀ b ∈ l, b ∉ l')
      (inner : ∀ node ∈ innerloopNodes, LoopTreeNode.Nested node) :
      LoopTreeNode.Nested (.mk loop innerloopNodes)

structure Inserted (loop : Loop) (node node' : LoopTreeNode) : Prop where
  loop_eq : node'.loop = node.loop
  loops : node'.loops.Perm (node.loops ++ [loop])
  nested : node.Nested → (∀ p ∈ node.loops, Arranged p loop) → node'.Nested

theorem LoopTreeNode.mem_loops {node : LoopTreeNode} {p : Loop} (h : node.loop = some p) :
    p ∈ node.loops := by
  cases node with
  | mk loop inner =>
    have h : loop = some p := h
    rw [LoopTreeNode.loops, h]
    exact mem_append_left _ (mem_singleton_self p)

theorem LoopTreeNode.mem_innerLoops {node : LoopTreeNode} {p : Loop}
    (hnode : node ∈ inner) (hp : p ∈ node.loops) : p ∈ LoopTreeNode.innerLoops inner := by
  induction inner with
  | nil => cases hnode
  | cons node' rest ih =>
    rcases mem_cons.mp hnode with rfl | hnode
    · exact mem_append_left _ hp
    · exact mem_append_right _ (ih hnode)

theorem LoopTreeNode.innerLoops_append (inner : List LoopTreeNode) (node : LoopTreeNode) :
    LoopTreeNode.innerLoops (inner ++ [node]) = LoopTreeNode.innerLoops inner ++ node.loops := by
  induction inner with
  | nil => simp only [nil_append, LoopTreeNode.innerLoops, append_nil]
  | cons node' rest ih =>
    simp only [cons_append, LoopTreeNode.innerLoops, ih, append_assoc]

structure InsertedInner (loop : Loop) (inner inner' : List LoopTreeNode) : Prop where
  loop_eq : inner'.map LoopTreeNode.loop = inner.map LoopTreeNode.loop
  loops : (LoopTreeNode.innerLoops inner').Perm (LoopTreeNode.innerLoops inner ++ [loop])
  nested : (∀ node ∈ inner, node.Nested) →
    (∀ p ∈ LoopTreeNode.innerLoops inner, Arranged p loop) → ∀ node ∈ inner', node.Nested

theorem inserted_mk {loop : Loop} {nodeLoop : Option Loop}
    (hadm : admits nodeLoop loop.headI = true)
    (hnone : ∀ node ∈ inner, ∀ p, node.loop = some p → loop.headI ∉ p) :
    Inserted loop (.mk nodeLoop inner) (.mk nodeLoop (inner ++ [.mk (some loop) []])) := by
  have hleaf : LoopTreeNode.loops (.mk (some loop) []) = [loop] := by
    rfl
  refine ⟨rfl, ?_, fun hnest harr => ?_⟩
  · rw [LoopTreeNode.loops, LoopTreeNode.loops, LoopTreeNode.innerLoops_append, hleaf, append_assoc]
  · cases hnest with
    | mk _ _ hsome hstr hdisj hinn =>
      refine .mk _ _ (fun node hnode => ?_) (fun node hnode l p hl hp => ?_) ?_
        (fun node hnode => ?_)
      · rcases mem_append.mp hnode with hnode | hnode
        · exact hsome node hnode
        · rw [mem_singleton.mp hnode]
          exact ⟨loop, rfl⟩
      · rcases mem_append.mp hnode with hnode | hnode
        · exact hstr node hnode l p hl hp
        · rw [mem_singleton.mp hnode] at hl
          rw [← Option.some.inj hl]
          refine (harr p (LoopTreeNode.mem_loops hp)).inner ?_
          rw [hp] at hadm
          exact of_decide_eq_true hadm
      · rw [pairwise_append]
        refine ⟨hdisj, pairwise_singleton _ _, fun node hnode node' hnode' l l' hl hl' => ?_⟩
        rw [mem_singleton.mp hnode'] at hl'
        rw [← Option.some.inj hl']
        refine (harr l ?_).apart (hnone node hnode l hl)
        exact mem_append_right _
          (LoopTreeNode.mem_innerLoops hnode (LoopTreeNode.mem_loops hl))
      · rcases mem_append.mp hnode with hnode | hnode
        · exact hinn node hnode
        · rw [mem_singleton.mp hnode]
          exact .mk _ _ (fun _ h => absurd h not_mem_nil) (fun _ h => absurd h not_mem_nil)
            List.Pairwise.nil (fun _ h => absurd h not_mem_nil)

theorem inserted_inner {loop : Loop} {nodeLoop : Option Loop} {inner' : List LoopTreeNode}
    (h : InsertedInner loop inner inner') :
    Inserted loop (.mk nodeLoop inner) (.mk nodeLoop inner') := by
  have hback : ∀ node' ∈ inner', ∃ node ∈ inner, node.loop = node'.loop := by
    intro node' hnode'
    have hmem := mem_map_of_mem (f := LoopTreeNode.loop) hnode'
    rw [h.loop_eq] at hmem
    exact mem_map.mp hmem
  refine ⟨rfl, ?_, fun hnest harr => ?_⟩
  · rw [LoopTreeNode.loops, LoopTreeNode.loops, append_assoc]
    exact h.loops.append_left _
  · cases hnest with
    | mk _ _ hsome hstr hdisj hinn =>
      refine .mk _ _ (fun node' hnode' => ?_) (fun node' hnode' l p hl hp => ?_) ?_
        (h.nested hinn ?_)
      · rcases hback node' hnode' with ⟨node, hnode, heq⟩
        rw [← heq]
        exact hsome node hnode
      · rcases hback node' hnode' with ⟨node, hnode, heq⟩
        exact hstr node hnode l p (heq.trans hl) hp
      · -- Disjointness only looks at the loops.
        have hmap : (inner.map LoopTreeNode.loop).Pairwise fun o o' => ∀ l l', o = some l →
            o' = some l' → ∀ b ∈ l, b ∉ l' := pairwise_map.mpr hdisj
        rw [← h.loop_eq] at hmap
        exact pairwise_map.mp hmap
      · intro p hp
        refine harr p ?_
        exact mem_append_right _ hp

mutual

theorem tryInsertLoopAtNode_spec (loop : Loop) : ∀ node : LoopTreeNode,
    (∀ node', tryInsertLoopAtNode loop node = some node' → Inserted loop node node') ∧
      (tryInsertLoopAtNode loop node = none → ∃ p, node.loop = some p ∧ loop.headI ∉ p)
  | .mk nodeLoop inner => by
      have hinn := tryInsertLoopAtInner_spec loop inner
      rw [tryInsertLoopAtNode]
      by_cases hadm : admits nodeLoop loop.headI = true
      · rw [if_pos hadm]
        cases hres : tryInsertLoopAtInner loop inner with
        | some inner' =>
          refine ⟨fun node' hnode' => ?_, fun h => by cases h⟩
          rw [← Option.some.inj hnode']
          exact inserted_inner (hinn.1 inner' hres)
        | none =>
          refine ⟨fun node' hnode' => ?_, fun h => by cases h⟩
          rw [← Option.some.inj hnode']
          exact inserted_mk hadm fun node hnode p hp => by
            rcases hinn.2 hres node hnode with ⟨p', hp', hnot⟩
            rw [hp] at hp'
            rw [Option.some.inj hp']
            exact hnot
      · rw [if_neg hadm]
        refine ⟨fun node' hnode' => (by cases hnode'), fun _ => ?_⟩
        cases nodeLoop with
        | none => exact absurd rfl hadm
        | some p => exact ⟨p, rfl, fun hmem => hadm (decide_eq_true hmem)⟩

theorem tryInsertLoopAtInner_spec (loop : Loop) : ∀ inner : List LoopTreeNode,
    (∀ inner', tryInsertLoopAtInner loop inner = some inner' → InsertedInner loop inner inner') ∧
      (tryInsertLoopAtInner loop inner = none →
        ∀ node ∈ inner, ∃ p, node.loop = some p ∧ loop.headI ∉ p)
  | [] => by
      rw [tryInsertLoopAtInner]
      exact ⟨fun inner' h => (by cases h), fun _ node hnode => absurd hnode not_mem_nil⟩
  | node :: rest => by
      have hnode := tryInsertLoopAtNode_spec loop node
      have hrest := tryInsertLoopAtInner_spec loop rest
      rw [tryInsertLoopAtInner]
      cases hres : tryInsertLoopAtNode loop node with
      | some node' =>
        refine ⟨fun inner' hinn' => ?_, fun h => (by cases h)⟩
        rw [← Option.some.inj hinn']
        have hins := hnode.1 node' hres
        refine ⟨?_, ?_, fun hnest harr k hk => ?_⟩
        · rw [map_cons, map_cons, hins.loop_eq]
        · rw [LoopTreeNode.innerLoops, LoopTreeNode.innerLoops]
          refine (hins.loops.append_right _).trans ?_
          rw [append_assoc, append_assoc]
          exact perm_append_comm.append_left _
        · rw [LoopTreeNode.innerLoops] at harr
          rcases mem_cons.mp hk with rfl | hk
          · exact hins.nested (hnest node mem_cons_self)
              fun p hp => harr p (mem_append_left _ hp)
          · exact hnest k (mem_cons_of_mem node hk)
      | none =>
        dsimp only
        constructor
        · intro inner' hinn'
          rcases Option.map_eq_some_iff.mp hinn' with ⟨rest', hrest', rfl⟩
          have hins := hrest.1 rest' hrest'
          refine ⟨?_, ?_, fun hnest harr k hk => ?_⟩
          · rw [map_cons, map_cons, hins.loop_eq]
          · rw [LoopTreeNode.innerLoops, LoopTreeNode.innerLoops, append_assoc]
            exact hins.loops.append_left _
          · rw [LoopTreeNode.innerLoops] at harr
            rcases mem_cons.mp hk with rfl | hk
            · exact hnest k mem_cons_self
            · exact hins.nested (fun k' hk' => hnest k' (mem_cons_of_mem node hk'))
                (fun p hp => harr p (mem_append_right _ hp)) k hk
        · intro hnone k hk
          rcases mem_cons.mp hk with rfl | hk
          · exact hnode.2 hres
          · exact hrest.2 (Option.map_eq_none_iff.mp hnone) k hk

end

theorem insertLoops_spec : ∀ (loops : List Loop) (root : LoopTreeNode), root.loop = none →
    root.Nested → loops.Pairwise Arranged → (∀ p ∈ root.loops, ∀ loop ∈ loops, Arranged p loop) →
    ∃ root', insertLoops root loops = some root' ∧ root'.Nested ∧
      root'.loops.Perm (root.loops ++ loops) := by
  intro loops
  induction loops with
  | nil =>
    intro root _ hnest _ _
    refine ⟨root, rfl, hnest, ?_⟩
    rw [append_nil]
  | cons loop rest ih =>
    intro root hroot hnest hpairw harr
    rw [pairwise_cons] at hpairw
    cases hres : tryInsertLoopAtNode loop root with
    | none =>
      rcases (tryInsertLoopAtNode_spec loop root).2 hres with ⟨p, hp, _⟩
      rw [hroot] at hp
      cases hp
    | some root₁ =>
      have hins := (tryInsertLoopAtNode_spec loop root).1 root₁ hres
      have hnest₁ := hins.nested hnest fun p hp => harr p hp loop mem_cons_self
      have harr₁ : ∀ p ∈ root₁.loops, ∀ l ∈ rest, Arranged p l := by
        intro p hp l hl
        rcases mem_append.mp (hins.loops.mem_iff.mp hp) with hp | hp
        · exact harr p hp l (mem_cons_of_mem loop hl)
        · rw [mem_singleton.mp hp]
          exact hpairw.1 l hl
      rcases ih root₁ (hins.loop_eq.trans hroot) hnest₁ hpairw.2 harr₁ with
        ⟨root', hroot', hnest', hperm⟩
      refine ⟨root', ?_, hnest', hperm.trans ?_⟩
      · unfold insertLoops at hroot' ⊢
        rw [foldlM_cons, hres]
        exact hroot'
      · have happ := hins.loops.append_right rest
        rw [append_assoc] at happ
        exact happ

/-! ### Graphs whose blocks can all be reached -/

theorem NaturalLoop.headI_mem {loop : Loop} (h : NaturalLoop ir loop) : loop.headI ∈ loop := by
  cases loop with
  | nil => exact absurd rfl h.ne_nil
  | cons head rest => exact mem_cons_self

theorem NaturalLoop.enteredAt {loop : Loop} (h : NaturalLoop ir loop)
    (hlink : ∀ b ∈ ir.bbList, Linked ir b) :
    EnteredAt ir.Leads loop.headI {b | b ∈ loop} :=
  ⟨h.headI_mem, fun x y hy hne hstep =>
    h.preds_mem y hy hne x ((hlink x hstep.1).mem_preds hstep.2)⟩

theorem NaturalLoop.not_mem {loop : Loop} (h : NaturalLoop ir loop)
    (hnone : (ir.bb entry).inEdges = []) : entry ∉ loop :=
  fun hmem => h.inEdges_ne_nil entry hmem hnone

theorem NaturalLoop.arranged {outer loop : Loop} (hout : NaturalLoop ir outer)
    (hloop : NaturalLoop ir loop) (hlink : ∀ b ∈ ir.bbList, Linked ir b)
    (hnone : (ir.bb entry).inEdges = [])
    (hreach : ∀ b ∈ ir.bbList, Relation.ReflTransGen ir.Leads entry b)
    (hsize : loop.length ≤ outer.length) (hheads : loop.headI ≠ outer.headI) :
    Arranged outer loop := by
  have hent := hout.enteredAt hlink
  have hent' := hloop.enteredAt hlink
  have hreac : ∀ {l : Loop}, NaturalLoop ir l → ∀ b ∈ l, Relation.ReflTransGen ir.Leads entry b :=
    fun hl b hb => hreach b (hl.mem b hb)
  constructor
  · intro hinn
    -- The heads are not in each other's loops.
    have hnot : outer.headI ∉ loop := fun hmem =>
      EnteredAt.not_both hent' hent hheads (hloop.not_mem hnone) (hout.not_mem hnone)
        (hreac hloop _ hloop.headI_mem) hinn hmem
    exact ⟨fun b hb => EnteredAt.subset hloop.returns hent hinn hnot hb,
      outer.headI, hout.headI_mem, hnot⟩
  · intro hapart b hb hb'
    -- One loop would have the head of the other, and be larger.
    rcases EnteredAt.head_mem hent hent' (hout.not_mem hnone) (hreac hout b hb) hb hb' with
      hmem | hmem
    · have hsub : ∀ x ∈ outer, x ∈ loop :=
        fun x hx => EnteredAt.subset hout.returns hent' hmem hapart hx
      have hlt : (loop.headI :: outer).length ≤ loop.length := by
        refine (subperm_of_subset (nodup_cons.mpr ⟨hapart, hout.nodup⟩) ?_).length_le
        intro x hx
        rcases mem_cons.mp hx with rfl | hx
        · exact hloop.headI_mem
        · exact hsub x hx
      rw [length_cons] at hlt
      omega
    · exact hapart hmem

/-- In a graph whose blocks can all be reached from the first one, which has no
    predecessors, loops are natural loops and the tree is one of nested loops. -/
theorem buildLoopTree_natural (std : StdSort) (ir : MachineIR) (entry : Nat)
    (hlinked : ∀ b ∈ ir.bbList, Linked ir b) (hentry : ir.bbList.head? = some entry)
    (hnone : (ir.bb entry).inEdges = [])
    (hreach : ∀ b ∈ ir.bbList, Relation.ReflTransGen ir.Leads entry b) :
    ∃ loops root, ir.findLoops std = some loops ∧ ir.buildLoopTree std = some root ∧
      (∀ loop ∈ loops, loop ≠ [] ∧ loop.Nodup ∧
        (∀ b ∈ loop, b ≠ loop.headI → ∀ p ∈ ir.preds b, p ∈ loop) ∧
        (∀ b ∈ loop, Dominates ir.Leads entry loop.headI b) ∧
        ReturnsTo ir.Leads loop.headI {b | b ∈ loop}) ∧
      (loops.map List.headI).Nodup ∧ root.loops.Perm loops ∧ root.Nested := by
  rcases findLoops_spec std hlinked hentry hnone with ⟨loops, hloops, hnatural, hheads⟩
  have hperm := std.perm (fun loop loop' => decide (loop'.length < loop.length)) loops
  -- Loops come by decreasing size.
  have hsorted := std.sorted (fun loop loop' : Loop => decide (loop'.length < loop.length)) loops
    ⟨fun x y h => by simp only [decide_eq_true_eq, decide_eq_false_iff_not] at h ⊢; omega,
      fun x y z h h' => by simp only [decide_eq_false_iff_not] at h h' ⊢; omega⟩
  have hdiffer : (std.sort (fun loop loop' => decide (loop'.length < loop.length)) loops).Pairwise
      fun loop loop' => loop.headI ≠ loop'.headI :=
    pairwise_map.mp ((hperm.map List.headI).nodup_iff.mpr hheads)
  have harranged : (std.sort (fun loop loop' => decide (loop'.length < loop.length)) loops).Pairwise
      Arranged := by
    refine (hsorted.and hdiffer).imp_of_mem fun {outer loop} houter hloop h => ?_
    refine (hnatural outer (hperm.mem_iff.mp houter)).arranged
      (hnatural loop (hperm.mem_iff.mp hloop)) hlinked hnone hreach ?_ h.2.symm
    have hle := h.1
    simp only [decide_eq_false_iff_not] at hle
    omega
  have hempty : LoopTreeNode.Nested (.mk none []) :=
    .mk _ _ (fun _ h => absurd h not_mem_nil) (fun _ h => absurd h not_mem_nil)
      List.Pairwise.nil (fun _ h => absurd h not_mem_nil)
  have hnoLoops : LoopTreeNode.loops (.mk none []) = [] := by
    rfl
  rcases insertLoops_spec _ (.mk none []) rfl hempty harranged
    (fun p hp => by rw [hnoLoops] at hp; cases hp) with ⟨root, hroot, hnested, hrootPerm⟩
  refine ⟨loops, root, hloops, ?_, fun loop hloop => ?_, hheads, hrootPerm.trans hperm, hnested⟩
  · unfold buildLoopTree
    rw [hloops]
    exact hroot
  · have hnat := hnatural loop hloop
    exact ⟨hnat.ne_nil, hnat.nodup, hnat.preds_mem,
      fun b hb => (hnat.enteredAt hlinked).dominates (hnat.not_mem hnone) hb, hnat.returns⟩

/-- A loop within a loop: 0 leads to 1, 1 to 2, and 2 to itself, to 1 and to 3. -/
def nestedLoops : MachineIR where
  bb b :=
    { MachineBasicBlock.empty with
      inEdges := [[], [0, 3], [1, 2], [4]].getD b []
      outEdges := [[0], [1], [2, 3, 4], []].getD b [] }
  edge e := [⟨0, 1⟩, ⟨1, 2⟩, ⟨2, 2⟩, ⟨2, 1⟩].getD e ⟨2, 3⟩
  bbList := [0, 1, 2, 3]
  bbOrder := .unordered
  numBb := 4
  numEdge := 5
  numNode := 0
  numVReg := 0

instance (ir : MachineIR) (b c : Nat) : Decidable (ir.Leads b c) :=
  inferInstanceAs (Decidable (_ ∧ _))

theorem buildLoopTree_nestedLoops :
    nestedLoops.findLoops .insertion = some [[1, 2], [2]] ∧
      ∃ loops root, nestedLoops.findLoops .insertion = some loops ∧
        nestedLoops.buildLoopTree .insertion = some root ∧ root.loops.Perm loops ∧ root.Nested := by
  have hlinked : ∀ b ∈ nestedLoops.bbList, Linked nestedLoops b := by
    simp only [linked_iff]
    decide
  have h1 : Relation.ReflTransGen nestedLoops.Leads 0 1 := .single (by decide)
  have h2 : Relation.ReflTransGen nestedLoops.Leads 0 2 := h1.tail (by decide)
  have hreach : ∀ b ∈ nestedLoops.bbList, Relation.ReflTransGen nestedLoops.Leads 0 b := by
    intro b hb
    have hb : b ∈ [0, 1, 2, 3] := hb
    simp only [mem_cons, not_mem_nil, or_false] at hb
    rcases hb with rfl | rfl | rfl | rfl
    · exact .refl
    · exact h1
    · exact h2
    · exact h2.tail (by decide)
  rcases buildLoopTree_natural .insertion nestedLoops 0 hlinked rfl rfl hreach with
    ⟨loops, root, hloops, hroot, _, _, hperm, hnested⟩
  exact ⟨by decide +kernel, loops, root, hloops, hroot, hperm, hnested⟩

end MachineIR

end Berberis.Backend
