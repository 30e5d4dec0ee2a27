import Mathlib

/-!
# Worklists for Backward Analyses

An analysis assigns a finite set of facts to each node of a graph, computed
from those of the nodes that it leads to. Nodes are visited from a worklist;
when a visit changes the facts of a node, the nodes that lead to it are put
back.
-/

namespace Berberis.Lib

open List Function

variable {β φ : Type} [DecidableEq β] [DecidableEq φ]

/-- The facts of a node from those of others, and the nodes that lead to it. -/
structure Backward (β φ : Type) where
  visit : β → (β → Finset φ) → Finset φ
  preds : β → List β

namespace Backward

variable (A : Backward β φ)

/-- Put nodes on a worklist, unless they are there already. -/
def push (work : List β) (bs : List β) : List β :=
  bs.foldl (fun work b => if b ∈ work then work else b :: work) work

def solve : Nat → (β → Finset φ) → List β → Option (β → Finset φ)
  | 0, _, _ => none
  | _ + 1, facts, [] => some facts
  | fuel + 1, facts, b :: work =>
    if A.visit b facts = facts b then solve fuel facts work
    else solve fuel (Function.update facts b (A.visit b facts)) (push work (A.preds b))

variable {work : List β} {b : β}

theorem mem_push_of_mem (bs : List β) (h : b ∈ work) : b ∈ push work bs := by
  induction bs generalizing work with
  | nil => exact h
  | cons c cs ih =>
    refine ih ?_
    dsimp only
    split_ifs
    · exact h
    · exact mem_cons_of_mem c h

theorem mem_push {bs : List β} (h : b ∈ bs) : b ∈ push work bs := by
  induction bs generalizing work with
  | nil => cases h
  | cons c cs ih =>
    rcases mem_cons.mp h with rfl | hmem
    · refine mem_push_of_mem cs ?_
      dsimp only
      split_ifs with hb
      · exact hb
      · exact mem_cons_self
    · exact ih hmem

theorem mem_or_of_mem_push {bs : List β} (h : b ∈ push work bs) : b ∈ work ∨ b ∈ bs := by
  induction bs generalizing work with
  | nil => exact Or.inl h
  | cons c cs ih =>
    rcases ih h with hmem | hmem
    · dsimp only at hmem
      split_ifs at hmem
      · exact Or.inl hmem
      · rcases mem_cons.mp hmem with rfl | hmem
        · exact Or.inr mem_cons_self
        · exact Or.inl hmem
    · exact Or.inr (mem_cons_of_mem c hmem)

theorem length_push_le (work bs : List β) : (push work bs).length ≤ work.length + bs.length := by
  induction bs generalizing work with
  | nil => exact Nat.le_refl _
  | cons c cs ih =>
    have hle := ih (if c ∈ work then work else c :: work)
    have hif : (if c ∈ work then work else c :: work).length ≤ work.length + 1 := by
      split_ifs
      · omega
      · exact Nat.le_of_eq length_cons
    rw [length_cons]
    unfold push at hle ⊢
    rw [foldl_cons]
    omega

theorem solve_visit (nodes : List β) (hdep : ∀ b, ∀ c ∈ nodes, ∀ facts new, c ∉ A.preds b →
      A.visit c (Function.update facts b new) = A.visit c facts) (fuel : Nat)
    (facts : β → Finset φ) (work : List β) (r : β → Finset φ)
    (hinv : ∀ c ∈ nodes, c ∉ work → A.visit c facts = facts c)
    (h : A.solve fuel facts work = some r) : ∀ c ∈ nodes, A.visit c r = r c := by
  induction fuel generalizing facts work with
  | zero => cases h
  | succ fuel ih =>
    cases work with
    | nil =>
      rw [← Option.some.inj h]
      exact fun c hc => hinv c hc not_mem_nil
    | cons b work =>
      rw [solve] at h
      split_ifs at h with hsame
      · refine ih facts work (fun c hc hnot => ?_) h
        by_cases hcb : c = b
        · rw [hcb]
          exact hsame
        · exact hinv c hc (fun hmem => (mem_cons.mp hmem).elim hcb hnot)
      · refine ih _ _ (fun c hc hnot => ?_) h
        -- A node that is not put back does not depend on this one.
        have hpred : c ∉ A.preds b := fun hmem => hnot (mem_push hmem)
        rw [hdep b c hc _ _ hpred]
        by_cases hcb : c = b
        · rw [hcb, update_self]
        · rw [update_of_ne hcb]
          refine hinv c hc (fun hmem => hnot (mem_push_of_mem _ ?_))
          exact (mem_cons.mp hmem).resolve_left hcb

theorem solve_induction (P : β → φ → Prop) (nodes : List β)
    (hpreds : ∀ b ∈ nodes, ∀ c ∈ A.preds b, c ∈ nodes)
    (hvis : ∀ b ∈ nodes, ∀ facts : β → Finset φ, (∀ c, ∀ x ∈ facts c, P c x) →
      ∀ x ∈ A.visit b facts, P b x) (fuel : Nat) (facts : β → Finset φ) (work : List β)
    (r : β → Finset φ) (hwork : ∀ b ∈ work, b ∈ nodes) (hfacts : ∀ c, ∀ x ∈ facts c, P c x)
    (h : A.solve fuel facts work = some r) : ∀ c, ∀ x ∈ r c, P c x := by
  induction fuel generalizing facts work with
  | zero => cases h
  | succ fuel ih =>
    cases work with
    | nil =>
      rw [← Option.some.inj h]
      exact hfacts
    | cons b work =>
      have hb : b ∈ nodes := hwork b mem_cons_self
      have hrest : ∀ c ∈ work, c ∈ nodes := fun c hc => hwork c (mem_cons_of_mem b hc)
      rw [solve] at h
      split_ifs at h with hsame
      · exact ih facts work hrest hfacts h
      · refine ih _ _ (fun c hc => ?_) (fun c x hx => ?_) h
        · exact (mem_or_of_mem_push hc).elim (hrest c) (hpreds b hb c)
        · by_cases hcb : c = b
          · rw [hcb, update_self] at hx
            rw [hcb]
            exact hvis b hb facts hfacts x hx
          · rw [update_of_ne hcb] at hx
            exact hfacts c x hx

section

variable (nodes : List β) (facts₀ : Finset φ)
  (hmono : ∀ b facts facts', (∀ c, facts c ⊆ facts' c) → A.visit b facts ⊆ A.visit b facts')
  (hbound : ∀ b ∈ nodes, ∀ facts, (∀ c, facts c ⊆ facts₀) → A.visit b facts ⊆ facts₀)

def missing (facts : β → Finset φ) : Nat :=
  ∑ b ∈ nodes.toFinset, (facts₀.card - (facts b).card)

omit [DecidableEq φ] in
theorem missing_update_lt (facts : β → Finset φ) {b : β} {new : Finset φ} (hb : b ∈ nodes)
    (hsub : facts b ⊆ new) (hne : new ≠ facts b) (hle : new ⊆ facts₀) :
    missing nodes facts₀ (Function.update facts b new) < missing nodes facts₀ facts := by
  have hcard : (facts b).card < new.card :=
    Finset.card_lt_card (Finset.ssubset_iff_subset_ne.mpr ⟨hsub, hne.symm⟩)
  have hcard₀ : new.card ≤ facts₀.card := Finset.card_le_card hle
  refine Finset.sum_lt_sum (fun c _ => ?_) ⟨b, mem_toFinset.mpr hb, ?_⟩
  · by_cases hcb : c = b
    · rw [hcb, update_self]
      omega
    · rw [update_of_ne hcb]
  · rw [update_self]
    omega

include hmono hbound in
theorem exists_solve (degree : Nat) (hpreds : ∀ b ∈ nodes, ∀ c ∈ A.preds b, c ∈ nodes)
    (hdegr : ∀ b ∈ nodes, (A.preds b).length ≤ degree) (fuel : Nat) (facts : β → Finset φ)
    (work : List β) (hwork : ∀ b ∈ work, b ∈ nodes)
    (hasc : ∀ b, facts b ⊆ A.visit b facts) (hfacts : ∀ b, facts b ⊆ facts₀)
    (hfuel : work.length + missing nodes facts₀ facts * degree < fuel) :
    ∃ r, A.solve fuel facts work = some r ∧ ∀ b, r b ⊆ facts₀ := by
  induction fuel generalizing facts work with
  | zero => omega
  | succ fuel ih =>
    cases work with
    | nil => exact ⟨facts, rfl, hfacts⟩
    | cons b work =>
      have hb : b ∈ nodes := hwork b mem_cons_self
      have hrest : ∀ c ∈ work, c ∈ nodes := fun c hc => hwork c (mem_cons_of_mem b hc)
      rw [length_cons] at hfuel
      rw [solve]
      split_ifs with hsame
      · exact ih facts work hrest hasc hfacts (by omega)
      · have hle : A.visit b facts ⊆ facts₀ := hbound b hb facts hfacts
        have hgrow : ∀ c, facts c ⊆ Function.update facts b (A.visit b facts) c := by
          intro c
          by_cases hcb : c = b
          · rw [hcb, update_self]
            exact hasc b
          · rw [update_of_ne hcb]
        refine ih _ _ (fun c hc => ?_) (fun c => ?_) (fun c => ?_) ?_
        · rcases mem_or_of_mem_push hc with hc | hc
          · exact hrest c hc
          · exact hpreds b hb c hc
        · by_cases hcb : c = b
          · rw [hcb, update_self]
            exact hmono b _ _ hgrow
          · rw [update_of_ne hcb]
            exact (hasc c).trans (hmono c _ _ hgrow)
        · by_cases hcb : c = b
          · rw [hcb, update_self]
            exact hle
          · rw [update_of_ne hcb]
            exact hfacts c
        · -- A fact is added for the nodes that are put back.
          have hlt := missing_update_lt nodes facts₀ facts hb (hasc b) hsame hle
          have hpush := length_push_le work (A.preds b)
          have hdeg := hdegr b hb
          have hmul := Nat.mul_le_mul_right degree (Nat.succ_le_of_lt hlt)
          rw [Nat.succ_mul] at hmul
          omega

theorem le_foldr_max {n : Nat} {ns : List Nat} (h : n ∈ ns) : n ≤ ns.foldr max 0 := by
  induction ns with
  | nil => cases h
  | cons m ms ih =>
    rcases mem_cons.mp h with rfl | hmem
    · exact Nat.le_max_left _ _
    · exact Nat.le_trans (ih hmem) (Nat.le_max_right _ _)

omit [DecidableEq φ] in
theorem missing_empty_le : missing nodes facts₀ (fun _ => ∅) ≤ nodes.length * facts₀.card := by
  unfold missing
  simp only [Finset.card_empty, Nat.sub_zero]
  rw [Finset.sum_const_nat (fun _ _ => rfl)]
  exact Nat.mul_le_mul_right _ (toFinset_card_le _)

def degree : Nat := (nodes.map fun b => (A.preds b).length).foldr max 0

/-- More turns than the loop can take from nothing, with this many facts. -/
def turns (numFacts : Nat) : Nat :=
  nodes.length + nodes.length * numFacts * A.degree nodes + 1

include hmono hbound in
theorem exists_solve_turns (hpreds : ∀ b ∈ nodes, ∀ c ∈ A.preds b, c ∈ nodes) (numFacts : Nat)
    (hcard : facts₀.card ≤ numFacts) :
    ∃ r, A.solve (A.turns nodes numFacts) (fun _ => ∅) nodes = some r ∧ ∀ b, r b ⊆ facts₀ := by
  have hmis := (missing_empty_le nodes facts₀).trans (Nat.mul_le_mul_left _ hcard)
  have hfuel : nodes.length + missing nodes facts₀ (fun _ => ∅) * A.degree nodes <
      A.turns nodes numFacts :=
    Nat.lt_succ_of_le (Nat.add_le_add_left (Nat.mul_le_mul_right _ hmis) _)
  exact A.exists_solve nodes facts₀ hmono hbound (A.degree nodes) hpreds
    (fun b hb => le_foldr_max (mem_map_of_mem hb)) _ _ nodes (fun _ hb => hb)
    (fun _ => Finset.empty_subset _) (fun _ => Finset.empty_subset _) hfuel

end

end Backward

end Berberis.Lib
