import Mathlib

/-!
# Loops of a Graph

A loop of a graph has a head, and is entered through it only: predecessors of
its other vertices are in the loop. When the entry of the graph is not in the
loop, the head dominates it.
-/

namespace Berberis.Lib

variable {V : Type} (step : V → V → Prop)

/-- All paths from the entry to a vertex go through another one. -/
def Dominates (entry h b : V) : Prop :=
  ∀ path : List V, path.IsChain step → path.head? = some entry → path.getLast? = some b → h ∈ path

/-- A set of vertices is entered through its head only. -/
structure EnteredAt (head : V) (body : Set V) : Prop where
  mem : head ∈ body
  closed : ∀ x y, y ∈ body → y ≠ head → step x y → x ∈ body

def ReturnsTo (head : V) (body : Set V) : Prop :=
  ∀ x ∈ body, Relation.ReflTransGen (fun x y => step x y ∧ x ∈ body ∧ y ∈ body) x head

variable {step} {entry a b : V} {A B : Set V}

namespace EnteredAt

theorem head_mem_of_path (h : EnteredAt step a A) (path : List V) {c : V}
    (hchain : (c :: path).IsChain step) (hlast : ∀ x, (c :: path).getLast? = some x → x ∈ A)
    (hnot : a ∉ c :: path) : c ∈ A := by
  induction path generalizing c with
  | nil => exact hlast c rfl
  | cons d path ih =>
    rw [List.isChain_cons_cons] at hchain
    rw [List.mem_cons, not_or] at hnot
    have hd : d ∈ A :=
      ih hchain.2 (fun x hx => hlast x (by rw [List.getLast?_cons_cons, hx])) hnot.2
    exact h.closed c d hd (fun heq => hnot.2 (heq ▸ List.mem_cons_self)) hchain.1

theorem dominates (h : EnteredAt step a A) (hentry : entry ∉ A) {x : V} (hx : x ∈ A) :
    Dominates step entry a x := by
  intro path hchain hhead hlast
  by_contra hnot
  cases path with
  | nil => cases hhead
  | cons c path =>
    rw [List.head?_cons] at hhead
    rw [Option.some.inj hhead] at hchain hlast hnot
    refine hentry (h.head_mem_of_path path hchain (fun y hy => ?_) hnot)
    rw [hlast] at hy
    rw [← Option.some.inj hy]
    exact hx

theorem not_both (hA : EnteredAt step a A) (hB : EnteredAt step b B) (hne : a ≠ b)
    (hentr : entry ∉ A) (hentryB : entry ∉ B) (hreach : Relation.ReflTransGen step entry a)
    (hab : a ∈ B) (hba : b ∈ A) : False := by
  have hout : ∀ x, Relation.ReflTransGen step entry x → x ∉ A ∪ B := by
    intro x hx
    induction hx with
    | refl => exact fun hmem => hmem.elim hentr hentryB
    | @tail x y _ hstep ih =>
      rintro (hy | hy)
      · by_cases heq : y = a
        · subst heq
          exact ih (Or.inr (hB.closed x y hab hne hstep))
        · exact ih (Or.inl (hA.closed x y hy heq hstep))
      · by_cases heq : y = b
        · subst heq
          exact ih (Or.inl (hA.closed x y hba hne.symm hstep))
        · exact ih (Or.inr (hB.closed x y hy heq hstep))
  exact hout a hreach (Or.inl hA.mem)

theorem subset (hA : ReturnsTo step a A) (hB : EnteredAt step b B) (hab : a ∈ B) (hba : b ∉ A) :
    A ⊆ B := by
  intro x hx
  induction hA x hx using Relation.ReflTransGen.head_induction_on with
  | refl => exact hab
  | head hstep _ ih =>
    exact hB.closed _ _ (ih hstep.2.2) (fun heq => hba (heq ▸ hstep.2.2)) hstep.1

theorem head_mem (hA : EnteredAt step a A) (hB : EnteredAt step b B) (hentr : entry ∉ A) {x : V}
    (hreach : Relation.ReflTransGen step entry x) (hxA : x ∈ A) (hxB : x ∈ B) : a ∈ B ∨ b ∈ A := by
  by_contra hnot
  rw [not_or] at hnot
  -- Backwards from the vertex, everything is in both loops.
  have hboth : ∀ y, Relation.ReflTransGen step y x → y ∈ A ∧ y ∈ B := by
    intro y hy
    induction hy using Relation.ReflTransGen.head_induction_on with
    | refl => exact ⟨hxA, hxB⟩
    | head hstep _ ih =>
      exact ⟨hA.closed _ _ ih.1 (fun heq => hnot.1 (heq ▸ ih.2)) hstep,
        hB.closed _ _ ih.2 (fun heq => hnot.2 (heq ▸ ih.1)) hstep⟩
  exact hentr (hboth entry hreach).1

end EnteredAt

end Berberis.Lib
