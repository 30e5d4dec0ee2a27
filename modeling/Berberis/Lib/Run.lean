import Mathlib

/-!
# Runs of Partial Step Functions

A component that moves by atomic steps is given by a function from a state
and an action to the next state, or to nothing when the action is not
available there. `run` chains such steps along a list of actions, so a
statement about every list of actions is a statement about every order in
which the steps can be taken.
-/

namespace Berberis.Lib

variable {σ α : Type}

/-- Take the actions one after another, or `none` as soon as one of them is not available. -/
def run (step : σ → α → Option σ) : σ → List α → Option σ
  | s, [] => some s
  | s, a :: as => (step s a).bind fun t => run step t as

variable (step : σ → α → Option σ)

theorem run_nil_eq_some (s t : σ) : run step s [] = some t ↔ s = t := by
  rw [run, Option.some.injEq]

theorem run_cons_eq_some (a : α) (as : List α) (s t : σ) :
    run step s (a :: as) = some t ↔ ∃ u, step s a = some u ∧ run step u as = some t := by
  rw [run, Option.bind_eq_some_iff]

/-- Each step of the run meets a condition on the state it is taken in and on its action. -/
def MeetsAlong (step : σ → α → Option σ) (C : σ → α → Prop) : σ → List α → Prop
  | _, [] => True
  | s, a :: as => C s a ∧ ∀ t, step s a = some t → MeetsAlong step C t as

variable {step} in
theorem meetsAlong_cons {C : σ → α → Prop} {s t : σ} {a : α} {as : List α} (hC : C s a)
    (ht : step s a = some t) (h : MeetsAlong step C t as) : MeetsAlong step C s (a :: as) := by
  refine ⟨hC, fun u hu => ?_⟩
  rw [ht, Option.some.injEq] at hu
  rw [← hu]
  exact h

theorem meetsAlong_cons_iff (C : σ → α → Prop) (s : σ) (a : α)
    (as : List α) (next : Option σ) (h : step s a = next) :
    MeetsAlong step C s (a :: as) ↔ C s a ∧ ∀ t ∈ next, MeetsAlong step C t as := by
  rw [← h]
  rfl

/-- Along a concrete run the condition can be checked. -/
instance decidableMeetsAlong (step : σ → α → Option σ) (C : σ → α → Prop)
    [∀ s a, Decidable (C s a)] : ∀ s as, Decidable (MeetsAlong step C s as)
  | _, [] => isTrue trivial
  | s, a :: as =>
    have : ∀ t, Decidable (MeetsAlong step C t as) := fun t =>
      decidableMeetsAlong step C t as
    decidable_of_iff _ (meetsAlong_cons_iff step C s a as _ rfl).symm

theorem meetsAlong_true (s : σ) (as : List α) :
    MeetsAlong step (fun _ _ => True) s as := by
  induction as generalizing s with
  | nil => exact trivial
  | cons a as ih => exact ⟨trivial, fun t _ => ih t⟩

theorem meetsAlong_congr {C D : σ → α → Prop} {as : List α}
    (h : ∀ a ∈ as, ∀ s, C s a ↔ D s a) (s : σ) :
    MeetsAlong step C s as ↔ MeetsAlong step D s as := by
  induction as generalizing s with
  | nil => exact Iff.rfl
  | cons a as ih =>
    have hrest := ih fun b hb => h b (List.mem_cons_of_mem a hb)
    exact and_congr (h a List.mem_cons_self s) (forall₂_congr fun t _ => hrest t)

/-- A run is possible, and keeps a property, when each of its steps meets a
    condition under which the step is possible and keeps the property. -/
theorem run_total_of (C : σ → α → Prop) (P : σ → Prop)
    (hstep : ∀ s a, C s a → P s → ∃ t, step s a = some t ∧ P t) (as : List α) (s : σ)
    (hC : MeetsAlong step C s as) (hs : P s) : ∃ t, run step s as = some t ∧ P t := by
  induction as generalizing s with
  | nil => exact ⟨s, rfl, hs⟩
  | cons a as ih =>
    rcases hstep s a hC.1 hs with ⟨u, hu, hPu⟩
    rcases ih u (hC.2 u hu) hPu with ⟨t, ht, hPt⟩
    exact ⟨t, (run_cons_eq_some step a as s t).mpr ⟨u, hu, ht⟩, hPt⟩

theorem run_preserves_of (C : σ → α → Prop) (P : σ → Prop)
    (hstep : ∀ s a t, C s a → P s → step s a = some t → P t) (as : List α) (s t : σ)
    (hC : MeetsAlong step C s as) (hs : P s) (h : run step s as = some t) : P t := by
  induction as generalizing s with
  | nil =>
    rw [run_nil_eq_some] at h
    rw [← h]
    exact hs
  | cons a as ih =>
    rcases (run_cons_eq_some step a as s t).mp h with ⟨u, hu, hrest⟩
    exact ih u (hC.2 u hu) (hstep s a u hC.1 hs hu) hrest

theorem run_length_le (C : σ → α → Prop) (P : σ → Prop) (μ : σ → Nat)
    (hstep : ∀ s a t, C s a → P s → step s a = some t → P t)
    (hlt : ∀ s a t, P s → step s a = some t → μ t < μ s)
    (as : List α) (s t : σ) (hC : MeetsAlong step C s as) (hs : P s)
    (h : run step s as = some t) : as.length + μ t ≤ μ s := by
  induction as generalizing s with
  | nil =>
    rw [run_nil_eq_some] at h
    exact Nat.le_of_eq (by rw [h, List.length_nil, Nat.zero_add])
  | cons a as ih =>
    rcases (run_cons_eq_some step a as s t).mp h with ⟨u, hu, hrest⟩
    have hrun := ih u (hC.2 u hu) (hstep s a u hC.1 hs hu) hrest
    have := hlt s a u hs hu
    rw [List.length_cons]
    omega

theorem run_preserves (P : σ → Prop) (hstep : ∀ s a t, P s → step s a = some t → P t)
    (as : List α) (s t : σ) (hs : P s) (h : run step s as = some t) : P t :=
  run_preserves_of step (fun _ _ => True) P (fun s a t _ => hstep s a t) as s t
    (meetsAlong_true step s as) hs h

end Berberis.Lib
