import Mathlib

/-!
# Loops that may Return

A counted loop whose body may leave the function that it is in. The flag of the
result tells whether the loop went on to its end.
-/

namespace Berberis.Lib.EarlyExit

variable {σ : Type*}

def loop (body : Nat → σ → σ × Bool) : Nat → Nat → σ → σ × Bool
  | _, 0, s => (s, true)
  | r, left + 1, s =>
    match body r s with
    | (s, true) => loop body (r + 1) left s
    | (s, false) => (s, false)

theorem loop_spec {body : Nat → σ → σ × Bool} (Inv : Nat → σ → Prop)
    (hbody : ∀ r s s', Inv r s → body r s = (s', true) → Inv (r + 1) s') :
    ∀ {left r : Nat} {s s' : σ} {done : Bool}, Inv r s → loop body r left s = (s', done) →
      (done = true ∧ Inv (r + left) s') ∨
      (done = false ∧ ∃ r' s'', r ≤ r' ∧ r' < r + left ∧
        Inv r' s'' ∧ body r' s'' = (s', false)) := by
  intro left
  induction left with
  | zero =>
    intro r s s' done hinv h
    obtain ⟨rfl, rfl⟩ := Prod.mk.inj h
    exact Or.inl ⟨rfl, hinv⟩
  | succ left ih =>
    intro r s s' done hinv h
    unfold loop at h
    rcases hround : body r s with ⟨s₁, _ | _⟩
    · -- The round leaves the loop.
      rw [hround] at h
      obtain ⟨rfl, rfl⟩ := Prod.mk.inj h
      exact Or.inr ⟨rfl, r, s, Nat.le_refl r, by omega, hinv, hround⟩
    · rw [hround] at h
      rcases ih (hbody r s s₁ hinv hround) h with ⟨hdone, hend⟩ | ⟨hdone, r', s'', hle, hlt, hrest⟩
      · exact Or.inl ⟨hdone, by rwa [Nat.add_right_comm, Nat.add_assoc] at hend⟩
      · exact Or.inr ⟨hdone, r', s'', by omega, by omega, hrest⟩

end Berberis.Lib.EarlyExit
