import Mathlib

/-!
# Counted Loops

A loop over the numbers of a range, with a body that may fail. What holds before
the loop and is kept by its body holds after it, and a body that does not fail
leaves a loop that does not.
-/

namespace Berberis.Lib

variable {σ : Type}

def forRange (f : Nat → σ → Option σ) : (start count : Nat) → σ → Option σ
  | _, 0, s => some s
  | start, count + 1, s => (f start s).bind (forRange f (start + 1) count)

theorem forRange_induct {f : Nat → σ → Option σ} (P : Nat → σ → Prop) {start count : Nat} {s : σ}
    (h : P start s)
    (hbody : ∀ i s, start ≤ i → i < start + count → P i s → ∃ s', f i s = some s' ∧ P (i + 1) s') :
    ∃ s', forRange f start count s = some s' ∧ P (start + count) s' := by
  induction count generalizing start s with
  | zero => exact ⟨s, rfl, h⟩
  | succ count ih =>
    rcases hbody start s (Nat.le_refl _) (by omega) h with ⟨s₁, hs₁, h₁⟩
    rcases ih h₁ fun i s hle hlt => hbody i s (by omega) (by omega) with ⟨s', hs', h'⟩
    refine ⟨s', ?_, ?_⟩
    · rw [forRange, hs₁]
      exact hs'
    · rwa [show start + (count + 1) = start + 1 + count by omega]

theorem forRange_zero (f : Nat → σ → Option σ) (start : Nat) (s : σ) :
    forRange f start 0 s = some s := rfl

theorem forRange_succ (f : Nat → σ → Option σ) (start count : Nat) (s : σ) :
    forRange f start (count + 1) s = (f start s).bind (forRange f (start + 1) count) := rfl

/-- A loop fails if its body does for one of the numbers, when that does not depend on
    what the body has done before. -/
theorem forRange_eq_none_iff {f : Nat → σ → Option σ} (P : Nat → Prop) {start count : Nat} {s : σ}
    (h : ∀ i s, start ≤ i → i < start + count → (f i s = none ↔ P i)) :
    forRange f start count s = none ↔ ∃ i, start ≤ i ∧ i < start + count ∧ P i := by
  induction count generalizing start s with
  | zero => exact iff_of_false nofun fun ⟨i, hle, hlt, _⟩ => by omega
  | succ count ih =>
    rw [forRange_succ]
    have hfst := h start s (Nat.le_refl _) (by omega)
    cases hf : f start s with
    | none => exact iff_of_true rfl ⟨start, Nat.le_refl _, by omega, hfst.1 hf⟩
    | some s₁ =>
      rw [Option.bind_some, ih fun i s hle hlt => h i s (by omega) (by omega)]
      -- The first step is not the one that fails.
      have hnot : ¬ P start := fun hp => by rw [hfst.2 hp] at hf; cases hf
      constructor
      · rintro ⟨i, hle, hlt, hp⟩
        exact ⟨i, by omega, by omega, hp⟩
      · rintro ⟨i, hle, hlt, hp⟩
        have hne : i ≠ start := fun heq => hnot (heq ▸ hp)
        exact ⟨i, by omega, by omega, hp⟩

theorem forRange_ne_none {f : Nat → σ → Option σ} {start count : Nat} {s : σ}
    (h : ∀ i s, start ≤ i → i < start + count → f i s ≠ none) :
    forRange f start count s ≠ none := by
  intro hnone
  obtain ⟨i, -, -, hfalse⟩ := (forRange_eq_none_iff (fun _ => False)
    fun i s hle hlt => iff_of_false (h i s hle hlt) id).1 hnone
  exact hfalse

theorem forRange_pairs (f : Nat → σ → Option σ) (start count : Nat) (s : σ) :
    forRange (fun i s => (f (2 * i) s).bind (f (2 * i + 1))) start count s =
      forRange f (2 * start) (2 * count) s := by
  induction count generalizing start s with
  | zero => rfl
  | succ count ih =>
    rw [forRange_succ, Nat.mul_succ, forRange_succ, Option.bind_assoc]
    refine Option.bind_congr fun s₁ _ => ?_
    rw [forRange_succ]
    refine Option.bind_congr fun s₂ _ => ?_
    rw [ih, Nat.mul_succ]

end Berberis.Lib
